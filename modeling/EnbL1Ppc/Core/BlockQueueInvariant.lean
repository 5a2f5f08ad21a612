import EnbL1Ppc.Core.BlockQueue
import Mathlib.Tactic

namespace EnbL1Ppc.Core.BlockQueue

open Lib

variable {P : Type} {w : ℕ}

theorem toNat_and_pred {n : BitVec 32} (h : n ≠ 0) :
    (n &&& (n - 1)).toNat = n.toNat &&& (n.toNat - 1) := by
  have hn : n.toNat ≠ 0 := fun h' ↦ h (BitVec.eq_of_toNat_eq (by simpa using h'))
  have hle : (1 : BitVec 32) ≤ n := BitVec.le_def.2 (by simp; omega)
  rw [BitVec.toNat_and, BitVec.toNat_sub_of_le hle]
  rfl

theorem two_pow_le_and {k a b : ℕ} (ha : 2 ^ k ≤ a) (ha' : a < 2 ^ (k + 1)) (hb : 2 ^ k ≤ b)
    (hb' : b < 2 ^ (k + 1)) : 2 ^ k ≤ a &&& b := by
  apply Nat.ge_two_pow_of_testBit
  rw [Nat.testBit_and, Nat.testBit_of_two_pow_le_and_two_pow_add_one_gt ha ha',
    Nat.testBit_of_two_pow_le_and_two_pow_add_one_gt hb hb', Bool.and_self]

theorem and_pred_of_two_pow {k : ℕ} {n : BitVec 32} (h : n.toNat = 2 ^ k) : n &&& (n - 1) = 0 := by
  have hne : n ≠ 0 := by
    rintro rfl
    exact (Nat.two_pow_pos k).ne h
  apply BitVec.eq_of_toNat_eq
  rw [toNat_and_pred hne, h, Nat.and_two_pow_sub_one_eq_mod, Nat.mod_self]
  rfl

theorem clearLowBits_eq {k fuel : ℕ} {n : BitVec 32} (hk : 2 ^ k ≤ n.toNat)
    (hn : n.toNat < 2 ^ (k + 1)) (hf : n.toNat ≤ fuel) :
    (clearLowBits fuel n).toNat = 2 ^ k := by
  have hpos := Nat.two_pow_pos k
  induction fuel generalizing n with
  | zero => omega
  | succ fuel ih =>
    have hne : n ≠ 0 := by rintro rfl; simp at hk
    have hand := toNat_and_pred hne
    by_cases he : n.toNat = 2 ^ k
    · rw [clearLowBits, if_neg (not_not.2 (and_pred_of_two_pow he)), he]
    · have hle := two_pow_le_and hk hn (b := n.toNat - 1) (by omega) (by omega)
      have hlt : n.toNat &&& (n.toNat - 1) ≤ n.toNat - 1 := Nat.and_le_right
      have hnz : n &&& (n - 1) ≠ 0 := fun h ↦ by
        rw [← hand, h] at hle
        simp at hle
      rw [clearLowBits, if_pos hnz]
      rw [← hand] at hle hlt
      exact ih hle (by omega) (by omega)

theorem clearLowBits_ends {fuel : ℕ} {n : BitVec 32} (hf : n.toNat ≤ fuel) :
    clearLowBits fuel n &&& (clearLowBits fuel n - 1) = 0 := by
  by_cases hzero : n.toNat = 0
  · obtain rfl : n = 0 := BitVec.eq_of_toNat_eq hzero
    have hloop : clearLowBits fuel 0 = 0 := by cases fuel <;> rfl
    rw [hloop]
    rfl
  · have hlo := Nat.pow_log_le_self 2 hzero
    have hhi := Nat.lt_pow_succ_log_self (b := 2) (by decide) n.toNat
    exact and_pred_of_two_pow (clearLowBits_eq hlo hhi hf)

theorem powerOfTwoRoundUp_spec {n : BitVec 32} (hn : 2 ≤ n.toNat) (hn' : n.toNat ≤ 2 ^ 30) :
    ∃ k, (powerOfTwoRoundUp n).toNat = 2 ^ (k + 1) ∧ n.toNat ≤ 2 ^ (k + 1) ∧ 2 ^ k < n.toNat := by
  have hpred : (n - 1).toNat = n.toNat - 1 :=
    BitVec.toNat_sub_of_le (BitVec.le_def.2 (by simp; omega))
  have hlo := Nat.pow_log_le_self 2 (x := n.toNat - 1) (by omega)
  have hhi : n.toNat - 1 < 2 ^ (Nat.log 2 (n.toNat - 1) + 1) :=
    Nat.lt_pow_succ_log_self (by omega) _
  refine ⟨Nat.log 2 (n.toNat - 1), ?_, by omega, by omega⟩
  rw [powerOfTwoRoundUp, BitVec.toNat_shiftLeft, hpred,
    clearLowBits_eq (n := n - 1) (by rwa [hpred]) (by rwa [hpred]) hpred.le, Nat.shiftLeft_eq,
    pow_one, pow_succ]
  exact Nat.mod_eq_of_lt (by omega)

def IsRoundedUp (n p : ℕ) : Prop := IsLeast {p | (∃ k, p = 2 ^ k) ∧ n ≤ p} p

theorem powerOfTwoRoundUp_isRoundedUp {n : BitVec 32} (hn : 2 ≤ n.toNat)
    (hn' : n.toNat ≤ 2 ^ 30) : IsRoundedUp n.toNat (powerOfTwoRoundUp n).toNat := by
  obtain ⟨k, hk, hle, hlt⟩ := powerOfTwoRoundUp_spec hn hn'
  rw [hk]
  refine ⟨⟨⟨k + 1, rfl⟩, hle⟩, ?_⟩
  rintro _ ⟨⟨j, rfl⟩, hj⟩
  refine Nat.pow_le_pow_right Nat.two_pos ?_
  exact (Nat.pow_lt_pow_iff_right Nat.one_lt_two).1 (hlt.trans_le hj)

/-- What every operation keeps, whatever the flags: the indices stay inside the ring and
the ring is never overfilled. -/
structure Shaped (q : BlockQueue P w) : Prop where
  len_eq : ∃ k, q.len = 2 ^ (k + 1)
  head_lt : q.head < q.len
  tail_lt : q.tail < q.len
  numItems_le : q.numItems ≤ q.len

structure Consistent (q : BlockQueue P w) : Prop where
  numItems_nonneg : 0 ≤ q.numItems
  numItems_le : q.numItems ≤ q.len
  head_eq : (q.head : ℤ) = (q.tail + q.numItems) % q.len
  accumulated_eq : q.accumulatedItemsLen = (q.held.map QueueItem.len).sum

theorem Shaped.len_ge {q : BlockQueue P w} (h : Shaped q) : 2 ≤ q.len := by
  obtain ⟨k, hk⟩ := h.len_eq
  have := Nat.two_pow_pos k
  rw [hk, pow_succ]
  omega

theorem Shaped.mask {q : BlockQueue P w} (h : Shaped q) (i : ℕ) :
    i &&& (q.len - 1) = i % q.len := by
  obtain ⟨k, hk⟩ := h.len_eq
  rw [hk, Nat.and_two_pow_sub_one_eq_mod]

theorem init_shaped [Inhabited P] {n : BitVec 32} (hn : 2 ≤ n.toNat) (hn' : n.toNat ≤ 2 ^ 30) :
    Shaped (init n : BlockQueue P w) := by
  obtain ⟨k, hk, -, -⟩ := powerOfTwoRoundUp_spec hn hn'
  have hpos : 0 < (powerOfTwoRoundUp n).toNat := hk ▸ Nat.two_pow_pos _
  exact ⟨⟨k, hk⟩, hpos, hpos, by simp [init]⟩

/-- The loop of `power_of_two_round_up` ends, and its result is the rounded length except for 1,
which is rounded to 0. -/
theorem roundUp_isRoundedUp_iff [Inhabited P] {n : BitVec 32} (hn : 1 ≤ n.toNat)
    (hn' : n.toNat ≤ 2 ^ 30) :
    clearLowBits (n - 1).toNat (n - 1) &&& (clearLowBits (n - 1).toNat (n - 1) - 1) = 0 ∧
    (IsRoundedUp n.toNat (powerOfTwoRoundUp n).toNat ∧
      0 < (init n : BlockQueue P w).len ∧
      (∀ i, i &&& ((init n : BlockQueue P w).len - 1) = i % (init n : BlockQueue P w).len) ↔
        n.toNat ≠ 1) := by
  refine ⟨clearLowBits_ends le_rfl, ?_, fun hne ↦ ?_⟩
  · rintro ⟨-, hpos, -⟩ hone
    obtain rfl : n = 1 := BitVec.eq_of_toNat_eq hone
    have hlen : (init 1 : BlockQueue P w).len = 0 := rfl
    exact hpos.ne' hlen
  · have hshaped : Shaped (init n : BlockQueue P w) := init_shaped (by omega) hn'
    exact ⟨powerOfTwoRoundUp_isRoundedUp (by omega) hn',
      Nat.zero_lt_of_lt hshaped.len_ge, hshaped.mask⟩

theorem roundUp_isRoundedUp_iff_five : IsRoundedUp 5 (powerOfTwoRoundUp 5).toNat :=
  ((roundUp_isRoundedUp_iff (P := ℕ) (w := 32) (n := 5) (by decide) (by decide)).2.2
    (by decide)).1

/-- A queue for one item has no slot, and `len - 1` is no mask. -/
theorem roundUp_one : (powerOfTwoRoundUp 1).toNat = 0 ∧ (init 1 : BlockQueue ℕ 32).len = 0 ∧
    ¬IsRoundedUp 1 (powerOfTwoRoundUp 1).toNat := by
  have hzero : (powerOfTwoRoundUp 1).toNat = 0 := rfl
  refine ⟨hzero, hzero, ?_⟩
  rw [hzero]
  rintro ⟨⟨-, hle⟩, -⟩
  exact absurd hle (by decide)

theorem init_consistent [Inhabited P] (n : BitVec 32) : Consistent (init n : BlockQueue P w) :=
  ⟨le_rfl, by simp [init], by simp [init], by simp [init, held]⟩

section Operations

variable {q : BlockQueue P w}

theorem Consistent.count (h : Consistent q) : ∃ n : ℕ, q.numItems = n ∧ n ≤ q.len ∧
    q.head = (q.tail + n) % q.len ∧ q.held = Ring.window q.queue q.len q.tail n := by
  obtain ⟨n, hn⟩ := Int.eq_ofNat_of_zero_le h.numItems_nonneg
  have hle := h.numItems_le
  have hhead := h.head_eq
  rw [hn] at hle hhead
  exact ⟨n, hn, by exact_mod_cast hle, by exact_mod_cast hhead, by rw [held, hn, Int.toNat_natCast]⟩

theorem Consistent.of_count {n : ℕ} (hn : q.numItems = n) (hle : n ≤ q.len)
    (hhead : q.head = (q.tail + n) % q.len)
    (hacc : q.accumulatedItemsLen = (q.held.map QueueItem.len).sum) : Consistent q := by
  refine ⟨by omega, by omega, ?_, hacc⟩
  rw [hn]
  exact_mod_cast hhead

theorem Consistent.length_held (h : Consistent q) : (q.held.length : ℤ) = q.numItems := by
  obtain ⟨n, hn, -, -, hw⟩ := h.count
  rw [hw, Ring.length_window, hn]

theorem Shaped.store (h : Shaped q) (hn : q.numItems ≠ q.len) (item : P) (itemLen : ℤ) :
    Shaped (q.store item itemLen) := by
  have hlen := h.len_ge
  have hle := h.numItems_le
  refine ⟨h.len_eq, ?_, h.tail_lt, ?_⟩
  · change (q.head + 1) &&& (q.len - 1) < q.len
    rw [h.mask]
    exact Nat.mod_lt _ (by omega)
  · rw [store_numItems, store_len]
    omega

theorem Shaped.remove (h : Shaped q) : Shaped q.remove := by
  have hlen := h.len_ge
  have hle := h.numItems_le
  refine ⟨h.len_eq, h.head_lt, ?_, ?_⟩
  · change (q.tail + 1) &&& (q.len - 1) < q.len
    rw [h.mask]
    exact Nat.mod_lt _ (by omega)
  · rw [remove_numItems, remove_len]
    omega

theorem held_store (h : Consistent q) (hn : q.numItems ≠ q.len) (item : P) (itemLen : ℤ) :
    (q.store item itemLen).held = q.held ++ [⟨item, BitVec.ofInt w itemLen⟩] := by
  obtain ⟨n, hc, hle, hhead, hw⟩ := h.count
  have hlt : n < q.len := by omega
  have hnum : (q.store item itemLen).numItems.toNat = n + 1 := by rw [store_numItems, hc]; rfl
  rw [held, hnum, hw, ← Ring.window_push q.queue hlt, ← hhead]
  rfl

theorem Consistent.store (hs : Shaped q) (h : Consistent q) (hn : q.numItems ≠ q.len)
    (item : P) (itemLen : ℤ) : Consistent (q.store item itemLen) := by
  obtain ⟨n, hc, hle, hhead, -⟩ := h.count
  have hhead' : (q.store item itemLen).head = (q.tail + (n + 1)) % q.len := by
    change (q.head + 1) &&& (q.len - 1) = _
    rw [hs.mask, hhead, Nat.mod_add_mod, Nat.add_assoc]
  refine .of_count (n := n + 1) (by rw [store_numItems, hc]; rfl) ?_ hhead' ?_
  · rw [store_len]
    omega
  · rw [held_store h hn, List.map_append, List.sum_append, ← h.accumulated_eq]
    simp [BlockQueue.store]

theorem held_remove (hs : Shaped q) (h : Consistent q) (hn : q.numItems ≠ 0) :
    q.held = q.queue q.tail :: q.remove.held := by
  obtain ⟨n, hc, -, -, hw⟩ := h.count
  obtain ⟨m, rfl⟩ := Nat.exists_eq_succ_of_ne_zero (n := n) (by omega)
  have hnum : q.remove.numItems.toNat = m := by rw [remove_numItems, hc]; omega
  have htail : q.remove.tail = (q.tail + 1) % q.len := hs.mask _
  rw [hw, Nat.succ_eq_add_one, Ring.window_cons, Nat.mod_eq_of_lt hs.tail_lt, held, hnum, htail]
  rfl

theorem Consistent.remove (hs : Shaped q) (h : Consistent q) (hn : q.numItems ≠ 0) :
    Consistent q.remove := by
  obtain ⟨n, hc, hle, hhead, -⟩ := h.count
  have htail : q.remove.tail = (q.tail + 1) % q.len := hs.mask _
  refine .of_count (n := n - 1) (by rw [remove_numItems, hc]; omega) ?_ ?_ ?_
  · rw [remove_len]
    omega
  · rw [htail, remove_len, Nat.mod_add_mod, Nat.add_assoc, Nat.add_sub_cancel' (by omega)]
    exact hhead
  · have hacc := h.accumulated_eq
    rw [held_remove hs h hn, List.map_cons, List.sum_cons] at hacc
    change q.accumulatedItemsLen - (q.queue q.tail).len = _
    rw [hacc, add_sub_cancel_left]

theorem Shaped.clear (h : Shaped q) : Shaped q.clear := by
  have hlen := h.len_ge
  exact ⟨h.len_eq, by change 0 < q.len; omega, by change 0 < q.len; omega, by simp [BlockQueue.clear]⟩

theorem consistent_clear (q : BlockQueue P w) : Consistent q.clear :=
  ⟨le_rfl, by simp [BlockQueue.clear], by simp [BlockQueue.clear],
    by simp [BlockQueue.clear, held]⟩

theorem Shaped.lastIndex (h : Shaped q) : q.lastIndex < q.len ∧ (q.lastIndex + 1) % q.len = q.head := by
  have hlen := h.len_ge
  have hhead := h.head_lt
  unfold BlockQueue.lastIndex
  split_ifs with h0
  · refine ⟨by omega, ?_⟩
    rw [Nat.sub_add_cancel h0, Nat.mod_eq_of_lt hhead]
  · refine ⟨by omega, ?_⟩
    rw [Nat.sub_add_cancel (by omega), Nat.mod_self]
    omega

theorem lastIndex_eq_tail (hs : Shaped q) (h : Consistent q) (hn : q.numItems = 1) :
    q.lastIndex = q.tail := by
  obtain ⟨n, hc, -, hhead, -⟩ := h.count
  obtain rfl : n = 1 := by omega
  obtain ⟨hlt, hmod⟩ := hs.lastIndex
  have hm : (1 + q.lastIndex) % q.len = (1 + q.tail) % q.len := by
    rw [Nat.add_comm, hmod, hhead, Nat.add_comm]
  exact (Ring.add_mod_inj hlt hs.tail_lt).1 hm

variable [Inhabited P]

theorem Shaped.popBody (h : Shaped q) : Shaped q.popBody.1 :=
  ⟨h.remove.len_eq, h.remove.head_lt, h.remove.tail_lt, h.remove.numItems_le⟩

theorem Shaped.popLastBody (h : Shaped q) : Shaped q.popLastBody.1 :=
  Shaped.popBody (q := { q with tail := q.lastIndex })
    ⟨h.len_eq, h.head_lt, h.lastIndex.1, h.numItems_le⟩

theorem consistent_popBody_iff (hs : Shaped q) (h : Consistent q) :
    Consistent q.popBody.1 ↔ 0 < q.numItems := by
  constructor
  · intro hp
    have hn : 0 ≤ q.numItems - 1 := hp.numItems_nonneg
    omega
  · intro hn
    have hr := h.remove hs (by omega)
    exact ⟨hr.numItems_nonneg, hr.numItems_le, hr.head_eq, hr.accumulated_eq⟩

theorem popLastBody_eq_popBody (hs : Shaped q) (h : Consistent q) (hn : q.numItems = 1) :
    q.popLastBody = q.popBody := by
  rw [BlockQueue.popLastBody, lastIndex_eq_tail hs h hn]

theorem popLastBody_tail (hs : Shaped q) : q.popLastBody.1.tail = q.head :=
  (hs.mask (q.lastIndex + 1)).trans hs.lastIndex.2

theorem consistent_popLastBody_iff (hs : Shaped q) (h : Consistent q) :
    Consistent q.popLastBody.1 ↔ q.numItems = 1 := by
  constructor
  · intro hp
    have hlen := hs.len_ge
    have hle := h.numItems_le
    obtain ⟨n, hc, -, hhead, -⟩ := hp.count
    rw [popLastBody_tail hs] at hhead
    have hnum : q.numItems - 1 = n := hc
    have hmod : (q.head + 0) % q.len = (q.head + n) % q.len := by
      rw [Nat.add_zero, Nat.mod_eq_of_lt hs.head_lt]
      exact hhead
    have hz := (Ring.add_mod_inj (by omega) (by omega)).1 hmod
    omega
  · intro hn
    rw [popLastBody_eq_popBody hs h hn, consistent_popBody_iff hs h]
    omega

end Operations

end EnbL1Ppc.Core.BlockQueue
