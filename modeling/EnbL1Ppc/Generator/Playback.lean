import EnbL1Ppc.Generator.TtiCounters
import Mathlib.Data.List.ReduceOption

namespace EnbL1Ppc.Generator

open Lib Fapi.Requests

/-! Consecutive TTIs -/

def indicationAt (t : ℕ) : Indication :=
  ⟨.ofNat 32 (t % 10240 / 10), .ofNat 32 (t % 10240 % 10)⟩

def consecutive : ℕ → ℕ → List Indication
  | _, 0 => []
  | t, n + 1 => indicationAt t :: consecutive (t + 1) n

def absAfter : BitVec 32 → ℕ → ℕ → BitVec 32
  | a, _, 0 => a
  | a, t, n + 1 => absAfter (countTti a (indicationAt t)) (t + 1) n

variable {a : BitVec 32} {t n k len : ℕ}

theorem subframe_indicationAt (t : ℕ) : (indicationAt t).subframe.toNat = t % 10 := by
  rw [indicationAt, BitVec.toNat_ofNat]
  omega

theorem valid_indicationAt (t : ℕ) : (indicationAt t).Valid := by
  refine ⟨?_, ?_⟩
  · rw [indicationAt, BitVec.toNat_ofNat]
    omega
  · rw [subframe_indicationAt]
    omega

theorem number_indicationAt (t : ℕ) : (indicationAt t).number = t % 10240 := by
  rw [Indication.number, subframe_indicationAt, indicationAt, BitVec.toNat_ofNat]
  omega

theorem valid_of_mem_consecutive {ind : Indication} (h : ind ∈ consecutive t n) : ind.Valid := by
  induction n generalizing t with
  | zero => cases h
  | succ n ih =>
    rcases List.mem_cons.1 h with rfl | h
    · exact valid_indicationAt t
    · exact ih h

theorem countTti_mod_ten (a : BitVec 32) (t : ℕ) :
    (countTti a (indicationAt t)).toNat % 10 = t % 10 := by
  rw [countTti]
  split_ifs with h
  · rw [(valid_indicationAt t).toNat_tti, number_indicationAt]
    omega
  · rw [not_not, add_one_mod_ten_iff, subframe_indicationAt] at h
    exact h

theorem countTti_eq_add_one (h : (a.toNat + 1) % 10 = t % 10) (hlt : a.toNat + 1 < 2 ^ 32) :
    (countTti a (indicationAt t)).toNat = a.toNat + 1 := by
  have hne : a ≠ BitVec.allOnes 32 := by
    rintro rfl
    exact absurd hlt (by decide)
  rw [countTti, if_neg, toNat_add_one hne]
  rw [not_not, add_one_mod_ten_iff, toNat_add_one hne, subframe_indicationAt, h]

theorem countTti_allOnes (h : t % 10 = 6) :
    (countTti (BitVec.allOnes 32) (indicationAt t)).toNat = t % 10240 := by
  rw [countTti, if_pos, (valid_indicationAt t).toNat_tti, number_indicationAt]
  rw [ne_eq, add_one_mod_ten_iff, subframe_indicationAt, h]
  decide

theorem absAfter_add (a : BitVec 32) (t m n : ℕ) :
    absAfter a t (m + n) = absAfter (absAfter a t m) (t + m) n := by
  induction m generalizing a t with
  | zero => rw [Nat.zero_add]; rfl
  | succ m ih => rw [Nat.succ_add, absAfter, ih, absAfter, Nat.succ_add_eq_add_succ]

theorem toNat_absAfter (h : (a.toNat + 1) % 10 = t % 10) (hlt : a.toNat + n < 2 ^ 32) :
    (absAfter a t n).toNat = a.toNat + n := by
  induction n generalizing a t with
  | zero => rfl
  | succ n ih =>
    have hone := countTti_eq_add_one h (by omega)
    rw [absAfter, ih, hone]
    · omega
    · omega
    · omega

theorem exists_absAfter_of_lt (h : (a.toNat + 1) % 10 = t % 10) (hk : k < len)
    (hlt : a.toNat + len < 2 ^ 32) : ∃ n, (absAfter a t (n + 1)).toNat % len = k := by
  have hmod := Nat.mod_lt (a.toNat + 1) (Nat.zero_lt_of_lt hk)
  have hd := Nat.mod_lt (k + len - (a.toNat + 1) % len) (Nat.zero_lt_of_lt hk)
  refine ⟨(k + len - (a.toNat + 1) % len) % len, ?_⟩
  have hdiv := Nat.div_add_mod (a.toNat + 1) len
  have hsum : a.toNat + 1 + (k + len - (a.toNat + 1) % len) =
      k + len * ((a.toNat + 1) / len + 1) := by
    rw [Nat.mul_succ]
    omega
  rw [toNat_absAfter h (by omega), Nat.add_comm _ 1, ← Nat.add_assoc, Nat.add_mod_mod, hsum,
    Nat.add_mul_mod_self_left, Nat.mod_eq_of_lt hk]

theorem exists_absAfter (a : BitVec 32) (t : ℕ) (hk : k < len) (hlen : len < 2 ^ 31) :
    ∃ n, (absAfter a t (n + 1)).toNat % len = k := by
  -- behind the first indication the counter is in step with the subframes
  generalize hb : countTti a (indicationAt t) = b
  have hphase : (b.toNat + 1) % 10 = (t + 1) % 10 := by
    have hmod := countTti_mod_ten a t
    rw [hb] at hmod
    omega
  suffices h : ∃ n, (absAfter b (t + 1) (n + 1)).toNat % len = k by
    obtain ⟨n, hn⟩ := h
    refine ⟨n + 1, ?_⟩
    rw [absAfter, hb]
    exact hn
  rcases Nat.lt_or_ge (b.toNat + len) (2 ^ 32) with hlt | hge
  · exact exists_absAfter_of_lt hphase hk hlt
  · -- the counter wraps first and is set to the number of the TTI
    have hbound := b.isLt
    have hlast : absAfter b (t + 1) (2 ^ 32 - 1 - b.toNat) = BitVec.allOnes 32 := by
      refine BitVec.eq_of_toNat_eq ?_
      rw [toNat_absAfter hphase (by omega), BitVec.toNat_allOnes]
      omega
    generalize hm : 2 ^ 32 - 1 - b.toNat = m at hlast
    have hwrap := countTti_allOnes (t := t + 1 + m) (by omega)
    obtain ⟨n, hn⟩ := exists_absAfter_of_lt
      (a := countTti (BitVec.allOnes 32) (indicationAt (t + 1 + m))) (t := t + 1 + m + 1)
      (by omega) hk (by omega)
    refine ⟨m + (n + 1), ?_⟩
    rw [Nat.add_assoc, absAfter_add, hlast]
    exact hn

/-! The cursor -/

variable {ttis : List (BitVec 32)} {p : Player}

theorem Player.tick_eq_countTti (p : Player) (ind : Indication) :
    p.tick ind = countTti p.absTti ind :=
  (ite_not ..).symm

theorem next_ptr (h : p.ptr < len) :
    (if p.ptr + 1 < len then p.ptr + 1 else 0) = (p.ptr + 1) % len := by
  split_ifs with hlt
  · exact (Nat.mod_eq_of_lt hlt).symm
  · rw [show p.ptr + 1 = len by omega, Nat.mod_self]

theorem next_cases (h : p.ptr < ttis.length) (ind : Indication) :
    p.next ttis ind = (⟨(p.ptr + 1) % ttis.length, p.tick ind⟩, some p.ptr) ∧
        ttis[p.ptr].toNat = (p.tick ind).toNat % ttis.length ∨
      p.next ttis ind = (⟨p.ptr, p.tick ind⟩, none) ∧
        ttis[p.ptr].toNat ≠ (p.tick ind).toNat % ttis.length := by
  have hget := List.getElem?_eq_getElem h
  have hdue : (∃ t ∈ ttis[p.ptr]?, t.toNat = (p.tick ind).toNat % ttis.length) ↔
      ttis[p.ptr].toNat = (p.tick ind).toNat % ttis.length := by
    rw [hget]
    simp
  rw [Player.next, next_ptr h]
  simp only [hdue]
  split_ifs with hplay
  · exact .inl ⟨rfl, hplay⟩
  · exact .inr ⟨rfl, hplay⟩

theorem next_ptr_lt (h : p.ptr < ttis.length) (ind : Indication) :
    (p.next ttis ind).1.ptr < ttis.length := by
  rcases next_cases h ind with ⟨hnext, -⟩ | ⟨hnext, -⟩
  · rw [hnext]
    exact Nat.mod_lt _ (Nat.zero_lt_of_lt h)
  · rw [hnext]
    exact h

theorem reduceOption_played (h : p.ptr < ttis.length) (inds : List Indication) :
    ∃ m, (played ttis p inds).reduceOption =
      (List.range m).map fun i ↦ (p.ptr + i) % ttis.length := by
  induction inds generalizing p with
  | nil => exact ⟨0, rfl⟩
  | cons ind inds ih =>
    obtain ⟨m, hm⟩ := ih (next_ptr_lt h ind)
    rw [played]
    rcases next_cases h ind with ⟨hnext, -⟩ | ⟨hnext, -⟩
    · have hfirst : (p.ptr + 0) % ttis.length = p.ptr := Nat.mod_eq_of_lt h
      refine ⟨m + 1, ?_⟩
      rw [hnext] at hm ⊢
      rw [List.reduceOption_cons_of_some, hm, List.range_succ_eq_map, List.map_cons, List.map_map,
        hfirst]
      refine congrArg _ (List.map_congr_left fun i _ ↦ ?_)
      rw [Nat.mod_add_mod, Function.comp_apply, Nat.succ_eq_add_one, Nat.add_right_comm,
        ← Nat.add_assoc]
    · refine ⟨m, ?_⟩
      rw [hnext] at hm ⊢
      rw [List.reduceOption_cons_of_none, hm]

theorem lt_of_mem_played (h : p.ptr < ttis.length) {inds : List Indication}
    (hk : some k ∈ played ttis p inds) : ∃ x ∈ ttis[k]?, x.toNat < ttis.length := by
  induction inds generalizing p with
  | nil => cases hk
  | cons ind inds ih =>
    rw [played] at hk
    rcases List.mem_cons.1 hk with hk | hk
    · rcases next_cases h ind with ⟨hnext, hdue⟩ | ⟨hnext, -⟩
      · rw [hnext] at hk
        cases hk
        refine ⟨_, List.getElem?_eq_getElem h, ?_⟩
        rw [hdue]
        exact Nat.mod_lt _ (Nat.zero_lt_of_lt h)
      · rw [hnext] at hk
        cases hk
    · exact ih (next_ptr_lt h ind) hk

def Numbered (ttis : List (BitVec 32)) : Prop :=
  ∀ (i : ℕ) (x : BitVec 32), ttis[i]? = some x → x.toNat = i

def Emits (ttis : List (BitVec 32)) (p : Player) (t k : ℕ) : Prop :=
  ∃ n, some k ∈ played ttis p (consecutive t n)

theorem Emits.of_next (h : Emits ttis (p.next ttis (indicationAt t)).1 (t + 1) k) :
    Emits ttis p t k := by
  obtain ⟨n, hn⟩ := h
  exact ⟨n + 1, List.mem_cons_of_mem _ hn⟩

theorem emits_now {ptr : ℕ} {abs : BitVec 32}
    (hnext : p.next ttis (indicationAt t) = (⟨ptr, abs⟩, some p.ptr)) :
    Emits ttis p t p.ptr ∧ ∃ p' t', p'.ptr = ptr ∧ ∀ k, Emits ttis p' t' k → Emits ttis p t k := by
  refine ⟨⟨1, ?_⟩, _, t + 1, ?_, fun k hk ↦ hk.of_next⟩
  · rw [consecutive, played, hnext]
    exact List.mem_cons_self
  · rw [hnext]

theorem emits_ptr (hidx : Numbered ttis) (h : p.ptr < ttis.length)
    (hn : (absAfter p.absTti t (n + 1)).toNat % ttis.length = p.ptr) :
    Emits ttis p t p.ptr ∧ ∃ p' t', p'.ptr = (p.ptr + 1) % ttis.length ∧
      ∀ k, Emits ttis p' t' k → Emits ttis p t k := by
  have htti := hidx _ _ (List.getElem?_eq_getElem h)
  induction n generalizing p t with
  | zero =>
    rcases next_cases h (indicationAt t) with ⟨hnext, -⟩ | ⟨-, hne⟩
    · exact emits_now hnext
    · rw [htti, Player.tick_eq_countTti] at hne
      exact absurd hn.symm hne
  | succ n ih =>
    rcases next_cases h (indicationAt t) with ⟨hnext, -⟩ | ⟨hnext, -⟩
    · exact emits_now hnext
    · have hstay := ih (p := ⟨p.ptr, p.tick (indicationAt t)⟩) (t := t + 1) h
        (by rw [Player.tick_eq_countTti]; exact hn) htti
      obtain ⟨hemit, p', t', hptr, hlift⟩ := hstay
      have hback (k : ℕ) (hk : Emits ttis ⟨p.ptr, p.tick (indicationAt t)⟩ (t + 1) k) :
          Emits ttis p t k := by
        refine Emits.of_next ?_
        rw [hnext]
        exact hk
      exact ⟨hback _ hemit, p', t', hptr, fun k hk ↦ hback k (hlift k hk)⟩

theorem emits_add (hidx : Numbered ttis) (hlen : ttis.length < 2 ^ 31)
    (h : p.ptr < ttis.length) (t j : ℕ) : Emits ttis p t ((p.ptr + j) % ttis.length) := by
  induction j generalizing p t with
  | zero =>
    obtain ⟨n, hn⟩ := exists_absAfter p.absTti t h hlen
    rw [Nat.add_zero, Nat.mod_eq_of_lt h]
    exact (emits_ptr hidx h hn).1
  | succ j ih =>
    obtain ⟨n, hn⟩ := exists_absAfter p.absTti t h hlen
    obtain ⟨-, p', t', hptr, hlift⟩ := emits_ptr hidx h hn
    have hnext := ih (p := p') (hptr ▸ Nat.mod_lt _ (Nat.zero_lt_of_lt h)) t'
    rw [hptr, Nat.mod_add_mod, Nat.add_right_comm] at hnext
    exact hlift _ hnext

/-! The generator -/

variable {cfg : Config} {stim : List Member} {items : List StimItem} {g g' : L2FapiGenerator}
  {ind : Indication} {inds : List Indication} {outs : List Sent} {m : Member}

theorem tti_next (hg : Loaded cfg stim g) (hm : stim[g.stimPtr]? = some m)
    (h : tti g ind = some (g', outs)) :
    outs.map Sent.played = [(g.player.next (stim.map Member.tti) ind).2] := by
  obtain ⟨sf, item, s, t, hitem, -, -, -, rfl⟩ := tti_eq_some h
  obtain ⟨m', hm', hload⟩ := hg.member hitem
  obtain rfl := Option.some.inj (hm.symm.trans hm')
  rw [player_next hm, List.map_singleton]
  simp only [hg.due_iff hload]
  split_ifs <;> rfl

theorem exec_played (hg : Loaded cfg stim g) (hptr : g.stimPtr < stim.length)
    (h : Machine.exec tti g inds = some (g', outs)) :
    outs.map Sent.played = played (stim.map Member.tti) g.player inds := by
  induction inds generalizing g outs with
  | nil =>
    cases h
    rfl
  | cons ind inds ih =>
    obtain ⟨g₁, os, os', h₁, hrest, rfl⟩ := Machine.exec_cons_some h
    have hm := List.getElem?_eq_getElem hptr
    have hg₁ := (tti_sent hg h₁).1
    have hptr₁ := tti_stimPtr_lt (hg.items.length_eq ▸ hptr) h₁
    rw [List.map_append, tti_next hg hm h₁, ih hg₁ (hg₁.items.length_eq ▸ hptr₁) hrest,
      tti_player hg hm h₁]
    rfl

/-- The run over the TTIs from `t` on goes on, plays the items in the order of the list, again and
again, and comes to each of them. -/
structure PlaysBack (cfg : Config) (items : List StimItem) (t : ℕ) : Prop where
  runs : ∀ n, ∃ r, Machine.exec tti (.start cfg items) (consecutive t n) = some r
  order : ∀ n g outs, Machine.exec tti (.start cfg items) (consecutive t n) = some (g, outs) →
    ∃ m, (outs.map Sent.played).reduceOption = (List.range m).map (· % items.length)
  complete : ∀ k < items.length, ∃ n g outs,
    Machine.exec tti (.start cfg items) (consecutive t n) = some (g, outs) ∧
      some k ∈ outs.map Sent.played

theorem numbered_of_pairwise (h : ttis.Pairwise (· < ·))
    (hlt : ∀ (k : ℕ) (x : BitVec 32), ttis[k]? = some x → x.toNat < ttis.length) :
    Numbered ttis := by
  have hstep (i d : ℕ) (hi : i + d < ttis.length) :
      ttis[i].toNat + d ≤ ttis[i + d].toNat := by
    induction d with
    | zero => exact le_rfl
    | succ d ih =>
      have hd := ih (by omega)
      have hlast := List.pairwise_iff_getElem.1 h (i + d) (i + (d + 1)) (by omega) hi (by omega)
      rw [BitVec.lt_def] at hlast
      omega
  intro k x hx
  obtain ⟨hk, rfl⟩ := List.getElem?_eq_some_iff.1 hx
  have hbelow := hstep 0 k (by omega)
  have habove := hstep k (ttis.length - 1 - k) (by omega)
  have hmax := hlt _ _ (List.getElem?_eq_getElem (show k + (ttis.length - 1 - k) < ttis.length by
    omega))
  simp only [Nat.zero_add] at hbelow
  omega

theorem start_ptr_lt (hne : stim ≠ []) :
    (⟨0, 0⟩ : Player).ptr < (stim.map Member.tti).length := by
  rw [List.length_map]
  exact List.length_pos_of_ne_nil hne

theorem loaded_start (hparse : parseP7 cfg stim = some (items, 0)) :
    Loaded cfg stim (.start cfg items) :=
  ⟨rfl, (parseP7_loads hparse).2⟩

theorem exists_exec_consecutive_iff (hne : stim ≠ [])
    (hparse : parseP7 cfg stim = some (items, 0)) (t n : ℕ) :
    (∃ r, Machine.exec tti (.start cfg items) (consecutive t n) = some r) ↔
      (cfg.autoMib = true → MibRoom stim ⟨0, 0⟩ (consecutive t n)) := by
  have hptr : 0 < stim.length := List.length_pos_of_ne_nil hne
  have hsf (ind : Indication) (hind : ind ∈ consecutive t n) : ind.subframe.toNat < 10 :=
    (valid_of_mem_consecutive hind).subframe_lt
  exact (exists_exec_iff (loaded_start hparse) hptr _).trans (and_iff_right hsf)

theorem exec_start_played (hne : stim ≠ []) (hparse : parseP7 cfg stim = some (items, 0))
    (h : Machine.exec tti (.start cfg items) inds = some (g, outs)) :
    outs.map Sent.played = played (stim.map Member.tti) ⟨0, 0⟩ inds :=
  exec_played (loaded_start hparse) (List.length_pos_of_ne_nil hne) h

theorem length_ttis (hparse : parseP7 cfg stim = some (items, 0)) :
    (stim.map Member.tti).length = items.length := by
  rw [List.length_map]
  exact (parseP7_loads hparse).2.length_eq

theorem playsBack_of_numbered (hne : stim ≠ []) (hlen : stim.length < 2 ^ 31)
    (hparse : parseP7 cfg stim = some (items, 0)) (hidx : Numbered (stim.map Member.tti))
    (hroom : cfg.autoMib = true → ∀ n, MibRoom stim ⟨0, 0⟩ (consecutive t n)) :
    PlaysBack cfg items t := by
  have hruns (n : ℕ) : ∃ r, Machine.exec tti (.start cfg items) (consecutive t n) = some r :=
    (exists_exec_consecutive_iff hne hparse t n).2 fun hauto ↦ hroom hauto n
  refine ⟨hruns, fun n g outs h ↦ ?_, fun k hk ↦ ?_⟩
  · obtain ⟨m, hm⟩ := reduceOption_played (start_ptr_lt hne) (consecutive t n)
    refine ⟨m, ?_⟩
    rw [exec_start_played hne hparse h, ← length_ttis hparse]
    simpa using hm
  · rw [← length_ttis hparse] at hk
    obtain ⟨n, hn⟩ := emits_add hidx (by rwa [List.length_map]) (start_ptr_lt hne) t k
    obtain ⟨⟨g, outs⟩, hrun⟩ := hruns n
    refine ⟨n, g, outs, hrun, ?_⟩
    rw [Nat.zero_add, Nat.mod_eq_of_lt hk] at hn
    rw [exec_start_played hne hparse hrun]
    exact hn

/-- A stimulus with increasing TTIs is played back, from every TTI on, exactly if the TTI of each
item is its place in the list and the items leave room for the MIBs. -/
theorem playsBack_iff (hne : stim ≠ []) (hlen : stim.length < 2 ^ 31)
    (hsorted : stim.Pairwise fun m m' ↦ m.tti < m'.tti)
    (hparse : parseP7 cfg stim = some (items, 0)) :
    (∀ t, PlaysBack cfg items t) ↔
      Numbered (stim.map Member.tti) ∧
      (cfg.autoMib = true → ∀ t n, MibRoom stim ⟨0, 0⟩ (consecutive t n)) := by
  constructor
  · intro h
    refine ⟨numbered_of_pairwise (List.pairwise_map.2 hsorted) fun k x hx ↦ ?_,
      fun hauto t n ↦ ?_⟩
    · have hk : k < items.length := by
        rw [← length_ttis hparse]
        exact (List.getElem?_eq_some_iff.1 hx).1
      obtain ⟨n, g, outs, hrun, hmem⟩ := (h 0).complete k hk
      rw [exec_start_played hne hparse hrun] at hmem
      obtain ⟨y, hy, hlt⟩ := lt_of_mem_played (start_ptr_lt hne) hmem
      obtain rfl := Option.some.inj (hx.symm.trans hy)
      exact hlt
    · exact (exists_exec_consecutive_iff hne hparse t n).1 ((h t).runs n) hauto
  · rintro ⟨hidx, hroom⟩ t
    exact playsBack_of_numbered hne hlen hparse hidx fun hauto n ↦ hroom hauto t n

section Example

def emptyMember (tti : BitVec 32) : Member := ⟨tti, 1, some []⟩

theorem playsBack_iff_twoItems :
    ∃ items, parseP7 exampleConfig [emptyMember 0, emptyMember 1] = some (items, 0) ∧
      ∀ t, PlaysBack exampleConfig items t := by
  have hparse : parseP7 exampleConfig [emptyMember 0, emptyMember 1] = some (_, 0) := rfl
  have hsorted : [emptyMember 0, emptyMember 1].Pairwise fun m m' ↦ m.tti < m'.tti :=
    List.pairwise_pair.2 (by decide)
  refine ⟨_, hparse, (playsBack_iff (List.cons_ne_nil _ _) (by decide) hsorted hparse).2
    ⟨fun i x hx ↦ ?_, fun hauto ↦ ?_⟩⟩
  · match i, hx with
    | 0, rfl => rfl
    | 1, rfl => rfl
  · cases hauto

/-- An item whose TTI is not below the number of items is never played. -/
theorem farItem_not_played :
    ∃ items, parseP7 exampleConfig [emptyMember 0, emptyMember 5] = some (items, 0) ∧
      ∀ t n g outs, Machine.exec tti (.start exampleConfig items) (consecutive t n) =
        some (g, outs) → some 1 ∉ outs.map Sent.played := by
  have hparse : parseP7 exampleConfig [emptyMember 0, emptyMember 5] = some (_, 0) := rfl
  refine ⟨_, hparse, fun t n g outs h hmem ↦ ?_⟩
  rw [exec_start_played (List.cons_ne_nil _ _) hparse h] at hmem
  obtain ⟨x, hx, hlt⟩ := lt_of_mem_played (by decide) hmem
  cases hx
  exact absurd hlt (by decide)

end Example

end EnbL1Ppc.Generator
