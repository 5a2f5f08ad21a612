import EnbL1Ppc.Generator.Stimulus
import Mathlib.Algebra.BigOperators.Intervals

namespace EnbL1Ppc.Generator

/-! Resource block groups -/

def rbgSize (n : ℕ) : ℕ :=
  if n ≤ 10 then 1 else if n ≤ 26 then 2 else if n ≤ 63 then 3 else 4

def rbgCount (n : ℕ) : ℕ := (n - 1) / rbgSize n + 1

def rbg (n g : ℕ) : Finset ℕ := (Finset.range n).filter fun k ↦ k / rbgSize n = g

def groupTotal (n : ℕ) (rbAlloc : BitVec 32) : ℕ :=
  ∑ g ∈ Finset.range (rbgCount n),
    if rbAlloc.getLsbD (rbgCount n - 1 - g) then (rbg n g).card else 0

section Groups

variable {n g : ℕ}

theorem rbgSize_pos (n : ℕ) : 0 < rbgSize n := by
  unfold rbgSize
  split_ifs <;> decide

theorem rbg_eq (hg : (g + 1) * rbgSize n ≤ n) :
    rbg n g = Finset.Ico (g * rbgSize n) ((g + 1) * rbgSize n) := by
  have hpos := rbgSize_pos n
  ext k
  rw [rbg, Finset.mem_filter, Finset.mem_range, Finset.mem_Ico, Nat.div_eq_iff hpos]
  rw [Nat.add_mul, Nat.one_mul] at hg ⊢
  omega

theorem card_rbg_of_lt (hg : g < rbgCount n - 1) : (rbg n g).card = rbgSize n := by
  have hle : (g + 1) * rbgSize n ≤ n - 1 := by
    rw [rbgCount, Nat.add_sub_cancel] at hg
    exact (Nat.le_div_iff_mul_le (rbgSize_pos n)).1 hg
  rw [rbg_eq (hle.trans (Nat.sub_le n 1)), Nat.card_Ico, Nat.add_mul, Nat.one_mul,
    Nat.add_sub_cancel_left]

theorem card_rbg_last (n : ℕ) :
    (rbg n (rbgCount n - 1)).card = n - (rbgCount n - 1) * rbgSize n := by
  have hlast : rbg n (rbgCount n - 1) = Finset.Ico ((rbgCount n - 1) * rbgSize n) n := by
    ext k
    have hdiv : k < n → k / rbgSize n ≤ rbgCount n - 1 := by
      intro hk
      rw [rbgCount, Nat.add_sub_cancel]
      exact Nat.div_le_div_right (Nat.le_sub_one_of_lt hk)
    rw [rbg, Finset.mem_filter, Finset.mem_range, Finset.mem_Ico,
      ← Nat.le_div_iff_mul_le (rbgSize_pos n)]
    omega
  rw [hlast, Nat.card_Ico]

theorem countBits_eq_sum (x : BitVec 32) (a k : ℕ) :
    countBits x (List.range' a k) =
      ∑ j ∈ Finset.range k, if x.getLsbD (a + j) then 1 else 0 := by
  induction k generalizing a with
  | zero => rfl
  | succ k ih =>
    rw [countBits, List.range'_succ, List.countP_cons, ← countBits, ih, Finset.sum_range_succ']
    simp only [Nat.add_assoc, Nat.add_comm 1, Nat.add_zero]

theorem groupTotal_eq (n : ℕ) (rbAlloc : BitVec 32) :
    groupTotal n rbAlloc =
      rbgSize n * countBits rbAlloc (List.range' 1 (rbgCount n - 1)) +
        (n - (rbgCount n - 1) * rbgSize n) * countBits rbAlloc (List.range' 0 1) := by
  have hcount : rbgCount n = rbgCount n - 1 + 1 := rfl
  rw [groupTotal, hcount, Finset.sum_range_succ, Nat.add_sub_cancel, Nat.sub_self,
    card_rbg_last]
  congr 1
  · rw [countBits_eq_sum, Finset.mul_sum, ← Finset.sum_range_reflect]
    refine Finset.sum_congr rfl fun j hj ↦ ?_
    have hj := Finset.mem_range.1 hj
    rw [card_rbg_of_lt (by omega), mul_ite, Nat.mul_one, Nat.mul_zero]
    congr 3
    omega
  · rw [countBits_eq_sum, Finset.sum_range_one, mul_ite, Nat.mul_one, Nat.mul_zero]

end Groups

/-! Resource indication values -/

def riv (n start l : ℕ) : ℕ :=
  if l - 1 ≤ n / 2 then n * (l - 1) + start else n * (n - l + 1) + (n - 1 - start)

section Riv

variable {n start l : ℕ}

theorem riv_of_short (hstart : start < n) (hl : l - 1 ≤ n / 2) :
    riv n start l / n = l - 1 ∧ riv n start l % n = start := by
  rw [riv, if_pos hl, Nat.mul_add_div (Nat.zero_lt_of_lt hstart), Nat.div_eq_of_lt hstart,
    Nat.mul_add_mod, Nat.mod_eq_of_lt hstart]
  exact ⟨rfl, rfl⟩

theorem riv_of_long (hstart : start < n) (hl : ¬l - 1 ≤ n / 2) :
    riv n start l / n = n - l + 1 ∧ riv n start l % n = n - 1 - start := by
  have hlt : n - 1 - start < n := by omega
  rw [riv, if_neg hl, Nat.mul_add_div (Nat.zero_lt_of_lt hstart), Nat.div_eq_of_lt hlt,
    Nat.mul_add_mod, Nat.mod_eq_of_lt hlt]
  exact ⟨rfl, rfl⟩

theorem riv_lt (hl : 1 ≤ l) (hle : start + l ≤ n) : riv n start l < n * n := by
  have hstart : start < n := by omega
  rw [← Nat.div_lt_iff_lt_mul (Nat.zero_lt_of_lt hstart)]
  by_cases hshort : l - 1 ≤ n / 2
  · rw [(riv_of_short hstart hshort).1]
    omega
  · rw [(riv_of_long hstart hshort).1]
    omega

end Riv

/-! The number of allocated resource blocks -/

variable {n start l : ℕ}

theorem convNprb_groups_iff (hn : n ∈ [6, 15, 25, 50, 100]) (rbAlloc : BitVec 32) :
    convNprb 0 rbAlloc (.ofNat 32 n) = groupTotal n rbAlloc ↔
      (n = 15 → ∀ j < 8, rbAlloc.getLsbD j = false) := by
  have hcons (k : ℕ) : countBits rbAlloc (List.range' 0 (k + 1)) =
      countBits rbAlloc (List.range' 1 k) + countBits rbAlloc (List.range' 0 1) := by
    rw [countBits_eq_sum, countBits_eq_sum, countBits_eq_sum, Finset.sum_range_succ',
      Finset.sum_range_one]
    simp only [Nat.zero_add, Nat.add_comm 1]
  rw [groupTotal_eq]
  simp only [List.mem_cons, List.not_mem_nil, or_false] at hn
  rcases hn with rfl | rfl | rfl | rfl | rfl
  · refine iff_of_true ?_ fun h ↦ absurd h (by decide)
    change countBits rbAlloc (List.range' 0 6) =
      1 * countBits rbAlloc (List.range' 1 5) + 1 * countBits rbAlloc (List.range' 0 1)
    rw [hcons, Nat.one_mul, Nat.one_mul]
  · change 0 = 2 * countBits rbAlloc (List.range' 1 7) +
      1 * countBits rbAlloc (List.range' 0 1) ↔ _
    have hzero : countBits rbAlloc (List.range' 0 8) = 0 ↔ ∀ j < 8, rbAlloc.getLsbD j = false := by
      simp [countBits, List.countP_eq_zero]
    rw [forall_prop_of_true rfl, ← hzero, hcons 7]
    omega
  · refine iff_of_true ?_ fun h ↦ absurd h (by decide)
    change 2 * countBits rbAlloc (List.range' 1 12) + countBits rbAlloc [0] =
      2 * countBits rbAlloc (List.range' 1 12) + 1 * countBits rbAlloc (List.range' 0 1)
    rw [Nat.one_mul]
    rfl
  · exact iff_of_true rfl fun h ↦ absurd h (by decide)
  · refine iff_of_true ?_ fun h ↦ absurd h (by decide)
    change 4 * countBits rbAlloc (List.range' 0 25) =
      4 * countBits rbAlloc (List.range' 1 24) + 4 * countBits rbAlloc (List.range' 0 1)
    rw [hcons, Nat.mul_add]

theorem convNprb_riv_25 (hl : 1 ≤ l) (hle : start + l ≤ 25) :
    convNprb 2 (.ofNat 32 (riv 25 start l)) 25 = l ↔ l ≤ 13 := by
  have hlt := riv_lt hl hle
  have htoNat : (BitVec.ofNat 32 (riv 25 start l)).toNat = riv 25 start l :=
    Nat.mod_eq_of_lt (hlt.trans (by decide))
  change (if (BitVec.ofNat 32 (riv 25 start l)).toNat % 25 +
      ((BitVec.ofNat 32 (riv 25 start l)).toNat / 25 + 1) > 25 then
    25 - (BitVec.ofNat 32 (riv 25 start l)).toNat % 25 else
      (BitVec.ofNat 32 (riv 25 start l)).toNat / 25 + 1) = l ↔ _
  rw [htoNat]
  have hstart : start < 25 := by omega
  by_cases hshort : l - 1 ≤ 25 / 2
  · obtain ⟨hdiv, hmod⟩ := riv_of_short hstart hshort
    rw [hdiv, hmod, if_neg (by omega)]
    omega
  · -- the value is not decoded, and what is left of it is the distance to the other end
    obtain ⟨hdiv, hmod⟩ := riv_of_long hstart hshort
    rw [hdiv, hmod, if_pos (by omega)]
    omega

/-- The places from which `l` resource blocks are counted right: for 25 resource blocks those of the
shorter half of the values, otherwise those whose value happens to have as many bits set. -/
def countedStarts : ℕ → ℕ → List (ℕ × ℕ)
  | 6, 1 => [(1, 2), (4, 4)]
  | 6, 2 => [(0, 0), (3, 4)]
  | 6, 3 => [(1, 2)]
  | 25, l => if l ≤ 13 then [(0, 24)] else []
  | 50, 1 => [(4, 11), (16, 19), (32, 35)]
  | 50, 2 => [(0, 1), (18, 25), (30, 33), (46, 48)]
  | 50, 3 => [(0, 7), (12, 15), (40, 43)]
  | 50, 4 => [(6, 9), (22, 25), (30, 37)]
  | 50, 5 => [(20, 23), (36, 39), (44, 45)]
  | 50, 6 => [(2, 5)]
  | 100, 1 => [(4, 11), (16, 19), (32, 35), (64, 67)]
  | 100, 2 => [(32, 39), (44, 47), (60, 63), (92, 95)]
  | 100, 3 => [(0, 3), (8, 11), (24, 27), (68, 71), (76, 83), (92, 97)]
  | 100, 4 => [(0, 3), (8, 15), (32, 35), (40, 47), (56, 63), (68, 71), (96, 96)]
  | 100, 5 => [(12, 15), (28, 31), (36, 43), (60, 63), (68, 75), (84, 91)]
  | 100, 6 => [(0, 7)]
  | _, _ => []

def CountedFrom (n start l : ℕ) : Prop := ∃ x ∈ countedStarts n l, x.1 ≤ start ∧ start ≤ x.2

instance (n start l : ℕ) : Decidable (CountedFrom n start l) :=
  inferInstanceAs (Decidable (∃ x, x ∈ countedStarts n l ∧ _))

theorem countBits_of_lt {x a k : ℕ} (hx : x < 2 ^ (a + k)) (m : ℕ) :
    countBits (.ofNat 32 x) (List.range' a (k + m)) =
      countBits (.ofNat 32 x) (List.range' a k) := by
  have hzero : countBits (.ofNat 32 x) (List.range' (a + k) m) = 0 := by
    refine List.countP_eq_zero.2 fun j hj ↦ ?_
    have hle := (List.mem_range'_1.1 hj).1
    rw [BitVec.getLsbD_ofNat,
      Nat.testBit_lt_two_pow (hx.trans_le (Nat.pow_le_pow_right two_pos hle)), Bool.and_false]
    decide
  rw [← List.range'_append_1, countBits, List.countP_append, ← countBits, ← countBits, hzero,
    Nat.add_zero]

theorem countedFrom_of_bits {k : ℕ} (hn : ∀ l, countedStarts n (l + 7) = [])
    (hx : riv n start l < 2 ^ (2 + k)) (hk : 6 ≤ k)
    (htable : l ≤ k → (countBits (.ofNat 32 (riv n start l)) (List.range' 2 k) = l ↔
      CountedFrom n start l)) (m : ℕ) :
    countBits (.ofNat 32 (riv n start l)) (List.range' 2 (k + m)) = l ↔ CountedFrom n start l := by
  rw [countBits_of_lt hx]
  rcases Nat.lt_or_ge k l with hlt | hle
  · have hbits : countBits (.ofNat 32 (riv n start l)) (List.range' 2 k) ≤ k :=
      List.countP_le_length.trans List.length_range'.le
    refine iff_of_false (by omega) ?_
    rw [CountedFrom, show l = l - 7 + 7 by omega, hn]
    simp
  · exact htable hle

theorem countBits_riv_table : ∀ t ∈ [(6, 0, 6), (50, 2, 10), (100, 2, 12)],
    ∀ l < t.2.2 + 1, ∀ start < t.1, l ≠ 0 → start + l ≤ t.1 →
      (countBits (.ofNat 32 (riv t.1 start l)) (List.range' t.2.1 t.2.2) = l ↔
        CountedFrom t.1 start l) := by
  decide +kernel

/-- The values of 6, 50 and 100 resource blocks are not decoded; their set bits are counted. -/
theorem convNprb_riv_bits (hn : n ∈ [6, 50, 100]) (hl : 1 ≤ l) (hle : start + l ≤ n) :
    convNprb 2 (.ofNat 32 (riv n start l)) (.ofNat 32 n) = l ↔ CountedFrom n start l := by
  have hlt := riv_lt hl hle
  have hne := Nat.ne_of_gt hl
  simp only [List.mem_cons, List.not_mem_nil, or_false] at hn
  rcases hn with rfl | rfl | rfl
  · exact countBits_riv_table (6, 0, 6) (by decide) l (show l < 7 by omega) start (by omega) hne hle
  · refine countedFrom_of_bits (k := 10) (fun _ ↦ rfl) (by omega) (by decide) (fun h ↦ ?_) 7
    exact countBits_riv_table (50, 2, 10) (by decide) l (Nat.lt_succ_of_le h) start (by omega) hne
      hle
  · refine countedFrom_of_bits (k := 12) (fun _ ↦ rfl) (by omega) (by decide) (fun h ↦ ?_) 13
    exact countBits_riv_table (100, 2, 12) (by decide) l (Nat.lt_succ_of_le h) start (by omega) hne
      hle

theorem countedFrom_25 (hl : 1 ≤ l) (hle : start + l ≤ 25) : CountedFrom 25 start l ↔ l ≤ 13 := by
  have hstarts : countedStarts 25 l = if l ≤ 13 then [(0, 24)] else [] := rfl
  rw [CountedFrom, hstarts]
  split_ifs with hshort
  · exact iff_of_true ⟨_, List.mem_singleton_self _, Nat.zero_le _, by omega⟩ hshort
  · simp [hshort]

/-- Type 0 allocations are counted except with 15 resource blocks. For type 2 the shorter half of
the values for 25 resource blocks is decoded, and with 15 resource blocks none is. -/
theorem convNprb_allocated_iff (hn : n ∈ [6, 15, 25, 50, 100]) :
    (∀ rbAlloc, convNprb 0 rbAlloc (.ofNat 32 n) = groupTotal n rbAlloc ↔
      (n = 15 → ∀ j < 8, rbAlloc.getLsbD j = false)) ∧
    ∀ start l, 1 ≤ l → start + l ≤ n →
      (convNprb 2 (.ofNat 32 (riv n start l)) (.ofNat 32 n) = l ↔ CountedFrom n start l) := by
  refine ⟨convNprb_groups_iff hn, fun start l hl hle ↦ ?_⟩
  by_cases htable : n ∈ [6, 50, 100]
  · exact convNprb_riv_bits htable hl hle
  · simp only [List.mem_cons, List.not_mem_nil, or_false] at hn htable
    obtain rfl | rfl : n = 15 ∨ n = 25 := by omega
    · have hnone : ¬CountedFrom 15 start l := by
        rintro ⟨x, hx, -⟩
        exact absurd hx List.not_mem_nil
      exact iff_of_false (Nat.zero_lt_of_lt hl).ne hnone
    · rw [countedFrom_25 hl hle]
      exact convNprb_riv_25 hl hle

theorem convNprb_allocated_iff_halfBand :
    25 ∈ [6, 15, 25, 50, 100] ∧ convNprb 2 (.ofNat 32 (riv 25 12 13)) 25 = 13 := by
  refine ⟨by decide, ?_⟩
  exact ((convNprb_allocated_iff (n := 25) (by decide)).2 12 13 (by decide) (by decide)).2
    (by decide)

/-- The whole band of 25 resource blocks is counted as one, one of 50 as none, and all groups of 15
as none. -/
theorem convNprb_miscounts :
    convNprb 2 (.ofNat 32 (riv 25 0 25)) 25 = 1 ∧ convNprb 2 (.ofNat 32 (riv 50 0 1)) 50 = 0 ∧
      convNprb 0 255 15 = 0 ∧ groupTotal 15 255 = 15 := by
  decide

end EnbL1Ppc.Generator
