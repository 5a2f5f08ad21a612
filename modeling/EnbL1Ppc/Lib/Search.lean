import Mathlib.Data.Int.Notation
import Mathlib.Tactic.Common

namespace EnbL1Ppc.Lib.Search

/-- Binary search in `[lo, hi)`. `cmp i` compares the key with the item number `i`: it is
negative if the key is smaller, positive if it is greater. -/
def bsearchIn (cmp : ℕ → ℤ) : ℕ → ℕ → ℕ → Option ℕ
  | 0, _, _ => none
  | fuel + 1, lo, hi =>
    if lo < hi then
      if cmp ((lo + hi) / 2) < 0 then bsearchIn cmp fuel lo ((lo + hi) / 2)
      else if 0 < cmp ((lo + hi) / 2) then bsearchIn cmp fuel ((lo + hi) / 2 + 1) hi
      else some ((lo + hi) / 2)
    else none

def bsearch (cmp : ℕ → ℤ) (n : ℕ) : Option ℕ :=
  bsearchIn cmp n 0 n

/-- The key is at position `t`, and the comparison tells on which side of it an item is. -/
structure FoundAt (cmp : ℕ → ℤ) (n t : ℕ) : Prop where
  lt : t < n
  eq : cmp t = 0
  below : ∀ i < t, 0 < cmp i
  above : ∀ i, t < i → i < n → cmp i < 0

theorem bsearchIn_eq {cmp : ℕ → ℤ} {n t : ℕ} (h : FoundAt cmp n t) {fuel lo hi : ℕ}
    (hlo : lo ≤ t) (hhi : t < hi) (hn : hi ≤ n) (hf : hi - lo ≤ fuel) :
    bsearchIn cmp fuel lo hi = some t := by
  induction fuel generalizing lo hi with
  | zero => omega
  | succ fuel ih =>
    rw [bsearchIn, if_pos (by omega)]
    generalize hm : (lo + hi) / 2 = m
    rcases Nat.lt_trichotomy m t with hlt | rfl | hgt
    · have hc := h.below m hlt
      rw [if_neg (by omega), if_pos hc]
      exact ih (by omega) hhi hn (by omega)
    · simp [h.eq]
    · rw [if_pos (h.above m hgt (by omega))]
      exact ih hlo hgt (by omega) (by omega)

theorem bsearch_eq {cmp : ℕ → ℤ} {n t : ℕ} (h : FoundAt cmp n t) : bsearch cmp n = some t :=
  bsearchIn_eq h (Nat.zero_le t) h.lt (Nat.le_refl n) (by omega)

end EnbL1Ppc.Lib.Search
