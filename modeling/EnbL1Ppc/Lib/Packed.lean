import EnbL1Ppc.Lib.Stores

namespace EnbL1Ppc.Lib.Packed

open Stores

abbrev Struct := List ℕ

def sizeof (t : Struct) : ℕ := t.sum

def offset (t : Struct) (k : ℕ) : ℕ := (t.take k).sum

abbrev Assignment := ℕ × List UInt8

def stores (t : Struct) (as : List Assignment) : List Store :=
  as.map fun a ↦ (offset t a.1, a.2)

/-- Every assignment is to a member of its own and has the size of that member. -/
structure Fits (t : Struct) (as : List Assignment) : Prop where
  sizes : ∀ a ∈ as, t[a.1]? = some a.2.length
  distinct : (as.map Prod.fst).Nodup

def fits (t : Struct) (as : List Assignment) : Bool :=
  as.all (fun a ↦ t[a.1]? = some a.2.length) && (as.map Prod.fst).Nodup

variable {t : Struct} {as : List Assignment}

theorem fits_iff : fits t as = true ↔ Fits t as := by
  simp only [fits, Bool.and_eq_true, List.all_eq_true, decide_eq_true_eq]
  exact ⟨fun h ↦ ⟨h.1, h.2⟩, fun h ↦ ⟨h.sizes, h.distinct⟩⟩

theorem offset_add_le {i j n : ℕ} (hi : t[i]? = some n) (hij : i < j) :
    offset t i + n ≤ offset t j := by
  induction t generalizing i j with
  | nil => cases hi
  | cons m t ih =>
    obtain ⟨j, rfl⟩ := Nat.exists_eq_add_one_of_ne_zero (Nat.ne_zero_of_lt hij)
    cases i with
    | zero =>
      cases hi
      simp [offset]
    | succ i =>
      have h := ih hi (Nat.lt_of_succ_lt_succ hij)
      simp only [offset, List.take_succ_cons, List.sum_cons] at h ⊢
      omega

theorem offset_length : offset t t.length = sizeof t := by
  rw [offset, List.take_length, sizeof]

theorem Fits.within (h : Fits t as) : Within (sizeof t) (stores t as) := by
  intro st hst
  obtain ⟨a, ha, rfl⟩ := List.mem_map.1 hst
  have hi := h.sizes a ha
  rw [← offset_length]
  exact offset_add_le hi (List.getElem?_eq_some_iff.1 hi).1

theorem Fits.apart (h : Fits t as) : Apart (stores t as) := by
  refine List.pairwise_map.2 ((List.pairwise_map.1 h.distinct).imp_of_mem ?_)
  intro a b ha hb hne
  rw [footprint, footprint, Set.disjoint_left]
  intro x hx hx'
  simp only [Set.mem_Ico] at hx hx'
  rcases Nat.lt_or_gt_of_ne hne with hlt | hlt
  · have := offset_add_le (h.sizes a ha) hlt
    omega
  · have := offset_add_le (h.sizes b hb) hlt
    omega

end EnbL1Ppc.Lib.Packed
