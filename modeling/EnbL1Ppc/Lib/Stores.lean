import EnbL1Ppc.Lib.Memory
import Mathlib.Data.Set.Lattice
import Mathlib.Order.CompletePartialOrder
import Mathlib.Order.Interval.Set.Basic

namespace EnbL1Ppc.Lib.Stores

open Memory (Mem read put write read_put_self)

abbrev Store := ℕ × List UInt8

def run (base : ℕ) (sts : List Store) (mem : Mem) : Mem :=
  sts.foldl (fun m st ↦ put m (base + st.1) st.2) mem

def footprint (st : Store) : Set ℕ :=
  Set.Ico st.1 (st.1 + st.2.length)

def span (sts : List Store) : Set ℕ :=
  { x | ∃ st ∈ sts, x ∈ footprint st }

def Apart (sts : List Store) : Prop :=
  sts.Pairwise fun st st' ↦ Disjoint (footprint st) (footprint st')

@[simp] theorem span_nil : span [] = ∅ := by
  simp [span]

theorem span_cons (st : Store) (sts : List Store) :
    span (st :: sts) = footprint st ∪ span sts := by
  ext x
  simp [span]

theorem span_append (xs ys : List Store) : span (xs ++ ys) = span xs ∪ span ys := by
  ext x
  simp [span, or_and_right, exists_or]

@[simp] theorem apart_nil : Apart [] :=
  List.Pairwise.nil

theorem apart_cons {st : Store} {sts : List Store} :
    Apart (st :: sts) ↔ Disjoint (footprint st) (span sts) ∧ Apart sts := by
  simp only [Apart, List.pairwise_cons, span, Set.disjoint_left, Set.mem_ofPred_eq, not_exists,
    not_and]
  exact and_congr_left fun _ ↦ ⟨fun h x hx st' hst' ↦ h st' hst' hx,
    fun h st' hst' x hx ↦ h hx st' hst'⟩

theorem apart_append {xs ys : List Store} :
    Apart (xs ++ ys) ↔ Apart xs ∧ Apart ys ∧ Disjoint (span xs) (span ys) := by
  induction xs with
  | nil => simp
  | cons st xs ih =>
    rw [List.cons_append, apart_cons, apart_cons, ih, span_append, span_cons,
      Set.disjoint_union_right, Set.disjoint_union_left]
    tauto

theorem run_cons (base : ℕ) (st : Store) (sts : List Store) (mem : Mem) :
    run base (st :: sts) mem = run base sts (put mem (base + st.1) st.2) := rfl

theorem disjoint_Ico_span {o len : ℕ} {sts : List Store}
    (h : ∀ st ∈ sts, o + len ≤ st.1 ∨ st.1 + st.2.length ≤ o) :
    Disjoint (Set.Ico o (o + len)) (span sts) := by
  rw [Set.disjoint_left]
  rintro x ⟨hx, hx'⟩ ⟨st, hst, hle, hlt⟩
  have hside := h st hst
  omega

theorem run_of_notMem {base : ℕ} {sts : List Store} {x : ℕ} (h : x ∉ span sts) (mem : Mem) :
    run base sts mem (base + x) = mem (base + x) := by
  induction sts generalizing mem with
  | nil => rfl
  | cons st sts ih =>
    rw [span_cons, Set.mem_union, not_or, footprint, Set.mem_Ico] at h
    rw [run_cons, ih h.2, put, write, if_neg (by omega)]

theorem read_run_of_disjoint {sts : List Store} {o len : ℕ}
    (h : Disjoint (Set.Ico o (o + len)) (span sts)) (base : ℕ) (mem : Mem) :
    read (run base sts mem) (base + o) len = read mem (base + o) len := by
  refine List.map_congr_left fun k hk ↦ ?_
  have hk := List.mem_range.1 hk
  rw [Nat.add_assoc]
  exact run_of_notMem (Set.disjoint_left.1 h ⟨by omega, by omega⟩) _

def Holds (mem : Mem) (base : ℕ) (sts : List Store) : Prop :=
  ∀ st ∈ sts, read mem (base + st.1) st.2.length = st.2

theorem holds_cons {mem : Mem} {base : ℕ} {st : Store} {sts : List Store} :
    Holds mem base (st :: sts) ↔
      read mem (base + st.1) st.2.length = st.2 ∧ Holds mem base sts :=
  List.forall_mem_cons

theorem holds_append {mem : Mem} {base : ℕ} {xs ys : List Store} :
    Holds mem base (xs ++ ys) ↔ Holds mem base xs ∧ Holds mem base ys :=
  List.forall_mem_append

theorem Holds.run {mem : Mem} {base : ℕ} {sts sts' : List Store} (h : Holds mem base sts)
    (hdisj : Disjoint (span sts) (span sts')) : Holds (run base sts' mem) base sts := by
  intro st hst
  refine Eq.trans ?_ (h st hst)
  have hsub : footprint st ⊆ span sts := fun x hx ↦ ⟨st, hst, hx⟩
  exact read_run_of_disjoint (hdisj.mono_left hsub) base mem

theorem run_append (base : ℕ) (xs ys : List Store) (mem : Mem) :
    run base (xs ++ ys) mem = run base ys (run base xs mem) :=
  List.foldl_append

theorem read_run {st : Store} {sts : List Store} (h : Disjoint (footprint st) (span sts))
    (before : List Store) (base : ℕ) (mem : Mem) :
    read (run base (before ++ st :: sts) mem) (base + st.1) st.2.length = st.2 := by
  rw [run_append, run_cons]
  have hst : Holds (put (run base before mem) (base + st.1) st.2) base [st] := by
    simpa [Holds] using read_put_self _ (base + st.1) st.2
  exact (hst.run (by simpa [span_cons] using h)) st (by simp)

theorem holds_run {sts : List Store} (h : Apart sts) (base : ℕ) (mem : Mem) :
    Holds (run base sts mem) base sts := by
  induction sts generalizing mem with
  | nil => exact fun _ hst ↦ absurd hst List.not_mem_nil
  | cons st sts ih =>
    obtain ⟨hdisj, hapart⟩ := apart_cons.1 h
    exact holds_cons.2 ⟨read_run hdisj [] base mem, ih hapart _⟩

def shift (k : ℕ) (sts : List Store) : List Store :=
  sts.map fun st ↦ (k + st.1, st.2)

theorem mem_span_shift {k x : ℕ} {sts : List Store} :
    x ∈ span (shift k sts) ↔ k ≤ x ∧ x - k ∈ span sts := by
  simp only [span, shift, footprint, Set.mem_Ico, Set.mem_ofPred_eq, List.mem_map]
  constructor
  · rintro ⟨_, ⟨st, hst, rfl⟩, hx⟩
    dsimp only at hx
    exact ⟨by omega, st, hst, by omega⟩
  · rintro ⟨hk, st, hst, hx⟩
    refine ⟨_, ⟨st, hst, rfl⟩, ?_⟩
    dsimp only
    omega

theorem Apart.shift {sts : List Store} (h : Apart sts) (k : ℕ) : Apart (shift k sts) := by
  refine List.pairwise_map.2 (h.imp fun {st st'} hst ↦ ?_)
  simp only [footprint, Set.disjoint_left, Set.mem_Ico] at hst ⊢
  intro x hx hx'
  exact hst (a := x - k) (by omega) (by omega)

theorem holds_shift {mem : Mem} {base k : ℕ} {sts : List Store} :
    Holds mem base (shift k sts) ↔ Holds mem (base + k) sts := by
  simp only [Holds, shift, List.forall_mem_map, Nat.add_assoc]

def Within (bound : ℕ) (sts : List Store) : Prop :=
  ∀ st ∈ sts, st.1 + st.2.length ≤ bound

theorem within_cons {bound : ℕ} {st : Store} {sts : List Store} :
    Within bound (st :: sts) ↔ st.1 + st.2.length ≤ bound ∧ Within bound sts :=
  List.forall_mem_cons

theorem within_append {bound : ℕ} {xs ys : List Store} :
    Within bound (xs ++ ys) ↔ Within bound xs ∧ Within bound ys :=
  List.forall_mem_append

theorem Within.mono {bound bound' : ℕ} {sts : List Store} (h : Within bound sts)
    (hle : bound ≤ bound') : Within bound' sts :=
  fun st hst ↦ (h st hst).trans hle

theorem Within.lt_of_mem_span {bound x : ℕ} {sts : List Store} (h : Within bound sts)
    (hx : x ∈ span sts) : x < bound := by
  obtain ⟨st, hst, hx⟩ := hx
  exact lt_of_lt_of_le hx.2 (h st hst)

theorem within_shift {k bound : ℕ} {sts : List Store} :
    Within (k + bound) (shift k sts) ↔ Within bound sts := by
  simp only [Within, shift, List.forall_mem_map, Nat.add_assoc, Nat.add_le_add_iff_left]

end EnbL1Ppc.Lib.Stores
