import EnbL1Ppc.Lib.Machine
import Mathlib.Data.List.Forall2
import Mathlib.Tactic

namespace EnbL1Ppc.Generator

open Lib

structure Preamble where
  preamble : BitVec 32
  timingAdvance : BitVec 32
  power : BitVec 32

/-- `fapi_rach_indication_t`. `preambleList` is the memory from the list on, in entries; the list
itself fits into the 32-bit addresses. -/
structure RachIndication where
  frame : BitVec 32
  subframe : BitVec 32
  numberOfPreambles : BitVec 32
  preambleList : ℕ → Preamble
  list_lt : 16 * numberOfPreambles.toNat < 2 ^ 32

structure NewRach where
  tti : BitVec 32
  preamble : BitVec 32
  ta : BitVec 32
  power : BitVec 32

/-- `max_preamble_no` and `max_preamble_val`. The comparison with a power is unsigned. -/
structure MaxPreamble where
  no : ℕ
  val : BitVec 32

def MaxPreamble.compare (ind : RachIndication) (m : MaxPreamble) (i : ℕ) : MaxPreamble :=
  if m.val < (ind.preambleList i).power then ⟨i, (ind.preambleList i).power⟩ else m

def MaxPreamble.scan (m : MaxPreamble) (ind : RachIndication) : MaxPreamble :=
  (List.range ind.numberOfPreambles.toNat).foldl (MaxPreamble.compare ind) m

def RachIndication.newRach (ind : RachIndication) (no : ℕ) : NewRach where
  tti := ind.frame * 10 + ind.subframe
  preamble := (ind.preambleList no).preamble
  ta := (ind.preambleList no).timingAdvance / 16
  power := (ind.preambleList no).power

/-- The calls of `mac_new_rach` for the indications that are drained. The maximum is kept from one
indication to the next. -/
def drainRach : MaxPreamble → List RachIndication → List NewRach
  | _, [] => []
  | m, ind :: inds => ind.newRach (m.scan ind).no :: drainRach (m.scan ind) inds

def RachIndication.Reports (ind : RachIndication) (call : NewRach) : Prop :=
  ∃ i < ind.numberOfPreambles.toNat, call = ind.newRach i ∧
    ∀ j < ind.numberOfPreambles.toNat,
      (ind.preambleList j).power.toNat ≤ (ind.preambleList i).power.toNat

/-! The maximum of one indication -/

variable {ind : RachIndication} {m : MaxPreamble} {inds : List RachIndication}

structure Scanned (ind : RachIndication) (m : MaxPreamble) (n : ℕ) (m' : MaxPreamble) : Prop where
  bound : ∀ j < n, (ind.preambleList j).power.toNat ≤ m'.val.toNat
  le : m.val.toNat ≤ m'.val.toNat
  found : m' = m ∨ m'.no < n ∧ m'.val = (ind.preambleList m'.no).power ∧ m.val.toNat < m'.val.toNat

theorem scanned_range (ind : RachIndication) (m : MaxPreamble) (n : ℕ) :
    Scanned ind m n ((List.range n).foldl (MaxPreamble.compare ind) m) := by
  induction n with
  | zero => exact ⟨fun j hj ↦ absurd hj (Nat.not_lt_zero j), le_rfl, .inl rfl⟩
  | succ n ih =>
    rw [List.range_succ, List.foldl_append, List.foldl_cons, List.foldl_nil, MaxPreamble.compare]
    generalize (List.range n).foldl (MaxPreamble.compare ind) m = m' at ih ⊢
    simp only [BitVec.lt_def]
    split_ifs with hlt
    · refine ⟨fun j hj ↦ ?_, ih.le.trans hlt.le, .inr ⟨Nat.lt_succ_self n, rfl, ?_⟩⟩
      · rcases Nat.lt_succ_iff_lt_or_eq.1 hj with hj | rfl
        · exact (ih.bound j hj).trans hlt.le
        · exact le_rfl
      · exact ih.le.trans_lt hlt
    · refine ⟨fun j hj ↦ ?_, ih.le, ih.found.imp_right fun h ↦ ⟨h.1.trans (Nat.lt_succ_self n), h.2⟩⟩
      rcases Nat.lt_succ_iff_lt_or_eq.1 hj with hj | rfl
      · exact ih.bound j hj
      · exact not_lt.1 hlt

theorem scanned_scan (m : MaxPreamble) (ind : RachIndication) :
    Scanned ind m ind.numberOfPreambles.toNat (m.scan ind) :=
  scanned_range ..

theorem scan_lt_iff {k : ℕ} :
    (m.scan ind).val.toNat < k ↔
      m.val.toNat < k ∧
        ∀ j < ind.numberOfPreambles.toNat, (ind.preambleList j).power.toNat < k := by
  have hscan := scanned_scan m ind
  constructor
  · intro h
    exact ⟨hscan.le.trans_lt h, fun j hj ↦ (hscan.bound j hj).trans_lt h⟩
  · rintro ⟨hm, hlist⟩
    rcases hscan.found with heq | ⟨hno, hval, -⟩
    · rwa [heq]
    · rw [hval]
      exact hlist _ hno

theorem reports_scan_iff :
    ind.Reports (ind.newRach (m.scan ind).no) ↔
      (∃ i < ind.numberOfPreambles.toNat, m.val.toNat < (ind.preambleList i).power.toNat) ∨
        ind.Reports (ind.newRach m.no) := by
  have hscan := scanned_scan m ind
  rcases hscan.found with heq | ⟨hno, hval, hlt⟩
  · rw [heq]
    refine (or_iff_right ?_).symm
    rintro ⟨i, hi, hlt⟩
    have hle := hscan.bound i hi
    rw [heq] at hle
    exact absurd hlt (not_lt.2 hle)
  · refine iff_of_true ⟨_, hno, rfl, fun j hj ↦ ?_⟩ (.inl ⟨_, hno, ?_⟩)
    · rw [← hval]
      exact hscan.bound j hj
    · rw [← hval]
      exact hlt

/-! All indications of a TTI -/

theorem foldl_scan_lt_iff {before : List RachIndication} {k : ℕ} :
    (before.foldl MaxPreamble.scan m).val.toNat < k ↔
      m.val.toNat < k ∧ ∀ ind ∈ before, ∀ j < ind.numberOfPreambles.toNat,
        (ind.preambleList j).power.toNat < k := by
  induction before generalizing m with
  | nil => simp
  | cons ind before ih => rw [List.foldl_cons, ih, scan_lt_iff, List.forall_mem_cons, and_assoc]

def maxBehind (before : List RachIndication) : MaxPreamble :=
  before.foldl MaxPreamble.scan ⟨0, 0⟩

def RachIndication.Exceeds (ind : RachIndication) (before : List RachIndication) : Prop :=
  ∃ i < ind.numberOfPreambles.toNat, 0 < (ind.preambleList i).power.toNat ∧
    ∀ ind' ∈ before, ∀ j < ind'.numberOfPreambles.toNat,
      (ind'.preambleList j).power.toNat < (ind.preambleList i).power.toNat

/-- The powers of the preambles in the order in which the loops come to them, each with its place
in its indication. -/
def preamblePowers (inds : List RachIndication) : List (ℕ × ℕ) :=
  inds.flatMap fun ind ↦ (List.range ind.numberOfPreambles.toNat).map fun i ↦
    (i, (ind.preambleList i).power.toNat)

/-- The first of the strongest preambles stands at place `i`, which is 0 if none has any power. -/
def FirstMax (ps : List (ℕ × ℕ)) (i : ℕ) : Prop :=
  (∃ ps₁ p ps₂, ps = ps₁ ++ (i, p) :: ps₂ ∧ 0 < p ∧ (∀ q ∈ ps₁, q.2 < p) ∧ ∀ q ∈ ps₂, q.2 ≤ p) ∨
    i = 0 ∧ ∀ q ∈ ps, q.2 ≤ 0

/-- At the place of the first of the strongest preambles before, the indication has the entry of
one of its own strongest. -/
def RachIndication.SamePlace (ind : RachIndication) (before : List RachIndication) : Prop :=
  ∃ i, FirstMax (preamblePowers before) i ∧ ∃ k < ind.numberOfPreambles.toNat,
    ind.newRach i = ind.newRach k ∧ ∀ j < ind.numberOfPreambles.toNat,
      (ind.preambleList j).power.toNat ≤ (ind.preambleList k).power.toNat

section FirstMax

def notePower (m q : ℕ × ℕ) : ℕ × ℕ := if m.2 < q.2 then q else m

theorem maxBehind_eq (before : List RachIndication) :
    ((maxBehind before).no, (maxBehind before).val.toNat) =
      (preamblePowers before).foldl notePower (0, 0) := by
  have hcompare (ind : RachIndication) (m : MaxPreamble) (i : ℕ) :
      notePower (m.no, m.val.toNat) (i, (ind.preambleList i).power.toNat) =
        ((m.compare ind i).no, (m.compare ind i).val.toNat) := by
    rw [notePower, MaxPreamble.compare]
    simp only [BitVec.lt_def]
    split_ifs <;> rfl
  rw [preamblePowers, List.foldl_flatMap]
  refine (List.foldl_hom (fun m : MaxPreamble ↦ (m.no, m.val.toNat)) fun m ind ↦ ?_).symm
  rw [List.foldl_map]
  exact List.foldl_hom (fun m : MaxPreamble ↦ (m.no, m.val.toNat)) (hcompare ind)

variable {ps : List (ℕ × ℕ)} {m : ℕ × ℕ}

theorem foldl_notePower_lt_iff {p : ℕ} :
    (ps.foldl notePower m).2 < p ↔ m.2 < p ∧ ∀ q ∈ ps, q.2 < p := by
  induction ps generalizing m with
  | nil => simp
  | cons q ps ih =>
    have hq : (notePower m q).2 < p ↔ m.2 < p ∧ q.2 < p := by
      unfold notePower
      split_ifs <;> omega
    rw [List.foldl_cons, ih, hq, List.forall_mem_cons, and_assoc]

theorem foldl_notePower_of_le (h : ∀ q ∈ ps, q.2 ≤ m.2) : ps.foldl notePower m = m := by
  induction ps with
  | nil => rfl
  | cons q ps ih =>
    rw [List.foldl_cons, notePower, if_neg (not_lt.2 (h q List.mem_cons_self))]
    exact ih fun q' hq' ↦ h q' (List.mem_cons_of_mem q hq')

theorem firstMax_foldl_notePower (ps : List (ℕ × ℕ)) :
    FirstMax ps (ps.foldl notePower (0, 0)).1 := by
  suffices h : (∃ ps₁ ps₂, ps = ps₁ ++ ps.foldl notePower (0, 0) :: ps₂ ∧
      0 < (ps.foldl notePower (0, 0)).2 ∧ (∀ q ∈ ps₁, q.2 < (ps.foldl notePower (0, 0)).2) ∧
      ∀ q ∈ ps₂, q.2 ≤ (ps.foldl notePower (0, 0)).2) ∨
      ps.foldl notePower (0, 0) = (0, 0) ∧ ∀ q ∈ ps, q.2 ≤ 0 by
    rcases h with ⟨ps₁, ps₂, hps, hrest⟩ | ⟨hm, hzero⟩
    · exact .inl ⟨ps₁, _, ps₂, hps, hrest⟩
    · exact .inr ⟨congrArg Prod.fst hm, hzero⟩
  induction ps using List.reverseRecOn with
  | nil => exact .inr ⟨rfl, nofun⟩
  | append_singleton ps q ih =>
    rw [List.foldl_append, List.foldl_cons, List.foldl_nil, notePower]
    split_ifs with hlt
    · have hbelow := foldl_notePower_lt_iff.1 hlt
      exact .inl ⟨ps, [], rfl, hbelow.1, hbelow.2, nofun⟩
    · rw [not_lt] at hlt
      rcases ih with ⟨ps₁, ps₂, hps, hpos, hpre, hpost⟩ | ⟨hm, hzero⟩
      · refine .inl ⟨ps₁, ps₂ ++ [q], ?_, hpos, hpre, ?_⟩
        · rw [← List.cons_append, ← List.append_assoc, ← hps]
        · exact List.forall_mem_append.2 ⟨hpost, List.forall_mem_singleton.2 hlt⟩
      · refine .inr ⟨hm, List.forall_mem_append.2 ⟨hzero, List.forall_mem_singleton.2 ?_⟩⟩
        rwa [hm] at hlt

/-- The strict comparison finds the first of the strongest. -/
theorem firstMax_iff {i : ℕ} : FirstMax ps i ↔ i = (ps.foldl notePower (0, 0)).1 := by
  constructor
  · rintro (⟨ps₁, p, ps₂, rfl, hpos, hpre, hpost⟩ | ⟨rfl, hzero⟩)
    · have hlt : (ps₁.foldl notePower (0, 0)).2 < p := foldl_notePower_lt_iff.2 ⟨hpos, hpre⟩
      rw [List.foldl_append, List.foldl_cons, notePower, if_pos hlt, foldl_notePower_of_le hpost]
    · rw [foldl_notePower_of_le hzero]
  · rintro rfl
    exact firstMax_foldl_notePower ps

end FirstMax

theorem samePlace_iff {before : List RachIndication} :
    ind.SamePlace before ↔ ind.Reports (ind.newRach (maxBehind before).no) := by
  have hno : (maxBehind before).no = ((preamblePowers before).foldl notePower (0, 0)).1 :=
    congrArg Prod.fst (maxBehind_eq before)
  rw [hno, RachIndication.SamePlace, RachIndication.Reports]
  simp only [firstMax_iff, exists_eq_left]

theorem reports_scan_maxBehind_iff {before : List RachIndication} :
    ind.Reports (ind.newRach ((maxBehind before).scan ind).no) ↔
      ind.Exceeds before ∨ ind.SamePlace before := by
  rw [reports_scan_iff]
  refine or_congr (exists_congr fun i ↦ and_congr_right fun _ ↦ ?_) samePlace_iff.symm
  exact foldl_scan_lt_iff

theorem reports_drainRach_iff (before : List RachIndication) :
    List.Forall₂ RachIndication.Reports inds (drainRach (maxBehind before) inds) ↔
      Machine.Throughout (fun before ind ↦ ind.Exceeds before ∨ ind.SamePlace before) before
        inds := by
  induction inds generalizing before with
  | nil => exact iff_of_true .nil trivial
  | cons ind inds ih =>
    have hnext : (maxBehind before).scan ind = maxBehind (before ++ [ind]) := by
      rw [maxBehind, maxBehind, List.foldl_append, List.foldl_cons, List.foldl_nil]
    rw [drainRach, List.forall₂_cons, Machine.Throughout, reports_scan_maxBehind_iff, hnext, ih]

/-- Each call is for the strongest preamble of its indication exactly if each indication has a
preamble that is stronger than all before it, or happens to have its strongest one at the place
of the strongest one before. -/
theorem rach_reports_iff (inds : List RachIndication) :
    List.Forall₂ RachIndication.Reports inds (drainRach ⟨0, 0⟩ inds) ↔
      Machine.Throughout (fun before ind ↦ ind.Exceeds before ∨ ind.SamePlace before) [] inds :=
  reports_drainRach_iff []

section Example

def exampleRach (first n : ℕ) (powers : List (BitVec 32)) : RachIndication where
  frame := 0
  subframe := 1
  numberOfPreambles := .ofNat 32 (n % 4)
  preambleList i := ⟨.ofNat 32 (first + i), 0, powers.getD i 0⟩
  list_lt := by
    rw [BitVec.toNat_ofNat]
    omega

/-- The second indication has one preamble, the call is for what lies behind it. -/
theorem drainRach_stale :
    drainRach ⟨0, 0⟩ [exampleRach 5 2 [10, 20], exampleRach 9 1 [15]] =
        [⟨1, 6, 0, 20⟩, ⟨1, 10, 0, 0⟩] ∧
      ¬(exampleRach 9 1 [15]).Reports ⟨1, 10, 0, 0⟩ := by
  refine ⟨rfl, ?_⟩
  rintro ⟨i, hi, hcall, -⟩
  obtain rfl : i = 0 := Nat.lt_one_iff.1 hi
  cases congrArg NewRach.power hcall

end Example

end EnbL1Ppc.Generator
