import Mathlib.Tactic.Common

namespace EnbL1Ppc.Generator

structure PhyProc where
  ttiTx : BitVec 32
  ttiRx : BitVec 32
  ttiSchedUl : BitVec 32
  frameRx : BitVec 32
  frameTx : BitVec 32
  frameSchedUl : BitVec 32
  sfRx : BitVec 32
  sfTx : BitVec 32
  sfSchedUl : BitVec 32
  absTtiTx : BitVec 64
  absTtiRx : BitVec 64

/-- The helper counters: one that is not at the TTI is set to it, one that is, is incremented. -/
def setHelper (abs : BitVec 64) (tti : BitVec 32) : BitVec 64 :=
  if abs % 10240 ≠ tti.setWidth 64 then tti.setWidth 64 else abs + 1

def phyCommonSetTime (p : PhyProc) (frame subframe : BitVec 32) : PhyProc :=
  let ttiTx := frame * 10 + subframe
  let ttiRx := if 4 ≤ ttiTx then ttiTx - 4 else 10240 + ttiTx - 4
  let ttiSchedUl := (ttiTx + 4) % 10240
  { ttiTx := ttiTx
    frameTx := frame
    sfTx := subframe
    ttiRx := ttiRx
    frameRx := ttiRx / 10
    sfRx := ttiRx % 10
    ttiSchedUl := ttiSchedUl
    frameSchedUl := ttiSchedUl / 10
    sfSchedUl := ttiSchedUl % 10
    absTtiTx := setHelper p.absTtiTx ttiTx
    absTtiRx := setHelper p.absTtiRx ttiRx }

def setTti (p : PhyProc) (t : ℕ) : PhyProc :=
  phyCommonSetTime p (.ofNat 32 (t % 10240 / 10)) (.ofNat 32 (t % 10240 % 10))

def setTtis (p : PhyProc) (t : ℕ) : ℕ → PhyProc
  | 0 => p
  | n + 1 => setTti (setTtis p t n) (t + n)

def setHelpers (abs : BitVec 64) (t : ℕ) : ℕ → BitVec 64
  | 0 => abs
  | n + 1 => setHelper (setHelpers abs t n) (.ofNat 32 ((t + n) % 10240))

variable {p : PhyProc} {abs : BitVec 64} {t n : ℕ}

theorem setTti_ttiTx (p : PhyProc) (t : ℕ) : (setTti p t).ttiTx = .ofNat 32 (t % 10240) := by
  refine BitVec.eq_of_toNat_eq ?_
  change (BitVec.ofNat 32 (t % 10240 / 10) * 10 + BitVec.ofNat 32 (t % 10240 % 10)).toNat = _
  simp only [BitVec.ofNat_eq_ofNat, BitVec.toNat_add, BitVec.toNat_mul, BitVec.toNat_ofNat]
  omega

theorem setTti_ttiRx (p : PhyProc) (t : ℕ) :
    (setTti p t).ttiRx = .ofNat 32 ((t + 10236) % 10240) := by
  have hrx : (setTti p t).ttiRx = if 4 ≤ (setTti p t).ttiTx then (setTti p t).ttiTx - 4
    else 10240 + (setTti p t).ttiTx - 4 := rfl
  rw [hrx, setTti_ttiTx]
  refine BitVec.eq_of_toNat_eq ?_
  have hle : 4 ≤ BitVec.ofNat 32 (t % 10240) ↔ 4 ≤ t % 10240 := by
    rw [BitVec.le_def, BitVec.toNat_ofNat]
    change 4 ≤ _ ↔ _
    omega
  simp only [hle]
  split_ifs with h
  · simp only [BitVec.ofNat_eq_ofNat, BitVec.toNat_sub, BitVec.toNat_ofNat]
    omega
  · simp only [BitVec.ofNat_eq_ofNat, BitVec.toNat_sub, BitVec.toNat_add, BitVec.toNat_ofNat]
    omega

theorem setTtis_absTtiTx : (setTtis p t n).absTtiTx = setHelpers p.absTtiTx t n := by
  induction n with
  | zero => rfl
  | succ n ih =>
    change setHelper (setTtis p t n).absTtiTx (setTti (setTtis p t n) (t + n)).ttiTx = _
    rw [ih, setTti_ttiTx]
    rfl

theorem setTtis_absTtiRx : (setTtis p t n).absTtiRx = setHelpers p.absTtiRx (t + 10236) n := by
  induction n with
  | zero => rfl
  | succ n ih =>
    change setHelper (setTtis p t n).absTtiRx (setTti (setTtis p t n) (t + n)).ttiRx = _
    rw [ih, setTti_ttiRx, Nat.add_right_comm]
    rfl

theorem toNat_setWidth_tti (k : ℕ) :
    ((BitVec.ofNat 32 (k % 10240)).setWidth 64).toNat = k % 10240 := by
  rw [BitVec.toNat_setWidth, BitVec.toNat_ofNat]
  omega

theorem setHelper_eq (abs : BitVec 64) (k : ℕ) :
    setHelper abs (.ofNat 32 (k % 10240)) =
      if abs.toNat % 10240 = k % 10240 then abs + 1 else .ofNat 64 (k % 10240) := by
  have hne : abs % 10240 = (BitVec.ofNat 32 (k % 10240)).setWidth 64 ↔
      abs.toNat % 10240 = k % 10240 := by
    rw [← BitVec.toNat_inj, toNat_setWidth_tti, BitVec.toNat_umod]
    rfl
  have hset : (BitVec.ofNat 32 (k % 10240)).setWidth 64 = BitVec.ofNat 64 (k % 10240) := by
    refine BitVec.eq_of_toNat_eq ?_
    rw [toNat_setWidth_tti, BitVec.toNat_ofNat]
    omega
  rw [setHelper, ite_not, hset]
  simp only [← hset, hne]

theorem toNat_ofNat_tti (k : ℕ) : (BitVec.ofNat 64 (k % 10240)).toNat = k % 10240 := by
  rw [BitVec.toNat_ofNat]
  omega

theorem setHelpers_of_ne (h : abs.toNat % 10240 ≠ t % 10240) (n : ℕ) :
    (setHelpers abs t (n + 1)).toNat = (t + n) % 10240 := by
  induction n with
  | zero =>
    change (setHelper abs (.ofNat 32 ((t + 0) % 10240))).toNat = _
    rw [setHelper_eq, Nat.add_zero, if_neg h, toNat_ofNat_tti]
  | succ n ih =>
    have hne : (setHelpers abs t (n + 1)).toNat % 10240 ≠ (t + (n + 1)) % 10240 := by omega
    rw [setHelpers, setHelper_eq, if_neg hne, toNat_ofNat_tti]

/-- From the second of the `n` calls on, the counter is incremented and is at the TTI. -/
def Advances (abs : BitVec 64) (t n : ℕ) : Prop :=
  ∀ k, 1 ≤ k → k < n → (setHelpers abs t (k + 1)).toNat = (setHelpers abs t k).toNat + 1 ∧
    (setHelpers abs t (k + 1)).toNat % 10240 = (t + k) % 10240

theorem not_advances_of_eq (h : abs.toNat % 10240 = t % 10240) (hn : 2 ≤ n) :
    ¬Advances abs t n := by
  intro hadv
  obtain ⟨hsucc, hmod⟩ := hadv 1 (Nat.le_refl 1) hn
  have hone : setHelpers abs t 1 = abs + 1 := by
    change setHelper abs (.ofNat 32 ((t + 0) % 10240)) = _
    rw [setHelper_eq, Nat.add_zero, if_pos h]
  have htwo : setHelpers abs t 2 = _ := setHelper_eq (setHelpers abs t 1) (t + 1)
  rw [htwo, hone] at hsucc hmod
  have hlt := abs.isLt
  split_ifs at hsucc hmod with hnext
  · simp only [BitVec.ofNat_eq_ofNat, BitVec.toNat_add, BitVec.toNat_ofNat] at hsucc hmod hnext
    omega
  · simp only [BitVec.ofNat_eq_ofNat, BitVec.toNat_add, BitVec.toNat_ofNat] at hsucc hmod hnext
    omega

theorem advances_iff (abs : BitVec 64) (t n : ℕ) :
    Advances abs t n ↔ n < 2 ∨ abs.toNat % 10240 ≠ t % 10240 ∧ t % 10240 + n ≤ 10240 := by
  rcases Nat.lt_or_ge n 2 with hn | hn
  · exact iff_of_true (fun k h₁ h₂ ↦ by omega) (.inl hn)
  by_cases h : abs.toNat % 10240 = t % 10240
  · refine iff_of_false (not_advances_of_eq h hn) ?_
    rintro (hlt | ⟨hne, -⟩)
    · omega
    · exact hne h
  · have hval (k : ℕ) (hk : 1 ≤ k) : (setHelpers abs t k).toNat = (t + (k - 1)) % 10240 := by
      obtain ⟨j, rfl⟩ := Nat.exists_eq_add_of_le' hk
      exact setHelpers_of_ne h j
    constructor
    · intro hadv
      refine .inr ⟨h, ?_⟩
      by_contra hwrap
      -- the call for TTI 0
      have hk : 1 ≤ 10240 - t % 10240 := by omega
      obtain ⟨hsucc, -⟩ := hadv (10240 - t % 10240) hk (by omega)
      rw [setHelpers_of_ne h, hval _ hk] at hsucc
      omega
    · rintro (hlt | ⟨-, hle⟩) k hk hkn
      · omega
      · rw [setHelpers_of_ne h, hval k hk]
        omega

/-- From the second call on, the helper counters are incremented and are at the TTI exactly if
neither was at it at the first call and neither TTI wraps. -/
theorem setTime_advances_iff (p : PhyProc) (t n : ℕ) :
    (∀ k, 1 ≤ k → k < n →
      (setTtis p t (k + 1)).absTtiTx.toNat = (setTtis p t k).absTtiTx.toNat + 1 ∧
      (setTtis p t (k + 1)).absTtiTx.toNat % 10240 = (setTtis p t (k + 1)).ttiTx.toNat ∧
      (setTtis p t (k + 1)).absTtiRx.toNat = (setTtis p t k).absTtiRx.toNat + 1 ∧
      (setTtis p t (k + 1)).absTtiRx.toNat % 10240 = (setTtis p t (k + 1)).ttiRx.toNat) ↔
    n < 2 ∨
      (p.absTtiTx.toNat % 10240 ≠ t % 10240 ∧ t % 10240 + n ≤ 10240) ∧
      p.absTtiRx.toNat % 10240 ≠ (t + 10236) % 10240 ∧ (t + 10236) % 10240 + n ≤ 10240 := by
  rw [or_and_left, ← advances_iff, ← advances_iff, Advances, Advances, ← forall_and]
  refine forall_congr' fun k ↦ ?_
  have htx : (setTtis p t (k + 1)).ttiTx.toNat = (t + k) % 10240 := by
    rw [setTtis, setTti_ttiTx, BitVec.toNat_ofNat]
    omega
  have hrx : (setTtis p t (k + 1)).ttiRx.toNat = (t + 10236 + k) % 10240 := by
    rw [setTtis, setTti_ttiRx, BitVec.toNat_ofNat]
    omega
  rw [htx, hrx, setTtis_absTtiTx, setTtis_absTtiTx, setTtis_absTtiRx, setTtis_absTtiRx]
  tauto

def startProc : PhyProc := ⟨0, 0, 0, 0, 0, 0, 0, 0, 0, 0, 0⟩

/-- In front of the wrap the counter is set back to 0; a counter that is at the first TTI is one
ahead of it from then on. -/
theorem setTime_not_advancing :
    (setTtis startProc 10239 2).absTtiTx = 0 ∧ (setTtis startProc 10239 1).absTtiTx = 10239 ∧
      (setTtis startProc 0 2).absTtiTx = 2 ∧ (setTtis startProc 0 2).ttiTx = 1 := by
  decide

end EnbL1Ppc.Generator
