import Mathlib.Data.BitVec
import Mathlib.Tactic

namespace EnbL1Ppc.Core.Time

/-- `struct timeval`. `time_t` and `suseconds_t` are signed and have `w` bits. -/
structure Timeval (w : ℕ) where
  tvSec : BitVec w
  tvUsec : BitVec w
  deriving DecidableEq

variable {w : ℕ}

def timevalAdd (a b : Timeval w) : Timeval w :=
  let out : Timeval w := ⟨a.tvSec + b.tvSec, a.tvUsec + b.tvUsec⟩
  if out.tvUsec.toInt ≥ 1000000 then ⟨out.tvSec + 1, out.tvUsec - 1000000⟩ else out

/-- The second result says that the difference is negative. -/
def timevalSub (a b : Timeval w) : Timeval w × Bool :=
  if a.tvSec.toInt > b.tvSec.toInt then
    if a.tvUsec.toInt ≥ b.tvUsec.toInt then
      (⟨a.tvSec - b.tvSec, a.tvUsec - b.tvUsec⟩, false)
    else (⟨a.tvSec - b.tvSec - 1, 1000000 - b.tvUsec + a.tvUsec⟩, false)
  else if a.tvSec.toInt < b.tvSec.toInt then
    if a.tvUsec.toInt > b.tvUsec.toInt then
      (⟨b.tvSec - a.tvSec - 1, 1000000 - a.tvUsec + b.tvUsec⟩, true)
    else (⟨b.tvSec - a.tvSec, b.tvUsec - a.tvUsec⟩, true)
  else if a.tvUsec.toInt ≥ b.tvUsec.toInt then (⟨0, a.tvUsec - b.tvUsec⟩, false)
  else (⟨0, b.tvUsec - a.tvUsec⟩, true)

/-- The product and the sum are formed in `w` bits; only the result is widened. -/
def timevalGetMonotone (a : Timeval w) : BitVec 64 :=
  (a.tvSec * 1000000 + a.tvUsec).signExtend 64

def timevalFromMonotoneUs (monotoneUs : BitVec 64) : Timeval w :=
  ⟨(monotoneUs / 1000000).setWidth w, (monotoneUs % 1000000).setWidth w⟩

/-! Exact times -/

def Timeval.us (t : Timeval w) : ℤ := t.tvSec.toInt * 1000000 + t.tvUsec.toInt

structure Timeval.Normalised (t : Timeval w) : Prop where
  nonneg : 0 ≤ t.tvUsec.toInt
  lt : t.tvUsec.toInt < 1000000

def Fits (w : ℕ) (us : ℤ) : Prop :=
  -2 ^ (w - 1) ≤ us / 1000000 ∧ us / 1000000 < 2 ^ (w - 1)

def Timeval.ofUs (w : ℕ) (us : ℤ) : Timeval w :=
  ⟨.ofInt w (us / 1000000), .ofInt w (us % 1000000)⟩

variable {a b t : Timeval w} {q r us : ℤ}

theorem toInt_ofInt_usec (hw : 22 ≤ w) (hlo : 0 ≤ r) (hhi : r < 2000000) :
    (BitVec.ofInt w r).toInt = r := by
  have hpow : (2 : ℤ) ^ 21 ≤ 2 ^ (w - 1) := pow_le_pow_right₀ (by norm_num) (by omega)
  refine BitVec.toInt_ofInt_eq_self (by omega) ?_ ?_
  · omega
  · omega

theorem ofInt_sub (q r : ℤ) : BitVec.ofInt w (q - r) = .ofInt w q - .ofInt w r := by
  rw [Int.sub_eq_add_neg, BitVec.ofInt_add, BitVec.ofInt_neg, BitVec.sub_eq_add_neg]

theorem ofUs_eq (hlo : 0 ≤ r) (hhi : r < 1000000) :
    Timeval.ofUs w (q * 1000000 + r) = ⟨.ofInt w q, .ofInt w r⟩ := by
  have hdiv : (q * 1000000 + r) / 1000000 = q := by omega
  have hmod : (q * 1000000 + r) % 1000000 = r := by omega
  rw [Timeval.ofUs, hdiv, hmod]

theorem Timeval.Normalised.ofUs_us (h : t.Normalised) : ofUs w t.us = t := by
  rw [us, ofUs_eq h.nonneg h.lt, BitVec.ofInt_toInt, BitVec.ofInt_toInt]

theorem ofUs_normalised (hw : 22 ≤ w) (us : ℤ) : (Timeval.ofUs w us).Normalised := by
  have husec := toInt_ofInt_usec (r := us % 1000000) hw (by omega) (by omega)
  refine ⟨?_, ?_⟩
  · rw [Timeval.ofUs, husec]
    omega
  · rw [Timeval.ofUs, husec]
    omega

theorem us_ofUs (hw : 22 ≤ w) (h : Fits w us) : (Timeval.ofUs w us).us = us := by
  have hsec : (BitVec.ofInt w (us / 1000000)).toInt = us / 1000000 :=
    BitVec.toInt_ofInt_eq_self (by omega) h.1 h.2
  have husec := toInt_ofInt_usec (r := us % 1000000) hw (by omega) (by omega)
  rw [Timeval.us, Timeval.ofUs, hsec, husec]
  omega

theorem timevalAdd_eq (hw : 22 ≤ w) (ha : a.Normalised) (hb : b.Normalised) :
    timevalAdd a b = .ofUs w (a.us + b.us) := by
  obtain ⟨ha₀, ha₁⟩ := ha
  obtain ⟨hb₀, hb₁⟩ := hb
  have husec : (a.tvUsec + b.tvUsec).toInt = a.tvUsec.toInt + b.tvUsec.toInt := by
    have hsum := toInt_ofInt_usec (r := a.tvUsec.toInt + b.tvUsec.toInt) hw (by omega) (by omega)
    rwa [BitVec.ofInt_add, BitVec.ofInt_toInt, BitVec.ofInt_toInt] at hsum
  rw [timevalAdd]
  dsimp only
  rw [husec]
  split_ifs with hcarry
  · have hus : a.us + b.us = (a.tvSec.toInt + b.tvSec.toInt + 1) * 1000000 +
        (a.tvUsec.toInt + b.tvUsec.toInt - 1000000) := by
      rw [Timeval.us, Timeval.us]
      omega
    rw [hus, ofUs_eq (by omega) (by omega)]
    simp only [BitVec.ofInt_add, ofInt_sub, BitVec.ofInt_toInt]
    rfl
  · have hus : a.us + b.us = (a.tvSec.toInt + b.tvSec.toInt) * 1000000 +
        (a.tvUsec.toInt + b.tvUsec.toInt) := by
      rw [Timeval.us, Timeval.us]
      omega
    rw [hus, ofUs_eq (by omega) (by omega)]
    simp only [BitVec.ofInt_add, BitVec.ofInt_toInt]

theorem sub_parts (ha : a.Normalised) (hb : b.Normalised) :
    (b.tvUsec.toInt ≤ a.tvUsec.toInt →
      (⟨a.tvSec - b.tvSec, a.tvUsec - b.tvUsec⟩ : Timeval w) = .ofUs w (a.us - b.us)) ∧
    (a.tvUsec.toInt < b.tvUsec.toInt →
      (⟨a.tvSec - b.tvSec - 1, 1000000 - b.tvUsec + a.tvUsec⟩ : Timeval w) =
        .ofUs w (a.us - b.us)) := by
  obtain ⟨ha₀, ha₁⟩ := ha
  obtain ⟨hb₀, hb₁⟩ := hb
  constructor
  · intro hle
    have hus : a.us - b.us = (a.tvSec.toInt - b.tvSec.toInt) * 1000000 +
        (a.tvUsec.toInt - b.tvUsec.toInt) := by
      rw [Timeval.us, Timeval.us]
      omega
    rw [hus, ofUs_eq (by omega) (by omega)]
    simp only [ofInt_sub, BitVec.ofInt_toInt]
  · intro hlt
    have hus : a.us - b.us = (a.tvSec.toInt - b.tvSec.toInt - 1) * 1000000 +
        (1000000 - b.tvUsec.toInt + a.tvUsec.toInt) := by
      rw [Timeval.us, Timeval.us]
      omega
    rw [hus, ofUs_eq (by omega) (by omega)]
    simp only [BitVec.ofInt_add, ofInt_sub, BitVec.ofInt_toInt]
    rfl

theorem timevalSub_eq (ha : a.Normalised) (hb : b.Normalised) :
    timevalSub a b = (.ofUs w |a.us - b.us|, decide (a.us < b.us)) := by
  obtain ⟨hkeep, hborrow⟩ := sub_parts ha hb
  obtain ⟨hkeep', hborrow'⟩ := sub_parts hb ha
  obtain ⟨ha₀, ha₁⟩ := ha
  obtain ⟨hb₀, hb₁⟩ := hb
  have hus : a.us = a.tvSec.toInt * 1000000 + a.tvUsec.toInt := rfl
  have hus' : b.us = b.tvSec.toInt * 1000000 + b.tvUsec.toInt := rfl
  have hpos (h : b.us ≤ a.us) :
      ((Timeval.ofUs w |a.us - b.us|, decide (a.us < b.us)) : Timeval w × Bool) =
        (.ofUs w (a.us - b.us), false) := by
    rw [abs_of_nonneg (by omega), decide_eq_false (by omega)]
  have hneg (h : a.us < b.us) :
      ((Timeval.ofUs w |a.us - b.us|, decide (a.us < b.us)) : Timeval w × Bool) =
        (.ofUs w (b.us - a.us), true) := by
    rw [abs_of_neg (by omega), neg_sub, decide_eq_true h]
  rw [timevalSub]
  split_ifs with hgt hle hlt hle hle
  · rw [hpos (by omega), hkeep hle]
  · rw [hpos (by omega), hborrow (by omega)]
  · rw [hneg (by omega), hborrow' hle]
  · rw [hneg (by omega), hkeep' (by omega)]
  · have hzero : (0 : BitVec w) = a.tvSec - b.tvSec := by
      rw [BitVec.eq_of_toInt_eq (show a.tvSec.toInt = b.tvSec.toInt by omega), BitVec.sub_self]
      rfl
    rw [hpos (by omega), hzero, hkeep hle]
  · have hzero : (0 : BitVec w) = b.tvSec - a.tvSec := by
      rw [BitVec.eq_of_toInt_eq (show a.tvSec.toInt = b.tvSec.toInt by omega), BitVec.sub_self]
      rfl
    rw [hneg (by omega), hzero, hkeep' (by omega)]

/-- Sums and differences of normalised timevals. The seconds before the carry or behind the
borrow may overflow; only the results have to fit. -/
theorem timeval_sum_difference (hw : 22 ≤ w) (ha : a.Normalised) (hb : b.Normalised) :
    (Fits w (a.us + b.us) →
      (timevalAdd a b).Normalised ∧ (timevalAdd a b).us = a.us + b.us) ∧
    (Fits w |a.us - b.us| →
      (timevalSub a b).1.Normalised ∧ (timevalSub a b).1.us = |a.us - b.us| ∧
      ((timevalSub a b).2 = true ↔ a.us < b.us)) ∧
    (Fits w (a.us + b.us) → 0 ≤ b.us → 0 ≤ a.us →
      timevalSub (timevalAdd a b) b = (a, false)) := by
  have hadd := timevalAdd_eq hw ha hb
  refine ⟨fun hfits ↦ ?_, fun hfits ↦ ?_, fun hfits _ hpos ↦ ?_⟩
  · rw [hadd]
    exact ⟨ofUs_normalised hw _, us_ofUs hw hfits⟩
  · rw [timevalSub_eq ha hb]
    exact ⟨ofUs_normalised hw _, us_ofUs hw hfits, decide_eq_true_iff⟩
  · rw [timevalSub_eq (hadd ▸ ofUs_normalised hw _) hb, hadd, us_ofUs hw hfits,
      add_sub_cancel_right, abs_of_nonneg hpos, ha.ofUs_us, decide_eq_false (by omega)]

theorem timeval_sum_difference_carry :
    timevalSub (timevalAdd (⟨1, 700000⟩ : Timeval 32) ⟨2, 400000⟩) ⟨2, 400000⟩ =
      (⟨1, 700000⟩, false) :=
  (timeval_sum_difference (w := 32) (by decide) ⟨by decide, by decide⟩ ⟨by decide, by decide⟩).2.2
    ⟨by decide, by decide⟩ (by decide) (by decide)

/-! The monotone time -/

theorem getMonotone_fromMonotoneUs (monotoneUs : BitVec 64) :
    timevalGetMonotone (timevalFromMonotoneUs monotoneUs : Timeval w) =
      (monotoneUs.setWidth w).signExtend 64 := by
  have hparts : (timevalFromMonotoneUs monotoneUs : Timeval w).tvSec * 1000000 +
      (timevalFromMonotoneUs monotoneUs : Timeval w).tvUsec =
        .ofNat w (monotoneUs.toNat / 1000000 * 1000000 + monotoneUs.toNat % 1000000) := by
    rw [BitVec.ofNat_add, BitVec.ofNat_mul, timevalFromMonotoneUs, ← BitVec.ofNat_toNat,
      ← BitVec.ofNat_toNat, BitVec.toNat_udiv, BitVec.toNat_umod]
    rfl
  rw [timevalGetMonotone, hparts, Nat.div_add_mod', BitVec.ofNat_toNat]

/-- On the 32-bit target the time is read back below 2147483648 microseconds. -/
theorem getMonotone_eq_iff (monotoneUs : BitVec 64)
    (hfits : monotoneUs.toNat / 1000000 < 2 ^ 31) :
    timevalGetMonotone (timevalFromMonotoneUs monotoneUs : Timeval 32) = monotoneUs ↔
      monotoneUs.toNat < 2 ^ 31 := by
  have hmsb : (monotoneUs.setWidth 32).msb = true ↔ 2 ^ 31 ≤ monotoneUs.toNat % 2 ^ 32 := by
    rw [BitVec.msb_eq_decide, decide_eq_true_iff, BitVec.toNat_setWidth]
  rw [getMonotone_fromMonotoneUs, ← BitVec.toNat_inj, BitVec.toNat_signExtend,
    BitVec.toNat_setWidth, BitVec.toNat_setWidth]
  simp only [hmsb]
  split_ifs with hneg
  · omega
  · omega

theorem getMonotone_eq_iff_seconds :
    timevalGetMonotone (timevalFromMonotoneUs 1500000 : Timeval 32) = 1500000 :=
  (getMonotone_eq_iff 1500000 (by decide)).2 (by decide)

/-- After 2147.483648 s the product overflows. -/
theorem getMonotone_negative :
    (2147483648#64).toNat / 1000000 < 2 ^ 31 ∧
      timevalGetMonotone (timevalFromMonotoneUs 2147483648 : Timeval 32) =
        0xffffffff80000000 := by
  decide

end EnbL1Ppc.Core.Time
