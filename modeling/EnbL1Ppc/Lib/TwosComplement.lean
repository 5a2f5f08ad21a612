import Mathlib.Data.Int.Notation
import Mathlib.Tactic.Ring
import Mathlib.Tactic.Linarith

namespace EnbL1Ppc.Lib.TwosComplement

def fromBytes (a : ℤ) (l : List UInt8) : ℤ :=
  l.foldl (fun v b ↦ v * 256 + b.toNat) a

def toBytes : ℕ → ℤ → List UInt8
  | 0, _ => []
  | n + 1, v => toBytes n (v / 256) ++ [UInt8.ofNat (v % 256).toNat]

def sign : List UInt8 → ℤ
  | [] => 0
  | b :: _ => if 0x80 ≤ b then -1 else 0

/-- Drop the leading bytes that only repeat the sign bit of their successor. -/
def trim : List UInt8 → List UInt8
  | a :: b :: l =>
    if a = 0x00 ∧ ¬ 0x80 ≤ b ∨ a = 0xff ∧ 0x80 ≤ b then trim (b :: l) else a :: b :: l
  | l => l

theorem fromBytes_append (a : ℤ) (l l' : List UInt8) :
    fromBytes a (l ++ l') = fromBytes (fromBytes a l) l' := by
  simp [fromBytes]

theorem length_toBytes (n : ℕ) (v : ℤ) : (toBytes n v).length = n := by
  induction n generalizing v with
  | zero => rfl
  | succ n ih => simp [toBytes, ih]

theorem fromBytes_toBytes (n : ℕ) (v : ℤ) : fromBytes (v / 256 ^ n) (toBytes n v) = v := by
  induction n generalizing v with
  | zero => simp [toBytes, fromBytes]
  | succ n ih =>
    have hdiv : v / 256 ^ (n + 1) = v / 256 / 256 ^ n := by
      rw [pow_succ', Int.ediv_ediv_of_nonneg (by norm_num)]
    rw [toBytes, fromBytes_append, hdiv, ih]
    have hlt : (v % 256).toNat < 256 := by omega
    simp only [fromBytes, List.foldl_cons, List.foldl_nil, UInt8.toNat_ofNat']
    omega

theorem fromBytes_trim (l : List UInt8) : fromBytes (sign (trim l)) (trim l) = fromBytes (sign l) l := by
  induction l with
  | nil => rfl
  | cons a l ih =>
    cases l with
    | nil => rfl
    | cons b l =>
      rw [trim]
      split
      · next h =>
        rw [ih]
        rcases h with ⟨rfl, hb⟩ | ⟨rfl, hb⟩ <;> simp [sign, hb, fromBytes]
      · rfl

theorem length_trim_le (l : List UInt8) : (trim l).length ≤ l.length := by
  induction l with
  | nil => rfl
  | cons a l ih =>
    cases l with
    | nil => rfl
    | cons b l =>
      rw [trim]
      split
      · exact ih.trans (by simp)
      · rfl

theorem sign_append {l : List UInt8} (h : l ≠ []) (l' : List UInt8) : sign (l ++ l') = sign l := by
  cases l with
  | nil => exact absurd rfl h
  | cons a l => rfl

theorem sign_toBytes {n : ℕ} {v : ℤ} (hlo : -(128 * 256 ^ n) ≤ v) (hhi : v < 128 * 256 ^ n) :
    sign (toBytes (n + 1) v) = v / 256 ^ (n + 1) := by
  induction n generalizing v with
  | zero =>
    have hb : (0x80 ≤ UInt8.ofNat (v % 256).toNat) ↔ v < 0 := by
      rw [UInt8.le_iff_toNat_le, UInt8.toNat_ofNat']
      simp only [UInt8.reduceToNat]
      omega
    simp only [toBytes, List.nil_append, sign, hb]
    split <;> omega
  | succ n ih =>
    have hdiv : v / 256 ^ (n + 1 + 1) = v / 256 / 256 ^ (n + 1) := by
      rw [pow_succ' _ (n + 1), Int.ediv_ediv_of_nonneg (by norm_num)]
    have hne : toBytes (n + 1) (v / 256) ≠ [] := by
      rw [← List.length_pos_iff, length_toBytes]
      omega
    rw [pow_succ] at hlo hhi
    rw [toBytes, sign_append hne, ih (by omega) (by omega), hdiv]

theorem fromBytes_trim_toBytes {n : ℕ} {v : ℤ} (hlo : -(128 * 256 ^ n) ≤ v)
    (hhi : v < 128 * 256 ^ n) :
    fromBytes (sign (trim (toBytes (n + 1) v))) (trim (toBytes (n + 1) v)) = v := by
  rw [fromBytes_trim, sign_toBytes hlo hhi, fromBytes_toBytes]

end EnbL1Ppc.Lib.TwosComplement
