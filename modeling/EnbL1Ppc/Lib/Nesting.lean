import Mathlib.Tactic.Common

namespace EnbL1Ppc.Lib

inductive Bracket
  | opening | closing | other
  deriving DecidableEq

section Nest

variable {α : Type} (kind : α → Bracket)

/-- The depth at the end of a text that starts at depth `d`, or `none` if a bracket is closed
that has not been opened. -/
def nest : ℕ → List α → Option ℕ
  | d, [] => some d
  | d, a :: l =>
    match kind a, d with
    | .opening, d => nest (d + 1) l
    | .closing, 0 => none
    | .closing, d + 1 => nest d l
    | .other, d => nest d l

variable {kind}

theorem nest_cons (d : ℕ) (a : α) (l : List α) :
    nest kind d (a :: l) =
      match kind a, d with
      | .opening, d => nest kind (d + 1) l
      | .closing, 0 => none
      | .closing, d + 1 => nest kind d l
      | .other, d => nest kind d l :=
  rfl

theorem nest_opening {a : α} (h : kind a = .opening) (d : ℕ) (l : List α) :
    nest kind d (a :: l) = nest kind (d + 1) l := by
  rw [nest_cons, h]

theorem nest_closing {a : α} (h : kind a = .closing) (d : ℕ) (l : List α) :
    nest kind (d + 1) (a :: l) = nest kind d l := by
  rw [nest_cons, h]

theorem nest_closing_zero {a : α} (h : kind a = .closing) (l : List α) :
    nest kind 0 (a :: l) = none := by
  rw [nest_cons, h]

theorem nest_other {a : α} (h : kind a = .other) (d : ℕ) (l : List α) :
    nest kind d (a :: l) = nest kind d l := by
  rw [nest_cons, h]

theorem nest_append (d : ℕ) (l₁ l₂ : List α) :
    nest kind d (l₁ ++ l₂) = (nest kind d l₁).bind (nest kind · l₂) := by
  induction l₁ generalizing d with
  | nil => rfl
  | cons a l₁ ih =>
    rw [List.cons_append]
    cases hk : kind a with
    | opening => rw [nest_opening hk, nest_opening hk, ih]
    | other => rw [nest_other hk, nest_other hk, ih]
    | closing =>
      cases d with
      | zero =>
        rw [nest_closing_zero hk, nest_closing_zero hk]
        rfl
      | succ d => rw [nest_closing hk, nest_closing hk, ih]

theorem nest_append_of_eq {d d' : ℕ} {l₁ : List α} (h : nest kind d l₁ = some d') (l₂ : List α) :
    nest kind d (l₁ ++ l₂) = nest kind d' l₂ := by
  rw [nest_append, h]
  rfl

theorem nest_add {d d' : ℕ} {l : List α} (h : nest kind d l = some d') (k : ℕ) :
    nest kind (d + k) l = some (d' + k) := by
  induction l generalizing d with
  | nil =>
    cases h
    rfl
  | cons a l ih =>
    cases hk : kind a with
    | opening =>
      rw [nest_opening hk] at h ⊢
      rw [Nat.add_right_comm]
      exact ih h
    | other =>
      rw [nest_other hk] at h ⊢
      exact ih h
    | closing =>
      cases d with
      | zero =>
        rw [nest_closing_zero hk] at h
        cases h
      | succ d =>
        rw [nest_closing hk] at h
        rw [Nat.add_right_comm, nest_closing hk]
        exact ih h

theorem nest_balanced_append {l₁ : List α} (h : nest kind 0 l₁ = some 0) (d : ℕ) (l₂ : List α) :
    nest kind d (l₁ ++ l₂) = nest kind d l₂ := by
  have hd := nest_add h d
  rw [Nat.zero_add] at hd
  exact nest_append_of_eq hd l₂

theorem nest_filter {p : α → Bool} (hp : ∀ a, p a = false → kind a = .other) (d : ℕ)
    (l : List α) : nest kind d (l.filter p) = nest kind d l := by
  induction l generalizing d with
  | nil => rfl
  | cons a l ih =>
    cases ha : p a with
    | false =>
      rw [List.filter_cons_of_neg (by simp [ha]), ih, nest_other (hp a ha)]
    | true =>
      rw [List.filter_cons_of_pos ha]
      cases hk : kind a with
      | opening => rw [nest_opening hk, nest_opening hk, ih]
      | other => rw [nest_other hk, nest_other hk, ih]
      | closing =>
        cases d with
        | zero => rw [nest_closing_zero hk, nest_closing_zero hk]
        | succ d => rw [nest_closing hk, nest_closing hk, ih]

theorem nest_head {a : α} {l : List α} {d : ℕ} (h : nest kind 0 (a :: l) = some d) :
    kind a ≠ .closing := by
  intro hk
  rw [nest_closing_zero hk] at h
  cases h

end Nest

end EnbL1Ppc.Lib
