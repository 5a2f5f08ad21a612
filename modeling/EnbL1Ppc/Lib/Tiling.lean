import Mathlib.Data.List.Basic
import Mathlib.Tactic

namespace EnbL1Ppc.Lib.Tiling

variable {α : Type}

/-- The pieces lie one after the other, without a gap, from `a` to `b`. -/
def Tiles (start size : α → ℕ) : ℕ → List α → ℕ → Prop
  | a, [], b => a = b
  | a, x :: xs, b => start x = a ∧ Tiles start size (a + size x) xs b

variable {start size : α → ℕ} {a b : ℕ} {x y : α} {xs ys : List α}

@[simp] theorem tiles_nil : Tiles start size a [] b ↔ a = b := .rfl

@[simp] theorem tiles_cons :
    Tiles start size a (x :: xs) b ↔ start x = a ∧ Tiles start size (a + size x) xs b := .rfl

theorem tiles_append :
    Tiles start size a (xs ++ ys) b ↔
      ∃ m, Tiles start size a xs m ∧ Tiles start size m ys b := by
  induction xs generalizing a with
  | nil => simp
  | cons x xs ih => simp only [List.cons_append, tiles_cons, ih, and_assoc, exists_and_left]

theorem Tiles.le (h : Tiles start size a xs b) : a ≤ b := by
  induction xs generalizing a with
  | nil => exact h.le
  | cons x xs ih => exact le_trans (Nat.le_add_right ..) (ih h.2)

theorem Tiles.bounds (h : Tiles start size a xs b) (hx : x ∈ xs) :
    a ≤ start x ∧ start x + size x ≤ b := by
  obtain ⟨l, r, rfl⟩ := List.append_of_mem hx
  obtain ⟨m, hl, hs, hr⟩ := tiles_append.1 h
  subst hs
  exact ⟨hl.le, hr.le⟩

theorem Tiles.pairwise (h : Tiles start size a xs b) :
    xs.Pairwise fun x y ↦ start x + size x ≤ start y := by
  induction xs generalizing a with
  | nil => exact .nil
  | cons x xs ih =>
    obtain ⟨rfl, h⟩ := h
    exact .cons (fun y hy ↦ (h.bounds hy).1) (ih h)

theorem Tiles.eq_add_sum (h : Tiles start size a xs b) : b = a + (xs.map size).sum := by
  induction xs generalizing a with
  | nil => exact h.symm
  | cons x xs ih =>
    rw [List.map_cons, List.sum_cons, ← Nat.add_assoc]
    exact ih h.2

end EnbL1Ppc.Lib.Tiling
