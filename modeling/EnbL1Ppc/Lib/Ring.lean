import Mathlib.Data.List.Range
import Mathlib.Logic.Function.Basic
import Mathlib.Data.Nat.ModEq

namespace EnbL1Ppc.Lib.Ring

variable {α : Type}

/-- The `count` slots of a ring of `n` slots that start at index `start`, in order. -/
def window (slots : ℕ → α) (n start count : ℕ) : List α :=
  (List.range count).map fun i ↦ slots ((start + i) % n)

@[simp] theorem window_zero (slots : ℕ → α) (n start : ℕ) : window slots n start 0 = [] := rfl

@[simp] theorem length_window (slots : ℕ → α) (n start count : ℕ) :
    (window slots n start count).length = count := by simp [window]

theorem window_succ (slots : ℕ → α) (n start count : ℕ) :
    window slots n start (count + 1) =
      window slots n start count ++ [slots ((start + count) % n)] := by
  simp [window, List.range_succ]

theorem window_cons (slots : ℕ → α) (n start count : ℕ) :
    window slots n start (count + 1) =
      slots (start % n) :: window slots n ((start + 1) % n) count := by
  simp only [window, List.range_succ_eq_map, List.map_cons, List.map_map, Nat.add_zero,
    List.cons.injEq, true_and]
  refine List.map_congr_left fun i _ ↦ ?_
  rw [Function.comp_apply, Nat.mod_add_mod, Nat.succ_eq_add_one, Nat.add_right_comm,
    Nat.add_assoc start i 1]

theorem add_mod_inj {n start i j : ℕ} (hi : i < n) (hj : j < n) :
    (start + i) % n = (start + j) % n ↔ i = j := by
  refine ⟨fun h ↦ ?_, fun h ↦ by rw [h]⟩
  have := Nat.ModEq.add_left_cancel' start h
  rwa [Nat.ModEq, Nat.mod_eq_of_lt hi, Nat.mod_eq_of_lt hj] at this

/-- Writing the slot just behind a window that is not full leaves the window unchanged. -/
theorem window_update (slots : ℕ → α) {n start count : ℕ} (h : count < n) (a : α) :
    window (Function.update slots ((start + count) % n) a) n start count =
      window slots n start count := by
  refine List.map_congr_left fun i hi ↦ Function.update_of_ne ?_ _ _
  have hi := List.mem_range.1 hi
  rw [Ne, add_mod_inj (hi.trans h) h]
  omega

theorem window_push (slots : ℕ → α) {n start count : ℕ} (h : count < n) (a : α) :
    window (Function.update slots ((start + count) % n) a) n start (count + 1) =
      window slots n start count ++ [a] := by
  rw [window_succ, window_update slots h, Function.update_self]

end EnbL1Ppc.Lib.Ring
