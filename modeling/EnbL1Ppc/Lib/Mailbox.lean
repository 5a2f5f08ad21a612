import Mathlib.Logic.Function.Basic
import Mathlib.Tactic.Common

namespace EnbL1Ppc.Lib.Mailbox

variable {α κ : Type} [DecidableEq κ] (key : α → κ)

def putAll (slots : κ → Option α) (xs : List α) : κ → Option α :=
  xs.foldl (fun slots x ↦ Function.update slots (key x) (some x)) slots

def latest (k : κ) : List α → Option α
  | [] => none
  | x :: xs => (latest k xs).or (if key x = k then some x else none)

/-- The messages of the turns since the slot of the key was last emptied. A turn has its messages
and the key that it empties. -/
def since (k : κ) (turns : List (List α × κ)) : List α :=
  turns.foldl (fun xs t ↦ if t.2 = k then [] else xs ++ t.1) []

variable {key} {slots : κ → Option α} {k : κ} {x : α} {xs ys : List α}
  {turns : List (List α × κ)}

theorem latest_append : latest key k (xs ++ ys) = (latest key k ys).or (latest key k xs) := by
  induction xs with
  | nil => exact (Option.or_none).symm
  | cons x xs ih => rw [List.cons_append, latest, ih, latest, Option.or_assoc]

theorem key_of_mem_latest (h : x ∈ latest key k xs) : key x = k := by
  induction xs with
  | nil => cases h
  | cons y xs ih =>
    rw [latest, Option.mem_def, Option.or_eq_some_iff] at h
    rcases h with h | ⟨-, h⟩
    · exact ih h
    · split_ifs at h with hkey
      cases h
      exact hkey

theorem putAll_apply (slots : κ → Option α) (xs : List α) (k : κ) :
    putAll key slots xs k = (latest key k xs).or (slots k) := by
  induction xs generalizing slots with
  | nil => rfl
  | cons x xs ih =>
    change putAll key (Function.update slots (key x) (some x)) xs k = _
    rw [ih, latest, Option.or_assoc, Function.update_apply]
    congr 1
    simp only [eq_comm (a := k)]
    split_ifs <;> rfl

theorem since_concat (turns : List (List α × κ)) (t : List α × κ) :
    since k (turns ++ [t]) = if t.2 = k then [] else since k turns ++ t.1 :=
  List.foldl_append

theorem update_putAll_apply (h : ∀ k, slots k = latest key k (since k turns)) (xs : List α)
    (k k' : κ) :
    Function.update (putAll key slots xs) k none k' =
      latest key k' (since k' (turns ++ [(xs, k)])) := by
  rw [since_concat, Function.update_apply]
  by_cases hk : k = k'
  · rw [if_pos hk.symm, if_pos hk]
    rfl
  · rw [if_neg (Ne.symm hk), if_neg hk, putAll_apply, h, latest_append]

end EnbL1Ppc.Lib.Mailbox
