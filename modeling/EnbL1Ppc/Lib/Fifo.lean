import Mathlib.Data.List.Infix

namespace EnbL1Ppc.Lib.Fifo

variable {α : Type}

inductive Event (α : Type)
  | put (a : α)
  | get (a : α)
  | full
  | empty
  deriving DecidableEq

/-- The bounded FIFO itself: an event the specification does not allow gives `none`. -/
def step [DecidableEq α] (cap : ℕ) (c : List α) : Event α → Option (List α)
  | .put a => if c.length < cap then some (c ++ [a]) else none
  | .get a => if c.head? = some a then some c.tail else none
  | .full => if c.length = cap then some c else none
  | .empty => if c = [] then some c else none

def run [DecidableEq α] (cap : ℕ) (c : List α) (es : List (Event α)) : Option (List α) :=
  es.foldlM (step cap) c

def puts (es : List (Event α)) : List α :=
  es.filterMap fun | .put a => some a | _ => none

def gets (es : List (Event α)) : List α :=
  es.filterMap fun | .get a => some a | _ => none

@[simp] theorem puts_append (es fs : List (Event α)) : puts (es ++ fs) = puts es ++ puts fs := by
  simp [puts]

@[simp] theorem gets_append (es fs : List (Event α)) : gets (es ++ fs) = gets es ++ gets fs := by
  simp [gets]

variable [DecidableEq α] {cap : ℕ}

@[simp] theorem run_nil (c : List α) : run cap c [] = some c := rfl

theorem run_append (c : List α) (es fs : List (Event α)) :
    run cap c (es ++ fs) = (run cap c es).bind fun c' ↦ run cap c' fs := by
  simp [run, List.foldlM_append, Option.bind_eq_bind]

@[simp] theorem run_singleton (c : List α) (e : Event α) : run cap c [e] = step cap c e := by
  simp [run]

theorem step_conserves {c c' : List α} {e : Event α} (h : step cap c e = some c') :
    c ++ puts [e] = gets [e] ++ c' := by
  cases e with
  | put a =>
    simp only [step, Option.ite_none_right_eq_some, Option.some.injEq] at h
    simp [puts, gets, h.2]
  | get a =>
    simp only [step, Option.ite_none_right_eq_some, Option.some.injEq] at h
    obtain ⟨ha, rfl⟩ := h
    cases c with
    | nil => simp at ha
    | cons b c => simp_all [puts, gets]
  | full =>
    simp only [step, Option.ite_none_right_eq_some, Option.some.injEq] at h
    simp [puts, gets, h.2]
  | empty =>
    simp only [step, Option.ite_none_right_eq_some, Option.some.injEq] at h
    simp [puts, gets, h.2]

/-- Nothing is lost, duplicated or reordered: what was put is what was got, then what is held. -/
theorem run_conserves {c c' : List α} {es : List (Event α)} (h : run cap c es = some c') :
    c ++ puts es = gets es ++ c' := by
  induction es generalizing c with
  | nil => simp_all [puts, gets]
  | cons e es ih =>
    rw [show e :: es = [e] ++ es from rfl, run_append, Option.bind_eq_some_iff] at h
    obtain ⟨d, hd, hr⟩ := h
    have h₁ := step_conserves (by simpa using hd)
    rw [show e :: es = [e] ++ es from rfl, puts_append, gets_append, ← List.append_assoc, h₁,
      List.append_assoc, ih hr, List.append_assoc]

end EnbL1Ppc.Lib.Fifo
