import Mathlib.Data.Option.Basic
import Mathlib.Logic.Function.Basic

namespace EnbL1Ppc.Lib.Monitor

variable {T κ : Type}

/-- The condition that each thread sleeps on, until that condition is broadcast. -/
abbrev Sleepers (T κ : Type) := T → Option κ

def broadcast [DecidableEq κ] (cs : List κ) (s : Sleepers T κ) : Sleepers T κ :=
  fun t ↦ (s t).filter fun c ↦ c ∉ cs

def Justified (blocked : κ → Prop) (s : Sleepers T κ) : Prop :=
  ∀ t, ∀ c ∈ s t, blocked c

variable {blocked blocked' : κ → Prop} {cs : List κ} {s : Sleepers T κ}

theorem mem_broadcast [DecidableEq κ] {t : T} {c : κ} : c ∈ broadcast cs s t ↔ c ∈ s t ∧ c ∉ cs := by
  simp [broadcast]

theorem Justified.broadcast [DecidableEq κ] (h : Justified blocked s)
    (hcs : ∀ c, blocked c → c ∉ cs → blocked' c) :
    Justified blocked' (broadcast cs s) := by
  intro t c hc
  obtain ⟨hs, hn⟩ := mem_broadcast.1 hc
  exact hcs c (h t c hs) hn

theorem Justified.update [DecidableEq T] (h : Justified blocked s) (t : T) {o : Option κ}
    (ho : ∀ c ∈ o, blocked c) : Justified blocked (Function.update s t o) := by
  intro u c hc
  rw [Function.update_apply] at hc
  split at hc
  · exact ho c hc
  · exact h u c hc

end EnbL1Ppc.Lib.Monitor
