import EnbL1Ppc.Core.BlockQueueInvariant
import EnbL1Ppc.Core.BlockQueueThreads

namespace EnbL1Ppc.Core.BlockQueueThreads

open Lib BlockQueue

variable {T P : Type} {w : ℕ} [Inhabited P]

/-- What a removing operation has to find for the counters to survive it: `pop` an item, and
`pop_last` exactly one. -/
def Fits (q : BlockQueue P w) : Op P → Prop
  | .pop => 0 < q.numItems
  | .popLast => q.numItems = 1
  | _ => True

theorem Section.shaped {q q' : BlockQueue P w} {op : Op P} {r : Result P} (hs : Shaped q)
    (h : Section q op r q') : Shaped q' := by
  cases h with
  | push item itemLen hflag hn => exact hs.store hn item itemLen
  | tryPush item itemLen hn => exact hs.store hn item itemLen
  | pushBroken | tryPushFull | tryPopEmpty | tryPopTimeoutNone => exact hs
  | tryPop | tryPopTimeout => exact hs.remove
  | pop => exact hs.popBody
  | popLast => exact hs.popLastBody
  | breakPop | breakPush | breakBoth =>
    exact ⟨hs.len_eq, hs.head_lt, hs.tail_lt, hs.numItems_le⟩
  | clear => exact hs.clear

theorem Section.consistent_iff {q q' : BlockQueue P w} {op : Op P} {r : Result P}
    (hs : Shaped q) (hc : Consistent q) (h : Section q op r q') :
    Consistent q' ↔ Fits q op := by
  cases h with
  | push item itemLen hflag hn => exact iff_of_true (hc.store hs hn item itemLen) trivial
  | tryPush item itemLen hn => exact iff_of_true (hc.store hs hn item itemLen) trivial
  | pushBroken | tryPushFull | tryPopEmpty | tryPopTimeoutNone => exact iff_of_true hc trivial
  | tryPop hn => exact iff_of_true (hc.remove hs hn) trivial
  | tryPopTimeout hflag hn => exact iff_of_true (hc.remove hs hn) trivial
  | pop => exact consistent_popBody_iff hs hc
  | popLast => exact consistent_popLastBody_iff hs hc
  | breakPop | breakPush | breakBoth =>
    exact iff_of_true ⟨hc.numItems_nonneg, hc.numItems_le, hc.head_eq, hc.accumulated_eq⟩ trivial
  | clear => exact iff_of_true (consistent_clear q) trivial

variable [DecidableEq T]

/-- The operation completed by this step, if any, found what it needs. -/
def Fitting (s : System T P w) (i : Input T P) : Prop :=
  ∀ r, step s i = some r → ∀ e ∈ r.2, Fits s.queue e.op

theorem step_shaped {s s' : System T P w} {i : Input T P} {o : List (Event T P)}
    (hs : Shaped s.queue) (h : step s i = some (s', o)) : Shaped s'.queue := by
  obtain ⟨t, hst⟩ := step_cases h
  cases hst with
  | wait op hop hq ht => rwa [hq]
  | complete op r hop hq ht => exact hq.shaped hs
  | leave item itemLen hop hq ht => rwa [hq]
  | breakSecond hop hq ht => exact hq ▸ (Section.breakPop (q := s.queue)).shaped hs

theorem step_consistent_iff {s s' : System T P w} {i : Input T P} {o : List (Event T P)}
    (hs : Shaped s.queue) (hc : Consistent s.queue) (h : step s i = some (s', o)) :
    Consistent s'.queue ↔ Fitting s i := by
  have hfit : Fitting s i ↔ ∀ e ∈ o, Fits s.queue e.op :=
    ⟨fun hf ↦ hf _ h, fun hf r hr ↦ by cases h.symm.trans hr; exact hf⟩
  rw [hfit]
  obtain ⟨t, hst⟩ := step_cases h
  cases hst with
  | wait op hop hq ht => simpa [hq] using hc
  | complete op r hop hq ht => simpa using hq.consistent_iff hs hc
  | leave item itemLen hop hq ht => simpa [hq, Fits] using hc
  | breakSecond hop hq ht =>
    have hb := (Section.breakPop (q := s.queue)).consistent_iff hs hc
    simpa [hq, Fits] using hb

/-- Along every interleaving of all operations, the counters are consistent after each
critical section exactly when every completed `pop` found an item and every completed
`pop_last` found exactly one. -/
theorem consistent_always_iff {n : BitVec 32} (hn : 2 ≤ n.toNat) (hn' : n.toNat ≤ 2 ^ 30)
    (is : List (Input T P)) :
    Machine.Always step (fun s : System T P w ↦ Consistent s.queue) (start n) is ↔
      Machine.Along step Fitting (start n : System T P w) is :=
  Machine.always_iff_along step_shaped step_consistent_iff (init_shaped hn hn')
    (init_consistent n) is

theorem consistent_always_iff_two :
    Machine.Always step (fun s : System ℕ ℕ 32 ↦ Consistent s.queue) (start 2)
        [.call 0 (.push 7 1), .call 1 .pop] ↔
      Machine.Along step Fitting (start 2 : System ℕ ℕ 32)
        [.call 0 (.push 7 1), .call 1 .pop] :=
  consistent_always_iff (by decide) (by decide) _

/-- A break that meets a `pop` on an empty queue makes `num_items` negative, and a `pop_last`
on two items leaves `num_items` at one with `tail` at `head`. -/
theorem not_consistent_always :
    ¬ Machine.Always step (fun s : System ℕ ℕ 32 ↦ Consistent s.queue) (start 2)
        [.call 0 .breakPop, .call 0 .pop] ∧
    ¬ Machine.Always step (fun s : System ℕ ℕ 32 ↦ Consistent s.queue) (start 2)
        [.call 0 (.tryPush 7 1), .call 0 (.tryPush 8 1), .call 0 .popLast] := by
  constructor
  · rintro ⟨-, h⟩
    obtain ⟨-, h⟩ := h _ rfl
    exact absurd (h _ rfl).numItems_nonneg (by decide)
  · rintro ⟨-, h⟩
    obtain ⟨-, h⟩ := h _ rfl
    obtain ⟨-, h⟩ := h _ rfl
    exact absurd (h _ rfl).head_eq (by decide)

end EnbL1Ppc.Core.BlockQueueThreads
