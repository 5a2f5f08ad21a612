import EnbL1Ppc.Core.BlockQueue
import EnbL1Ppc.Lib.Machine

namespace EnbL1Ppc.Core.BlockQueueThreads

open Lib BlockQueue

variable {T P : Type} {w : ℕ}

inductive Op (P : Type)
  | push (item : P) (itemLen : ℤ)
  | tryPush (item : P) (itemLen : ℤ)
  | tryPop
  | tryPopTimeout
  | pop
  | popLast
  | breakPop
  | breakPush
  | breakBoth
  | clear

/-- What a critical section decides about its call. Only `push` returns something else than
its section decided: `returned` is the flag it reads after the unlock. -/
inductive Result (P : Type)
  | stored (b : Bool)
  | fetched (item : Option P)
  | item (p : P)
  | returned (b : Bool)
  | done

/-- Where a thread is between two critical sections: outside the queue, in the condition wait
of `op`, after the unlock of `push`, or between the two calls of `block_queue_break`. -/
inductive Thread (P : Type)
  | idle
  | waiting (op : Op P)
  | returning (item : P) (itemLen : ℤ)
  | breaking

inductive Input (T P : Type)
  | call (t : T) (op : Op P)
  | wake (t : T) (timedOut : Bool)
  | resume (t : T)

structure Event (T P : Type) where
  thread : T
  op : Op P
  result : Result P

structure System (T P : Type) (w : ℕ) where
  queue : BlockQueue P w
  thread : T → Thread P

def start [Inhabited P] (minQueueLen : BitVec 32) : System T P w :=
  ⟨init minQueueLen, fun _ ↦ .idle⟩

/-- The critical section of a call that has just taken the lock; `none` is a condition wait. -/
def enter [Inhabited P] (q : BlockQueue P w) : Op P → Option (BlockQueue P w × Result P)
  | .push item itemLen => (q.push item itemLen).map fun r ↦ (r.1, .stored r.2)
  | .tryPush item itemLen => some ((q.tryPush item itemLen).1, .stored (q.tryPush item itemLen).2)
  | .tryPop => some (q.tryPop.1, .fetched q.tryPop.2)
  | .tryPopTimeout => q.tryPopTimeout.map fun r ↦ (r.1, .fetched r.2)
  | .pop => q.pop.map fun r ↦ (r.1, .item r.2)
  | .popLast => q.popLast.map fun r ↦ (r.1, .item r.2)
  | .breakPop => some (q.breakPop, .done)
  | .breakPush => some (q.breakPush, .done)
  | .breakBoth => some (q.breakPush, .done)
  | .clear => some (q.clear, .done)

def wakeUp [Inhabited P] (q : BlockQueue P w) (timedOut : Bool) :
    Op P → Option (BlockQueue P w × Result P)
  | .push item itemLen => (q.pushWake item itemLen).map fun r ↦ (r.1, .stored r.2)
  | .tryPopTimeout =>
      some ((q.tryPopTimeoutBody timedOut).1, .fetched (q.tryPopTimeoutBody timedOut).2)
  | .pop => q.popWake.map fun r ↦ (r.1, .item r.2)
  | .popLast => q.popLastWake.map fun r ↦ (r.1, .item r.2)
  | _ => none

def afterSection : Op P → Thread P
  | .push item itemLen => .returning item itemLen
  | .breakBoth => .breaking
  | _ => .idle

variable [DecidableEq T]

def settle (s : System T P w) (t : T) (op : Op P) :
    Option (BlockQueue P w × Result P) → System T P w × List (Event T P)
  | none => (⟨s.queue, Function.update s.thread t (.waiting op)⟩, [])
  | some (q, r) => (⟨q, Function.update s.thread t (afterSection op)⟩, [⟨t, op, r⟩])

def step [Inhabited P] : Machine.Step (System T P w) (Input T P) (Event T P)
  | s, .call t op =>
    match s.thread t with
    | .idle => some (settle s t op (enter s.queue op))
    | _ => none
  | s, .wake t timedOut =>
    match s.thread t with
    | .waiting op => some (settle s t op (wakeUp s.queue timedOut op))
    | _ => none
  | s, .resume t =>
    match s.thread t with
    | .returning item itemLen =>
      some (⟨s.queue, Function.update s.thread t .idle⟩,
        [⟨t, .push item itemLen, .returned s.queue.pushReturn⟩])
    | .breaking =>
      some (⟨s.queue.breakPop, Function.update s.thread t .idle⟩, [⟨t, .breakBoth, .done⟩])
    | _ => none

/-- Every way a critical section can end, with what it found on entry. -/
inductive Section [Inhabited P] (q : BlockQueue P w) : Op P → Result P → BlockQueue P w → Prop
  | push (item : P) (itemLen : ℤ) (hflag : q.pushBreakFlag = false) (hn : q.numItems ≠ q.len) :
      Section q (.push item itemLen) (.stored true) (q.store item itemLen)
  | pushBroken (item : P) (itemLen : ℤ) (hflag : q.pushBreakFlag = true) :
      Section q (.push item itemLen) (.stored false) q
  | tryPush (item : P) (itemLen : ℤ) (hn : q.numItems ≠ q.len) :
      Section q (.tryPush item itemLen) (.stored true) (q.store item itemLen)
  | tryPushFull (item : P) (itemLen : ℤ) (hn : q.numItems = q.len) :
      Section q (.tryPush item itemLen) (.stored false) q
  | tryPop (hn : q.numItems ≠ 0) :
      Section q .tryPop (.fetched (some (q.queue q.tail).ptr)) q.remove
  | tryPopEmpty (hn : q.numItems = 0) : Section q .tryPop (.fetched none) q
  | tryPopTimeout (hflag : q.popBreakFlag = false) (hn : q.numItems ≠ 0) :
      Section q .tryPopTimeout (.fetched (some (q.queue q.tail).ptr)) q.remove
  | tryPopTimeoutNone : Section q .tryPopTimeout (.fetched none) q
  | pop (hn : q.numItems ≠ 0 ∨ q.popBreakFlag = true) :
      Section q .pop (.item q.popBody.2) q.popBody.1
  | popLast (hn : q.numItems ≠ 0 ∨ q.popBreakFlag = true) :
      Section q .popLast (.item q.popLastBody.2) q.popLastBody.1
  | breakPop : Section q .breakPop .done q.breakPop
  | breakPush : Section q .breakPush .done q.breakPush
  | breakBoth : Section q .breakBoth .done q.breakPush
  | clear : Section q .clear .done q.clear

section Inversion

variable [Inhabited P]

theorem Section.len_eq {q q' : BlockQueue P w} {op : Op P} {r : Result P}
    (h : Section q op r q') : q'.len = q.len := by
  cases h <;> rfl

theorem push_section {q q' : BlockQueue P w} {item : P} {itemLen : ℤ} {b : Bool}
    (h : q.push item itemLen = some (q', b)) : Section q (.push item itemLen) (.stored b) q' := by
  cases hflag : q.pushBreakFlag with
  | true =>
    simp only [push, pushBody, hflag, Bool.not_true, Bool.false_eq_true, and_false, if_false,
      Option.some.injEq, Prod.mk.injEq] at h
    obtain ⟨rfl, rfl⟩ := h
    exact .pushBroken item itemLen hflag
  | false =>
    simp only [push, pushBody, hflag, Bool.not_false, and_true, if_true,
      Option.ite_none_left_eq_some, Option.some.injEq, Prod.mk.injEq] at h
    obtain ⟨hn, rfl, rfl⟩ := h
    exact .push item itemLen hflag hn

theorem tryPush_section (q : BlockQueue P w) (item : P) (itemLen : ℤ) :
    Section q (.tryPush item itemLen) (.stored (q.tryPush item itemLen).2)
      (q.tryPush item itemLen).1 := by
  by_cases hn : q.numItems = q.len
  · simpa [BlockQueue.tryPush, hn] using Section.tryPushFull item itemLen hn
  · simpa [BlockQueue.tryPush, hn] using Section.tryPush item itemLen hn

theorem tryPop_section (q : BlockQueue P w) : Section q .tryPop (.fetched q.tryPop.2) q.tryPop.1 := by
  by_cases hn : q.numItems = 0
  · simpa [BlockQueue.tryPop, hn] using Section.tryPopEmpty hn
  · simpa [BlockQueue.tryPop, hn] using Section.tryPop hn

theorem tryPopTimeoutBody_section (q : BlockQueue P w) (timedOut : Bool) :
    Section q .tryPopTimeout (.fetched (q.tryPopTimeoutBody timedOut).2)
      (q.tryPopTimeoutBody timedOut).1 := by
  by_cases h : timedOut ∨ q.popBreakFlag ∨ q.numItems = 0
  · simpa only [tryPopTimeoutBody, if_pos h] using Section.tryPopTimeoutNone
  · have hflag : q.popBreakFlag = false := by simp_all
    have hn : q.numItems ≠ 0 := by simp_all
    simpa only [tryPopTimeoutBody, if_neg h] using Section.tryPopTimeout hflag hn

theorem pop_section {q q' : BlockQueue P w} {p : P} (h : q.pop = some (q', p)) :
    Section q .pop (.item p) q' := by
  simp only [BlockQueue.pop, Option.ite_none_left_eq_some, Option.some.injEq] at h
  obtain ⟨hn, hb⟩ := h
  have he := Section.pop (q := q) (by cases hf : q.popBreakFlag <;> simp_all)
  rwa [hb] at he

theorem popLast_section {q q' : BlockQueue P w} {p : P} (h : q.popLast = some (q', p)) :
    Section q .popLast (.item p) q' := by
  simp only [BlockQueue.popLast, Option.ite_none_left_eq_some, Option.some.injEq] at h
  obtain ⟨hn, hb⟩ := h
  have he := Section.popLast (q := q) (by cases hf : q.popBreakFlag <;> simp_all)
  rwa [hb] at he

theorem enter_section {q q' : BlockQueue P w} {op : Op P} {r : Result P}
    (h : enter q op = some (q', r)) : Section q op r q' := by
  cases op with
  | push item itemLen =>
    obtain ⟨⟨q₁, b⟩, hp, he⟩ := Option.map_eq_some_iff.1 h
    cases he
    exact push_section hp
  | tryPush item itemLen => cases h; exact tryPush_section q item itemLen
  | tryPop => cases h; exact tryPop_section q
  | tryPopTimeout =>
    obtain ⟨⟨q₁, p⟩, hp, he⟩ := Option.map_eq_some_iff.1 h
    simp only [BlockQueue.tryPopTimeout, Option.ite_none_left_eq_some, Option.some.injEq] at hp
    have hs := tryPopTimeoutBody_section q false
    rw [hp.2] at hs
    cases he
    exact hs
  | pop =>
    obtain ⟨⟨q₁, p⟩, hp, he⟩ := Option.map_eq_some_iff.1 h
    cases he
    exact pop_section hp
  | popLast =>
    obtain ⟨⟨q₁, p⟩, hp, he⟩ := Option.map_eq_some_iff.1 h
    cases he
    exact popLast_section hp
  | breakPop => cases h; exact .breakPop
  | breakPush => cases h; exact .breakPush
  | breakBoth => cases h; exact .breakBoth
  | clear => cases h; exact .clear

theorem wakeUp_section {q q' : BlockQueue P w} {op : Op P} {timedOut : Bool} {r : Result P}
    (h : wakeUp q timedOut op = some (q', r)) : Section q op r q' := by
  cases op with
  | push item itemLen =>
    rw [wakeUp, pushWake_eq] at h
    exact enter_section h
  | tryPopTimeout => cases h; exact tryPopTimeoutBody_section q timedOut
  | pop =>
    rw [wakeUp, popWake_eq] at h
    exact enter_section h
  | popLast =>
    rw [wakeUp, popLastWake_eq] at h
    exact enter_section h
  | _ => simp [wakeUp] at h

inductive Stepped (s s' : System T P w) (i : Input T P) (t : T) : List (Event T P) → Prop
  | wait (op : Op P) (hop : i = .call t op ∨ s.thread t = .waiting op)
      (hq : s'.queue = s.queue)
      (ht : s'.thread = Function.update s.thread t (.waiting op)) : Stepped s s' i t []
  | complete (op : Op P) (r : Result P) (hop : i = .call t op ∨ s.thread t = .waiting op)
      (hq : Section s.queue op r s'.queue)
      (ht : s'.thread = Function.update s.thread t (afterSection op)) :
      Stepped s s' i t [⟨t, op, r⟩]
  | leave (item : P) (itemLen : ℤ) (hop : s.thread t = .returning item itemLen)
      (hq : s'.queue = s.queue) (ht : s'.thread = Function.update s.thread t .idle) :
      Stepped s s' i t [⟨t, .push item itemLen, .returned s.queue.pushReturn⟩]
  | breakSecond (hop : s.thread t = .breaking) (hq : s'.queue = s.queue.breakPop)
      (ht : s'.thread = Function.update s.thread t .idle) :
      Stepped s s' i t [⟨t, .breakBoth, .done⟩]

theorem settle_stepped {s : System T P w} {i : Input T P} {t : T} {op : Op P}
    {o : Option (BlockQueue P w × Result P)} (hop : i = .call t op ∨ s.thread t = .waiting op)
    (ho : ∀ q r, o = some (q, r) → Section s.queue op r q) :
    Stepped s (settle s t op o).1 i t (settle s t op o).2 := by
  cases o with
  | none => exact .wait op hop rfl rfl
  | some qr => exact .complete op qr.2 hop (ho _ _ rfl) rfl

theorem step_cases {s s' : System T P w} {i : Input T P} {o : List (Event T P)}
    (h : step s i = some (s', o)) : ∃ t, Stepped s s' i t o := by
  cases i with
  | call t op =>
    simp only [step] at h
    split at h
    · have he := settle_stepped (s := s) (i := .call t op) (o := enter s.queue op)
        (.inl rfl) (fun _ _ hq ↦ enter_section hq)
      rw [Option.some.inj h] at he
      exact ⟨t, he⟩
    · cases h
  | wake t timedOut =>
    simp only [step] at h
    split at h
    · rename_i op hop
      have he := settle_stepped (i := .wake t timedOut) (o := wakeUp s.queue timedOut op)
        (.inr hop) (fun _ _ hq ↦ wakeUp_section hq)
      rw [Option.some.inj h] at he
      exact ⟨t, he⟩
    · cases h
  | resume t =>
    simp only [step] at h
    split at h
    · rename_i item itemLen hop
      cases h
      exact ⟨t, .leave item itemLen hop rfl rfl⟩
    · rename_i hop
      cases h
      exact ⟨t, .breakSecond hop rfl rfl⟩
    · cases h

end Inversion

end EnbL1Ppc.Core.BlockQueueThreads
