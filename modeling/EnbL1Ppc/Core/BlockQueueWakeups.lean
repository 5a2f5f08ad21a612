import EnbL1Ppc.Core.BlockQueueConsistency
import EnbL1Ppc.Lib.Monitor

namespace EnbL1Ppc.Core.BlockQueueThreads

open Lib BlockQueue Monitor

variable {T P : Type} {w : ℕ}

inductive Cond
  | notEmpty
  | notFull
  deriving DecidableEq

def Op.cond : Op P → Option Cond
  | .push _ _ => some .notFull
  | .tryPopTimeout | .pop | .popLast => some .notEmpty
  | _ => none

def broadcasts : Op P → Result P → List Cond
  | .push _ _, .stored true => [.notEmpty]
  | .tryPush _ _, .stored true => [.notEmpty]
  | .tryPop, .fetched (some _) => [.notFull]
  | .tryPopTimeout, .fetched (some _) => [.notFull]
  | .pop, _ => [.notFull]
  | .popLast, _ => [.notFull]
  | .breakPop, _ => [.notEmpty]
  | .breakPush, _ => [.notFull]
  | .breakBoth, _ => [.notFull]
  | .clear, _ => [.notEmpty, .notFull]
  | _, _ => []

/-- After `push` only the flag is read; the second half of `block_queue_break` is
`block_queue_break_pop`. -/
def signals (i : Input T P) (e : Event T P) : List Cond :=
  match i, e.op with
  | .resume _, .breakBoth => broadcasts (P := P) .breakPop .done
  | .resume _, _ => []
  | _, op => broadcasts op e.result

def Input.actor : Input T P → T
  | .call t _ | .wake t _ | .resume t => t

def Thread.cond : Thread P → Option Cond
  | .waiting op => op.cond
  | _ => none

/-- The queue and its threads, with the threads that sleep in a condition wait and have not been
signalled since. -/
structure Monitored (T P : Type) (w : ℕ) where
  system : System T P w
  sleepers : Sleepers T Cond

def monitoredStart [Inhabited P] (minQueueLen : BitVec 32) : Monitored T P w :=
  ⟨start minQueueLen, fun _ ↦ none⟩

variable [DecidableEq T]

/-- A thread that sleeps can still be woken, for no reason or by its timeout. -/
def monitoredStep [Inhabited P] : Machine.Step (Monitored T P w) (Input T P) (Event T P) :=
  fun s i ↦ (step s.system i).map fun r ↦
    (⟨r.1, Function.update (broadcast (r.2.flatMap (signals i)) s.sleepers) i.actor
      (r.1.thread i.actor).cond⟩, r.2)

def Blocked (q : BlockQueue P w) : Cond → Prop
  | .notEmpty => q.numItems = 0 ∧ q.popBreakFlag = false
  | .notFull => q.numItems = q.len ∧ q.pushBreakFlag = false

variable [Inhabited P]

theorem enter_eq_none_iff {q : BlockQueue P w} {op : Op P} :
    enter q op = none ↔ ∃ c, op.cond = some c ∧ Blocked q c := by
  cases op <;>
    simp [enter, Op.cond, Blocked, BlockQueue.push, BlockQueue.tryPopTimeout, BlockQueue.pop,
      BlockQueue.popLast]

theorem wakeUp_eq_none {q : BlockQueue P w} {timedOut : Bool} {op : Op P}
    (h : wakeUp q timedOut op = none) : enter q op = none ∨ op.cond = none := by
  cases op with
  | push item itemLen =>
    rw [wakeUp, pushWake_eq] at h
    exact .inl h
  | pop =>
    rw [wakeUp, popWake_eq] at h
    exact .inl h
  | popLast =>
    rw [wakeUp, popLastWake_eq] at h
    exact .inl h
  | tryPopTimeout => cases h
  | _ => exact .inr rfl

theorem Section.blocked {q q' : BlockQueue P w} {op : Op P} {r : Result P}
    (h : Section q op r q') (c : Cond) (hc : Blocked q c) (hb : c ∉ broadcasts op r) :
    Blocked q' c := by
  cases c with
  | notEmpty =>
    obtain ⟨hn, hf⟩ := hc
    cases h <;> simp_all [broadcasts, Blocked, BlockQueue.breakPush]
  | notFull =>
    obtain ⟨hn, hf⟩ := hc
    cases h <;> simp_all [broadcasts, Blocked, BlockQueue.breakPop]

/-- What a step does to the blocked conditions: those it unblocks it broadcasts, and the one that
its thread then waits on is blocked. -/
structure Wakes (s s' : System T P w) (i : Input T P) (o : List (Event T P)) : Prop where
  blocked : ∀ c, Blocked s.queue c → c ∉ o.flatMap (signals i) → Blocked s'.queue c
  waits : ∀ c ∈ (s'.thread i.actor).cond, Blocked s'.queue c
  others : ∀ t, t ≠ i.actor → s'.thread t = s.thread t

theorem settle_wakes {s : System T P w} {i : Input T P} {t : T} {op : Op P}
    {o : Option (BlockQueue P w × Result P)} (ht : i.actor = t)
    (hi : ∀ t r, signals i ⟨t, op, r⟩ = broadcasts op r)
    (ho : ∀ q r, o = some (q, r) → Section s.queue op r q)
    (hnone : o = none → enter s.queue op = none ∨ op.cond = none) :
    Wakes s (settle s t op o).1 i (settle s t op o).2 := by
  subst ht
  cases o with
  | none =>
    refine ⟨fun c hc _ ↦ hc, fun c hc ↦ ?_, fun t ht ↦ Function.update_of_ne ht _ _⟩
    have hop : c ∈ op.cond := by simpa [settle, Thread.cond] using hc
    rcases hnone rfl with h | h
    · obtain ⟨c', hc', hb⟩ := enter_eq_none_iff.1 h
      obtain rfl : c' = c := Option.some.inj (hc'.symm.trans hop)
      exact hb
    · rw [h] at hop
      cases hop
  | some qr =>
    obtain ⟨q, r⟩ := qr
    refine ⟨fun c hc hn ↦ ?_, fun c hc ↦ ?_, fun t ht ↦ Function.update_of_ne ht _ _⟩
    · refine (ho q r rfl).blocked c hc ?_
      simpa [settle, hi] using hn
    · simp only [settle, Function.update_self] at hc
      cases op <;> cases hc

theorem step_wakes {s s' : System T P w} {i : Input T P} {o : List (Event T P)}
    (h : step s i = some (s', o)) : Wakes s s' i o := by
  cases i with
  | call t op =>
    simp only [step] at h
    split at h
    · have hw : Wakes s (settle s t op (enter s.queue op)).1 (.call t op)
          (settle s t op (enter s.queue op)).2 :=
        settle_wakes rfl (fun _ _ ↦ rfl) (fun _ _ hq ↦ enter_section hq) .inl
      rwa [Option.some.inj h] at hw
    · cases h
  | wake t timedOut =>
    simp only [step] at h
    split at h
    · next op _ =>
      have hw : Wakes s (settle s t op (wakeUp s.queue timedOut op)).1 (.wake t timedOut)
          (settle s t op (wakeUp s.queue timedOut op)).2 :=
        settle_wakes rfl (fun _ _ ↦ rfl) (fun _ _ hq ↦ wakeUp_section hq) wakeUp_eq_none
      rwa [Option.some.inj h] at hw
    · cases h
  | resume t =>
    simp only [step] at h
    split at h
    · cases h
      refine ⟨fun c hc _ ↦ hc, fun c hc ↦ ?_, fun u hu ↦ Function.update_of_ne hu _ _⟩
      simp [Input.actor, Thread.cond] at hc
    · cases h
      refine ⟨fun c hc hn ↦ ?_, fun c hc ↦ ?_, fun u hu ↦ Function.update_of_ne hu _ _⟩
      · exact Section.breakPop.blocked c hc (by simpa [signals] using hn)
      · simp [Input.actor, Thread.cond] at hc
    · cases h

/-- Who sleeps is in a condition wait whose test still fails. -/
structure Rested (s : Monitored T P w) : Prop where
  justified : Justified (Blocked s.system.queue) s.sleepers
  waits : ∀ t, ∀ c ∈ s.sleepers t, (s.system.thread t).cond = some c

omit [DecidableEq T] in
theorem rested_start (n : BitVec 32) : Rested (monitoredStart n : Monitored T P w) where
  justified _ _ hc := by cases hc
  waits _ _ hc := by cases hc

theorem monitoredStep_rested {s s' : Monitored T P w} {i : Input T P} {o : List (Event T P)}
    (hs : Rested s) (h : monitoredStep s i = some (s', o)) : Rested s' := by
  obtain ⟨r, hr, he⟩ := Option.map_eq_some_iff.1 h
  cases he
  have hw := step_wakes hr
  refine ⟨(hs.justified.broadcast hw.blocked).update _ hw.waits, fun t c hc ↦ ?_⟩
  dsimp only at hc ⊢
  rw [Function.update_apply] at hc
  split at hc
  · next ht => rwa [ht]
  · next ht =>
    rw [hw.others t ht]
    exact hs.waits t c (mem_broadcast.1 hc).1

theorem monitoredStep_shaped {s s' : Monitored T P w} {i : Input T P} {o : List (Event T P)}
    (hs : Shaped s.system.queue) (h : monitoredStep s i = some (s', o)) :
    Shaped s'.system.queue := by
  obtain ⟨r, hr, he⟩ := Option.map_eq_some_iff.1 h
  cases he
  exact step_shaped hs hr

/-- No wake-up is lost, whatever the threads do: a thread that sleeps and has not been signalled
is in a call that would wait again, and a thread that pops and one that pushes never sleep at the
same time. -/
theorem exec_rested {n : BitVec 32} (hn : 2 ≤ n.toNat) (hn' : n.toNat ≤ 2 ^ 30)
    {is : List (Input T P)} {s : Monitored T P w} {out : List (Event T P)}
    (h : Machine.exec monitoredStep (monitoredStart n) is = some (s, out)) :
    (∀ t, s.sleepers t ≠ none →
      ∃ op, s.system.thread t = .waiting op ∧ enter s.system.queue op = none) ∧
    ∀ t u, s.sleepers t = some .notEmpty → s.sleepers u ≠ some .notFull := by
  have hrested : Rested s := Machine.exec_keeps monitoredStep_rested (rested_start n) h
  have hshaped : Shaped s.system.queue :=
    Machine.exec_keeps (p := fun s ↦ Shaped s.system.queue) monitoredStep_shaped
      (init_shaped hn hn') h
  constructor
  · intro t ht
    obtain ⟨c, hc⟩ := Option.ne_none_iff_exists'.1 ht
    have hcond := hrested.waits t c hc
    cases hthread : s.system.thread t with
    | waiting op =>
      rw [hthread] at hcond
      exact ⟨op, rfl, enter_eq_none_iff.2 ⟨c, hcond, hrested.justified t c hc⟩⟩
    | _ =>
      rw [hthread] at hcond
      cases hcond
  · intro t u ht hu
    have hempty := (hrested.justified t _ ht).1
    have hfull := (hrested.justified u _ hu).1
    have hlen := hshaped.len_ge
    omega

theorem exec_rested_popper : ∃ s : Monitored (Fin 2) ℕ 32,
    Machine.exec monitoredStep (monitoredStart 2) [.call 0 .pop] = some (s, []) ∧
      s.sleepers 0 = some .notEmpty ∧ s.sleepers 1 ≠ some .notFull := by
  have hrun : Machine.exec monitoredStep (monitoredStart 2 : Monitored (Fin 2) ℕ 32)
      [.call 0 .pop] = some (⟨⟨init 2, Function.update (fun _ ↦ .idle) 0 (.waiting .pop)⟩,
        Function.update (fun _ ↦ none) 0 (some .notEmpty)⟩, []) := rfl
  exact ⟨_, hrun, rfl, (exec_rested (by decide) (by decide) hrun).2 0 1 rfl⟩

end EnbL1Ppc.Core.BlockQueueThreads
