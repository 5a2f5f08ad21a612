import Mathlib.Data.BitVec
import EnbL1Ppc.Lib.Machine

namespace EnbL1Ppc.L1Defense.Watchdog

open Lib Machine

/-- Where `fsl_l1d_interrupt_handler` is: behind its unlock, in `fsl_l1d_clear_wsrsr_reg` with
the mask that it was called with, and before `wake_up_interruptible`. -/
inductive Handler
  | idle
  | recorded
  | clearing (wsrsrClearMask : BitVec 32)
  | cleared
  deriving DecidableEq

/-- Where the thread of `create_ioctl_thread` is: at its call of `ioctl`, in the three tests of
`wait_event_interruptible` (before it, on the queue, and about to give up the processor), asleep,
or back in its loop. -/
inductive Thread
  | ioctl
  | test
  | queued (woken : Bool)
  | yielding (woken : Bool)
  | asleep
  | returned
  deriving DecidableEq

/-- `wsrsr` is the register, whose bits the hardware sets and a write of ones clears. -/
structure State where
  wsrsr : BitVec 32
  wsrsrBitmask : BitVec 32
  coreMask : BitVec 32
  handler : Handler
  thread : Thread
  deriving DecidableEq

inductive Input
  | expire (cores : BitVec 32)
  | interrupt
  | thread (copied : Bool)
  | signal
  deriving DecidableEq

inductive Event
  | expired (cores : BitVec 32)
  | reported (cores : BitVec 32)
  deriving DecidableEq

/-- `fsl_l1d_init` reads the register, which then has `first`, but does not clear it. -/
def start (first : BitVec 32) : State := ⟨first, first, 0, .idle, .ioctl⟩

def Thread.wake : Thread → Thread
  | .queued _ => .queued true
  | .yielding _ => .yielding true
  | .asleep => .queued false
  | t => t

def interruptHandler (s : State) : State :=
  match s.handler with
  | .idle => { s with wsrsrBitmask := s.wsrsrBitmask ||| s.wsrsr, handler := .recorded }
  | .recorded => { s with handler := .clearing s.wsrsrBitmask }
  | .clearing m => { s with wsrsr := s.wsrsr &&& ~~~m, handler := .cleared }
  | .cleared => { s with handler := .idle, thread := s.thread.wake }

/-- The result of `ioctl` is stored in an unsigned variable, so that its test for an error never
succeeds and the loop goes on with the mask that is there. -/
def ioctlThread (s : State) (copied : Bool) : Option (State × List Event) :=
  match s.thread with
  | .ioctl =>
    if s.wsrsrBitmask ≠ 0 then
      if copied then
        some ({ s with coreMask := s.wsrsrBitmask, wsrsrBitmask := 0, thread := .returned }, [])
      else some ({ s with thread := .returned }, [])
    else some ({ s with thread := .test }, [])
  | .test =>
    some ({ s with thread := if s.wsrsrBitmask ≠ 0 then .returned else .queued false }, [])
  | .queued woken =>
    some ({ s with thread := if s.wsrsrBitmask ≠ 0 then .returned else .yielding woken }, [])
  | .yielding woken => some ({ s with thread := if woken then .queued false else .asleep }, [])
  | .asleep => none
  | .returned =>
    if s.coreMask ≠ 0 then
      some ({ s with coreMask := 0, thread := .ioctl }, [.reported s.coreMask])
    else some ({ s with thread := .ioctl }, [])

/-- A signal ends the wait, with a result that the thread does not see. -/
def step : Step State Input Event
  | s, .expire cores => some ({ s with wsrsr := s.wsrsr ||| cores }, [.expired cores])
  | s, .interrupt => some (interruptHandler s, [])
  | s, .thread copied => ioctlThread s copied
  | s, .signal =>
    match s.thread with
    | .queued _ | .asleep => some ({ s with thread := .returned }, [])
    | _ => none

def Event.settle (cores : BitVec 32) : Event → BitVec 32
  | .expired m => cores ||| m
  | .reported m => cores &&& ~~~m

def owed (first : BitVec 32) (out : List Event) : BitVec 32 :=
  out.foldl Event.settle first

def Event.record (cores : BitVec 32) : Event → BitVec 32
  | .expired m => cores ||| m
  | .reported _ => cores

def expired (first : BitVec 32) (out : List Event) : BitVec 32 :=
  out.foldl Event.record first

def State.known (s : State) : BitVec 32 := s.wsrsr ||| s.wsrsrBitmask ||| s.coreMask

def Within (a b : BitVec 32) : Prop := ∀ k, a.getLsbD k = true → b.getLsbD k = true

instance (a b : BitVec 32) : Decidable (Within a b) :=
  decidable_of_iff (a &&& ~~~b = 0) <| by
    constructor
    · intro h k hk
      have hbit := congrArg (BitVec.getLsbD · k) h
      simp only [BitVec.getLsbD_and, BitVec.getLsbD_not, hk, Bool.true_and] at hbit
      have hlt : k < 32 := BitVec.lt_of_getLsbD hk
      simpa [hlt] using hbit
    · intro h
      ext k hk
      have hbit := h k
      simp only [BitVec.getLsbD_eq_getElem hk] at hbit
      cases ha : a[k] <;> simp_all

/-- No watchdog expires again while its bit is on the way to be cleared, unless the first expiry
is still to be reported. -/
def InTime (s : State) : Input → Prop
  | .expire cores =>
    match s.handler with
    | .clearing m => Within (cores &&& m) (s.wsrsrBitmask ||| s.coreMask)
    | _ => True
  | _ => True

instance (s : State) : (i : Input) → Decidable (InTime s i)
  | .expire cores => by
    unfold InTime
    cases s.handler <;> infer_instance
  | .interrupt => inferInstanceAs (Decidable True)
  | .thread _ => inferInstanceAs (Decidable True)
  | .signal => inferInstanceAs (Decidable True)

def Event.Founded (first : BitVec 32) (before : List Event) : Event → Prop
  | .expired _ => True
  | .reported m => m ≠ 0 ∧ Within m (Watchdog.expired first before)

structure Accounted (first : BitVec 32) (out : List Event) (s : State) : Prop where
  owed_known : Within (owed first out) s.known
  cleared_known : ∀ m, s.handler = .clearing m →
    Within (owed first out &&& m) (s.wsrsrBitmask ||| s.coreMask)
  known_expired : Within s.known (expired first out)
  founded : Throughout (Event.Founded first) [] out
  sleeps : s.thread = .asleep ∨ s.thread = .yielding false →
    s.wsrsrBitmask = 0 ∨ s.handler ≠ .idle
  taken : s.thread ≠ .returned → s.coreMask = 0

variable {first : BitVec 32} {out : List Event} {s s' : State}

@[grind =] theorem owed_concat (e : Event) :
    owed first (out ++ [e]) = e.settle (owed first out) := by
  simp [owed]

@[grind =] theorem expired_concat (e : Event) :
    expired first (out ++ [e]) = e.record (expired first out) := by
  simp [expired]

@[grind =] theorem getLsbD_known (s : State) (k : ℕ) : s.known.getLsbD k =
    (s.wsrsr.getLsbD k || s.wsrsrBitmask.getLsbD k || s.coreMask.getLsbD k) := by
  simp [State.known]

@[grind =] theorem getLsbD_settle (cores : BitVec 32) (e : Event) (k : ℕ) :
    (e.settle cores).getLsbD k = match e with
      | .expired m => cores.getLsbD k || m.getLsbD k
      | .reported m => cores.getLsbD k && !m.getLsbD k := by
  cases e with
  | expired m => simp [Event.settle]
  | reported m =>
    cases h : cores.getLsbD k with
    | false => simp [Event.settle, h]
    | true => simp [Event.settle, h, BitVec.lt_of_getLsbD h]

theorem accounted_start (first : BitVec 32) : Accounted first [] (start first) where
  owed_known k hk := by
    simp only [owed, List.foldl_nil] at hk
    simp [State.known, start, hk]
  cleared_known m hm := by cases hm
  known_expired k hk := by simpa [State.known, start, expired] using hk
  founded := trivial
  sleeps h := by rcases h with h | h <;> cases h
  taken _ := rfl

theorem Accounted.expire (h : Accounted first out s) {cores : BitVec 32}
    (hi : InTime s (.expire cores)) :
    Accounted first (out ++ [.expired cores]) { s with wsrsr := s.wsrsr ||| cores } where
  owed_known k hk := by
    have hknown := h.owed_known k
    grind
  cleared_known m hm k hk := by
    have hclear := h.cleared_known m hm k
    have hcores : Within (cores &&& m) (s.wsrsrBitmask ||| s.coreMask) := by
      have hm : s.handler = .clearing m := hm
      simpa only [InTime, hm] using hi
    have hcores := hcores k
    grind
  known_expired k hk := by
    have hknown := h.known_expired k
    grind [Event.record]
  founded := throughout_concat.2 ⟨h.founded, trivial⟩
  sleeps := h.sleeps
  taken := h.taken

theorem Accounted.interrupt (h : Accounted first out s) :
    Accounted first out (interruptHandler s) := by
  unfold interruptHandler
  split
  · refine ⟨fun k hk ↦ ?_, nofun, fun k hk ↦ ?_, h.founded, fun _ ↦ .inr nofun, h.taken⟩
    · have hknown := h.owed_known k hk
      grind
    · have hknown := h.known_expired k
      grind
  · refine ⟨h.owed_known, fun m hm k hk ↦ ?_, h.known_expired, h.founded,
      fun _ ↦ .inr nofun, h.taken⟩
    cases hm
    grind
  · next m hm =>
    refine ⟨fun k hk ↦ ?_, nofun, fun k hk ↦ ?_, h.founded, fun _ ↦ .inr nofun, h.taken⟩
    · have hknown := h.owed_known k hk
      have hclear := h.cleared_known m hm k
      grind
    · have hknown := h.known_expired k
      grind
  · refine ⟨h.owed_known, nofun, h.known_expired, h.founded, fun hs ↦ ?_,
      fun hs ↦ h.taken fun hr ↦ hs ?_⟩
    · cases hthread : s.thread <;> simp [hthread, Thread.wake] at hs
    · simp [hr, Thread.wake]

theorem Accounted.move (h : Accounted first out s) {t : Thread}
    (hs : t = .asleep ∨ t = .yielding false → s.wsrsrBitmask = 0 ∨ s.handler ≠ .idle)
    (ht : t ≠ .returned → s.coreMask = 0) : Accounted first out { s with thread := t } :=
  ⟨h.owed_known, h.cleared_known, h.known_expired, h.founded, hs, ht⟩

theorem Accounted.take (h : Accounted first out s) (ht : s.thread = .ioctl) :
    Accounted first out
      { s with coreMask := s.wsrsrBitmask, wsrsrBitmask := 0, thread := .returned } := by
  have hmask : s.coreMask = 0 := h.taken (by simp [ht])
  refine ⟨fun k hk ↦ ?_, fun m hm k hk ↦ ?_, fun k hk ↦ ?_, h.founded, by simp, by simp⟩
  · simpa [State.known, hmask] using h.owed_known k hk
  · simpa [hmask] using h.cleared_known m hm k hk
  · refine h.known_expired k ?_
    simpa [State.known, hmask] using hk

theorem Accounted.report (h : Accounted first out s) (hm : s.coreMask ≠ 0) :
    Accounted first (out ++ [.reported s.coreMask])
      { s with coreMask := 0, thread := .ioctl } where
  owed_known k hk := by
    have hknown := h.owed_known k
    grind
  cleared_known m hm k hk := by
    have hclear := h.cleared_known m hm k
    grind
  known_expired k hk := by
    have hknown := h.known_expired k
    grind [Event.record]
  founded := by
    refine throughout_concat.2 ⟨h.founded, hm, fun k hk ↦ h.known_expired k ?_⟩
    simp [State.known, hk]
  sleeps hs := by rcases hs with hs | hs <;> cases hs
  taken _ := rfl

theorem Accounted.thread (h : Accounted first out s) {copied : Bool} {o : List Event}
    (hr : ioctlThread s copied = some (s', o)) : Accounted first (out ++ o) s' := by
  unfold ioctlThread at hr
  have hmask : s.thread ≠ .returned → s.coreMask = 0 := h.taken
  cases ht : s.thread with
  | ioctl =>
    simp only [ht] at hr
    split_ifs at hr
    · cases hr
      simpa using h.take ht
    · cases hr
      simpa using h.move (t := .returned) (by simp) (by simp)
    · cases hr
      simpa using h.move (t := .test) (by simp) fun _ ↦ hmask (by simp [ht])
  | asleep => simp [ht] at hr
  | returned =>
    simp only [ht] at hr
    split_ifs at hr with hm
    · cases hr
      exact h.report hm
    · cases hr
      simpa using h.move (t := .ioctl) (by simp) fun _ ↦ not_not.1 hm
  | _ =>
    simp only [ht, Option.some.injEq, Prod.mk.injEq] at hr
    obtain ⟨rfl, rfl⟩ := hr
    rw [List.append_nil]
    refine h.move (fun hs ↦ ?_) fun _ ↦ hmask (by simp [ht])
    have hsleeps := h.sleeps
    grind

theorem step_accounted {i : Input} {o : List Event} (h : Accounted first out s) (hi : InTime s i)
    (hr : step s i = some (s', o)) : Accounted first (out ++ o) s' := by
  cases i with
  | expire cores =>
    cases hr
    exact h.expire hi
  | interrupt =>
    cases hr
    simpa using h.interrupt
  | thread copied => exact h.thread hr
  | signal =>
    simp only [step] at hr
    split at hr
    · cases hr
      simpa using h.move (t := .returned) (by simp) (by simp)
    · cases hr
      simpa using h.move (t := .returned) (by simp) (by simp)
    · cases hr

/-- No expiry is lost: a core whose watchdog has expired since its last report is still known to
the register, to the driver or to the thread, only cores that have expired are reported, and the
thread sleeps only while the driver has nothing for it or its handler has still to wake it. -/
theorem exec_accounted {is : List Input} (hg : Along step InTime (start first) is)
    (h : exec step (start first) is = some (s, out)) :
    Within (owed first out) s.known ∧
      Throughout (Event.Founded first) [] out ∧
      (s.thread = .asleep → s.wsrsrBitmask = 0 ∨ s.handler ≠ .idle) := by
  have hacc : Accounted first ([] ++ out) s :=
    exec_history (R := Accounted first) step_accounted [] (accounted_start first) hg h
  rw [List.nil_append] at hacc
  exact ⟨hacc.owed_known, hacc.founded, fun hs ↦ hacc.sleeps (.inl hs)⟩

def wakesUp : List Input :=
  [.thread true, .thread true, .thread true, .thread true, .expire 4, .interrupt, .interrupt,
    .interrupt, .interrupt, .thread true, .thread true, .thread true]

theorem exec_accounted_wakesUp :
    exec step (start 0) wakesUp =
        some (⟨0, 0, 4, .idle, .returned⟩, [.expired 4]) ∧
      Within (owed 0 [.expired 4]) (State.known ⟨0, 0, 4, .idle, .returned⟩) := by
  have hguarded : exec (guarded InTime step) (start 0) wakesUp =
      some (⟨0, 0, 4, .idle, .returned⟩, [.expired 4]) := by
    decide
  obtain ⟨hrun, hin⟩ := along_of_guarded hguarded
  exact ⟨hrun, (exec_accounted hin hrun).1⟩

-- Core 2 expires again after its first expiry has been reported and before the handler clears
-- the register: nobody knows of the second expiry.
example : (exec step (start 0) [.expire 4, .interrupt, .interrupt, .thread true, .thread true,
    .expire 4, .interrupt, .interrupt]).map (fun r ↦ (owed 0 r.2, r.1.known)) = some (4, 0) := by
  decide

end EnbL1Ppc.L1Defense.Watchdog
