import EnbL1Ppc.Ipc.Channel

namespace EnbL1Ppc.Ipc.ReceiveWait

open Lib

/-- Where `fapi_thread` is: before the receive attempt of `fsl_ipc_recv_ptr_block`, in
`het_ipc_read` behind a failed attempt, and back from it with the mask that it read. -/
inductive Reader
  | attempt
  | enter
  | prepared (woken : Bool)
  | asleep
  | resumed
  | finished
  | retry (readyMask : BitVec 32)
  deriving DecidableEq

inductive Dsp
  | idle
  | enqueued
  deriving DecidableEq

/-- Where `msg_intr` is: behind `fsl_clear_msg`, in its loop with the mask that it read, and
before `swait_wake_all`. -/
inductive Handler
  | idle
  | cleared
  | read (oldMask : BitVec 32)
  | marked
  deriving DecidableEq

structure System where
  channel : Channel
  msgReadyMask : BitVec 32
  pending : Bool
  dsp : Dsp
  handler : Handler
  reader : Reader

/-- The next step of the thread, whose lock of the channel may fail, of the DSP, or of the
interrupt handler. -/
inductive Input
  | thread (locked : Bool)
  | enqueue (d : Bd)
  | raise
  | interrupt

/-- `swait_wake_all` wakes the task between `swait_prepare` and `swait_finish`. -/
def Reader.wake : Reader → Reader
  | .prepared _ => .prepared true
  | .asleep => .resumed
  | r => r

abbrev Message := BitVec 32 × BitVec 32

variable (h : Handle)

def channelBit : BitVec 32 := 1#32 <<< h.channelId.toNat

def receive (s : System) (locked : Bool) (found failed : Reader) : System × List Message :=
  let res := s.channel.recvPtr (u := 32) h locked
  ({ s with channel := res.1, reader := if res.2.2 = errSuccess then found else failed },
    res.2.1.toList)

def thread (s : System) (locked : Bool) : Option (System × List Message) :=
  match s.reader with
  | .attempt =>
    if h.channelId ≥ h.maxChannels then some (s, [])
    else some (receive h s locked .attempt .enter)
  | .enter => some ({ s with reader := .prepared false }, [])
  | .prepared woken => some ({ s with reader := if woken then .resumed else .asleep }, [])
  | .asleep => none
  | .resumed => some ({ s with reader := .finished }, [])
  | .finished => some ({ s with msgReadyMask := 0, reader := .retry s.msgReadyMask }, [])
  | .retry m =>
    if m &&& channelBit h ≠ 0 then some (receive h s locked .attempt .attempt)
    else some ({ s with reader := .attempt }, [])

/-- `msg_intr` for the interrupt of the channel, which is registered without a signal. -/
def msgIntr (s : System) : Option System :=
  match s.handler with
  | .idle =>
    if s.pending then
      some { s with
        pending := false
        handler := if 0 < h.channelId ∧ h.channelId < 32 then .cleared else .idle }
    else none
  | .cleared => some { s with handler := .read s.msgReadyMask }
  | .read oldMask =>
    if s.msgReadyMask = oldMask then
      some { s with
        msgReadyMask := oldMask ||| channelBit h
        handler := .marked }
    else some { s with handler := .cleared }
  | .marked => some { s with handler := .idle, reader := s.reader.wake }

def step : Machine.Step System Input Message
  | s, .thread locked => thread h s locked
  | s, .enqueue d =>
    if s.dsp = .idle ∧ s.channel.full = false then
      some ({ s with channel := s.channel.produce d, dsp := .enqueued }, [])
    else none
  | s, .raise =>
    if s.dsp = .enqueued then some ({ s with pending := true, dsp := .idle }, []) else none
  | s, .interrupt => (msgIntr h s).map fun s' ↦ (s', [])

def Quiet (s : System) : Prop :=
  s.dsp = .idle ∧ s.pending = false ∧ s.handler = .idle

def Missed (s : System) : Prop :=
  s.channel.empty = false ∧ s.msgReadyMask &&& channelBit h ≠ 0 ∧ Quiet s

def Lost (s : System) : Prop := s.reader = .asleep ∧ Missed h s

instance (s : System) : Decidable (Quiet s) := inferInstanceAs (Decidable (_ ∧ _ ∧ _))

instance (s : System) : Decidable (Missed h s) := inferInstanceAs (Decidable (_ ∧ _ ∧ _))

instance (s : System) : Decidable (Lost h s) := inferInstanceAs (Decidable (_ ∧ _))

/-- Where the thread gives up the processor without having been woken, nothing was missed. -/
def SleepsInTime (s : System) : Input → Prop
  | .thread _ => s.reader = .prepared false → ¬Missed h s
  | _ => True

/-- The attempt before the wait fails only for want of a message, and no interrupt handler
reaches `swait_wake_all` between that attempt and `swait_prepare`. -/
def OutsideWindow (s : System) : Input → Prop
  | .thread locked =>
    s.reader = .attempt → locked = true ∧ s.channel.producerInitialized = osHetInitialized
  | .interrupt => s.handler = .marked → s.reader ≠ .enter
  | _ => True

instance (s : System) : (i : Input) → Decidable (OutsideWindow s i)
  | .thread _ => inferInstanceAs (Decidable (_ → _ ∧ _))
  | .interrupt => inferInstanceAs (Decidable (_ → _))
  | .enqueue _ => inferInstanceAs (Decidable True)
  | .raise => inferInstanceAs (Decidable True)

end EnbL1Ppc.Ipc.ReceiveWait
