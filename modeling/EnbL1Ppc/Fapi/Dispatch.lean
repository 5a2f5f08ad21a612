import EnbL1Ppc.Lib.Machine
import EnbL1Ppc.Core.BlockQueue

namespace EnbL1Ppc.Fapi.Dispatch

open Lib EnbL1Ppc.Core

variable {P : Type} {w : ℕ}

/-- The values of `message_id` that `fapi_b4860_process_p7_message` tells apart. -/
inductive Indication
  | subframe | rach | rxUlsch | rxSr | harq | rxCqi | crc | other
  deriving DecidableEq

/-- A message on the SC2PA ring as `fapi_thread` sees it: its channel, and for the channels
that are queued the translated body address. `ignored` stands for a null address, an invalid
channel or a channel without a case. -/
inductive DspMessage (P : Type)
  | cpriEth
  | p5Ind (configResponse : Bool) (body : P)
  | p7Ind (messageId : Indication) (body : P)
  | p8Ind (body : P)
  | log
  | ignored
  deriving DecidableEq

inductive QueueId
  | p5 | p7 (messageId : Indication) | p8
  deriving DecidableEq

/-- `fapi_thread` is at the top of its loop, or inside `block_queue_push` on `not_full_cond`. -/
inductive FapiThread (P : Type)
  | receiving
  | awaitingRoom (q : QueueId) (body : P) (m : DspMessage P)
  deriving DecidableEq

/-- `phy_dispatcher_thread`: before `fapi_p5_config_request` sends, before and inside its
`block_queue_pop`, before and inside `block_queue_pop_last`, and in the `try_pop` loops, with
the queues that are still to be drained. -/
inductive Dispatcher
  | configuring
  | requesting
  | awaitingResponse
  | connected
  | awaitingSubframe
  | draining (qs : List Indication)
  deriving DecidableEq

structure System (P : Type) (w : ℕ) where
  ring : List (DspMessage P)
  queues : QueueId → BlockQueue P w
  fapi : FapiThread P
  dispatcher : Dispatcher
  requested : Bool

/-- The thread that runs its next section. For the dispatcher `sent` is the result of
`ipc_send_msg`, where the section calls it. -/
inductive Input
  | fapi
  | dispatcher (sent : Bool)

inductive Event (P : Type)
  | stored (m : DspMessage P)
  deriving DecidableEq

/-- The order in which a subframe's `try_pop` loops run. -/
def drainOrder : List Indication :=
  [.rach, .rxUlsch, .harq, .rxSr, .rxCqi, .crc]

def headerSize : ℤ := 8

def start [Inhabited P] (ring : List (DspMessage P)) : System P w where
  ring := ring
  queues _ := BlockQueue.init 64
  fapi := .receiving
  dispatcher := .configuring
  requested := false

def setQueue (s : System P w) (q : QueueId) (bq : BlockQueue P w) : System P w :=
  { s with queues := Function.update s.queues q bq }

def pushed (s : System P w) (q : QueueId) (body : P) (m : DspMessage P) :
    Option (BlockQueue P w × Bool) → System P w × List (Event P)
  | none => ({ s with fapi := .awaitingRoom q body m }, [])
  | some (bq, _) => ({ setQueue s q bq with fapi := .receiving }, [.stored m])

def processP7Message (s : System P w) (m : DspMessage P) (messageId : Indication) (body : P) :
    System P w × List (Event P) :=
  pushed s (.p7 messageId) body m ((s.queues (.p7 messageId)).push body headerSize)

/-- The `switch` on `channel_id`. -/
def process (s : System P w) : DspMessage P → System P w × List (Event P)
  | .p5Ind r body => pushed s .p5 body (.p5Ind r body) ((s.queues .p5).push body headerSize)
  | .p7Ind i body => processP7Message s (.p7Ind i body) i body
  | .p8Ind body => (setQueue s .p8 ((s.queues .p8).tryPush body headerSize).1, [])
  | .cpriEth | .log | .ignored => (s, [])

/-- The DSP puts a `CONFIG.response` on the ring only after the request. -/
def available (s : System P w) : DspMessage P → Bool
  | .p5Ind true _ => s.requested
  | _ => true

def fapiStep (s : System P w) : Option (System P w × List (Event P)) :=
  match s.fapi with
  | .awaitingRoom q body m => some (pushed s q body m ((s.queues q).pushWake body headerSize))
  | .receiving =>
    match s.ring with
    | [] => none
    | m :: ring => if available s m then some (process { s with ring := ring } m) else none

def responded (s : System P w) : Option (BlockQueue P w × P) → System P w
  | none => { s with dispatcher := .awaitingResponse }
  | some (bq, _) => { setQueue s .p5 bq with dispatcher := .connected }

def subframeReceived [Inhabited P] [DecidableEq P] (s : System P w) :
    Option (BlockQueue P w × P) → System P w
  | none => { s with dispatcher := .awaitingSubframe }
  | some (bq, msg) =>
    { setQueue s (.p7 .subframe) bq with
      dispatcher := if msg = default then .connected else .draining drainOrder }

/-- One round of the `while(block_queue_try_pop(…))` loop on the queue of `i`. -/
def drainOne (s : System P w) (i : Indication) (qs : List Indication) : System P w :=
  match (s.queues (.p7 i)).tryPop with
  | (_, none) => { s with dispatcher := .draining qs }
  | (bq, some _) => setQueue s (.p7 i) bq

def dispatcherStep [Inhabited P] [DecidableEq P] (s : System P w) (sent : Bool) : System P w :=
  match s.dispatcher with
  | .configuring =>
    if sent then { s with dispatcher := .requesting, requested := true }
    else { s with dispatcher := .connected }
  | .requesting => responded s (s.queues .p5).pop
  | .awaitingResponse => responded s (s.queues .p5).popWake
  | .connected => subframeReceived s (s.queues (.p7 .subframe)).popLast
  | .awaitingSubframe => subframeReceived s (s.queues (.p7 .subframe)).popLastWake
  | .draining [] => { s with dispatcher := .connected }
  | .draining (i :: qs) => drainOne s i qs

def step [Inhabited P] [DecidableEq P] : Machine.Step (System P w) Input (Event P)
  | s, .fapi => fapiStep s
  | s, .dispatcher sent => some (dispatcherStep s sent, [])

/-- The dispatcher waits for a response that is not there, while `fapi_thread` waits for room
in a full queue that only the dispatcher drains. -/
def CircularWait (s : System P w) : Prop :=
  s.dispatcher = .awaitingResponse ∧ (s.queues .p5).numItems = 0 ∧
    ∃ i body m, i ≠ .other ∧ s.fapi = .awaitingRoom (.p7 i) body m ∧
      (s.queues (.p7 i)).numItems = (s.queues (.p7 i)).len

/-- The queue on which `fapi_thread` waits for room when it handles the message. -/
def DspMessage.queue? : DspMessage P → Option QueueId
  | .p5Ind _ _ => some .p5
  | .p7Ind i _ => some (.p7 i)
  | _ => none

/-- How many of the messages go to `q` by a blocking push. -/
def load (q : QueueId) (ms : List (DspMessage P)) : ℕ :=
  ms.countP fun m ↦ m.queue? = some q

def beforeP5 (ms : List (DspMessage P)) : List (DspMessage P) :=
  ms.takeWhile fun m ↦ m.queue? ≠ some .p5

end EnbL1Ppc.Fapi.Dispatch
