import EnbL1Ppc.Lib.Machine
import EnbL1Ppc.Core.BlockQueueContents

namespace EnbL1Ppc.Fapi.P5Config

open Lib EnbL1Ppc.Core

variable {P : Type} {w : ℕ}

def fapiConfigResponse : BitVec 32 := 3

def fapiStopIndication : BitVec 32 := 6

/-- A message of the P5 channel: the pointer that `fapi_thread` queues, with `default` as `NULL`,
and the `message_id` in its header. -/
structure Indication (P : Type) where
  body : P
  messageId : BitVec 32
  deriving DecidableEq

/-- `arrival` counts the P5 indications that `fapi_thread` received before this one. No code
reads it. -/
structure Received (P : Type) extends Indication P where
  arrival : ℕ
  deriving DecidableEq

instance [Inhabited P] : Inhabited (Received P) := ⟨⟨default, 0⟩, 0⟩

/-- What a call of `fapi_p5_config_request` stores in `*resp`, and how many indications had been
received when it sent its request. -/
structure Answer (P : Type) extends Received P where
  sentAt : ℕ
  deriving DecidableEq

inductive FapiThread (P : Type)
  | receiving
  | awaitingRoom (item : Received P)
  deriving DecidableEq

/-- The thread that makes the P5 requests is outside of them, or in `fapi_p5_recv_blocking`. -/
inductive Requester
  | idle
  | awaitingResponse (sentAt : ℕ)
  deriving DecidableEq

structure System (P : Type) (w : ℕ) where
  queue : BlockQueue (Received P) w
  fapi : FapiThread P
  requester : Requester
  arrived : ℕ

/-- `sent` says that `ipc_send_msg` returns 0. -/
inductive Input (P : Type)
  | indication (m : Indication P)
  | resumePush
  | configRequest (sent : Bool)
  | startRequest (sent : Bool)
  | stopRequest (sent : Bool)
  | recvBlocking

inductive Event (P : Type)
  | received (m : Indication P)
  | configSent (arrived : ℕ)
  | configReturned (ret : ℤ) (resp : Option (Answer P))
  | startReturned (ret : ℤ)
  | stopReturned (ret : ℤ)
  deriving DecidableEq

def headerSize : ℤ := 8

def start [Inhabited P] : System P w where
  queue := BlockQueue.init 64
  fapi := .receiving
  requester := .idle
  arrived := 0

def pushed (s : System P w) (item : Received P) :
    Option (BlockQueue (Received P) w × Bool) → System P w
  | none => { s with fapi := .awaitingRoom item }
  | some (queue, _) => { s with queue := queue, fapi := .receiving }

/-- What follows a section of `block_queue_pop` in `fapi_p5_config_request`. The message itself
is not looked at. -/
def responded [Inhabited P] [DecidableEq P] (s : System P w) (sentAt : ℕ) :
    Option (BlockQueue (Received P) w × Received P) → System P w × List (Event P)
  | none => (s, [])
  | some (queue, msg) =>
    ({ s with queue := queue, requester := .idle },
      [.configReturned (if msg.body = default then 1 else 0) (some ⟨msg, sentAt⟩)])

def step [Inhabited P] [DecidableEq P] : Machine.Step (System P w) (Input P) (Event P)
  | s, .indication m =>
    match s.fapi with
    | .receiving =>
      let item : Received P := ⟨m, s.arrived⟩
      some (pushed { s with arrived := s.arrived + 1 } item (s.queue.push item headerSize),
        [.received m])
    | .awaitingRoom _ => none
  | s, .resumePush =>
    match s.fapi with
    | .receiving => none
    | .awaitingRoom item => some (pushed s item (s.queue.pushWake item headerSize), [])
  | s, .configRequest sent =>
    match s.requester, sent with
    | .idle, true =>
      some ({ s with requester := .awaitingResponse s.arrived }, [.configSent s.arrived])
    | .idle, false => some (s, [.configReturned (-1) none])
    | .awaitingResponse _, _ => none
  | s, .startRequest sent =>
    match s.requester with
    | .idle => some (s, [.startReturned (if sent then 0 else -1)])
    | .awaitingResponse _ => none
  | s, .stopRequest _ =>
    match s.requester with
    | .idle => some (s, [.stopReturned 0])
    | .awaitingResponse _ => none
  | s, .recvBlocking =>
    match s.requester with
    | .idle => none
    | .awaitingResponse sentAt => some (responded s sentAt s.queue.pop)

/-- If the call returns 0, its message is a `CONFIG.response` that came in after its request. -/
def Event.Matches : Event P → Prop
  | .configReturned ret resp => ret = 0 →
    ∃ a, resp = some a ∧ a.messageId = fapiConfigResponse ∧ a.sentAt ≤ a.arrival
  | _ => True

def indications (out : List (Event P)) : List (Indication P) :=
  out.filterMap fun | .received m => some m | _ => none

def requests (out : List (Event P)) : List ℕ :=
  out.filterMap fun | .configSent n => some n | _ => none

def answers (out : List (Event P)) : List (Answer P) :=
  out.filterMap fun | .configReturned _ resp => resp | _ => none

def tagged (ms : List (Indication P)) : List (Received P) :=
  ms.zipIdx.map fun m ↦ ⟨m.1, m.2⟩

def pending (s : System P w) : List (Received P) :=
  match s.fapi with
  | .receiving => []
  | .awaitingRoom item => [item]

def outstanding (s : System P w) : List ℕ :=
  match s.requester with
  | .idle => []
  | .awaitingResponse sentAt => [sentAt]

def Event.Returns [Inhabited P] [DecidableEq P] : Event P → Prop
  | .configReturned ret (some a) => ret = if a.body = default then 1 else 0
  | .configReturned ret none => ret = -1
  | _ => True

structure Tracks [Inhabited P] [DecidableEq P] (out : List (Event P)) (s : System P w)
    (items : List (Received P)) : Prop where
  contains : s.queue.Contains items
  arrived : s.arrived = (indications out).length
  received : tagged (indications out) =
    (answers out).map Answer.toReceived ++ items ++ pending s
  requested : requests out = (answers out).map Answer.sentAt ++ outstanding s
  returns : ∀ e ∈ out, e.Returns

end EnbL1Ppc.Fapi.P5Config
