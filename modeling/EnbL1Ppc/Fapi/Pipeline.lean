import EnbL1Ppc.Ipc.Channel
import EnbL1Ppc.Fapi.Dispatch

namespace EnbL1Ppc.Fapi.Pipeline

open Lib Lib.Memory EnbL1Ppc.Core EnbL1Ppc.Ipc
open Dispatch (QueueId Indication headerSize)

variable {w : ℕ}

def channelP5Ind : BitVec 32 := 1
def channelP7Ind : BitVec 32 := 3
def channelCpriEth : BitVec 32 := 7
def channelP8Ind : BitVec 32 := 9
def channelsNum : BitVec 32 := 10

def rxUlschIndication : BitVec 32 := 0x87

/-- The cases of `fapi_b4860_process_p7_message`. -/
def indicationOf (messageId : BitVec 32) : Indication :=
  if messageId = 0x82 then .subframe
  else if messageId = 0x88 then .rach
  else if messageId = rxUlschIndication then .rxUlsch
  else if messageId = 0x8A then .rxSr
  else if messageId = 0x85 then .harq
  else if messageId = 0x8B then .rxCqi
  else if messageId = 0x86 then .crc
  else .other

structure IpcMsg where
  channelId : BitVec 32
  length : BitVec 32
  bodyAddr : BitVec 32
  physAddr : BitVec 32

def IpcMsg.bytes (m : IpcMsg) : List UInt8 :=
  bigEndian m.channelId ++ bigEndian m.length ++ bigEndian m.bodyAddr ++ bigEndian m.physAddr

/-- The places of `body_addr` in a header, and of `number_of_pdus` and `rx_pdu_list[i].data_ptr` in
an RX indication. -/
def bodyAddrAt : ℕ := 8
def numberOfPdusAt : ℕ := 16
def dataPtrAt (i : ℕ) : ℕ := 48 + 32 * i

def wordOf (bs : List UInt8) (k : ℕ) : BitVec 32 := word (fun a ↦ bs.getD a 0) k

/-- A message of the DSP: the physical address of its `fapi_ipc_msg_t`, and what the DSP writes
there and at its `body_addr`. A message of the P7 channel has a header, and an RX indication the
PDUs that it announces. -/
structure DspMessage where
  addr : BitVec 32
  header : IpcMsg
  body : List UInt8
  header_le : header.channelId = channelP7Ind → 8 ≤ body.length
  pdus_le : header.channelId = channelP7Ind → indicationOf (wordOf body 0) = .rxUlsch →
    20 + 32 * (wordOf body numberOfPdusAt).toNat ≤ body.length

/-- `fapi_thread` is at the top of its loop, or inside `block_queue_push`. -/
inductive FapiThread
  | receiving
  | awaitingRoom (q : QueueId) (body : BitVec 32)
  deriving DecidableEq

/-- The shared memory is seen at virtual addresses. -/
structure System (w : ℕ) where
  channel : Channel
  mem : Mem
  queues : QueueId → BlockQueue (BitVec 32) w
  fapi : FapiThread

inductive Input
  | dsp (m : DspMessage) (len : BitVec 32)
  | fapi (locked : Bool)
  | pop (q : QueueId)
  | tryPop (q : QueueId)
  | popLastSubframe

/-- A popped message is seen as its pointer and the bytes from there on at that moment. -/
inductive Event
  | put (m : DspMessage)
  | popped (q : QueueId) (ptr : BitVec 32) (content : ℕ → UInt8)

def start (channel : Channel) (mem : Mem) : System w where
  channel := channel
  mem := mem
  queues _ := BlockQueue.init 64
  fapi := .receiving

def setQueue (s : System w) (q : QueueId) (bq : BlockQueue (BitVec 32) w) : System w :=
  { s with queues := Function.update s.queues q bq }

def pushed (s : System w) (q : QueueId) (body : BitVec 32) :
    Option (BlockQueue (BitVec 32) w × Bool) → System w
  | none => { s with fapi := .awaitingRoom q body }
  | some (bq, _) => { setQueue s q bq with fapi := .receiving }

def push (s : System w) (q : QueueId) (body : BitVec 32) : System w :=
  pushed s q body ((s.queues q).push body headerSize)

section Translate

variable (p2v : BitVec 32 → BitVec 32)

/-- The loop over `rx_pdu_list`, which translates the pointers in place. It does not write
`number_of_pdus`, which is read in every turn. -/
def translatePdus (mem : Mem) (body : ℕ) : Mem :=
  (List.range (word mem (body + numberOfPdusAt)).toNat).foldl
    (fun mem i ↦ putWord mem (body + dataPtrAt i) (p2v (word mem (body + dataPtrAt i)))) mem

def processP7Message (s : System w) (body : BitVec 32) : System w :=
  let i := indicationOf (word s.mem body.toNat)
  if i = .rxUlsch then push { s with mem := translatePdus p2v s.mem body.toNat } (.p7 i) body
  else push s (.p7 i) body

/-- The `switch` on `channel_id`. The body of a CPRI Ethernet message is translated in the header;
what the handlers of this channel and of the log do with it is left out. -/
def processChannel (s : System w) (msg : BitVec 32) : System w :=
  let channelId := word s.mem msg.toNat
  let body := p2v (word s.mem (msg.toNat + bodyAddrAt))
  if channelId = channelCpriEth then
    { s with mem := putWord s.mem (msg.toNat + bodyAddrAt) body }
  else if channelId = channelP5Ind then push s .p5 body
  else if channelId = channelP7Ind then processP7Message p2v s body
  else if channelId = channelP8Ind then
    setQueue s .p8 ((s.queues .p8).tryPush body headerSize).1
  else s

def process (s : System w) (addr : BitVec 32) : System w :=
  if addr = 0 then s
  else if p2v addr = 0 then s
  else if word s.mem (p2v addr).toNat ≥ channelsNum then s
  else processChannel p2v s (p2v addr)

def fapiStep (h : Handle) (s : System w) (locked : Bool) : System w :=
  match s.fapi with
  | .awaitingRoom q body => pushed s q body ((s.queues q).pushWake body headerSize)
  | .receiving =>
    match Channel.recvPtr h s.channel locked with
    | (channel, none, _) => { s with channel := channel }
    | (channel, some (addr, _), _) => process p2v { s with channel := channel } addr

def DspMessage.ptr (m : DspMessage) : BitVec 32 :=
  p2v m.header.bodyAddr

def dspStep (s : System w) (m : DspMessage) (len : BitVec 32) :
    Option (System w × List Event) :=
  match s.channel.sendPtr true m.addr len with
  | (channel, 0) =>
    some ({ s with
      channel := channel
      mem := put (put s.mem (m.ptr p2v).toNat m.body) (p2v m.addr).toNat m.header.bytes },
      [.put m])
  | _ => none

def popped (s : System w) (q : QueueId) :
    Option (BlockQueue (BitVec 32) w × BitVec 32) → System w × List Event
  | none => (s, [])
  | some (bq, ptr) => (setQueue s q bq, [.popped q ptr fun k ↦ s.mem (ptr.toNat + k)])

def step (h : Handle) : Machine.Step (System w) Input Event
  | s, .dsp m len => dspStep p2v s m len
  | s, .fapi locked => some (fapiStep p2v h s locked, [])
  | s, .pop q => some (popped s q (s.queues q).pop)
  | s, .tryPop q =>
    match (s.queues q).tryPop with
    | (_, none) => some (s, [])
    | (bq, some ptr) => some (popped s q (some (bq, ptr)))
  | s, .popLastSubframe => some (popped s (.p7 .subframe) (s.queues (.p7 .subframe)).popLast)

def DspMessage.queue? (m : DspMessage) : Option QueueId :=
  if m.header.channelId = channelP5Ind then some .p5
  else if m.header.channelId = channelP7Ind then some (.p7 (indicationOf (wordOf m.body 0)))
  else none

def DspMessage.InDataPtr (m : DspMessage) (k : ℕ) : Prop :=
  m.queue? = some (.p7 .rxUlsch) ∧ ∃ i < (wordOf m.body numberOfPdusAt).toNat,
    dataPtrAt i ≤ k ∧ k < dataPtrAt i + 4

/-- What a reader of the queue should find: the message as the DSP wrote it, with each data pointer
of an RX indication translated once. -/
structure Delivers (x : BitVec 32 × (ℕ → UInt8)) (m : DspMessage) : Prop where
  ptr : x.1 = m.ptr p2v
  dataPtr : m.queue? = some (.p7 .rxUlsch) → ∀ i < (wordOf m.body numberOfPdusAt).toNat,
    word x.2 (dataPtrAt i) = p2v (wordOf m.body (dataPtrAt i))
  rest : ∀ k < m.body.length, ¬m.InDataPtr k → x.2 k = m.body.getD k 0

end Translate

def puts (out : List Event) : List DspMessage :=
  out.filterMap fun | .put m => some m | _ => none

def sentTo (q : QueueId) (out : List Event) : List DspMessage :=
  (puts out).filter (·.queue? = some q)

def poppedFrom (q : QueueId) (out : List Event) : List (BitVec 32 × (ℕ → UInt8)) :=
  out.filterMap fun
    | .popped q' ptr content => if q' = q then some (ptr, content) else none
    | _ => none

/-- The queues that are read first in, first out. The subframe queue is read by
`block_queue_pop_last`, and the P8 queue drops messages when it is full. -/
def Tracked (q : QueueId) : Prop :=
  q ≠ .p7 .subframe ∧ q ≠ .p8

def outstanding (ch : Channel) : List Bd :=
  Ring.window ch.bd ch.bdRingSize.toNat ch.localConsumerNum.toNat
    (ch.producerNum - ch.consumerNum).toNat

def pendingIn (s : System w) (q : QueueId) : List (BitVec 32) :=
  match s.fapi with
  | .receiving => []
  | .awaitingRoom q' body => if q' = q then [body] else []

def onRing (s : System w × List Event) : List DspMessage :=
  (puts s.2).drop ((puts s.2).length - (outstanding s.1.channel).length)

def unread (q : QueueId) (out : List Event) : List DspMessage :=
  (sentTo q out).drop (poppedFrom q out).length

section Regions

variable (p2v : BitVec 32 → BitVec 32)

def DspMessage.headerRegion (m : DspMessage) : ℕ × ℕ := ((p2v m.addr).toNat, m.header.bytes.length)

def DspMessage.bodyRegion (m : DspMessage) : ℕ × ℕ := ((m.ptr p2v).toNat, m.body.length)

def DspMessage.regions (m : DspMessage) : List (ℕ × ℕ) := [m.headerRegion p2v, m.bodyRegion p2v]

def Apart (r r' : ℕ × ℕ) : Prop := Memory.Disjoint r.1 r.2 r'.1 r'.2

/-- Header and body of a message are in use while it is on the ring, and the body of a message for
one of the tracked queues until it is popped. -/
def regionsInUse (s : System w × List Event) : Set (ℕ × ℕ) :=
  {r | (∃ m ∈ onRing s, r ∈ m.regions p2v) ∨
    ∃ q, Tracked q ∧ ∃ m ∈ unread q s.2, r = m.bodyRegion p2v}

/-- The DSP puts a message whose address translates into memory that is not in use, header and body
side by side. -/
def Fresh (s : System w × List Event) : Input → Prop
  | .dsp m _ => m.addr ≠ 0 ∧ p2v m.addr ≠ 0 ∧ Apart (m.headerRegion p2v) (m.bodyRegion p2v) ∧
    ∀ r ∈ m.regions p2v, r.1 + r.2 ≤ 2 ^ 32 ∧ ∀ r' ∈ regionsInUse p2v s, Apart r r'
  | _ => True

end Regions

end EnbL1Ppc.Fapi.Pipeline
