import EnbL1Ppc.Ipc.ChannelFifo
import Mathlib.Tactic

namespace EnbL1Ppc.Fapi.SendBuffers

open Lib Lib.Memory Ipc Ipc.ChannelCalls Ipc.ChannelFifo

variable {T : Type}

inductive Pool
  | request
  | cpriEth
  deriving DecidableEq

def fapiTxReqBufNum : ℕ := 16
def fapiTxReqBufSize : ℕ := 65536
def fapiCpriEthBufNum : ℕ := 1024
def fapiCpriEthBufSize : ℕ := 4096
def fapiIpcPa2scBdRingSize : BitVec 32 := 16

def Pool.bufNum : Pool → ℕ
  | .request => fapiTxReqBufNum
  | .cpriEth => fapiCpriEthBufNum

def Pool.bufSize : Pool → ℕ
  | .request => fapiTxReqBufSize
  | .cpriEth => fapiCpriEthBufSize

abbrev Buffer := (p : Pool) × Fin p.bufNum

def Buffer.size (b : Buffer) : ℕ := b.1.bufSize

/-- `fapi_ipc_msg_t`; `phys_addr` shares its last word with `reserved`. -/
structure Msg where
  channelId : BitVec 32
  length : BitVec 32
  bodyAddr : BitVec 32
  reserved : BitVec 32
  deriving DecidableEq

def Msg.encode (m : Msg) : List UInt8 :=
  bigEndian m.channelId ++ bigEndian m.length ++ bigEndian m.bodyAddr ++ bigEndian m.reserved

def Msg.decode (bs : List UInt8) : Msg where
  channelId := ofBigEndian (bs.take 4)
  length := ofBigEndian ((bs.drop 4).take 4)
  bodyAddr := ofBigEndian ((bs.drop 8).take 4)
  reserved := ofBigEndian ((bs.drop 12).take 4)

@[simp] theorem Msg.length_encode (m : Msg) : m.encode.length = 16 := rfl

@[simp] theorem Msg.decode_encode (m : Msg) : Msg.decode m.encode = m := by
  change Msg.mk (ofBigEndian (bigEndian m.channelId)) (ofBigEndian (bigEndian m.length))
    (ofBigEndian (bigEndian m.bodyAddr)) (ofBigEndian (bigEndian m.reserved)) = m
  simp

/-- Where the memory lies: the PA2SC channel at start, the buffers of its message ring and the
send buffers, none of which overlap. Addresses are physical; the CPU reaches the same bytes
through the linear mapping of `fsl_usmmgr_p2v`. -/
structure Layout where
  handle : Handle
  channel : Channel
  phys : Buffer → BitVec 32
  fresh : Fresh channel
  ringSize : channel.bdRingSize = fapiIpcPa2scBdRingSize
  ring_disjoint : DisjointBuffers handle channel
  buffers_disjoint : ∀ b b', b ≠ b' →
    Memory.Disjoint (phys b).toNat b.size (phys b').toNat b'.size
  ring_buffers : ∀ b, ∀ i < channel.bdRingSize.toNat,
    Memory.Disjoint (handle.p2vcb (channel.bd i).msgPtr) channel.maxMsgSize.toNat
      (phys b).toNat b.size

variable (L : Layout)

def Layout.base (b : Buffer) : ℕ := (L.phys b).toNat

/-- A P5 or P7 request or a CPRI Ethernet send: the stores by which the caller fills the body
behind the 16-byte header, and the length it then sets. -/
structure Request where
  pool : Pool
  channelId : BitVec 32
  body : List (ℕ × List UInt8)
  bodyLength : BitVec 32

/-- The stores of one call in program order: the header fields written by the allocation, the
body, `length`, and `body_addr`, which `ipc_send_msg` sets. -/
def Request.stores (r : Request) (b : Buffer) : List (ℕ × List UInt8) :=
  [(0, bigEndian r.channelId), (12, bigEndian (L.phys b)), (4, bigEndian 0)] ++
    r.body.map (fun st ↦ (16 + st.1, st.2)) ++
    [(4, bigEndian (16 + r.bodyLength)), (8, bigEndian (L.phys b + 16))]

def applyStores (base : ℕ) (sts : List (ℕ × List UInt8)) (mem : Mem) : Mem :=
  sts.foldl (fun m st ↦ put m (base + st.1) st.2) mem

/-- The memory as the call sees it if nobody else writes to its buffer: the memory at its
allocation with its first `k` stores applied. -/
def Request.image (r : Request) (b : Buffer) (k : ℕ) (snap : Mem) : Mem :=
  applyStores (L.base b) ((r.stores L b).take k) snap

/-- A thread outside the send functions, one that has made `k` of its stores, and one that has
composed its descriptor. The memory at the allocation is kept for the specification only. -/
inductive Thread
  | idle
  | filling (r : Request) (b : Buffer) (k : ℕ) (snap : Mem)
  | sending (r : Request) (b : Buffer) (snap : Mem) (m : Msg)

structure System (T : Type) where
  channel : Channel
  mem : Mem
  ptr : (p : Pool) → Fin p.bufNum
  thread : T → Thread

def start (mem : Mem) : System T where
  channel := L.channel
  mem := mem
  ptr
    | .request => ⟨0, by decide⟩
    | .cpriEth => ⟨0, by decide⟩
  thread _ := .idle

def advance {n : ℕ} (i : Fin n) : Fin n :=
  if h : i.val + 1 < n then ⟨i.val + 1, h⟩ else ⟨0, i.pos⟩

inductive Input (T : Type)
  | alloc (t : T) (r : Request)
  | store (t : T)
  | load (t : T) (reserved : BitVec 32)
  | send (t : T) (locked : Bool)
  | dequeue

/-- `enqueued` carries the bytes its call wrote and `dequeued` the bytes the DSP finds. -/
inductive Event
  | enqueued (m : Msg) (bytes : List UInt8)
  | rejected (ret : ℤ)
  | dequeued (m : Msg) (bytes : List UInt8)

variable [DecidableEq T]

/-- `fapi_alloc_send_msg` and `fapi_alloc_cpri_eth_msg` under their mutex: the next buffer of
the pool, whoever still uses it. -/
def nextBuffer (s : System T) (p : Pool) : Buffer := ⟨p, s.ptr p⟩

/-- The descriptor that `ipc_send_msg` composes from the header in the buffer; its `reserved`
word is left uninitialised. -/
def loadMsg (mem : Mem) (base : ℕ) (reserved : BitVec 32) : Msg where
  channelId := ofBigEndian (read mem base 4)
  length := ofBigEndian (read mem (base + 4) 4)
  bodyAddr := ofBigEndian (read mem (base + 12) 4)
  reserved := reserved

def step : Machine.Step (System T) (Input T) Event
  | s, .alloc t r =>
    match s.thread t with
    | .idle =>
      some ({ s with
        ptr := Function.update s.ptr r.pool (advance (s.ptr r.pool))
        thread := Function.update s.thread t (.filling r (nextBuffer s r.pool) 0 s.mem) }, [])
    | _ => none
  | s, .store t =>
    match s.thread t with
    | .filling r b k snap =>
      match (r.stores L b)[k]? with
      | some st =>
        some ({ s with
          mem := put s.mem (L.base b + st.1) st.2
          thread := Function.update s.thread t (.filling r b (k + 1) snap) }, [])
      | none => none
    | _ => none
  | s, .load t reserved =>
    match s.thread t with
    | .filling r b k snap =>
      if k = (r.stores L b).length then
        let m := loadMsg s.mem (L.base b) reserved
        if m.length = 0 then
          some ({ s with thread := Function.update s.thread t .idle }, [.rejected (-1)])
        else some ({ s with thread := Function.update s.thread t (.sending r b snap m) }, [])
      else none
    | _ => none
  | s, .send t locked =>
    match s.thread t with
    | .sending r b snap m =>
      let res := s.channel.sendMsg L.handle s.mem locked (fun i ↦ m.encode.getD i 0) 16
      some ({ s with
          channel := res.1
          mem := res.2.1
          thread := Function.update s.thread t .idle },
        [if res.2.2 = 0 then
          .enqueued m (read (r.image L b (r.stores L b).length snap) (L.base b) m.length.toNat)
        else .rejected res.2.2])
    | _ => none
  | s, .dequeue =>
    match s.channel.recvMsg L.handle s.mem true with
    | (ch, some bs, _) =>
      let m := Msg.decode bs
      some ({ s with channel := ch },
        [.dequeued m (read s.mem m.bodyAddr.toNat m.length.toNat)])
    | _ => none

end EnbL1Ppc.Fapi.SendBuffers
