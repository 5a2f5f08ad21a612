import EnbL1Ppc.Ipc.Channel
import EnbL1Ppc.Ipc.UserDma

namespace EnbL1Ppc.Ipc.TxReq

open Lib Memory Transfers UserDma

def maxTxReqMsgSize : ℕ := 1020
def maxSgEntries : ℕ := 128
def gcrOffset : BitVec 64 := 0x8F2000
def errMaxMsgSizeExcdTxreq : ℤ := 29
def txreqDone : ℤ := 6
def txreqInProcess : ℤ := 7
def txreqErr : ℤ := 8

structure SgEntry where
  srcAddr : BitVec 32
  len : BitVec 32
  isValid : Bool
  deriving DecidableEq

abbrev SgList := Vector SgEntry maxSgEntries

/-- A channel for TX requests, and what the calls read of `ipc_userspace_t`. An `unsigned long`
has 32 bits. Memory is addressed by physical addresses; `p2v` tells whether the callback has a
virtual one. Of `channel`, only the fields that the calls do not write are used, `interrupt` has
`ind_offset` and `ind_value` if `ipc_ind` is `OS_HET_VIRTUAL_INT`. -/
structure Config where
  channel : Channel
  channelPaddr : BitVec 32
  bdBase : ℕ
  interrupt : Option (BitVec 32 × BitVec 32)
  txreqTbLbuffPaddr : BitVec 32
  maxTxreqLbuffSize : BitVec 32
  dspCcsr : BitVec 64
  p2v : BitVec 32 → Bool

structure State where
  mem : Mem
  udma : Udma
  txreqInprocess : Bool
  dspIndex : BitVec 32

namespace Config

variable (c : Config)

/-- The addresses of `tracker.producer_num`, `tracker.consumer_num` and `LOCAL_PRODUCER_NUM`. -/
def producerNum : ℕ := c.channelPaddr.toNat + 16

def consumerNum : ℕ := c.channelPaddr.toNat + 20

def localProducerNum : ℕ := c.channelPaddr.toNat + 60

def msgLen (i : ℕ) : ℕ := c.bdBase + 16 * i + 8

def recounted (ch : Channel) (producerNum consumerNum localProducerNum : BitVec 32)
    (msgLen : ℕ → BitVec 32) : Channel :=
  { ch with
    producerNum := producerNum
    consumerNum := consumerNum
    localProducerNum := localProducerNum
    bd := fun i ↦ { ch.bd i with msgLen := msgLen i } }

def view (mem : Mem) : Channel :=
  recounted c.channel (word mem c.producerNum) (word mem c.consumerNum)
    (word mem c.localProducerNum) fun i ↦ word mem (c.msgLen i)

-- Words of memory are kept out of the terms that are compared here.
section Recounted

variable (ch : Channel) (p q l : BitVec 32) (f : ℕ → BitVec 32)

theorem bdRingSize_recounted : (recounted ch p q l f).bdRingSize = ch.bdRingSize := rfl

theorem msgPtr_recounted (i : ℕ) : ((recounted ch p q l f).bd i).msgPtr = (ch.bd i).msgPtr := rfl

end Recounted

theorem view_bdRingSize (mem : Mem) : (c.view mem).bdRingSize = c.channel.bdRingSize :=
  bdRingSize_recounted ..

theorem msgPtr_bd_view (mem : Mem) (i : ℕ) :
    ((c.view mem).bd i).msgPtr = (c.channel.bd i).msgPtr :=
  msgPtr_recounted ..

theorem view_producerNum (mem : Mem) : (c.view mem).producerNum = word mem c.producerNum := rfl

theorem view_consumerNum (mem : Mem) : (c.view mem).consumerNum = word mem c.consumerNum := rfl

def spare : BitVec 32 := c.txreqTbLbuffPaddr + c.channel.bdRingSize * c.maxTxreqLbuffSize

def dmaList : BitVec 32 :=
  let physAddrS := c.spare + 32 * 4
  if physAddrS % 32 ≠ 0 then physAddrS + (32 - physAddrS % 32) else physAddrS

def indAddr (indOffset : BitVec 32) : BitVec 64 := c.dspCcsr + gcrOffset + indOffset.setWidth 64

end Config

def configureTxreq (h : Handle) (c : Config) (locked : Bool) (physAddr maxTxreqLbuffSize : BitVec 32) :
    Option (Config × Udma) × ℤ :=
  if h.channelId ≥ h.maxChannels then (none, -errChannelNotFound)
  else if lockRet locked < 0 then (none, lockRet locked)
  else if c.channel.producerInitialized ≠ osHetInitialized then (none, -errProducerNotInit)
  else
    let c := { c with txreqTbLbuffPaddr := physAddr, maxTxreqLbuffSize := maxTxreqLbuffSize }
    (some (c, ⟨0, c.dmaList, none⟩), lockRet locked)

/-- The loop over the scatter-gather list, which has no other end than an entry that is not
valid. -/
def addSegments (d : Udma) (mem : Mem) (physAddr : BitVec 32) :
    List SgEntry → Option (Udma × Mem)
  | [] => none
  | e :: es =>
    if e.isValid then
      let r := d.addEntry mem ⟨e.srcAddr, physAddr.setWidth 64, e.len⟩
      addSegments r.1 r.2.1 (physAddr + e.len) es
    else some (d, mem)

/-- The entries that advance the producer and raise the interrupt; their values are in the spare
area. -/
def addPublication (c : Config) (d : Udma) (mem : Mem) : Udma × Mem :=
  let incr1 := (c.view mem).producerNum + 1
  let incr2 := ((c.view mem).localProducerNum + 1) % c.channel.bdRingSize
  let mem := putWord mem c.spare.toNat incr1
  let r := d.addEntry mem ⟨c.spare, (c.channelPaddr + 16).setWidth 64, 4⟩
  let mem := putWord r.2.1 (c.spare.toNat + 4) incr2
  let r := r.1.addEntry mem ⟨c.spare + 4, (c.channelPaddr + 60).setWidth 64, 4⟩
  match c.interrupt with
  | none => (r.1, r.2.1)
  | some (indOffset, indValue) =>
    let mem := putWord r.2.1 (c.spare.toNat + 8) indValue
    let r := r.1.addEntry mem ⟨c.spare + 8, c.indAddr indOffset, 4⟩
    (r.1, r.2.1)

/-- `fsl_ipc_send_tx_req`. The length is stored before it is checked; the results of the DMA calls
are not looked at. -/
def sendTxReq (c : Config) (s : State) (locked : Bool) (sgl : SgList) (txReq : ℕ → UInt8)
    (txReqLen : BitVec 32) : Option (State × ℤ) :=
  let ch := c.view s.mem
  if ch.consumerInitialized ≠ osHetInitialized then some (s, -errConsumerNotInit)
  else if lockRet locked < 0 then some (s, lockRet locked)
  else if ch.full then some (s, -errChannelFull)
  else
    let d := s.udma.listClear
    let mem := putWord s.mem (c.msgLen ch.localProducerNum.toNat) txReqLen
    let msg : BitVec 32 := ch.nextOut.msgPtr.setWidth 32
    if c.p2v msg = false then some ({ s with mem := mem, udma := d }, -1)
    else if maxTxReqMsgSize < txReqLen.toNat then
      some ({ s with mem := mem, udma := d }, -errMaxMsgSizeExcdTxreq)
    else
      let mem := write mem msg.toNat txReq txReqLen.toNat
      let lbuff := c.txreqTbLbuffPaddr + (c.view mem).localProducerNum * c.maxTxreqLbuffSize
      let mem := putWord mem (msg.toNat + maxTxReqMsgSize) lbuff
      (addSegments d mem lbuff sgl.toList).bind fun r ↦
        if c.p2v c.spare = false then none
        else
          let r := addPublication c r.1 r.2
          (r.1.start r.2).map fun r ↦
            ({ s with mem := r.2.1, udma := r.1, txreqInprocess := true }, lockRet locked)

def getLastTxReqStatus (s : State) : State × ℤ :=
  if s.txreqInprocess then
    if s.udma.busy then (s, txreqInProcess)
    else ({ s with txreqInprocess := false }, txreqDone)
  else (s, txreqErr)

def pieces (sgl : List SgEntry) : List (ℕ × ℕ) :=
  (sgl.takeWhile SgEntry.isValid).map fun e ↦ (e.srcAddr.toNat, e.len.toNat)

/-- The calls of the application, which also fills the memory that it sends from; the controller
at its next descriptor; and the consumer, which takes a request. -/
inductive Input
  | send (locked : Bool) (sgl : SgList) (txReq : ℕ → UInt8) (txReqLen : BitVec 32)
  | status
  | store (addr : ℕ) (data : List UInt8)
  | dma
  | consume

/-- A request with its data, and what the consumer finds: the request, and the buffer whose address
stands behind it. -/
inductive Event
  | sent (body payload : List UInt8)
  | status (ret : ℤ)
  | received (body lbuff : List UInt8)
  deriving DecidableEq

def State.moved (s : State) (mem : Mem) (cursor : Option ℕ) : State :=
  { s with mem := mem, udma := { s.udma with cursor := cursor } }

def consume (c : Config) (s : State) : Option (State × List Event) :=
  let ch := c.view s.mem
  if ch.empty then none
  else
    let bd := ch.bd s.dspIndex.toNat
    let lbuff := word s.mem (bd.msgPtr.toNat + maxTxReqMsgSize)
    some ({ s with
        mem := putWord s.mem c.consumerNum (ch.consumerNum + 1)
        dspIndex := (s.dspIndex + 1) % ch.bdRingSize },
      [.received (read s.mem bd.msgPtr.toNat bd.msgLen.toNat)
        (read s.mem lbuff.toNat c.maxTxreqLbuffSize.toNat)])

def step (c : Config) : Machine.Step State Input Event
  | s, .send locked sgl txReq txReqLen =>
    (sendTxReq c s locked sgl txReq txReqLen).map fun r ↦
      (r.1, if r.2 = 0 then
        [.sent (bytes txReq txReqLen.toNat) (contents s.mem (pieces sgl.toList))] else [])
  | s, .status =>
    let r := getLastTxReqStatus s
    some (r.1, [.status r.2])
  | s, .store addr data => some ({ s with mem := put s.mem addr data }, [])
  | s, .dma =>
    s.udma.cursor.map fun a ↦
      (s.moved (controller.step s.mem a).1 (controller.step s.mem a).2, [])
  | s, .consume => consume c s

end EnbL1Ppc.Ipc.TxReq
