import Mathlib.Data.BitVec
import EnbL1Ppc.Lib.Machine
import EnbL1Ppc.Lib.Memory

namespace EnbL1Ppc.Ipc

open Lib Lib.Memory

structure Bd where
  msgPtr : BitVec 64
  msgLen : BitVec 32
  deriving DecidableEq

/-- The fields of `os_het_ipc_channel_t` that sends and receives use. `bd` is the ring at
`bd_base`; the local indices are the two `pa_reserved` words. -/
structure Channel where
  producerInitialized : BitVec 32
  consumerInitialized : BitVec 32
  producerNum : BitVec 32
  consumerNum : BitVec 32
  bdRingSize : BitVec 32
  maxMsgSize : BitVec 32
  localProducerNum : BitVec 32
  localConsumerNum : BitVec 32
  bd : ℕ → Bd

/-- What a call reads of `ipc_userspace_t`: its channel number, the number of channels, and the
physical-to-virtual callback, for which address 0 is `NULL`. -/
structure Handle where
  channelId : BitVec 32
  maxChannels : BitVec 32
  p2vcb : BitVec 64 → ℕ

def osHetInitialized : BitVec 32 := 0xFEDCBA98

def errSuccess : ℤ := 0
def errChannelNotFound : ℤ := 1
def errChannelFull : ℤ := 3
def errChannelEmpty : ℤ := 5
def errProducerNotInit : ℤ := 25
def errConsumerNotInit : ℤ := 26
def errMaxMsgSizeExcd : ℤ := 28

/-- `fsl_ipc_lock`: 0, or -1 when the semaphore operation fails. -/
def lockRet (locked : Bool) : ℤ := if locked then errSuccess else -1

namespace Channel

variable {u : ℕ}

/-- `os_het_ch_free_bds`: the difference of the counters is taken in 32 bits, the second branch
goes on in 64, and the result is returned as an `int`. -/
def freeBds (ch : Channel) : BitVec 32 :=
  if ch.producerNum ≥ ch.consumerNum then
    ch.bdRingSize - (ch.producerNum - ch.consumerNum)
  else
    (ch.bdRingSize.setWidth 64 -
      ((ch.producerNum - ch.consumerNum).setWidth 64 + (1#64 <<< 32))).setWidth 32

def full (ch : Channel) : Bool := ch.freeBds = 0

def empty (ch : Channel) : Bool := ch.producerNum = ch.consumerNum

def produce (ch : Channel) (d : Bd) : Channel :=
  { ch with
    bd := Function.update ch.bd ch.localProducerNum.toNat d
    producerNum := ch.producerNum + 1
    localProducerNum := (ch.localProducerNum + 1) % ch.bdRingSize }

def consume (ch : Channel) : Channel :=
  { ch with
    consumerNum := ch.consumerNum + 1
    localConsumerNum := (ch.localConsumerNum + 1) % ch.bdRingSize }

def nextOut (ch : Channel) : Bd := ch.bd ch.localProducerNum.toNat

def nextIn (ch : Channel) : Bd := ch.bd ch.localConsumerNum.toNat

def openProdCh (ch : Channel) : Channel := { ch with producerInitialized := osHetInitialized }

def sendPtr (ch : Channel) (locked : Bool) (addr : BitVec u) (len : BitVec 32) : Channel × ℤ :=
  if ch.consumerInitialized ≠ osHetInitialized then (ch, -errConsumerNotInit)
  else if lockRet locked < 0 then (ch, lockRet locked)
  else if ch.full then (ch, -errChannelFull)
  else (ch.produce ⟨addr.setWidth 64, len⟩, lockRet locked)

def sendMsg (h : Handle) (ch₀ : Channel) (mem : Mem) (locked : Bool) (src : ℕ → UInt8)
    (len : BitVec 32) : Channel × Mem × ℤ :=
  let ch := ch₀.openProdCh
  if ch.consumerInitialized ≠ osHetInitialized then (ch, mem, -errConsumerNotInit)
  else if lockRet locked < 0 then (ch, mem, lockRet locked)
  else if ch.full then (ch, mem, -errChannelFull)
  else
    let vaddr := h.p2vcb ch.nextOut.msgPtr
    if vaddr = 0 then (ch, mem, -1)
    else if len ≤ ch.maxMsgSize then
      (ch.produce ⟨ch.nextOut.msgPtr, len⟩, write mem vaddr src len.toNat, lockRet locked)
    else (ch, mem, -errMaxMsgSizeExcd)

/-- `fsl_ipc_recv_ptr`: `*addr` and `*len` are written only on success. -/
def recvPtr (h : Handle) (ch : Channel) (locked : Bool) :
    Channel × Option (BitVec u × BitVec 32) × ℤ :=
  if h.channelId ≥ h.maxChannels then (ch, none, -errChannelNotFound)
  else if ch.producerInitialized ≠ osHetInitialized then (ch, none, -errProducerNotInit)
  else if lockRet locked < 0 then (ch, none, lockRet locked)
  else if ch.empty then (ch, none, -errChannelEmpty)
  else (ch.consume, some (ch.nextIn.msgPtr.setWidth u, ch.nextIn.msgLen), lockRet locked)

/-- `fsl_ipc_recv_msg`: the body is copied out of the shared buffer. -/
def recvMsg (h : Handle) (ch : Channel) (mem : Mem) (locked : Bool) :
    Channel × Option (List UInt8) × ℤ :=
  if lockRet locked < 0 then (ch, none, lockRet locked)
  else if ch.empty then (ch, none, -errChannelEmpty)
  else
    (ch.consume, some (read mem (h.p2vcb ch.nextIn.msgPtr) ch.nextIn.msgLen.toNat),
      lockRet locked)

/-- `ipc_channel_attach_msg_ring`, whose loop bound is an `int`. -/
def attachMsgRing (ch : Channel) (msgPhysAddr : BitVec u) (msgSize : BitVec 32) : Channel :=
  { ch with bd := fun i ↦
      if (i : ℤ) < ch.bdRingSize.toInt then
        { ch.bd i with
          msgPtr := (msgPhysAddr + BitVec.ofNat u i * msgSize.setWidth u).setWidth 64 }
      else ch.bd i }

@[simp] theorem openProdCh_full (ch : Channel) : ch.openProdCh.full = ch.full := rfl

@[simp] theorem openProdCh_nextOut (ch : Channel) : ch.openProdCh.nextOut = ch.nextOut := rfl

@[simp] theorem openProdCh_maxMsgSize (ch : Channel) :
    ch.openProdCh.maxMsgSize = ch.maxMsgSize := rfl

@[simp] theorem openProdCh_consumerInitialized (ch : Channel) :
    ch.openProdCh.consumerInitialized = ch.consumerInitialized := rfl

end Channel

end EnbL1Ppc.Ipc
