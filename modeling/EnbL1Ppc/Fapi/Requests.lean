import EnbL1Ppc.Fapi.SendBuffersOwnership
import EnbL1Ppc.Lib.Stores
import Mathlib.Tactic

namespace EnbL1Ppc.Fapi.Requests

open Lib Lib.Memory Lib.Stores SendBuffers

def fapiDlConfigMaxPdu : ℕ := 64
def fapiUlConfigMaxPdu : ℕ := 64
def fapiTxMaxSegments : ℕ := 32

/-- A PDU of the interface, all of whose fields are 32-bit words. -/
abbrev Words (n : ℕ) := Fin n → BitVec 32

/-- `fapi_dl_config_request_pdu_t`: `pdu_type`, `pdu_size` and the union behind them. -/
abbrev DlConfigPdu := Words 117

abbrev UlConfigPdu := Words 45

abbrev HiDci0Pdu := Words 56

/-- One entry of `tbs`: `data` is the word in `tb_data`, and with a tag other than 0, where it is
a pointer, `block` is what it points to. -/
structure Tb where
  tag : BitVec 32
  length : BitVec 32
  data : BitVec 32
  block : ℕ → UInt8

def Tb.bytes (t : Tb) : List UInt8 := Memory.bytes t.block t.length.toNat

structure TxPdu where
  pduLength : BitVec 32
  pduIndex : BitVec 32
  numSegments : BitVec 32
  tbs : Fin fapiTxMaxSegments → Tb

def entries {α : Type} {k : ℕ} (n : BitVec 32) (a : Fin k → α) : List α :=
  (List.ofFn a).take n.toNat

def TxPdu.segments (p : TxPdu) : List Tb := entries p.numSegments p.tbs

/-- `scheduler_dl_config_request_t`; nothing reads its `transmission_power_pcfich`. -/
structure DlConfigRequest where
  frame : BitVec 32
  subframe : BitVec 32
  numberPdcchOfdmSymbols : BitVec 32
  numberDci : BitVec 32
  numberPdu : BitVec 32
  numberTxReq : BitVec 32
  numberHi : BitVec 32
  numberDci0 : BitVec 32
  numberPdschRnti : BitVec 32
  dlConfigDciList : Fin fapiDlConfigMaxPdu → DlConfigPdu
  dlConfigPduList : Fin fapiDlConfigMaxPdu → DlConfigPdu
  txRequestPduList : Fin fapiDlConfigMaxPdu → TxPdu
  dci0List : Fin fapiDlConfigMaxPdu → HiDci0Pdu
  hiList : Fin fapiDlConfigMaxPdu → HiDci0Pdu

structure UlConfigRequest where
  frame : BitVec 32
  subframe : BitVec 32
  numberPdu : BitVec 32
  rachPrachFrequencyResources : BitVec 32
  srsPresent : BitVec 32
  ulConfigList : Fin fapiUlConfigMaxPdu → UlConfigPdu

def DlConfigRequest.dcis (r : DlConfigRequest) : List DlConfigPdu :=
  entries r.numberDci r.dlConfigDciList

def DlConfigRequest.pdus (r : DlConfigRequest) : List DlConfigPdu :=
  entries r.numberPdu r.dlConfigPduList

def DlConfigRequest.txPdus (r : DlConfigRequest) : List TxPdu :=
  entries r.numberTxReq r.txRequestPduList

def DlConfigRequest.dci0s (r : DlConfigRequest) : List HiDci0Pdu :=
  entries r.numberDci0 r.dci0List

def DlConfigRequest.his (r : DlConfigRequest) : List HiDci0Pdu :=
  entries r.numberHi r.hiList

def UlConfigRequest.pdus (r : UlConfigRequest) : List UlConfigPdu :=
  entries r.numberPdu r.ulConfigList

structure DlConfigRequest.WithinCapacity (r : DlConfigRequest) : Prop where
  dci : r.numberDci.toNat ≤ fapiDlConfigMaxPdu
  pdu : r.numberPdu.toNat ≤ fapiDlConfigMaxPdu
  txReq : r.numberTxReq.toNat ≤ fapiDlConfigMaxPdu
  dci0 : r.numberDci0.toNat ≤ fapiDlConfigMaxPdu
  hi : r.numberHi.toNat ≤ fapiDlConfigMaxPdu
  segments : ∀ p ∈ r.txPdus, p.numSegments.toNat ≤ fapiTxMaxSegments

def sfnSf (frame subframe : BitVec 32) : BitVec 32 := frame <<< 4 ||| subframe

def encodeList {n : ℕ} (xs : List (Words n)) : List UInt8 :=
  xs.flatMap fun x ↦ (List.ofFn x).flatMap bigEndian

/-- `FAPI_GET_MSG_PTR_VAR_SIZE`; the message structure counts one entry of its list. -/
def msgVarSize (msg pdu len : ℕ) : ℕ :=
  if 0 < len then msg + pdu * (len - 1) else msg

def fapiDlConfigRequestId : BitVec 32 := 0x80
def fapiUlConfigRequestId : BitVec 32 := 0x81
def fapiHiDci0RequestId : BitVec 32 := 0x83
def fapiTxRequestId : BitVec 32 := 0x84
def fapiChannelP7Req : BitVec 32 := 2

def DlConfigRequest.dlConfigLength (r : DlConfigRequest) : ℕ :=
  msgVarSize 504 468 (r.numberDci + r.numberPdu).toNat

def DlConfigRequest.hiDci0Length (r : DlConfigRequest) : ℕ :=
  msgVarSize 248 224 (r.numberDci0 + r.numberHi).toNat

def UlConfigRequest.length (r : UlConfigRequest) : ℕ :=
  msgVarSize 208 180 r.numberPdu.toNat

/-- The stores of `fapi_p7_dl_config_request` behind the header, in their order. -/
def fapiP7DlConfigRequest (r : DlConfigRequest) : SendBuffers.Request where
  pool := .request
  channelId := fapiChannelP7Req
  body :=
    [(0, bigEndian fapiDlConfigRequestId),
      (8, bigEndian (sfnSf r.frame r.subframe)),
      (20, bigEndian r.numberDci),
      (24, bigEndian r.numberPdu),
      (16, bigEndian r.numberPdcchOfdmSymbols),
      (28, bigEndian r.numberPdschRnti),
      (36, encodeList r.dcis),
      (36 + 468 * r.numberDci.toNat, encodeList r.pdus),
      (4, bigEndian (.ofNat 32 r.dlConfigLength))]
  bodyLength := .ofNat 32 r.dlConfigLength

def fapiP7UlConfigRequest (r : UlConfigRequest) : SendBuffers.Request where
  pool := .request
  channelId := fapiChannelP7Req
  body :=
    [(0, bigEndian fapiUlConfigRequestId),
      (8, bigEndian (sfnSf r.frame r.subframe)),
      (16, bigEndian r.numberPdu),
      (20, bigEndian r.rachPrachFrequencyResources),
      (24, bigEndian r.srsPresent),
      (28, encodeList r.pdus),
      (4, bigEndian (.ofNat 32 r.length))]
  bodyLength := .ofNat 32 r.length

def fapiP7HiDci0Request (r : DlConfigRequest) : SendBuffers.Request where
  pool := .request
  channelId := fapiChannelP7Req
  body :=
    [(0, bigEndian fapiHiDci0RequestId),
      (8, bigEndian (sfnSf r.frame r.subframe)),
      (16, bigEndian r.numberDci0),
      (20, bigEndian r.numberHi),
      (24, encodeList r.dci0s),
      (24 + 224 * r.numberDci0.toNat, encodeList r.his),
      (4, bigEndian (.ofNat 32 r.hiDci0Length))]
  bodyLength := .ofNat 32 r.hiDci0Length

/-- The segment of shared memory that `fsl_shm_init` maps, within the 32-bit addresses. -/
structure Shm where
  vaddr : ℕ
  paddr : ℕ
  size : ℕ
  virtual_lt : vaddr + size < 2 ^ 32
  physical_lt : paddr + size < 2 ^ 32

def Shm.v2p (shm : Shm) (p : ℕ) : ℕ :=
  if p = 0 ∨ p < shm.vaddr ∨ shm.vaddr + shm.size < p then 0 else shm.paddr + (p - shm.vaddr)

def Shm.p2v (shm : Shm) (p : ℕ) : ℕ :=
  if p = 0 ∨ p < shm.paddr ∨ shm.paddr + shm.size < p then 0 else shm.vaddr + (p - shm.paddr)

def align (k n : ℕ) : ℕ := (n + (k - 1)) / k * k

def DlConfigRequest.txDescriptors (r : DlConfigRequest) : ℕ :=
  align 64 (msgVarSize 412 396 r.numberTxReq.toNat)

/-- The data offset behind a segment. The 32-bit `tx_req_data_ptr` can wrap only after data
beyond the end of every buffer has been written. -/
def Tb.next (ptr : ℕ) (t : Tb) : ℕ :=
  if t.tag ≠ 0 then ptr + align 8 t.length.toNat else ptr

/-- The body of the inner loop of `fapi_p7_tx_request`: the descriptor at the offset `desc`, the
data at `ptr`; `addr` is the physical address of an offset. -/
def Tb.stores (addr : ℕ → BitVec 32) (desc ptr : ℕ) (t : Tb) : List Store :=
  [(desc, bigEndian t.tag), (desc + 4, bigEndian t.length)] ++
    if t.tag ≠ 0 then [(ptr, t.bytes), (desc + 8, bigEndian (addr ptr))]
    else [(desc + 8, bigEndian t.data)]

def segmentStores (addr : ℕ → BitVec 32) : ℕ → ℕ → List Tb → List Store
  | _, _, [] => []
  | desc, ptr, t :: ts =>
    t.stores addr desc ptr ++ segmentStores addr (desc + 12) (t.next ptr) ts

def TxPdu.stores (addr : ℕ → BitVec 32) (desc ptr : ℕ) (p : TxPdu) : List Store :=
  [(desc + 8, bigEndian p.numSegments), (desc + 4, bigEndian p.pduIndex),
      (desc, bigEndian p.pduLength)] ++
    segmentStores addr (desc + 12) ptr p.segments

def pduStores (addr : ℕ → BitVec 32) : ℕ → ℕ → List TxPdu → List Store
  | _, _, [] => []
  | desc, ptr, p :: ps =>
    p.stores addr desc ptr ++
      pduStores addr (desc + 396) (p.segments.foldl Tb.next ptr) ps

def DlConfigRequest.txLength (r : DlConfigRequest) : ℕ :=
  (r.txPdus.flatMap TxPdu.segments).foldl Tb.next r.txDescriptors

def dataAddr (shm : Shm) (phys : BitVec 32) (off : ℕ) : BitVec 32 :=
  .ofNat 32 (shm.v2p (shm.p2v phys.toNat + 16 + off))

def fapiP7TxRequest (shm : Shm) (phys : BitVec 32) (r : DlConfigRequest) :
    SendBuffers.Request where
  pool := .request
  channelId := fapiChannelP7Req
  body :=
    [(0, bigEndian fapiTxRequestId),
      (8, bigEndian (sfnSf r.frame r.subframe)),
      (12, bigEndian r.numberTxReq)] ++
      pduStores (dataAddr shm phys) 16 r.txDescriptors r.txPdus ++
      [(4, bigEndian (.ofNat 32 r.txLength))]
  bodyLength := .ofNat 32 r.txLength

end EnbL1Ppc.Fapi.Requests
