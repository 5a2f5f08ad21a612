import EnbL1Ppc.Fapi.Requests

namespace EnbL1Ppc.Fapi.Requests

open Lib Lib.Memory Lib.Stores SendBuffers

def built (L : Layout) (b : Buffer) (q : SendBuffers.Request) (snap : Mem) : Mem :=
  q.image L b (q.stores L b).length snap

def readWord (mem : Mem) (a : ℕ) : BitVec 32 := ofBigEndian (read mem a 4)

def readWords (n : ℕ) (mem : Mem) (a : ℕ) : Words n := fun i ↦ readWord mem (a + 4 * i)

def readList (n : ℕ) (mem : Mem) (a len : ℕ) : List (Words n) :=
  (List.range len).map fun i ↦ readWords n mem (a + 4 * n * i)

structure DlConfigView where
  sfnSf : BitVec 32
  numberPdcchOfdmSymbols : BitVec 32
  numberDci : BitVec 32
  numberPdu : BitVec 32
  numberPdschRnti : BitVec 32
  dcis : List DlConfigPdu
  pdus : List DlConfigPdu

def DlConfigRequest.dlConfigView (r : DlConfigRequest) : DlConfigView where
  sfnSf := Requests.sfnSf r.frame r.subframe
  numberPdcchOfdmSymbols := r.numberPdcchOfdmSymbols
  numberDci := r.numberDci
  numberPdu := r.numberPdu
  numberPdschRnti := r.numberPdschRnti
  dcis := r.dcis
  pdus := r.pdus

/-- A reader of the message at `msg`: the counts, then the DCI list, then the PDU list. -/
def readDlConfig (mem : Mem) (msg : ℕ) : DlConfigView where
  sfnSf := readWord mem (msg + 8)
  numberPdcchOfdmSymbols := readWord mem (msg + 16)
  numberDci := readWord mem (msg + 20)
  numberPdu := readWord mem (msg + 24)
  numberPdschRnti := readWord mem (msg + 28)
  dcis := readList 117 mem (msg + 36) (readWord mem (msg + 20)).toNat
  pdus := readList 117 mem (msg + 36 + 468 * (readWord mem (msg + 20)).toNat)
    (readWord mem (msg + 24)).toNat

structure UlConfigView where
  sfnSf : BitVec 32
  numberOfPdus : BitVec 32
  rachPrachFrequencyResources : BitVec 32
  srsPresent : BitVec 32
  pdus : List UlConfigPdu

def UlConfigRequest.view (r : UlConfigRequest) : UlConfigView where
  sfnSf := Requests.sfnSf r.frame r.subframe
  numberOfPdus := r.numberPdu
  rachPrachFrequencyResources := r.rachPrachFrequencyResources
  srsPresent := r.srsPresent
  pdus := r.pdus

def readUlConfig (mem : Mem) (msg : ℕ) : UlConfigView where
  sfnSf := readWord mem (msg + 8)
  numberOfPdus := readWord mem (msg + 16)
  rachPrachFrequencyResources := readWord mem (msg + 20)
  srsPresent := readWord mem (msg + 24)
  pdus := readList 45 mem (msg + 28) (readWord mem (msg + 16)).toNat

structure HiDci0View where
  sfnSf : BitVec 32
  numberOfDci : BitVec 32
  numberOfHi : BitVec 32
  dcis : List HiDci0Pdu
  his : List HiDci0Pdu

def DlConfigRequest.hiDci0View (r : DlConfigRequest) : HiDci0View where
  sfnSf := Requests.sfnSf r.frame r.subframe
  numberOfDci := r.numberDci0
  numberOfHi := r.numberHi
  dcis := r.dci0s
  his := r.his

def readHiDci0 (mem : Mem) (msg : ℕ) : HiDci0View where
  sfnSf := readWord mem (msg + 8)
  numberOfDci := readWord mem (msg + 16)
  numberOfHi := readWord mem (msg + 20)
  dcis := readList 56 mem (msg + 24) (readWord mem (msg + 16)).toNat
  his := readList 56 mem (msg + 24 + 224 * (readWord mem (msg + 16)).toNat)
    (readWord mem (msg + 20)).toNat

/-- The bytes of a transport block, or the word in `tb_data` where the tag is 0. -/
inductive Content
  | pointer (p : BitVec 32)
  | block (bs : List UInt8)

structure SegmentView where
  tag : BitVec 32
  length : BitVec 32
  content : Content

structure TxPduView where
  pduLength : BitVec 32
  pduIndex : BitVec 32
  numSegments : BitVec 32
  segments : List SegmentView

structure TxView where
  sfnSf : BitVec 32
  numberOfPdus : BitVec 32
  pdus : List TxPduView

def Tb.view (t : Tb) : SegmentView where
  tag := t.tag
  length := t.length
  content := if t.tag ≠ 0 then .block t.bytes else .pointer t.data

def TxPdu.view (p : TxPdu) : TxPduView where
  pduLength := p.pduLength
  pduIndex := p.pduIndex
  numSegments := p.numSegments
  segments := p.segments.map Tb.view

def DlConfigRequest.txView (r : DlConfigRequest) : TxView where
  sfnSf := Requests.sfnSf r.frame r.subframe
  numberOfPdus := r.numberTxReq
  pdus := r.txPdus.map TxPdu.view

def Shm.load (shm : Shm) (mem : Mem) (va len : ℕ) : List UInt8 :=
  (List.range len).map fun i ↦ mem (shm.v2p (va + i))

structure Descriptor where
  tag : BitVec 32
  length : BitVec 32
  data : BitVec 32

def readDescriptor (mem : Mem) (a : ℕ) : Descriptor where
  tag := readWord mem a
  length := readWord mem (a + 4)
  data := readWord mem (a + 8)

def Descriptor.resolve (shm : Shm) (mem : Mem) (d : Descriptor) : SegmentView where
  tag := d.tag
  length := d.length
  content := if d.tag ≠ 0 then .block (shm.load mem (shm.p2v d.data.toNat) d.length.toNat)
    else .pointer d.data

def readDescriptors (mem : Mem) (a len : ℕ) : List Descriptor :=
  (List.range len).map fun j ↦ readDescriptor mem (a + 12 * j)

def pduDescriptors (mem : Mem) (a : ℕ) : List Descriptor :=
  readDescriptors mem (a + 12) (readWord mem (a + 8)).toNat

def readTxPdu (shm : Shm) (mem : Mem) (a : ℕ) : TxPduView where
  pduLength := readWord mem a
  pduIndex := readWord mem (a + 4)
  numSegments := readWord mem (a + 8)
  segments := (pduDescriptors mem a).map (Descriptor.resolve shm mem)

def readTx (shm : Shm) (mem : Mem) (msg : ℕ) : TxView where
  sfnSf := readWord mem (msg + 8)
  numberOfPdus := readWord mem (msg + 12)
  pdus := (List.range (readWord mem (msg + 12)).toNat).map fun i ↦
    readTxPdu shm mem (msg + 16 + 396 * i)

def Descriptor.region (msg : ℕ) (d : Descriptor) : Option (ℕ × ℕ) :=
  if d.tag ≠ 0 then some (d.data.toNat - msg, d.length.toNat) else none

def readRegions (mem : Mem) (msg : ℕ) : List (ℕ × ℕ) :=
  ((List.range (readWord mem (msg + 12)).toNat).flatMap fun i ↦
    pduDescriptors mem (msg + 16 + 396 * i)).filterMap (Descriptor.region msg)

end EnbL1Ppc.Fapi.Requests
