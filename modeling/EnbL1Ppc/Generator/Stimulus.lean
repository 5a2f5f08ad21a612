import EnbL1Ppc.Fapi.Requests
import EnbL1Ppc.Generator.TbsTable

namespace EnbL1Ppc.Generator

open Fapi.Requests

/-- An OCTET STRING; `size` is a 32-bit `size_t`. -/
structure OctetString where
  buf : List UInt8
  size_lt : buf.length < 2 ^ 32

def OctetString.size (s : OctetString) : BitVec 32 := .ofNat 32 s.buf.length

/-- `DL-CONFIG-PDU-TYPE-DCI`; an INTEGER is decoded to a 32-bit `long`. -/
structure Dci where
  format : BitVec 32
  cce : BitVec 32
  l : BitVec 32
  rnti : BitVec 32
  raType : BitVec 32
  vrbFlag : Option (BitVec 32)
  rbCoding : BitVec 32
  mcs1 : BitVec 32
  rv1 : BitVec 32
  ndi1 : BitVec 32
  tbSwap : Option (BitVec 32)
  mcs2 : Option (BitVec 32)
  rv2 : Option (BitVec 32)
  ndi2 : Option (BitVec 32)
  harq : BitVec 32
  tpmi : Option (BitVec 32)
  pmi : Option (BitVec 32)
  pi : Option (BitVec 32)
  tpc : Option (BitVec 32)
  downlinkIndex : Option (BitVec 32)
  nGap : Option (BitVec 32)
  tbsIndex : Option (BitVec 32)
  powerOffset : Option (BitVec 32)
  prachFlag : Option (BitVec 32)
  preambleIndex : Option (BitVec 32)
  prachMask : Option (BitVec 32)
  rntiType : BitVec 32
  power : BitVec 32

structure Bch where
  pdu : OctetString
  power : BitVec 32

structure Dlsch where
  pdu : OctetString
  rnti : BitVec 32
  raType : BitVec 32
  vrbFlag : Option (BitVec 32)
  rbCoding : BitVec 32
  modulation : BitVec 32
  rv : BitVec 32
  tb : BitVec 32
  tbSwap : Option (BitVec 32)
  txScheme : Option (BitVec 32)
  nLayers : Option (BitVec 32)
  nSubbands : Option (BitVec 32)
  ueCategory : Option (BitVec 32)
  pA : Option (BitVec 32)
  deltaPower : Option (BitVec 32)
  nGap : Option (BitVec 32)
  nPrb : Option (BitVec 32)
  tm : Option (BitVec 32)

/-- `DL-CONFIG-PDU-TYPE`; `unknown` is any other value of `present`. -/
inductive Element
  | dci (d : Dci)
  | bch (b : Bch)
  | dlsch (d : Dlsch)
  | unknown

structure Member where
  tti : BitVec 32
  cfi : BitVec 32
  pdus : Option (List Element)

structure Config where
  autoMib : Bool
  dlChannelBandwidth : BitVec 32
  phichDuration : BitVec 32
  phichResource : BitVec 32

def fapiDlConfigDciDlPduType : BitVec 32 := 0
def fapiDlConfigBchPduType : BitVec 32 := 1
def fapiDlConfigDlschPduType : BitVec 32 := 3

def setWords {n : ℕ} (w : Words n) (fields : List (ℕ × BitVec 32)) : Words n :=
  fields.foldl (fun w f i ↦ if i.val = f.1 then f.2 else w i) w

def pduType (w : DlConfigPdu) : BitVec 32 := w 0

/-- The word of `pdu_index` in the DLSCH and in the BCH variant of the union. -/
def pduIndexWord : ℕ := 3

def pduIndex (w : DlConfigPdu) : BitVec 32 := w 3

/-- Write one array entry; outside the array the behaviour is undefined. -/
def setEntry {α : Type} {k : ℕ} (a : Fin k → α) (n : BitVec 32) (f : α → α) :
    Option (Fin k → α) :=
  if h : n.toNat < k then some (Function.update a ⟨n.toNat, h⟩ (f (a ⟨n.toNat, h⟩))) else none

def parseP7DlCfgDci (d : Dci) (w : DlConfigPdu) : DlConfigPdu :=
  setWords w
    [(2, d.format), (3, d.cce), (4, d.l), (5, d.rnti), (6, d.raType), (7, d.vrbFlag.getD 0),
      (8, d.rbCoding), (9, d.mcs1), (10, d.rv1), (11, d.ndi1), (12, d.tbSwap.getD 0),
      (13, d.mcs2.getD 0), (14, d.rv2.getD 0), (15, d.ndi2.getD 0), (16, d.harq),
      (17, d.tpmi.getD 0), (18, d.pmi.getD 0), (19, d.pi.getD 0), (20, d.tpc.getD 0),
      (21, d.downlinkIndex.getD 0), (22, d.nGap.getD 0), (23, d.tbsIndex.getD 0),
      (24, d.powerOffset.getD 0), (25, d.prachFlag.getD 0), (26, d.preambleIndex.getD 0),
      (27, d.prachMask.getD 0), (28, d.rntiType), (29, d.power)]

def countBits (x : BitVec 32) (js : List ℕ) : ℕ := js.countP fun j ↦ x.getLsbD j

def convNprb (raHeader rbAlloc nRbDl : BitVec 32) : ℕ :=
  if nRbDl = 6 then countBits rbAlloc (List.range' 0 6)
  else if nRbDl = 25 then
    if raHeader = 0 then 2 * countBits rbAlloc (List.range' 1 12) + countBits rbAlloc [0]
    else if raHeader = 2 then
      let rbStart := rbAlloc.toNat % 25
      let nprb := rbAlloc.toNat / 25 + 1
      if rbStart + nprb > 25 then 25 - rbStart else nprb
    else countBits rbAlloc (List.range' 2 11)
  else if nRbDl = 50 then
    if raHeader = 0 then 3 * countBits rbAlloc (List.range' 1 16) + 2 * countBits rbAlloc [0]
    else countBits rbAlloc (List.range' 2 17)
  else if nRbDl = 100 then
    if raHeader = 0 then 4 * countBits rbAlloc (List.range' 0 25)
    else countBits rbAlloc (List.range' 2 25)
  else 0

/-- The length is rounded up to the first block size, in the order of the table, that is not
below it; the length in bits is computed in 32 bits. -/
def correctTbs (nprb : ℕ) (length : BitVec 32) : BitVec 32 :=
  if 0 < nprb ∧ nprb < 110 then
    match (tbsColumn nprb).find? fun tbs ↦ (length <<< 3).toNat ≤ tbs with
    | some tbs => .ofNat 32 (tbs / 8)
    | none => length
  else length

def Dlsch.nprb (cfg : Config) (d : Dlsch) : ℕ :=
  convNprb d.raType d.rbCoding cfg.dlChannelBandwidth

def Dlsch.tbLength (cfg : Config) (d : Dlsch) : BitVec 32 :=
  correctTbs (d.nprb cfg) d.pdu.size

def calloc (n : ℕ) : List UInt8 := List.replicate n 0

/-- A copy to the start of an allocated block; behind its end the behaviour is undefined. -/
def memcpy (dst src : List UInt8) : Option (List UInt8) :=
  if src.length ≤ dst.length then some (src ++ dst.drop src.length) else none

def Dlsch.tbData (cfg : Config) (d : Dlsch) : Option (List UInt8) :=
  memcpy (calloc (d.tbLength cfg).toNat) d.pdu.buf

def OctetString.block (s : OctetString) : ℕ → UInt8 := fun k ↦ s.buf.getD k 0

def firstSegment : Fin fapiTxMaxSegments := ⟨0, by decide⟩

def setFirstTb (t : TxPdu) (f : Tb → Tb) : TxPdu :=
  { t with tbs := Function.update t.tbs firstSegment (f (t.tbs firstSegment)) }

def parseP7DlCfgDlsch (d : Dlsch) (w : DlConfigPdu) : DlConfigPdu :=
  setWords w
    [(2, 0), (3, 0), (4, d.rnti), (5, d.raType), (6, d.vrbFlag.getD 0), (7, d.rbCoding),
      (8, d.modulation), (9, d.rv), (10, d.tb), (11, d.tbSwap.getD 0), (12, d.txScheme.getD 0),
      (13, d.nLayers.getD 1), (14, d.nSubbands.getD 0), (28, d.ueCategory.getD 0),
      (29, d.pA.getD 0), (30, d.deltaPower.getD 0), (31, d.nGap.getD 0), (32, d.nPrb.getD 0),
      (33, d.tm.getD 0)]

def parseP7DlCfgDlschTx (cfg : Config) (d : Dlsch) : Option (TxPdu → TxPdu) := do
  let data ← d.tbData cfg
  some fun t ↦ setFirstTb { t with numSegments := 1 } fun tb ↦
    { tb with tag := 1, length := d.tbLength cfg, block := fun k ↦ data.getD k 0 }

def appendPdu (r : DlConfigRequest) (pdu : DlConfigPdu → DlConfigPdu) (tx : TxPdu → TxPdu) :
    Option DlConfigRequest := do
  let pdus ← setEntry r.dlConfigPduList r.numberPdu pdu
  let txs ← setEntry r.txRequestPduList r.numberTxReq tx
  some { r with
    dlConfigPduList := pdus
    txRequestPduList := txs
    numberPdu := r.numberPdu + 1
    numberTxReq := r.numberTxReq + 1 }

def parseElement (cfg : Config) (r : DlConfigRequest) : Element → Option DlConfigRequest
  | .dci d => do
    let dcis ← setEntry r.dlConfigDciList r.numberDci fun w ↦
      setWords (parseP7DlCfgDci d w) [(0, fapiDlConfigDciDlPduType)]
    some { r with dlConfigDciList := dcis, numberDci := r.numberDci + 1 }
  | .bch b =>
    if cfg.autoMib then some r
    else if r.numberPdu ≠ 0 then some r
    else
      appendPdu r
        (fun w ↦
          setWords w [(0, fapiDlConfigBchPduType), (pduIndexWord, r.numberTxReq), (4, b.power)])
        (fun t ↦ setFirstTb { t with pduIndex := r.numberTxReq } fun tb ↦
          { tb with tag := 1, length := b.pdu.size, block := b.pdu.block })
  | .dlsch d => do
    let tx ← parseP7DlCfgDlschTx cfg d
    appendPdu r
      (fun w ↦ setWords (parseP7DlCfgDlsch d w)
        [(0, fapiDlConfigDlschPduType), (pduIndexWord, r.numberTxReq)])
      (fun t ↦ { tx t with pduIndex := r.numberTxReq })
  | .unknown => some r

def zeroTx : TxPdu := ⟨0, 0, 0, fun _ ↦ ⟨0, 0, 0, fun _ ↦ 0⟩⟩

def zeroDl : DlConfigRequest :=
  ⟨0, 0, 0, 0, 0, 0, 0, 0, 0, fun _ _ ↦ 0, fun _ _ ↦ 0, fun _ ↦ zeroTx, fun _ _ ↦ 0, fun _ _ ↦ 0⟩

def zeroUl : UlConfigRequest := ⟨0, 0, 0, 0, 0, fun _ _ ↦ 0⟩

/-- The request and the return value; without `pdus` a null pointer is followed. -/
def parseP7DlCfg (cfg : Config) (m : Member) : Option (DlConfigRequest × ℤ) := do
  let pdus ← m.pdus
  let r ← pdus.foldlM (parseElement cfg) { zeroDl with numberPdcchOfdmSymbols := m.cfi }
  some (r, if r.numberPdu ≠ r.numberTxReq then -1 else 0)

def parseP7UlCfg : UlConfigRequest × ℤ := (zeroUl, 0)

structure StimItem where
  tti : BitVec 32
  dlCfgReqList : DlConfigRequest
  ulCfgReqList : UlConfigRequest

/-- `l2_fapi_generator_app_parse_p7`: the list of the items and the return value. -/
def parseP7 (cfg : Config) : List Member → Option (List StimItem × ℤ)
  | [] => some ([], 0)
  | m :: ms => do
    let dl ← parseP7DlCfg cfg m
    if dl.2 ≠ 0 then some ([], -1)
    else if parseP7UlCfg.2 ≠ 0 then some ([], -1)
    else do
      let rest ← parseP7 cfg ms
      some (⟨m.tti, dl.1, parseP7UlCfg.1⟩ :: rest.1, rest.2)

end EnbL1Ppc.Generator
