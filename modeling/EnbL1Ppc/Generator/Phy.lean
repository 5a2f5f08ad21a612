import EnbL1Ppc.Generator.Stimulus
import EnbL1Ppc.Lib.Machine

namespace EnbL1Ppc.Generator

open Lib Fapi.Requests

def copyDci (r : DlConfigRequest) (w : DlConfigPdu) : Option DlConfigRequest :=
  if pduType w = fapiDlConfigDciDlPduType then do
    let dcis ← setEntry r.dlConfigDciList r.numberDci fun _ ↦ w
    some { r with dlConfigDciList := dcis, numberDci := r.numberDci + 1 }
  else some r

def phyCommonEncodePdcchDl (item : StimItem) (r : DlConfigRequest) : Option DlConfigRequest :=
  item.dlCfgReqList.dcis.foldlM copyDci r

/-- One turn of the loop of `phy_common_encode_pdsch`; the second component is
`tx_pdu_index`. -/
def copyPdu (s : DlConfigRequest × BitVec 32) (e : DlConfigPdu × TxPdu) :
    Option (DlConfigRequest × BitVec 32) :=
  if pduType e.1 = fapiDlConfigDlschPduType then do
    let r ← appendPdu s.1 (fun _ ↦ setWords e.1 [(pduIndexWord, s.2)])
      fun _ ↦ { e.2 with pduIndex := s.2 }
    some (r, s.2 + 1)
  else some s

def phyCommonEncodePdsch (item : StimItem) (s : DlConfigRequest × BitVec 32) :
    Option (DlConfigRequest × BitVec 32) :=
  let q := item.dlCfgReqList
  (q.pdus.zip (entries q.numberPdu q.txRequestPduList)).foldlM copyPdu s

def phyCommonEncodePusch (item : StimItem) (r : UlConfigRequest) : UlConfigRequest :=
  let q := item.ulCfgReqList
  { r with
    ulConfigList := fun i ↦ if i.val < q.numberPdu.toNat then q.ulConfigList i
      else r.ulConfigList i
    numberPdu := q.numberPdu }

def bandwidthCode (bandwidth : BitVec 32) : BitVec 32 :=
  if bandwidth = 6 then 0
  else if bandwidth = 15 then 1
  else if bandwidth = 25 then 2
  else if bandwidth = 50 then 3
  else if bandwidth = 100 then 4
  else 2

def pbchPdu (cfg : Config) (frame : BitVec 32) : List UInt8 :=
  [.ofNat (bandwidthCode cfg.dlChannelBandwidth <<< 5 ||| (cfg.phichDuration <<< 4 &&& 0x10) |||
      cfg.phichResource <<< 2 ||| (frame >>> 8 &&& 0x3)).toNat,
    .ofNat (frame &&& 0xfc).toNat, 0]

def phyCommonEncodeBch (cfg : Config) (frame sf : BitVec 32) (s : DlConfigRequest × BitVec 32) :
    Option (DlConfigRequest × Option (List UInt8)) :=
  if sf ≠ 0 then some (s.1, none)
  else if frame &&& 3 = 0 then do
    let mib := pbchPdu cfg frame
    let r ← appendPdu s.1
      (fun w ↦ setWords w [(0, fapiDlConfigBchPduType), (1, 12), (pduIndexWord, s.2), (2, 3)])
      (fun t ↦ setFirstTb { t with pduIndex := s.2, pduLength := 3, numSegments := 1 } fun tb ↦
        { tb with length := 3, tag := 1, block := fun k ↦ mib.getD k 0 })
    some (r, some mib)
  else some (s.1, none)

/-- `l2_fapi_generator_t`, with the request buffers of `fapi_scheduler.c`. -/
structure L2FapiGenerator where
  config : Config
  absTti : BitVec 32
  stimPtr : ℕ
  stimList : List StimItem
  schedDlConfigReq : Fin 10 → DlConfigRequest
  schedUlConfigReq : Fin 10 → UlConfigRequest

structure Indication where
  frame : BitVec 32
  subframe : BitVec 32

/-- What one TTI hands over: the item of the stimulus that it played, the MIB that it built and
the requests. -/
structure Sent where
  played : Option ℕ
  mib : Option (List UInt8)
  dl : DlConfigRequest
  ul : UlConfigRequest

def Sent.SendsTx (o : Sent) : Prop := 0 < o.dl.numberTxReq

def Sent.SendsHiDci0 (o : Sent) : Prop := 0 < o.dl.numberDci0 ∨ 0 < o.dl.numberHi

def nextAbsTti (g : L2FapiGenerator) (ind : Indication) : BitVec 32 :=
  if (g.absTti + 1) % 10 ≠ ind.subframe then ind.frame * 10 + ind.subframe else g.absTti + 1

def clearDl (ind : Indication) (r : DlConfigRequest) : DlConfigRequest :=
  { r with
    frame := ind.frame
    subframe := ind.subframe
    numberPdu := 0
    numberDci := 0
    numberTxReq := 0
    numberDci0 := 0
    numberHi := 0 }

def clearUl (ind : Indication) (r : UlConfigRequest) : UlConfigRequest :=
  { r with frame := ind.frame, subframe := ind.subframe, numberPdu := 0 }

def playItem (item : StimItem) (dl : DlConfigRequest) (ul : UlConfigRequest) :
    Option ((DlConfigRequest × BitVec 32) × UlConfigRequest) := do
  let dl ← phyCommonEncodePdcchDl item dl
  let s ← phyCommonEncodePdsch item (dl, 0)
  some (({ s.1 with numberPdcchOfdmSymbols := item.dlCfgReqList.numberPdcchOfdmSymbols }, s.2),
    { phyCommonEncodePusch item ul with srsPresent := 0 })

def due (g : L2FapiGenerator) (ind : Indication) (item : StimItem) : Bool :=
  item.tti.toNat = (nextAbsTti g ind).toNat % g.stimList.length

def playDue (g : L2FapiGenerator) (ind : Indication) (item : StimItem) (dl : DlConfigRequest)
    (ul : UlConfigRequest) : Option ((DlConfigRequest × BitVec 32) × UlConfigRequest) :=
  if due g ind item then playItem item dl ul else some ((dl, 0), ul)

def encodeMib (cfg : Config) (ind : Indication) (s : DlConfigRequest × BitVec 32) :
    Option (DlConfigRequest × Option (List UInt8)) :=
  if cfg.autoMib then phyCommonEncodeBch cfg ind.frame ind.subframe s else some (s.1, none)

def L2FapiGenerator.after (g : L2FapiGenerator) (ind : Indication) (item : StimItem) (sf : Fin 10)
    (dl : DlConfigRequest) (ul : UlConfigRequest) : L2FapiGenerator :=
  { g with
    absTti := nextAbsTti g ind
    stimPtr := if due g ind item then
        (if g.stimList.length ≤ g.stimPtr + 1 then 0 else g.stimPtr + 1)
      else g.stimPtr
    schedDlConfigReq := Function.update g.schedDlConfigReq sf { dl with
      numberPdu := 0
      numberDci := 0
      numberTxReq := 0
      numberDci0 := 0
      numberHi := 0 }
    schedUlConfigReq := Function.update g.schedUlConfigReq sf { ul with numberPdu := 0 } }

/-- One TTI of `phy_dispatcher_thread`. An empty stimulus and a subframe outside the frame make
it follow an invalid pointer. -/
def tti : Machine.Step L2FapiGenerator Indication Sent := fun g ind ↦
  if hsf : ind.subframe.toNat < 10 then do
    let sf : Fin 10 := ⟨ind.subframe.toNat, hsf⟩
    let item ← g.stimList[g.stimPtr]?
    let s ← playDue g ind item (clearDl ind (g.schedDlConfigReq sf))
      (clearUl ind (g.schedUlConfigReq sf))
    let m ← encodeMib g.config ind s.1
    some (g.after ind item sf m.1 s.2,
      [⟨if due g ind item then some g.stimPtr else none, m.2, m.1, s.2⟩])
  else none

end EnbL1Ppc.Generator
