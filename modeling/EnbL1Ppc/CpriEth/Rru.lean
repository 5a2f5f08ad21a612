import Mathlib.Tactic.Common
import EnbL1Ppc.CpriEth.Ir

namespace EnbL1Ppc.CpriEth

inductive RruState
  | none | init | connected | connEstRecv | connSetupSent | connSetupAck | needParamsConfig
  | waitParamsConfigResp | waitCellConfigResp | waitCellClearResp | wait | ready
  deriving DecidableEq

/-- An entry of `rrus` in the configuration file; `ip` is what `inet_aton` makes of it. -/
structure RruConfig where
  ip : Option UInt32
  freqDl : ℤ
  freqUl : ℤ
  powerDbm : ℤ
  deriving DecidableEq

structure RfConfig where
  dlChannelBandwidth : ℕ
  txAntennaPorts : ℕ

/-- What the manager reads from outside while it handles an event. `fdd` is the build option
`ENABLE_CPRI_ETH_FDD`. -/
structure Env where
  fdd : Bool
  rrus : List RruConfig
  rf : RfConfig
  now : SystemTime

structure Rru where
  id : UInt8
  bbuId : UInt8
  port : UInt8
  fd : ℤ
  state : RruState
  timer : ℕ
  mac : List UInt8
  ip : UInt32
  cfg : Option RruConfig
  timeout : ℕ
  serialOut : UInt32
  needReset : Bool
  ie1 : List UInt8
  deriving DecidableEq

def Rru.zero : Rru where
  id := 0
  bbuId := 0
  port := 0
  fd := 0
  state := .none
  timer := 0
  mac := List.replicate 6 0
  ip := 0
  cfg := none
  timeout := 0
  serialOut := 0
  needReset := false
  ie1 := List.replicate 100 0

abbrev Handled := Rru × List IrMsg

section Senders

variable (env : Env) (rru : Rru)

/-- The header that all senders fill in, in front of their information elements. -/
def message (msgNo : ℕ) (ies : List Ie) : IrMsg where
  msgNo := msgNo
  msgLen := msgHeaderSize + (ies.map Ie.len).sum
  rruId := rru.id
  bbuId := rru.bbuId
  port := rru.port
  flow := rru.serialOut
  ies := ies

/-- `hdr->flow = rru->serial_out++` and `send`. -/
def sendMessage (msgNo : ℕ) (ies : List Ie) : Handled :=
  ({ rru with serialOut := rru.serialOut + 1 }, [message rru msgNo ies])

def sendAndWait (msgNo : ℕ) (ies : List Ie) (state : RruState) : Handled :=
  let r := sendMessage rru msgNo ies
  ({ r.1 with state := state, timeout := 0 }, r.2)

def sendChannelEstablishmentConfig : Handled :=
  sendAndWait rru msgChannelEstablishmentConfig
    [.ie11 env.now, .ie12 [192, 168, 31, 1], .ie13 0, .ie14 0 0, .ie504 1] .connSetupSent

def sendBbuHeartbeat : Handled :=
  sendMessage rru msgBbuHeartbeat []

def sendRruResetReq : Handled :=
  sendMessage rru irMsgRruResetReq [.ie1301 0]

def parameterIes (rf : RfConfig) : List Ie :=
  [.ie501 1 1 0 0] ++
    (if rf.dlChannelBandwidth = 25 then [.ie501 1 1 1 0] else []) ++
    (if rf.txAntennaPorts = 2 then
      [.ie501 1 2 2 0] ++ if rf.dlChannelBandwidth = 25 then [.ie501 1 2 3 0] else []
    else []) ++
    [if rf.txAntennaPorts = 2 then .ie507 1 1 0xfc 0xfc
      else if rf.txAntennaPorts = 1 then .ie507 1 1 0xfe 0xfe
      else .ie507 1 1 0 0]

def sendParameterConfiguration : Handled :=
  sendAndWait rru irMsgRruParametersConfigurationReq (parameterIes env.rf) .waitParamsConfigResp

def sendCellClearTdd : Handled :=
  sendAndWait rru irMsgRruCellConfigurationReq
    [.ie1501 1 1 20 1 1, .ie1502 1 1 1 23500 0 20 0] .waitCellClearResp

def sendCellClearFdd : Handled :=
  sendAndWait rru irMsgRruCellConfigurationReq
    [.ie1501 2 1 20 1 1, .ie1503 2 1 1 4650 4550 0 5 5 0] .waitCellClearResp

def bandwidthTdd (rf : RfConfig) : UInt32 :=
  if rf.dlChannelBandwidth = 15 then 3
  else if rf.dlChannelBandwidth = 25 then 5
  else if rf.dlChannelBandwidth = 50 then 10
  else if rf.dlChannelBandwidth = 100 then 20
  else 0

def bandwidthFdd (rf : RfConfig) : UInt32 :=
  if rf.dlChannelBandwidth = 15 then 3 else if rf.dlChannelBandwidth = 25 then 5 else 0

def powerField (cfg : RruConfig) : UInt16 :=
  UInt16.ofInt (cfg.powerDbm * 256)

/-- The cell configuration requests read `rru->cfg`; `none` is the access through `NULL`. -/
def sendCellConfigurationTdd : Option Handled :=
  rru.cfg.map fun cfg ↦ sendAndWait rru irMsgRruCellConfigurationReq
    [.ie1501 0 1 (powerField cfg) 1 1,
      .ie1502 2 1 1 (UInt32.ofInt cfg.freqDl) 0 (bandwidthTdd env.rf) 0] .waitCellConfigResp

def sendCellConfigurationFdd : Option Handled :=
  rru.cfg.map fun cfg ↦ sendAndWait rru irMsgRruCellConfigurationReq
    [.ie1501 0 1 (powerField cfg) 1 1,
      .ie1503 0 1 1 (UInt32.ofInt (cfg.freqDl.tdiv 100000)) (UInt32.ofInt (cfg.freqUl.tdiv 100000))
        0 (bandwidthFdd env.rf) (bandwidthFdd env.rf) 0] .waitCellConfigResp

def sendDelayMeasure : Handled :=
  sendAndWait rru irMsgRruDelayMeasureReq [.ie901 0] .waitCellConfigResp

def sendDelayConfiguration : Handled :=
  sendAndWait rru irMsgRruDelayConfigReq [.ie921 0 (943 + 2573) (943 + 2426) 256 24240 40227]
    .waitCellConfigResp

end Senders

/-- The loop over the information elements of a channel establishment request. An element of
length 0 is read again and again. -/
def establishmentLoop (m : Mem) (len : ℤ) (off : ℕ) (ie1 : List UInt8) : Option (List UInt8) :=
  if _h : (off : ℤ) < len ∧ m.u16 (off + 2) ≠ 0 then
    establishmentLoop m len (off + m.u16 (off + 2))
      (if m.u16 off = 1 ∧ m.u16 (off + 2) = 100 then m.bytes off 100 else ie1)
  else if (off : ℤ) < len then none
  else some ie1
termination_by (len - off).toNat
decreasing_by omega

section Handlers

variable (env : Env) (rru : Rru) (m : Mem) (len : ℤ)

def processChannelEstablishmentReq : Option Handled :=
  (establishmentLoop m len msgHeaderSize rru.ie1).map fun ie1 ↦
    sendChannelEstablishmentConfig env
      { rru with id := m 8, bbuId := m 9, port := m 10, ie1 := ie1 }

def processChannelEstablishmentResp : Handled :=
  if m.u16 msgHeaderSize ≠ 21 then (rru, [])
  else if rru.needReset then
    let r := sendRruResetReq { rru with state := .connSetupAck, timeout := 0 }
    ({ r.1 with needReset := false }, r.2)
  else sendDelayMeasure { rru with state := .connSetupAck, timeout := 0 }

def processRruInitCalibrationReport : Handled :=
  if env.fdd then sendCellClearFdd rru else sendCellClearTdd rru

def processDelayMeasureResp : Handled :=
  if m.u16 msgHeaderSize ≠ 911 then (rru, [])
  else sendDelayConfiguration { rru with state := .connSetupAck, timeout := 0 }

def processDelayConfigurationResp : Handled :=
  if m.u16 msgHeaderSize ≠ 931 then (rru, [])
  else sendParameterConfiguration env { rru with timeout := 0 }

def processRruHeartbeat : Handled :=
  let r := sendBbuHeartbeat rru
  ({ r.1 with timeout := 0 }, r.2)

def processRruResetEvent : Handled :=
  ({ rru with timeout := 0 }, [])

def processParameterConfigurationResp : Handled :=
  (rru, [])

def processCellClearResp : Option Handled :=
  if env.fdd then sendCellConfigurationFdd env rru else sendCellConfigurationTdd env rru

def processCellConfigurationResp : Handled :=
  ({ rru with state := .ready, timeout := 0 }, [])

/-- The test `len < sizeof(ir_msg_header_t)` is made on unsigned numbers, so that the length -1
of a failed read passes it. -/
def longEnough : Bool :=
  len < 0 ∨ msgHeaderSize ≤ len

def processRruMessage : Option Handled :=
  if longEnough len = false then some (rru, [])
  else
    match rruMsg (m.u32 0) with
    | .channelEstablishmentReq => processChannelEstablishmentReq env rru m len
    | .channelEstablishmentResp => some (processChannelEstablishmentResp rru m)
    | .parametersConfigurationResp => some (processParameterConfigurationResp rru)
    | .cellConfigurationResp =>
      if rru.state = .waitCellClearResp then processCellClearResp env rru
      else some (processCellConfigurationResp rru)
    | .delayMeasureResp => some (processDelayMeasureResp rru m)
    | .delayConfigResp => some (processDelayConfigurationResp env rru m)
    | .heartbeat => some (processRruHeartbeat rru)
    | .alarmReport => some (processRruResetEvent rru)
    | .calibrationReport =>
      if rru.state ≠ .ready then some (processRruInitCalibrationReport env rru) else some (rru, [])
    | .unknown => some (rru, [])

def receiveMessage : Option Handled :=
  (processRruMessage env rru m len).map fun r ↦ ({ r.1 with timeout := 0 }, r.2)

end Handlers

def RruState.inSetup : RruState → Bool
  | .none | .init | .connected | .ready => false
  | _ => true

structure Kept (r r' : Rru) : Prop where
  fd : r'.fd = r.fd
  ip : r'.ip = r.ip
  state : r'.state = r.state ∨ r'.state.inSetup = true

theorem Kept.refl (r : Rru) : Kept r r :=
  ⟨rfl, rfl, .inl rfl⟩

theorem Kept.eq_of_not_inSetup {r r' : Rru} (h : Kept r r') (hr : r'.state.inSetup = false) :
    r.state = r'.state := by
  rcases h.state with h | h
  · exact h.symm
  · rw [h] at hr
    cases hr

theorem Kept.ne_none {r r' : Rru} (h : Kept r r') (hr : r.state ≠ .none) : r'.state ≠ .none := by
  intro hn
  exact hr ((h.eq_of_not_inSetup (by rw [hn]; rfl)).trans hn)

/-- The message in the buffer is a cell configuration response that is not taken as the answer
to a cell clear request. -/
def Confirms (r : Rru) (m : Mem) (len : ℤ) : Prop :=
  longEnough len = true ∧ rruMsg (m.u32 0) = .cellConfigurationResp ∧
    r.state ≠ .waitCellClearResp

theorem receiveMessage_confirms {env : Env} {r : Rru} {m : Mem} {len : ℤ}
    (h : Confirms r m len) :
    receiveMessage env r m len = some ({ r with state := .ready, timeout := 0 }, []) := by
  simp [receiveMessage, processRruMessage, h.1, h.2.1, h.2.2, processCellConfigurationResp]

inductive Reaction (env : Env) (r : Rru) (m : Mem) (len : ℤ) : Handled → Prop
  | quiet (timeout : ℕ) : Reaction env r m len ({ r with timeout := timeout }, [])
  | established (hlen : longEnough len = true)
      (hmsg : rruMsg (m.u32 0) = .channelEstablishmentReq) (ie1 : List UInt8) :
      Reaction env r m len (sendChannelEstablishmentConfig env
        { r with id := m 8, bbuId := m 9, port := m 10, ie1 := ie1 })
  | cleared (hlen : longEnough len = true) (hmsg : rruMsg (m.u32 0) = .cellConfigurationResp)
      (hstate : r.state = .waitCellClearResp) (ies : List Ie) :
      Reaction env r m len (sendAndWait r irMsgRruCellConfigurationReq ies .waitCellConfigResp)
  | confirmed (h : Confirms r m len) :
      Reaction env r m len ({ r with state := .ready, timeout := 0 }, [])
  | asked (state : RruState) (timeout : ℕ) (needReset : Bool) (y : IrMsg)
      (hstate : state = r.state ∨ state.inSetup = true) (hy : y.isEstablish = false) :
      Reaction env r m len ({ r with
        state := state, timeout := timeout, needReset := needReset,
        serialOut := r.serialOut + 1 }, [y])

section Reactions

variable {env : Env} {r : Rru} {m : Mem} {len : ℤ} {h : Handled}

theorem sendAndWait_reaction {msgNo : ℕ} {ies : List Ie} {state : RruState} (t : ℕ)
    (old : RruState) (hstate : state.inSetup = true)
    (hy : (message r msgNo ies).isEstablish = false) :
    Reaction env r m len
      (sendAndWait { r with state := old, timeout := t } msgNo ies state) :=
  .asked state 0 r.needReset _ (.inr hstate) hy

theorem processChannelEstablishmentResp_reaction :
    Reaction env r m len (processChannelEstablishmentResp r m) := by
  unfold processChannelEstablishmentResp
  split_ifs
  · exact .quiet r.timeout
  · exact .asked .connSetupAck 0 false _ (.inr rfl) rfl
  · exact sendAndWait_reaction 0 .connSetupAck rfl rfl

theorem processDelayMeasureResp_reaction : Reaction env r m len (processDelayMeasureResp r m) := by
  unfold processDelayMeasureResp
  split_ifs
  · exact .quiet r.timeout
  · exact sendAndWait_reaction 0 .connSetupAck rfl rfl

theorem processDelayConfigurationResp_reaction :
    Reaction env r m len (processDelayConfigurationResp env r m) := by
  unfold processDelayConfigurationResp
  split_ifs
  · exact .quiet r.timeout
  · exact sendAndWait_reaction 0 r.state rfl rfl

theorem processRruInitCalibrationReport_reaction :
    Reaction env r m len (processRruInitCalibrationReport env r) := by
  unfold processRruInitCalibrationReport
  split_ifs
  · exact sendAndWait_reaction r.timeout r.state rfl rfl
  · exact sendAndWait_reaction r.timeout r.state rfl rfl

theorem processCellClearResp_reaction (hlen : longEnough len = true)
    (hmsg : rruMsg (m.u32 0) = .cellConfigurationResp) (hstate : r.state = .waitCellClearResp)
    (hp : processCellClearResp env r = some h) : Reaction env r m len h := by
  unfold processCellClearResp at hp
  split_ifs at hp
  · obtain ⟨cfg, -, rfl⟩ := Option.map_eq_some_iff.1 hp
    exact .cleared hlen hmsg hstate _
  · obtain ⟨cfg, -, rfl⟩ := Option.map_eq_some_iff.1 hp
    exact .cleared hlen hmsg hstate _

theorem processRruMessage_reaction (hp : processRruMessage env r m len = some h) :
    Reaction env r m len h := by
  unfold processRruMessage at hp
  split at hp
  · cases hp
    exact .quiet r.timeout
  next hshort =>
    have hlen : longEnough len = true := by simpa using hshort
    split at hp
    · next hmsg =>
      obtain ⟨ie1, -, rfl⟩ := Option.map_eq_some_iff.1 hp
      exact .established hlen hmsg ie1
    · cases hp
      exact processChannelEstablishmentResp_reaction
    · cases hp
      exact .quiet r.timeout
    · next hmsg =>
      split at hp
      · next hstate => exact processCellClearResp_reaction hlen hmsg hstate hp
      · next hstate =>
        cases hp
        exact .confirmed ⟨hlen, hmsg, hstate⟩
    · cases hp
      exact processDelayMeasureResp_reaction
    · cases hp
      exact processDelayConfigurationResp_reaction
    · cases hp
      exact .asked r.state 0 r.needReset _ (.inl rfl) rfl
    · cases hp
      exact .quiet 0
    · split at hp
      · cases hp
        exact processRruInitCalibrationReport_reaction
      · cases hp
        exact .quiet r.timeout
    · cases hp
      exact .quiet r.timeout

theorem receiveMessage_kept (hr : receiveMessage env r m len = some h)
    (hc : ¬ Confirms r m len) : Kept r h.1 := by
  obtain ⟨h, hp, rfl⟩ := Option.map_eq_some_iff.1 hr
  cases processRruMessage_reaction hp with
  | quiet => exact ⟨rfl, rfl, .inl rfl⟩
  | established => exact ⟨rfl, rfl, .inr rfl⟩
  | cleared => exact ⟨rfl, rfl, .inr rfl⟩
  | confirmed h => exact absurd h hc
  | asked state timeout needReset y hstate => exact ⟨rfl, rfl, hstate⟩

end Reactions

end EnbL1Ppc.CpriEth
