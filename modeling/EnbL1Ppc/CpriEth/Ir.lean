import Mathlib.Algebra.GroupWithZero.Nat
import Mathlib.Data.Int.Notation
import Mathlib.Data.Nat.Notation

namespace EnbL1Ppc.CpriEth

/-- The memory from `recv_buf` on; its first 4096 bytes are the buffer. -/
abbrev Mem := ℕ → UInt8

def Mem.u16 (m : Mem) (off : ℕ) : ℕ :=
  (m off).toNat * 2 ^ 8 + (m (off + 1)).toNat

def Mem.u32 (m : Mem) (off : ℕ) : ℕ :=
  m.u16 off * 2 ^ 16 + m.u16 (off + 2)

def Mem.bytes (m : Mem) (off n : ℕ) : List UInt8 :=
  (List.range n).map fun k ↦ m (off + k)

/-- What `read` leaves in the buffer: the bytes in front, the old contents behind them. -/
def Mem.write (m : Mem) (chunk : List UInt8) : Mem :=
  fun k ↦ chunk.getD k (m k)

def msgHeaderSize : ℕ := 15

def msgChannelEstablishmentReq : ℕ := 1
def msgChannelEstablishmentConfig : ℕ := 2
def msgChannelEstablishmentResp : ℕ := 3
def irMsgRruParametersConfigurationReq : ℕ := 61
def irMsgRruParametersConfigurationResp : ℕ := 62
def irMsgRruInitCalibrationReport : ℕ := 71
def irMsgRruDelayMeasureReq : ℕ := 101
def irMsgRruDelayMeasureResp : ℕ := 102
def irMsgRruDelayConfigReq : ℕ := 103
def irMsgRruDelayConfigResp : ℕ := 104
def irMsgRruAlarmReport : ℕ := 111
def irMsgRruResetReq : ℕ := 141
def msgRruHeartbeat : ℕ := 171
def msgBbuHeartbeat : ℕ := 181
def irMsgRruCellConfigurationReq : ℕ := 193
def irMsgRruCellConfigurationResp : ℕ := 194
def irMsgRruResetEvent : ℕ := 221

inductive RruMsg
  | channelEstablishmentReq | channelEstablishmentResp | parametersConfigurationResp
  | cellConfigurationResp | delayMeasureResp | delayConfigResp | heartbeat | alarmReport
  | calibrationReport | unknown
  deriving DecidableEq

def rruMsg (msgNo : ℕ) : RruMsg :=
  if msgNo = msgChannelEstablishmentReq then .channelEstablishmentReq
  else if msgNo = msgChannelEstablishmentResp then .channelEstablishmentResp
  else if msgNo = irMsgRruParametersConfigurationResp then .parametersConfigurationResp
  else if msgNo = irMsgRruCellConfigurationResp then .cellConfigurationResp
  else if msgNo = irMsgRruDelayMeasureResp then .delayMeasureResp
  else if msgNo = irMsgRruDelayConfigResp then .delayConfigResp
  else if msgNo = msgRruHeartbeat then .heartbeat
  else if msgNo = irMsgRruAlarmReport then .alarmReport
  else if msgNo = irMsgRruInitCalibrationReport ∨ msgNo = irMsgRruResetEvent then
    .calibrationReport
  else .unknown

structure SystemTime where
  second : UInt8
  minute : UInt8
  hour : UInt8
  day : UInt8
  month : UInt8
  year : UInt16
  deriving DecidableEq

/-- The information elements that the manager sends, with the fields it fills in. The others
are zero. -/
inductive Ie
  | ie11 (t : SystemTime)
  | ie12 (bbuFtpAddr : List UInt8)
  | ie13 (status : UInt32)
  | ie14 (softwareType : UInt8) (result : UInt32)
  | ie504 (mode : UInt32)
  | ie501 (carrier antenna axc fiber : UInt8)
  | ie507 (mode group : UInt8) (uplink downlink : UInt16)
  | ie901 (port : UInt8)
  | ie921 (port : UInt8) (t12 t32 dlOffset dlCalRru ulCalRru : UInt32)
  | ie1301 (resetType : UInt32)
  | ie1501 (reason : UInt8) (cellId : UInt32) (power : UInt16) (antGroup nFreqs : UInt8)
  | ie1502 (reason : UInt8) (cellId : UInt32) (carrier : UInt8) (center type bandwidth : UInt32)
    (cpLength : UInt8)
  | ie1503 (reason : UInt8) (cellId : UInt32) (carrier : UInt8)
    (dlMidFreq ulMidFreq type dlBandwidth ulBandwidth : UInt32) (cpLength : UInt8)
  deriving DecidableEq

def Ie.len : Ie → ℕ
  | .ie11 _ => 11
  | .ie12 _ => 8
  | .ie13 _ => 8
  | .ie14 .. => 289
  | .ie504 _ => 8
  | .ie501 .. => 8
  | .ie507 .. => 10
  | .ie901 _ => 5
  | .ie921 .. => 25
  | .ie1301 _ => 8
  | .ie1501 .. => 13
  | .ie1502 .. => 29
  | .ie1503 .. => 31

structure IrMsg where
  msgNo : ℕ
  msgLen : ℕ
  rruId : UInt8
  bbuId : UInt8
  port : UInt8
  flow : UInt32
  ies : List Ie
  deriving DecidableEq

def Ie.isEstablish : Ie → Bool
  | .ie1501 reason .. => reason = 0
  | _ => false

def IrMsg.isEstablish (m : IrMsg) : Bool :=
  m.msgNo = irMsgRruCellConfigurationReq && m.ies.any Ie.isEstablish

end EnbL1Ppc.CpriEth
