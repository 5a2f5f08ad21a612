import EnbL1Ppc.Generator.Linkage

namespace EnbL1Ppc.Generator

open Lib Fapi.Requests

structure PbchPdu where
  b0 : UInt8
  b1 : UInt8
  b2 : UInt8
  b3 : UInt8

def lowByte (x : BitVec 32) : UInt8 := .ofNat x.toNat

/-- The assignments of `phy_common_encode_bch` to `pbch_pdu`, in their order. -/
def PbchPdu.fill (cfg : Config) (frame : BitVec 32) (b : PbchPdu) : PbchPdu :=
  let b := { b with b0 := lowByte (bandwidthCode cfg.dlChannelBandwidth <<< 5) }
  let b := { b with b0 := b.b0 ||| lowByte (cfg.phichDuration <<< 4 &&& 0x10) }
  let b := { b with b0 := b.b0 ||| lowByte (cfg.phichResource <<< 2) }
  let b := { b with b0 := b.b0 ||| lowByte (frame >>> 8 &&& 0x3) }
  let b := { b with b1 := lowByte (frame &&& 0xfc) }
  { b with b2 := 0 }

def PbchPdu.sent (b : PbchPdu) : List UInt8 := [b.b0, b.b1, b.b2]

theorem lowByte_or (x y : BitVec 32) : lowByte (x ||| y) = lowByte x ||| lowByte y := by
  rw [lowByte, BitVec.toNat_or, UInt8.ofNat_or]
  rfl

theorem PbchPdu.sent_fill (cfg : Config) (frame : BitVec 32) (b : PbchPdu) :
    (b.fill cfg frame).sent = pbchPdu cfg frame := by
  change [_, lowByte (frame &&& 0xfc), 0] = [lowByte _, lowByte (frame &&& 0xfc), 0]
  rw [lowByte_or, lowByte_or, lowByte_or]
  rfl

/-! The layout of the MIB -/

structure Mib where
  dlBandwidth : ℕ
  phichDuration : ℕ
  phichResource : ℕ
  systemFrameNumber : ℕ
  spare : ℕ
  deriving DecidableEq

/-- The 24 bits, the most significant first: 3 of `dl-Bandwidth`, 1 of `phich-Duration`, 2 of
`phich-Resource`, 8 of `systemFrameNumber` and 10 that are spare. -/
def decodeMib : List UInt8 → Option Mib
  | [b0, b1, b2] =>
    let bits := b0.toNat * 2 ^ 16 + b1.toNat * 2 ^ 8 + b2.toNat
    some ⟨bits / 2 ^ 21, bits / 2 ^ 20 % 2, bits / 2 ^ 18 % 4, bits / 2 ^ 10 % 2 ^ 8,
      bits % 2 ^ 10⟩
  | _ => none

def dlBandwidths : List (BitVec 32) := [6, 15, 25, 50, 75, 100]

/-- The MIB of a cell: `systemFrameNumber` has the 8 most significant bits of the frame. -/
def cellMib (cfg : Config) (frame : BitVec 32) : Mib :=
  ⟨dlBandwidths.idxOf cfg.dlChannelBandwidth, cfg.phichDuration.toNat, cfg.phichResource.toNat,
    frame.toNat / 4, 0⟩

theorem firstByte_eq : ∀ code < 8, ∀ duration < 2, ∀ resource < 4, ∀ top < 4,
    code <<< 5 % 2 ^ 32 ||| duration <<< 4 % 2 ^ 32 &&& 16 ||| resource <<< 2 % 2 ^ 32 |||
      top &&& 3 = code * 32 + duration * 16 + resource * 4 + top := by
  decide

theorem secondByte_eq (k : ℕ) : 4 * k &&& 0xfc = 4 * k % 256 := by
  have hshift : 4 * k = k <<< 2 := by
    rw [Nat.shiftLeft_eq, Nat.mul_comm]
  calc 4 * k &&& 0xfc
    _ = k <<< 2 &&& (2 ^ 6 - 1) <<< 2 := congrArg (· &&& 0xfc) hshift
    _ = (k &&& (2 ^ 6 - 1)) <<< 2 := Nat.shiftLeft_and_distrib.symm
    _ = 4 * k % 256 := by
      rw [Nat.and_two_pow_sub_one_eq_mod, Nat.shiftLeft_eq]
      omega

theorem bandwidthCode_lt (bandwidth : BitVec 32) : (bandwidthCode bandwidth).toNat < 8 := by
  unfold bandwidthCode
  split_ifs <;> decide

variable {cfg : Config} {frame : BitVec 32}

theorem decodeMib_pbchPdu (hduration : cfg.phichDuration.toNat < 2)
    (hresource : cfg.phichResource.toNat < 4) (hframe : frame.toNat < 1024)
    (hdvd : 4 ∣ frame.toNat) :
    decodeMib (pbchPdu cfg frame) = some ⟨(bandwidthCode cfg.dlChannelBandwidth).toNat,
      cfg.phichDuration.toNat, cfg.phichResource.toNat, frame.toNat / 4, 0⟩ := by
  have hcode := bandwidthCode_lt cfg.dlChannelBandwidth
  have htop : frame.toNat >>> 8 = frame.toNat / 256 := Nat.shiftRight_eq_div_pow _ _
  have hfirst : (bandwidthCode cfg.dlChannelBandwidth <<< 5 ||| (cfg.phichDuration <<< 4 &&& 0x10) |||
      cfg.phichResource <<< 2 ||| (frame >>> 8 &&& 0x3)).toNat =
        (bandwidthCode cfg.dlChannelBandwidth).toNat * 32 + cfg.phichDuration.toNat * 16 +
          cfg.phichResource.toNat * 4 + frame.toNat / 256 := by
    simp only [BitVec.toNat_or, BitVec.toNat_and, BitVec.toNat_shiftLeft, BitVec.toNat_ushiftRight]
    rw [← firstByte_eq _ hcode _ hduration _ hresource _ (show frame.toNat / 256 < 4 by omega), htop]
    rfl
  have hsecond : (frame &&& 0xfc).toNat = frame.toNat % 256 := by
    obtain ⟨k, hk⟩ := hdvd
    rw [BitVec.toNat_and, hk]
    exact secondByte_eq k
  rw [pbchPdu, hfirst, hsecond, decodeMib]
  simp only [UInt8.toNat_ofNat', UInt8.toNat_zero, Option.some.injEq, Mib.mk.injEq]
  omega

theorem bandwidthCode_eq_idxOf_iff {bandwidth : BitVec 32} (h : bandwidth ∈ dlBandwidths) :
    (bandwidthCode bandwidth).toNat = dlBandwidths.idxOf bandwidth ↔
      bandwidth ≠ 75 ∧ bandwidth ≠ 100 := by
  revert bandwidth
  simp only [dlBandwidths, List.forall_mem_cons]
  exact ⟨by decide, by decide, by decide, by decide, by decide, by decide, by simp⟩

theorem decodeMib_eq_cellMib_iff (hbandwidth : cfg.dlChannelBandwidth ∈ dlBandwidths)
    (hduration : cfg.phichDuration.toNat < 2) (hresource : cfg.phichResource.toNat < 4)
    (hframe : frame.toNat < 1024) (hdvd : 4 ∣ frame.toNat) :
    decodeMib (pbchPdu cfg frame) = some (cellMib cfg frame) ↔
      cfg.dlChannelBandwidth ≠ 75 ∧ cfg.dlChannelBandwidth ≠ 100 := by
  rw [decodeMib_pbchPdu hduration hresource hframe hdvd, cellMib, Option.some.injEq,
    Mib.mk.injEq, ← bandwidthCode_eq_idxOf_iff hbandwidth]
  simp only [and_true]

/-! The MIB in TX.request -/

theorem encodeBch_txData {s : DlConfigRequest × BitVec 32}
    {t : DlConfigRequest × Option (List UInt8)} (hdvd : 4 ∣ frame.toNat)
    (h : phyCommonEncodeBch cfg frame 0 s = some t) :
    ∃ tx, t.1.txPdus = s.1.txPdus ++ [tx] ∧ txData tx = pbchPdu cfg frame := by
  have hand : frame &&& 3 = 0 := by
    refine BitVec.eq_of_toNat_eq ?_
    rw [BitVec.toNat_and]
    exact (Nat.and_two_pow_sub_one_eq_mod frame.toNat 2).trans (Nat.mod_eq_zero_of_dvd hdvd)
  rw [phyCommonEncodeBch, if_neg (not_not_intro rfl), if_pos hand] at h
  obtain ⟨r, hr, h⟩ := Option.bind_eq_some_iff.1 h
  obtain rfl := Option.some.inj h
  obtain ⟨w, tx, ha⟩ := appendPdu_eq_some hr
  refine ⟨_, ha.txPdus, ?_⟩
  have hblock (u : TxPdu) : HasBlock (setFirstTb { u with numSegments := 1 } fun tb ↦
      { tb with length := 3, tag := 1, block := fun k ↦ (pbchPdu cfg frame).getD k 0 }) 3
      fun k ↦ (pbchPdu cfg frame).getD k 0 := by
    constructor <;> simp [setFirstTb]
  exact (hblock _).txData_eq

/-- Whatever `pbch_pdu` held before, the bits that are sent are the MIB of the cell exactly if the
bandwidth is neither 75 nor 100 resource blocks. -/
theorem mib_decodes_iff (prev : PbchPdu) (hbandwidth : cfg.dlChannelBandwidth ∈ dlBandwidths)
    (hduration : cfg.phichDuration.toNat < 2) (hresource : cfg.phichResource.toNat < 4)
    (hframe : frame.toNat < 1024) (hdvd : 4 ∣ frame.toNat) {s : DlConfigRequest × BitVec 32}
    {t : DlConfigRequest × Option (List UInt8)} (h : phyCommonEncodeBch cfg frame 0 s = some t) :
    ∃ tx, t.1.txPdus = s.1.txPdus ++ [tx] ∧ txData tx = (prev.fill cfg frame).sent ∧
      (decodeMib (txData tx) = some (cellMib cfg frame) ↔
        cfg.dlChannelBandwidth ≠ 75 ∧ cfg.dlChannelBandwidth ≠ 100) := by
  obtain ⟨tx, htx, hdata⟩ := encodeBch_txData hdvd h
  refine ⟨tx, htx, ?_, ?_⟩
  · rw [hdata, prev.sent_fill]
  · rw [hdata]
    exact decodeMib_eq_cellMib_iff hbandwidth hduration hresource hframe hdvd

section Example

def mibConfig (bandwidth : BitVec 32) : Config := ⟨true, bandwidth, 1, 2⟩

theorem mib_decodes_iff_fiveMhz :
    decodeMib ((PbchPdu.mk 255 255 255 255).fill (mibConfig 25) 1020).sent =
      some (cellMib (mibConfig 25) 1020) := by
  have h : phyCommonEncodeBch (mibConfig 25) 1020 0 (zeroDl, 0) = some _ := rfl
  obtain ⟨tx, -, hsent, hiff⟩ := mib_decodes_iff ⟨255, 255, 255, 255⟩ (by decide) (by decide)
    (by decide) (by decide) (by decide) h
  rw [← hsent]
  exact hiff.2 (by decide)

/-- 20 MHz are announced as 15 MHz. -/
theorem mib_twentyMhz :
    ∃ t tx, phyCommonEncodeBch (mibConfig 100) 0 0 (zeroDl, 0) = some t ∧ t.1.txPdus = [tx] ∧
      (decodeMib (txData tx)).map Mib.dlBandwidth = some (dlBandwidths.idxOf 75) ∧
      (cellMib (mibConfig 100) 0).dlBandwidth = dlBandwidths.idxOf 100 := by
  have h : phyCommonEncodeBch (mibConfig 100) 0 0 (zeroDl, 0) = some _ := rfl
  obtain ⟨tx, htx, hdata⟩ := encodeBch_txData (by decide) h
  refine ⟨_, tx, h, htx, ?_, rfl⟩
  rw [hdata]
  decide

end Example

end EnbL1Ppc.Generator
