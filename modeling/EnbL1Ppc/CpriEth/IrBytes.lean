import EnbL1Ppc.CpriEth.RruFraming
import EnbL1Ppc.Lib.Packed
import EnbL1Ppc.Lib.Tiling

namespace EnbL1Ppc.CpriEth

open Lib Lib.Packed Lib.Stores

/-! The packed structures of the Ir interface -/

def irMsgHeader : Struct := [4, 4, 1, 1, 1, 4]
def irIe1 : Struct := [2, 2, 16, 16, 16, 16, 16, 16]
def irIe2 : Struct := [2, 2, 1, 4]
def irIe3 : Struct := [2, 2, 4, 4, 1, 2, 1, 4, 4, 2, 1, 1, 1, 1, 1]
def irIe4 : Struct := [2, 2, 1]
def irIe5 : Struct := [2, 2, 32, 16]
def irIe6 : Struct := [2, 2, 40, 40]
def irIe7 : Struct := [2, 2, 2, 2, 2, 1, 1, 1]
def irIe8 : Struct := [2, 2, 1, 1, 1, 1, 1, 1, 2, 2, 1]
def irIe9 : Struct := [2, 2, 1, 1, 1, 1, 1, 1, 1, 1]
def irIe11 : Struct := [2, 2, 1, 1, 1, 1, 1, 2]
def irIe12 : Struct := [2, 2, 4]
def irIe13 : Struct := [2, 2, 4]
def irIe14 : Struct := [2, 2, 1, 4, 200, 16, 4, 20, 40]
def irIe21 : Struct := [2, 2, 4]
def irIe352 : Struct := [2, 2, 4, 4]
def irIe501 : Struct := [2, 2, 1, 1, 1, 1]
def irIe504 : Struct := [2, 2, 4]
def irIe507 : Struct := [2, 2, 1, 1, 2, 2]
def irIe701 : Struct := [2, 2, 4, 1, 1]
def irIe901 : Struct := [2, 2, 1]
def irIe911 : Struct := [2, 2, 1, 4, 4, 4, 4, 4, 4]
def irIe921 : Struct := [2, 2, 1, 4, 4, 4, 4, 4]
def irIe931 : Struct := [2, 2, 1, 1]
def irIe1301 : Struct := [2, 2, 4]
def irIe1501 : Struct := [2, 2, 1, 4, 2, 1, 1]
def irIe1502 : Struct := [2, 2, 1, 4, 1, 4, 4, 1, 4, 4, 1, 1]
def irIe1503 : Struct := [2, 2, 1, 4, 1, 4, 4, 4, 4, 4, 1]

def irIe (no : ℕ) : Option Struct :=
  [(1, irIe1), (2, irIe2), (3, irIe3), (4, irIe4), (5, irIe5), (6, irIe6), (7, irIe7),
    (8, irIe8), (9, irIe9), (11, irIe11), (12, irIe12), (13, irIe13), (14, irIe14),
    (21, irIe21), (352, irIe352), (501, irIe501), (504, irIe504), (507, irIe507),
    (701, irIe701), (901, irIe901), (911, irIe911), (921, irIe921), (931, irIe931),
    (1301, irIe1301), (1501, irIe1501), (1502, irIe1502), (1503, irIe1503)].lookup no

/-! What the senders write -/

def be8 (x : UInt8) : List UInt8 := [x]
def be16 (n : ℕ) : List UInt8 := [.ofNat (n / 2 ^ 8), .ofNat n]
def be32 (n : ℕ) : List UInt8 := be16 (n / 2 ^ 16) ++ be16 n

def Ie.no : Ie → ℕ
  | .ie11 _ => 11
  | .ie12 _ => 12
  | .ie13 _ => 13
  | .ie14 .. => 14
  | .ie504 _ => 504
  | .ie501 .. => 501
  | .ie507 .. => 507
  | .ie901 _ => 901
  | .ie921 .. => 921
  | .ie1301 _ => 1301
  | .ie1501 .. => 1501
  | .ie1502 .. => 1502
  | .ie1503 .. => 1503

def Ie.struct : Ie → Struct
  | .ie11 _ => irIe11
  | .ie12 _ => irIe12
  | .ie13 _ => irIe13
  | .ie14 .. => irIe14
  | .ie504 _ => irIe504
  | .ie501 .. => irIe501
  | .ie507 .. => irIe507
  | .ie901 _ => irIe901
  | .ie921 .. => irIe921
  | .ie1301 _ => irIe1301
  | .ie1501 .. => irIe1501
  | .ie1502 .. => irIe1502
  | .ie1503 .. => irIe1503

def Ie.fields : Ie → List Assignment
  | .ie11 t => [(4, be8 t.hour), (3, be8 t.minute), (2, be8 t.second), (5, be8 t.day),
    (6, be8 t.month), (7, be16 t.year.toNat)]
  | .ie12 addr => [(2, [addr.getD 0 0, addr.getD 1 0, addr.getD 2 0, addr.getD 3 0])]
  | .ie13 status => [(2, be32 status.toNat)]
  | .ie14 softwareType result => [(2, be8 softwareType), (3, be32 result.toNat)]
  | .ie504 mode => [(2, be32 mode.toNat)]
  | .ie501 carrier antenna axc fiber => [(2, be8 carrier), (3, be8 antenna), (4, be8 axc),
    (5, be8 fiber)]
  | .ie507 mode group uplink downlink => [(2, be8 mode), (3, be8 group), (4, be16 uplink.toNat),
    (5, be16 downlink.toNat)]
  | .ie901 port => [(2, be8 port)]
  | .ie921 port t12 t32 dlOffset dlCalRru ulCalRru => [(2, be8 port), (3, be32 t12.toNat),
    (4, be32 t32.toNat), (5, be32 dlOffset.toNat), (6, be32 dlCalRru.toNat),
    (7, be32 ulCalRru.toNat)]
  | .ie1301 resetType => [(2, be32 resetType.toNat)]
  | .ie1501 reason cellId power antGroup nFreqs => [(2, be8 reason), (3, be32 cellId.toNat),
    (4, be16 power.toNat), (5, be8 antGroup), (6, be8 nFreqs)]
  | .ie1502 reason cellId carrier center type bandwidth cpLength => [(2, be8 reason),
    (3, be32 cellId.toNat), (4, be8 carrier), (5, be32 center.toNat), (6, be32 type.toNat),
    (9, be32 bandwidth.toNat), (11, be8 cpLength)]
  | .ie1503 reason cellId carrier dlMidFreq ulMidFreq type dlBandwidth ulBandwidth cpLength =>
    [(2, be8 reason), (3, be32 cellId.toNat), (4, be8 carrier), (5, be32 dlMidFreq.toNat),
      (6, be32 ulMidFreq.toNat), (7, be32 type.toNat), (8, be32 dlBandwidth.toNat),
      (9, be32 ulBandwidth.toNat), (10, be8 cpLength)]

def Ie.assignments (ie : Ie) : List Assignment :=
  (0, be16 ie.no) :: (1, be16 (sizeof ie.struct)) :: ie.fields

def elementStores : ℕ → List Ie → List Store
  | _, [] => []
  | off, ie :: ies =>
    shift off (stores ie.struct ie.assignments) ++ elementStores (off + sizeof ie.struct) ies

def elementsEnd : ℕ → List Ie → ℕ
  | off, [] => off
  | off, ie :: ies => elementsEnd (off + sizeof ie.struct) ies

def IrMsg.header (m : IrMsg) : List Assignment :=
  [(2, be8 m.rruId), (3, be8 m.bbuId), (4, be8 m.port), (5, be32 m.flow.toNat),
    (0, be32 m.msgNo)]

def IrMsg.stores (m : IrMsg) : List Store :=
  Packed.stores irMsgHeader m.header ++ elementStores (sizeof irMsgHeader) m.ies ++
    Packed.stores irMsgHeader [(1, be32 (elementsEnd (sizeof irMsgHeader) m.ies))]

def IrMsg.sent (m : IrMsg) : List UInt8 :=
  Memory.read (run 0 m.stores fun _ ↦ 0) 0 (elementsEnd (sizeof irMsgHeader) m.ies)

theorem Ie.fits (ie : Ie) : Fits ie.struct ie.assignments := by
  rw [← fits_iff]
  cases ie <;> rfl

theorem Ie.irIe_no (ie : Ie) : irIe ie.no = some ie.struct := by
  cases ie <;> rfl

theorem Ie.sizeof_struct (ie : Ie) : sizeof ie.struct = ie.len := by
  cases ie <;> rfl

theorem Ie.offset_ieLen (ie : Ie) : offset ie.struct 1 = 2 := by
  cases ie <;> rfl

theorem Ie.sizeof_lt (ie : Ie) : sizeof ie.struct < 2 ^ 16 := by
  rw [ie.sizeof_struct]
  cases ie <;> simp [Ie.len]

theorem Ie.no_lt (ie : Ie) : ie.no < 2 ^ 16 := by
  cases ie <;> simp [Ie.no]

section Elements

theorem elementsEnd_eq (off : ℕ) (ies : List Ie) :
    elementsEnd off ies = off + (ies.map Ie.len).sum := by
  induction ies generalizing off with
  | nil => rfl
  | cons ie ies ih =>
    rw [elementsEnd, ih, ie.sizeof_struct, List.map_cons, List.sum_cons, Nat.add_assoc]

theorem within_elementStores (off : ℕ) (ies : List Ie) :
    Stores.Within (elementsEnd off ies) (elementStores off ies) := by
  induction ies generalizing off with
  | nil => exact fun st hst ↦ absurd hst List.not_mem_nil
  | cons ie ies ih =>
    have hend := elementsEnd_eq (off + sizeof ie.struct) ies
    have hle : off + sizeof ie.struct ≤ elementsEnd off (ie :: ies) := by
      rw [elementsEnd]
      omega
    exact Stores.within_append.2 ⟨(within_shift.2 ie.fits.within).mono hle, ih _⟩

theorem mem_span_elementStores {off x : ℕ} {ies : List Ie} (h : x ∈ span (elementStores off ies)) :
    off ≤ x ∧ x < elementsEnd off ies := by
  induction ies generalizing off with
  | nil => simp [elementStores] at h
  | cons ie ies ih =>
    rw [elementStores, span_append] at h
    rw [elementsEnd]
    rcases h with h | h
    · obtain ⟨hle, hspan⟩ := mem_span_shift.1 h
      have hlt := ie.fits.within.lt_of_mem_span hspan
      have hend := elementsEnd_eq (off + sizeof ie.struct) ies
      omega
    · have := ih h
      omega

theorem apart_elementStores (off : ℕ) (ies : List Ie) : Apart (elementStores off ies) := by
  induction ies generalizing off with
  | nil => exact apart_nil
  | cons ie ies ih =>
    refine apart_append.2 ⟨ie.fits.apart.shift off, ih _, ?_⟩
    rw [Set.disjoint_left]
    intro x hx hx'
    obtain ⟨hle, hspan⟩ := mem_span_shift.1 hx
    have hlt := ie.fits.within.lt_of_mem_span hspan
    have hnext := (mem_span_elementStores hx').1
    omega

def elementPieces : ℕ → List Ie → List (ℕ × Struct)
  | _, [] => []
  | off, ie :: ies => (off, ie.struct) :: elementPieces (off + sizeof ie.struct) ies

theorem tiles_elementPieces (off : ℕ) (ies : List Ie) :
    Tiling.Tiles Prod.fst (fun p ↦ sizeof p.2) off (elementPieces off ies)
      (elementsEnd off ies) := by
  induction ies generalizing off with
  | nil => rfl
  | cons ie ies ih => exact ⟨rfl, ih _⟩

theorem mem_elementPieces {off : ℕ} {ies : List Ie} {p : ℕ × Struct}
    (h : p ∈ elementPieces off ies) :
    ∃ ie, p.2 = Ie.struct ie ∧ (p.1, be16 ie.no) ∈ elementStores off ies ∧
      (p.1 + 2, be16 (sizeof p.2)) ∈ elementStores off ies := by
  induction ies generalizing off with
  | nil => cases h
  | cons ie ies ih =>
    rcases List.mem_cons.1 h with rfl | h
    · refine ⟨ie, rfl, List.mem_append_left _ ?_, List.mem_append_left _ ?_⟩
      · exact List.mem_map.2 ⟨(0, be16 ie.no), by simp [stores, Ie.assignments, offset], rfl⟩
      · refine List.mem_map.2 ⟨(2, be16 (sizeof ie.struct)), ?_, rfl⟩
        rw [← ie.offset_ieLen]
        simp [stores, Ie.assignments]
    · obtain ⟨ie', hstruct, hno, hlen⟩ := ih h
      exact ⟨ie', hstruct, List.mem_append_right _ hno, List.mem_append_right _ hlen⟩

end Elements

section Message

variable {m : IrMsg}

def IrMsg.size (m : IrMsg) : ℕ := elementsEnd (sizeof irMsgHeader) m.ies

theorem IrMsg.size_eq (m : IrMsg) : m.size = msgHeaderSize + (m.ies.map Ie.len).sum :=
  elementsEnd_eq _ _

theorem IrMsg.length_sent (m : IrMsg) : m.sent.length = m.size := by
  rw [sent, Memory.length_read, size]

theorem IrMsg.header_fits (m : IrMsg) : Fits irMsgHeader (m.header ++ [(1, be32 m.size)]) :=
  fits_iff.1 rfl

theorem IrMsg.apart_stores (m : IrMsg) : Apart m.stores := by
  have hheader := m.header_fits.apart
  have hwithin := m.header_fits.within
  rw [Packed.stores, List.map_append] at hheader hwithin
  obtain ⟨hfront, hlen, hdisj⟩ := apart_append.1 hheader
  obtain ⟨hfront', hlen'⟩ := Stores.within_append.1 hwithin
  -- the elements begin where the header ends
  have hbehind {sts : List Store} (h : Stores.Within (sizeof irMsgHeader) sts) :
      Disjoint (span sts) (span (elementStores (sizeof irMsgHeader) m.ies)) := by
    rw [Set.disjoint_left]
    intro x hx hx'
    have hlt := h.lt_of_mem_span hx
    have hle := (mem_span_elementStores hx').1
    omega
  refine apart_append.2 ⟨apart_append.2 ⟨hfront, apart_elementStores _ _, hbehind hfront'⟩, hlen, ?_⟩
  rw [span_append, Set.disjoint_union_left]
  exact ⟨hdisj, (hbehind hlen').symm⟩

theorem IrMsg.within_stores (m : IrMsg) : Stores.Within m.size m.stores := by
  have hheader : sizeof irMsgHeader ≤ m.size := by
    rw [m.size_eq]
    exact Nat.le_add_right _ _
  have hwithin := m.header_fits.within
  rw [Packed.stores, List.map_append] at hwithin
  obtain ⟨hfront, hlen⟩ := Stores.within_append.1 hwithin
  exact Stores.within_append.2
    ⟨Stores.within_append.2 ⟨hfront.mono hheader, within_elementStores _ _⟩, hlen.mono hheader⟩

theorem write_sent {k : ℕ} (hk : k < m.size) :
    Mem.write (fun _ ↦ 0) m.sent k = run 0 m.stores (fun _ ↦ 0) k := by
  have hlen : k < m.sent.length := by rwa [m.length_sent]
  rw [Mem.write, List.getD_eq_getElem?_getD, List.getElem?_eq_getElem hlen, Option.getD_some]
  simp [IrMsg.sent, Memory.read]

theorem u16_of_read {mem : Mem} {k n : ℕ} (h : Memory.read mem k 2 = be16 n) (hn : n < 2 ^ 16) :
    mem.u16 k = n := by
  obtain ⟨hhigh, hlow⟩ : mem k = .ofNat (n / 2 ^ 8) ∧ mem (k + 1) = .ofNat n := by
    simpa [Memory.read, be16, List.range_succ] using h
  rw [Mem.u16, hhigh, hlow, UInt8.toNat_ofNat', UInt8.toNat_ofNat']
  omega

theorem u32_of_read {mem : Mem} {k n : ℕ} (h : Memory.read mem k 4 = be32 n) (hn : n < 2 ^ 32) :
    mem.u32 k = n := by
  obtain ⟨h0, h1, h2, h3⟩ : mem k = .ofNat (n / 2 ^ 16 / 2 ^ 8) ∧
      mem (k + 1) = .ofNat (n / 2 ^ 16) ∧ mem (k + 2) = .ofNat (n / 2 ^ 8) ∧
      mem (k + 3) = .ofNat n := by
    simpa [Memory.read, be32, be16, List.range_succ] using h
  rw [Mem.u32, Mem.u16, Mem.u16, h0, h1, h2, h3]
  simp only [UInt8.toNat_ofNat']
  omega

theorem u16_sent {k n : ℕ} (h : (k, be16 n) ∈ m.stores) (hn : n < 2 ^ 16) :
    (Mem.write (fun _ ↦ 0) m.sent).u16 k = n := by
  have hk : k + 2 ≤ m.size := m.within_stores _ h
  have hread := holds_run m.apart_stores 0 (fun _ ↦ 0) _ h
  rw [Nat.zero_add] at hread
  rw [← u16_of_read hread hn, Mem.u16, Mem.u16, write_sent (by omega), write_sent (by omega)]

theorem u32_sent {k n : ℕ} (h : (k, be32 n) ∈ m.stores) (hn : n < 2 ^ 32) :
    (Mem.write (fun _ ↦ 0) m.sent).u32 k = n := by
  have hk : k + 4 ≤ m.size := m.within_stores _ h
  have hread := holds_run m.apart_stores 0 (fun _ ↦ 0) _ h
  rw [Nat.zero_add] at hread
  rw [← u32_of_read hread hn]
  simp only [Mem.u32, Mem.u16]
  rw [write_sent (by omega), write_sent (by omega), write_sent (by omega), write_sent (by omega)]

/-- A message whose elements, each as long as the structure of its `ie_no`, follow one another
from the header to the end. -/
structure IrWellFormed (msg : List UInt8) : Prop extends WellFormed msg where
  elements : ∃ pieces : List (ℕ × Struct),
    Tiling.Tiles Prod.fst (fun p ↦ sizeof p.2) msgHeaderSize pieces msg.length ∧
    ∀ p ∈ pieces, irIe ((Mem.write (fun _ ↦ 0) msg).u16 p.1) = some p.2 ∧
      (Mem.write (fun _ ↦ 0) msg).u16 (p.1 + 2) = sizeof p.2

theorem IrMsg.sent_wellFormed (h : m.size < 2 ^ 32) : IrWellFormed m.sent where
  header := by
    rw [m.length_sent, m.size_eq]
    exact Nat.le_add_right _ _
  msgLen := by
    rw [m.length_sent]
    have hmem : (4, be32 m.size) ∈ m.stores :=
      List.mem_append_right _ (List.mem_singleton_self _)
    exact u32_sent hmem h
  elements := by
    refine ⟨elementPieces msgHeaderSize m.ies, ?_, fun p hp ↦ ?_⟩
    · rw [m.length_sent]
      exact tiles_elementPieces _ _
    · obtain ⟨ie, hstruct, hno, hlen⟩ := mem_elementPieces hp
      have hmem {st : Store} (hst : st ∈ elementStores msgHeaderSize m.ies) : st ∈ m.stores :=
        List.mem_append_left _ (List.mem_append_right _ hst)
      rw [u16_sent (hmem hno) ie.no_lt, u16_sent (hmem hlen) (hstruct ▸ ie.sizeof_lt), ie.irIe_no,
        hstruct]
      exact ⟨rfl, rfl⟩

end Message

/-! The senders -/

inductive Builder
  | channelEstablishmentConfig | bbuHeartbeat | rruResetReq | parameterConfiguration
  | cellClearTdd | cellClearFdd | cellConfigurationTdd | cellConfigurationFdd
  | delayMeasure | delayConfiguration

def Builder.send (env : Env) (rru : Rru) : Builder → Option Handled
  | .channelEstablishmentConfig => some (sendChannelEstablishmentConfig env rru)
  | .bbuHeartbeat => some (sendBbuHeartbeat rru)
  | .rruResetReq => some (sendRruResetReq rru)
  | .parameterConfiguration => some (sendParameterConfiguration env rru)
  | .cellClearTdd => some (sendCellClearTdd rru)
  | .cellClearFdd => some (sendCellClearFdd rru)
  | .cellConfigurationTdd => sendCellConfigurationTdd env rru
  | .cellConfigurationFdd => sendCellConfigurationFdd env rru
  | .delayMeasure => some (sendDelayMeasure rru)
  | .delayConfiguration => some (sendDelayConfiguration rru)

def Builder.bufSize : Builder → ℕ
  | .bbuHeartbeat | .rruResetReq => 128
  | _ => 2048

theorem sum_parameterIes_le (rf : RfConfig) : ((parameterIes rf).map Ie.len).sum ≤ 42 := by
  unfold parameterIes
  split_ifs <;> simp [Ie.len]

theorem Builder.send_message (env : Env) {rru : Rru} (h : rru.cfg ≠ none) (b : Builder) :
    ∃ r msgNo ies, b.send env rru = some (r, [message rru msgNo ies]) ∧
      msgHeaderSize + (ies.map Ie.len).sum ≤ b.bufSize := by
  obtain ⟨cfg, hcfg⟩ := Option.ne_none_iff_exists'.1 h
  cases b with
  | parameterConfiguration =>
    have hsum := sum_parameterIes_le env.rf
    refine ⟨_, _, _, rfl, ?_⟩
    change 15 + _ ≤ 2048
    omega
  | cellConfigurationTdd =>
    simp only [send, sendCellConfigurationTdd, hcfg, Option.map_some]
    exact ⟨_, _, _, rfl, by simp [Ie.len, msgHeaderSize, bufSize]⟩
  | cellConfigurationFdd =>
    simp only [send, sendCellConfigurationFdd, hcfg, Option.map_some]
    exact ⟨_, _, _, rfl, by simp [Ie.len, msgHeaderSize, bufSize]⟩
  | channelEstablishmentConfig | bbuHeartbeat | rruResetReq | cellClearTdd | cellClearFdd
  | delayMeasure | delayConfiguration =>
    exact ⟨_, _, _, rfl, by simp [Ie.len, msgHeaderSize, bufSize]⟩

/-- Every sender passes one message to `send`, written inside its buffer, whose `msg_len` and
elements are as they should be. -/
theorem builder_wellFormed (env : Env) (rru : Rru) (h : rru.cfg ≠ none) (b : Builder) :
    ∃ r m, b.send env rru = some (r, [m]) ∧ Stores.Within b.bufSize m.stores ∧
      m.sent.length = m.msgLen ∧ IrWellFormed m.sent := by
  obtain ⟨r, msgNo, ies, hsend, hle⟩ := b.send_message env h
  have hsize := (message rru msgNo ies).size_eq
  refine ⟨r, _, hsend, (IrMsg.within_stores _).mono (hsize.trans_le hle), ?_, ?_⟩
  · rw [IrMsg.length_sent, hsize]
    rfl
  · apply IrMsg.sent_wellFormed
    have hbuf : b.bufSize ≤ 2048 := by cases b <;> decide
    rw [hsize]
    exact (hle.trans hbuf).trans_lt (by decide)

theorem builder_wellFormed_cellConfiguration :
    ∃ r m, Builder.cellConfigurationFdd.send ⟨true, [], ⟨25, 2⟩, ⟨0, 0, 0, 1, 1, 2020⟩⟩
        { Rru.zero with cfg := some ⟨none, 465000000, 455000000, 20⟩ } = some (r, [m]) ∧
      m.sent.length = 59 ∧ IrWellFormed m.sent := by
  obtain ⟨r, m, hsend, -, hlen, hm⟩ := builder_wellFormed
    ⟨true, [], ⟨25, 2⟩, ⟨0, 0, 0, 1, 1, 2020⟩⟩
    { Rru.zero with cfg := some ⟨none, 465000000, 455000000, 20⟩ } (by decide)
    .cellConfigurationFdd
  refine ⟨r, m, hsend, ?_, hm⟩
  cases hsend
  exact hlen

end EnbL1Ppc.CpriEth
