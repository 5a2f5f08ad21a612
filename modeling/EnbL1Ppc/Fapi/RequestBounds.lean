import EnbL1Ppc.Fapi.SendBuffersOwnership
import EnbL1Ppc.Fapi.TxEncoding

namespace EnbL1Ppc.Fapi.Requests

open Lib Lib.Memory Lib.Stores SendBuffers

def WritesInside (L : Layout) (b : Buffer) (q : SendBuffers.Request) : Prop :=
  Within b.size (q.stores L b)

theorem writesInside_body_iff {L : Layout} {b : Buffer} {q : SendBuffers.Request} :
    WritesInside L b q ↔ Within (b.size - 16) q.body := by
  have hsize := b.sixteen_le_size
  have hword {k : ℕ} (hk : k ≤ 12) (x : BitVec 32) : k + (bigEndian x).length ≤ b.size := by
    rw [length_bigEndian]
    omega
  rw [← within_shift (k := 16), Nat.add_sub_cancel' hsize]
  change Within _ (_ ++ shift 16 q.body ++ _) ↔ _
  rw [within_append, within_append]
  refine ⟨fun h ↦ h.1.2, fun h ↦ ⟨⟨?_, h⟩, ?_⟩⟩
  · simp only [within_cons]
    exact ⟨hword (by decide) _, hword (by decide) _, hword (by decide) _, by simp [Within]⟩
  · simp only [within_cons]
    exact ⟨hword (by decide) _, hword (by decide) _, by simp [Within]⟩

theorem writesInside_iff {L : Layout} {i : Fin fapiTxReqBufNum} {q : SendBuffers.Request} :
    WritesInside L ⟨.request, i⟩ q ↔ Within (fapiTxReqBufSize - 16) q.body :=
  writesInside_body_iff

theorem length_entries_le {α : Type} {k : ℕ} (n : BitVec 32) (a : Fin k → α) :
    (entries n a).length ≤ k := by
  simp [entries]

theorem length_encodeList_le {n k : ℕ} (m : BitVec 32) (a : Fin k → Words n) :
    (encodeList (entries m a)).length ≤ 4 * n * k := by
  rw [length_encodeList]
  exact Nat.mul_le_mul_left _ (length_entries_le m a)

variable {r : DlConfigRequest} {L : Layout} {i : Fin fapiTxReqBufNum}

theorem dlConfig_writesInside (h : r.numberDci.toNat ≤ fapiDlConfigMaxPdu) :
    WritesInside L ⟨.request, i⟩ (fapiP7DlConfigRequest r) := by
  have hdci : (encodeList r.dcis).length ≤ 468 * 64 := length_encodeList_le _ _
  have hpdu : (encodeList r.pdus).length ≤ 468 * 64 := length_encodeList_le _ _
  have h : r.numberDci.toNat ≤ 64 := h
  rw [writesInside_iff]
  simp only [fapiP7DlConfigRequest, within_cons, length_bigEndian, fapiTxReqBufSize]
  refine ⟨by decide, by decide, by decide, by decide, by decide, by decide, by omega, by omega,
    by decide, ?_⟩
  simp [Within]

theorem ulConfig_writesInside (u : UlConfigRequest) :
    WritesInside L ⟨.request, i⟩ (fapiP7UlConfigRequest u) := by
  have hpdu : (encodeList u.pdus).length ≤ 180 * 64 := length_encodeList_le _ _
  rw [writesInside_iff]
  simp only [fapiP7UlConfigRequest, within_cons, length_bigEndian, fapiTxReqBufSize]
  refine ⟨by decide, by decide, by decide, by decide, by decide, by omega, by decide, ?_⟩
  simp [Within]

theorem hiDci0_writesInside (h : r.numberDci0.toNat ≤ fapiDlConfigMaxPdu) :
    WritesInside L ⟨.request, i⟩ (fapiP7HiDci0Request r) := by
  have hdci : (encodeList r.dci0s).length ≤ 224 * 64 := length_encodeList_le _ _
  have hhi : (encodeList r.his).length ≤ 224 * 64 := length_encodeList_le _ _
  have h : r.numberDci0.toNat ≤ 64 := h
  rw [writesInside_iff]
  simp only [fapiP7HiDci0Request, within_cons, length_bigEndian, fapiTxReqBufSize]
  refine ⟨by decide, by decide, by decide, by decide, by omega, by omega, by decide, ?_⟩
  simp [Within]

/-! TX.request -/

variable {t : Tb} {ts : List Tb} {p : TxPdu} {ps : List TxPdu} {addr : ℕ → BitVec 32}
  {desc ptr bound : ℕ}

theorem Tb.within_stores (hdesc : desc + 12 ≤ bound) (hptr : t.next ptr ≤ bound) :
    Within bound (t.stores addr desc ptr) := by
  by_cases htag : t.tag ≠ 0
  · have hend := Tb.add_length_le_next htag ptr
    have hlen : t.bytes.length = t.length.toNat := by simp [Tb.bytes, Memory.bytes]
    rw [Tb.stores, if_pos htag]
    simp only [List.cons_append, List.nil_append, within_cons, length_bigEndian, hlen]
    exact ⟨by omega, by omega, by omega, by omega, by simp [Within]⟩
  · rw [Tb.stores, if_neg htag]
    simp only [List.cons_append, List.nil_append, within_cons, length_bigEndian]
    exact ⟨by omega, by omega, by omega, by simp [Within]⟩

theorem within_segmentStores (hdesc : desc + 12 * ts.length ≤ bound)
    (hptr : ts.foldl Tb.next ptr ≤ bound) : Within bound (segmentStores addr desc ptr ts) := by
  induction ts generalizing desc ptr with
  | nil => simp [segmentStores, Within]
  | cons t ts ih =>
    rw [List.length_cons] at hdesc
    rw [List.foldl_cons] at hptr
    have hend := le_foldl_next ts (t.next ptr)
    exact within_append.2 ⟨Tb.within_stores (by omega) (by omega), ih (by omega) hptr⟩

theorem within_pduStores (hdesc : desc + 396 * ps.length ≤ bound)
    (hptr : (ps.flatMap TxPdu.segments).foldl Tb.next ptr ≤ bound) :
    Within bound (pduStores addr desc ptr ps) := by
  induction ps generalizing desc ptr with
  | nil => simp [pduStores, Within]
  | cons p ps ih =>
    rw [List.length_cons, Nat.mul_succ, ← Nat.add_assoc] at hdesc
    rw [List.flatMap_cons, List.foldl_append] at hptr
    have hlen := p.length_segments_le
    have hend := le_foldl_next (ps.flatMap TxPdu.segments) (p.segments.foldl Tb.next ptr)
    refine within_append.2 ⟨within_append.2 ⟨?_, within_segmentStores (by omega) (by omega)⟩,
      ih (by omega) hptr⟩
    simp only [within_cons, length_bigEndian]
    exact ⟨by omega, by omega, by omega, by simp [Within]⟩

theorem Tb.next_le_of_within (h8 : 8 ∣ ptr) (hbound : 8 ∣ bound) (hptr : ptr ≤ bound)
    (h : Within bound (t.stores addr desc ptr)) : t.next ptr ≤ bound := by
  rw [Tb.next]
  split_ifs with htag
  · have hst := h (ptr, t.bytes) (by rw [Tb.stores, if_pos htag]; simp)
    simp only [Tb.bytes, Memory.bytes, List.length_map, List.length_range] at hst
    rw [align]
    omega
  · exact hptr

theorem foldl_next_le_of_within (h8 : 8 ∣ ptr) (hbound : 8 ∣ bound) (hptr : ptr ≤ bound)
    (h : Within bound (segmentStores addr desc ptr ts)) : ts.foldl Tb.next ptr ≤ bound := by
  induction ts generalizing desc ptr with
  | nil => exact hptr
  | cons t ts ih =>
    obtain ⟨ht, hts⟩ := within_append.1 h
    exact ih (Tb.dvd_next h8) (Tb.next_le_of_within h8 hbound hptr ht) hts

theorem foldl_flatMap_next_le_of_within (h8 : 8 ∣ ptr) (hbound : 8 ∣ bound) (hptr : ptr ≤ bound)
    (h : Within bound (pduStores addr desc ptr ps)) :
    (ps.flatMap TxPdu.segments).foldl Tb.next ptr ≤ bound := by
  induction ps generalizing desc ptr with
  | nil => exact hptr
  | cons p ps ih =>
    obtain ⟨hp, hps⟩ := within_append.1 h
    rw [List.flatMap_cons, List.foldl_append]
    exact ih (dvd_foldl_next h8)
      (foldl_next_le_of_within h8 hbound hptr (within_append.1 hp).2) hps

theorem DlConfigRequest.txDescriptors_le (h : r.numberTxReq.toNat ≤ fapiDlConfigMaxPdu) :
    r.txDescriptors ≤ fapiTxReqBufSize - 16 := by
  simp only [fapiDlConfigMaxPdu] at h
  rw [DlConfigRequest.txDescriptors, align, msgVarSize, fapiTxReqBufSize]
  split_ifs <;> omega

theorem tx_writesInside_iff {shm : Shm} {phys : BitVec 32}
    (h : r.numberTxReq.toNat ≤ fapiDlConfigMaxPdu) :
    WritesInside L ⟨.request, i⟩ (fapiP7TxRequest shm phys r) ↔
      16 + r.txLength ≤ fapiTxReqBufSize := by
  have hdesc := DlConfigRequest.txDescriptors_le h
  have hsize : fapiTxReqBufSize = 65536 := rfl
  rw [writesInside_iff, fapiP7TxRequest, within_append, within_append]
  constructor
  · rintro ⟨⟨-, hpdus⟩, -⟩
    have := foldl_flatMap_next_le_of_within r.dvd_txDescriptors (by decide) hdesc hpdus
    rw [← DlConfigRequest.txLength] at this
    omega
  · intro hlen
    refine ⟨⟨?_, within_pduStores (r.le_txDescriptors.trans hdesc) ?_⟩, ?_⟩
    · simp [Within, fapiTxReqBufSize]
    · rw [← DlConfigRequest.txLength]
      omega
    · simp [Within, fapiTxReqBufSize]

end EnbL1Ppc.Fapi.Requests
