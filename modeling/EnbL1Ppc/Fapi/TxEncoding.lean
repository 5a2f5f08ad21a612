import EnbL1Ppc.Fapi.RequestEncoding
import EnbL1Ppc.Fapi.SendBuffersRuns

namespace EnbL1Ppc.Fapi.Requests

open Lib Lib.Memory Lib.Stores SendBuffers

theorem le_align {k : ℕ} (hk : 0 < k) (n : ℕ) : n ≤ align k n := by
  have := Nat.lt_div_mul_add (a := n + (k - 1)) hk
  rw [align]
  omega

theorem dvd_align (k n : ℕ) : k ∣ align k n := Dvd.intro_left _ rfl

variable {t : Tb} {ts : List Tb} {p : TxPdu} {ps : List TxPdu} {addr : ℕ → BitVec 32}
  {desc ptr : ℕ}

/-! The running data offset -/

theorem Tb.next_of_tag (h : t.tag ≠ 0) : t.next ptr = ptr + align 8 t.length.toNat := if_pos h

theorem Tb.le_next (t : Tb) (ptr : ℕ) : ptr ≤ t.next ptr := by
  rw [Tb.next]
  split_ifs <;> omega

theorem Tb.add_length_le_next (h : t.tag ≠ 0) (ptr : ℕ) : ptr + t.length.toNat ≤ t.next ptr := by
  rw [next_of_tag h]
  exact Nat.add_le_add_left (le_align (by decide) _) _

theorem Tb.dvd_next (h : 8 ∣ ptr) : 8 ∣ t.next ptr := by
  rw [Tb.next]
  split_ifs
  · exact Nat.dvd_add h (dvd_align 8 _)
  · exact h

theorem le_foldl_next (ts : List Tb) (ptr : ℕ) : ptr ≤ ts.foldl Tb.next ptr := by
  induction ts generalizing ptr with
  | nil => exact le_rfl
  | cons t ts ih => exact (t.le_next ptr).trans (ih _)

theorem dvd_foldl_next (h : 8 ∣ ptr) : 8 ∣ ts.foldl Tb.next ptr := by
  induction ts generalizing ptr with
  | nil => exact h
  | cons t ts ih => exact ih (Tb.dvd_next h)

/-! Descriptors and data stay apart -/

theorem Tb.span_stores {x : ℕ} (h : x ∈ span (t.stores addr desc ptr)) :
    (desc ≤ x ∧ x < desc + 12) ∨ (ptr ≤ x ∧ x < t.next ptr) := by
  by_cases htag : t.tag ≠ 0
  · have hlen := Tb.add_length_le_next htag ptr
    rw [Tb.stores, if_pos htag] at h
    simp only [span_append, span_cons, span_nil, footprint, length_bigEndian, Tb.bytes,
      Memory.bytes, List.length_map, List.length_range, Set.mem_union, Set.mem_Ico,
      Set.mem_empty_iff_false, or_false] at h
    omega
  · rw [Tb.stores, if_neg htag] at h
    simp only [span_append, span_cons, span_nil, footprint, length_bigEndian, Set.mem_union,
      Set.mem_Ico, Set.mem_empty_iff_false, or_false] at h
    omega

theorem Tb.apart_stores (h : desc + 12 ≤ ptr) : Apart (t.stores addr desc ptr) := by
  by_cases htag : t.tag ≠ 0
  · rw [Tb.stores, if_pos htag]
    simp only [List.cons_append, List.nil_append, apart_cons, span_cons, span_nil, footprint,
      length_bigEndian, Set.union_empty, Set.disjoint_union_right, Set.Ico_disjoint_Ico, apart_nil,
      Set.disjoint_empty, and_true]
    omega
  · rw [Tb.stores, if_neg htag]
    simp only [List.cons_append, List.nil_append, apart_cons, span_cons, span_nil, footprint,
      length_bigEndian, Set.union_empty, Set.disjoint_union_right, Set.Ico_disjoint_Ico, apart_nil,
      Set.disjoint_empty, and_true]
    omega

theorem span_segmentStores {x : ℕ} (h : x ∈ span (segmentStores addr desc ptr ts)) :
    (desc ≤ x ∧ x < desc + 12 * ts.length) ∨ (ptr ≤ x ∧ x < ts.foldl Tb.next ptr) := by
  induction ts generalizing desc ptr with
  | nil => simp [segmentStores] at h
  | cons t ts ih =>
    rw [segmentStores, span_append] at h
    have hnext := t.le_next ptr
    have hend := le_foldl_next ts (t.next ptr)
    rw [List.length_cons, List.foldl_cons]
    rcases h with h | h
    · have := Tb.span_stores h
      omega
    · have := ih h
      omega

theorem apart_segmentStores (h : desc + 12 * ts.length ≤ ptr) :
    Apart (segmentStores addr desc ptr ts) := by
  induction ts generalizing desc ptr with
  | nil => exact apart_nil
  | cons t ts ih =>
    rw [List.length_cons] at h
    have hnext := t.le_next ptr
    refine apart_append.2 ⟨Tb.apart_stores (by omega), ih (by omega), ?_⟩
    rw [Set.disjoint_left]
    intro x hx hx'
    have := Tb.span_stores hx
    have := span_segmentStores hx'
    omega

theorem TxPdu.length_segments (h : p.numSegments.toNat ≤ fapiTxMaxSegments) :
    p.segments.length = p.numSegments.toNat := length_entries _ h

theorem TxPdu.length_segments_le : p.segments.length ≤ 32 := by
  rw [TxPdu.segments, entries, List.length_take, List.length_ofFn]
  exact Nat.min_le_right _ _

theorem TxPdu.span_stores {x : ℕ} (h : x ∈ span (p.stores addr desc ptr)) :
    (desc ≤ x ∧ x < desc + 396) ∨ (ptr ≤ x ∧ x < p.segments.foldl Tb.next ptr) := by
  have hlen := p.length_segments_le
  rw [TxPdu.stores, span_append] at h
  rcases h with h | h
  · simp only [span_cons, span_nil, footprint, length_bigEndian, Set.mem_union,
      Set.mem_Ico, Set.mem_empty_iff_false, or_false] at h
    omega
  · have := span_segmentStores h
    omega

theorem TxPdu.apart_stores (h : desc + 396 ≤ ptr) : Apart (p.stores addr desc ptr) := by
  have hlen := p.length_segments_le
  refine apart_append.2 ⟨?_, apart_segmentStores (by omega), ?_⟩
  · simp only [apart_cons, span_cons, span_nil, footprint, length_bigEndian, Set.union_empty,
      Set.disjoint_union_right, Set.Ico_disjoint_Ico, apart_nil, Set.disjoint_empty, and_true]
    omega
  · rw [Set.disjoint_left]
    intro x hx hx'
    have := span_segmentStores hx'
    simp only [span_cons, span_nil, footprint, length_bigEndian, Set.mem_union,
      Set.mem_Ico, Set.mem_empty_iff_false, or_false] at hx
    omega

theorem span_pduStores {x : ℕ} (h : x ∈ span (pduStores addr desc ptr ps)) :
    (desc ≤ x ∧ x < desc + 396 * ps.length) ∨
      (ptr ≤ x ∧ x < (ps.flatMap TxPdu.segments).foldl Tb.next ptr) := by
  induction ps generalizing desc ptr with
  | nil => simp [pduStores] at h
  | cons p ps ih =>
    rw [pduStores, span_append] at h
    have hnext := le_foldl_next p.segments ptr
    have hend := le_foldl_next (ps.flatMap TxPdu.segments) (p.segments.foldl Tb.next ptr)
    rw [List.length_cons, Nat.mul_succ, ← Nat.add_assoc, List.flatMap_cons, List.foldl_append]
    rcases h with h | h
    · have := TxPdu.span_stores h
      omega
    · have := ih h
      omega

theorem apart_pduStores (h : desc + 396 * ps.length ≤ ptr) :
    Apart (pduStores addr desc ptr ps) := by
  induction ps generalizing desc ptr with
  | nil => exact apart_nil
  | cons p ps ih =>
    rw [List.length_cons, Nat.mul_succ, ← Nat.add_assoc] at h
    have hnext := le_foldl_next p.segments ptr
    refine apart_append.2 ⟨TxPdu.apart_stores (by omega), ih (by omega), ?_⟩
    rw [Set.disjoint_left]
    intro x hx hx'
    have := TxPdu.span_stores hx
    have := span_pduStores hx'
    omega

/-! Reading the descriptors -/

def Tb.descriptor (addr : ℕ → BitVec 32) (ptr : ℕ) (t : Tb) : Descriptor where
  tag := t.tag
  length := t.length
  data := if t.tag ≠ 0 then addr ptr else t.data

def descriptors (addr : ℕ → BitVec 32) : ℕ → List Tb → List Descriptor
  | _, [] => []
  | ptr, t :: ts => t.descriptor addr ptr :: descriptors addr (t.next ptr) ts

theorem descriptors_append (us : List Tb) :
    descriptors addr ptr (ts ++ us) =
      descriptors addr ptr ts ++ descriptors addr (ts.foldl Tb.next ptr) us := by
  induction ts generalizing ptr with
  | nil => rfl
  | cons t ts ih => rw [List.cons_append, descriptors, ih, descriptors]; rfl

variable {mem : Mem} {msg : ℕ}

theorem Tb.readDescriptor_eq (h : Holds mem msg (t.stores addr desc ptr)) :
    readDescriptor mem (msg + desc) = t.descriptor addr ptr := by
  have hdata : (desc + 8, bigEndian (t.descriptor addr ptr).data) ∈ t.stores addr desc ptr := by
    rw [Tb.stores, Tb.descriptor]
    split_ifs <;> simp
  simp only [readDescriptor, Tb.descriptor, Descriptor.mk.injEq, Nat.add_assoc]
  refine ⟨?_, ?_, ?_⟩
  · exact readWord_of_holds h (by simp [Tb.stores])
  · exact readWord_of_holds h (by simp [Tb.stores])
  · exact readWord_of_holds h hdata

theorem readDescriptors_eq (h : Holds mem msg (segmentStores addr desc ptr ts)) :
    readDescriptors mem (msg + desc) ts.length = descriptors addr ptr ts := by
  induction ts generalizing desc ptr with
  | nil => rfl
  | cons t ts ih =>
    obtain ⟨ht, hts⟩ := holds_append.1 h
    rw [List.length_cons, readDescriptors, List.range_succ_eq_map, List.map_cons, List.map_map,
      descriptors, ← ih hts, Nat.mul_zero, Nat.add_zero]
    refine List.cons_eq_cons.2 ⟨Tb.readDescriptor_eq ht, List.map_congr_left fun j _ ↦ ?_⟩
    rw [Function.comp_apply]
    exact congrArg (readDescriptor mem) (by omega)

theorem TxPdu.pduDescriptors_eq (hseg : p.numSegments.toNat ≤ fapiTxMaxSegments)
    (h : Holds mem msg (p.stores addr desc ptr)) :
    pduDescriptors mem (msg + desc) = descriptors addr ptr p.segments := by
  have hnum : readWord mem (msg + (desc + 8)) = p.numSegments :=
    readWord_of_holds h (by simp [TxPdu.stores])
  rw [pduDescriptors, Nat.add_assoc, Nat.add_assoc, hnum, ← TxPdu.length_segments hseg]
  exact readDescriptors_eq (holds_append.1 h).2

theorem flatMap_pduDescriptors_eq (hseg : ∀ p ∈ ps, p.numSegments.toNat ≤ fapiTxMaxSegments)
    (h : Holds mem msg (pduStores addr desc ptr ps)) :
    ((List.range ps.length).flatMap fun i ↦ pduDescriptors mem (msg + desc + 396 * i)) =
      descriptors addr ptr (ps.flatMap TxPdu.segments) := by
  induction ps generalizing desc ptr with
  | nil => rfl
  | cons p ps ih =>
    obtain ⟨hp, hps⟩ := holds_append.1 h
    obtain ⟨hsegp, hsegps⟩ := List.forall_mem_cons.1 hseg
    rw [List.length_cons, List.range_succ_eq_map, List.flatMap_cons, List.flatMap_map,
      List.flatMap_cons, descriptors_append, ← ih hsegps hps, Nat.mul_zero, Nat.add_zero,
      TxPdu.pduDescriptors_eq hsegp hp]
    refine congrArg _ (List.flatMap_congr fun i _ ↦ congrArg (pduDescriptors mem) ?_)
    rw [Nat.succ_eq_add_one, Nat.mul_succ]
    omega

/-! The data regions -/

structure Packed (lo hi : ℕ) (regs : List (ℕ × ℕ)) : Prop where
  ordered : regs.Pairwise fun x y ↦ x.1 + x.2 ≤ y.1
  within : ∀ x ∈ regs, lo ≤ x.1 ∧ 8 ∣ x.1 ∧ x.1 + x.2 ≤ hi

theorem packed_nil (lo hi : ℕ) : Packed lo hi [] := ⟨.nil, by simp⟩

theorem Packed.cons {lo mid hi : ℕ} {x : ℕ × ℕ} {regs : List (ℕ × ℕ)} (hx : lo ≤ x.1)
    (h8 : 8 ∣ x.1) (hend : x.1 + x.2 ≤ mid) (hmid : mid ≤ hi) (h : Packed mid hi regs) :
    Packed lo hi (x :: regs) where
  ordered := List.pairwise_cons.2 ⟨fun y hy ↦ hend.trans (h.within y hy).1, h.ordered⟩
  within := by
    refine List.forall_mem_cons.2 ⟨⟨hx, h8, hend.trans hmid⟩, fun y hy ↦ ?_⟩
    obtain ⟨hlo, hy8, hyhi⟩ := h.within y hy
    exact ⟨by omega, hy8, hyhi⟩

theorem packed_regions (haddr : ∀ off ≤ ts.foldl Tb.next ptr, (addr off).toNat = msg + off)
    (h8 : 8 ∣ ptr) :
    Packed ptr (ts.foldl Tb.next ptr)
      ((descriptors addr ptr ts).filterMap (Descriptor.region msg)) := by
  induction ts generalizing ptr with
  | nil => exact packed_nil _ _
  | cons t ts ih =>
    have hnext := t.le_next ptr
    have hend := le_foldl_next ts (t.next ptr)
    rw [List.foldl_cons] at haddr ⊢
    have ih := ih haddr (Tb.dvd_next h8)
    by_cases htag : t.tag = 0
    · rw [descriptors, List.filterMap_cons_none (by simp [Descriptor.region, Tb.descriptor, htag])]
      rw [Tb.next, if_neg (not_not_intro htag)] at ih ⊢
      exact ih
    · have hreg : Descriptor.region msg (t.descriptor addr ptr) = some (ptr, t.length.toNat) := by
        rw [Descriptor.region, Tb.descriptor, if_pos htag, if_pos htag,
          haddr ptr (hnext.trans hend), Nat.add_sub_cancel_left]
      rw [descriptors, List.filterMap_cons_some hreg]
      exact ih.cons le_rfl h8 (Tb.add_length_le_next htag ptr) hend

/-! Resolving `tb_data` -/

structure Shm.Maps (shm : Shm) (phys : BitVec 32) : Prop where
  pos : 0 < phys.toNat
  le : shm.paddr ≤ phys.toNat
  fits : phys.toNat + fapiTxReqBufSize ≤ shm.paddr + shm.size

variable {shm : Shm} {phys : BitVec 32}

theorem Shm.v2p_p2v_add (h : shm.Maps phys) {off : ℕ} (hoff : off ≤ fapiTxReqBufSize)
    (hpos : 0 < off) : shm.v2p (shm.p2v phys.toNat + off) = phys.toNat + off := by
  have := h.pos
  have := h.le
  have := h.fits
  rw [Shm.p2v, if_neg (by omega), Shm.v2p, if_neg (by omega)]
  omega

theorem dataAddr_toNat (h : shm.Maps phys) (off : ℕ) (hoff : 16 + off ≤ fapiTxReqBufSize) :
    (dataAddr shm phys off).toNat = phys.toNat + 16 + off := by
  have := h.fits
  have := shm.physical_lt
  rw [dataAddr, Nat.add_assoc, shm.v2p_p2v_add h hoff (by omega), BitVec.toNat_ofNat,
    Nat.mod_eq_of_lt (by omega), Nat.add_assoc]

theorem Shm.load_eq (h : shm.Maps phys) {off len : ℕ} (hoff : off + len ≤ fapiTxReqBufSize)
    (hpos : 0 < off) :
    shm.load mem (shm.p2v (phys.toNat + off)) len = Memory.read mem (phys.toNat + off) len := by
  have hle := h.le
  have hfits := h.fits
  have hv : shm.p2v (phys.toNat + off) = shm.p2v phys.toNat + off := by
    have := h.pos
    rw [Shm.p2v, Shm.p2v, if_neg (by omega), if_neg (by omega)]
    omega
  refine List.map_congr_left fun i hi ↦ ?_
  have hi := List.mem_range.1 hi
  rw [hv, Nat.add_assoc, shm.v2p_p2v_add h (by omega) (by omega), Nat.add_assoc]

theorem Tb.resolve_eq (h : shm.Maps phys)
    (hm : Holds mem (phys.toNat + 16) (t.stores (dataAddr shm phys) desc ptr))
    (hfit : 16 + t.next ptr ≤ fapiTxReqBufSize) :
    (t.descriptor (dataAddr shm phys) ptr).resolve shm mem = t.view := by
  rw [Descriptor.resolve, Tb.view, Tb.descriptor, SegmentView.mk.injEq]
  refine ⟨rfl, rfl, ?_⟩
  by_cases htag : t.tag ≠ 0
  · have hend := Tb.add_length_le_next htag ptr
    have hbytes := hm (ptr, t.bytes) (by rw [Tb.stores, if_pos htag]; simp)
    simp only [Tb.bytes, Memory.bytes, List.length_map, List.length_range] at hbytes
    simp only [if_pos htag, dataAddr_toNat h ptr (by omega), Tb.bytes, Memory.bytes]
    rw [Nat.add_assoc, shm.load_eq h (by omega) (by omega), ← hbytes, Nat.add_assoc]
  · simp only [if_neg htag]

theorem map_resolve_descriptors (h : shm.Maps phys)
    (hm : Holds mem (phys.toNat + 16) (segmentStores (dataAddr shm phys) desc ptr ts))
    (hfit : 16 + ts.foldl Tb.next ptr ≤ fapiTxReqBufSize) :
    (descriptors (dataAddr shm phys) ptr ts).map (Descriptor.resolve shm mem) =
      ts.map Tb.view := by
  induction ts generalizing desc ptr with
  | nil => rfl
  | cons t ts ih =>
    obtain ⟨ht, hts⟩ := holds_append.1 hm
    have hend := le_foldl_next ts (t.next ptr)
    rw [List.foldl_cons] at hfit
    rw [descriptors, List.map_cons, List.map_cons, ih hts hfit, Tb.resolve_eq h ht (by omega)]

theorem TxPdu.readTxPdu_eq (h : shm.Maps phys)
    (hseg : p.numSegments.toNat ≤ fapiTxMaxSegments)
    (hm : Holds mem (phys.toNat + 16) (p.stores (dataAddr shm phys) desc ptr))
    (hfit : 16 + p.segments.foldl Tb.next ptr ≤ fapiTxReqBufSize) :
    readTxPdu shm mem (phys.toNat + 16 + desc) = p.view := by
  rw [readTxPdu, TxPdu.view, TxPduView.mk.injEq, TxPdu.pduDescriptors_eq hseg hm,
    map_resolve_descriptors h (holds_append.1 hm).2 hfit, Nat.add_assoc _ desc,
    Nat.add_assoc _ desc]
  refine ⟨?_, ?_, ?_, rfl⟩
  · exact readWord_of_holds hm (by simp [TxPdu.stores])
  · exact readWord_of_holds hm (by simp [TxPdu.stores])
  · exact readWord_of_holds hm (by simp [TxPdu.stores])

theorem map_readTxPdu (h : shm.Maps phys)
    (hseg : ∀ p ∈ ps, p.numSegments.toNat ≤ fapiTxMaxSegments)
    (hm : Holds mem (phys.toNat + 16) (pduStores (dataAddr shm phys) desc ptr ps))
    (hfit : 16 + (ps.flatMap TxPdu.segments).foldl Tb.next ptr ≤ fapiTxReqBufSize) :
    ((List.range ps.length).map fun i ↦ readTxPdu shm mem (phys.toNat + 16 + desc + 396 * i)) =
      ps.map TxPdu.view := by
  induction ps generalizing desc ptr with
  | nil => rfl
  | cons p ps ih =>
    obtain ⟨hp, hps⟩ := holds_append.1 hm
    obtain ⟨hsegp, hsegps⟩ := List.forall_mem_cons.1 hseg
    rw [List.flatMap_cons, List.foldl_append] at hfit
    have hend := le_foldl_next (ps.flatMap TxPdu.segments) (p.segments.foldl Tb.next ptr)
    rw [List.length_cons, List.range_succ_eq_map, List.map_cons, List.map_map, List.map_cons,
      ← ih hsegps hps hfit, Nat.mul_zero, Nat.add_zero,
      TxPdu.readTxPdu_eq h hsegp hp (by omega)]
    refine congrArg _ (List.map_congr_left fun i _ ↦ congrArg (readTxPdu shm mem) ?_)
    rw [Nat.succ_eq_add_one, Nat.mul_succ]
    omega

/-! The message -/

variable {r : DlConfigRequest}

theorem DlConfigRequest.le_txDescriptors :
    16 + 396 * r.txPdus.length ≤ r.txDescriptors := by
  have hlen : r.txPdus.length ≤ r.numberTxReq.toNat := by
    rw [DlConfigRequest.txPdus, entries, List.length_take]
    exact Nat.min_le_left _ _
  refine le_trans ?_ (le_align (by decide) _)
  rw [msgVarSize]
  split_ifs <;> omega

theorem DlConfigRequest.dvd_txDescriptors : 8 ∣ r.txDescriptors :=
  Nat.dvd_trans (by decide : 8 ∣ 64) (dvd_align 64 _)

theorem apart_tx : Apart (fapiP7TxRequest shm phys r).body := by
  have hdesc := r.le_txDescriptors
  refine apart_append.2 ⟨apart_append.2 ⟨?_, apart_pduStores hdesc, ?_⟩, ?_, ?_⟩
  · simp only [apart_cons, span_cons, span_nil, footprint, length_bigEndian, Set.union_empty,
      Set.disjoint_union_right, Set.Ico_disjoint_Ico, apart_nil, Set.disjoint_empty, and_true]
    omega
  · rw [Set.disjoint_left]
    intro x hx hx'
    have := span_pduStores hx'
    simp only [span_cons, span_nil, footprint, length_bigEndian, Set.mem_union, Set.mem_Ico,
      Set.mem_empty_iff_false, or_false] at hx
    omega
  · simp [apart_cons]
  · rw [Set.disjoint_left]
    intro x hx hx'
    simp only [span_append, span_cons, span_nil, footprint, length_bigEndian, Set.mem_union,
      Set.mem_Ico, Set.mem_empty_iff_false, or_false] at hx hx'
    rcases hx with hx | hx
    · omega
    · have := span_pduStores hx
      omega

theorem readTx_eq (h : r.WithinCapacity) (hmap : shm.Maps phys)
    (hfit : 16 + r.txLength ≤ fapiTxReqBufSize)
    (hm : Holds mem (phys.toNat + 16) (fapiP7TxRequest shm phys r).body) :
    readTx shm mem (phys.toNat + 16) = r.txView := by
  obtain ⟨hm', -⟩ := holds_append.1 hm
  have hnum : readWord mem (phys.toNat + 16 + 12) = r.numberTxReq :=
    readWord_of_holds hm (by simp [fapiP7TxRequest])
  simp only [readTx, DlConfigRequest.txView, TxView.mk.injEq, hnum, true_and]
  refine ⟨readWord_of_holds hm (by simp [fapiP7TxRequest]), ?_⟩
  rw [← length_entries r.txRequestPduList h.txReq]
  exact map_readTxPdu hmap h.segments (holds_append.1 hm').2 hfit

theorem readRegions_packed (h : r.WithinCapacity) (hmap : shm.Maps phys)
    (hfit : 16 + r.txLength ≤ fapiTxReqBufSize)
    (hm : Holds mem (phys.toNat + 16) (fapiP7TxRequest shm phys r).body) :
    Packed r.txDescriptors r.txLength (readRegions mem (phys.toNat + 16)) := by
  obtain ⟨hm', -⟩ := holds_append.1 hm
  have hnum : readWord mem (phys.toNat + 16 + 12) = r.numberTxReq :=
    readWord_of_holds hm (by simp [fapiP7TxRequest])
  rw [readRegions, hnum, ← length_entries r.txRequestPduList h.txReq]
  refine (flatMap_pduDescriptors_eq h.segments (holds_append.1 hm').2) ▸
    packed_regions (fun off hoff ↦ ?_) r.dvd_txDescriptors
  exact dataAddr_toNat hmap off (le_trans (Nat.add_le_add_left hoff 16) hfit)

/-- A reader that follows the layout finds in the message what the request holds, and the data
of TX.request lies packed behind the descriptors. -/
theorem requests_decode (L : Layout) (shm : Shm) (i : Fin fapiTxReqBufNum) (snap : Mem)
    (h : r.WithinCapacity) (hmap : shm.Maps (L.phys ⟨.request, i⟩)) :
    let b : Buffer := ⟨.request, i⟩
    let msg := L.base b + 16
    readDlConfig (built L b (fapiP7DlConfigRequest r) snap) msg = r.dlConfigView ∧
    readHiDci0 (built L b (fapiP7HiDci0Request r) snap) msg = r.hiDci0View ∧
    (16 + r.txLength ≤ fapiTxReqBufSize →
      let mem := built L b (fapiP7TxRequest shm (L.phys b) r) snap
      readTx shm mem msg = r.txView ∧
      (readRegions mem msg).Pairwise (fun x y ↦ Memory.Disjoint x.1 x.2 y.1 y.2) ∧
      ∀ x ∈ readRegions mem msg, r.txDescriptors ≤ x.1 ∧ 8 ∣ x.1 ∧
        x.1 + x.2 ≤ (readWord mem (msg + 4)).toNat) := by
  intro b msg
  refine ⟨readDlConfig_eq h (holds_built L b (apart_dlConfig h) snap),
    readHiDci0_eq h (holds_built L b (apart_hiDci0 h) snap), fun hfit ↦ ?_⟩
  intro mem
  have hm : Holds mem msg (fapiP7TxRequest shm (L.phys b) r).body := holds_built L b apart_tx snap
  have hlen : (readWord mem (msg + 4)).toNat = r.txLength := by
    rw [readWord_of_holds hm (w := .ofNat 32 r.txLength) (by simp [fapiP7TxRequest]),
      BitVec.toNat_ofNat, Nat.mod_eq_of_lt]
    have : fapiTxReqBufSize < 2 ^ 32 := by decide
    omega
  obtain ⟨hordered, hwithin⟩ := readRegions_packed h hmap hfit hm
  refine ⟨readTx_eq h hmap hfit hm, hordered.imp Or.inl, fun x hx ↦ ?_⟩
  obtain ⟨hlo, h8, hhi⟩ := hwithin x hx
  exact ⟨hlo, h8, hlen ▸ hhi⟩

section Example

def oneBlock : DlConfigRequest where
  frame := 5
  subframe := 3
  numberPdcchOfdmSymbols := 2
  numberDci := 1
  numberPdu := 1
  numberTxReq := 1
  numberHi := 0
  numberDci0 := 0
  numberPdschRnti := 1
  dlConfigDciList _ _ := 7
  dlConfigPduList _ _ := 8
  txRequestPduList _ :=
    { pduLength := 3
      pduIndex := 0
      numSegments := 2
      tbs := fun j ↦ if j.val = 0 then ⟨1, 3, 0, fun k ↦ .ofNat (k + 1)⟩ else ⟨0, 4, 9, fun _ ↦ 0⟩ }
  dci0List _ _ := 0
  hiList _ _ := 0

def exampleShm : Shm := ⟨0x40000000, 0x100000, 0x10000000, by decide, by decide⟩

theorem bufNum_request_pos : 0 < Pool.bufNum .request := by
  decide

def firstBuffer : Buffer := ⟨.request, ⟨0, bufNum_request_pos⟩⟩

theorem requests_decode_oneBlock :
    readDlConfig (built exampleLayout firstBuffer (fapiP7DlConfigRequest oneBlock) fun _ ↦ 0)
      (exampleLayout.base firstBuffer + 16) = oneBlock.dlConfigView ∧
    readTx exampleShm (built exampleLayout firstBuffer
        (fapiP7TxRequest exampleShm (exampleLayout.phys firstBuffer) oneBlock) fun _ ↦ 0)
      (exampleLayout.base firstBuffer + 16) = oneBlock.txView := by
  have h := requests_decode (r := oneBlock) exampleLayout exampleShm ⟨0, by decide⟩
    (fun _ ↦ 0) ⟨by decide, by decide, by decide, by decide, by decide, by decide⟩
    ⟨by decide, by decide, by decide⟩
  exact ⟨h.1, (h.2.2 (by decide)).1⟩

end Example

end EnbL1Ppc.Fapi.Requests
