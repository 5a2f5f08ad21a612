import EnbL1Ppc.Fapi.RequestBounds
import EnbL1Ppc.Generator.Linkage

namespace EnbL1Ppc.Generator

open Lib Fapi.SendBuffers Fapi.Requests

variable {cfg : Config} {ss : List Source} {r : DlConfigRequest}

/-- The size of TX.request for the sources: the descriptors up to a multiple of 64, then each
block up to a multiple of 8. -/
def txSize (cfg : Config) (ss : List Source) : ℕ :=
  align 64 (msgVarSize 412 396 ss.length) +
    (ss.map fun s ↦ align 8 (s.tbLength cfg).toNat).sum

theorem Encoded.forall₂ (h : Encoded cfg ss r) :
    List.Forall₂ (Source.Exact cfg) ss r.txPdus := by
  refine List.forall₂_iff_get.2 ⟨h.length_txPdus.symm, fun k hk hk' ↦ ?_⟩
  obtain ⟨-, tx, -, htx, -, -, -, hexact⟩ := h.entry k _ (List.getElem?_eq_getElem hk)
  rw [List.getElem?_eq_getElem hk', Option.some.injEq] at htx
  simpa [htx] using hexact

theorem foldl_next_of_exact {txs : List TxPdu} (h : List.Forall₂ (Source.Exact cfg) ss txs)
    (ptr : ℕ) : (txs.flatMap TxPdu.segments).foldl Tb.next ptr =
      ptr + (ss.map fun s ↦ align 8 (s.tbLength cfg).toNat).sum := by
  induction h generalizing ptr with
  | nil => rfl
  | @cons s t ss ts hst _ ih =>
    have htag : (t.tbs firstSegment).tag ≠ 0 := by rw [hst.tag]; decide
    rw [List.flatMap_cons, List.foldl_append, hst.segments, List.foldl_cons,
      List.foldl_nil, ih, Tb.next_of_tag htag, hst.length, List.map_cons, List.sum_cons,
      Nat.add_assoc]

theorem Encoded.txLength_eq (h : Encoded cfg ss r) : r.txLength = txSize cfg ss := by
  rw [DlConfigRequest.txLength, foldl_next_of_exact h.forall₂, DlConfigRequest.txDescriptors,
    ← h.count, h.length, txSize]

variable {stim : List Member} {g : L2FapiGenerator}

structure Sent.WritesInside (L : Layout) (shm : Shm) (o : Sent) : Prop where
  dl : ∀ i, Fapi.Requests.WritesInside L ⟨.request, i⟩ (fapiP7DlConfigRequest o.dl)
  ul : ∀ i, Fapi.Requests.WritesInside L ⟨.request, i⟩ (fapiP7UlConfigRequest o.ul)
  hiDci0 : o.SendsHiDci0 →
    ∀ i, Fapi.Requests.WritesInside L ⟨.request, i⟩ (fapiP7HiDci0Request o.dl)
  tx : o.SendsTx → ∀ i, Fapi.Requests.WritesInside L ⟨.request, i⟩
    (fapiP7TxRequest shm (L.phys ⟨.request, i⟩) o.dl)

theorem txSize_nil : 16 + txSize cfg [] ≤ fapiTxReqBufSize := by
  change 16 + (align 64 (msgVarSize 412 396 0) + 0) ≤ _
  decide

theorem Sent.Ok.writesInside_iff {o : Sent} (h : o.Ok cfg stim) (L : Layout) (shm : Shm) :
    o.WritesInside L shm ↔ 16 + txSize cfg (o.sources stim) ≤ fapiTxReqBufSize := by
  have hcount : o.dl.numberTxReq.toNat = (o.sources stim).length := by
    rw [← h.encoded.count, h.encoded.length]
  have htx : o.dl.numberTxReq.toNat ≤ fapiDlConfigMaxPdu := hcount ▸ h.encoded.pdu_within
  rw [← h.encoded.txLength_eq]
  constructor
  · intro hw
    by_cases hsend : o.SendsTx
    · exact (tx_writesInside_iff htx).1 (hw.tx hsend ⟨0, by decide⟩)
    · -- nothing is sent, and an empty message would fit
      have hzero : o.sources stim = [] := by
        rw [← List.length_eq_zero_iff, ← hcount]
        exact Nat.eq_zero_of_not_pos hsend
      rw [h.encoded.txLength_eq, hzero]
      exact txSize_nil
  · intro hle
    refine ⟨fun i ↦ dlConfig_writesInside h.encoded.dci_within, fun i ↦ ulConfig_writesInside _,
      fun _ i ↦ hiDci0_writesInside ?_, fun _ i ↦ (tx_writesInside_iff htx).2 hle⟩
    rw [h.encoded.numberDci0]
    exact Nat.zero_le _

/-- Every call of a TTI stays inside its buffer exactly if the transport blocks that it sends
fit one. -/
theorem writesInside_run_iff {ret : ℤ} (hcfg : g.config = cfg)
    (hparse : parseP7 cfg stim = some (g.stimList, ret)) (L : Layout) (shm : Shm)
    (inds : List Indication) {g' : L2FapiGenerator} {outs : List Sent}
    (h : Machine.exec tti g inds = some (g', outs)) :
    ∀ o ∈ outs, (o.WritesInside L shm ↔
      16 + txSize cfg (o.sources stim) ≤ fapiTxReqBufSize) :=
  fun o ho ↦ (exec_sent ⟨hcfg, (parseP7_loads hparse).2⟩ h o ho).writesInside_iff L shm

section Example

theorem writesInside_run_iff_shortString :
    ∃ g g' o, parseP7 exampleConfig [oneBlockMember shortString] = some (g.stimList, 0) ∧
      Machine.exec tti g [⟨0, 1⟩] = some (g', [o]) ∧ o.WritesInside exampleLayout exampleShm := by
  obtain ⟨g, g', o, hcfg, hparse, h, -, hsources⟩ := exists_single_sent rfl rfl oneBlockMember_fits
  have hrun := exec_single h
  refine ⟨g, g', o, hparse, hrun, ?_⟩
  refine (writesInside_run_iff hcfg hparse _ _ _ hrun o (List.mem_singleton_self _)).2 ?_
  rw [hsources]
  decide

def wideConfig : Config := ⟨false, 100, 0, 0⟩

def wideDlsch : Dlsch :=
  { oneBlockDlsch ⟨List.replicate 510 0, by rw [List.length_replicate]; decide⟩ with
    rbCoding := 2 ^ 22 - 1 }

def wideMember : Member := ⟨0, 1, some (List.replicate 64 (.dlsch wideDlsch))⟩

/-- The strings fit the buffer, but not behind the descriptors and in blocks of the table. -/
theorem wideMember_writes_outside :
    wideDlsch.nprb wideConfig = 88 ∧
    ∃ g g' o, parseP7 wideConfig [wideMember] = some (g.stimList, 0) ∧
      Machine.exec tti g [⟨0, 1⟩] = some (g', [o]) ∧
      ¬o.WritesInside exampleLayout exampleShm := by
  have hfits : wideMember.Fits wideConfig := by
    refine ⟨_, rfl, by decide, by decide, fun d hd ↦ ?_⟩
    obtain rfl := Element.dlsch.inj (List.eq_of_mem_replicate hd)
    exact Dlsch.not_wraps (List.length_replicate.trans_lt (by decide))
  obtain ⟨g, g', o, hcfg, hparse, h, -, hsources⟩ := exists_single_sent rfl rfl hfits
  have hrun := exec_single h
  have hok := exec_sent ⟨hcfg, (parseP7_loads hparse).2⟩ hrun o (List.mem_singleton_self _)
  refine ⟨by decide, g, g', o, hparse, hrun, ?_⟩
  have htb : wideDlsch.tbLength wideConfig = 645 := by decide +kernel
  have hwide : wideMember.sources = List.replicate 64 (.dlsch wideDlsch) := rfl
  rw [hok.writesInside_iff, hsources, hwide, txSize, List.map_replicate, Source.tbLength, htb,
    List.length_replicate, List.sum_replicate]
  decide

end Example

end EnbL1Ppc.Generator
