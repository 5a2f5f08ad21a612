import EnbL1Ppc.Generator.Linkage

namespace EnbL1Ppc.Generator

open Lib Fapi.Requests

/-! What the encoders add to a request -/

structure Filled (r r' : DlConfigRequest) (ds ps : List DlConfigPdu) (ts : List TxPdu) :
    Prop where
  dcis : r'.dcis = r.dcis ++ ds
  pdus : r'.pdus = r.pdus ++ ps
  txPdus : r'.txPdus = r.txPdus ++ ts
  numberDci : r'.numberDci = r.numberDci + .ofNat 32 ds.length
  numberPdu : r'.numberPdu = r.numberPdu + .ofNat 32 ps.length
  frame : r'.frame = r.frame
  subframe : r'.subframe = r.subframe
  numberPdcchOfdmSymbols : r'.numberPdcchOfdmSymbols = r.numberPdcchOfdmSymbols
  numberPdschRnti : r'.numberPdschRnti = r.numberPdschRnti
  numberPdu_le : r.numberPdu.toNat ≤ r'.numberPdu.toNat
  behind : ∀ i, r'.numberPdu.toNat ≤ i.val → r'.dlConfigPduList i = r.dlConfigPduList i

variable {r r' r'' : DlConfigRequest} {ds ds' ps ps' : List DlConfigPdu}
  {ts ts' : List TxPdu}

theorem Filled.refl (r : DlConfigRequest) : Filled r r [] [] [] where
  dcis := (List.append_nil _).symm
  pdus := (List.append_nil _).symm
  txPdus := (List.append_nil _).symm
  numberDci := (BitVec.add_zero _).symm
  numberPdu := (BitVec.add_zero _).symm
  frame := rfl
  subframe := rfl
  numberPdcchOfdmSymbols := rfl
  numberPdschRnti := rfl
  numberPdu_le := le_rfl
  behind _ _ := rfl

theorem Filled.trans (h : Filled r r' ds ps ts) (h' : Filled r' r'' ds' ps' ts') :
    Filled r r'' (ds ++ ds') (ps ++ ps') (ts ++ ts') where
  dcis := by rw [h'.dcis, h.dcis, List.append_assoc]
  pdus := by rw [h'.pdus, h.pdus, List.append_assoc]
  txPdus := by rw [h'.txPdus, h.txPdus, List.append_assoc]
  numberDci := by rw [h'.numberDci, h.numberDci, List.length_append, BitVec.ofNat_add,
    BitVec.add_assoc]
  numberPdu := by rw [h'.numberPdu, h.numberPdu, List.length_append, BitVec.ofNat_add,
    BitVec.add_assoc]
  frame := h'.frame.trans h.frame
  subframe := h'.subframe.trans h.subframe
  numberPdcchOfdmSymbols := h'.numberPdcchOfdmSymbols.trans h.numberPdcchOfdmSymbols
  numberPdschRnti := h'.numberPdschRnti.trans h.numberPdschRnti
  numberPdu_le := h.numberPdu_le.trans h'.numberPdu_le
  behind i hi := (h'.behind i hi).trans (h.behind i (h'.numberPdu_le.trans hi))

theorem appendDci_filled {w : DlConfigPdu}
    (h : ((setEntry r.dlConfigDciList r.numberDci fun _ ↦ w).bind fun dcis ↦
      some { r with dlConfigDciList := dcis, numberDci := r.numberDci + 1 }) = some r') :
    Filled r r' [w] [] [] := by
  obtain ⟨dcis, hdcis, h⟩ := Option.bind_eq_some_iff.1 h
  obtain rfl := Option.some.inj h
  obtain ⟨-, -, hentries⟩ := setEntry_eq_update hdcis (by decide)
  exact { Filled.refl r with dcis := hentries, numberDci := rfl }

theorem appendPdu_filled {pdu : DlConfigPdu → DlConfigPdu} {tx : TxPdu → TxPdu}
    (h : appendPdu r pdu tx = some r') :
    ∃ (hn : r.numberPdu.toNat < fapiDlConfigMaxPdu) (t : TxPdu),
      Filled r r' [] [pdu (r.dlConfigPduList ⟨r.numberPdu.toNat, hn⟩)] [tx t] := by
  obtain ⟨pdus, hpdus, h⟩ := Option.bind_eq_some_iff.1 h
  obtain ⟨txs, htxs, h⟩ := Option.bind_eq_some_iff.1 h
  obtain rfl := Option.some.inj h
  obtain ⟨hn, rfl, hentries⟩ := setEntry_eq_update hpdus (by decide)
  obtain ⟨hn', -, hentries'⟩ := setEntry_eq_update htxs (by decide)
  have hsucc := toNat_succ hn (by decide)
  refine ⟨hn, _, { Filled.refl r with
    pdus := hentries
    txPdus := hentries'
    numberPdu := rfl
    numberPdu_le := by rw [hsucc]; exact Nat.le_succ _
    behind := fun i hi ↦ ?_ }⟩
  refine Function.update_of_ne (fun heq ↦ ?_) _ _
  rw [hsucc, heq] at hi
  exact Nat.not_succ_le_self _ hi

/-! The item of a TTI -/

def isDciDl (w : DlConfigPdu) : Bool := pduType w = fapiDlConfigDciDlPduType

def isDlschPdu (e : DlConfigPdu × TxPdu) : Bool := pduType e.1 = fapiDlConfigDlschPduType

def renumber (n : BitVec 32) : List (DlConfigPdu × TxPdu) → List (DlConfigPdu × TxPdu)
  | [] => []
  | e :: es =>
    (setWords e.1 [(pduIndexWord, n)], { e.2 with pduIndex := n }) :: renumber (n + 1) es

theorem foldlM_copyDci_filled {ws : List DlConfigPdu} (h : ws.foldlM copyDci r = some r') :
    Filled r r' (ws.filter isDciDl) [] [] := by
  induction ws generalizing r with
  | nil =>
    cases h
    exact .refl _
  | cons w ws ih =>
    rw [List.foldlM_cons] at h
    obtain ⟨r₁, h₁, h⟩ := Option.bind_eq_some_iff.1 h
    rw [copyDci] at h₁
    split_ifs at h₁ with htype
    · have hw : isDciDl w = true := decide_eq_true htype
      rw [List.filter_cons_of_pos hw]
      exact (appendDci_filled h₁).trans (ih h)
    · rw [List.filter_cons_of_neg (by simpa [isDciDl] using htype)]
      obtain rfl := Option.some.inj h₁
      exact ih h

theorem foldlM_copyPdu_index {es : List (DlConfigPdu × TxPdu)}
    {s s' : DlConfigRequest × BitVec 32} (h : es.foldlM copyPdu s = some s') :
    s'.2 = s.2 + .ofNat 32 (es.filter isDlschPdu).length := by
  induction es generalizing s with
  | nil =>
    cases h
    exact (BitVec.add_zero _).symm
  | cons e es ih =>
    rw [List.foldlM_cons] at h
    obtain ⟨s₁, h₁, h⟩ := Option.bind_eq_some_iff.1 h
    rw [copyPdu] at h₁
    split_ifs at h₁ with htype
    · obtain ⟨r, -, h₁⟩ := Option.bind_eq_some_iff.1 h₁
      obtain rfl := Option.some.inj h₁
      have he : isDlschPdu e = true := decide_eq_true htype
      rw [ih h, List.filter_cons_of_pos he, List.length_cons, Nat.add_comm, BitVec.ofNat_add,
        ← BitVec.add_assoc]
      rfl
    · obtain rfl := Option.some.inj h₁
      rw [ih h, List.filter_cons_of_neg (by simpa [isDlschPdu] using htype)]

theorem foldlM_copyPdu_filled {es : List (DlConfigPdu × TxPdu)}
    {s s' : DlConfigRequest × BitVec 32} (h : es.foldlM copyPdu s = some s') :
    Filled s.1 s'.1 [] ((renumber s.2 (es.filter isDlschPdu)).map Prod.fst)
      ((renumber s.2 (es.filter isDlschPdu)).map Prod.snd) := by
  induction es generalizing s with
  | nil =>
    cases h
    exact .refl _
  | cons e es ih =>
    rw [List.foldlM_cons] at h
    obtain ⟨s₁, h₁, h⟩ := Option.bind_eq_some_iff.1 h
    rw [copyPdu] at h₁
    split_ifs at h₁ with htype
    · obtain ⟨r, hr, h₁⟩ := Option.bind_eq_some_iff.1 h₁
      obtain rfl := Option.some.inj h₁
      obtain ⟨-, t, hfill⟩ := appendPdu_filled hr
      have he : isDlschPdu e = true := decide_eq_true htype
      rw [List.filter_cons_of_pos he]
      exact hfill.trans (ih h)
    · obtain rfl := Option.some.inj h₁
      rw [List.filter_cons_of_neg (by simpa [isDlschPdu] using htype)]
      exact ih h

def StimItem.pairs (item : StimItem) : List (DlConfigPdu × TxPdu) :=
  item.dlCfgReqList.pdus.zip
    (entries item.dlCfgReqList.numberPdu item.dlCfgReqList.txRequestPduList)

theorem playItem_filled {item : StimItem} {dl : DlConfigRequest} {ul : UlConfigRequest}
    {s : (DlConfigRequest × BitVec 32) × UlConfigRequest} (h : playItem item dl ul = some s) :
    ∃ r, Filled dl r (item.dlCfgReqList.dcis.filter isDciDl)
        ((renumber 0 (item.pairs.filter isDlschPdu)).map Prod.fst)
        ((renumber 0 (item.pairs.filter isDlschPdu)).map Prod.snd) ∧
      s.1.1 = { r with
        numberPdcchOfdmSymbols := item.dlCfgReqList.numberPdcchOfdmSymbols } ∧
      s.1.2 = .ofNat 32 (item.pairs.filter isDlschPdu).length ∧
      s.2 = { phyCommonEncodePusch item ul with srsPresent := 0 } := by
  simp only [playItem, Option.bind_eq_bind, Option.bind_eq_some_iff, Option.some.injEq] at h
  obtain ⟨dl', hdl, t, ht, rfl⟩ := h
  have hdcis := foldlM_copyDci_filled hdl
  have hpdus := foldlM_copyPdu_filled ht
  have hindex := foldlM_copyPdu_index ht
  refine ⟨t.1, ?_, rfl, hindex.trans (BitVec.zero_add _), rfl⟩
  simpa [StimItem.pairs] using hdcis.trans hpdus

/-! What the parser stores -/

variable {cfg : Config} {m : Member} {item : StimItem}

/-- The first BCH or DLSCH element of the member is a BCH element, the only one that is stored. -/
def Member.BchFirst (m : Member) : Prop :=
  ((m.pdus.getD []).find? Element.isPdu).any Element.isBch = true

theorem parseElement_dcis {e : Element} (hr : ∀ w ∈ r.dcis, isDciDl w = true)
    (h : parseElement cfg r e = some r') : ∀ w ∈ r'.dcis, isDciDl w = true := by
  cases e with
  | dci d =>
    obtain ⟨-, ⟨w, hw⟩, -⟩ := appendDci_eq_some h
    rw [hw, List.forall_mem_append]
    exact ⟨hr, List.forall_mem_singleton.2 rfl⟩
  | bch b =>
    simp only [parseElement] at h
    split_ifs at h
    · exact Option.some.inj h ▸ hr
    · exact Option.some.inj h ▸ hr
    · obtain ⟨_, t, hfill⟩ := appendPdu_filled h
      rw [hfill.dcis, List.append_nil]
      exact hr
  | dlsch d =>
    obtain ⟨tx, -, h⟩ := Option.bind_eq_some_iff.1 h
    obtain ⟨_, t, hfill⟩ := appendPdu_filled h
    rw [hfill.dcis, List.append_nil]
    exact hr
  | unknown => exact Option.some.inj h ▸ hr

structure Stores (cfg : Config) (m : Member) (item : StimItem) : Prop where
  loads : Loads cfg m item
  dcis : ∀ w ∈ item.dlCfgReqList.dcis, isDciDl w = true
  bch : cfg.autoMib = false → ((∀ e ∈ item.pairs, isDlschPdu e = true) ↔ ¬m.BchFirst)

theorem countP_isDlschPdu {sel : List Element} {es : List (DlConfigPdu × TxPdu)}
    (h : List.Forall₂ (Parses cfg) sel es) :
    es.countP isDlschPdu = (sel.filterMap Element.dlsch?).length := by
  induction h with
  | nil => rfl
  | @cons e x sel es hex _ ih =>
    cases e with
    | dlsch d =>
      have hx : isDlschPdu x = true := decide_eq_true hex.1
      rw [List.countP_cons_of_pos hx, ih]
      rfl
    | bch b =>
      have hx : ¬isDlschPdu x = true := by
        rw [isDlschPdu, show pduType x.1 = fapiDlConfigBchPduType from hex]
        decide
      rw [List.countP_cons_of_neg hx, ih]
      rfl
    | dci d => exact hex.elim
    | unknown => exact hex.elim

theorem length_filterMap_dlsch (es : List Element) :
    (es.filterMap Element.dlsch?).length = es.countP Element.isDlsch := by
  rw [List.length_filterMap_eq_countP]
  refine List.countP_congr fun e _ ↦ ?_
  cases e <;> rfl

theorem parseP7DlCfg_stores {q : DlConfigRequest × ℤ} (h : parseP7DlCfg cfg m = some q) :
    Stores cfg m ⟨m.tti, q.1, parseP7UlCfg.1⟩ := by
  have hloads := (parseP7DlCfg_loads h).2
  obtain ⟨es, hes, h⟩ := Option.bind_eq_some_iff.1 h
  obtain ⟨r, hr, h⟩ := Option.bind_eq_some_iff.1 h
  obtain rfl := Option.some.inj h
  refine ⟨hloads, ?_, fun hauto ↦ ?_⟩
  · refine @OptionFold.foldlM_invariant _ _ _ (fun _ r ↦ ∀ w ∈ r.dcis, isDciDl w = true)
      parseElement_dcis [] es _ _ ?_ hr
    exact fun w hw ↦ absurd hw List.not_mem_nil
  · have hp : Parsed cfg ([] ++ es) r :=
      OptionFold.foldlM_invariant parseElement_parsed (parsed_zeroDl m.cfi) hr
    have hc : Counted cfg ([] ++ es) r :=
      OptionFold.foldlM_invariant Counted.step (counted_zeroDl m.cfi) hr
    obtain ⟨sel, hsel, hdl⟩ := hp.kept
    have hpairs : StimItem.pairs ⟨m.tti, r, parseP7UlCfg.1⟩ = r.pdus.zip r.txPdus := by
      rw [StimItem.pairs, hp.count]
      rfl
    have hlen : (r.pdus.zip r.txPdus).length = r.numberPdu.toNat := by
      rw [List.length_zip, DlConfigRequest.pdus, DlConfigRequest.txPdus, ← hp.count,
        length_entries _ hp.pdu_within, length_entries _ hp.pdu_within, Nat.min_self]
    rw [hpairs, ← List.countP_eq_length, countP_isDlschPdu hsel, hdl, length_filterMap_dlsch, hlen,
      hc.pdu, pduCount, Member.BchFirst, hes, hauto]
    simp

/-! What a TTI emits -/

/-- The PDU stands in DL_CONFIG.request, and the data of its TX PDU in a TX.request that is sent,
in a PDU with the same index. -/
def Sent.Carries (o : Sent) (e : DlConfigPdu × TxPdu) : Prop :=
  ∃ i, setWords e.1 [(pduIndexWord, i)] ∈ o.dl.pdus ∧ o.SendsTx ∧
    ∃ tx ∈ o.dl.txPdus, tx.pduIndex = i ∧ 0 < tx.numSegments ∧
      txData tx = (e.2.tbs firstSegment).bytes

structure Sent.Complete (o : Sent) (item : StimItem) : Prop where
  dcis : ∀ w ∈ item.dlCfgReqList.dcis, w ∈ o.dl.dcis
  pdus : ∀ e ∈ item.pairs, o.Carries e

theorem mem_renumber {e : DlConfigPdu × TxPdu} {es : List (DlConfigPdu × TxPdu)} (h : e ∈ es)
    (n : BitVec 32) :
    ∃ i, (setWords e.1 [(pduIndexWord, i)], { e.2 with pduIndex := i }) ∈ renumber n es := by
  induction es generalizing n with
  | nil => cases h
  | cons x es ih =>
    rcases List.mem_cons.1 h with rfl | h
    · exact ⟨n, List.mem_cons_self⟩
    · obtain ⟨i, hi⟩ := ih h (n + 1)
      exact ⟨i, List.mem_cons_of_mem _ hi⟩

theorem exists_of_mem_renumber {x : DlConfigPdu × TxPdu} {es : List (DlConfigPdu × TxPdu)}
    {n : BitVec 32} (h : x ∈ renumber n es) :
    ∃ e ∈ es, ∃ i, x = (setWords e.1 [(pduIndexWord, i)], { e.2 with pduIndex := i }) := by
  induction es generalizing n with
  | nil => cases h
  | cons e es ih =>
    rcases List.mem_cons.1 h with rfl | h
    · exact ⟨e, List.mem_cons_self, n, rfl⟩
    · obtain ⟨e', he', hx⟩ := ih h
      exact ⟨e', List.mem_cons_of_mem _ he', hx⟩

theorem hasBlock_of_parses {sel : List Element} {es : List (DlConfigPdu × TxPdu)}
    (h : List.Forall₂ (Parses cfg) sel es) {x : DlConfigPdu × TxPdu} (hx : x ∈ es)
    (htype : isDlschPdu x = true) : ∃ len block, HasBlock x.2 len block := by
  induction h with
  | nil => cases hx
  | @cons e y sel es hey _ ih =>
    rcases List.mem_cons.1 hx with rfl | hx
    · cases e with
      | dlsch d => exact ⟨_, _, hey.2.1⟩
      | bch b =>
        rw [isDlschPdu, show pduType x.1 = fapiDlConfigBchPduType from hey] at htype
        cases htype
      | dci d => exact hey.elim
      | unknown => exact hey.elim
    · exact ih hx

theorem pos_of_mem_txPdus {tx : TxPdu} (h : tx ∈ r.txPdus) : 0 < r.numberTxReq := by
  have hpos := List.length_pos_of_mem h
  rw [DlConfigRequest.txPdus, entries, List.length_take] at hpos
  exact BitVec.lt_def.2 (by change 0 < _; omega)

variable {o : Sent}

theorem complete_iff (hauto : cfg.autoMib = false) (hitem : Stores cfg m item)
    (hdcis : o.dl.dcis = item.dlCfgReqList.dcis.filter isDciDl)
    (hpdus : o.dl.pdus = (renumber 0 (item.pairs.filter isDlschPdu)).map Prod.fst)
    (htxs : o.dl.txPdus = (renumber 0 (item.pairs.filter isDlschPdu)).map Prod.snd) :
    o.Complete item ↔ ¬m.BchFirst := by
  rw [← hitem.bch hauto]
  constructor
  · intro hcomplete e he
    obtain ⟨i, hi, -⟩ := hcomplete.pdus e he
    rw [hpdus, List.mem_map] at hi
    obtain ⟨x, hx, hxi⟩ := hi
    obtain ⟨e', he', j, rfl⟩ := exists_of_mem_renumber hx
    have htype : pduType (setWords e.1 [(pduIndexWord, i)]) = _ := congrArg pduType hxi.symm
    change pduType e.1 = pduType e'.1 at htype
    rw [isDlschPdu, htype]
    exact (List.mem_filter.1 he').2
  · intro hall
    rw [List.filter_eq_self.2 hall] at hpdus htxs
    obtain ⟨sel, hsel, -⟩ := hitem.loads.kept
    refine ⟨fun w hw ↦ ?_, fun e he ↦ ?_⟩
    · rw [hdcis]
      exact List.mem_filter.2 ⟨hw, hitem.dcis w hw⟩
    · obtain ⟨i, hi⟩ := mem_renumber he 0
      have htx : { e.2 with pduIndex := i } ∈ o.dl.txPdus := by
        rw [htxs]
        exact List.mem_map_of_mem hi
      obtain ⟨len, block, hblock⟩ := hasBlock_of_parses hsel he (hall e he)
      refine ⟨i, ?_, pos_of_mem_txPdus htx, _, htx, rfl, ?_, ?_⟩
      · rw [hpdus]
        exact List.mem_map_of_mem hi
      · rw [hblock.numSegments]
        decide
      · rw [txData, (hblock.withIndex i).segments, List.flatMap_singleton]

variable {stim : List Member} {g g' : L2FapiGenerator} {ind : Indication} {outs : List Sent}

theorem tti_played {k : ℕ} (hauto : g.config.autoMib = false) (h : tti g ind = some (g', outs))
    (ho : o ∈ outs) (hk : o.played = some k) (hitem : g.stimList[k]? = some item) :
    o.dl.dcis = item.dlCfgReqList.dcis.filter isDciDl ∧
      o.dl.pdus = (renumber 0 (item.pairs.filter isDlschPdu)).map Prod.fst ∧
      o.dl.txPdus = (renumber 0 (item.pairs.filter isDlschPdu)).map Prod.snd := by
  obtain ⟨sf, item', s, t, hitem', hs, ht, -, rfl⟩ := tti_eq_some h
  obtain rfl := List.mem_singleton.1 ho
  rw [playDue] at hs
  split_ifs at hk hs with hdue
  · cases hk
    obtain rfl := Option.some.inj (hitem.symm.trans hitem')
    rw [encodeMib, hauto, if_neg Bool.false_ne_true] at ht
    obtain rfl := Option.some.inj ht
    obtain ⟨r, hfill, hr, -⟩ := playItem_filled hs
    dsimp only
    rw [hr]
    exact ⟨hfill.dcis, hfill.pdus, hfill.txPdus⟩

theorem tti_complete_iff {k : ℕ} (hauto : cfg.autoMib = false) (hcfg : g.config = cfg)
    (hparse : parseP7 cfg stim = some (g.stimList, 0)) (h : tti g ind = some (g', outs))
    (ho : o ∈ outs) (hk : o.played = some k) (hm : stim[k]? = some m)
    (hitem : g.stimList[k]? = some item) : o.Complete item ↔ ¬m.BchFirst := by
  have hstores := (parseP7_forall₂ parseP7DlCfg_stores hparse).2
  obtain ⟨hdcis, hpdus, htxs⟩ := tti_played (hcfg ▸ hauto) h ho hk hitem
  obtain ⟨hlt, rfl⟩ := List.getElem?_eq_some_iff.1 hm
  obtain ⟨hlt', rfl⟩ := List.getElem?_eq_some_iff.1 hitem
  exact complete_iff hauto (List.Forall₂.get hstores hlt hlt') hdcis hpdus htxs

/-- Without automatic MIBs, a TTI that plays an item sends everything that is stored in it exactly
if that is no BCH PDU. -/
theorem stored_emitted_iff (hauto : cfg.autoMib = false) (hcfg : g.config = cfg)
    (hparse : parseP7 cfg stim = some (g.stimList, 0)) :
    (∀ ind : Indication, g.stimPtr < stim.length → ind.subframe.toNat < 10 →
      ∃ r, tti g ind = some r) ∧
    ∀ ind g' outs, tti g ind = some (g', outs) → ∀ o ∈ outs, ∀ k m item, o.played = some k →
      stim[k]? = some m → g.stimList[k]? = some item → (o.Complete item ↔ ¬m.BchFirst) := by
  refine ⟨fun ind hptr hsf ↦ ?_, fun ind g' outs h o ho k m item hk hm hitem ↦
    tti_complete_iff hauto hcfg hparse h ho hk hm hitem⟩
  have hg : Loaded cfg stim g := ⟨hcfg, (parseP7_loads hparse).2⟩
  refine (exists_tti_iff ind hg (List.getElem?_eq_getElem hptr) hsf).2 fun h ↦ ?_
  rw [hauto] at h
  cases h

section Example

theorem exists_item (hparse : parseP7 exampleConfig [m] = some (g.stimList, 0)) :
    ∃ item, g.stimList[0]? = some item := by
  have hlen := (parseP7_loads hparse).2.length_eq
  exact ⟨_, List.getElem?_eq_getElem (by rw [← hlen]; exact Nat.one_pos)⟩

theorem stored_emitted_iff_oneBlock :
    ∃ g g' o item, parseP7 exampleConfig [oneBlockMember shortString] = some (g.stimList, 0) ∧
      tti g ⟨0, 1⟩ = some (g', [o]) ∧ g.stimList[0]? = some item ∧ o.Complete item := by
  obtain ⟨g, g', o, hcfg, hparse, h, hplayed, -⟩ := exists_single_sent rfl rfl oneBlockMember_fits
  obtain ⟨item, hitem⟩ := exists_item hparse
  refine ⟨g, g', o, item, hparse, h, hitem, ?_⟩
  exact ((stored_emitted_iff rfl hcfg hparse).2 _ _ _ h o (List.mem_singleton_self _) _ _ _ hplayed
    rfl hitem).2 (by rw [Member.BchFirst]; decide)

def bchMember : Member := ⟨0, 1, some [.bch ⟨shortString, 0⟩]⟩

/-- A BCH PDU that is stored is not sent. -/
theorem bch_not_emitted :
    ∃ g g' o item, g.config = exampleConfig ∧
      parseP7 exampleConfig [bchMember] = some (g.stimList, 0) ∧
      tti g ⟨0, 1⟩ = some (g', [o]) ∧ o.played = some 0 ∧ g.stimList[0]? = some item ∧
      ¬o.Complete item := by
  have hfits : bchMember.Fits exampleConfig :=
    ⟨_, rfl, Nat.zero_le _, by decide, blocksFit_skip rfl⟩
  obtain ⟨g, g', o, hcfg, hparse, h, hplayed, -⟩ := exists_single_sent rfl rfl hfits
  obtain ⟨item, hitem⟩ := exists_item hparse
  refine ⟨g, g', o, item, hcfg, hparse, h, hplayed, hitem, ?_⟩
  rw [tti_complete_iff rfl hcfg hparse h (List.mem_singleton_self _) hplayed rfl hitem,
    Member.BchFirst]
  decide

end Example

end EnbL1Ppc.Generator
