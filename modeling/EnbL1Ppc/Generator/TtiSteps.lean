import EnbL1Ppc.Generator.Pairing

namespace EnbL1Ppc.Generator

open Lib Lib.OptionFold Fapi.Requests

variable {cfg : Config} {r r' : DlConfigRequest} {ss : List Source}

theorem Encoded.of_eq (h : Encoded cfg ss r) (hpdus : r'.pdus = r.pdus)
    (htxs : r'.txPdus = r.txPdus) (hpdu : r'.numberPdu = r.numberPdu)
    (htx : r'.numberTxReq = r.numberTxReq) (hdci0 : r'.numberDci0 = r.numberDci0)
    (hhi : r'.numberHi = r.numberHi) (hdci : r'.numberDci.toNat ≤ fapiDlConfigMaxPdu) :
    Encoded cfg ss r' := by
  refine ⟨⟨?_, ?_, ?_⟩, h.pdu_within, hdci, hdci0 ▸ h.numberDci0, hhi ▸ h.numberHi⟩
  · rw [hpdu, htx, h.count]
  · rw [hpdu, h.length]
  · rw [hpdus, htxs]
    exact h.entry

theorem encoded_clearDl (cfg : Config) (ind : Indication) (r : DlConfigRequest) :
    Encoded cfg [] (clearDl ind r) where
  count := rfl
  length := rfl
  entry k s h := by simp at h
  pdu_within := Nat.zero_le _
  dci_within := Nat.zero_le _
  numberDci0 := rfl
  numberHi := rfl

theorem copyDci_encoded {w : DlConfigPdu} (h : Encoded cfg ss r) (hr : copyDci r w = some r') :
    Encoded cfg ss r' ∧ r'.numberDci.toNat ≤ r.numberDci.toNat + 1 := by
  unfold copyDci at hr
  split_ifs at hr
  · obtain ⟨hlt, -, hdci, hpdu, htx, hpdus, htxs, hdci0, hhi⟩ := appendDci_eq_some hr
    have hsucc := toNat_succ hlt (by decide)
    rw [← hdci] at hsucc
    exact ⟨h.of_eq hpdus htxs hpdu htx hdci0 hhi (hsucc ▸ hlt), hsucc.le⟩
  · obtain rfl := Option.some.inj hr
    exact ⟨h, Nat.le_succ _⟩

theorem exists_copyDci (h : r.numberDci.toNat < fapiDlConfigMaxPdu) (w : DlConfigPdu) :
    ∃ r', copyDci r w = some r' := by
  unfold copyDci
  split_ifs
  · obtain ⟨dcis, hdcis⟩ := exists_setEntry (a := r.dlConfigDciList) (fun _ ↦ w) h
    exact ⟨_, by rw [hdcis]; rfl⟩
  · exact ⟨r, rfl⟩

structure DciCopied (cfg : Config) (ss : List Source) (n : ℕ) (ws : List DlConfigPdu)
    (r : DlConfigRequest) : Prop where
  encoded : Encoded cfg ss r
  dci_le : r.numberDci.toNat ≤ n + ws.length

theorem DciCopied.step {n : ℕ} {ws : List DlConfigPdu} {w : DlConfigPdu}
    (h : DciCopied cfg ss n ws r) (hr : copyDci r w = some r') :
    DciCopied cfg ss n (ws ++ [w]) r' := by
  obtain ⟨hencoded, hle⟩ := copyDci_encoded h.encoded hr
  refine ⟨hencoded, hle.trans ?_⟩
  rw [List.length_append, List.length_singleton, ← Nat.add_assoc]
  exact Nat.add_le_add_right h.dci_le 1

variable {item : StimItem}

theorem encodePdcchDl_encoded (h : Encoded cfg ss r)
    (hr : phyCommonEncodePdcchDl item r = some r') : Encoded cfg ss r' := by
  have h0 : DciCopied cfg ss r.numberDci.toNat [] r := ⟨h, le_rfl⟩
  exact (foldlM_invariant DciCopied.step h0 hr).encoded

theorem exists_encodePdcchDl (h : Encoded cfg ss r)
    (hle : r.numberDci.toNat + item.dlCfgReqList.dcis.length ≤ fapiDlConfigMaxPdu) :
    ∃ r', phyCommonEncodePdcchDl item r = some r' := by
  have h0 : DciCopied cfg ss r.numberDci.toNat [] r := ⟨h, le_rfl⟩
  refine exists_foldlM DciCopied.step (fun xs x zs b hws hb ↦ ?_) h0
  refine exists_copyDci (lt_of_le_of_lt hb.dci_le ?_) x
  rw [hws, List.length_append, List.length_cons] at hle
  omega

structure Loads (cfg : Config) (m : Member) (item : StimItem) : Prop where
  tti : item.tti = m.tti
  ul : item.ulCfgReqList = zeroUl
  parsed : ∃ es, m.pdus = some es ∧ Parsed cfg es item.dlCfgReqList

variable {m : Member}

def Member.sources (m : Member) : List Source := dlschSources (m.pdus.getD [])

theorem Loads.kept (h : Loads cfg m item) :
    ∃ sel, List.Forall₂ (Parses cfg) sel (item.dlCfgReqList.pdus.zip
        (entries item.dlCfgReqList.numberPdu item.dlCfgReqList.txRequestPduList)) ∧
      dlschSources sel = m.sources := by
  obtain ⟨es, hes, hp⟩ := h.parsed
  obtain ⟨sel, hsel, hdl⟩ := hp.kept
  refine ⟨sel, ?_, ?_⟩
  · rw [hp.count]
    exact hsel
  · rw [Member.sources, hes, Option.getD_some, dlschSources, hdl, dlschSources]

theorem Forall₂.length_le_pdus {sel : List Element} {q : DlConfigRequest} {txs : List TxPdu}
    (h : List.Forall₂ (Parses cfg) sel (q.pdus.zip txs)) : sel.length ≤ q.numberPdu.toNat := by
  rw [h.length_eq, List.length_zip, DlConfigRequest.pdus, entries, List.length_take]
  exact (Nat.min_le_left _ _).trans (Nat.min_le_left _ _)

theorem playItem_indexed {dl : DlConfigRequest} {ul : UlConfigRequest}
    {s : (DlConfigRequest × BitVec 32) × UlConfigRequest} (hitem : Loads cfg m item)
    (h : Encoded cfg [] dl) (hs : playItem item dl ul = some s) :
    Indexed cfg m.sources s.1 ∧ s.2.numberPdu = 0 := by
  simp only [playItem, Option.bind_eq_bind, Option.bind_eq_some_iff, Option.some.injEq] at hs
  obtain ⟨dl', hdl, t, ht, rfl⟩ := hs
  obtain ⟨sel, hsel, hdl'⟩ := hitem.kept
  have hi : Indexed cfg [] (dl', 0) := ⟨encodePdcchDl_encoded h hdl, rfl⟩
  have hi := foldlM_copyPdu_indexed hsel hi ht
  rw [List.nil_append, hdl'] at hi
  refine ⟨⟨hi.encoded.of_eq rfl rfl rfl rfl rfl rfl hi.encoded.dci_within, hi.index⟩, ?_⟩
  rw [phyCommonEncodePusch, hitem.ul]
  rfl

theorem exists_playItem {dl : DlConfigRequest} (ul : UlConfigRequest) (hitem : Loads cfg m item)
    (h : Encoded cfg [] dl) (hdci : dl.numberDci = 0) :
    ∃ s, playItem item dl ul = some s := by
  obtain ⟨es, hes, hp⟩ := hitem.parsed
  obtain ⟨sel, hsel, -⟩ := hitem.kept
  have hlen : item.dlCfgReqList.dcis.length ≤ fapiDlConfigMaxPdu :=
    (length_entries _ hp.dci_within).trans_le hp.dci_within
  obtain ⟨dl', hdl⟩ := exists_encodePdcchDl h (by rw [hdci]; simpa using hlen)
  have hi : Indexed cfg [] (dl', 0) := ⟨encodePdcchDl_encoded h hdl, rfl⟩
  obtain ⟨s, hs⟩ := exists_foldlM_copyPdu hsel hi
    (by simpa using (Forall₂.length_le_pdus hsel).trans hp.pdu_within)
  exact ⟨_, by rw [playItem, hdl, Option.bind_eq_bind, Option.bind_some, phyCommonEncodePdsch, hs]
               rfl⟩

/-! The MIB -/

theorem encodeBch_encoded {frame sf : BitVec 32} {s : DlConfigRequest × BitVec 32}
    {t : DlConfigRequest × Option (List UInt8)} (h : Indexed cfg ss s)
    (ht : phyCommonEncodeBch cfg frame sf s = some t) :
    Encoded cfg (ss ++ t.2.toList.map Source.mib) t.1 := by
  unfold phyCommonEncodeBch at ht
  split_ifs at ht
  · obtain rfl := Option.some.inj ht
    simpa using h.encoded
  · obtain ⟨r, hr, ht⟩ := Option.bind_eq_some_iff.1 ht
    obtain rfl := Option.some.inj ht
    obtain ⟨w, tx, ha⟩ := appendPdu_eq_some hr
    refine h.encoded.append ha rfl h.index h.index ⟨?_, le_rfl⟩
    constructor <;> simp [setFirstTb, Source.tbLength, Source.octets]
  · obtain rfl := Option.some.inj ht
    simpa using h.encoded

theorem exists_encodeBch_iff (frame sf : BitVec 32) {s : DlConfigRequest × BitVec 32}
    (h : Indexed cfg ss s) :
    (∃ t, phyCommonEncodeBch cfg frame sf s = some t) ↔
      (sf = 0 ∧ frame &&& 3 = 0 → ss.length < fapiDlConfigMaxPdu) := by
  unfold phyCommonEncodeBch
  split_ifs with hsf hframe
  · exact iff_of_true ⟨_, rfl⟩ fun hdue ↦ absurd hdue.1 hsf
  · rw [ne_eq, not_not] at hsf
    constructor
    · rintro ⟨t, ht⟩ -
      obtain ⟨r, hr, -⟩ := Option.bind_eq_some_iff.1 ht
      obtain ⟨w, tx, ha⟩ := appendPdu_eq_some hr
      exact h.encoded.length ▸ ha.pdu_lt
    · intro hlt
      obtain ⟨hpdu, htx⟩ := h.numberPdu_lt (hlt ⟨hsf, hframe⟩)
      obtain ⟨r, hr⟩ := exists_appendPdu _ _ hpdu htx
      exact ⟨_, Option.bind_eq_some_iff.2 ⟨r, hr, rfl⟩⟩
  · exact iff_of_true ⟨_, rfl⟩ fun hdue ↦ absurd hdue.2 hframe

/-! One TTI -/

structure Loaded (cfg : Config) (stim : List Member) (g : L2FapiGenerator) : Prop where
  config : g.config = cfg
  items : List.Forall₂ (Loads cfg) stim g.stimList

/-- What stands behind the requests of a TTI: the DLSCH elements of the member that it played,
then the MIB that it built. -/
def Sent.sources (stim : List Member) (o : Sent) : List Source :=
  (o.played.bind fun i ↦ stim[i]?).elim [] Member.sources ++ o.mib.toList.map Source.mib

variable {stim : List Member} {g g' : L2FapiGenerator} {ind : Indication} {outs : List Sent}

theorem Loaded.member (hg : Loaded cfg stim g) (hitem : g.stimList[g.stimPtr]? = some item) :
    ∃ m, stim[g.stimPtr]? = some m ∧ Loads cfg m item := by
  obtain ⟨hlt, hitem⟩ := List.getElem?_eq_some_iff.1 hitem
  have hlt' : g.stimPtr < stim.length := hg.items.length_eq ▸ hlt
  exact ⟨_, List.getElem?_eq_getElem hlt', hitem ▸ List.Forall₂.get hg.items hlt' hlt⟩

theorem tti_at {sf : Fin 10} (hsf : ind.subframe.toNat = sf.val)
    (h : tti g ind = some (g', outs)) :
    ∃ item s t, g.stimList[g.stimPtr]? = some item ∧
      playDue g ind item (clearDl ind (g.schedDlConfigReq sf))
        (clearUl ind (g.schedUlConfigReq sf)) = some s ∧
      encodeMib g.config ind s.1 = some t ∧ g' = g.after ind item sf t.1 s.2 ∧
      outs = [⟨if due g ind item then some g.stimPtr else none, t.2, t.1, s.2⟩] := by
  have hlt : ind.subframe.toNat < 10 := hsf ▸ sf.isLt
  obtain rfl : sf = ⟨ind.subframe.toNat, hlt⟩ := Fin.ext hsf.symm
  rw [tti, dif_pos hlt] at h
  simp only [Option.bind_eq_bind, Option.bind_eq_some_iff, Option.some.injEq,
    Prod.mk.injEq] at h
  obtain ⟨item, hitem, s, hs, t, ht, rfl, rfl⟩ := h
  exact ⟨item, s, t, hitem, hs, ht, rfl, rfl⟩

theorem tti_subframe_lt (h : tti g ind = some (g', outs)) : ind.subframe.toNat < 10 := by
  by_contra hge
  rw [tti, dif_neg hge] at h
  cases h

theorem tti_eq_some (h : tti g ind = some (g', outs)) :
    ∃ sf item s t, g.stimList[g.stimPtr]? = some item ∧
      playDue g ind item (clearDl ind (g.schedDlConfigReq sf))
        (clearUl ind (g.schedUlConfigReq sf)) = some s ∧
      encodeMib g.config ind s.1 = some t ∧ g' = g.after ind item sf t.1 s.2 ∧
      outs = [⟨if due g ind item then some g.stimPtr else none, t.2, t.1, s.2⟩] := by
  have hsf : ind.subframe.toNat = (⟨ind.subframe.toNat, tti_subframe_lt h⟩ : Fin 10).val := rfl
  exact ⟨_, tti_at hsf h⟩

theorem playDue_indexed {dl : DlConfigRequest} {ul : UlConfigRequest}
    {s : (DlConfigRequest × BitVec 32) × UlConfigRequest} (hitem : Loads cfg m item)
    (h : Encoded cfg [] dl) (hul : ul.numberPdu = 0) (hs : playDue g ind item dl ul = some s) :
    Indexed cfg (if due g ind item then m.sources else []) s.1 ∧ s.2.numberPdu = 0 := by
  unfold playDue at hs
  split_ifs at hs ⊢
  · exact playItem_indexed hitem h hs
  · obtain rfl := Option.some.inj hs
    exact ⟨⟨h, rfl⟩, hul⟩

theorem encodeMib_encoded {s : DlConfigRequest × BitVec 32}
    {t : DlConfigRequest × Option (List UInt8)} (h : Indexed cfg ss s)
    (ht : encodeMib cfg ind s = some t) : Encoded cfg (ss ++ t.2.toList.map Source.mib) t.1 := by
  unfold encodeMib at ht
  split_ifs at ht
  · exact encodeBch_encoded h ht
  · obtain rfl := Option.some.inj ht
    simpa using h.encoded

theorem encodeMib_length {s : DlConfigRequest × BitVec 32}
    {t : DlConfigRequest × Option (List UInt8)} (ht : encodeMib cfg ind s = some t) :
    ∀ bs ∈ t.2, bs.length = 3 := by
  unfold encodeMib phyCommonEncodeBch at ht
  split_ifs at ht
  · obtain rfl := Option.some.inj ht
    exact fun _ h ↦ absurd h (Option.not_mem_none _)
  · obtain ⟨r, -, ht⟩ := Option.bind_eq_some_iff.1 ht
    obtain rfl := Option.some.inj ht
    intro bs hbs
    obtain rfl := Option.some.inj hbs
    rfl
  · obtain rfl := Option.some.inj ht
    exact fun _ h ↦ absurd h (Option.not_mem_none _)
  · obtain rfl := Option.some.inj ht
    exact fun _ h ↦ absurd h (Option.not_mem_none _)

theorem tti_sent (hg : Loaded cfg stim g) (h : tti g ind = some (g', outs)) :
    Loaded cfg stim g' ∧
      ∃ o, outs = [o] ∧ Encoded cfg (o.sources stim) o.dl ∧ o.ul.numberPdu = 0 ∧
        ∀ bs ∈ o.mib, bs.length = 3 := by
  obtain ⟨sf, item, s, t, hitem, hs, ht, rfl, rfl⟩ := tti_eq_some h
  obtain ⟨m, hm, hload⟩ := hg.member hitem
  obtain ⟨hi, hul⟩ := playDue_indexed hload (encoded_clearDl cfg ind _) rfl hs
  refine ⟨⟨hg.config, hg.items⟩, _, rfl, ?_, hul, encodeMib_length ht⟩
  have hsources : Sent.sources stim ⟨if due g ind item then some g.stimPtr else none, t.2, t.1,
      s.2⟩ = (if due g ind item then m.sources else []) ++ t.2.toList.map Source.mib := by
    unfold Sent.sources
    split_ifs
    · rw [Option.bind_some, hm]
      rfl
    · rfl
  rw [hsources]
  exact encodeMib_encoded hi (hg.config ▸ ht)

theorem tti_stimPtr_lt (hlt : g.stimPtr < g.stimList.length) (h : tti g ind = some (g', outs)) :
    g'.stimPtr < g'.stimList.length := by
  obtain ⟨sf, item, s, t, -, -, -, rfl, -⟩ := tti_eq_some h
  simp only [L2FapiGenerator.after]
  split_ifs <;> omega

def Indication.MibDue (ind : Indication) : Prop := ind.subframe = 0 ∧ ind.frame &&& 3 = 0

instance (ind : Indication) : Decidable ind.MibDue := inferInstanceAs (Decidable (_ ∧ _))

theorem exists_playDue (ind : Indication) (sf : Fin 10) (hload : Loads cfg m item) :
    ∃ s, playDue g ind item (clearDl ind (g.schedDlConfigReq sf))
      (clearUl ind (g.schedUlConfigReq sf)) = some s := by
  unfold playDue
  split_ifs
  · exact exists_playItem _ hload (encoded_clearDl cfg ind _) rfl
  · exact ⟨_, rfl⟩

theorem Loaded.due_iff (hg : Loaded cfg stim g) (hload : Loads cfg m item) (ind : Indication) :
    due g ind item = true ↔ m.tti.toNat = (nextAbsTti g ind).toNat % stim.length := by
  rw [due, decide_eq_true_eq, hload.tti, hg.items.length_eq]

theorem exists_tti_iff (ind : Indication) (hg : Loaded cfg stim g)
    (hm : stim[g.stimPtr]? = some m) (hsf : ind.subframe.toNat < 10) :
    (∃ r, tti g ind = some r) ↔
      (cfg.autoMib = true → ind.MibDue →
        m.tti.toNat = (nextAbsTti g ind).toNat % stim.length →
        m.sources.length < fapiDlConfigMaxPdu) := by
  have hlt : g.stimPtr < g.stimList.length :=
    hg.items.length_eq ▸ (List.getElem?_eq_some_iff.1 hm).1
  have hitem := List.getElem?_eq_getElem hlt
  obtain ⟨m', hm', hload⟩ := hg.member hitem
  obtain rfl := Option.some.inj (hm.symm.trans hm')
  obtain ⟨s, hs⟩ := exists_playDue (g := g) ind ⟨ind.subframe.toNat, hsf⟩ hload
  have hi := (playDue_indexed hload (encoded_clearDl cfg ind _) rfl hs).1
  have hdue := hg.due_iff hload ind
  have hmib : (∃ r, tti g ind = some r) ↔ ∃ t, encodeMib cfg ind s.1 = some t := by
    rw [tti, dif_pos hsf, Option.bind_eq_bind, hitem, Option.bind_some, Option.bind_eq_bind, hs,
      Option.bind_some, Option.bind_eq_bind, hg.config]
    constructor
    · rintro ⟨r, hr⟩
      obtain ⟨t, ht, -⟩ := Option.bind_eq_some_iff.1 hr
      exact ⟨t, ht⟩
    · rintro ⟨t, ht⟩
      exact ⟨_, Option.bind_eq_some_iff.2 ⟨t, ht, rfl⟩⟩
  rw [hmib, encodeMib, ← hdue]
  split_ifs with hauto
  · rw [exists_encodeBch_iff _ _ hi, forall_prop_of_true hauto, Indication.MibDue]
    refine forall_congr' fun _ ↦ ?_
    split_ifs with hplay
    · rw [forall_prop_of_true hplay]
    · exact iff_of_true (by decide) fun h ↦ absurd h hplay
  · exact iff_of_true ⟨_, rfl⟩ fun h ↦ absurd h hauto

theorem exists_tti (ind : Indication) (hg : Loaded cfg stim g) (hlt : g.stimPtr < g.stimList.length)
    (hsf : ind.subframe.toNat < 10)
    (hsmall : ∀ m ∈ stim, m.sources.length < fapiDlConfigMaxPdu) : ∃ r, tti g ind = some r := by
  have hm := List.getElem?_eq_getElem (hg.items.length_eq ▸ hlt)
  exact (exists_tti_iff ind hg hm hsf).2 fun _ _ _ ↦ hsmall _ (List.mem_of_getElem? hm)

/-! The stimulus -/

theorem parseP7DlCfg_loads {q : DlConfigRequest × ℤ} (h : parseP7DlCfg cfg m = some q) :
    q.2 = 0 ∧ Loads cfg m ⟨m.tti, q.1, parseP7UlCfg.1⟩ := by
  obtain ⟨es, hes, h⟩ := Option.bind_eq_some_iff.1 h
  obtain ⟨r, hr, h⟩ := Option.bind_eq_some_iff.1 h
  obtain rfl := Option.some.inj h
  have hp : Parsed cfg ([] ++ es) r := foldlM_invariant parseElement_parsed (parsed_zeroDl m.cfi) hr
  exact ⟨if_neg (not_not_intro hp.count), rfl, rfl, es, hes, hp⟩

theorem parseP7_forall₂ {R : Member → StimItem → Prop}
    (hR : ∀ {m q}, parseP7DlCfg cfg m = some q → R m ⟨m.tti, q.1, parseP7UlCfg.1⟩)
    {items : List StimItem} {ret : ℤ} (h : parseP7 cfg stim = some (items, ret)) :
    ret = 0 ∧ List.Forall₂ R stim items := by
  induction stim generalizing items ret with
  | nil =>
    obtain ⟨rfl, rfl⟩ := Prod.mk.inj (Option.some.inj h)
    exact ⟨rfl, .nil⟩
  | cons m ms ih =>
    obtain ⟨q, hq, h⟩ := Option.bind_eq_some_iff.1 h
    rw [if_neg (not_not_intro (parseP7DlCfg_loads hq).1), if_neg (by decide)] at h
    obtain ⟨rest, hrest, h⟩ := Option.bind_eq_some_iff.1 h
    obtain ⟨rfl, rfl⟩ := Prod.mk.inj (Option.some.inj h)
    obtain ⟨hret', hitems⟩ := ih hrest
    exact ⟨hret', .cons (hR hq) hitems⟩

theorem parseP7_loads {items : List StimItem} {ret : ℤ} (h : parseP7 cfg stim = some (items, ret)) :
    ret = 0 ∧ List.Forall₂ (Loads cfg) stim items :=
  parseP7_forall₂ (fun hq ↦ (parseP7DlCfg_loads hq).2) h

end EnbL1Ppc.Generator
