import EnbL1Ppc.Fapi.RequestReader
import EnbL1Ppc.Generator.Emission
import EnbL1Ppc.Generator.ListBounds

namespace EnbL1Ppc.Generator

open Lib Fapi.Requests

/-! The MIB in a request -/

def mibPdu (index : BitVec 32) (w : DlConfigPdu) : DlConfigPdu :=
  setWords w [(0, fapiDlConfigBchPduType), (1, 12), (pduIndexWord, index), (2, 3)]

theorem setWords_eq_iff {n : ℕ} (fields : List (ℕ × BitVec 32)) {w₁ w₂ : Words n} :
    setWords w₁ fields = setWords w₂ fields ↔
      ∀ i : Fin n, (∀ f ∈ fields, i.val ≠ f.1) → w₁ i = w₂ i := by
  induction fields generalizing w₁ w₂ with
  | nil => simp [setWords, funext_iff]
  | cons f fields ih =>
    refine ih.trans (forall_congr' fun i ↦ ?_)
    rw [List.forall_mem_cons, and_imp]
    by_cases hi : i.val = f.1
    · simp [hi]
    · simp [hi]

theorem mibPdu_eq_iff {index : BitVec 32} {w₁ w₂ : DlConfigPdu} :
    mibPdu index w₁ = mibPdu index w₂ ↔ ∀ i, 4 ≤ i.val → w₁ i = w₂ i := by
  refine (setWords_eq_iff _).trans (forall_congr' fun i ↦ imp_congr_left ?_)
  simp only [List.forall_mem_cons, List.not_mem_nil, false_implies, implies_true, and_true,
    pduIndexWord]
  omega

variable {cfg : Config} {ind : Indication} {r r' : DlConfigRequest}

theorem Filled.dlConfigView {ds ps : List DlConfigPdu} {ts : List TxPdu}
    (h : Filled r r' ds ps ts) :
    r'.dlConfigView = { r.dlConfigView with
      numberDci := r.numberDci + .ofNat 32 ds.length
      numberPdu := r.numberPdu + .ofNat 32 ps.length
      dcis := r.dcis ++ ds
      pdus := r.pdus ++ ps } := by
  rw [DlConfigRequest.dlConfigView, h.frame, h.subframe, h.numberPdcchOfdmSymbols, h.numberDci,
    h.numberPdu, h.numberPdschRnti, h.dcis, h.pdus]
  rfl

theorem encodeMib_due {s : DlConfigRequest × BitVec 32}
    {t : DlConfigRequest × Option (List UInt8)} (hauto : cfg.autoMib = true) (hdue : ind.MibDue)
    (h : encodeMib cfg ind s = some t) :
    ∃ (hn : s.1.numberPdu.toNat < fapiDlConfigMaxPdu) (tx : TxPdu), Filled s.1 t.1 []
      [mibPdu s.2 (s.1.dlConfigPduList ⟨s.1.numberPdu.toNat, hn⟩)] [tx] := by
  rw [encodeMib, if_pos hauto, phyCommonEncodeBch, if_neg (not_not_intro hdue.1),
    if_pos hdue.2] at h
  obtain ⟨r, hr, h⟩ := Option.bind_eq_some_iff.1 h
  obtain rfl := Option.some.inj h
  obtain ⟨hn, tx, hfill⟩ := appendPdu_filled hr
  exact ⟨hn, _, hfill⟩

theorem encodeMib_notDue {s : DlConfigRequest × BitVec 32}
    {t : DlConfigRequest × Option (List UInt8)} (hdue : ¬(cfg.autoMib = true ∧ ind.MibDue))
    (h : encodeMib cfg ind s = some t) : t.1 = s.1 := by
  rw [encodeMib, phyCommonEncodeBch] at h
  split_ifs at h with hauto hsf hframe
  · exact Option.some.inj h ▸ rfl
  · exact absurd ⟨hauto, not_not.1 hsf, hframe⟩ hdue
  · exact Option.some.inj h ▸ rfl
  · exact Option.some.inj h ▸ rfl

theorem encodeMib_numberPdschRnti {s : DlConfigRequest × BitVec 32}
    {t : DlConfigRequest × Option (List UInt8)} (h : encodeMib cfg ind s = some t) :
    t.1.numberPdschRnti = s.1.numberPdschRnti := by
  by_cases hdue : cfg.autoMib = true ∧ ind.MibDue
  · obtain ⟨_, tx, hfill⟩ := encodeMib_due hdue.1 hdue.2 h
    exact hfill.numberPdschRnti
  · rw [encodeMib_notDue hdue h]

/-! The requests of a TTI -/

def itemPdus (item : Option StimItem) : List DlConfigPdu :=
  item.elim [] fun item ↦ (renumber 0 (item.pairs.filter isDlschPdu)).map Prod.fst

def itemDcis (item : Option StimItem) : List DlConfigPdu :=
  item.elim [] fun item ↦ item.dlCfgReqList.dcis.filter isDciDl

/-- DL_CONFIG.request with the item that is played, if there is one. The symbols are otherwise
those in the request `cur` that is used again. -/
def itemView (ind : Indication) (item : Option StimItem) (cur : DlConfigRequest) :
    DlConfigView where
  sfnSf := sfnSf ind.frame ind.subframe
  numberPdcchOfdmSymbols := item.elim cur.numberPdcchOfdmSymbols
    fun item ↦ item.dlCfgReqList.numberPdcchOfdmSymbols
  numberDci := .ofNat 32 (itemDcis item).length
  numberPdu := .ofNat 32 (itemPdus item).length
  numberPdschRnti := cur.numberPdschRnti
  dcis := itemDcis item
  pdus := itemPdus item

def itemUlView (ind : Indication) (item : Option StimItem) (cur : UlConfigRequest) :
    UlConfigView where
  sfnSf := sfnSf ind.frame ind.subframe
  numberOfPdus := item.elim 0 fun item ↦ item.ulCfgReqList.numberPdu
  rachPrachFrequencyResources := cur.rachPrachFrequencyResources
  srsPresent := item.elim cur.srsPresent fun _ ↦ 0
  pdus := item.elim [] fun item ↦ item.ulCfgReqList.pdus

structure Played (ind : Indication) (item : Option StimItem) (dl : DlConfigRequest)
    (ul : UlConfigRequest) (s : (DlConfigRequest × BitVec 32) × UlConfigRequest) : Prop where
  dlView : s.1.1.dlConfigView = itemView ind item dl
  ulView : s.2.view = itemUlView ind item ul
  index : s.1.2 = .ofNat 32 (itemPdus item).length
  behind : ∀ i, s.1.1.numberPdu.toNat ≤ i.val → s.1.1.dlConfigPduList i = dl.dlConfigPduList i

theorem length_renumber (n : BitVec 32) (es : List (DlConfigPdu × TxPdu)) :
    (renumber n es).length = es.length := by
  induction es generalizing n with
  | nil => rfl
  | cons e es ih => exact congrArg Nat.succ (ih (n + 1))

theorem entries_congr {α : Type} {k : ℕ} {n : BitVec 32} {a b : Fin k → α}
    (h : ∀ i : Fin k, i.val < n.toNat → a i = b i) : entries n a = entries n b := by
  refine List.ext_getElem? fun j ↦ ?_
  rw [entries, entries, List.getElem?_take, List.getElem?_take]
  split_ifs with hj
  · rw [List.getElem?_ofFn, List.getElem?_ofFn]
    split_ifs with hk
    · rw [h ⟨j, hk⟩ hj]
    · rfl
  · rfl

theorem encodePusch_pdus (item : StimItem) (ul : UlConfigRequest) :
    (phyCommonEncodePusch item ul).pdus = item.ulCfgReqList.pdus :=
  entries_congr fun _ hi ↦ if_pos hi

variable {g g' : L2FapiGenerator} {item : StimItem} {dl : DlConfigRequest} {ul : UlConfigRequest}
  {s : (DlConfigRequest × BitVec 32) × UlConfigRequest}

theorem playItem_played (h : playItem item (clearDl ind dl) (clearUl ind ul) = some s) :
    Played ind (some item) dl ul s := by
  obtain ⟨r, hfill, hdl, hindex, hul⟩ := playItem_filled h
  have hlen : (itemPdus (some item)).length = (item.pairs.filter isDlschPdu).length :=
    (List.length_map _).trans (length_renumber ..)
  refine ⟨?_, ?_, ?_, fun i hi ↦ ?_⟩
  · have hview : s.1.1.dlConfigView = { r.dlConfigView with
        numberPdcchOfdmSymbols := item.dlCfgReqList.numberPdcchOfdmSymbols } := by
      rw [hdl]
      rfl
    have hzero (n : ℕ) : (0 : BitVec 32) + .ofNat 32 n = .ofNat 32 n := BitVec.zero_add _
    rw [hview, hfill.dlConfigView]
    simp only [clearDl, hzero]
    rfl
  · rw [hul, UlConfigRequest.view]
    exact congrArg _ (encodePusch_pdus item _)
  · rw [hindex, hlen]
  · rw [hdl] at hi ⊢
    exact hfill.behind i hi

theorem Played.length_itemPdus {item : Option StimItem} (h : Played ind item dl ul s)
    (hn : s.1.1.numberPdu.toNat < fapiDlConfigMaxPdu) :
    s.1.1.numberPdu.toNat = (itemPdus item).length := by
  have hpdus : s.1.1.pdus = itemPdus item := congrArg DlConfigView.pdus h.dlView
  rw [← hpdus]
  exact (length_entries _ hn.le).symm

theorem playDue_played
    (h : playDue g ind item (clearDl ind dl) (clearUl ind ul) = some s) :
    Played ind (if due g ind item then some item else none) dl ul s := by
  rw [playDue] at h
  split_ifs at h ⊢
  · exact playItem_played h
  · obtain rfl := Option.some.inj h
    exact ⟨rfl, rfl, rfl, fun _ _ ↦ rfl⟩

def Sent.selected (items : List StimItem) (o : Sent) : Option StimItem :=
  o.played.bind fun k ↦ items[k]?

variable {o : Sent} {sf : Fin 10}

theorem tti_played_over (hsf : ind.subframe.toNat = sf.val) (h : tti g ind = some (g', [o])) :
    ∃ s, Played ind (o.selected g.stimList) (g.schedDlConfigReq sf) (g.schedUlConfigReq sf) s ∧
      encodeMib g.config ind s.1 = some (o.dl, o.mib) ∧ o.ul = s.2 := by
  obtain ⟨item, s, t, hitem, hs, ht, -, ho⟩ := tti_at hsf h
  obtain rfl := (List.cons.inj ho).1
  have hselected : Sent.selected g.stimList ⟨if due g ind item then some g.stimPtr else none, t.2,
      t.1, s.2⟩ = if due g ind item then some item else none := by
    unfold Sent.selected
    split_ifs
    · exact hitem
    · rfl
  rw [hselected]
  exact ⟨s, playDue_played hs, ht, rfl⟩

/-! What is left in the requests -/

structure Kept (cfg : Config) (items : List StimItem) (g : L2FapiGenerator) : Prop where
  config : g.config = cfg
  items : g.stimList = items
  rnti : ∀ sf, (g.schedDlConfigReq sf).numberPdschRnti = 0
  prach : ∀ sf, (g.schedUlConfigReq sf).rachPrachFrequencyResources = 0
  srs : ∀ sf, (g.schedUlConfigReq sf).srsPresent = 0

variable {items : List StimItem}

theorem Kept.step {outs : List Sent} (hg : Kept cfg items g) (h : tti g ind = some (g', outs)) :
    Kept cfg items g' := by
  obtain ⟨sf, item, s, t, -, hs, ht, rfl, -⟩ := tti_eq_some h
  have hplayed := playDue_played hs
  have hrnti : t.1.numberPdschRnti = 0 := by
    rw [encodeMib_numberPdschRnti ht]
    exact (congrArg DlConfigView.numberPdschRnti hplayed.dlView).trans (hg.rnti sf)
  have hprach : s.2.rachPrachFrequencyResources = 0 :=
    (congrArg UlConfigView.rachPrachFrequencyResources hplayed.ulView).trans (hg.prach sf)
  have hsrs : s.2.srsPresent = 0 := by
    refine (congrArg UlConfigView.srsPresent hplayed.ulView).trans ?_
    rw [itemUlView]
    split_ifs
    · rfl
    · exact hg.srs sf
  refine ⟨hg.config, hg.items, fun sf' ↦ ?_, fun sf' ↦ ?_, fun sf' ↦ ?_⟩
  all_goals
    simp only [L2FapiGenerator.after, Function.update_apply]
    split_ifs
  · exact hrnti
  · exact hg.rnti sf'
  · exact hprach
  · exact hg.prach sf'
  · exact hsrs
  · exact hg.srs sf'

theorem exec_kept {inds : List Indication} {outs : List Sent}
    (h : Machine.exec tti (.start cfg items) inds = some (g, outs)) : Kept cfg items g :=
  Machine.exec_inputs (R := fun _ g ↦ Kept cfg items g) (fun hg h ↦ hg.step h) []
    ⟨rfl, rfl, fun _ ↦ rfl, fun _ ↦ rfl, fun _ ↦ rfl⟩ h

/-! Two histories -/

variable {dl₁ dl₂ : DlConfigRequest} {ul₁ ul₂ : UlConfigRequest} {sel : Option StimItem}
  {s₁ s₂ : (DlConfigRequest × BitVec 32) × UlConfigRequest}

theorem itemView_eq_iff (hrnti : dl₁.numberPdschRnti = dl₂.numberPdschRnti) :
    itemView ind sel dl₁ = itemView ind sel dl₂ ↔
      (sel = none → dl₁.numberPdcchOfdmSymbols = dl₂.numberPdcchOfdmSymbols) := by
  cases sel with
  | none =>
    rw [forall_prop_of_true rfl]
    exact ⟨congrArg DlConfigView.numberPdcchOfdmSymbols, fun h ↦ by simp [itemView, h, hrnti]⟩
  | some item => exact iff_of_true (by simp [itemView, hrnti]) fun h ↦ by cases h

theorem itemUlView_congr
    (hprach : ul₁.rachPrachFrequencyResources = ul₂.rachPrachFrequencyResources)
    (hsrs : ul₁.srsPresent = ul₂.srsPresent) :
    itemUlView ind sel ul₁ = itemUlView ind sel ul₂ := by
  rw [itemUlView, itemUlView, hprach, hsrs]

theorem mibView_eq_iff {t₁ t₂ : DlConfigRequest} {index : BitVec 32} {w₁ w₂ : DlConfigPdu}
    {tx₁ tx₂ : TxPdu} {r₁ r₂ : DlConfigRequest} (h₁ : Filled r₁ t₁ [] [mibPdu index w₁] [tx₁])
    (h₂ : Filled r₂ t₂ [] [mibPdu index w₂] [tx₂]) (hpdus : r₁.pdus = r₂.pdus) :
    t₁.dlConfigView = t₂.dlConfigView ↔
      r₁.dlConfigView = r₂.dlConfigView ∧ ∀ i, 4 ≤ i.val → w₁ i = w₂ i := by
  rw [h₁.dlConfigView, h₂.dlConfigView, ← mibPdu_eq_iff]
  simp only [DlConfigRequest.dlConfigView, DlConfigView.mk.injEq, List.length_nil,
    List.length_singleton, List.append_nil, BitVec.add_zero, hpdus, List.append_cancel_left_eq,
    List.cons.injEq, and_true, BitVec.add_left_inj]
  tauto

variable {items₁ items₂ : List StimItem} {o₁ o₂ : Sent} {g₁ g₂ g₁' g₂' : L2FapiGenerator}

theorem tti_requests_eq_iff (hg₁ : Kept cfg items₁ g₁) (hg₂ : Kept cfg items₂ g₂)
    (hsf : ind.subframe.toNat = sf.val) (h₁ : tti g₁ ind = some (g₁', [o₁]))
    (h₂ : tti g₂ ind = some (g₂', [o₂])) (hsel : o₁.selected items₁ = o₂.selected items₂) :
    o₁.ul.view = o₂.ul.view ∧ (o₁.dl.dlConfigView = o₂.dl.dlConfigView ↔
      (o₁.selected items₁ = none → (g₁.schedDlConfigReq sf).numberPdcchOfdmSymbols =
        (g₂.schedDlConfigReq sf).numberPdcchOfdmSymbols) ∧
      (cfg.autoMib = true → ind.MibDue → ∀ n : Fin fapiDlConfigMaxPdu,
        n.val = (itemPdus (o₁.selected items₁)).length → ∀ i, 4 ≤ i.val →
        (g₁.schedDlConfigReq sf).dlConfigPduList n i =
          (g₂.schedDlConfigReq sf).dlConfigPduList n i)) := by
  obtain ⟨s₁, hplayed₁, hmib₁, hul₁⟩ := tti_played_over hsf h₁
  obtain ⟨s₂, hplayed₂, hmib₂, hul₂⟩ := tti_played_over hsf h₂
  rw [hg₁.items] at hplayed₁
  rw [hg₂.items, ← hsel] at hplayed₂
  rw [hg₁.config] at hmib₁
  rw [hg₂.config] at hmib₂
  have hrnti := (hg₁.rnti sf).trans (hg₂.rnti sf).symm
  have hbare := @itemView_eq_iff ind _ _ (o₁.selected items₁) hrnti
  rw [← hplayed₁.dlView, ← hplayed₂.dlView] at hbare
  refine ⟨?_, ?_⟩
  · rw [hul₁, hul₂, hplayed₁.ulView, hplayed₂.ulView]
    exact itemUlView_congr ((hg₁.prach sf).trans (hg₂.prach sf).symm)
      ((hg₁.srs sf).trans (hg₂.srs sf).symm)
  · rw [← hbare]
    by_cases hdue : cfg.autoMib = true ∧ ind.MibDue
    · obtain ⟨hn₁, tx₁, hfill₁⟩ := encodeMib_due hdue.1 hdue.2 hmib₁
      obtain ⟨hn₂, tx₂, hfill₂⟩ := encodeMib_due hdue.1 hdue.2 hmib₂
      rw [hplayed₁.index] at hfill₁
      rw [hplayed₂.index] at hfill₂
      have hpdus : s₁.1.1.pdus = s₂.1.1.pdus :=
        (congrArg DlConfigView.pdus hplayed₁.dlView).trans
          (congrArg DlConfigView.pdus hplayed₂.dlView).symm
      have hplace₁ := hplayed₁.length_itemPdus hn₁
      have hplace₂ := hplayed₂.length_itemPdus hn₂
      rw [mibView_eq_iff hfill₁ hfill₂ hpdus, hplayed₁.behind _ le_rfl, hplayed₂.behind _ le_rfl,
        forall_prop_of_true hdue.1, forall_prop_of_true hdue.2]
      refine and_congr_right fun _ ↦ ⟨fun h n hn ↦ ?_, fun h ↦ ?_⟩
      · obtain rfl : n = ⟨s₁.1.1.numberPdu.toNat, hn₁⟩ := Fin.ext (hn.trans hplace₁.symm)
        simpa only [hplace₁, hplace₂] using h
      · simpa only [hplace₁, hplace₂] using h ⟨s₁.1.1.numberPdu.toNat, hn₁⟩ hplace₁
    · rw [show o₁.dl = s₁.1.1 from encodeMib_notDue hdue hmib₁,
        show o₂.dl = s₂.1.1 from encodeMib_notDue hdue hmib₂]
      exact (and_iff_left fun hauto hmib ↦ absurd ⟨hauto, hmib⟩ hdue).symm

/-- The requests of a TTI do not depend on the history exactly if an item is played or both
histories left the same number of symbols in the request, and a MIB replaces entries that agree
behind the fields it sets. -/
theorem requests_eq_iff {inds₁ inds₂ : List Indication} {outs₁ outs₂ : List Sent}
    (hrun₁ : Machine.exec tti (.start cfg items₁) inds₁ = some (g₁, outs₁))
    (hrun₂ : Machine.exec tti (.start cfg items₂) inds₂ = some (g₂, outs₂))
    (hsf : ind.subframe.toNat = sf.val) (h₁ : tti g₁ ind = some (g₁', [o₁]))
    (h₂ : tti g₂ ind = some (g₂', [o₂])) (hsel : o₁.selected items₁ = o₂.selected items₂) :
    (o₁.dl.dlConfigView = o₂.dl.dlConfigView ∧ o₁.ul.view = o₂.ul.view) ↔
      (o₁.selected items₁ = none → (g₁.schedDlConfigReq sf).numberPdcchOfdmSymbols =
        (g₂.schedDlConfigReq sf).numberPdcchOfdmSymbols) ∧
      (cfg.autoMib = true → ind.MibDue → ∀ n : Fin fapiDlConfigMaxPdu,
        n.val = (itemPdus (o₁.selected items₁)).length → ∀ i, 4 ≤ i.val →
        (g₁.schedDlConfigReq sf).dlConfigPduList n i =
          (g₂.schedDlConfigReq sf).dlConfigPduList n i) := by
  obtain ⟨hul, hdl⟩ := tti_requests_eq_iff (exec_kept hrun₁) (exec_kept hrun₂) hsf h₁ h₂ hsel
  exact (and_iff_left hul).trans hdl

section Example

def twoMembers : List Member := [⟨0, 3, some []⟩, ⟨1, 1, some []⟩]

def twoItems : List StimItem :=
  [⟨0, { zeroDl with numberPdcchOfdmSymbols := 3 }, zeroUl⟩,
    ⟨1, { zeroDl with numberPdcchOfdmSymbols := 1 }, zeroUl⟩]

theorem requests_eq_iff_unused :
    ∃ g₁ g₂ g₁' g₂' outs₁ outs₂ o₁ o₂,
      Machine.exec tti (.start exampleConfig twoItems) [⟨0, 4⟩] = some (g₁, outs₁) ∧
      Machine.exec tti (.start exampleConfig twoItems) [⟨0, 6⟩] = some (g₂, outs₂) ∧
      tti g₁ ⟨1, 2⟩ = some (g₁', [o₁]) ∧ tti g₂ ⟨1, 2⟩ = some (g₂', [o₂]) ∧
      o₁.dl.dlConfigView = o₂.dl.dlConfigView ∧ o₁.ul.view = o₂.ul.view := by
  refine ⟨_, _, _, _, _, _, _, _, rfl, rfl, rfl, rfl, ?_⟩
  refine (@requests_eq_iff exampleConfig ⟨1, 2⟩ ⟨2, by decide⟩ twoItems twoItems _ _ _ _ _ _
    [⟨0, 4⟩] [⟨0, 6⟩] _ _ rfl rfl rfl rfl rfl rfl).2 ⟨fun _ ↦ rfl, fun hauto ↦ ?_⟩
  cases hauto

/-- A TTI without an item sends the symbols of the item that was played ten TTIs before. -/
theorem symbols_of_earlier_tti :
    parseP7 exampleConfig twoMembers = some (twoItems, 0) ∧
    ∃ g₁ g₂ g₁' g₂' outs₁ outs₂ o₁ o₂,
      Machine.exec tti (.start exampleConfig twoItems) [⟨0, 4⟩] = some (g₁, outs₁) ∧
      Machine.exec tti (.start exampleConfig twoItems) [⟨0, 2⟩] = some (g₂, outs₂) ∧
      tti g₁ ⟨1, 2⟩ = some (g₁', [o₁]) ∧ tti g₂ ⟨1, 2⟩ = some (g₂', [o₂]) ∧
      o₁.played = none ∧ o₂.played = none ∧
      o₁.dl.dlConfigView.numberPdcchOfdmSymbols = 0 ∧
      o₂.dl.dlConfigView.numberPdcchOfdmSymbols = 3 :=
  ⟨rfl, _, _, _, _, _, _, _, _, rfl, rfl, rfl, rfl, rfl, rfl, rfl, rfl⟩

end Example

end EnbL1Ppc.Generator
