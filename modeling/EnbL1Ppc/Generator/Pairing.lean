import EnbL1Ppc.Fapi.RequestEncoding
import EnbL1Ppc.Generator.Phy
import EnbL1Ppc.Lib.OptionFold
import Mathlib.Data.List.GetD

namespace EnbL1Ppc.Generator

open Lib Fapi.Requests

/-! Array entries -/

section Entries

variable {α : Type} {k : ℕ} {a a' : Fin k → α} {n : BitVec 32} {f : α → α}

theorem toNat_succ (h : n.toNat < k) (hk : k < 2 ^ 32) : (n + 1).toNat = n.toNat + 1 := by
  rw [BitVec.toNat_add]
  exact Nat.mod_eq_of_lt (show n.toNat + 1 < 2 ^ 32 by omega)

theorem setEntry_eq_update (h : setEntry a n f = some a') (hk : k < 2 ^ 32) :
    ∃ hn : n.toNat < k, a' = Function.update a ⟨n.toNat, hn⟩ (f (a ⟨n.toNat, hn⟩)) ∧
      entries (n + 1) a' = entries n a ++ [f (a ⟨n.toNat, hn⟩)] := by
  unfold setEntry at h
  split_ifs at h with hn
  obtain rfl := Option.some.inj h
  refine ⟨hn, rfl, ?_⟩
  rw [entries, toNat_succ hn hk, List.take_succ_eq_append_getElem (by simpa using hn)]
  refine congrArg₂ _ ?_ (by simp)
  refine List.ext_getElem (by simp [entries]) fun i hi _ ↦ ?_
  have hin : i < n.toNat := by simp only [List.length_take] at hi; omega
  simp only [entries, List.getElem_take, List.getElem_ofFn]
  exact Function.update_of_ne (fun h ↦ hin.ne (congrArg Fin.val h)) _ _

theorem setEntry_eq_some (h : setEntry a n f = some a') (hk : k < 2 ^ 32) :
    n.toNat < k ∧ ∃ x, entries (n + 1) a' = entries n a ++ [f x] := by
  obtain ⟨hn, -, hentries⟩ := setEntry_eq_update h hk
  exact ⟨hn, _, hentries⟩

theorem exists_setEntry (f : α → α) (h : n.toNat < k) : ∃ a', setEntry a n f = some a' :=
  ⟨_, dif_pos h⟩

end Entries

variable {cfg : Config} {r r' : DlConfigRequest}

structure Appended (r r' : DlConfigRequest) (pdu : DlConfigPdu) (tx : TxPdu) : Prop where
  pdu_lt : r.numberPdu.toNat < fapiDlConfigMaxPdu
  tx_lt : r.numberTxReq.toNat < fapiDlConfigMaxPdu
  pdus : r'.pdus = r.pdus ++ [pdu]
  txPdus : r'.txPdus = r.txPdus ++ [tx]
  numberPdu : r'.numberPdu = r.numberPdu + 1
  numberTxReq : r'.numberTxReq = r.numberTxReq + 1
  numberDci : r'.numberDci = r.numberDci
  numberDci0 : r'.numberDci0 = r.numberDci0
  numberHi : r'.numberHi = r.numberHi

theorem appendPdu_eq_some {pdu : DlConfigPdu → DlConfigPdu} {tx : TxPdu → TxPdu}
    (h : appendPdu r pdu tx = some r') : ∃ w t, Appended r r' (pdu w) (tx t) := by
  simp only [appendPdu, Option.bind_eq_bind, Option.bind_eq_some_iff, Option.some.injEq] at h
  obtain ⟨pdus, hpdus, txs, htxs, rfl⟩ := h
  obtain ⟨hn, w, hw⟩ := setEntry_eq_some hpdus (by decide)
  obtain ⟨hn', t, ht⟩ := setEntry_eq_some htxs (by decide)
  exact ⟨w, t, hn, hn', hw, ht, rfl, rfl, rfl, rfl, rfl⟩

theorem exists_appendPdu (pdu : DlConfigPdu → DlConfigPdu) (tx : TxPdu → TxPdu)
    (h : r.numberPdu.toNat < fapiDlConfigMaxPdu) (h' : r.numberTxReq.toNat < fapiDlConfigMaxPdu) :
    ∃ r', appendPdu r pdu tx = some r' := by
  obtain ⟨pdus, hpdus⟩ := exists_setEntry (a := r.dlConfigPduList) pdu h
  obtain ⟨txs, htxs⟩ := exists_setEntry (a := r.txRequestPduList) tx h'
  exact ⟨_, by rw [appendPdu, hpdus, htxs]; rfl⟩

theorem appendDci_eq_some {g : DlConfigPdu → DlConfigPdu}
    (h : ((setEntry r.dlConfigDciList r.numberDci g).bind fun dcis ↦
      some { r with dlConfigDciList := dcis, numberDci := r.numberDci + 1 }) = some r') :
    r.numberDci.toNat < fapiDlConfigMaxPdu ∧ (∃ w, r'.dcis = r.dcis ++ [g w]) ∧
      r'.numberDci = r.numberDci + 1 ∧ r'.numberPdu = r.numberPdu ∧
      r'.numberTxReq = r.numberTxReq ∧ r'.pdus = r.pdus ∧ r'.txPdus = r.txPdus ∧
      r'.numberDci0 = r.numberDci0 ∧ r'.numberHi = r.numberHi := by
  simp only [Option.bind_eq_some_iff, Option.some.injEq] at h
  obtain ⟨dcis, hdcis, rfl⟩ := h
  obtain ⟨hn, w, hw⟩ := setEntry_eq_some hdcis (by decide)
  exact ⟨hn, ⟨w, hw⟩, rfl, rfl, rfl, rfl, rfl, rfl, rfl⟩

/-! What the parser leaves in an item -/

structure HasBlock (t : TxPdu) (len : BitVec 32) (block : ℕ → UInt8) : Prop where
  numSegments : t.numSegments = 1
  tag : (t.tbs firstSegment).tag = 1
  length : (t.tbs firstSegment).length = len
  block : (t.tbs firstSegment).block = block

theorem HasBlock.withIndex {t : TxPdu} {len : BitVec 32} {block : ℕ → UInt8}
    (h : HasBlock t len block) (i : BitVec 32) : HasBlock { t with pduIndex := i } len block :=
  ⟨h.1, h.2, h.3, h.4⟩

def Parses (cfg : Config) : Element → DlConfigPdu × TxPdu → Prop
  | .dlsch d, e =>
    pduType e.1 = fapiDlConfigDlschPduType ∧ HasBlock e.2 (d.tbLength cfg) d.pdu.block ∧
      d.pdu.buf.length ≤ (d.tbLength cfg).toNat
  | .bch _, e => pduType e.1 = fapiDlConfigBchPduType
  | _, _ => False

def Element.dlsch? : Element → Option Dlsch
  | .dlsch d => some d
  | _ => none

def Element.isDci : Element → Bool
  | .dci _ => true
  | _ => false

def Element.isPdu : Element → Bool
  | .bch _ | .dlsch _ => true
  | _ => false

structure Parsed (cfg : Config) (es : List Element) (r : DlConfigRequest) : Prop where
  dci_le : r.numberDci.toNat ≤ es.countP Element.isDci
  dci_within : r.numberDci.toNat ≤ fapiDlConfigMaxPdu
  pdu_le : r.numberPdu.toNat ≤ es.countP Element.isPdu
  pdu_within : r.numberPdu.toNat ≤ fapiDlConfigMaxPdu
  count : r.numberPdu = r.numberTxReq
  kept : ∃ sel, List.Forall₂ (Parses cfg) sel (r.pdus.zip r.txPdus) ∧
    sel.filterMap Element.dlsch? = es.filterMap Element.dlsch?

theorem zip_append_of_count (h : r.numberPdu = r.numberTxReq) {pdu : DlConfigPdu} {tx : TxPdu}
    (ha : Appended r r' pdu tx) : r'.pdus.zip r'.txPdus = r.pdus.zip r.txPdus ++ [(pdu, tx)] := by
  have hlen : r.pdus.length = r.txPdus.length := by
    simp [DlConfigRequest.pdus, DlConfigRequest.txPdus, entries, h]
  rw [ha.pdus, ha.txPdus, List.zip_append hlen]
  rfl

theorem Parsed.append {es : List Element} {e : Element} (h : Parsed cfg es r)
    {pdu : DlConfigPdu} {tx : TxPdu} (ha : Appended r r' pdu tx) (hp : Parses cfg e (pdu, tx)) :
    Parsed cfg (es ++ [e]) r' := by
  obtain ⟨sel, hsel, hdl⟩ := h.kept
  have hpdu : e.isPdu = true := by cases e <;> first | rfl | exact hp.elim
  have hlt := ha.pdu_lt
  have hsucc := toNat_succ ha.pdu_lt (by decide)
  refine ⟨?_, ?_, ?_, ?_, ?_, sel ++ [e], ?_, ?_⟩
  · rw [ha.numberDci, List.countP_append]
    exact h.dci_le.trans (Nat.le_add_right _ _)
  · exact ha.numberDci ▸ h.dci_within
  · rw [ha.numberPdu, hsucc, List.countP_append, List.countP_singleton, hpdu, if_pos rfl]
    exact Nat.add_le_add_right h.pdu_le 1
  · rw [ha.numberPdu, hsucc]
    exact hlt
  · rw [ha.numberPdu, ha.numberTxReq, h.count]
  · rw [zip_append_of_count h.count ha]
    exact List.rel_append hsel (.cons hp .nil)
  · rw [List.filterMap_append, List.filterMap_append, hdl]

theorem Parsed.skip {es : List Element} {e : Element} (h : Parsed cfg es r)
    (he : e.dlsch? = none) : Parsed cfg (es ++ [e]) r := by
  obtain ⟨sel, hsel, hdl⟩ := h.kept
  refine ⟨?_, h.dci_within, ?_, h.pdu_within, h.count, sel, hsel, ?_⟩
  · exact h.dci_le.trans (by rw [List.countP_append]; exact Nat.le_add_right _ _)
  · exact h.pdu_le.trans (by rw [List.countP_append]; exact Nat.le_add_right _ _)
  · rw [List.filterMap_append, hdl, List.filterMap_cons_none he, List.filterMap_nil,
      List.append_nil]

theorem Dlsch.tbData_eq_some {d : Dlsch} {data : List UInt8} (h : d.tbData cfg = some data) :
    d.pdu.buf.length ≤ (d.tbLength cfg).toNat ∧
      data = d.pdu.buf ++ List.replicate ((d.tbLength cfg).toNat - d.pdu.buf.length) 0 := by
  rw [tbData, memcpy, calloc, List.length_replicate, List.drop_replicate] at h
  split_ifs at h with hle
  exact ⟨hle, (Option.some.inj h).symm⟩

theorem OctetString.block_eq (s : OctetString) (n : ℕ) :
    (fun k ↦ (s.buf ++ List.replicate n 0).getD k 0) = s.block := by
  funext k
  rw [block]
  rcases Nat.lt_or_ge k s.buf.length with hlt | hge
  · rw [List.getD_append _ _ _ _ hlt]
  · rw [List.getD_append_right _ _ _ _ hge, List.getD_eq_default _ _ hge]
    simp

theorem parseP7DlCfgDlschTx_eq_some {d : Dlsch} {tx : TxPdu → TxPdu}
    (h : parseP7DlCfgDlschTx cfg d = some tx) :
    d.pdu.buf.length ≤ (d.tbLength cfg).toNat ∧
      ∀ t, HasBlock (tx t) (d.tbLength cfg) d.pdu.block := by
  obtain ⟨data, hdata, h⟩ := Option.bind_eq_some_iff.1 h
  obtain rfl := Option.some.inj h
  obtain ⟨hle, rfl⟩ := Dlsch.tbData_eq_some hdata
  refine ⟨hle, fun t ↦ ?_⟩
  rw [← d.pdu.block_eq ((d.tbLength cfg).toNat - d.pdu.buf.length)]
  constructor <;> simp [setFirstTb]

theorem parseElement_parsed {es : List Element} {e : Element} (h : Parsed cfg es r)
    (he : parseElement cfg r e = some r') : Parsed cfg (es ++ [e]) r' := by
  cases e with
  | dci d =>
    obtain ⟨hlt, -, hdci, hpdu, htx, hpdus, htxs, -, -⟩ := appendDci_eq_some he
    have hsucc := toNat_succ hlt (by decide)
    have h' := h.skip (e := .dci d) rfl
    refine ⟨?_, ?_, hpdu ▸ h'.pdu_le, hpdu ▸ h'.pdu_within, hpdu ▸ htx ▸ h'.count, ?_⟩
    · rw [hdci, hsucc, List.countP_append]
      exact Nat.add_le_add_right h.dci_le 1
    · rw [hdci, hsucc]
      exact hlt
    · rw [hpdus, htxs]
      exact h'.kept
  | bch b =>
    simp only [parseElement] at he
    split_ifs at he
    · exact Option.some.inj he ▸ h.skip rfl
    · exact Option.some.inj he ▸ h.skip rfl
    · obtain ⟨w, t, ha⟩ := appendPdu_eq_some he
      exact h.append ha rfl
  | dlsch d =>
    obtain ⟨tx, htx, he⟩ := Option.bind_eq_some_iff.1 he
    obtain ⟨hle, hblock⟩ := parseP7DlCfgDlschTx_eq_some htx
    obtain ⟨w, t, ha⟩ := appendPdu_eq_some he
    exact h.append ha ⟨rfl, (hblock t).withIndex _, hle⟩
  | unknown => exact Option.some.inj he ▸ h.skip rfl

theorem parsed_zeroDl (x : BitVec 32) :
    Parsed cfg [] { zeroDl with numberPdcchOfdmSymbols := x } where
  dci_le := Nat.zero_le _
  dci_within := Nat.zero_le _
  pdu_le := Nat.zero_le _
  pdu_within := Nat.zero_le _
  count := rfl
  kept := ⟨[], .nil, rfl⟩

/-! What a TTI encodes -/

inductive Source
  | dlsch (d : Dlsch)
  | mib (bs : List UInt8)

def Source.pduType : Source → BitVec 32
  | .dlsch _ => fapiDlConfigDlschPduType
  | .mib _ => fapiDlConfigBchPduType

def Source.octets : Source → List UInt8
  | .dlsch d => d.pdu.buf
  | .mib bs => bs

def Source.tbLength (cfg : Config) : Source → BitVec 32
  | .dlsch d => d.tbLength cfg
  | .mib _ => 3

/-- The request holds the sources in their order, each with its index and with a TX PDU that is
related to it by `P`. -/
structure Matches (P : Source → TxPdu → Prop) (ss : List Source) (r : DlConfigRequest) :
    Prop where
  count : r.numberPdu = r.numberTxReq
  length : r.numberPdu.toNat = ss.length
  entry : ∀ k s, ss[k]? = some s → ∃ pdu tx, r.pdus[k]? = some pdu ∧ r.txPdus[k]? = some tx ∧
    Generator.pduType pdu = s.pduType ∧ pduIndex pdu = .ofNat 32 k ∧ tx.pduIndex = .ofNat 32 k ∧
    P s tx

structure Source.Exact (cfg : Config) (s : Source) (t : TxPdu) : Prop extends
    HasBlock t (s.tbLength cfg) fun k ↦ s.octets.getD k 0 where
  fits : s.octets.length ≤ (s.tbLength cfg).toNat

structure Encoded (cfg : Config) (ss : List Source) (r : DlConfigRequest) : Prop extends
    Matches (Source.Exact cfg) ss r where
  pdu_within : ss.length ≤ fapiDlConfigMaxPdu
  dci_within : r.numberDci.toNat ≤ fapiDlConfigMaxPdu
  numberDci0 : r.numberDci0 = 0
  numberHi : r.numberHi = 0

theorem Encoded.length_pdus {ss : List Source} (h : Encoded cfg ss r) :
    r.pdus.length = ss.length :=
  (length_entries _ (by rw [h.length]; exact h.pdu_within)).trans h.length

theorem Encoded.length_txPdus {ss : List Source} (h : Encoded cfg ss r) :
    r.txPdus.length = ss.length := by
  have hlen := h.length
  rw [h.count] at hlen
  exact (length_entries _ (by rw [hlen]; exact h.pdu_within)).trans hlen

theorem Encoded.append {ss : List Source} {s : Source} {pdu : DlConfigPdu} {tx : TxPdu}
    (h : Encoded cfg ss r) (ha : Appended r r' pdu tx) (htype : pduType pdu = s.pduType)
    (hpdu : pduIndex pdu = .ofNat 32 ss.length) (htx : tx.pduIndex = .ofNat 32 ss.length)
    (hs : s.Exact cfg tx) : Encoded cfg (ss ++ [s]) r' := by
  have hlt : ss.length < fapiDlConfigMaxPdu := h.length ▸ ha.pdu_lt
  refine ⟨⟨?_, ?_, fun k s' hk ↦ ?_⟩, ?_, ha.numberDci ▸ h.dci_within, ha.numberDci0 ▸ h.numberDci0,
    ha.numberHi ▸ h.numberHi⟩
  · rw [ha.numberPdu, ha.numberTxReq, h.count]
  · rw [ha.numberPdu, toNat_succ ha.pdu_lt (by decide), h.length, List.length_append,
      List.length_singleton]
  · rw [ha.pdus, ha.txPdus]
    rcases Nat.lt_or_ge k ss.length with hlt | hge
    · rw [List.getElem?_append_left hlt] at hk
      obtain ⟨pdu', tx', hpdu', htx', hrest⟩ := h.entry k s' hk
      refine ⟨pdu', tx', ?_, ?_, hrest⟩
      · rw [List.getElem?_append_left (h.length_pdus ▸ hlt), hpdu']
      · rw [List.getElem?_append_left (h.length_txPdus ▸ hlt), htx']
    · obtain rfl : k = ss.length := by
        have := (List.getElem?_eq_some_iff.1 hk).1
        rw [List.length_append, List.length_singleton] at this
        omega
      obtain rfl : s = s' := by simpa using hk
      refine ⟨pdu, tx, ?_, ?_, htype, hpdu, htx, hs⟩
      · rw [← h.length_pdus, List.getElem?_concat_length]
      · rw [← h.length_txPdus, List.getElem?_concat_length]
  · rw [List.length_append, List.length_singleton]
    exact hlt

/-! The encoders -/

structure Indexed (cfg : Config) (ss : List Source) (s : DlConfigRequest × BitVec 32) : Prop where
  encoded : Encoded cfg ss s.1
  index : s.2 = .ofNat 32 ss.length

theorem Indexed.numberPdu_lt {ss : List Source} {s : DlConfigRequest × BitVec 32}
    (h : Indexed cfg ss s) (hlt : ss.length < fapiDlConfigMaxPdu) :
    s.1.numberPdu.toNat < fapiDlConfigMaxPdu ∧ s.1.numberTxReq.toNat < fapiDlConfigMaxPdu := by
  rw [← h.encoded.count, h.encoded.length]
  exact ⟨hlt, hlt⟩

def dlschSources (es : List Element) : List Source :=
  (es.filterMap Element.dlsch?).map Source.dlsch

theorem copyPdu_indexed {ss : List Source} {s s' : DlConfigRequest × BitVec 32} {e : Element}
    {x : DlConfigPdu × TxPdu} (h : Indexed cfg ss s) (hp : Parses cfg e x)
    (hs : copyPdu s x = some s') : Indexed cfg (ss ++ dlschSources [e]) s' := by
  unfold copyPdu at hs
  cases e with
  | dlsch d =>
    obtain ⟨htype, hblock, hle⟩ := hp
    rw [if_pos htype] at hs
    obtain ⟨r, hr, hs⟩ := Option.bind_eq_some_iff.1 hs
    obtain rfl := Option.some.inj hs
    obtain ⟨w, t, ha⟩ := appendPdu_eq_some hr
    refine ⟨h.encoded.append ha htype h.index h.index ⟨hblock.withIndex _, hle⟩, ?_⟩
    change s.2 + 1 = .ofNat 32 (ss ++ [_]).length
    rw [h.index, List.length_append, List.length_singleton, BitVec.ofNat_add]
    rfl
  | bch b =>
    rw [if_neg (by rw [show pduType x.1 = fapiDlConfigBchPduType from hp]; decide)] at hs
    obtain rfl := Option.some.inj hs
    change Indexed cfg (ss ++ []) s
    rwa [List.append_nil]
  | dci d => exact hp.elim
  | unknown => exact hp.elim

theorem foldlM_copyPdu_indexed {ss : List Source} {s s' : DlConfigRequest × BitVec 32}
    {es : List Element} {xs : List (DlConfigPdu × TxPdu)} (hp : List.Forall₂ (Parses cfg) es xs)
    (h : Indexed cfg ss s) (hs : xs.foldlM copyPdu s = some s') :
    Indexed cfg (ss ++ dlschSources es) s' := by
  induction hp generalizing s ss with
  | nil =>
    obtain rfl : s = s' := by simpa using hs
    simpa [dlschSources] using h
  | @cons e x es xs hex _ ih =>
    rw [List.foldlM_cons] at hs
    obtain ⟨t, ht, hs⟩ := Option.bind_eq_some_iff.1 hs
    have := ih (copyPdu_indexed h hex ht) hs
    rwa [List.append_assoc, dlschSources, dlschSources, ← List.map_append,
      ← List.filterMap_append] at this

theorem exists_copyPdu {ss : List Source} {s : DlConfigRequest × BitVec 32}
    (h : Indexed cfg ss s) (hlt : ss.length < fapiDlConfigMaxPdu) (x : DlConfigPdu × TxPdu) :
    ∃ s', copyPdu s x = some s' := by
  unfold copyPdu
  split_ifs
  · obtain ⟨hpdu, htx⟩ := h.numberPdu_lt hlt
    obtain ⟨r, hr⟩ := exists_appendPdu (fun _ ↦ setWords x.1 [(pduIndexWord, s.2)])
      (fun _ ↦ { x.2 with pduIndex := s.2 }) hpdu htx
    exact ⟨_, by rw [hr]; rfl⟩
  · exact ⟨_, rfl⟩

theorem exists_foldlM_copyPdu {ss : List Source} {s : DlConfigRequest × BitVec 32}
    {es : List Element} {xs : List (DlConfigPdu × TxPdu)} (hp : List.Forall₂ (Parses cfg) es xs)
    (h : Indexed cfg ss s) (hlt : ss.length + es.length ≤ fapiDlConfigMaxPdu) :
    ∃ s', xs.foldlM copyPdu s = some s' := by
  induction hp generalizing s ss with
  | nil => exact ⟨s, rfl⟩
  | @cons e x es xs hex _ ih =>
    rw [List.length_cons] at hlt
    obtain ⟨t, ht⟩ := exists_copyPdu h (by omega) x
    have hone : (dlschSources [e]).length ≤ 1 := by
      rw [dlschSources, List.length_map]
      exact List.length_filterMap_le _ _
    obtain ⟨s', hs'⟩ := ih (copyPdu_indexed h hex ht) (by rw [List.length_append]; omega)
    exact ⟨s', by rw [List.foldlM_cons, ht]; exact hs'⟩

end EnbL1Ppc.Generator
