import EnbL1Ppc.Generator.TtiSteps

namespace EnbL1Ppc.Generator

open Lib Lib.OptionFold Fapi.Requests

/-! The block length -/

/-- The length of the string in bits is more than 32 bits hold, and what is left of it in 32 bits
finds a block size, which is too small. -/
def Dlsch.Wraps (cfg : Config) (d : Dlsch) : Prop :=
  2 ^ 29 ≤ d.pdu.buf.length ∧ 0 < d.nprb cfg ∧ d.nprb cfg < 110 ∧
    ∃ tbs ∈ tbsColumn (d.nprb cfg), 8 * d.pdu.buf.length % 2 ^ 32 ≤ tbs

theorem toNat_shiftLeft_three (x : BitVec 32) : (x <<< 3).toNat = 8 * x.toNat % 2 ^ 32 := by
  rw [BitVec.toNat_shiftLeft, Nat.shiftLeft_eq, Nat.mul_comm]

section BlockLength

variable {nprb : ℕ} {x : BitVec 32}

theorem correctTbs_of_find {tbs : ℕ} (hpos : 0 < nprb) (hlt : nprb < 110)
    (h : (tbsColumn nprb).find? (fun tbs ↦ (x <<< 3).toNat ≤ tbs) = some tbs) :
    (correctTbs nprb x).toNat = tbs / 8 ∧ 8 * x.toNat % 2 ^ 32 ≤ tbs ∧ tbs ≤ 75376 := by
  have hle := tbsColumn_le (List.mem_of_find?_eq_some h)
  refine ⟨?_, ?_, hle⟩
  · rw [correctTbs, if_pos ⟨hpos, hlt⟩, h]
    exact Nat.mod_eq_of_lt (by omega)
  · have := List.find?_some h
    rwa [decide_eq_true_eq, toNat_shiftLeft_three] at this

theorem correctTbs_of_not_find
    (h : ¬(0 < nprb ∧ nprb < 110) ∨
      (tbsColumn nprb).find? (fun tbs ↦ (x <<< 3).toNat ≤ tbs) = none) :
    correctTbs nprb x = x := by
  unfold correctTbs
  split_ifs with hn
  · rw [h.resolve_left (not_not_intro hn)]
  · rfl

end BlockLength

variable {cfg : Config} {d : Dlsch}

theorem OctetString.toNat_size (s : OctetString) : s.size.toNat = s.buf.length :=
  Nat.mod_eq_of_lt s.size_lt

theorem Dlsch.le_tbLength_iff (d : Dlsch) :
    d.pdu.buf.length ≤ (d.tbLength cfg).toNat ↔ ¬d.Wraps cfg := by
  have hsize := d.pdu.toNat_size
  have hlt := d.pdu.size_lt
  unfold Dlsch.tbLength Dlsch.Wraps
  by_cases hn : 0 < d.nprb cfg ∧ d.nprb cfg < 110
  · cases hf : (tbsColumn (d.nprb cfg)).find? (fun tbs ↦ (d.pdu.size <<< 3).toNat ≤ tbs) with
    | some tbs =>
      obtain ⟨hlen, hle, hmax⟩ := correctTbs_of_find hn.1 hn.2 hf
      rw [hsize] at hle
      rw [hlen]
      constructor
      · rintro h ⟨hbig, -⟩
        omega
      · intro h
        have hsmall : d.pdu.buf.length < 2 ^ 29 := Nat.lt_of_not_le fun hbig ↦
          h ⟨hbig, hn.1, hn.2, tbs, List.mem_of_find?_eq_some hf, hle⟩
        omega
    | none =>
      rw [correctTbs_of_not_find (.inr hf), hsize]
      refine ⟨?_, fun _ ↦ le_rfl⟩
      rintro - ⟨-, -, -, tbs, htbs, hle⟩
      have := List.find?_eq_none.1 hf tbs htbs
      rw [decide_eq_true_eq, toNat_shiftLeft_three, hsize] at this
      exact this hle
  · rw [correctTbs_of_not_find (.inl hn), hsize]
    exact ⟨fun _ h ↦ hn ⟨h.2.1, h.2.2.1⟩, fun _ ↦ le_rfl⟩

theorem Dlsch.not_wraps (h : d.pdu.buf.length < 2 ^ 29) : ¬d.Wraps cfg :=
  fun hw ↦ absurd hw.1 (Nat.not_le_of_lt h)

theorem exists_parseP7DlCfgDlschTx (h : ¬d.Wraps cfg) :
    ∃ tx, parseP7DlCfgDlschTx cfg d = some tx := by
  have hdata : d.tbData cfg = some _ :=
    if_pos (by rw [calloc, List.length_replicate]; exact d.le_tbLength_iff.2 h)
  exact ⟨_, Option.bind_eq_some_iff.2 ⟨_, hdata, rfl⟩⟩

/-! What the parser has room for -/

def Element.isDlsch : Element → Bool
  | .dlsch _ => true
  | _ => false

def Element.isBch : Element → Bool
  | .bch _ => true
  | _ => false

/-- The number of PDUs that the parser makes of a list: a BCH element is kept only in front of all
others, and not if the MIB is generated. -/
def pduCount (cfg : Config) (es : List Element) : ℕ :=
  es.countP Element.isDlsch +
    if cfg.autoMib = false ∧ (es.find? Element.isPdu).any Element.isBch then 1 else 0

variable {es : List Element} {r r' : DlConfigRequest}

theorem pduCount_skip {e : Element} (he : e.isPdu = false) :
    pduCount cfg (es ++ [e]) = pduCount cfg es := by
  have hdlsch : e.isDlsch = false := by
    cases e with
    | dlsch d => cases he
    | dci | bch | unknown => rfl
  rw [pduCount, pduCount, List.countP_append, List.find?_append, List.countP_singleton, hdlsch,
    List.find?_singleton, he]
  simp

theorem pduCount_dlsch (d : Dlsch) :
    pduCount cfg (es ++ [.dlsch d]) = pduCount cfg es + 1 := by
  have hfirst : ((es ++ [Element.dlsch d]).find? Element.isPdu).any Element.isBch =
      (es.find? Element.isPdu).any Element.isBch := by
    rw [List.find?_append]
    cases es.find? Element.isPdu <;> rfl
  rw [pduCount, pduCount, List.countP_append, hfirst]
  exact Nat.add_right_comm _ _ _

theorem pduCount_eq_zero_iff (h : cfg.autoMib = false) :
    pduCount cfg es = 0 ↔ es.find? Element.isPdu = none := by
  rw [pduCount, Nat.add_eq_zero_iff, List.countP_eq_zero]
  constructor
  · rintro ⟨hdlsch, hbch⟩
    cases hfind : es.find? Element.isPdu with
    | none => rfl
    | some e =>
      have hmem := hdlsch e (List.mem_of_find?_eq_some hfind)
      have hpdu := List.find?_some hfind
      rw [hfind, h] at hbch
      cases e with
      | dlsch d => exact absurd rfl hmem
      | bch b => simp [Element.isBch] at hbch
      | dci | unknown => cases hpdu
  · intro hnone
    refine ⟨fun e he hdlsch ↦ List.find?_eq_none.1 hnone e he ?_, by simp [hnone]⟩
    cases e with
    | dlsch d => rfl
    | dci | bch | unknown => cases hdlsch

theorem pduCount_bch (b : Bch) :
    pduCount cfg (es ++ [.bch b]) =
      if cfg.autoMib = false ∧ pduCount cfg es = 0 then 1 else pduCount cfg es := by
  have hcount : (es ++ [Element.bch b]).countP Element.isDlsch = es.countP Element.isDlsch := by
    rw [List.countP_append]
    rfl
  cases hauto : cfg.autoMib with
  | true => simp [pduCount, hauto, hcount]
  | false =>
    by_cases hnone : es.find? Element.isPdu = none
    · have hzero := (pduCount_eq_zero_iff hauto).2 hnone
      rw [if_pos ⟨rfl, hzero⟩]
      rw [pduCount, Nat.add_eq_zero_iff] at hzero
      rw [pduCount, hcount, hzero.1, List.find?_append, hnone]
      simp [hauto, Element.isPdu, Element.isBch]
    · rw [if_neg fun h ↦ hnone ((pduCount_eq_zero_iff hauto).1 h.2)]
      obtain ⟨e, he⟩ := Option.ne_none_iff_exists'.1 hnone
      rw [pduCount, pduCount, hcount, List.find?_append, he]
      rfl

def BlocksFit (cfg : Config) (es : List Element) : Prop := ∀ d, .dlsch d ∈ es → ¬d.Wraps cfg

structure Counted (cfg : Config) (es : List Element) (r : DlConfigRequest) : Prop where
  dci : r.numberDci.toNat = es.countP Element.isDci
  pdu : r.numberPdu.toNat = pduCount cfg es
  tx : r.numberTxReq = r.numberPdu
  dci_le : r.numberDci.toNat ≤ fapiDlConfigMaxPdu
  pdu_le : r.numberPdu.toNat ≤ fapiDlConfigMaxPdu
  blocks : BlocksFit cfg es

theorem BlocksFit.append {e : Element} (h : BlocksFit cfg es) (he : BlocksFit cfg [e]) :
    BlocksFit cfg (es ++ [e]) := by
  intro d hd
  rcases List.mem_append.1 hd with hd | hd
  · exact h d hd
  · exact he d hd

theorem blocksFit_skip {e : Element} (he : e.isDlsch = false) : BlocksFit cfg [e] := by
  intro d hd
  rw [← List.mem_singleton.1 hd] at he
  cases he

theorem blocksFit_dlsch (h : ¬d.Wraps cfg) : BlocksFit cfg [.dlsch d] := by
  intro d' hd'
  rw [Element.dlsch.inj (List.mem_singleton.1 hd')]
  exact h

theorem Counted.append {e : Element} {pdu : DlConfigPdu} {tx : TxPdu} (h : Counted cfg es r)
    (ha : Appended r r' pdu tx) (hdci : e.isDci = false) (hblocks : BlocksFit cfg [e])
    (hcount : pduCount cfg (es ++ [e]) = pduCount cfg es + 1) : Counted cfg (es ++ [e]) r' := by
  have hsucc := toNat_succ ha.pdu_lt (by decide)
  refine ⟨?_, ?_, ?_, ?_, ?_, h.blocks.append hblocks⟩
  · rw [ha.numberDci, h.dci, List.countP_append, List.countP_singleton, hdci]
    rfl
  · rw [ha.numberPdu, hsucc, h.pdu, hcount]
  · rw [ha.numberTxReq, ha.numberPdu, h.tx]
  · rw [ha.numberDci]
    exact h.dci_le
  · rw [ha.numberPdu, hsucc]
    exact ha.pdu_lt

theorem Counted.skip {e : Element} (h : Counted cfg es r) (hdci : e.isDci = false)
    (hdlsch : e.isDlsch = false) (hcount : pduCount cfg (es ++ [e]) = pduCount cfg es) :
    Counted cfg (es ++ [e]) r := by
  refine ⟨?_, hcount ▸ h.pdu, h.tx, h.dci_le, h.pdu_le, h.blocks.append (blocksFit_skip hdlsch)⟩
  rw [h.dci, List.countP_append, List.countP_singleton, hdci]
  rfl

theorem Counted.numberPdu_eq_zero_iff (h : Counted cfg es r) :
    r.numberPdu = 0 ↔ pduCount cfg es = 0 := by
  rw [← h.pdu]
  exact BitVec.toNat_inj.symm

theorem Counted.step {e : Element} (h : Counted cfg es r) (he : parseElement cfg r e = some r') :
    Counted cfg (es ++ [e]) r' := by
  cases e with
  | dci d =>
    obtain ⟨hlt, -, hdci, hpdu, htx, -⟩ := appendDci_eq_some he
    have hsucc := toNat_succ hlt (by decide)
    refine ⟨?_, ?_, ?_, ?_, ?_, h.blocks.append (blocksFit_skip rfl)⟩
    · rw [hdci, hsucc, h.dci, List.countP_append]
      rfl
    · rw [hpdu, h.pdu, pduCount_skip rfl]
    · rw [htx, hpdu, h.tx]
    · rw [hdci, hsucc]
      exact hlt
    · rw [hpdu]
      exact h.pdu_le
  | bch b =>
    have hcount := @pduCount_bch cfg es b
    simp only [parseElement] at he
    split_ifs at he with hauto hpdu
    · rw [if_neg fun hk ↦ by simp [hauto] at hk] at hcount
      exact Option.some.inj he ▸ h.skip rfl rfl hcount
    · rw [if_neg fun hk ↦ hpdu (h.numberPdu_eq_zero_iff.2 hk.2)] at hcount
      exact Option.some.inj he ▸ h.skip rfl rfl hcount
    · have hzero := h.numberPdu_eq_zero_iff.1 (not_not.1 hpdu)
      rw [if_pos ⟨eq_false_of_ne_true hauto, hzero⟩] at hcount
      obtain ⟨w, t, ha⟩ := appendPdu_eq_some he
      exact h.append ha rfl (blocksFit_skip rfl) (hcount.trans (by rw [hzero]))
  | dlsch d =>
    obtain ⟨tx, htx, he⟩ := Option.bind_eq_some_iff.1 he
    obtain ⟨w, t, ha⟩ := appendPdu_eq_some he
    have hwraps := d.le_tbLength_iff.1 (parseP7DlCfgDlschTx_eq_some htx).1
    exact h.append ha rfl (blocksFit_dlsch hwraps) (pduCount_dlsch d)
  | unknown => exact Option.some.inj he ▸ h.skip rfl rfl (pduCount_skip rfl)

theorem counted_zeroDl (x : BitVec 32) :
    Counted cfg [] { zeroDl with numberPdcchOfdmSymbols := x } where
  dci := rfl
  pdu := by simp [pduCount, zeroDl]
  tx := rfl
  dci_le := Nat.zero_le _
  pdu_le := Nat.zero_le _
  blocks := fun d hd ↦ absurd hd List.not_mem_nil

theorem pduCount_le_append (es fs : List Element) : pduCount cfg es ≤ pduCount cfg (es ++ fs) := by
  induction fs using List.reverseRecOn with
  | nil => rw [List.append_nil]
  | append_singleton fs e ih =>
    rw [← List.append_assoc]
    refine ih.trans ?_
    cases e with
    | dlsch d =>
      rw [pduCount_dlsch]
      exact Nat.le_succ _
    | bch b =>
      rw [pduCount_bch]
      split_ifs with hzero
      · rw [hzero.2]
        exact Nat.zero_le _
      · exact le_rfl
    | dci | unknown => exact (pduCount_skip rfl).ge

theorem Counted.exists_step {e : Element} (h : Counted cfg es r)
    (hdci : (es ++ [e]).countP Element.isDci ≤ fapiDlConfigMaxPdu)
    (hpdu : pduCount cfg (es ++ [e]) ≤ fapiDlConfigMaxPdu) (hblocks : BlocksFit cfg [e]) :
    ∃ r', parseElement cfg r e = some r' := by
  cases e with
  | dci d =>
    rw [List.countP_append, ← h.dci] at hdci
    obtain ⟨dcis, hdcis⟩ := exists_setEntry (a := r.dlConfigDciList)
      (fun w ↦ setWords (parseP7DlCfgDci d w) [(0, fapiDlConfigDciDlPduType)])
      (Nat.lt_of_succ_le hdci)
    exact ⟨_, Option.bind_eq_some_iff.2 ⟨dcis, hdcis, rfl⟩⟩
  | bch b =>
    rw [parseElement]
    split_ifs with hauto hzero
    · exact ⟨_, rfl⟩
    · exact ⟨_, rfl⟩
    · rw [ne_eq, not_not] at hzero
      have htx := h.tx
      exact exists_appendPdu _ _ (by rw [hzero]; decide) (by rw [htx, hzero]; decide)
  | dlsch d =>
    rw [pduCount_dlsch, ← h.pdu] at hpdu
    have hlt := Nat.lt_of_succ_le hpdu
    obtain ⟨tx, htx⟩ := exists_parseP7DlCfgDlschTx (hblocks d (List.mem_singleton_self _))
    obtain ⟨r', hr'⟩ := exists_appendPdu _ _ hlt (h.tx ▸ hlt)
    exact ⟨r', Option.bind_eq_some_iff.2 ⟨tx, htx, hr'⟩⟩
  | unknown => exact ⟨_, rfl⟩

/-- The member has a list of PDUs, the lists of a request hold what the parser keeps of it, and
the blocks hold their strings. -/
def Member.Fits (cfg : Config) (m : Member) : Prop :=
  ∃ es, m.pdus = some es ∧ es.countP Element.isDci ≤ fapiDlConfigMaxPdu ∧
    pduCount cfg es ≤ fapiDlConfigMaxPdu ∧ BlocksFit cfg es

theorem exists_parseP7DlCfg_iff {m : Member} :
    (∃ q, parseP7DlCfg cfg m = some q) ↔ m.Fits cfg := by
  constructor
  · rintro ⟨q, hq⟩
    obtain ⟨es, hes, hq⟩ := Option.bind_eq_some_iff.1 hq
    obtain ⟨r, hr, -⟩ := Option.bind_eq_some_iff.1 hq
    have hc : Counted cfg ([] ++ es) r := foldlM_invariant Counted.step (counted_zeroDl m.cfi) hr
    exact ⟨es, hes, hc.dci ▸ hc.dci_le, hc.pdu ▸ hc.pdu_le, hc.blocks⟩
  · rintro ⟨es, hes, hdci, hpdu, hblocks⟩
    obtain ⟨r, hr⟩ : ∃ r, es.foldlM (parseElement cfg)
        { zeroDl with numberPdcchOfdmSymbols := m.cfi } = some r := by
      refine exists_foldlM Counted.step (fun xs e zs r hxs hc ↦ ?_) (counted_zeroDl m.cfi)
      obtain rfl : es = xs ++ [e] ++ zs := by rw [hxs, List.append_assoc, List.singleton_append]
      rw [List.countP_append] at hdci
      refine hc.exists_step (Nat.le_of_add_right_le hdci) ((pduCount_le_append _ zs).trans hpdu) ?_
      exact fun d hd ↦ hblocks d (List.mem_append_left _ (List.mem_append_right _ hd))
    exact ⟨_, Option.bind_eq_some_iff.2 ⟨es, hes, Option.bind_eq_some_iff.2 ⟨r, hr, rfl⟩⟩⟩

variable {stim : List Member}

theorem exists_parseP7_iff :
    (∃ items, parseP7 cfg stim = some (items, 0)) ↔ ∀ m ∈ stim, m.Fits cfg := by
  induction stim with
  | nil => exact iff_of_true ⟨[], rfl⟩ fun m hm ↦ absurd hm (List.not_mem_nil)
  | cons m ms ih =>
    rw [List.forall_mem_cons, ← exists_parseP7DlCfg_iff, ← ih]
    constructor
    · rintro ⟨items, h⟩
      obtain ⟨q, hq, h⟩ := Option.bind_eq_some_iff.1 h
      rw [if_neg (not_not_intro (parseP7DlCfg_loads hq).1), if_neg (by decide)] at h
      obtain ⟨rest, hrest, h⟩ := Option.bind_eq_some_iff.1 h
      have hret := (Prod.mk.inj (Option.some.inj h)).2
      exact ⟨⟨q, hq⟩, rest.1, hrest.trans (by rw [← hret])⟩
    · rintro ⟨⟨q, hq⟩, rest, hrest⟩
      refine ⟨⟨m.tti, q.1, parseP7UlCfg.1⟩ :: rest, ?_⟩
      rw [parseP7, hq, Option.bind_eq_bind, Option.bind_some,
        if_neg (not_not_intro (parseP7DlCfg_loads hq).1), if_neg (by decide), hrest]
      rfl

end EnbL1Ppc.Generator
