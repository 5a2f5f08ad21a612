import EnbL1Ppc.Generator.ParserBounds

namespace EnbL1Ppc.Generator

open Lib Lib.OptionFold Fapi.Requests

/-! The data of a TX PDU -/

def txData (t : TxPdu) : List UInt8 := t.segments.flatMap Tb.bytes

theorem HasBlock.segments {t : TxPdu} {len : BitVec 32} {block : ℕ → UInt8}
    (h : HasBlock t len block) : t.segments = [t.tbs firstSegment] := by
  rw [TxPdu.segments, h.numSegments, entries]
  change List.take (0 + 1) _ = _
  rw [List.take_succ_eq_append_getElem (by rw [List.length_ofFn]; decide), List.take_zero, List.getElem_ofFn]
  rfl

theorem HasBlock.txData_eq {t : TxPdu} {len : BitVec 32} {block : ℕ → UInt8}
    (h : HasBlock t len block) : txData t = Memory.bytes block len.toNat := by
  rw [txData, h.segments, List.flatMap_singleton, Tb.bytes, h.length, h.block]

theorem bytes_getD (bs : List UInt8) {n : ℕ} (h : bs.length ≤ n) :
    Memory.bytes (fun k ↦ bs.getD k 0) n = bs ++ List.replicate (n - bs.length) 0 := by
  refine List.ext_getElem (by simp [Memory.bytes, h]) fun i hi _ ↦ ?_
  simp only [Memory.bytes, List.getElem_map, List.getElem_range]
  rcases Nat.lt_or_ge i bs.length with hlt | hge
  · rw [List.getElem_append_left hlt, List.getD_eq_getElem _ _ hlt]
  · rw [List.getElem_append_right hge, List.getElem_replicate, List.getD_eq_default _ _ hge]

/-- The TX PDU carries the octet string of the element padded with zeros, or the MIB. -/
def Source.CarriedBy : Source → TxPdu → Prop
  | .dlsch d, t => ∃ n, txData t = d.pdu.buf ++ List.replicate n 0
  | .mib bs, t => txData t = bs

variable {cfg : Config}

theorem Source.Exact.txData_eq {s : Source} {t : TxPdu} (h : s.Exact cfg t) :
    txData t = s.octets ++ List.replicate ((s.tbLength cfg).toNat - s.octets.length) 0 := by
  rw [h.toHasBlock.txData_eq, bytes_getD _ h.fits]

theorem Source.carriedBy_mib {bs : List UInt8} {t : TxPdu} (hlen : bs.length = 3)
    (h : Source.Exact cfg (.mib bs) t) : Source.CarriedBy (.mib bs) t := by
  rw [CarriedBy, h.txData_eq, octets, hlen]
  exact List.append_nil bs

variable {ss : List Source} {r : DlConfigRequest}

theorem Encoded.carriedBy (h : Encoded cfg ss r) (hmib : ∀ bs, .mib bs ∈ ss → bs.length = 3) :
    Matches Source.CarriedBy ss r := by
  refine ⟨h.count, h.length, fun k s hk ↦ ?_⟩
  have hs := List.mem_of_getElem? hk
  obtain ⟨pdu, tx, hpdu, htx, htype, hi, hi', hexact⟩ := h.entry k s hk
  refine ⟨pdu, tx, hpdu, htx, htype, hi, hi', ?_⟩
  cases s with
  | dlsch d => exact ⟨_, hexact.txData_eq⟩
  | mib bs => exact Source.carriedBy_mib (hmib bs hs) hexact

/-! Runs -/

variable {stim : List Member} {g g' : L2FapiGenerator} {inds : List Indication}
  {outs : List Sent}

structure Sent.Ok (cfg : Config) (stim : List Member) (o : Sent) : Prop where
  encoded : Encoded cfg (o.sources stim) o.dl
  ul : o.ul.numberPdu = 0
  mib : ∀ bs ∈ o.mib, bs.length = 3

theorem exec_sent (hg : Loaded cfg stim g) (h : Machine.exec tti g inds = some (g', outs)) :
    ∀ o ∈ outs, o.Ok cfg stim := by
  refine (Machine.exec_history (g := fun _ _ ↦ True)
    (R := fun outs g ↦ Loaded cfg stim g ∧ ∀ o ∈ outs, o.Ok cfg stim) ?_ [] ⟨hg, by simp⟩
    (.of_forall (fun _ _ _ ↦ trivial) _) h).2
  rintro outs g ind g' os ⟨hg, hok⟩ - hstep
  obtain ⟨hg', o, rfl, henc, hul, hmib⟩ := tti_sent hg hstep
  refine ⟨hg', fun o' ho' ↦ ?_⟩
  rcases List.mem_append.1 ho' with ho' | ho'
  · exact hok o' ho'
  · obtain rfl := List.mem_singleton.1 ho'
    exact ⟨henc, hul, hmib⟩

theorem Sent.mem_sources_mib {o : Sent} {bs : List UInt8} (h : .mib bs ∈ o.sources stim) :
    bs ∈ o.mib := by
  rw [Sent.sources, List.mem_append] at h
  rcases h with h | h
  · cases ho : o.played.bind fun i ↦ stim[i]? with
    | none => simp [ho] at h
    | some m => simp [ho, Member.sources, dlschSources] at h
  · simpa using h

theorem Sent.Ok.carriedBy {o : Sent} (h : o.Ok cfg stim) :
    Matches Source.CarriedBy (o.sources stim) o.dl :=
  h.encoded.carriedBy fun _ hbs ↦ h.mib _ (Sent.mem_sources_mib hbs)

structure Member.Small (m : Member) : Prop where
  dci : (m.pdus.getD []).countP Element.isDci ≤ 63
  pdu : (m.pdus.getD []).countP Element.isPdu ≤ 63

theorem Member.Small.sources_lt {m : Member} (h : m.Small) :
    m.sources.length < fapiDlConfigMaxPdu := by
  refine lt_of_le_of_lt ?_ (Nat.lt_succ_of_le h.pdu)
  rw [Member.sources, dlschSources, List.length_map, List.length_filterMap_eq_countP]
  refine List.countP_mono_left fun e _ he ↦ ?_
  cases e with
  | bch b => rfl
  | dlsch d => rfl
  | dci d => exact he
  | unknown => exact he

theorem exists_exec (hg : Loaded cfg stim g) (hptr : g.stimPtr < g.stimList.length)
    (hsmall : ∀ m ∈ stim, m.Small) (hsf : ∀ ind ∈ inds, ind.subframe.toNat < 10) :
    ∃ g' outs, Machine.exec tti g inds = some (g', outs) ∧ outs.length = inds.length := by
  induction inds generalizing g with
  | nil => exact ⟨g, [], rfl, rfl⟩
  | cons ind inds ih =>
    obtain ⟨hind, hinds⟩ := List.forall_mem_cons.1 hsf
    obtain ⟨⟨g₁, os⟩, h₁⟩ := exists_tti ind hg hptr hind fun m hm ↦ (hsmall m hm).sources_lt
    obtain ⟨hg₁, o, rfl, -⟩ := tti_sent hg h₁
    obtain ⟨g', outs, h, hlen⟩ := ih hg₁ (tti_stimPtr_lt hptr h₁) hinds
    refine ⟨g', o :: outs, ?_, by rw [List.length_cons, List.length_cons, hlen]⟩
    rw [Machine.exec, h₁, Option.bind_some, h]
    rfl

/-- In every TTI the PDUs and the TX PDUs are linked, and a small stimulus is played to the end. -/
theorem tti_linked {ret : ℤ} (hcfg : g.config = cfg)
    (hparse : parseP7 cfg stim = some (g.stimList, ret)) :
    ret = 0 ∧
    (∀ inds g' outs, Machine.exec tti g inds = some (g', outs) → ∀ o ∈ outs,
      Matches Source.CarriedBy (o.sources stim) o.dl) ∧
    ((∀ m ∈ stim, m.Small) → g.stimPtr < stim.length →
      ∀ inds : List Indication, (∀ ind ∈ inds, ind.subframe.toNat < 10) →
        ∃ g' outs, Machine.exec tti g inds = some (g', outs) ∧ outs.length = inds.length) := by
  obtain ⟨hret, hitems⟩ := parseP7_loads hparse
  have hg : Loaded cfg stim g := ⟨hcfg, hitems⟩
  refine ⟨hret, fun inds g' outs h o ho ↦ (exec_sent hg h o ho).carriedBy, ?_⟩
  intro hsmall hptr inds hsf
  exact exists_exec hg (hitems.length_eq ▸ hptr) hsmall hsf

section Example

def exampleConfig : Config := ⟨false, 25, 0, 0⟩

def oneBlockDlsch (pdu : OctetString) : Dlsch :=
  ⟨pdu, 1, 0, none, 1, 2, 0, 1, none, none, none, none, none, none, none, none, none, none⟩

def oneBlockMember (pdu : OctetString) : Member := ⟨0, 1, some [.dlsch (oneBlockDlsch pdu)]⟩

def exampleGenerator (cfg : Config) (items : List StimItem) : L2FapiGenerator :=
  ⟨cfg, 0, 0, items, fun _ ↦ zeroDl, fun _ ↦ zeroUl⟩

def shortString : OctetString := ⟨[1, 2, 3], by decide⟩

theorem oneBlockMember_fits : (oneBlockMember shortString).Fits exampleConfig :=
  ⟨_, rfl, Nat.zero_le _, by change 1 ≤ 64; decide, blocksFit_dlsch (Dlsch.not_wraps (by decide))⟩

theorem exec_single {ind : Indication} (h : tti g ind = some (g', outs)) :
    Machine.exec tti g [ind] = some (g', outs) := by
  rw [Machine.exec, h, Option.bind_some, Machine.exec_nil, Option.map_some, List.append_nil]

theorem exists_single_sent {cfg : Config} (hauto : cfg.autoMib = false) {m : Member}
    (htti : m.tti = 0) (hfits : m.Fits cfg) :
    ∃ g g' o, g.config = cfg ∧ parseP7 cfg [m] = some (g.stimList, 0) ∧
      tti g ⟨0, 1⟩ = some (g', [o]) ∧ o.played = some 0 ∧ o.sources [m] = m.sources := by
  obtain ⟨items, hitems⟩ := exists_parseP7_iff.2 (List.forall_mem_singleton.2 hfits)
  have hg : Loaded cfg [m] (exampleGenerator cfg items) := ⟨rfl, (parseP7_loads hitems).2⟩
  obtain ⟨⟨g', outs⟩, h⟩ := (exists_tti_iff ⟨0, 1⟩ hg rfl (by decide)).2 fun h ↦ by
    rw [hauto] at h
    cases h
  obtain ⟨sf, item, s, t, hitem, -, ht, -, rfl⟩ := tti_eq_some h
  obtain ⟨m', hm', hload⟩ := hg.member hitem
  obtain rfl : m = m' := Option.some.inj hm'
  have hdue : due (exampleGenerator cfg items) ⟨0, 1⟩ item = true := by
    rw [due, hload.tti, htti, ← hg.items.length_eq, List.length_singleton, Nat.mod_one]
    rfl
  have hmib : t.2 = none := by
    rw [encodeMib, show (exampleGenerator cfg items).config.autoMib = false from hauto] at ht
    exact (Option.some.inj ht) ▸ rfl
  refine ⟨_, g', _, rfl, hitems, h, if_pos hdue, ?_⟩
  simp only [Sent.sources, if_pos hdue, hmib]
  exact List.append_nil _

theorem tti_linked_shortString :
    ∃ g g' o, parseP7 exampleConfig [oneBlockMember shortString] = some (g.stimList, 0) ∧
      Machine.exec tti g [⟨0, 1⟩] = some (g', [o]) ∧
      Matches Source.CarriedBy [.dlsch (oneBlockDlsch shortString)] o.dl := by
  obtain ⟨g, g', o, hcfg, hparse, h, -, hsources⟩ := exists_single_sent rfl rfl oneBlockMember_fits
  have hrun := exec_single h
  refine ⟨g, g', o, hparse, hrun, ?_⟩
  have hlinked := (tti_linked hcfg hparse).2.1 _ _ _ hrun o (List.mem_singleton_self _)
  rwa [hsources] at hlinked

end Example

end EnbL1Ppc.Generator
