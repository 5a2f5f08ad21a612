import EnbL1Ppc.Gser.ReadBack

namespace EnbL1Ppc.Gser

open Lib Logged

def Elements.absents : Elements → Option (List (Option Value))
  | .nil => some []
  | .cons _ presence _ rest =>
    if presence.isOptional then rest.absents.map (presence.absent :: ·) else none

section Close

variable (env : Env) {ws : Text} (rest : Text)

theorem seekMember_close (name : Text) (c : Cursor) (braces : ℤ) (hbound : 2 ≤ env.bound)
    (hs : c.state = .initial) (hw : Blank ws) (hbuf : c.buf = ws ++ ([charCloseBracket] ++ rest)) :
    (seekMember env name false env.bound c braces).res =
      some (.done (.fail (c.consumed + ws.length))) := by
  obtain ⟨n, hn⟩ := Nat.exists_eq_add_of_le' (show 1 ≤ env.bound by omega)
  rw [hn, seekMember,
    bind_res (skipSpaces_lexeme env hbound hs hbuf hw (lexeme_closeBracket _))]
  simp [absentMandatory]

theorem decodeElements_close : ∀ {els : Elements}, els.isNil = false → els.WellNamed →
    ∀ (path : List ℕ) (mark : Token) (start : Text) (i : ℕ) (c : Cursor)
    (acc : List (Option Value)) {ws : Text}, 2 ≤ env.bound → c.state = .initial → Blank ws →
    c.buf = ws ++ ([charCloseBracket] ++ rest) →
    ∃ n, (decodeElements env els path mark start i c 0 acc).res = some (els.absents.elim (.fail n)
      fun us ↦ .ok (c.consumed + ws.length) (.sequence (acc ++ us)))
  | .cons name presence ty els, _, hwf, path, mark, start, i, c, acc, ws, hbound, hs, hw, hbuf => by
    rw [decodeElements, Elements.absents]
    cases hopt : presence.isOptional with
    | false =>
      rw [bind_res (seekMember_close env rest name c 0 hbound hs hw hbuf)]
      exact ⟨_, rfl⟩
    | true =>
      have hname : ¬ (1 = name.length ∧ ([charCloseBracket] ++ rest).take 1 = name) := by
        rintro ⟨-, he⟩
        obtain rfl : [charCloseBracket] = name := he
        exact absurd hwf.1.1 (by decide)
      rw [bind_res (seekMember_blank hbound (by omega) hs hbuf hw (lexeme_closeBracket rest)
        (.inr ⟨rfl, rfl⟩))]
      dsimp only
      rw [List.length_singleton, if_neg hname, if_pos rfl, nextElement, if_pos rfl]
      cases els with
      | nil => exact ⟨0, by simp [Elements.isNil, Elements.absents]⟩
      | cons name' presence' ty' els' =>
        have hnil : Blank [] := by simp [Blank]
        obtain ⟨n, hn⟩ := decodeElements_close rfl hwf.2.2.2 path mark start (i + 1)
          ⟨.initial, some .text, [charCloseBracket] ++ rest, c.consumed + ws.length⟩
          (acc ++ [presence.absent]) hbound rfl hnil rfl
        refine ⟨n, ?_⟩
        rw [if_neg (by simp [Elements.isNil]), hn]
        cases (Elements.cons name' presence' ty' els').absents <;> simp

theorem choiceName_close (first : Option Text) (path : List ℕ) (hbound : 2 ≤ env.bound)
    (hw : Blank ws) : ∃ c, (choiceName env first path (ws ++ ([charCloseBracket] ++ rest))).res =
      some (c, .inr (.fail ws.length)) := by
  rw [choiceName, bind_res (skipSpaces_lexeme env hbound rfl rfl hw (lexeme_closeBracket _))]
  simp [Cursor.start]

end Close

theorem Ty.yields_nil_sequence {els : Elements} (hwf : (Ty.sequence els).WellFormed) {ws : Text}
    (hw : Blank ws) :
    (Ty.sequenceOf (.sequence els)).Yields (charOpenBracket :: (ws ++ [charCloseBracket]))
      (els.absents.map fun us ↦ (false, .list [.sequence us])) := by
  intro env path before after hbefore hd hb
  simp only [List.length_cons, List.length_append, List.length_nil] at hb
  obtain ⟨n, hn⟩ := Nat.exists_eq_add_of_le' (show 2 ≤ env.bound by omega)
  obtain ⟨m, hm⟩ := decodeElements_close env after hwf.1 hwf.2 (0 :: path) .openBracket
    (ws ++ ([charCloseBracket] ++ after)) 0 (.start env (0 :: path) (ws ++ ([charCloseBracket] ++ after))) [] (by omega) rfl hw rfl
  have hel : (decodeTy env (.sequence els) (0 :: path) (ws ++ ([charCloseBracket] ++ after))).res =
      some (els.absents.elim (.fail m) fun us ↦ .ok ws.length (.sequence us)) := by
    rw [decodeTy, hm]
    simp [Cursor.start]
  rw [decodeTy, hn, List.cons_append, List.append_assoc, setOfLoop_open (by omega) hbefore hel]
  cases els.absents with
  | none => exact ⟨_, rfl⟩
  | some us =>
    refine ⟨0, ?_⟩
    simp only [Option.elim_some, addElement, Cursor.advance, tellIf_bind_res, List.drop_left]
    rw [setOfLoop_close (by omega) rfl (show Blank [] by simp [Blank]) rfl]
    simp only [Option.map_some, Option.elim_some, Rval.read, Bool.false_eq_true, if_false,
      List.length_cons, List.length_append, List.length_nil, List.nil_append]
    congr 2
    omega

theorem Ty.yields_nil_choice {els : Elements} {ws : Text} (hw : Blank ws) :
    (Ty.sequenceOf (.choice els)).Yields (charOpenBracket :: (ws ++ [charCloseBracket])) none := by
  intro env path before after hbefore hd hb
  simp only [List.length_cons, List.length_append, List.length_nil] at hb
  obtain ⟨n, hn⟩ := Nat.exists_eq_add_of_le' (show 1 ≤ env.bound by omega)
  have hel : (decodeTy env (.choice els) (0 :: path) (ws ++ ([charCloseBracket] ++ after))).res =
      some (.fail ws.length) := by
    obtain ⟨c, hc⟩ := choiceName_close env after els.firstName (0 :: path) (by omega) hw
    rw [decodeTy, bind_res hc]
    rfl
  rw [decodeTy, hn, List.cons_append, List.append_assoc, setOfLoop_open (by omega) hbefore hel]
  exact ⟨_, rfl⟩

theorem Ty.exists_yields_nil {element : Ty} (hwf : element.WellFormed)
    (hel : ∀ e, element ≠ .sequenceOf e) {ws : Text} (hw : Blank ws) :
    ∃ out, (Ty.sequenceOf element).Yields (charOpenBracket :: (ws ++ [charCloseBracket])) out ∧
      (out.map Prod.snd = some (.list []) ↔ ∃ p, element = .prim p) := by
  cases element with
  | prim p => exact ⟨_, Ty.yields_nil hw, fun _ ↦ ⟨p, rfl⟩, fun _ ↦ rfl⟩
  | sequence els =>
    refine ⟨_, Ty.yields_nil_sequence hwf hw, ?_, ?_⟩
    · cases els.absents <;> simp
    · rintro ⟨p, hp⟩
      cases hp
  | sequenceOf e => exact absurd rfl (hel e)
  | choice els =>
    refine ⟨_, Ty.yields_nil_choice hw, ?_, ?_⟩
    · simp
    · rintro ⟨p, hp⟩
      cases hp

theorem Elements.WellNamed.member {presence : Presence} {ty : Ty} : ∀ {els : Elements} {i : ℕ},
    els.WellNamed → els.member? i = some (presence, ty) → ty.WellFormed
  | .cons _ _ _ _, 0, h, hi => by
    cases hi
    exact h.2.2.1
  | .cons _ _ _ _, _ + 1, h, hi => Elements.WellNamed.member h.2.2.2 hi

def Elements.OthersReadBack (flags : EncoderFlags) (ilevel : ℕ) :
    Elements → ℕ → List (Option Value) → List (Option Value) → Prop
  | .cons _ _ _ rest, 0, _ :: vs, _ :: ws => rest.ReadBack flags ilevel vs ws
  | .cons _ presence ty rest, i + 1, v :: vs, w :: ws =>
    MemberReadBack (ty.ReadBack flags (ilevel + 1)) presence v w ∧
      rest.OthersReadBack flags ilevel i vs ws
  | _, _, _, _ => False

theorem Elements.OthersReadBack.lt_length {flags : EncoderFlags} {ilevel : ℕ} :
    ∀ {els : Elements} {i : ℕ} {vs ws : List (Option Value)},
    els.OthersReadBack flags ilevel i vs ws → i < ws.length
  | .cons _ _ _ _, 0, _ :: _, _ :: _, _ => Nat.zero_lt_succ _
  | .cons _ _ _ _, _ + 1, _ :: _, _ :: _, h =>
    Nat.succ_lt_succ (Elements.OthersReadBack.lt_length h.2)

theorem Elements.OthersReadBack.yields {flags : EncoderFlags} {ilevel : ℕ} {presence : Presence}
    {ty : Ty} {v : Value} {text : Text} {out : Option (Bool × Value)}
    (ht : encodeTy flags ty (ilevel + 1) v = some text) (hread : ty.Yields text out) :
    ∀ {els : Elements}, els.WellNamed → ∀ {i : ℕ} (first : Bool) {vs ws : List (Option Value)},
    els.OthersReadBack flags ilevel i vs ws → els.member? i = some (presence, ty) →
    vs[i]? = some (some v) → ∃ body, els.Prints flags ilevel first vs body ∧
      els.Yields body (out.map fun x ↦ ws.set i (some x.2))
  | .cons name _ _ rest, hwf, 0, first, _ :: vs, w :: ws, h, hi, hv => by
    cases hi
    cases hv
    obtain ⟨body, hprints, hbody⟩ := Elements.ReadBack.yields hwf.2.2.2 false h
    obtain ⟨lead, hlead, hd, hprints⟩ := hprints.present name first
      (show (some v).or presence.absent = some v from rfl) ht
    refine ⟨_, hprints, ?_⟩
    have hyields := hbody.present hwf hread (List.cons_ne_nil 0x20 []) (by decide) hlead hd
    cases out <;> exact hyields
  | .cons name presence' ty' rest, hwf, i + 1, first, u :: vs, w :: ws, h, hi, hv => by
    obtain ⟨⟨u', isEmpty, w', hu', rfl, hmember⟩ | ⟨rfl, rfl, rfl⟩, hrest⟩ := h
    · obtain ⟨text', ht', hread'⟩ := Ty.ReadBack.yields hwf.2.2.1 hmember
      obtain ⟨body, hprints, hbody⟩ :=
        Elements.OthersReadBack.yields ht hread hwf.2.2.2 false hrest hi hv
      obtain ⟨lead, hlead, hd, hprints⟩ := hprints.present name first hu' ht'
      refine ⟨_, hprints, ?_⟩
      have hyields := hbody.present hwf hread' (List.cons_ne_nil 0x20 []) (by decide) hlead hd
      cases out <;> exact hyields
    · obtain ⟨body, hprints, hbody⟩ :=
        Elements.OthersReadBack.yields ht hread hwf.2.2.2 first hrest hi hv
      refine ⟨body, hprints.absent, ?_⟩
      have hyields := hbody.absent hwf rfl
      cases out <;> exact hyields

theorem gserDecode_others {flags : EncoderFlags} {els : Elements} {vs ws : List (Option Value)}
    {i : ℕ} {presence : Presence} {ty : Ty} {v : Value} {text : Text}
    {out : Option (Bool × Value)} (hty : (Ty.sequence els).WellFormed)
    (hv : els.OthersReadBack flags 1 i vs ws) (hi : els.member? i = some (presence, ty))
    (hvi : vs[i]? = some (some v)) (ht : encodeTy flags ty 2 v = some text)
    (hread : ty.Yields text out) :
    ∃ text, gserEncode flags (.sequence els) (.sequence vs) = some text ∧
      ∀ env : Env, text.length + 2 ≤ env.bound →
        ∃ n, (gserDecode env (.sequence els) text).res = some (out.elim (.fail n)
          fun x ↦ .ok (text.length - 1) (.sequence (ws.set i (some x.2)))) := by
  obtain ⟨body, hprints, hbody⟩ :=
    Elements.OthersReadBack.yields ht hread hty.2 true hv hi hvi
  obtain ⟨lead, hlead, ht⟩ := hprints.sequence hty.1
  refine ⟨_, by rw [gserEncode, ht, Option.map_some], fun env hb ↦ ?_⟩
  obtain ⟨n, hn⟩ := gserDecode_yields hbody hlead hb
  refine ⟨n, hn.trans ?_⟩
  cases out <;> rfl

/-- An empty SEQUENCE OF that is a mandatory member survives the round trip if its elements are
primitive, and is lost if they are SEQUENCEs or CHOICEs. -/
theorem emptyList_survives_iff (flags : EncoderFlags) {els : Elements}
    {vs ws : List (Option Value)} {i : ℕ} {element : Ty} (hty : (Ty.sequence els).WellFormed)
    (hv : els.OthersReadBack flags 1 i vs ws)
    (hi : els.member? i = some (.mandatory, .sequenceOf element))
    (hvi : vs[i]? = some (some (.list []))) (hel : ∀ e, element ≠ .sequenceOf e) :
    ∃ text, gserEncode flags (.sequence els) (.sequence vs) = some text ∧
      ∀ env : Env, text.length + 2 ≤ env.bound →
        ((∃ n us, (gserDecode env (.sequence els) text).res = some (.ok n (.sequence us)) ∧
            us[i]? = some (some (.list []))) ↔
          ∃ p, element = .prim p) := by
  obtain ⟨lead, hlead, ht⟩ := encodeTy_nil flags element 2
  have hlist : (Ty.sequenceOf element).WellFormed := hty.2.member hi
  have hwf : element.WellFormed := hlist
  obtain ⟨out, hread, hout⟩ := Ty.exists_yields_nil hwf hel hlead
  obtain ⟨text, htext, hdec⟩ := gserDecode_others hty hv hi hvi ht hread
  refine ⟨text, htext, fun env hb ↦ ?_⟩
  obtain ⟨n, hn⟩ := hdec env hb
  rw [← hout, hn]
  cases out with
  | none => simp
  | some x => simp [List.getElem?_set_self hv.lt_length]

def codesOf (element : Ty) : Elements :=
  .cons (ascii "codes") .mandatory (.sequenceOf element) .nil

theorem codesOf_wellFormed {element : Ty} (h : element.WellFormed) :
    (Ty.sequence (codesOf element)).WellFormed := by
  refine ⟨rfl, by decide, ?_, h, trivial⟩
  simp [Elements.names]

theorem codesOf_othersReadBack (flags : EncoderFlags) (element : Ty) :
    (codesOf element).OthersReadBack flags 1 0 [some (.list [])] [none] :=
  ⟨rfl, rfl⟩

theorem emptyList_survives_iff_octetString :
    ∃ text, gserEncode .basic (.sequence (codesOf (.prim octetString)))
        (.sequence [some (.list [])]) = some text ∧
      ∀ env : Env, text.length + 2 ≤ env.bound →
        ((∃ n us, (gserDecode env (.sequence (codesOf (.prim octetString))) text).res =
            some (.ok n (.sequence us)) ∧ us[0]? = some (some (.list []))) ↔
          ∃ p, Ty.prim octetString = .prim p) :=
  emptyList_survives_iff .basic (codesOf_wellFormed trivial)
    (codesOf_othersReadBack .basic (.prim octetString)) rfl rfl nofun

/-- The decoder misses the mandatory member of an element that is not there. -/
theorem emptyList_fails :
    ∃ text, gserEncode .basic (.sequence (codesOf (.sequence named)))
        (.sequence [some (.list [])]) = some text ∧
      ∀ env : Env, text.length + 2 ≤ env.bound →
        ∃ n, (gserDecode env (.sequence (codesOf (.sequence named))) text).res =
          some (.fail n) := by
  obtain ⟨lead, hlead, ht⟩ := encodeTy_nil .basic (.sequence named) 2
  exact gserDecode_others (codesOf_wellFormed named_wellFormed)
    (codesOf_othersReadBack .basic (.sequence named)) rfl rfl ht
    (Ty.yields_nil_sequence named_wellFormed hlead)

end EnbL1Ppc.Gser
