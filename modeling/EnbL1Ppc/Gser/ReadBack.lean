import EnbL1Ppc.Gser.CharString
import EnbL1Ppc.Gser.RoundTrip

namespace EnbL1Ppc.Gser

open Lib Logged

section Yields

/-- Whatever stands around it, the decoder reads `text` with the same outcome: a value, with
`true` for `RC_EMPTY`, or `none` if it fails. -/
def Ty.Yields (ty : Ty) (text : Text) (out : Option (Bool × Value)) : Prop :=
  ∀ (env : Env) (path : List ℕ) {ws rest : Text}, Blank ws → Delimited rest →
    text.length + 3 ≤ env.bound → ∃ n, (decodeTy env ty path (ws ++ (text ++ rest))).res =
      some (out.elim (.fail n) fun x ↦ .read x.1 (ws.length + text.length) x.2)

structure Elements.Yields (els : Elements) (body : Text) (out : Option (List (Option Value))) :
    Prop where
  start : els.Start body
  decode : ∀ (env : Env) (path : List ℕ) (mark : Token) (start : Text) (i : ℕ) (c : Cursor)
    (acc : List (Option Value)) {braces : ℤ} {lead rest : Text}, Lead braces lead → c.state = .initial →
    c.buf = lead ++ (body ++ rest) → body.length + 3 ≤ env.bound →
    ∃ n, (decodeElements env els path mark start i c braces acc).res = some (out.elim (.fail n)
      fun ws ↦ .ok (c.consumed + lead.length + body.length) (.sequence (acc ++ ws)))

variable {name text body lead : Text} {presence : Presence} {ty : Ty} {rest els : Elements}
  {out : Option (List (Option Value))}

theorem Elements.yields_nil : Elements.nil.Yields [charCloseBracket] (some []) where
  start := .inl rfl
  decode := by
    intro env path mark start i c acc braces lead rest hl hs hbuf hb
    refine ⟨0, ?_⟩
    rw [decodeElements, bind_res (closeSequence_lead (by omega) (by omega) hs hl hbuf)]
    simp

theorem Elements.Yields.absent (h : rest.Yields body out)
    (hwf : (Elements.cons name presence ty rest).WellNamed) (hopt : presence.isOptional = true) :
    (Elements.cons name presence ty rest).Yields body (out.map (presence.absent :: ·)) where
  start := by
    rcases h.start with h | ⟨other, tail, ho, htail⟩
    · exact .inl h
    · exact .inr ⟨other, tail, List.mem_cons_of_mem _ ho, htail⟩
  decode := by
    intro env path mark start i c acc braces lead after hl hs hbuf hb
    rw [decodeElements_absent (by omega) hs hl hwf h.start hopt hbuf]
    obtain ⟨n, hn⟩ := h.decode env path mark start (i + 1)
      ⟨.initial, some .text, body ++ after, c.consumed + lead.length⟩ (acc ++ [presence.absent])
      (show Lead 1 [] from .blank (by simp [Blank])) rfl rfl hb
    refine ⟨n, hn.trans ?_⟩
    cases out <;> simp

theorem Elements.Yields.present {ws : Text} {o : Option (Bool × Value)} (h : rest.Yields body out)
    (hwf : (Elements.cons name presence ty rest).WellNamed) (hty : ty.Yields text o)
    (hne : ws ≠ []) (hw : Blank ws) (hlead : Lead 1 lead) (hd : Delimited (lead ++ body)) :
    (Elements.cons name presence ty rest).Yields (name ++ (ws ++ (text ++ (lead ++ body))))
      (o.bind fun x ↦ out.map (some x.2 :: ·)) where
  start := by
    obtain ⟨w, ws, rfl⟩ := List.exists_cons_of_ne_nil hne
    exact .inr ⟨name, _, List.mem_cons_self, rfl, not_inText_of_isWhitespace (hw w (by simp))⟩
  decode := by
    intro env path mark start i c acc braces before after hl hs hbuf hb
    have hd' : Delimited (lead ++ (body ++ after)) := by
      rw [← List.append_assoc]
      exact hd.append after
    have hafter : Delimited (ws ++ (text ++ (lead ++ (body ++ after)))) := by
      obtain ⟨w, ws, rfl⟩ := List.exists_cons_of_ne_nil hne
      exact not_inText_of_isWhitespace (hw w (by simp))
    have hbuf' : c.buf = before ++ (name ++ (ws ++ (text ++ (lead ++ (body ++ after))))) := by
      simp [hbuf]
    simp only [List.length_append] at hb
    obtain ⟨n, hn⟩ := hty env (i :: path) hw hd' (by omega)
    cases o with
    | none => exact ⟨_, decodeElements_fail (by omega) hs hl hwf.1 hafter hbuf' hn⟩
    | some x =>
      have hrest : (ws ++ (text ++ (lead ++ (body ++ after)))).drop (ws.length + text.length) =
          lead ++ (body ++ after) := by
        rw [← List.append_assoc, ← List.length_append, List.drop_left]
      rw [decodeElements_present (by omega) hs hl hwf.1 hafter hbuf' hn, hrest]
      obtain ⟨m, hm⟩ := h.decode env path .comma _ (i + 1) ⟨.initial, some .text, _,
        c.consumed + before.length + name.length + (ws.length + text.length)⟩ (acc ++ [some x.2])
        hlead rfl rfl (by omega)
      refine ⟨m, hm.trans ?_⟩
      cases out with
      | none => rfl
      | some us =>
        simp only [Option.elim_some, Option.bind_some, Option.map_some, List.length_append,
          List.append_assoc, List.singleton_append]
        congr 2
        omega

theorem Elements.Yields.sequence {ws : Text} (h : els.Yields body out) (hw : Blank ws) :
    (Ty.sequence els).Yields (charOpenBracket :: (ws ++ body))
      (out.map fun us ↦ (false, .sequence us)) := by
  intro env path before after hbefore hd hb
  have hl : Lead 0 (before ++ charOpenBracket :: ws) := .mark .openBracket hbefore hw
  simp only [List.length_cons, List.length_append] at hb
  obtain ⟨n, hn⟩ := h.decode env path .openBracket _ 0
    (.start env path (before ++ (charOpenBracket :: (ws ++ body) ++ after))) [] hl rfl
    (show _ = (before ++ charOpenBracket :: ws) ++ (body ++ after) by simp [Cursor.start])
    (by omega)
  refine ⟨n, ?_⟩
  rw [decodeTy, hn]
  cases out with
  | none => rfl
  | some us =>
    simp only [Option.elim_some, Option.map_some, Rval.read, Cursor.start, List.length_cons,
      List.length_append, List.nil_append, Bool.false_eq_true, if_false]
    congr 2
    omega

theorem gserDecode_yields {env : Env} {ws : Text} (h : els.Yields body out) (hw : Blank ws)
    (hb : (charOpenBracket :: (ws ++ body) ++ [0]).length + 2 ≤ env.bound) :
    ∃ n, (gserDecode env (.sequence els) (charOpenBracket :: (ws ++ body) ++ [0])).res =
      some (out.elim (.fail n) fun us ↦
        .ok ((charOpenBracket :: (ws ++ body) ++ [0]).length - 1) (.sequence us)) := by
  have hspan : gserWhitespaceSpan (charOpenBracket :: (ws ++ body) ++ [0]) = 0 := rfl
  rw [List.length_append, List.length_singleton] at hb
  obtain ⟨n, hn⟩ := h.sequence hw env [] (show Blank [] by decide)
    (show Delimited [0] from show ¬ InText 0 by decide) (by omega)
  refine ⟨0, ?_⟩
  unfold gserDecode
  simp only [hspan, List.drop_zero]
  rw [List.nil_append] at hn
  rw [bind_res hn]
  cases out with
  | none => rfl
  | some us => simp [Rval.read, Nat.add_assoc]

end Yields

/-- A character string comes back as its hexadecimal dump, every other primitive value as it
was. -/
inductive PrimitiveReadBack (flags : EncoderFlags) (ilevel : ℕ) : Primitive → Value → Value → Prop
  | same {p : Primitive} {v : Value} : PrimitiveValue p v → PrimitiveReadBack flags ilevel p v v
  | dump {s body : List UInt8} : octetStringEncode flags ilevel s = quoted body 0x48 →
    PrimitiveReadBack flags ilevel charString (.octets s) (.octets body)

def MemberReadBack (B : Value → Bool → Value → Prop) (presence : Presence) (v w : Option Value) :
    Prop :=
  (∃ v' isEmpty w', v.or presence.absent = some v' ∧ w = some w' ∧ B v' isEmpty w') ∨
    v = none ∧ presence = .optional ∧ w = none

mutual
/-- `w` is what the decoder returns where the encoder has printed `v` at level `ilevel`, with
`RC_EMPTY` if `isEmpty`. An empty SEQUENCE OF has primitive elements and is no element of a
SEQUENCE OF itself. -/
def Ty.ReadBack (flags : EncoderFlags) : Ty → ℕ → Value → Bool → Value → Prop
  | .prim p, ilevel, v, isEmpty, w => isEmpty = false ∧ PrimitiveReadBack flags ilevel p v w
  | .sequence els, ilevel, .sequence vs, isEmpty, .sequence ws =>
    isEmpty = false ∧ els.ReadBack flags ilevel vs ws
  | .sequenceOf element, ilevel, .list vs, isEmpty, .list ws =>
    isEmpty = false ∧ vs ≠ [] ∧
      List.Forall₂ (fun v w ↦ element.ReadBack flags (ilevel + 1) v false w) vs ws ∨
    isEmpty = true ∧ (∃ p, element = .prim p) ∧ vs = [] ∧ ws = []
  | .choice els, ilevel, .choice present v, isEmpty, .choice present' w =>
    present' = present ∧ els.AlternativeReadBack flags ilevel present v isEmpty w
  | _, _, _, _, _ => False

def Elements.ReadBack (flags : EncoderFlags) :
    Elements → ℕ → List (Option Value) → List (Option Value) → Prop
  | .nil, _, vs, ws => vs = [] ∧ ws = []
  | .cons _ presence ty rest, ilevel, v :: vs, w :: ws =>
    MemberReadBack (fun v isEmpty w ↦ ty.ReadBack flags (ilevel + 1) v isEmpty w) presence v w ∧
      rest.ReadBack flags ilevel vs ws
  | _, _, _, _ => False

def Elements.AlternativeReadBack (flags : EncoderFlags) :
    Elements → ℕ → ℕ → Value → Bool → Value → Prop
  | .cons _ _ ty _, ilevel, 1, v, isEmpty, w => ty.ReadBack flags ilevel v isEmpty w
  | .cons _ _ _ rest, ilevel, k + 2, v, isEmpty, w =>
    rest.AlternativeReadBack flags ilevel (k + 1) v isEmpty w
  | _, _, _, _, _, _ => False
end

theorem PrimitiveReadBack.yields {flags : EncoderFlags} {ilevel : ℕ} {p : Primitive} {v w : Value}
    (h : PrimitiveReadBack flags ilevel p v w) :
    ∃ text, p.encode flags ilevel v = some text ∧ (Ty.prim p).Yields text (some (false, w)) := by
  have hwrites : ∃ text, p.encode flags ilevel v = some text ∧ p.Writes w text := by
    cases h with
    | same h => exact h.encode flags ilevel
    | @dump s body h =>
      obtain ⟨body', hbody, he⟩ := octetStringEncode_eq flags ilevel s
      obtain rfl : body' = body := by simpa [quoted] using he.symm.trans h
      refine ⟨_, ?_, charString_writes hbody⟩
      simp [charString, octetString, stringDecoder, h]
  obtain ⟨text, ht, hw⟩ := hwrites
  refine ⟨text, ht, fun env path ws rest hws hrest hb ↦ ⟨0, ?_⟩⟩
  rw [decodeTy]
  exact decodePrimitive_writes (by omega) hws hw hrest

theorem encodeTy_nil (flags : EncoderFlags) (element : Ty) (ilevel : ℕ) :
    ∃ ws, Blank ws ∧ encodeTy flags (.sequenceOf element) ilevel (.list []) =
      some (charOpenBracket :: (ws ++ [charCloseBracket])) := by
  refine ⟨0x0a :: textIndent true (ilevel - 1), ?_, by simp [encodeTy, encodeItems, braced]⟩
  intro c hc
  rcases List.mem_cons.1 hc with rfl | hc
  · decide
  · exact blank_textIndent _ _ c hc

theorem decodePrimitive_close {env : Env} {p : Primitive} {path : List ℕ} {ws rest : Text}
    (hbound : 2 ≤ env.bound) (hw : Blank ws) :
    (decodePrimitive env p path (ws ++ ([charCloseBracket] ++ rest))).res =
      some (.empty (ws.length + 1) p.zero) := by
  have hgen : (gserDecodeGeneral env p path (ws ++ ([charCloseBracket] ++ rest))).res =
      some (.empty (ws.length + 1) p.zero) := by
    rw [gserDecodeGeneral, bind_res (skipSpaces_lexeme env hbound rfl rfl hw (lexeme_closeBracket _)),
      bind_res (readToken_res _)]
    simp [Token.isBody, Cursor.start]
  rw [decodePrimitive, bind_res hgen]
  cases hx : p.xmlTag <;> simp [Primitive.wrap]

theorem setOfLoop_open {env : Env} {element : List ℕ → Text → Logged Event Rval} {path : List ℕ}
    {n : ℕ} {ws after : Text} {r : Rval} (hbound : 2 ≤ env.bound) (hw : Blank ws)
    (hr : (element (0 :: path) after).res = some r) :
    (setOfLoop env element path (n + 1) (.start env path (ws ++ charOpenBracket :: after)) 0 []).res =
      (addElement ⟨.initial, some .openBracket, after, ws.length + 1⟩ 1 [] true
        (Skipped.again env ⟨⟨.initial, some .openBracket, charOpenBracket :: after, ws.length⟩,
          1, true⟩) (setOfLoop env element path n) r).res := by
  have hbuf : (Cursor.start env path (ws ++ charOpenBracket :: after)).buf =
      ws ++ ([charOpenBracket] ++ after) := rfl
  rw [setOfLoop, bind_res (skipSpaces_lexeme env hbound rfl hbuf hw (lexeme_openBracket _))]
  dsimp only
  rw [if_neg (by simp)]
  refine (bind_res hr _).trans ?_
  simp [Skipped.advanced, Cursor.advance, Cursor.start]

theorem Ty.yields_nil {p : Primitive} {ws : Text} (hw : Blank ws) :
    (Ty.sequenceOf (.prim p)).Yields (charOpenBracket :: (ws ++ [charCloseBracket]))
      (some (true, .list [])) := by
  intro env path before after hbefore hd hb
  simp only [List.length_cons, List.length_append, List.length_nil] at hb
  obtain ⟨n, hn⟩ := Nat.exists_eq_add_of_le' (show 1 ≤ env.bound by omega)
  have hel : (decodeTy env (.prim p) (0 :: path) (ws ++ ([charCloseBracket] ++ after))).res =
      some (.empty (ws.length + 1) p.zero) := by
    rw [decodeTy]
    exact decodePrimitive_close (by omega) hw
  refine ⟨0, ?_⟩
  rw [decodeTy, hn, List.cons_append, List.append_assoc, setOfLoop_open (by omega) hbefore hel]
  simp only [addElement, tell_bind_res, pure_res, Option.elim_some, Rval.read, if_true,
    List.length_cons, List.length_append, List.length_nil]
  congr 2
  omega

theorem Ty.yields_items {element : Ty} {us : List Value} {body : Text}
    (h : Items (fun u text ↦ element.Yields text (some (false, u))) us body) :
    (Ty.sequenceOf element).Yields (charOpenBracket :: body) (some (false, .list us)) := by
  intro env path before after hbefore hd hb
  have hlen := h.length_le
  rw [List.length_cons] at hb
  have hel : ReadsAll (fun u text ↦ element.Yields text (some (false, u))) (env.bound - 3)
      (decodeTy env element) := by
    intro path v ws text rest hws hv hk hr
    obtain ⟨n, hn⟩ := hv env path hws hr (by omega)
    exact hn
  refine ⟨0, ?_⟩
  rw [decodeTy, setOfLoop_items (by omega) hel .openBracket hbefore h (by omega) (by omega) rfl
    (show _ = before ++ charOpenBracket :: (body ++ after) from rfl)]
  simp only [Cursor.start, List.length_cons, List.nil_append, Option.elim_some, Rval.read,
    Bool.false_eq_true, if_false]
  congr 2
  omega

/-- The alternative number `present` is called `name`, and its text is read as `w`. -/
structure Elements.AlternativeYields (els : Elements) (present : ℕ) (name text : Text)
    (isEmpty : Bool) (w : Value) : Prop where
  mem : name ∈ els.names
  decode : ∀ (env : Env) (first : Option Text) (path : List ℕ) (i : ℕ) (c : Cursor)
    {ws rest : Text}, Blank ws → c.buf = ws ++ (text ++ rest) → text.length + 3 ≤ env.bound →
    Delimited rest → (decodeAlternative env els first path i name c).res =
      some (.read isEmpty (c.consumed + ws.length + text.length) (.choice (i + present) w))

theorem Elements.AlternativeYields.choice {els : Elements} {present : ℕ} {name text : Text}
    {isEmpty : Bool} {w : Value} (h : els.AlternativeYields present name text isEmpty w)
    (hwf : els.WellNamed) : (Ty.choice els).Yields (name ++ (0x20 :: charColon :: 0x20 :: text))
      (some (isEmpty, .choice present w)) := by
  intro env path before after hbefore hd hb
  have hspace : Blank [0x20] := by decide
  simp only [List.length_append, List.length_cons] at hb
  refine ⟨0, ?_⟩
  have hbuf : before ++ (name ++ (0x20 :: charColon :: 0x20 :: text) ++ after) =
      before ++ (name ++ ([0x20] ++ charColon :: ([0x20] ++ (text ++ after)))) := by simp
  rw [decodeTy, hbuf,
    bind_res (choiceName_written (by omega) hbefore hspace (hwf.isIdentifier h.mem))]
  dsimp only
  rw [h.decode env els.firstName path 0 _ hspace rfl (by omega) hd]
  simp only [Option.elim_some, List.length_append, List.length_cons, List.length_nil, Nat.zero_add]
  congr 2
  omega

theorem Elements.alternativeYields_cons {rest : Elements} {name text : Text} {presence : Presence}
    {ty : Ty} {isEmpty : Bool} {w : Value} (h : ty.Yields text (some (isEmpty, w))) :
    (Elements.cons name presence ty rest).AlternativeYields 1 name text isEmpty w where
  mem := List.mem_cons_self
  decode := by
    intro env first path i c ws after hws hbuf hb hd
    obtain ⟨n, hn⟩ := h env (0 :: path) hws hd hb
    rw [decodeAlternative, if_pos rfl, hbuf, bind_res hn]
    cases isEmpty <;> simp [Rval.read, Nat.add_assoc]

theorem Elements.AlternativeYields.cons {rest : Elements} {present : ℕ} {other name text : Text}
    {presence : Presence} {ty : Ty} {isEmpty : Bool} {w : Value}
    (h : rest.AlternativeYields present name text isEmpty w)
    (hwf : (Elements.cons other presence ty rest).WellNamed) :
    (Elements.cons other presence ty rest).AlternativeYields (present + 1) name text isEmpty w where
  mem := List.mem_cons_of_mem _ h.mem
  decode := by
    intro env first path i c ws after hws hbuf hb hd
    have hne : name ≠ other := by
      rintro rfl
      exact hwf.2.1 h.mem
    rw [decodeAlternative, if_neg hne, h.decode env first path (i + 1) c hws hbuf hb hd]
    congr 3
    omega

mutual
theorem Ty.ReadBack.yields {flags : EncoderFlags} : ∀ {ty : Ty}, ty.WellFormed → ∀ {ilevel : ℕ}
    {v w : Value} {isEmpty : Bool}, ty.ReadBack flags ilevel v isEmpty w →
    ∃ text, encodeTy flags ty ilevel v = some text ∧ ty.Yields text (some (isEmpty, w))
  | .prim p, _, _, _, _, _, h => by
    obtain ⟨rfl, hp⟩ := h
    rw [encodeTy]
    exact PrimitiveReadBack.yields hp
  | .sequence els, hwf, ilevel, .sequence vs, .sequence ws, _, h => by
    obtain ⟨rfl, hvs⟩ := h
    obtain ⟨body, hprints, hbody⟩ := Elements.ReadBack.yields hwf.2 true hvs
    obtain ⟨ws, hws, ht⟩ := hprints.sequence hwf.1
    exact ⟨_, ht, hbody.sequence hws⟩
  | .sequenceOf element, hwf, ilevel, .list vs, .list us, _, h => by
    have hty : element.WellFormed := hwf
    rcases h with ⟨rfl, hne, hvs⟩ | ⟨rfl, ⟨p, rfl⟩, rfl, rfl⟩
    · have hel : List.Forall₂ (fun v u ↦ ∃ text, encodeTy flags element (ilevel + 1) v = some text ∧
          element.Yields text (some (false, u))) vs us :=
        hvs.imp fun v u h ↦ Ty.ReadBack.yields hty h
      obtain ⟨body, hbody, hitems⟩ := encodeItems_items ilevel hel hne
      refine ⟨braced ilevel body, by simp [encodeTy, hbody], ?_⟩
      exact Ty.yields_items (hitems [0x0a] (by decide))
    · obtain ⟨ws, hws, ht⟩ := encodeTy_nil flags (.prim p) ilevel
      exact ⟨_, ht, Ty.yields_nil hws⟩
  | .choice els, hwf, ilevel, .choice present v, .choice _ w, isEmpty, h => by
    obtain ⟨rfl, hv⟩ := h
    obtain ⟨name, text, ht, hread⟩ := Elements.AlternativeReadBack.yields hwf hv
    exact ⟨_, by rw [encodeTy, ht], hread.choice hwf⟩

theorem Elements.ReadBack.yields {flags : EncoderFlags} : ∀ {els : Elements}, els.WellNamed →
    ∀ {ilevel : ℕ} (first : Bool) {vs ws : List (Option Value)},
    els.ReadBack flags ilevel vs ws →
    ∃ body, els.Prints flags ilevel first vs body ∧ els.Yields body (some ws)
  | .nil, _, _, _, _, _, h => by
    obtain ⟨rfl, rfl⟩ := h
    exact ⟨_, Elements.prints_nil, Elements.yields_nil⟩
  | .cons name presence ty rest, hwf, ilevel, first, v :: vs, w :: ws, h => by
    obtain ⟨⟨v', isEmpty, w', hv', rfl, hmember⟩ | ⟨rfl, rfl, rfl⟩, hrest⟩ := h
    · obtain ⟨text, ht, hread⟩ := Ty.ReadBack.yields hwf.2.2.1 hmember
      obtain ⟨body, hprints, hbody⟩ := Elements.ReadBack.yields hwf.2.2.2 false hrest
      obtain ⟨lead, hlead, hd, hprints⟩ := hprints.present name first hv' ht
      exact ⟨_, hprints, hbody.present hwf hread (by simp) (by decide) hlead hd⟩
    · obtain ⟨body, hprints, hbody⟩ := Elements.ReadBack.yields hwf.2.2.2 first hrest
      exact ⟨body, hprints.absent, hbody.absent hwf rfl⟩

theorem Elements.AlternativeReadBack.yields {flags : EncoderFlags} : ∀ {els : Elements},
    els.WellNamed → ∀ {ilevel present : ℕ} {v w : Value} {isEmpty : Bool},
    els.AlternativeReadBack flags ilevel present v isEmpty w →
    ∃ name text, encodeAlternative flags els ilevel present v =
        some (name ++ (0x20 :: charColon :: 0x20 :: text)) ∧
      els.AlternativeYields present name text isEmpty w
  | .cons name presence ty rest, hwf, ilevel, 1, v, w, isEmpty, h => by
    obtain ⟨text, ht, hread⟩ := Ty.ReadBack.yields hwf.2.2.1 h
    exact ⟨name, text, by simp [encodeAlternative, ht], Elements.alternativeYields_cons hread⟩
  | .cons name presence ty rest, hwf, ilevel, k + 2, v, w, isEmpty, h => by
    obtain ⟨other, text, ht, hread⟩ := Elements.AlternativeReadBack.yields hwf.2.2.2 h
    exact ⟨other, text, by simp [encodeAlternative, ht], hread.cons hwf⟩
end

theorem gserDecode_readBack {flags : EncoderFlags} {els : Elements} {vs ws : List (Option Value)}
    (hty : (Ty.sequence els).WellFormed) (hv : els.ReadBack flags 1 vs ws) :
    ∃ text, gserEncode flags (.sequence els) (.sequence vs) = some text ∧
      ∀ env : Env, text.length + 2 ≤ env.bound → (gserDecode env (.sequence els) text).res =
        some (.ok (text.length - 1) (.sequence ws)) := by
  obtain ⟨body, hprints, hbody⟩ := Elements.ReadBack.yields hty.2 true hv
  obtain ⟨lead, hlead, ht⟩ := hprints.sequence hty.1
  refine ⟨_, by rw [gserEncode, ht, Option.map_some], fun env hb ↦ ?_⟩
  obtain ⟨n, hn⟩ := gserDecode_yields hbody hlead hb
  exact hn

def Elements.member? : Elements → ℕ → Option (Presence × Ty)
  | .nil, _ => none
  | .cons _ presence ty _, 0 => some (presence, ty)
  | .cons _ _ _ rest, i + 1 => rest.member? i

theorem Elements.ReadBack.member {flags : EncoderFlags} {presence : Presence} {ty : Ty} :
    ∀ {els : Elements} {ilevel i : ℕ} {vs ws : List (Option Value)},
    els.ReadBack flags ilevel vs ws → els.member? i = some (presence, ty) →
    ∃ v w, vs[i]? = some v ∧ ws[i]? = some w ∧
      MemberReadBack (ty.ReadBack flags (ilevel + 1)) presence v w
  | .cons _ _ _ _, _, 0, v :: _, w :: _, h, hi => by
    cases hi
    exact ⟨v, w, rfl, rfl, h.1⟩
  | .cons _ _ _ rest, _, i + 1, _ :: _, _ :: _, h, hi => by
    simpa using Elements.ReadBack.member h.2 hi

theorem charString_ne_octetString : charString ≠ octetString := by
  intro h
  have hreceive : BodyResult.converted 5 (.octets (ascii "41")) = .converted 5 (.octets [0x41]) :=
    congrArg (fun p : Primitive ↦ p.receive (ascii "'41'H") 0 false) h
  simp only [BodyResult.converted.injEq, Value.octets.injEq, true_and] at hreceive
  exact absurd hreceive (by decide)

theorem PrimitiveReadBack.charString {flags : EncoderFlags} {ilevel : ℕ} {s : List UInt8}
    {w : Value} (h : PrimitiveReadBack flags ilevel charString (.octets s) w) :
    w = .octets s ↔ s = [] := by
  generalize hp : Gser.charString = p at h
  cases h with
  | same h =>
    generalize hv : Value.octets s = v at h
    cases h with
    | octets bytes => exact absurd hp charString_ne_octetString
    | _ => cases hv
  | dump h => rw [Value.octets.injEq, octetStringEncode_body_eq_iff h]

/-- A character string that is a mandatory member survives the round trip if and only if it is
empty. -/
theorem charString_survives_iff (flags : EncoderFlags) {els : Elements}
    {vs ws : List (Option Value)} {i : ℕ} {s : List UInt8} (hty : (Ty.sequence els).WellFormed)
    (hv : els.ReadBack flags 1 vs ws)
    (hi : els.member? i = some (.mandatory, .prim charString))
    (hs : vs[i]? = some (some (.octets s))) :
    ∃ text, gserEncode flags (.sequence els) (.sequence vs) = some text ∧
      ∀ env : Env, text.length + 2 ≤ env.bound → (gserDecode env (.sequence els) text).res =
          some (.ok (text.length - 1) (.sequence ws)) ∧
        (ws[i]? = some (some (.octets s)) ↔ s = []) := by
  obtain ⟨text, ht, hdec⟩ := gserDecode_readBack hty hv
  refine ⟨text, ht, fun env hb ↦ ⟨hdec env hb, ?_⟩⟩
  obtain ⟨v, w, hvi, hwi, hmember⟩ := hv.member hi
  rw [hs] at hvi
  cases hvi
  rcases hmember with ⟨v', isEmpty, w', hv', rfl, hback⟩ | ⟨hnone, -, -⟩
  · cases hv'
    rw [hwi, Option.some_inj, Option.some_inj]
    exact PrimitiveReadBack.charString hback.2
  · cases hnone

def named : Elements :=
  .cons (ascii "name") .mandatory (.prim charString) .nil

theorem named_wellFormed : (Ty.sequence named).WellFormed := by
  refine ⟨rfl, by decide, ?_, trivial, trivial⟩
  simp [Elements.names]

theorem charString_survives_iff_empty :
    ∃ text, gserEncode .basic (.sequence named) (.sequence [some (.octets [])]) = some text ∧
      ∀ env : Env, text.length + 2 ≤ env.bound → (gserDecode env (.sequence named) text).res =
          some (.ok (text.length - 1) (.sequence [some (.octets [])])) ∧
        ((([some (.octets [])] : List (Option Value))[0]? = some (some (.octets []))) ↔
          ([] : List UInt8) = []) := by
  refine charString_survives_iff .basic named_wellFormed ?_ rfl rfl
  exact ⟨.inl ⟨_, false, _, rfl, rfl, rfl, .dump (by decide)⟩, rfl, rfl⟩

/-- "AB" comes back as "41 42". -/
theorem charString_comes_back_as_dump : ascii "41 42" ≠ ascii "AB" ∧
    ∃ text, gserEncode .basic (.sequence named) (.sequence [some (.octets (ascii "AB"))]) =
        some text ∧
      ∀ env : Env, text.length + 2 ≤ env.bound → (gserDecode env (.sequence named) text).res =
        some (.ok (text.length - 1) (.sequence [some (.octets (ascii "41 42"))])) := by
  refine ⟨by decide, gserDecode_readBack named_wellFormed ?_⟩
  exact ⟨.inl ⟨_, false, _, rfl, rfl, rfl, .dump (by decide)⟩, rfl, rfl⟩

end EnbL1Ppc.Gser
