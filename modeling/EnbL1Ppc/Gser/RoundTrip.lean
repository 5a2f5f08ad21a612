import EnbL1Ppc.Gser.Completeness
import EnbL1Ppc.Gser.Encoder
import EnbL1Ppc.Gser.NumberText
import EnbL1Ppc.Gser.StringText

namespace EnbL1Ppc.Gser

open Lib

/-- The values of the primitive types. A native integer fits into a `long`, which has at most
64 bits. -/
inductive PrimitiveValue : Primitive → Value → Prop
  | boolean (b : Bool) : PrimitiveValue booleanType (.boolean b)
  | null : PrimitiveValue nullType .null
  | integer {bits : ℕ} {xmlTag : Text} {v : ℤ} : bits ≤ 64 → inLong bits v = true →
    PrimitiveValue (nativeInteger bits xmlTag) (.integer v)
  | enumerated {bits : ℕ} {xmlTag : Text} {m : EnumMap} {e : ℤ × Text} : bits ≤ 64 →
    e ∈ m.value2enum → inLong bits e.1 = true →
    PrimitiveValue (nativeEnumerated bits xmlTag m) (.integer e.1)
  | octets (bytes : List UInt8) : PrimitiveValue octetString (.octets bytes)
  | bits {bytes : List UInt8} {unused : ℕ} : CleanBits bytes unused →
    PrimitiveValue bitString (.bits bytes unused)

mutual
def Ty.HasValue : Ty → Value → Prop
  | .prim p, v => PrimitiveValue p v
  | .sequence elements, .sequence vs => elements.HaveValues vs
  | .sequenceOf element, .list vs => vs ≠ [] ∧ ∀ v ∈ vs, element.HasValue v
  | .choice elements, .choice present v => elements.HaveAlternative present v
  | _, _ => False

def Elements.HaveValues : Elements → List (Option Value) → Prop
  | .nil, vs => vs = []
  | .cons _ _ ty rest, some v :: vs => ty.HasValue v ∧ rest.HaveValues vs
  | .cons _ .optional _ rest, none :: vs => rest.HaveValues vs
  | .cons _ (.default d) ty rest, none :: vs => ty.HasValue d ∧ rest.HaveValues vs
  | _, _ => False

def Elements.HaveAlternative : Elements → ℕ → Value → Prop
  | .cons _ _ ty _, 1, v => ty.HasValue v
  | .cons _ _ _ rest, k + 2, v => rest.HaveAlternative (k + 1) v
  | _, _, _ => False
end

mutual
def Ty.withDefaults : Ty → Value → Value
  | .sequence elements, .sequence vs => .sequence (elements.withDefaults vs)
  | .sequenceOf element, .list vs => .list (vs.map element.withDefaults)
  | .choice elements, .choice present v => .choice present (elements.alternativeWithDefaults present v)
  | _, v => v

def Elements.withDefaults : Elements → List (Option Value) → List (Option Value)
  | .cons _ presence ty rest, v :: vs =>
    (v.or presence.absent).map ty.withDefaults :: rest.withDefaults vs
  | _, vs => vs

def Elements.alternativeWithDefaults : Elements → ℕ → Value → Value
  | .cons _ _ ty _, 1, v => ty.withDefaults v
  | .cons _ _ _ rest, k + 2, v => rest.alternativeWithDefaults (k + 1) v
  | _, _, v => v
end

theorem PrimitiveValue.encode {p : Primitive} {v : Value} (h : PrimitiveValue p v)
    (flags : EncoderFlags) (ilevel : ℕ) :
    ∃ text, p.encode flags ilevel v = some text ∧ p.Writes v text := by
  cases h with
  | boolean b => exact ⟨_, rfl, booleanType_writes b⟩
  | null => exact ⟨_, rfl, nullType_writes⟩
  | integer hb h => exact ⟨_, rfl, nativeInteger_writes hb h⟩
  | @enumerated bits xmlTag m e hb he h =>
    refine ⟨e.2, ?_, nativeEnumerated_writes hb he h⟩
    simp [nativeEnumerated, nativeDecoder, m.mapValue2enum_eq he]
  | octets bytes =>
    obtain ⟨body, hbody, he⟩ := octetStringEncode_eq flags ilevel bytes
    refine ⟨_, ?_, octetString_writes hbody⟩
    simp [octetString, stringDecoder, he]
  | @bits bytes unused h =>
    refine ⟨_, ?_, bitString_writes h⟩
    simp [bitString, stringDecoder, bitStringEncode_eq]

def closing (ilevel : ℕ) : Text :=
  textIndent true (ilevel - 1) ++ [charCloseBracket]

theorem encodeItems_items {W : Value → Text → Prop} {encode : Value → Option Text} (ilevel : ℕ)
    {vs us : List Value} (h : List.Forall₂ (fun v u ↦ ∃ text, encode v = some text ∧ W u text) vs us)
    (hne : vs ≠ []) :
    ∃ body, encodeItems encode ilevel vs = some body ∧ ∀ ws, Blank ws →
      Items W us (ws ++ (body ++ closing ilevel)) := by
  have happ : ∀ {ws}, Blank ws → Blank (ws ++ textIndent false ilevel) := fun hw c hc ↦
    (List.mem_append.1 hc).elim (hw c) (blank_textIndent false ilevel c)
  induction h with
  | nil => exact absurd rfl hne
  | @cons v u vs us hv hvs ih =>
    obtain ⟨text, ht, hW⟩ := hv
    cases hvs with
    | nil =>
      refine ⟨textIndent false ilevel ++ text, by simp [encodeItems, ht], fun ws hw ↦ ?_⟩
      have hitem := Items.last (happ hw) hW (blank_textIndent true (ilevel - 1))
      simpa [closing, List.append_assoc] using hitem
    | cons hv' hvs =>
      obtain ⟨body, hb, hitems⟩ := ih (by simp)
      refine ⟨textIndent false ilevel ++ (text ++ ([charComma, 0x0a] ++ body)), ?_, fun ws hw ↦ ?_⟩
      · rw [encodeItems]
        simp [ht, hb]
      · have hitem := Items.cons (happ hw) hW (show Blank [] by simp [Blank])
          (hitems [0x0a] (by decide))
        simpa [List.append_assoc] using hitem

theorem encodeItems_written {W : Value → Text → Prop} {f : Value → Value}
    {encode : Value → Option Text} (ilevel : ℕ) {vs : List Value}
    (h : ∀ v ∈ vs, ∃ text, encode v = some text ∧ W (f v) text) (hne : vs ≠ []) :
    ∃ body, encodeItems encode ilevel vs = some body ∧ ∀ ws, Blank ws →
      Items W (vs.map f) (ws ++ (body ++ closing ilevel)) := by
  refine encodeItems_items ilevel ?_ hne
  rw [List.forall₂_map_right_iff, List.forall₂_same]
  exact h

structure LeadIn (first : Bool) (lead body : Text) : Prop where
  first_blank : first = true → Blank lead
  is_lead : Lead 1 lead
  delimited : first = false → Delimited (lead ++ body)

theorem leadIn_closing (first : Bool) (ilevel : ℕ) :
    LeadIn first (textIndent true (ilevel - 1)) [charCloseBracket] where
  first_blank _ := blank_textIndent _ _
  is_lead := .blank (blank_textIndent _ _)
  delimited _ := (blank_textIndent _ _).delimited (delimited_closeBracket [])

theorem leadIn_member (first : Bool) (ilevel : ℕ) (body : Text) :
    LeadIn first ((if first then [] else [charComma, 0x0a]) ++ textIndent false ilevel) body := by
  have hindent := blank_textIndent false ilevel
  cases first with
  | true => exact ⟨fun _ ↦ hindent, .blank hindent, fun h ↦ absurd h (by decide)⟩
  | false =>
    have hline : Blank (0x0a :: textIndent false ilevel) := by
      intro c hc
      rcases List.mem_cons.1 hc with rfl | hc
      · decide
      · exact hindent c hc
    have hlead : Lead 1 ([] ++ charComma :: 0x0a :: textIndent false ilevel) :=
      .mark .comma (by decide) hline
    exact ⟨fun h ↦ absurd h (by decide), hlead, fun _ ↦ delimited_comma _⟩

def Elements.Prints (els : Elements) (flags : EncoderFlags) (ilevel : ℕ) (first : Bool)
    (vs : List (Option Value)) (body : Text) : Prop :=
  ∃ tail lead, encodeMembers flags els ilevel first vs = some tail ∧
    tail ++ closing ilevel = lead ++ body ∧ LeadIn first lead body

section Prints

variable {flags : EncoderFlags} {name body text : Text} {presence : Presence} {ty : Ty}
  {rest : Elements} {ilevel : ℕ} {first : Bool} {v : Option Value} {vs : List (Option Value)}

theorem Elements.prints_nil : Elements.nil.Prints flags ilevel first vs [charCloseBracket] := by
  refine ⟨[], textIndent true (ilevel - 1), ?_, rfl, leadIn_closing first ilevel⟩
  rw [encodeMembers]

theorem Elements.Prints.present (name : Text) (first : Bool) {w : Value}
    (h : rest.Prints flags ilevel false vs body) (hw : v.or presence.absent = some w)
    (ht : encodeTy flags ty (ilevel + 1) w = some text) :
    ∃ lead, Lead 1 lead ∧ Delimited (lead ++ body) ∧
      (Elements.cons name presence ty rest).Prints flags ilevel first (v :: vs)
        (name ++ ([0x20] ++ (text ++ (lead ++ body)))) := by
  obtain ⟨tail, lead, htail, heq, hlead⟩ := h
  refine ⟨lead, hlead.is_lead, hlead.delimited rfl, (if first then [] else [charComma, 0x0a]) ++
    (textIndent false ilevel ++ (name ++ 0x20 :: (text ++ tail))), _, ?_, ?_,
    leadIn_member first ilevel _⟩
  · simp only [encodeMembers, hw, ht, htail, Option.bind_eq_bind, Option.bind_some]
  · simp [← heq]

theorem Elements.Prints.absent (h : rest.Prints flags ilevel first vs body) :
    (Elements.cons name .optional ty rest).Prints flags ilevel first (none :: vs) body := by
  obtain ⟨tail, lead, htail, heq, hlead⟩ := h
  refine ⟨tail, lead, ?_, heq, hlead⟩
  simp [encodeMembers, Presence.absent, Presence.isOptional, htail]

theorem Elements.Prints.sequence {els : Elements} (h : els.Prints flags ilevel true vs body)
    (hne : els.isNil = false) : ∃ ws, Blank ws ∧
      encodeTy flags (.sequence els) ilevel (.sequence vs) =
        some (charOpenBracket :: (ws ++ body)) := by
  obtain ⟨tail, lead, htail, heq, hlead⟩ := h
  refine ⟨0x0a :: lead, ?_, ?_⟩
  · intro c hc
    rcases List.mem_cons.1 hc with rfl | hc
    · decide
    · exact hlead.first_blank rfl c hc
  · have htext : braced ilevel tail = charOpenBracket :: (0x0a :: lead ++ body) := by
      rw [List.cons_append, ← heq]
      rfl
    simp [encodeTy, htail, hne, htext]

end Prints

mutual
theorem encodeTy_written (flags : EncoderFlags) : ∀ {ty : Ty}, ty.WellFormed → ∀ {v : Value}
    (ilevel : ℕ), ty.HasValue v →
    ∃ text, encodeTy flags ty ilevel v = some text ∧ Written ty (ty.withDefaults v) text
  | .prim p, _, v, ilevel, h => by
    have hp : PrimitiveValue p v := h
    simpa [encodeTy, Written, Ty.withDefaults] using hp.encode flags ilevel
  | .sequence els, hwf, .sequence vs, ilevel, h => by
    obtain ⟨body, hprints, hbody⟩ := encodeMembers_written flags hwf.2 ilevel true h
    obtain ⟨ws, hws, ht⟩ := hprints.sequence hwf.1
    exact ⟨_, ht, _, ws, body, rfl, hws, hbody, rfl⟩
  | .sequenceOf ty, hwf, .list vs, ilevel, ⟨hne, hvs⟩ => by
    have hty : ty.WellFormed := hwf
    have hel : ∀ v ∈ vs, ∃ text, encodeTy flags ty (ilevel + 1) v = some text ∧
        Written ty (ty.withDefaults v) text :=
      fun v hv ↦ encodeTy_written flags hty (ilevel + 1) (hvs v hv)
    obtain ⟨body, hbody, hitems⟩ := encodeItems_written ilevel hel hne
    refine ⟨braced ilevel body, by simp [encodeTy, hbody], _, _, rfl, hitems [0x0a] (by decide), ?_⟩
    rfl
  | .choice els, hwf, .choice present v, ilevel, h => by
    obtain ⟨name, text, ht, hW⟩ := encodeAlternative_written flags hwf ilevel h
    refine ⟨_, by rw [encodeTy, ht], ?_⟩
    exact ⟨present, _, name, [0x20], [0x20], text, rfl, by decide, by decide, hW, rfl⟩

theorem encodeMembers_written (flags : EncoderFlags) : ∀ {els : Elements}, els.WellNamed →
    ∀ {vs : List (Option Value)} (ilevel : ℕ) (first : Bool), els.HaveValues vs →
    ∃ body, els.Prints flags ilevel first vs body ∧ WrittenMembers els (els.withDefaults vs) body
  | .nil, _, vs, ilevel, first, h => by
    obtain rfl : vs = [] := h
    exact ⟨_, Elements.prints_nil, rfl, rfl⟩
  | .cons name presence ty rest, hwf, [], ilevel, first, h => by
    cases presence <;> exact h.elim
  | .cons name presence ty rest, hwf, v :: vs, ilevel, first, h => by
    have hstep : (∃ w, v.or presence.absent = some w ∧ ty.HasValue w ∧ rest.HaveValues vs) ∨
        v = none ∧ presence = .optional ∧ rest.HaveValues vs := by
      cases v with
      | some w => exact .inl ⟨w, rfl, h.1, h.2⟩
      | none =>
        cases presence with
        | mandatory => exact h.elim
        | optional => exact .inr ⟨rfl, rfl, h⟩
        | default d => exact .inl ⟨d, rfl, h.1, h.2⟩
    rcases hstep with ⟨w, hw, hval, hvs⟩ | ⟨rfl, rfl, hvs⟩
    · obtain ⟨text, ht, hW⟩ := encodeTy_written flags hwf.2.2.1 (ilevel + 1) hval
      obtain ⟨body, hprints, hbody⟩ := encodeMembers_written flags hwf.2.2.2 ilevel false hvs
      obtain ⟨lead, hlead, hd, hprints⟩ := hprints.present name first hw ht
      refine ⟨_, hprints, .inr ⟨ty.withDefaults w, rest.withDefaults vs, [0x20], text, lead, body,
        ?_, by simp, by decide, hW, hlead, hd, hbody, rfl⟩⟩
      simp [Elements.withDefaults, hw]
    · obtain ⟨body, hprints, hbody⟩ := encodeMembers_written flags hwf.2.2.2 ilevel first hvs
      refine ⟨body, hprints.absent, .inl ⟨rfl, rest.withDefaults vs, ?_, hbody⟩⟩
      simp [Elements.withDefaults, Presence.absent]

theorem encodeAlternative_written (flags : EncoderFlags) : ∀ {els : Elements}, els.WellNamed →
    ∀ {present : ℕ} {v : Value} (ilevel : ℕ), els.HaveAlternative present v →
    ∃ name text, encodeAlternative flags els ilevel present v =
        some (name ++ (0x20 :: charColon :: 0x20 :: text)) ∧
      WrittenAlternative els present name (els.alternativeWithDefaults present v) text
  | .cons name presence ty rest, hwf, 1, v, ilevel, h => by
    obtain ⟨text, ht, hW⟩ := encodeTy_written flags hwf.2.2.1 ilevel h
    exact ⟨name, text, by simp [encodeAlternative, ht], .inl ⟨rfl, rfl, hW⟩⟩
  | .cons name presence ty rest, hwf, k + 2, v, ilevel, h => by
    obtain ⟨name', text, ht, hW⟩ := encodeAlternative_written flags hwf.2.2.2 ilevel h
    exact ⟨name', text, by simp [encodeAlternative, ht], .inr ⟨k + 1, rfl, hW⟩⟩
end

/-- Decoding what was encoded gives the value back, with its DEFAULT members filled in, and
consumes everything but the null byte at the end. -/
theorem gserDecode_gserEncode (flags : EncoderFlags) {els : Elements} {v : Value}
    (hty : (Ty.sequence els).WellFormed) (hv : (Ty.sequence els).HasValue v) :
    ∃ text, gserEncode flags (.sequence els) v = some text ∧
      ∀ env : Env, text.length + 2 ≤ env.bound →
        (gserDecode env (.sequence els) text).res =
          some (.ok (text.length - 1) ((Ty.sequence els).withDefaults v)) := by
  obtain ⟨text, ht, hW⟩ := encodeTy_written flags hty 1 hv
  refine ⟨text ++ [0], by simp [gserEncode, ht], fun env hb ↦ ?_⟩
  rw [List.length_append, List.length_singleton] at hb ⊢
  exact gserDecode_written hty hW (by omega)

def levelAndCodes : Elements :=
  .cons (ascii "level") (.default (.integer 5)) (.prim (nativeInteger 32 (ascii "INTEGER")))
    (.cons (ascii "codes") .mandatory (.sequenceOf (.prim octetString)) .nil)

theorem gserDecode_gserEncode_levelAndCodes :
    ∃ text, gserEncode .basic (.sequence levelAndCodes)
        (.sequence [none, some (.list [.octets [0xab], .octets []])]) = some text ∧
      ∀ env : Env, text.length + 2 ≤ env.bound →
        (gserDecode env (.sequence levelAndCodes) text).res = some (.ok (text.length - 1)
          (.sequence [some (.integer 5), some (.list [.octets [0xab], .octets []])])) := by
  have hty : (Ty.sequence levelAndCodes).WellFormed := by
    refine ⟨rfl, by decide, by decide, trivial, by decide, ?_, trivial, trivial⟩
    simp [Elements.names]
  have hv : (Ty.sequence levelAndCodes).HasValue
      (.sequence [none, some (.list [.octets [0xab], .octets []])]) := by
    refine ⟨.integer (by decide) (by decide), ⟨by simp, ?_⟩, rfl⟩
    intro v hv
    rw [List.mem_cons, List.mem_singleton] at hv
    rcases hv with rfl | rfl <;> exact .octets _
  exact gserDecode_gserEncode .basic hty hv

end EnbL1Ppc.Gser
