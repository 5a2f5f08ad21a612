import EnbL1Ppc.Gser.CharString
import EnbL1Ppc.Gser.Completeness
import EnbL1Ppc.Gser.Pieces
import EnbL1Ppc.Gser.Typing

namespace EnbL1Ppc.Gser

/-!
Types as an ASN.1 module gives them, the structures that are decoded for them, and texts for the
values of such a type.
-/

def members : List (String × Presence × Ty) → Elements
  | [] => .nil
  | (name, presence, ty) :: rest => .cons (ascii name) presence ty (members rest)

def boolean : Ty := .prim booleanType

def integer : Ty := .prim (nativeInteger 32 (ascii "INTEGER"))

def member : Option Value → ℕ → Option Value
  | some (.sequence vs), i => vs.getD i none
  | _, _ => none

def items : Option Value → List Value
  | some (.list vs) => vs
  | _ => []

def long : Option Value → BitVec 32
  | some (.integer n) => .ofInt 32 n
  | _ => 0

def optionalLong (v : Option Value) : Option (BitVec 32) := v.map fun n ↦ long (some n)

theorem Elements.Hold.mandatory {fields : List (String × Presence × Ty)} {vs : List (Option Value)}
    {i : ℕ} {name : String} {ty : Ty} (h : (members fields).Hold vs)
    (hi : fields[i]? = some (name, .mandatory, ty)) : ∃ w, vs.getD i none = some w ∧ ty.Holds w := by
  induction fields generalizing vs i with
  | nil => cases hi
  | cons field fields ih =>
    obtain ⟨name', presence', ty'⟩ := field
    cases vs with
    | nil => exact h.elim
    | cons v vs =>
      obtain ⟨hv, hvs⟩ := h
      cases i with
      | zero =>
        cases hi
        rcases hv with ⟨w, rfl, hw⟩ | ⟨hopt, -⟩
        · exact ⟨w, rfl, hw⟩
        · cases hopt
      | succ i =>
        have hrest := ih hvs hi
        exact hrest

theorem Ty.Holds.member {fields : List (String × Presence × Ty)} {v : Value} {i : ℕ}
    {name : String} {ty : Ty} (h : (Ty.sequence (members fields)).Holds v)
    (hi : fields[i]? = some (name, .mandatory, ty)) :
    ∃ w, member (some v) i = some w ∧ ty.Holds w := by
  cases v with
  | sequence vs => exact Elements.Hold.mandatory h hi
  | boolean | null | integer | octets | bits | choice | list => exact h.elim

theorem Ty.Holds.items_ne_nil {element : Ty} {v : Value} (h : (Ty.sequenceOf element).Holds v)
    (hne : element.canBeEmpty = false) : items (some v) ≠ [] := by
  cases v with
  | list vs => exact h.1 hne
  | boolean | null | integer | octets | bits | choice | sequence => exact h.elim

section Texts

theorem charString_writes_quoted {body : Text} (hquote : ∀ c ∈ body, c ≠ cQuote)
    (hamp : ∀ c ∈ body, c ≠ 0x26) :
    charString.Writes (.octets body) (cQuote :: (body ++ [cQuote])) where
  lexeme := by
    refine ⟨.printableString, rfl, fun rest hrest ↦ ?_⟩
    cases rest with
    | nil => exact hrest.elim
    | cons d rest =>
      have hd : ¬ Piece.IsLetter d := by
        rintro (rfl | rfl) <;> exact hrest (.inl (by decide))
      refine ⟨fun after ↦ ?_, by decide, cQuote, _, rfl, by decide, fun _ h ↦ absurd h.1 (by decide)⟩
      have h := gserParse_unlettered (.inr rfl : IsQuote cQuote) hquote hd after rest
      simpa using h
  received := by
    refine ⟨.octets body, rfl, fun next more _ ↦ ?_⟩
    have hloop := entrefLoop_body cQuote more [] hamp hquote (by decide) 1 []
    simp [charString, convertEntrefs, hloop]

def Ty.Writable (ty : Ty) (v : Value) : Prop :=
  ∃ text, Written ty v text

def Elements.Writable (els : Elements) (vs : List (Option Value)) : Prop :=
  ∃ body, WrittenMembers els vs body

theorem Elements.writable_nil : Elements.nil.Writable [] :=
  ⟨_, rfl, rfl⟩

theorem Elements.Writable.cons {els : Elements} {vs : List (Option Value)} (h : els.Writable vs)
    (name : Text) (presence : Presence) {ty : Ty} {v : Value} (hv : ty.Writable v) :
    (Elements.cons name presence ty els).Writable (some v :: vs) := by
  obtain ⟨body, hbody⟩ := h
  obtain ⟨text, htext⟩ := hv
  have hcomma : Delimited (charComma :: ([0x20] ++ body)) := show ¬ InText charComma by decide
  exact ⟨_, .inr ⟨v, vs, [0x20], text, [] ++ charComma :: [0x20], body, rfl, by decide, by decide,
    htext, .mark .comma (by decide) (by decide), hcomma, hbody, rfl⟩⟩

theorem Elements.Writable.absent {els : Elements} {vs : List (Option Value)} (h : els.Writable vs)
    (name : Text) {presence : Presence} (ty : Ty) (hp : presence.isOptional = true) :
    (Elements.cons name presence ty els).Writable (presence.absent :: vs) := by
  obtain ⟨body, hbody⟩ := h
  exact ⟨body, .inl ⟨hp, vs, rfl, hbody⟩⟩

theorem Elements.Writable.sequence {els : Elements} {vs : List (Option Value)}
    (h : els.Writable vs) : (Ty.sequence els).Writable (.sequence vs) := by
  obtain ⟨body, hbody⟩ := h
  exact ⟨_, vs, [], body, rfl, by decide, hbody, rfl⟩

theorem Ty.Writable.replicate {element : Ty} {v : Value} (h : element.Writable v) (n : ℕ) :
    (Ty.sequenceOf element).Writable (.list (List.replicate (n + 1) v)) := by
  obtain ⟨text, htext⟩ := h
  have hitems : ∃ body, Items (Written element) (List.replicate (n + 1) v) body := by
    induction n with
    | zero => exact ⟨_, .last (by decide : Blank []) htext (by decide : Blank [])⟩
    | succ n ih =>
      obtain ⟨body, hbody⟩ := ih
      exact ⟨_, .cons (by decide : Blank []) htext (by decide : Blank []) hbody⟩
  obtain ⟨body, hbody⟩ := hitems
  exact ⟨_, _, body, rfl, hbody, rfl⟩

theorem Ty.Writable.exists_file {els : Elements} {v : Value} (h : (Ty.sequence els).Writable v)
    (hty : (Ty.sequence els).WellFormed) :
    ∃ env text n, text ≠ [] ∧ (gserDecode env (.sequence els) text).res = some (.ok n v) := by
  obtain ⟨text, htext⟩ := h
  exact ⟨⟨text.length + 3, 0, fun _ ↦ none⟩, text ++ [0], text.length, by simp,
    gserDecode_written hty htext (Nat.le_refl _)⟩

end Texts

end EnbL1Ppc.Gser
