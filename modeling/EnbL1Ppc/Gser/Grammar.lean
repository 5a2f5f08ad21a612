import EnbL1Ppc.Gser.Integer
import EnbL1Ppc.Gser.Lexemes

namespace EnbL1Ppc.Gser

open Lib

/-!
The notation of values: a relation between values and texts that leaves the layout open, and
the decoder's completeness for it.
-/

def Elements.names : Elements → List Text
  | .nil => []
  | .cons name _ _ rest => name :: rest.names

mutual
/-- Members and alternatives are named by distinct identifiers, and a SEQUENCE has members. -/
def Ty.WellFormed : Ty → Prop
  | .prim _ => True
  | .sequence elements => elements.isNil = false ∧ elements.WellNamed
  | .sequenceOf element => element.WellFormed
  | .choice elements => elements.WellNamed
def Elements.WellNamed : Elements → Prop
  | .nil => True
  | .cons name _ ty rest =>
    IsIdentifier name ∧ name ∉ rest.names ∧ ty.WellFormed ∧ rest.WellNamed
end

mutual
def Ty.decidableWellFormed : (ty : Ty) → Decidable ty.WellFormed
  | .prim _ => isTrue trivial
  | .sequence elements =>
    have := elements.decidableWellNamed
    inferInstanceAs (Decidable (elements.isNil = false ∧ elements.WellNamed))
  | .sequenceOf element => element.decidableWellFormed
  | .choice elements => elements.decidableWellNamed

def Elements.decidableWellNamed : (els : Elements) → Decidable els.WellNamed
  | .nil => isTrue trivial
  | .cons name _ ty rest =>
    have := ty.decidableWellFormed
    have := rest.decidableWellNamed
    inferInstanceAs
      (Decidable (IsIdentifier name ∧ name ∉ rest.names ∧ ty.WellFormed ∧ rest.WellNamed))
end

instance : DecidablePred Ty.WellFormed := Ty.decidableWellFormed

structure Primitive.Writes (p : Primitive) (v : Value) (text : Text) : Prop where
  lexeme : ∃ t : Token, t.isBody = true ∧ ∀ rest, Delimited rest → Lexeme t text rest
  received : ∃ w, p.convert w = some v ∧
    ∀ next more, ¬ InText next → p.receive text next more = .converted text.length w

inductive Mark : ℤ → UInt8 → Token → Prop
  | openBracket : Mark 0 charOpenBracket .openBracket
  | comma : Mark 1 charComma .comma

inductive Lead : ℤ → Text → Prop
  | blank {ws : Text} : Blank ws → Lead 1 ws
  | mark {braces : ℤ} {m : UInt8} {t : Token} {ws ws' : Text} : Mark braces m t → Blank ws →
    Blank ws' → Lead braces (ws ++ m :: ws')

inductive Items (W : Value → Text → Prop) : List Value → Text → Prop
  | last {ws ws' text : Text} {v : Value} : Blank ws → W v text → Blank ws' →
    Items W [v] (ws ++ (text ++ (ws' ++ [charCloseBracket])))
  | cons {ws ws' text body : Text} {v : Value} {vs : List Value} : Blank ws → W v text →
    Blank ws' → Items W vs body → Items W (v :: vs) (ws ++ (text ++ (ws' ++ charComma :: body)))

mutual
def Written : Ty → Value → Text → Prop
  | .prim p, v, text => p.Writes v text
  | .sequence elements, v, text => ∃ vs ws body, v = .sequence vs ∧ Blank ws ∧
    WrittenMembers elements vs body ∧ text = charOpenBracket :: (ws ++ body)
  | .sequenceOf element, v, text => ∃ vs body, v = .list vs ∧
    Items (Written element) vs body ∧ text = charOpenBracket :: body
  | .choice elements, v, text => ∃ present w name ws ws' body, v = .choice present w ∧
    Blank ws ∧ Blank ws' ∧ WrittenAlternative elements present name w body ∧
    text = name ++ (ws ++ charColon :: (ws' ++ body))

def WrittenMembers : Elements → List (Option Value) → Text → Prop
  | .nil, vs, body => vs = [] ∧ body = [charCloseBracket]
  | .cons name presence ty rest, vs, body =>
    (presence.isOptional = true ∧ ∃ vs', vs = presence.absent :: vs' ∧
      WrittenMembers rest vs' body) ∨
    ∃ v vs' ws text lead body', vs = some v :: vs' ∧ ws ≠ [] ∧ Blank ws ∧ Written ty v text ∧
      Lead 1 lead ∧ Delimited (lead ++ body') ∧ WrittenMembers rest vs' body' ∧
      body = name ++ (ws ++ (text ++ (lead ++ body')))

def WrittenAlternative : Elements → ℕ → Text → Value → Text → Prop
  | .nil, _, _, _, _ => False
  | .cons name _ ty rest, present, choice, v, text =>
    present = 1 ∧ choice = name ∧ Written ty v text ∨
    ∃ k, present = k + 1 ∧ WrittenAlternative rest k choice v text
end

theorem IsIdentifier.lexeme {name rest : Text} (h : IsIdentifier name) (hr : Delimited rest) :
    Lexeme .text name rest := by
  cases name with
  | nil => exact h.elim
  | cons c l =>
    refine lexeme_text (.inl h.1) h.2 ?_ hr
    rintro after ⟨rfl, -⟩
    exact absurd h.1 (by decide)

theorem Mark.lexeme {braces : ℤ} {m : UInt8} {t : Token} (h : Mark braces m t) (rest : Text) :
    Lexeme t [m] rest := by
  cases h with
  | openBracket => exact lexeme_openBracket rest
  | comma => exact lexeme_comma rest

theorem not_inText_of_isWhitespace {c : UInt8} (h : isWhitespace c = true) : ¬ InText c := by
  intro hc
  rw [hc.not_isWhitespace] at h
  cases h

theorem Blank.delimited {ws rest : Text} (h : Blank ws) (hr : Delimited rest) :
    Delimited (ws ++ rest) := by
  cases ws with
  | nil => exact hr
  | cons w ws => exact not_inText_of_isWhitespace (h w (by simp))

theorem Delimited.append {text : Text} (h : Delimited text) (rest : Text) :
    Delimited (text ++ rest) := by
  cases text with
  | nil => exact h.elim
  | cons d text => exact h

theorem delimited_comma (rest : Text) : Delimited (charComma :: rest) :=
  show ¬ InText charComma by decide

theorem delimited_closeBracket (rest : Text) : Delimited (charCloseBracket :: rest) :=
  show ¬ InText charCloseBracket by decide

theorem delimited_colon (rest : Text) : Delimited (charColon :: rest) :=
  show ¬ InText charColon by decide

theorem WrittenMembers.start : ∀ {els : Elements} {vs : List (Option Value)} {body : Text},
    WrittenMembers els vs body → body = [charCloseBracket] ∨
      ∃ name tail, name ∈ els.names ∧ body = name ++ tail ∧ Delimited tail
  | .nil, _, _, h => .inl h.2
  | .cons name presence ty rest, vs, body, h => by
    rcases h with ⟨-, vs', -, h⟩ | ⟨v, vs', ws, text, lead, body', -, hne, hw, -, -, -, -, rfl⟩
    · rcases h.start with h | ⟨n, tail, hn, h⟩
      · exact .inl h
      · exact .inr ⟨n, tail, List.mem_cons_of_mem _ hn, h⟩
    · obtain ⟨w, ws, rfl⟩ := List.exists_cons_of_ne_nil hne
      exact .inr ⟨name, _, List.mem_cons_self, rfl, not_inText_of_isWhitespace (hw w (by simp))⟩

theorem WrittenAlternative.name_mem : ∀ {els : Elements} {present : ℕ} {choice : Text}
    {v : Value} {text : Text}, WrittenAlternative els present choice v text → choice ∈ els.names
  | .cons name presence ty rest, _, _, _, _, h => by
    rcases h with ⟨-, rfl, -⟩ | ⟨k, -, h⟩
    · exact List.mem_cons_self
    · exact List.mem_cons_of_mem _ h.name_mem

theorem Elements.WellNamed.isIdentifier : ∀ {els : Elements}, els.WellNamed →
    ∀ {name : Text}, name ∈ els.names → IsIdentifier name
  | .cons name presence ty rest, h, n, hn => by
    rcases List.mem_cons.1 hn with rfl | hn
    · exact h.1
    · exact h.2.2.2.isIdentifier hn

end EnbL1Ppc.Gser
