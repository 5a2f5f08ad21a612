import Mathlib.Data.List.Defs
import EnbL1Ppc.Gser.Consumption
import EnbL1Ppc.Gser.Primitives
import EnbL1Ppc.Gser.Tokens

namespace EnbL1Ppc.Gser

open Lib Logged

/-!
What stands in a text that the decoder accepts. At the top level it is lenient about the brackets
and commas between members; inside a value they are those of the notation.
-/

def Primitive.ReadsWhole (p : Primitive) : Prop :=
  ∀ {chunk next n v}, p.receive chunk next true = .converted n v → n = chunk.length

mutual
def Ty.Proper : Ty → Prop
  | .prim p => p.ReadsWhole
  | .sequence elements => elements.Proper
  | .sequenceOf element => element.Proper
  | .choice elements => elements.Proper
def Elements.Proper : Elements → Prop
  | .nil => True
  | .cons name _ ty rest => IsIdentifier name ∧ ty.Proper ∧ rest.Proper
end

def OpensOrCommas (toks : List (Token × Text)) : Prop :=
  ∀ t ∈ toks, t.1 = .openBracket ∨ t.1 = .comma

def Punctuation (toks : List (Token × Text)) : Prop :=
  ∀ t ∈ toks, t.1 = .openBracket ∨ t.1 = .comma ∨ t.1 = .closeBracket

/-- What stands in front of a member: the mark of the notation or, where the decoder is not held to
it, any opening brackets and commas. -/
def Leads (strict : Bool) (mark : Token) (toks : List (Token × Text)) : Prop :=
  if strict then toks.map Prod.fst = [mark] else OpensOrCommas toks

def Closes (strict : Bool) (mark : Token) (toks : List (Token × Text)) : Prop :=
  if strict then toks.map Prod.fst = mark.closing else Punctuation toks

/-- The elements of a SEQUENCE OF, the next one behind `mark`, and its end. -/
inductive ReadItems (W : Value → List (Token × Text) → Prop) :
    Token → List Value → List (Token × Text) → Prop
  | nil {mark : Token} {toks : List (Token × Text)} : toks.map Prod.fst = mark.closing →
    ReadItems W mark [] toks
  | cons {mark : Token} {text : Text} {value toks : List (Token × Text)} {v : Value}
    {vs : List Value} : W v value → ReadItems W .comma vs toks →
    ReadItems W mark (v :: vs) ((mark, text) :: (value ++ toks))

mutual
def Read : Ty → Value → List (Token × Text) → Prop
  | .prim p, v, toks => ∃ t text next w, toks = [(t, text)] ∧ t.isBody = true ∧
    p.receive text next true = .converted text.length w ∧ p.convert w = some v
  | .sequence elements, v, toks => ∃ vs, v = .sequence vs ∧
    ReadMembers true elements .openBracket vs toks
  | .sequenceOf element, v, toks => ∃ vs, v = .list vs ∧
    ReadItems (Read element) .openBracket vs toks
  | .choice elements, v, toks => ∃ present w name colon body, v = .choice present w ∧
    ReadAlternative elements present name w body ∧ toks = (.text, name) :: (.colon, colon) :: body

/-- The members of a SEQUENCE, the next one behind `mark`, and its end. A mandatory member is its
name, and behind the name, which no closing bracket follows, the tokens of a value of its type. -/
def ReadMembers (strict : Bool) :
    Elements → Token → List (Option Value) → List (Token × Text) → Prop
  | .nil, mark, vs, toks => vs = [] ∧ Closes strict mark toks
  | .cons name presence ty rest, mark, vs, toks =>
    (presence.isOptional = true ∧ ∃ vs', vs = presence.absent :: vs' ∧
      ReadMembers strict rest mark vs' toks) ∨
    ∃ marks v vs' first value body, vs = some v :: vs' ∧
      toks = marks ++ (.text, name) :: (first :: value ++ body) ∧ Leads strict mark marks ∧
      first.1 ≠ .closeBracket ∧ Read ty v (first :: value) ∧ ReadMembers strict rest .comma vs' body

def ReadAlternative : Elements → ℕ → Text → Value → List (Token × Text) → Prop
  | .nil, _, _, _, _ => False
  | .cons name _ ty rest, present, choice, v, toks =>
    present = 1 ∧ choice = name ∧ Read ty v toks ∨
    ∃ k, present = k + 1 ∧ ReadAlternative rest k choice v toks
end

theorem isBody_bracket {t : Token} (h : t.isBody = true) : t.bracket = .other := by
  cases t <;> first | rfl | cases h

inductive Token.Stands : Token → ℕ → Prop
  | openBracket : Stands .openBracket 0
  | comma : Stands .comma 1

theorem Token.Stands.depth_cons {mark : Token} {d : ℕ} (h : mark.Stands d) (text : Text)
    (toks : List (Token × Text)) : depth d ((mark, text) :: toks) = depth 1 toks := by
  cases h <;> rfl

theorem Token.Stands.closing {mark : Token} {d : ℕ} (h : mark.Stands d)
    {toks : List (Token × Text)} (ht : toks.map Prod.fst = mark.closing) :
    toks ≠ [] ∧ depth d toks = some 0 := by
  cases h with
  | openBracket =>
    obtain ⟨⟨_, a⟩, l, rfl, rfl, hl⟩ := List.map_eq_cons_iff.1 ht
    obtain ⟨⟨_, b⟩, rfl, rfl⟩ := List.map_eq_singleton_iff.1 hl
    exact ⟨List.cons_ne_nil _ _, rfl⟩
  | comma =>
    obtain ⟨⟨_, b⟩, rfl, rfl⟩ := List.map_eq_singleton_iff.1 ht
    exact ⟨List.cons_ne_nil _ _, rfl⟩

theorem ReadItems.balanced {W : Value → List (Token × Text) → Prop}
    (hW : ∀ v l, W v l → depth 0 l = some 0) {mark : Token} {vs : List Value}
    {toks : List (Token × Text)} (h : ReadItems W mark vs toks) {d : ℕ} (hm : mark.Stands d) :
    toks ≠ [] ∧ depth d toks = some 0 := by
  induction h generalizing d with
  | nil ht => exact hm.closing ht
  | cons hv _ ih =>
    refine ⟨List.cons_ne_nil _ _, ?_⟩
    rw [hm.depth_cons]
    exact (nest_balanced_append (hW _ _ hv) 1 _).trans (ih .comma).2

mutual
theorem Read.balanced : ∀ {ty : Ty} {v : Value} {toks : List (Token × Text)}, Read ty v toks →
    toks ≠ [] ∧ depth 0 toks = some 0
  | .prim p, v, toks, h => by
    obtain ⟨t, text, next, w, rfl, hbody, -⟩ := h
    exact ⟨List.cons_ne_nil _ _, nest_other (isBody_bracket hbody) 0 []⟩
  | .sequence els, v, toks, h => by
    obtain ⟨vs, -, h⟩ := h
    exact h.balanced .openBracket
  | .sequenceOf ty, v, toks, h => by
    obtain ⟨vs, -, h⟩ := h
    exact h.balanced (fun _ _ hv ↦ (Read.balanced hv).2) .openBracket
  | .choice els, v, toks, h => by
    obtain ⟨present, w, name, colon, body, -, h, rfl⟩ := h
    exact ⟨List.cons_ne_nil _ _, h.balanced⟩

theorem ReadMembers.balanced : ∀ {els : Elements} {mark : Token} {vs : List (Option Value)}
    {toks : List (Token × Text)}, ReadMembers true els mark vs toks → ∀ {d : ℕ}, mark.Stands d →
    toks ≠ [] ∧ depth d toks = some 0
  | .nil, _, _, _, h, _, hm => hm.closing h.2
  | .cons name presence ty rest, mark, vs, toks, h, d, hm => by
    rcases h with ⟨-, vs', -, h⟩ | ⟨marks, v, vs', first, value, body, -, rfl, hlead, -, hv, h⟩
    · exact h.balanced hm
    · obtain ⟨⟨_, text⟩, rfl, rfl⟩ := List.map_eq_singleton_iff.1 hlead
      refine ⟨List.cons_ne_nil _ _, ?_⟩
      rw [List.singleton_append, hm.depth_cons]
      exact (nest_balanced_append hv.balanced.2 1 body).trans (h.balanced .comma).2

theorem ReadAlternative.balanced : ∀ {els : Elements} {present : ℕ} {name : Text} {v : Value}
    {toks : List (Token × Text)}, ReadAlternative els present name v toks →
    depth 0 toks = some 0
  | .cons name _ ty rest, present, choice, v, toks, h => by
    rcases h with ⟨-, -, h⟩ | ⟨k, -, h⟩
    · exact h.balanced.2
    · exact h.balanced
end

theorem Read.exists_cons {ty : Ty} {v : Value} {toks : List (Token × Text)} (h : Read ty v toks) :
    ∃ first value, toks = first :: value ∧ first.1 ≠ .closeBracket := by
  obtain ⟨hne, hd⟩ := h.balanced
  obtain ⟨first, value, rfl⟩ := List.exists_cons_of_ne_nil hne
  refine ⟨first, value, rfl, fun hclose ↦ nest_head hd ?_⟩
  rw [hclose]
  rfl

/-- The events of a run in which every token that is read was found by the lexer, values stand
inside the buffer, brackets are taken by the decoder they belong to, and inside a value the marks
are those of the notation. -/
def Event.Regular (env : Env) : Event → Prop
  | .lex state buf => (gserParse env.after state buf).token.any Token.isBody = true →
    (gserParse env.after state buf).size < buf.length
  | .stale | .closeBelow => False
  | .emptyMember ty => ∃ p, ty = .sequenceOf (.prim p)
  | .emptyElement count => count = 0
  | .round token braces count => token = some .openBracket ∧ braces = 0 ∧ count = 0 ∨
    token = some .comma ∧ braces = 1 ∧ 0 < count ∨ token = some .closeBracket
  | .marks path start here tokens => path = [] ∨ StandBetween env.after start here tokens
  | .unbraced path => path = []
  | .stuck | .idle _ | .abort | .report _ => True

instance (env : Env) : DecidablePred (Event.Regular env)
  | .lex _ _ => inferInstanceAs (Decidable (_ → _))
  | .stale | .closeBelow => inferInstanceAs (Decidable False)
  | .emptyMember (.sequenceOf (.prim p)) => .isTrue ⟨p, rfl⟩
  | .emptyMember (.prim _) | .emptyMember (.sequence _) | .emptyMember (.choice _)
  | .emptyMember (.sequenceOf (.sequence _)) | .emptyMember (.sequenceOf (.sequenceOf _))
  | .emptyMember (.sequenceOf (.choice _)) => .isFalse fun ⟨_, h⟩ ↦ by cases h
  | .emptyElement count => inferInstanceAs (Decidable (count = 0))
  | .round _ _ _ => inferInstanceAs (Decidable (_ ∨ _ ∨ _))
  | .marks _ _ _ _ => inferInstanceAs (Decidable (_ ∨ StandBetween _ _ _ _))
  | .unbraced path => inferInstanceAs (Decidable (path = []))
  | .stuck | .idle _ | .abort | .report _ => inferInstanceAs (Decidable True)

def Cursor.Ready (env : Env) (c : Cursor) : Prop :=
  c.state = .initial ∨ gserParse env.after c.state c.buf = ⟨c.state, none, 0⟩

structure Skipped.Found (env : Env) (r : Skipped) (t : Token) : Prop where
  parse : gserParse env.after .initial r.cursor.buf = ⟨r.cursor.state, some t, r.size⟩
  token : r.cursor.token = some t
  ne_space : 0 < r.size → t ≠ .space
  inside : t.isBody = true → r.size < r.cursor.buf.length

structure Skipped.From (env : Env) (start : Text) (r : Skipped) : Prop where
  spaces : ∃ toks, Tokens env.after start toks r.cursor.buf ∧ toks.filter significant = []
  ready : r.cursor.Ready env
  last : (∃ t, r.Found env t) ∨ r.size = 0 ∧ r.delivered = false

theorem skipSpaces_from (env : Env) (n : ℕ) {c : Cursor} (hc : c.Ready env) :
    Ensures (Event.Regular env) (Skipped.From env c.buf) (skipSpaces env n c) := by
  induction n generalizing c with
  | zero => exact .timeout
  | succ n ih =>
    rw [skipSpaces]
    refine .tell_bind fun hlex ↦ .tellIf_bind fun hstale ↦ ?_
    generalize hp : gserParse env.after c.state c.buf = r at hlex hstale ⊢
    obtain ⟨state, token, size⟩ := r
    cases token with
    | none =>
      -- nothing was found, and without a stale token nothing was passed over
      have hsize : size = 0 := by
        by_contra hne
        exact hstale ⟨Nat.pos_of_ne_zero hne, rfl⟩
      subst hsize
      rw [if_neg (by simp)]
      exact .pure ⟨⟨[], .nil _, rfl⟩, .inr (gserParse_again hp), .inr ⟨rfl, rfl⟩⟩
    | some t =>
      have hinit : c.state = .initial := by
        refine hc.resolve_right fun h ↦ ?_
        rw [hp] at h
        cases h
      rw [hinit] at hp
      split
      · next hspace =>
        obtain ⟨hpos, ht⟩ := hspace
        obtain rfl : t = .space := Option.some.inj ht
        have hready : Cursor.Ready env ⟨state, some .space, c.buf.drop size, c.consumed + size⟩ := by
          rcases gserParse_space hp with rfl | hall
          · exact .inl rfl
          · right
            subst hall
            rw [List.drop_length]
            rfl
        refine (ih hready).mono fun r hr ↦ ?_
        obtain ⟨toks, htoks, hsig⟩ := hr.spaces
        exact ⟨⟨_, .cons hp hpos htoks, hsig⟩, hr.ready, hr.last⟩
      · next hspace =>
        refine .pure ⟨⟨[], .nil _, rfl⟩, .inl ?_, .inl ⟨t, hp, rfl, ?_, ?_⟩⟩
        · by_cases ht : t = .space
          · subst ht
            refine (gserParse_space hp).resolve_right fun hall ↦ ?_
            obtain ⟨x, rest, hbuf, -⟩ := gserParse_some (by rw [hp])
            rw [hbuf] at hall
            exact hspace ⟨by simp [hall], rfl⟩
          · exact gserParse_state hp ht
        · rintro hpos rfl
          exact hspace ⟨hpos, rfl⟩
        · intro hbody
          have hlt := hlex (by rwa [hinit, hp])
          rwa [hinit, hp] at hlt

theorem Skipped.Found.state {env : Env} {r : Skipped} {t : Token} (h : r.Found env t)
    (ht : t ≠ .space) : r.cursor.state = .initial :=
  gserParse_state h.parse ht

theorem readToken_found {env : Env} {start : Text} {r : Skipped} (h : r.From env start) :
    Ensures (Event.Regular env) (fun token ↦ ∃ t, token = some t ∧ r.Found env t)
      (readToken r) := by
  refine .tellIf_bind fun hstale ↦ .pure ?_
  obtain ⟨t, ht⟩ := h.last.resolve_right hstale
  exact ⟨t, ht.token, ht⟩

theorem Skipped.From.found {env : Env} {start : Text} {r : Skipped} (h : r.From env start)
    (hs : r.size ≠ 0) : ∃ t, r.Found env t :=
  h.last.resolve_right fun hend ↦ hs hend.1

theorem Skipped.From.tokens {env : Env} {start : Text} {r : Skipped} (h : r.From env start)
    {t : Token} (ht : r.Found env t) (hs : 0 < r.size) :
    ∃ toks, Tokens env.after start toks r.advanced.buf ∧
      toks.filter significant = [(t, r.cursor.buf.take r.size)] := by
  obtain ⟨toks, htoks, hsig⟩ := h.spaces
  refine ⟨_, htoks.append (.single ht.parse hs), ?_⟩
  rw [List.filter_append, hsig, List.nil_append, List.filter_cons_of_pos]
  · rfl
  · simpa [significant] using ht.ne_space hs

/-- What a result says about the text from `start` on: the tokens up to the place that it gives
in `buf`, with the value. -/
def Rval.Reads (after : UInt8) (buf start : Text)
    (onOk onEmpty : Value → List (Token × Text) → Prop) : Rval → Prop
  | .ok k v => ∃ toks, Tokens after start toks (buf.drop k) ∧ onOk v (toks.filter significant)
  | .empty k v => ∃ toks, Tokens after start toks (buf.drop k) ∧
    onEmpty v (toks.filter significant)
  | .wmore _ | .fail _ => True

section Reads

variable {after : UInt8} {buf start mid : Text}
  {P P' Q Q' : Value → List (Token × Text) → Prop} {r : Rval}

theorem Rval.Reads.prepend {toks : List (Token × Text)} (h : r.Reads after buf mid P P')
    (htoks : Tokens after start toks mid)
    (hok : ∀ v l, P v l → Q v (toks.filter significant ++ l))
    (hempty : ∀ v l, P' v l → Q' v (toks.filter significant ++ l)) :
    r.Reads after buf start Q Q' := by
  cases r with
  | ok k v =>
    obtain ⟨l, hl, h⟩ := h
    exact ⟨toks ++ l, htoks.append hl, List.filter_append .. ▸ hok v _ h⟩
  | empty k v =>
    obtain ⟨l, hl, h⟩ := h
    exact ⟨toks ++ l, htoks.append hl, List.filter_append .. ▸ hempty v _ h⟩
  | wmore k => trivial
  | fail k => trivial

theorem Rval.Reads.mono (h : r.Reads after buf start P P') (hok : ∀ v l, P v l → Q v l)
    (hempty : ∀ v l, P' v l → Q' v l) : r.Reads after buf start Q Q' :=
  h.prepend (.nil _) hok hempty

end Reads

def EmptyRead : Ty → Value → List (Token × Text) → Prop
  | .prim _, _, toks => ∃ text, toks = [(.closeBracket, text)]
  | .sequenceOf (.prim p), v, toks => Read (.sequenceOf (.prim p)) v toks
  | _, _, _ => True

abbrev Decodes (env : Env) (ty : Ty) (buf : Text) (m : Logged Event Rval) : Prop :=
  Ensures (Event.Regular env) (Rval.Reads env.after buf buf (Read ty) (EmptyRead ty)) m

theorem start_ready (env : Env) (path : List ℕ) (buf : Text) :
    (Cursor.start env path buf).Ready env :=
  .inl rfl

def ReadBody (p : Primitive) (w : Value) (toks : List (Token × Text)) : Prop :=
  ∃ t text next, toks = [(t, text)] ∧ t.isBody = true ∧
    p.receive text next true = .converted text.length w

theorem gserDecodeGeneral_reads (env : Env) {p : Primitive} (hp : p.ReadsWhole) (path : List ℕ)
    (buf : Text) :
    Ensures (Event.Regular env) (Rval.Reads env.after buf buf (ReadBody p) (EmptyRead (.prim p)))
      (gserDecodeGeneral env p path buf) := by
  refine ((skipSpaces_from env _ (start_ready env path buf)).of_records
    (skipSpaces_records env _ (Cursor.start_on env path buf))).bind fun r ⟨hr, hon⟩ ↦ ?_
  refine (readToken_found hr).bind fun token ⟨t, htoken, ht⟩ ↦ ?_
  subst htoken
  split
  · next hbody =>
    have hbody : t.isBody = true := by simpa using hbody
    rw [decide_eq_true (ht.inside hbody)]
    split
    · exact .pure trivial
    · exact .tell_bind fun _ ↦ .timeout
    · next n w hrec =>
      obtain rfl := hp hrec
      have hlen : (r.cursor.buf.take r.size).length = r.size :=
        (List.length_take ..).trans (Nat.min_eq_left hon.2)
      split
      · exact .pure trivial
      · obtain ⟨toks, htoks, hsig⟩ := hr.tokens ht (gserParse_body_pos ht.parse hbody)
        refine .pure ⟨toks, ?_, t, _, _, hsig, hbody, hrec⟩
        rw [hlen, ← hon.1.drop]
        exact htoks
  · split
    · next hclose =>
      obtain rfl : t = .closeBracket := Option.some.inj hclose
      obtain ⟨toks, htoks, hsig⟩ := hr.tokens ht (gserParse_mark_pos ht.parse (by simp))
      exact .pure ⟨toks, hon.1.drop r.size ▸ htoks, _, hsig⟩
    · exact .pure trivial

theorem decodePrimitive_reads (env : Env) {p : Primitive} (hp : p.ReadsWhole) (path : List ℕ)
    (buf : Text) : Decodes env (.prim p) buf (decodePrimitive env p path buf) := by
  refine (gserDecodeGeneral_reads env hp path buf).bind fun r hr ↦ ?_
  cases r with
  | ok k w =>
    simp only [Primitive.wrap]
    split
    · next v hv =>
      obtain ⟨toks, htoks, t, text, next, hsig, hbody, hrec⟩ := hr
      exact .pure ⟨toks, htoks, t, text, next, w, hsig, hbody, hrec, hv⟩
    · exact .pure trivial
  | empty k v =>
    simp only [Primitive.wrap]
    split
    · exact .tell_bind fun _ ↦ .pure hr
    · exact .pure hr
  | wmore k =>
    simp only [Primitive.wrap]
    split
    · exact .tell_bind fun _ ↦ .pure trivial
    · exact .pure trivial
  | fail k =>
    simp only [Primitive.wrap]
    split
    · exact .tell_bind fun _ ↦ .pure trivial
    · exact .pure trivial

structure Opened (after : UInt8) (start rest : Text) (d d' : ℕ) (toks : List (Token × Text)) :
    Prop where
  tokens : Tokens after start toks rest
  marks : OpensOrCommas (toks.filter significant)
  depth : depth d (toks.filter significant) = some d'

theorem Skipped.From.opened {env : Env} {start : Text} {r : Skipped} (h : r.From env start)
    (d : ℕ) : ∃ toks, Opened env.after start r.cursor.buf d d toks := by
  obtain ⟨toks, htoks, hsig⟩ := h.spaces
  refine ⟨toks, htoks, ?_, ?_⟩
  · rw [hsig]
    exact fun t ht ↦ absurd ht List.not_mem_nil
  · rw [hsig]
    rfl

theorem Opened.cons {env : Env} {start rest : Text} {r : Skipped} (h : r.From env start) {t : Token}
    (ht : r.Found env t) (hs : 0 < r.size) {d d₁ d' : ℕ}
    (hd : t = .openBracket ∧ d₁ = d + 1 ∨ t = .comma ∧ d₁ = d) {toks : List (Token × Text)}
    (hrest : Opened env.after r.advanced.buf rest d₁ d' toks) :
    ∃ toks', Opened env.after start rest d d' toks' := by
  obtain ⟨toks₁, htoks₁, hsig⟩ := h.tokens ht hs
  refine ⟨_, htoks₁.append hrest.tokens, ?_, ?_⟩
  · rw [List.filter_append, hsig]
    refine List.forall_mem_cons.2 ⟨?_, hrest.marks⟩
    exact hd.imp (·.1) (·.1)
  · rw [List.filter_append, hsig]
    rcases hd with ⟨rfl, rfl⟩ | ⟨rfl, rfl⟩
    · exact hrest.depth
    · exact hrest.depth

theorem Opened.nil (after : UInt8) (buf : Text) (d : ℕ) : Opened after buf buf d d [] :=
  ⟨.nil buf, fun _ h ↦ absurd h List.not_mem_nil, rfl⟩

theorem Opened.append {after : UInt8} {start mid rest : Text} {d d₁ d' : ℕ}
    {toks toks' : List (Token × Text)} (h : Opened after start mid d d₁ toks)
    (h' : Opened after mid rest d₁ d' toks') : Opened after start rest d d' (toks ++ toks') := by
  refine ⟨h.tokens.append h'.tokens, ?_, ?_⟩
  · rw [List.filter_append]
    exact List.forall_mem_append.2 ⟨h.marks, h'.marks⟩
  · rw [List.filter_append]
    exact (nest_append_of_eq h.depth _).trans h'.depth

theorem Opened.punctuation {after : UInt8} {start rest : Text} {d d' : ℕ}
    {toks : List (Token × Text)} (h : Opened after start rest d d' toks) :
    Punctuation (toks.filter significant) :=
  fun t ht ↦ (h.marks t ht).imp_right .inl

def Sought.From (env : Env) (start : Text) (d : ℕ) : Sought → Prop
  | .text c size braces => c.Ready env ∧ (∃ (d' : ℕ) (toks : _), braces = d' ∧
      Opened env.after start c.buf d d' toks) ∧
    (size = 0 ∨ c.buf.head? = some charCloseBracket ∨ 0 < size ∧ c.state = .initial ∧
      gserParse env.after .initial c.buf = ⟨.initial, some .text, size⟩)
  | .done r => ∃ n, r = .fail n

theorem seekMember_from (env : Env) (name : Text) (optional : Bool) (n : ℕ) {c : Cursor}
    (hc : c.Ready env) (d : ℕ) :
    Ensures (Event.Regular env) (Sought.From env c.buf d) (seekMember env name optional n c d) := by
  have habsent : ∀ {start : Text} {d : ℕ} (c : Cursor), Ensures (Event.Regular env)
      (Sought.From env start d) (absentMandatory name c) :=
    fun c ↦ .tell_bind fun _ ↦ .pure ⟨_, rfl⟩
  induction n generalizing c d with
  | zero => exact .timeout
  | succ n ih =>
    rw [seekMember]
    refine (skipSpaces_from env _ hc).bind fun r hr ↦ ?_
    obtain ⟨spaces, hspaces⟩ := hr.opened d
    split
    · split
      · exact .pure ⟨hr.ready, ⟨d, spaces, rfl, hspaces⟩, .inl rfl⟩
      · exact habsent _
    · next hs =>
      have hpos := Nat.pos_of_ne_zero hs
      obtain ⟨t, ht⟩ := hr.found hs
      have hloop : ∀ {d₁ : ℕ}, t = .openBracket ∧ d₁ = d + 1 ∨ t = .comma ∧ d₁ = d →
          Ensures (Event.Regular env) (Sought.From env c.buf d)
            (seekMember env name optional n r.advanced d₁) := by
        intro d₁ hd
        have hready : r.advanced.Ready env :=
          .inl (ht.state (by rcases hd with ⟨rfl, -⟩ | ⟨rfl, -⟩ <;> decide))
        refine (ih hready d₁).mono fun x hx ↦ ?_
        cases x with
        | done r => exact hx
        | text c' size braces =>
          obtain ⟨hc', ⟨d', toks, hb, htoks⟩, hsize⟩ := hx
          obtain ⟨toks', htoks'⟩ := htoks.cons hr ht hpos hd
          exact ⟨hc', ⟨d', toks', hb, htoks'⟩, hsize⟩
      rw [ht.token]
      cases t with
      | openBracket => exact hloop (.inl ⟨rfl, rfl⟩)
      | comma => exact hloop (.inr ⟨rfl, rfl⟩)
      | closeBracket =>
        simp only
        split
        · exact .pure ⟨hr.ready, ⟨d, spaces, rfl, hspaces⟩, .inr (.inl (gserParse_close ht.parse))⟩
        · exact habsent _
      | text =>
        have hstate := ht.state (by decide)
        exact .pure ⟨hr.ready, ⟨d, spaces, rfl, hspaces⟩,
          .inr (.inr ⟨hpos, hstate, hstate ▸ ht.parse⟩)⟩
      | _ => exact .tell_bind fun _ ↦ .pure ⟨_, rfl⟩

theorem Punctuation.append {toks toks' : List (Token × Text)} (h : Punctuation toks)
    (h' : Punctuation toks') : Punctuation (toks ++ toks') :=
  List.forall_mem_append.2 ⟨h, h'⟩

theorem Punctuation.single {t : Token} {text : Text}
    (h : t = .openBracket ∨ t = .comma ∨ t = .closeBracket) : Punctuation [(t, text)] :=
  List.forall_mem_singleton.2 h

inductive Token.Moves : Token → ℕ → ℕ → Prop
  | openBracket (d : ℕ) : Moves .openBracket d (d + 1)
  | comma (d : ℕ) : Moves .comma d d
  | closeBracket (d : ℕ) : Moves .closeBracket (d + 1) d

theorem Token.Moves.punctuation {t : Token} {d d' : ℕ} (h : t.Moves d d') (text : Text) :
    Punctuation [(t, text)] := by
  cases h <;> exact .single (by simp)

theorem Token.Moves.depth_cons {t : Token} {d d' : ℕ} (h : t.Moves d d') (text : Text)
    (toks : List (Token × Text)) : depth d ((t, text) :: toks) = depth d' toks := by
  cases h <;> rfl

theorem Token.Moves.ne_space {t : Token} {d d' : ℕ} (h : t.Moves d d') : t ≠ .space := by
  cases h <;> decide

theorem Skipped.Found.moves_pos {env : Env} {r : Skipped} {t : Token} (ht : r.Found env t)
    {d d' : ℕ} (h : t.Moves d d') : 0 < r.size := by
  refine gserParse_mark_pos ht.parse ?_
  cases h <;> simp

def Closing (v : Value) (d : ℕ) (w : Value) (toks : List (Token × Text)) : Prop :=
  w = v ∧ Punctuation toks ∧ toks ≠ [] ∧ depth d toks = some 0

theorem Closing.cons {v w : Value} {t : Token} {d d' : ℕ} {toks : List (Token × Text)}
    (ht : t.Moves d d') (text : Text) (h : Closing v d' w toks) :
    Closing v d w ([(t, text)] ++ toks) := by
  obtain ⟨hv, hp, -, hd⟩ := h
  exact ⟨hv, (ht.punctuation text).append hp, List.cons_ne_nil _ _, (ht.depth_cons text toks).trans hd⟩

theorem closeSequence_reads (env : Env) (v : Value) {buf : Text} (n : ℕ) {c : Cursor}
    (hc : c.Ready env) (hon : c.On buf) (d : ℕ) :
    Ensures (Event.Regular env) (Rval.Reads env.after buf c.buf (Closing v d) fun _ _ ↦ False)
      (closeSequence env v n c d) := by
  induction n generalizing c d with
  | zero => exact .timeout
  | succ n ih =>
    rw [closeSequence]
    refine ((skipSpaces_from env _ hc).of_records (skipSpaces_records env _ hon)).bind
      fun r hboth ↦ ?_
    obtain ⟨hr, hron⟩ := hboth
    refine (readToken_found hr).bind fun token hfound ↦ ?_
    obtain ⟨t, rfl, ht⟩ := hfound
    have hloop : ∀ {d' : ℕ}, t.Moves d d' → Ensures (Event.Regular env)
        (Rval.Reads env.after buf c.buf (Closing v d) fun _ _ ↦ False)
        (closeSequence env v n r.advanced d') := by
      intro d' hd
      obtain ⟨toks, htoks, hsig⟩ := hr.tokens ht (ht.moves_pos hd)
      have hready : r.advanced.Ready env := .inl (ht.state hd.ne_space)
      refine (ih hready hron.advanced d').mono fun x hx ↦ ?_
      refine hx.prepend htoks (fun w l hl ↦ ?_) fun _ _ ↦ False.elim
      rw [hsig]
      exact hl.cons hd _
    cases t with
    | openBracket => exact .tellIf_bind fun _ ↦ hloop (.openBracket d)
    | comma => exact .tellIf_bind fun _ ↦ hloop (.comma d)
    | closeBracket =>
      refine .tellIf_bind fun hbelow ↦ .tellIf_bind fun _ ↦ ?_
      cases d with
      | zero => exact (hbelow (Int.le_refl _)).elim
      | succ d =>
        have hcast : ((d + 1 : ℕ) : ℤ) - 1 = d := by omega
        rw [hcast]
        split
        · next hd =>
          obtain rfl : d = 0 := by omega
          obtain ⟨toks, htoks, hsig⟩ := hr.tokens ht (ht.moves_pos (.closeBracket 0))
          refine .pure ⟨toks, hron.advanced.buf_eq ▸ htoks, ?_⟩
          rw [hsig]
          exact ⟨rfl, .single (by simp), List.cons_ne_nil _ _, rfl⟩
        · exact hloop (.closeBracket d)
    | _ => exact .tell_bind fun _ ↦ .pure trivial

def nextMark (items : List Value) : Token :=
  if items = [] then .openBracket else .comma

def ItemsFrom (ty : Ty) (items : List Value) (v : Value) (toks : List (Token × Text)) : Prop :=
  ∃ vs, v = .list (items ++ vs) ∧ ReadItems (Read ty) (nextMark items) vs toks

theorem ItemsFrom.item {ty : Ty} {items : List Value} {v w : Value} {text : Text}
    {value toks : List (Token × Text)} (hv : Read ty v value)
    (h : ItemsFrom ty (items ++ [v]) w toks) :
    ItemsFrom ty items w ((nextMark items, text) :: (value ++ toks)) := by
  obtain ⟨vs, hw, hvs⟩ := h
  rw [nextMark, if_neg (by simp)] at hvs
  refine ⟨v :: vs, ?_, .cons hv hvs⟩
  rw [hw, List.append_assoc, List.singleton_append]

/-- What the loop of a SEQUENCE OF reads. `RC_EMPTY` says something about the text only if the
elements are of a primitive type. -/
abbrev ReadsItems (env : Env) (ty : Ty) (buf start : Text) (items : List Value)
    (m : Logged Event Rval) : Prop :=
  Ensures (Event.Regular env) (Rval.Reads env.after buf start (ItemsFrom ty items)
    fun v toks ↦ (∃ p, ty = .prim p) → ItemsFrom ty items v toks) m

theorem addElement_reads {env : Env} {ty : Ty} {buf start : Text} {c : Cursor}
    (hc : c.state = .initial) (hon : c.On buf) {items : List Value} {toks : List (Token × Text)}
    {text : Text} (htoks : Tokens env.after start toks c.buf)
    (hsig : toks.filter significant = [(nextMark items, text)]) (moved again : Bool)
    {loop : Cursor → ℤ → List Value → Logged Event Rval}
    (hloop : ∀ {c : Cursor}, c.Ready env → c.On buf → ∀ items, items ≠ [] →
      ReadsItems env ty buf c.buf items (loop c 1 items)) {x : Rval}
    (hx : x.Reads env.after c.buf c.buf (Read ty) (EmptyRead ty)) (hk : x.consumed ≤ c.buf.length) :
    ReadsItems env ty buf start items (addElement c 1 items moved again loop x) := by
  cases x with
  | ok k v =>
    obtain ⟨value, hvalue, hread⟩ := hx
    have hsig' : (toks ++ value).filter significant =
        (nextMark items, text) :: value.filter significant := by
      rw [List.filter_append, hsig, List.singleton_append]
    refine .tellIf_bind fun _ ↦ ?_
    have hready : (c.advance k).Ready env := .inl hc
    refine (hloop hready (hon.advance hk) _ (by simp)).mono fun r hr ↦ ?_
    refine hr.prepend (htoks.append hvalue) (fun w l h ↦ ?_) fun w l h hp ↦ ?_
    · rw [hsig', List.cons_append]
      exact h.item hread
    · rw [hsig', List.cons_append]
      exact (h hp).item hread
  | empty k v =>
    refine .tell_bind fun hcount ↦ .pure ?_
    obtain rfl : items = [] := List.length_eq_zero_iff.1 hcount
    obtain ⟨value, hvalue, hread⟩ := hx
    refine ⟨toks ++ value, htoks.append (hon.drop k ▸ hvalue), ?_⟩
    rintro ⟨p, rfl⟩
    obtain ⟨close, hclose⟩ := hread
    refine ⟨[], rfl, .nil ?_⟩
    rw [List.filter_append, hsig, hclose]
    rfl
  | wmore k => exact .pure trivial
  | fail k => exact .pure trivial

theorem setOfLoop_reads (env : Env) {ty : Ty} {element : List ℕ → Text → Logged Event Rval}
    (hel : ∀ path buf, path ≠ [] → Decodes env ty buf (element path buf))
    (hin : ∀ path buf, Inside buf (element path buf)) (path : List ℕ) {buf : Text} (n : ℕ)
    {c : Cursor} (hc : c.Ready env) (hon : c.On buf) {braces : ℤ} {items : List Value}
    (hb : braces = 0 ∧ items = [] ∨ braces = 1 ∧ items ≠ []) :
    ReadsItems env ty buf c.buf items (setOfLoop env element path n c braces items) := by
  induction n generalizing c braces items with
  | zero => exact .timeout
  | succ n ih =>
    rw [setOfLoop]
    refine ((skipSpaces_from env _ hc).of_records (skipSpaces_records env _ hon)).bind
      fun r hboth ↦ ?_
    obtain ⟨hr, hron⟩ := hboth
    split
    · exact .pure trivial
    · next hs =>
      obtain ⟨t, ht⟩ := hr.found hs
      have hpos := Nat.pos_of_ne_zero hs
      have hstate : r.advanced.state = .initial := ht.state (ht.ne_space hpos)
      obtain ⟨toks, htoks, hsig⟩ := hr.tokens ht hpos
      have hadd (hmark : t = nextMark items) (moved again : Bool) : ReadsItems env ty buf c.buf items
          (element (items.length :: path) r.advanced.buf >>=
            addElement r.advanced 1 items moved again (setOfLoop env element path n)) := by
        refine ((hel _ _ (List.cons_ne_nil _ _)).of_records (hin _ _)).bind fun x hx ↦ ?_
        exact addElement_reads hstate hron.advanced htoks (hmark ▸ hsig) moved again
          (fun hc hon _ hne ↦ ih hc hon (.inr ⟨rfl, hne⟩)) hx.1 hx.2
      refine .tell_bind fun hround ↦ ?_
      rw [ht.token] at hround ⊢
      rcases hround with ⟨htok, rfl, hcount⟩ | ⟨htok, rfl, hcount⟩ | htok
      · obtain rfl : t = .openBracket := Option.some.inj htok
        obtain rfl : items = [] := List.length_eq_zero_iff.1 hcount
        exact hadd rfl _ _
      · obtain rfl : t = .comma := Option.some.inj htok
        exact hadd (if_neg (List.ne_nil_of_length_pos hcount)).symm _ _
      · obtain rfl : t = .closeBracket := Option.some.inj htok
        refine .tellIf_bind fun hbelow ↦ ?_
        rcases hb with ⟨rfl, -⟩ | ⟨rfl, hne⟩
        · exact (hbelow (Int.le_refl _)).elim
        · rw [if_pos (Int.sub_self 1)]
          refine .pure ⟨toks, hron.advanced.buf_eq ▸ htoks, [], by rw [List.append_nil], .nil ?_⟩
          rw [hsig, nextMark, if_neg hne]
          rfl

theorem choiceName_reads (env : Env) (first : Option Text) (path : List ℕ) (buf : Text) :
    Ensures (Event.Regular env) (fun x ↦ match x.2 with
      | .inl name => ∃ toks colon, Tokens env.after buf toks x.1.buf ∧
        toks.filter significant = [(.text, name), (.colon, colon)]
      | .inr r => ∃ n, r = .fail n) (choiceName env first path buf) := by
  refine (skipSpaces_from env _ (start_ready env path buf)).bind fun r hr ↦ ?_
  split
  · exact .pure ⟨_, rfl⟩
  · next hs =>
    split
    · next htext =>
      obtain ⟨t, ht⟩ := hr.found hs
      obtain rfl : t = .text := Option.some.inj (ht.token.symm.trans htext)
      obtain ⟨toks, htoks, hsig⟩ := hr.tokens ht (Nat.pos_of_ne_zero hs)
      have hready : r.advanced.Ready env := .inl (ht.state (by decide))
      refine (skipSpaces_from env _ hready).bind fun r' hr' ↦ ?_
      split
      · exact .pure ⟨_, rfl⟩
      · next hs' =>
        split
        · next hcolon =>
          obtain ⟨t', ht'⟩ := hr'.found hs'
          obtain rfl : t' = .colon := Option.some.inj (ht'.token.symm.trans hcolon)
          obtain ⟨toks', htoks', hsig'⟩ := hr'.tokens ht' (Nat.pos_of_ne_zero hs')
          refine .pure ⟨_, r'.cursor.buf.take r'.size, htoks.append htoks', ?_⟩
          rw [List.filter_append, hsig, hsig']
          rfl
        · exact .tell_bind fun _ ↦ .pure ⟨_, rfl⟩
    · exact .pure ⟨_, rfl⟩

/-- The members of a SEQUENCE from `els` on, behind the values `vs` and from the depth `d` on. -/
def MembersFrom (strict : Bool) (els : Elements) (mark : Token) (d : ℕ) (vs : List (Option Value))
    (v : Value) (toks : List (Token × Text)) : Prop :=
  ∃ vs', v = .sequence (vs ++ vs') ∧ ReadMembers strict els mark vs' toks ∧ depth d toks = some 0

section MembersFrom

variable {strict : Bool} {name : Text} {presence : Presence} {ty : Ty} {rest : Elements}
  {mark : Token} {marks toks : List (Token × Text)} {d d' : ℕ} {vs : List (Option Value)} {w : Value}

theorem MembersFrom.absent (hopt : presence.isOptional = true)
    (h : MembersFrom strict rest mark d (vs ++ [presence.absent]) w toks) :
    MembersFrom strict (.cons name presence ty rest) mark d vs w toks := by
  obtain ⟨vs', rfl, hvs, hdepth⟩ := h
  refine ⟨presence.absent :: vs', ?_, .inl ⟨hopt, vs', rfl, hvs⟩, hdepth⟩
  rw [List.append_assoc, List.singleton_append]

theorem MembersFrom.present {value : List (Token × Text)} {v : Value}
    (hlead : Leads strict mark marks) (hd : depth d marks = some d') (hv : Read ty v value)
    (h : MembersFrom strict rest .comma d' (vs ++ [some v]) w toks) :
    MembersFrom strict (.cons name presence ty rest) mark d vs w
      (marks ++ (.text, name) :: value ++ toks) := by
  obtain ⟨vs', rfl, hvs, hdepth⟩ := h
  refine ⟨some v :: vs', ?_, .inr ?_, ?_⟩
  · rw [List.append_assoc, List.singleton_append]
  · obtain ⟨first, value, rfl, hfirst⟩ := hv.exists_cons
    refine ⟨marks, v, vs', first, value, toks, rfl, ?_, hlead, hfirst, hv, hvs⟩
    rw [List.append_assoc, List.cons_append]
  · calc depth d (marks ++ (.text, name) :: value ++ toks)
        = depth d' (value ++ toks) := by
          rw [List.append_assoc]
          exact nest_append_of_eq hd _
      _ = depth d' toks := nest_balanced_append hv.balanced.2 d' toks
      _ = some 0 := hdepth

end MembersFrom

section Marks

variable {env : Env} {strict : Bool} {path : List ℕ} {start here : Text} {mark : Token} {d d' : ℕ}

theorem Opened.leads {pre : List (Token × Text)} (hs : strict = true → path ≠ [])
    (h : Opened env.after start here d d' pre)
    (hreg : (Event.marks path start here [mark]).Regular env) :
    Leads strict mark (pre.filter significant) := by
  unfold Leads
  split
  · next hstrict => exact (hreg.resolve_left (hs hstrict)).map_fst h.tokens
  · exact h.marks

theorem closes_of_marks {toks : List (Token × Text)} (hs : strict = true → path ≠ [])
    (htoks : Tokens env.after start toks here) (hp : Punctuation (toks.filter significant))
    (hreg : (Event.marks path start here mark.closing).Regular env) :
    Closes strict mark (toks.filter significant) := by
  unfold Closes
  split
  · next hstrict => exact (hreg.resolve_left (hs hstrict)).map_fst htoks
  · exact hp

theorem nextElement_reads {rest : Elements} {buf : Text} {c : Cursor}
    (hs : strict = true → path ≠ []) (hon : c.On buf) {pre : List (Token × Text)}
    (hpre : Opened env.after start c.buf d d' pre) {vs : List (Option Value)}
    {loop : Cursor → ℤ → List (Option Value) → Logged Event Rval}
    (hloop : Ensures (Event.Regular env) (Rval.Reads env.after buf start
      (MembersFrom strict rest mark d vs) fun _ _ ↦ False) (loop c d' vs)) :
    Ensures (Event.Regular env) (Rval.Reads env.after buf start
      (MembersFrom strict rest mark d vs) fun _ _ ↦ False)
      (nextElement path c d' rest.isNil vs loop) := by
  unfold nextElement
  split
  · next h =>
    obtain rfl : d' = 0 := Int.natCast_inj.1 h.1
    cases rest with
    | cons => cases h.2
    | nil =>
      refine .tell_bind fun hreg ↦ ?_
      have hloose : strict = false := by
        cases strict with
        | false => rfl
        | true => exact absurd hreg (hs rfl)
      subst hloose
      exact .pure ⟨pre, hon.buf_eq ▸ hpre.tokens, [], by rw [List.append_nil],
        ⟨rfl, hpre.punctuation⟩, hpre.depth⟩
  · exact hloop

theorem decodeElements_nil_reads {buf : Text} {c : Cursor} (hs : strict = true → path ≠ [])
    (hc : c.Ready env) (hon : c.On buf) {pre : List (Token × Text)}
    (hpre : Opened env.after start c.buf d d' pre) (i : ℕ) (vs : List (Option Value)) :
    Ensures (Event.Regular env) (Rval.Reads env.after buf start
      (MembersFrom strict .nil mark d vs) fun _ _ ↦ False)
      (decodeElements env .nil path mark start i c d' vs) := by
  rw [decodeElements]
  refine (closeSequence_reads env (.sequence vs) _ hc hon d').bind fun r hr ↦ ?_
  refine .tell_bind fun hreg ↦ .pure ?_
  cases r with
  | ok k v =>
    obtain ⟨toks, htoks, rfl, hp, -, hd⟩ := hr
    have hend : c.buf.drop (k - c.consumed) = buf.drop k := by
      have hle := htoks.suffix.length_le
      have hlen := hon.length
      rw [List.length_drop] at hle
      rw [hon.drop, Nat.add_sub_cancel' (by omega)]
    rw [Rval.consumed, hend] at hreg
    refine ⟨pre ++ toks, hpre.tokens.append htoks, [], by rw [List.append_nil], ⟨rfl, ?_⟩, ?_⟩
    · refine closes_of_marks hs (hpre.tokens.append htoks) ?_ hreg
      rw [List.filter_append]
      exact hpre.punctuation.append hp
    · rw [List.filter_append]
      exact (nest_append_of_eq hpre.depth _).trans hd
  | empty k v =>
    obtain ⟨-, -, hfalse⟩ := hr
    exact hfalse.elim
  | wmore k => trivial
  | fail k => trivial

/-- Behind the marks, the name and the value of a member, the other members are read. -/
theorem member_reads {name : Text} {presence : Presence} {ty : Ty} {rest : Elements}
    {buf mid there : Text} {pre toks : List (Token × Text)} {v : Value} {vs : List (Option Value)}
    {m : Logged Event Rval} (hpre : Opened env.after start here d d' pre)
    (hlead : Leads strict mark (pre.filter significant))
    (htext : Tokens env.after here [(.text, name)] mid) (htoks : Tokens env.after mid toks there)
    (hread : Read ty v (toks.filter significant))
    (hm : Ensures (Event.Regular env) (Rval.Reads env.after buf there
      (MembersFrom strict rest .comma d' (vs ++ [some v])) fun _ _ ↦ False) m) :
    Ensures (Event.Regular env) (Rval.Reads env.after buf start
      (MembersFrom strict (.cons name presence ty rest) mark d vs) fun _ _ ↦ False) m := by
  refine hm.mono fun r hr ↦ ?_
  refine hr.prepend (hpre.tokens.append (htext.append htoks)) (fun w l h ↦ ?_) fun _ _ ↦ id
  rw [List.filter_append, List.singleton_append, List.filter_cons_of_pos rfl]
  exact h.present hlead hpre.depth hread

end Marks

theorem Sought.From.name {env : Env} {start : Text} {d : ℕ} {c : Cursor} {size : ℕ} {braces : ℤ}
    (h : (Sought.text c size braces).From env start d) {name : Text} (hid : IsIdentifier name)
    (hname : size = name.length ∧ c.buf.take size = name) :
    c.state = .initial ∧ Tokens env.after c.buf [(.text, name)] (c.advance size).buf := by
  obtain ⟨rfl, htake⟩ := hname
  obtain ⟨-, -, hsize⟩ := h
  cases name with
  | nil => exact hid.elim
  | cons x l =>
    rcases hsize with hsize | hclose | ⟨hpos, hstate, hp⟩
    · cases hsize
    · cases hbuf : c.buf with
      | nil =>
        rw [hbuf] at hclose
        cases hclose
      | cons y l' =>
        rw [hbuf] at hclose htake
        obtain rfl : y = x := (List.cons.inj htake).1
        rw [Option.some.inj hclose] at hid
        exact absurd hid.1 (by decide)
    · have hsingle := Tokens.single hp hpos
      rw [htake] at hsingle
      exact ⟨hstate, hsingle⟩

mutual
theorem decodeTy_reads (env : Env) : ∀ {ty : Ty}, ty.Proper → ∀ (path : List ℕ) (buf : Text),
    path ≠ [] → Decodes env ty buf (decodeTy env ty path buf)
  | .prim p, hty, path, buf, _ => decodePrimitive_reads env hty path buf
  | .sequence els, hty, path, buf, hpath => by
    refine (decodeElements_reads env hty true path (fun _ ↦ hpath) (start_ready env path buf)
      (Cursor.start_on env path buf) (.nil _ _ 0) .openBracket 0 []).mono fun r hr ↦ ?_
    refine hr.mono (fun v toks h ↦ ?_) fun _ _ ↦ False.elim
    obtain ⟨vs, hv, hvs, -⟩ := h
    exact ⟨vs, hv, hvs⟩
  | .sequenceOf ty, hty, path, buf, _ => by
    have hel := decodeTy_reads env (show ty.Proper from hty)
    refine (setOfLoop_reads env hel (decodeTy_inside env ty) path _
      (start_ready env path buf) (Cursor.start_on env path buf) (.inl ⟨rfl, rfl⟩)).mono fun r hr ↦ ?_
    refine hr.mono (fun v toks h ↦ h) fun v toks h ↦ ?_
    cases ty with
    | prim p => exact h ⟨p, rfl⟩
    | _ => trivial
  | .choice els, hty, path, buf, _ => by
    refine ((choiceName_reads env els.firstName path buf).of_records
      (choiceName_records env _ path buf)).bind fun ⟨c, x⟩ ⟨hx, hon, _⟩ ↦ ?_
    cases x with
    | inr r =>
      obtain ⟨n, rfl⟩ := hx
      exact .pure trivial
    | inl name =>
      obtain ⟨toks, colon, htoks, hsig⟩ := hx
      refine (decodeAlternative_reads env hty _ path 0 name hon).mono fun r hr ↦ ?_
      refine hr.prepend htoks (fun v l h ↦ ?_) fun _ _ _ ↦ trivial
      obtain ⟨k, w, rfl, h⟩ := h
      rw [hsig]
      exact ⟨k, w, name, colon, l, by rw [Nat.zero_add], h, rfl⟩

theorem decodeElements_reads (env : Env) : ∀ {els : Elements}, els.Proper → ∀ (strict : Bool)
    (path : List ℕ), (strict = true → path ≠ []) → ∀ {buf start : Text} {c : Cursor}, c.Ready env →
    c.On buf → ∀ {d d' : ℕ} {pre : List (Token × Text)}, Opened env.after start c.buf d d' pre →
    ∀ (mark : Token) (i : ℕ) (vs : List (Option Value)),
    Ensures (Event.Regular env) (Rval.Reads env.after buf start (MembersFrom strict els mark d vs)
      fun _ _ ↦ False) (decodeElements env els path mark start i c d' vs)
  | .nil, _, _, _, hs, _, _, _, hc, hon, _, _, _, hpre, _, i, vs =>
    decodeElements_nil_reads hs hc hon hpre i vs
  | .cons name presence ty rest, hels, strict, path, hs, buf, start, c, hc, hon, d, d₀, pre, hpre,
      mark, i, vs => by
    obtain ⟨hid, hty, hrest⟩ := hels
    rw [decodeElements]
    refine ((seekMember_from env name _ _ hc d₀).of_records
      (seekMember_records env name _ _ hon d₀)).bind fun x ⟨hx, hxon⟩ ↦ ?_
    cases x with
    | done r =>
      obtain ⟨n, rfl⟩ := hx
      exact .pure trivial
    | text c' size braces =>
      obtain ⟨hc', ⟨d', marks, rfl, hmarks⟩, -⟩ := id hx
      have hall := hpre.append hmarks
      simp only
      split
      · next hname =>
        obtain ⟨hstate, htext⟩ := hx.name hid hname
        have hton : (c'.advance size).On buf := hxon.1.advance hxon.2
        refine .tell_bind fun hreg ↦ ?_
        have hvalue : ∀ {k : ℕ} {v : Value} {toks : List (Token × Text)},
            k ≤ (c'.advance size).buf.length →
            Tokens env.after (c'.advance size).buf toks ((c'.advance size).buf.drop k) →
            Read ty v (toks.filter significant) → Ensures (Event.Regular env)
              (Rval.Reads env.after buf start
                (MembersFrom strict (.cons name presence ty rest) mark d vs) fun _ _ ↦ False)
              (nextElement path ((c'.advance size).advance k) d' rest.isNil (vs ++ [some v])
                (decodeElements env rest path .comma ((c'.advance size).advance k).buf
                  (i + 1))) := by
          intro k v toks hk htoks hread
          have hready : ((c'.advance size).advance k).Ready env := .inl hstate
          have hnil := Opened.nil env.after ((c'.advance size).advance k).buf d'
          refine member_reads hall (hall.leads hs hreg) htext htoks hread ?_
          exact nextElement_reads hs (hton.advance hk) hnil (decodeElements_reads env hrest strict
            path hs hready (hton.advance hk) hnil .comma (i + 1) (vs ++ [some v]))
        refine ((decodeTy_reads env hty _ _ (List.cons_ne_nil i path)).of_records
          (decodeTy_inside env ty _ _)).bind fun y ⟨hy, hk⟩ ↦ ?_
        cases y with
        | ok k v =>
          obtain ⟨toks, htoks, hread⟩ := hy
          exact hvalue hk htoks hread
        | empty k v =>
          refine .tell_bind fun hreg ↦ ?_
          obtain ⟨p, rfl⟩ := hreg
          obtain ⟨toks, htoks, hread⟩ := hy
          exact hvalue hk htoks hread
        | wmore k => exact .pure trivial
        | fail k => exact .pure trivial
      · split
        · next hopt =>
          refine (nextElement_reads hs hxon.1 hall (decodeElements_reads env hrest strict path hs
            hc' hxon.1 hall mark (i + 1) (vs ++ [presence.absent]))).mono fun r hr ↦ ?_
          exact hr.mono (fun w l h ↦ h.absent hopt) fun _ _ ↦ id
        · exact .tell_bind fun _ ↦ .pure trivial

theorem decodeAlternative_reads (env : Env) : ∀ {els : Elements}, els.Proper →
    ∀ (first : Option Text) (path : List ℕ) (i : ℕ) (choice : Text) {buf : Text} {c : Cursor},
    c.On buf → Ensures (Event.Regular env) (Rval.Reads env.after buf c.buf
      (fun v toks ↦ ∃ k w, v = .choice (i + k) w ∧ ReadAlternative els k choice w toks)
      fun _ _ ↦ True) (decodeAlternative env els first path i choice c)
  | .nil, _, _, _, _, _, _, _, _ => .tell_bind fun _ ↦ .pure trivial
  | .cons name _ ty rest, hels, first, path, i, choice, buf, c, hon => by
    obtain ⟨-, hty, hrest⟩ := hels
    rw [decodeAlternative]
    split
    · next hname =>
      refine (decodeTy_reads env hty _ _ (List.cons_ne_nil 0 path)).bind fun y hy ↦ ?_
      cases y with
      | ok k v =>
        obtain ⟨toks, htoks, hread⟩ := hy
        exact .pure ⟨toks, hon.drop k ▸ htoks, 1, v, rfl, .inl ⟨rfl, hname, hread⟩⟩
      | empty k v =>
        obtain ⟨toks, htoks, -⟩ := hy
        exact .pure ⟨toks, hon.drop k ▸ htoks, trivial⟩
      | wmore k => exact .pure trivial
      | fail k => exact .pure trivial
    · refine (decodeAlternative_reads env hrest first path (i + 1) choice hon).mono fun r hr ↦ ?_
      refine hr.mono (fun v toks h ↦ ?_) fun _ _ ↦ id
      obtain ⟨k, w, rfl, h⟩ := h
      exact ⟨k + 1, w, by rw [Nat.add_right_comm, Nat.add_assoc], .inr ⟨k, rfl, h⟩⟩
end

theorem primitiveBody_whole {decode : Text → Option Value} {chunk : Text} {n : ℕ} {v : Value}
    (h : primitiveBody decode chunk = .converted n v) : n = chunk.length := by
  simp only [primitiveBody, BodyResult.ofOption_eq_converted, Option.map_eq_some_iff,
    Prod.mk.injEq] at h
  obtain ⟨-, -, rfl, -⟩ := h
  rfl

theorem plainDecoder_readsWhole (decode : Text → Option Value) (zero : Value)
    (encode : Value → Option Text) : (plainDecoder decode zero encode).ReadsWhole :=
  primitiveBody_whole

theorem stringDecoder_readsWhole (fill : List UInt8 → ℕ → Value)
    (encode : EncoderFlags → ℕ → Value → Option Text) :
    (stringDecoder fill encode).ReadsWhole := by
  intro chunk next n v h
  have h : gserConvert fill chunk next true = .converted n v := h
  unfold gserConvert at h
  split at h
  · simp only [BodyResult.ofOption_eq_converted, convertHexadecimal, Option.map_map,
      Option.map_eq_some_iff, Function.comp_apply, Prod.mk.injEq, if_true] at h
    obtain ⟨s, -, hn, -⟩ := h
    rw [← hn]
    split <;> rfl
  · split at h
    · split at h
      · cases h
        rfl
      · cases h
    · cases h

/-- What a regular run accepts is the notation of the value it returns: the braces are balanced,
and every mandatory member is there with a value of its type. -/
theorem gserDecode_sound {env : Env} {els : Elements} (hels : els.Proper) {buf : Text} {k : ℕ}
    {v : Value} (h : (gserDecode env (.sequence els) buf).res = some (.ok k v))
    (hlog : ∀ e ∈ (gserDecode env (.sequence els) buf).log, e.Regular env) :
    ∃ vs toks, v = .sequence vs ∧
      Tokens env.after (buf.drop (gserWhitespaceSpan buf)) toks (buf.drop k) ∧
      depth 0 toks = some 0 ∧ ReadMembers false els .openBracket vs (toks.filter significant) := by
  obtain ⟨r, hr, hres⟩ := bind_res_eq_some.1 h
  have hreads := decodeElements_reads env hels false [] nofun
    (start_ready env [] (buf.drop (gserWhitespaceSpan buf))) (Cursor.start_on env [] _) (.nil _ _ 0)
    .openBracket 0 [] (log_left hlog) r hr
  cases r with
  | ok n w =>
    obtain ⟨rfl, rfl⟩ : n + gserWhitespaceSpan buf = k ∧ w = v := by simpa using hres
    obtain ⟨toks, htoks, vs, rfl, hvs, hd⟩ := hreads
    rw [List.drop_drop, Nat.add_comm] at htoks
    exact ⟨vs, toks, rfl, htoks, (depth_significant 0 toks).symm.trans hd, hvs⟩
  | _ => cases hres

def flagAndCodes : Elements :=
  .cons (ascii "flag") .mandatory (.prim booleanType)
    (.cons (ascii "codes") .mandatory (.sequenceOf (.prim octetString)) .nil)

theorem gserDecode_sound_flagAndCodes : ∃ vs toks,
    Value.sequence [some (.boolean true), some (.list [])] = .sequence vs ∧
      Tokens 0 (ascii "\x7b flag TRUE, codes \x7b \x7d \x7d") toks [] ∧ depth 0 toks = some 0 ∧
      ReadMembers false flagAndCodes .openBracket vs (toks.filter significant) := by
  have hproper : flagAndCodes.Proper :=
    ⟨by decide, plainDecoder_readsWhole _ _ _, by decide, stringDecoder_readsWhole _ _, trivial⟩
  have hres : (gserDecode ⟨9, 0, fun _ ↦ none⟩ (.sequence flagAndCodes)
      (ascii "\x7b flag TRUE, codes \x7b \x7d \x7d")).res =
        some (.ok 24 (.sequence [some (.boolean true), some (.list [])])) := by
    rfl
  exact gserDecode_sound hproper hres (by decide)

/-- The SEQUENCE OF in `{ a , TRUE { FALSE } }` is accepted, but not as the notation has it. -/
example : ∃ e ∈ (gserDecode ⟨9, 0, fun _ ↦ none⟩ (.sequence (.cons (ascii "a") .mandatory
    (.sequenceOf (.prim booleanType)) .nil)) (ascii "\x7b a , TRUE \x7b FALSE \x7d \x7d")).log,
    ¬ e.Regular ⟨9, 0, fun _ ↦ none⟩ := by
  decide

/-- In `{{ a TRUE }` the outdated closing bracket closes the second brace, and in `{ a } }` the
first closing bracket is taken as the value of the member. -/
theorem gserDecode_unsound : [ascii "\x7b\x7b a TRUE \x7d", ascii "\x7b a \x7d \x7d"].Forall fun buf ↦
    ∃ k v, (gserDecode ⟨9, 0, fun _ ↦ none⟩ (.sequence (.cons (ascii "a") .mandatory
      (.prim booleanType) .nil)) buf).res = some (.ok k v) ∧
    ∀ toks, Tokens 0 (buf.drop (gserWhitespaceSpan buf)) toks (buf.drop k) →
      depth 0 toks ≠ some 0 := by
  constructor
  · refine ⟨11, .sequence [some (.boolean true)], rfl, fun toks htoks ↦ ?_⟩
    rw [htoks.unique (lexTokens_tokens 0 8 _)]
    decide
  · refine ⟨7, .sequence [some (.boolean false)], rfl, fun toks htoks ↦ ?_⟩
    rw [htoks.unique (lexTokens_tokens 0 7 _)]
    decide

end EnbL1Ppc.Gser
