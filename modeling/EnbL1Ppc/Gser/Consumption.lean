import EnbL1Ppc.Gser.Decoder
import EnbL1Ppc.Gser.Primitives

namespace EnbL1Ppc.Gser

open Lib Logged

def Event.On (buf : Text) : Event → Prop
  | .lex _ b => b <:+ buf
  | _ => True

structure Cursor.On (c : Cursor) (buf : Text) : Prop where
  buf_eq : c.buf = buf.drop c.consumed
  consumed_le : c.consumed ≤ buf.length

theorem Cursor.On.suffix {c : Cursor} {buf : Text} (h : c.On buf) : c.buf <:+ buf :=
  h.buf_eq ▸ List.drop_suffix _ _

theorem Cursor.On.drop {c : Cursor} {buf : Text} (h : c.On buf) (n : ℕ) :
    c.buf.drop n = buf.drop (c.consumed + n) := by
  rw [h.buf_eq, List.drop_drop]

theorem Cursor.On.length {c : Cursor} {buf : Text} (h : c.On buf) :
    c.buf.length + c.consumed = buf.length := by
  have hle := h.consumed_le
  rw [h.buf_eq, List.length_drop]
  omega

theorem Cursor.On.advance {c : Cursor} {buf : Text} (h : c.On buf) {n : ℕ}
    (hn : n ≤ c.buf.length) : (c.advance n).On buf := by
  have hlen := h.length
  refine ⟨?_, ?_⟩
  · simp only [Cursor.advance, h.buf_eq, List.drop_drop]
  · simp only [Cursor.advance]
    omega

theorem Cursor.On.setToken {c : Cursor} {buf : Text} (h : c.On buf) (t : Option Token) :
    Cursor.On { c with token := t } buf :=
  ⟨h.buf_eq, h.consumed_le⟩

theorem Cursor.start_on (env : Env) (path : List ℕ) (buf : Text) :
    (Cursor.start env path buf).On buf :=
  ⟨rfl, Nat.zero_le _⟩

def Skipped.On (r : Skipped) (buf : Text) : Prop :=
  r.cursor.On buf ∧ r.size ≤ r.cursor.buf.length

theorem Skipped.On.advanced {r : Skipped} {buf : Text} (h : r.On buf) : r.advanced.On buf :=
  h.1.advance h.2

theorem skipSpaces_records (env : Env) {buf : Text} (n : ℕ) {c : Cursor} (hc : c.On buf) :
    Records (Event.On buf) (Skipped.On · buf) (skipSpaces env n c) := by
  induction n generalizing c with
  | zero => exact .timeout
  | succ n ih =>
    have hle := gserParse_size_le env.after c.state c.buf
    rw [skipSpaces]
    refine .tell_bind hc.suffix (.tellIf_bind (fun _ ↦ trivial) ?_)
    split
    · refine ih (Cursor.On.advance (c := ⟨_, _, c.buf, c.consumed⟩) ?_ hle)
      exact ⟨hc.buf_eq, hc.consumed_le⟩
    · exact .pure ⟨⟨hc.buf_eq, hc.consumed_le⟩, hle⟩

theorem readToken_records {buf : Text} (r : Skipped) :
    Records (Event.On buf) (fun _ ↦ True) (readToken r) :=
  .tellIf_bind (fun _ ↦ trivial) (.pure trivial)

abbrev Inside (buf : Text) (m : Logged Event Rval) : Prop :=
  Records (Event.On buf) (fun r ↦ r.consumed ≤ buf.length) m

theorem Event.On.mono {buf buf' : Text} (h : buf <:+ buf') {e : Event} (he : e.On buf) :
    e.On buf' := by
  cases e with
  | lex st b => exact List.IsSuffix.trans he h
  | _ => trivial

theorem Inside.at_cursor {buf : Text} {c : Cursor} {m : Logged Event Rval} (hc : c.On buf)
    (h : Inside c.buf m) :
    Records (Event.On buf) (fun r ↦ r.consumed ≤ c.buf.length) m :=
  ⟨fun e he ↦ (h.1 e he).mono hc.suffix, h.2⟩

theorem gserDecodeGeneral_inside (env : Env) (p : Primitive) (path : List ℕ) (buf : Text) :
    Inside buf (gserDecodeGeneral env p path buf) := by
  refine (skipSpaces_records env _ (Cursor.start_on env path buf)).bind fun r hr ↦ ?_
  refine (readToken_records r).bind fun token _ ↦ ?_
  have hlen := hr.1.length
  have hsize := hr.2
  split
  · split
    · exact .pure hr.1.consumed_le
    · exact .tell_bind trivial .timeout
    · next n v hn =>
      have hle := p.receive_le hn
      rw [List.length_take] at hle
      split
      · exact .pure hr.1.consumed_le
      · refine .pure ?_
        simp only [Rval.consumed]
        omega
  · split
    · refine .pure ?_
      simp only [Rval.consumed]
      omega
    · exact .pure hr.1.consumed_le

theorem Primitive.wrap_consumed_le (p : Primitive) (r : Rval) :
    (p.wrap r).consumed ≤ r.consumed := by
  cases r with
  | ok n v => exact Nat.le_refl _
  | empty n v => exact Nat.le_refl _
  | wmore n =>
    simp only [Primitive.wrap, Rval.consumed]
    split <;> omega
  | fail n =>
    simp only [Primitive.wrap, Rval.consumed]
    split <;> omega

theorem decodePrimitive_inside (env : Env) (p : Primitive) (path : List ℕ) (buf : Text) :
    Inside buf (decodePrimitive env p path buf) := by
  refine (gserDecodeGeneral_inside env p path buf).bind fun r hr ↦ ?_
  have hw := Nat.le_trans (p.wrap_consumed_le r) hr
  split
  · next n v h =>
    rw [h] at hw
    split
    · exact .pure hw
    · exact .pure (Nat.zero_le _)
  · split
    · exact .tell_bind trivial (.pure hw)
    · exact .pure hw

def Sought.On (buf : Text) : Sought → Prop
  | .text c size _ => c.On buf ∧ size ≤ c.buf.length
  | .done r => r.consumed ≤ buf.length

theorem absentMandatory_records {buf : Text} (name : Text) {c : Cursor} (hc : c.On buf) :
    Records (Event.On buf) (Sought.On buf) (absentMandatory name c) :=
  .tell_bind trivial (.pure hc.consumed_le)

theorem seekMember_records (env : Env) (name : Text) (optional : Bool) {buf : Text} (n : ℕ)
    {c : Cursor} (hc : c.On buf) (braces : ℤ) :
    Records (Event.On buf) (Sought.On buf) (seekMember env name optional n c braces) := by
  induction n generalizing c braces with
  | zero => exact .timeout
  | succ n ih =>
    rw [seekMember]
    refine (skipSpaces_records env _ hc).bind fun r hr ↦ ?_
    split
    · split
      · exact .pure ⟨hr.1.setToken _, Nat.zero_le _⟩
      · exact absentMandatory_records name hr.1
    · split
      · exact ih hr.advanced _
      · exact ih hr.advanced _
      · split
        · exact .pure ⟨hr.1.setToken _, hr.2⟩
        · exact absentMandatory_records name hr.1
      · exact .pure hr
      · exact .tell_bind trivial (.pure hr.1.consumed_le)

theorem closeSequence_inside (env : Env) (v : Value) {buf : Text} (n : ℕ) {c : Cursor}
    (hc : c.On buf) (braces : ℤ) : Inside buf (closeSequence env v n c braces) := by
  induction n generalizing c braces with
  | zero => exact .timeout
  | succ n ih =>
    rw [closeSequence]
    refine (skipSpaces_records env _ hc).bind fun r hr ↦ ?_
    refine (readToken_records r).bind fun token _ ↦ ?_
    split
    · exact .tellIf_bind (fun _ ↦ trivial) (ih hr.advanced _)
    · exact .tellIf_bind (fun _ ↦ trivial) (ih hr.advanced _)
    · refine .tellIf_bind (fun _ ↦ trivial) (.tellIf_bind (fun _ ↦ trivial) ?_)
      split
      · exact .pure hr.advanced.consumed_le
      · exact ih hr.advanced _
    · exact .tell_bind trivial (.pure hr.1.consumed_le)
    · exact .tell_bind trivial (.pure hr.1.consumed_le)

theorem addElement_inside {buf : Text} {c : Cursor} (hc : c.On buf) (braces : ℤ)
    (items : List Value) (moved again : Bool)
    {loop : Cursor → ℤ → List Value → Logged Event Rval}
    (hloop : ∀ {c}, c.On buf → ∀ braces items, Inside buf (loop c braces items)) {x : Rval}
    (hx : x.consumed ≤ c.buf.length) :
    Inside buf (addElement c braces items moved again loop x) := by
  have hlen := hc.length
  have hle : c.consumed + x.consumed ≤ buf.length := by omega
  cases x with
  | ok k v => exact .tellIf_bind (fun _ ↦ trivial) (hloop (hc.advance hx) _ _)
  | empty k v => exact .tell_bind trivial (.pure hle)
  | wmore k => exact .pure hle
  | fail k => exact .pure hle

theorem setOfLoop_inside (env : Env) {element : List ℕ → Text → Logged Event Rval}
    (he : ∀ path buf, Inside buf (element path buf)) (path : List ℕ) {buf : Text} (n : ℕ)
    {c : Cursor} (hc : c.On buf) (braces : ℤ) (items : List Value) :
    Inside buf (setOfLoop env element path n c braces items) := by
  induction n generalizing c braces items with
  | zero => exact .timeout
  | succ n ih =>
    have hadd : ∀ {c : Cursor}, c.On buf → ∀ braces moved again,
        Inside buf (element (items.length :: path) c.buf >>=
          addElement c braces items moved again (setOfLoop env element path n)) := by
      intro c hc braces moved again
      refine (Inside.at_cursor hc (he _ _)).bind fun x hx ↦ ?_
      exact addElement_inside hc braces items moved again ih hx
    rw [setOfLoop]
    refine (skipSpaces_records env _ hc).bind fun r hr ↦ ?_
    split
    · exact .pure hr.1.consumed_le
    · refine .tell_bind trivial ?_
      split
      · exact hadd hr.advanced _ _ _
      · exact hadd hr.advanced _ _ _
      · refine .tellIf_bind (fun _ ↦ trivial) ?_
        split
        · exact .pure hr.advanced.consumed_le
        · exact ih hr.advanced _ _
      · exact hadd hr.1 _ _ _

theorem choiceName_records (env : Env) (first : Option Text) (path : List ℕ) (buf : Text) :
    Records (Event.On buf)
      (fun x ↦ x.1.On buf ∧ ∀ r, x.2 = .inr r → r.consumed ≤ buf.length)
      (choiceName env first path buf) := by
  have hfail : ∀ {c : Cursor}, c.On buf →
      c.On buf ∧ ∀ r, (Sum.inr (.fail c.consumed) : Text ⊕ Rval) = .inr r →
        r.consumed ≤ buf.length := by
    intro c hc
    refine ⟨hc, fun r h ↦ ?_⟩
    cases h
    exact hc.consumed_le
  refine (skipSpaces_records env _ (Cursor.start_on env path buf)).bind fun r hr ↦ ?_
  split
  · exact .pure (hfail hr.1)
  · split
    · refine (skipSpaces_records env _ hr.advanced).bind fun r' hr' ↦ ?_
      split
      · exact .pure (hfail hr'.1)
      · split
        · exact .pure ⟨hr'.advanced, by simp⟩
        · exact .tell_bind trivial (.pure (hfail hr'.1))
    · exact .pure (hfail hr.1)

theorem nextElement_inside {path : List ℕ} {buf : Text} {c : Cursor} (hc : c.On buf) (braces : ℤ)
    (isLast : Bool) (vs : List (Option Value))
    {loop : Cursor → ℤ → List (Option Value) → Logged Event Rval}
    (hloop : Inside buf (loop c braces vs)) :
    Inside buf (nextElement path c braces isLast vs loop) := by
  unfold nextElement
  split
  · exact .tell_bind trivial (.pure hc.consumed_le)
  · exact hloop

mutual
theorem decodeTy_inside (env : Env) :
    ∀ (ty : Ty) (path : List ℕ) (buf : Text), Inside buf (decodeTy env ty path buf)
  | .prim p, path, buf => decodePrimitive_inside env p path buf
  | .sequence elements, path, buf =>
    decodeElements_inside env elements path _ buf (Cursor.start_on env path buf) 0 0 []
  | .sequenceOf element, path, buf =>
    setOfLoop_inside env (decodeTy_inside env element) path _ (Cursor.start_on env path buf) 0 []
  | .choice elements, path, buf => by
    refine (choiceName_records env _ path buf).bind fun x hx ↦ ?_
    split
    · exact decodeAlternative_inside env elements _ path 0 _ hx.1
    · next r h => exact .pure (hx.2 r h)

theorem decodeElements_inside (env : Env) :
    ∀ (elements : Elements) (path : List ℕ) (mark : Token) (start : Text) {buf : Text}
      {c : Cursor}, c.On buf → ∀ (i : ℕ) (braces : ℤ) (vs : List (Option Value)),
        Inside buf (decodeElements env elements path mark start i c braces vs)
  | .nil, _, _, _, _, _, hc, _, braces, vs => by
    rw [decodeElements]
    exact (closeSequence_inside env (.sequence vs) _ hc braces).bind
      fun x hx ↦ .tell_bind trivial (.pure hx)
  | .cons name presence ty rest, path, _, _, buf, c, hc, i, braces, vs => by
    have hnext : ∀ (mark : Token) start {c : Cursor}, c.On buf → ∀ braces vs, Inside buf
        (nextElement path c braces rest.isNil vs
          (decodeElements env rest path mark start (i + 1))) :=
      fun mark start _ hc braces vs ↦ nextElement_inside hc braces _ vs
        (decodeElements_inside env rest path mark start hc (i + 1) braces vs)
    rw [decodeElements]
    refine (seekMember_records env name _ _ hc braces).bind fun x hx ↦ ?_
    split
    · exact .pure hx
    · split
      · refine .tell_bind trivial
          ((Inside.at_cursor (hx.1.advance hx.2) (decodeTy_inside env ty _ _)).bind fun y hy ↦ ?_)
        split
        · exact hnext _ _ ((hx.1.advance hx.2).advance hy) _ _
        · exact .tell_bind trivial (hnext _ _ ((hx.1.advance hx.2).advance hy) _ _)
        · exact .pure (hx.1.advance hx.2).consumed_le
        · exact .pure (hx.1.advance hx.2).consumed_le
      · split
        · exact hnext _ _ hx.1 _ _
        · exact .tell_bind trivial (.pure hx.1.consumed_le)

theorem decodeAlternative_inside (env : Env) :
    ∀ (elements : Elements) (first : Option Text) (path : List ℕ) (i : ℕ) (choice : Text)
      {buf : Text} {c : Cursor}, c.On buf →
        Inside buf (decodeAlternative env elements first path i choice c)
  | .nil, _, _, _, _, _, _, hc => .tell_bind trivial (.pure hc.consumed_le)
  | .cons name _ ty rest, first, path, i, choice, buf, c, hc => by
    have hlen := hc.length
    rw [decodeAlternative]
    split
    · refine (Inside.at_cursor hc (decodeTy_inside env ty _ _)).bind fun y hy ↦ ?_
      have hle : c.consumed + y.consumed ≤ buf.length := by omega
      cases y <;> exact .pure hle
    · exact decodeAlternative_inside env rest first path (i + 1) choice hc
end

theorem gserWhitespaceSpan_le (buf : Text) : gserWhitespaceSpan buf ≤ buf.length :=
  (List.takeWhile_prefix _).length_le

theorem gserDecode_inside (env : Env) (ty : Ty) (buf : Text) :
    Inside buf (gserDecode env ty buf) := by
  have hle := gserWhitespaceSpan_le buf
  have hin := decodeTy_inside env ty [] (buf.drop (gserWhitespaceSpan buf))
  refine Records.bind ⟨fun e he ↦ (hin.1 e he).mono (List.drop_suffix _ _), hin.2⟩ fun r hr ↦ ?_
  rw [List.length_drop] at hr
  split
  · refine .pure ?_
    simp only [Rval.consumed] at hr ⊢
    omega
  · exact .pure hle

/-- No decoder consumes more than it was given, neither the outermost one nor any that it
calls. -/
theorem gserDecode_consumed_le (env : Env) (ty : Ty) (buf : Text) :
    (∀ n v, (gserDecode env ty buf).res = some (.ok n v) → n ≤ buf.length) ∧
      ∀ (inner : Ty) (path : List ℕ) (given : Text) (r : Rval),
        (decodeTy env inner path given).res = some r → r.consumed ≤ given.length :=
  ⟨fun _ _ h ↦ (gserDecode_inside env ty buf).2 _ h,
    fun inner path given r h ↦ (decodeTy_inside env inner path given).2 r h⟩

theorem gserDecode_consumed_le_flag :
    ∃ v, (gserDecode ⟨9, 0, fun _ ↦ none⟩ (.sequence (.cons (ascii "a") .mandatory
        (.prim booleanType) .nil)) (ascii "\x7ba TRUE\x7d")).res = some (.ok 8 v) ∧
      8 ≤ (ascii "\x7ba TRUE\x7d").length := by
  have hres : (gserDecode ⟨9, 0, fun _ ↦ none⟩ (.sequence (.cons (ascii "a") .mandatory
      (.prim booleanType) .nil)) (ascii "\x7ba TRUE\x7d")).res =
        some (.ok 8 (.sequence [some (.boolean true)])) := rfl
  exact ⟨_, hres, (gserDecode_consumed_le _ _ _).1 _ _ hres⟩

end EnbL1Ppc.Gser
