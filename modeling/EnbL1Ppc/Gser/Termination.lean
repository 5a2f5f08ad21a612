import EnbL1Ppc.Gser.Bounds
import EnbL1Ppc.Gser.Divergence
import EnbL1Ppc.Gser.Primitives

namespace EnbL1Ppc.Gser

open Lib Logged

structure AtToken (env : Env) (buf : Text) (t : Token) (size : ℕ) : Prop where
  parse : gserParse env.after .initial buf = ⟨.initial, some t, size⟩
  pos : size ≠ 0
  ne_space : t ≠ .space
  ne_mark : t ≠ .openBracket ∧ t ≠ .closeBracket ∧ t ≠ .comma

section AtToken

variable {env : Env} {buf : Text} {t : Token} {size : ℕ}

theorem AtToken.skipSpaces (h : AtToken env buf t size) (n : ℕ) (token : Option Token)
    (consumed : ℕ) : (Gser.skipSpaces env (n + 1) ⟨.initial, token, buf, consumed⟩).res =
      some ⟨⟨.initial, some t, buf, consumed⟩, size, true⟩ := by
  rw [Gser.skipSpaces, h.parse]
  simp [h.ne_space, Logged.tellIf]

theorem decodePrimitive_path (h : AtToken env buf t size) (p : Primitive) (path path' : List ℕ) :
    (decodePrimitive env p path buf).res = (decodePrimitive env p path' buf).res := by
  have hgen : (gserDecodeGeneral env p path buf).res = (gserDecodeGeneral env p path' buf).res := by
    unfold gserDecodeGeneral
    cases env.bound with
    | zero => rfl
    | succ b =>
      have hstart : ∀ path, (skipSpaces env (b + 1) (.start env path buf)).res =
          some ⟨⟨.initial, some t, buf, 0⟩, size, true⟩ := fun _ ↦ h.skipSpaces b _ 0
      rw [bind_res (hstart path), bind_res (hstart path')]
  unfold decodePrimitive
  cases hr : (gserDecodeGeneral env p path' buf).res with
  | none => rw [bind_of_none hr, bind_of_none (hgen.trans hr)]
  | some r => rw [bind_res hr, bind_res (hgen.trans hr)]

theorem seekMember_atToken (h : AtToken env buf t size) (hb : env.bound ≠ 0) (name : Text)
    (optional : Bool) (token : Option Token) (consumed : ℕ) (braces : ℤ) :
    (seekMember env name optional env.bound ⟨.initial, token, buf, consumed⟩ braces).res =
      some (if t = .text then .text ⟨.initial, some .text, buf, consumed⟩ size braces
        else .done (.fail consumed)) := by
  obtain ⟨b, hb⟩ := Nat.exists_eq_succ_of_ne_zero hb
  obtain ⟨hopen, hclose, hcomma⟩ := h.ne_mark
  rw [hb, seekMember, hb, bind_res (h.skipSpaces b _ _), if_neg h.pos]
  cases t <;> simp_all

theorem closeSequence_atToken (h : AtToken env buf t size) (hb : env.bound ≠ 0) (v : Value)
    (token : Option Token) (consumed : ℕ) (braces : ℤ) :
    (closeSequence env v env.bound ⟨.initial, token, buf, consumed⟩ braces).res =
      some (.fail consumed) := by
  obtain ⟨b, hb⟩ := Nat.exists_eq_succ_of_ne_zero hb
  obtain ⟨hopen, hclose, hcomma⟩ := h.ne_mark
  rw [hb, closeSequence, hb, bind_res (h.skipSpaces b _ _), bind_res (readToken_res _)]
  cases t <;> simp_all

theorem decodeElements_idle (h : AtToken env buf t size) (hb : env.bound ≠ 0) {v : Value} :
    ∀ {els : Elements} {path path' : List ℕ} {mark mark' : Token} {start start' : Text} {i i' : ℕ}
      {token token' : Option Token} {vs : List (Option Value)},
      (decodeElements env els path mark start i ⟨.initial, token, buf, 0⟩ 0 vs).res =
        some (.ok 0 v) →
      (decodeElements env els path' mark' start' i' ⟨.initial, token', buf, 0⟩ 0 vs).res =
        some (.ok 0 v)
  | .nil, _, _, _, _, _, _, _, _, _, _, _, hok => by
    rw [decodeElements, bind_res (closeSequence_atToken h hb _ _ _ _)] at hok
    cases hok
  | .cons name presence ty rest, path, path', _, _, _, _, i, i', token, token', vs, hok => by
    rw [decodeElements, bind_res (seekMember_atToken h hb _ _ _ _ _)] at hok
    rw [decodeElements, bind_res (seekMember_atToken h hb _ _ _ _ _)]
    by_cases ht : t = .text
    · rw [if_pos ht] at hok ⊢
      dsimp only at hok ⊢
      by_cases hname : size = name.length ∧ buf.take size = name
      · -- the name is consumed before the value
        exfalso
        rw [if_pos hname, tell_bind_res] at hok
        obtain ⟨y, -, hok⟩ := bind_res_eq_some.1 hok
        have hnext : ∀ (mark : Token) start k vs, Consumes 1 (nextElement path
            ((Cursor.advance ⟨.initial, some .text, buf, 0⟩ size).advance k) 0 rest.isNil vs
            (decodeElements env rest path mark start (i + 1))) := by
          intro mark start k vs
          have hpos := h.pos
          have hle : 1 ≤ ((Cursor.advance ⟨.initial, some .text, buf, 0⟩ size).advance k).consumed := by
            simp only [Cursor.advance]
            omega
          unfold nextElement
          split
          · exact .tell_bind trivial (.pure hle)
          · exact (decodeElements_consumes path rest mark start (i + 1) _ 0 vs).le hle
        cases y with
        | ok k w => exact Nat.not_succ_le_zero _ ((hnext _ _ k _).2 _ hok)
        | empty k w =>
          rw [tell_bind_res] at hok
          exact Nat.not_succ_le_zero _ ((hnext _ _ k _).2 _ hok)
        | wmore k => cases hok
        | fail k => cases hok
      · rw [if_neg hname] at hok ⊢
        by_cases hopt : presence.isOptional = true
        · rw [if_pos hopt] at hok ⊢
          unfold nextElement at hok ⊢
          by_cases hlast : (0 : ℤ) = 0 ∧ rest.isNil = true
          · rw [if_pos hlast] at hok ⊢
            exact hok
          · rw [if_neg hlast] at hok ⊢
            exact decodeElements_idle h hb hok
        · rw [if_neg hopt] at hok
          cases hok
    · rw [if_neg ht] at hok
      cases hok

theorem decodeTy_idle (h : AtToken env buf t size) (hb : env.bound ≠ 0) {ty : Ty}
    {path : List ℕ} {v : Value} (hok : (decodeTy env ty path buf).res = some (.ok 0 v))
    (path' : List ℕ) : (decodeTy env ty path' buf).res = some (.ok 0 v) := by
  cases ty with
  | prim p => exact (decodePrimitive_path h p path' path).trans hok
  | sequence els => exact decodeElements_idle h hb hok
  | sequenceOf ty =>
    exact absurd ((setOfLoop_consumes _ path _ _ _ _).2 _ hok) (Nat.not_succ_le_zero 0)
  | choice els =>
    exact absurd ((decodeChoice_consumes els path buf).2 _ hok) (Nat.not_succ_le_zero 0)

end AtToken

def IdleAgain (env : Env) (element : List ℕ → Text → Logged Event Rval) : Prop :=
  ∀ {buf t size}, AtToken env buf t size → ∀ {path v}, (element path buf).res = some (.ok 0 v) →
    ∀ path', (element path' buf).res = some (.ok 0 v)

theorem setOfLoop_idle {env : Env} {element : List ℕ → Text → Logged Event Rval}
    (hel : IdleAgain env element) {buf : Text} {t : Token} {size : ℕ}
    (h : AtToken env buf t size) {p : List ℕ} {v : Value}
    (hok : (element p buf).res = some (.ok 0 v)) (path : List ℕ) (n : ℕ) (token : Option Token)
    (consumed : ℕ) (braces : ℤ) (items : List Value) :
    (setOfLoop env element path n ⟨.initial, token, buf, consumed⟩ braces items).res = none := by
  induction n generalizing token items with
  | zero => rfl
  | succ n ih =>
    obtain ⟨hopen, hclose, hcomma⟩ := h.ne_mark
    have hround : (element (items.length :: path) buf >>= addElement
        ⟨.initial, some t, buf, consumed⟩ braces items false (Skipped.again env
          ⟨⟨.initial, some t, buf, consumed⟩, size, true⟩) (setOfLoop env element path n)).res =
        none := by
      rw [bind_res (hel h hok _), addElement, tellIf_bind_res]
      exact ih _ _
    rw [setOfLoop]
    cases hb : env.bound with
    | zero => rw [bind_of_none rfl]
    | succ b =>
      rw [bind_res (h.skipSpaces b _ _), if_neg h.pos, tell_bind_res]
      cases t <;> first | exact hround | simp_all

theorem Skipped.LastCall.atToken {env : Env} {r : Skipped} (h : r.LastCall env) (hs : r.size ≠ 0)
    (hm : r.cursor.token ≠ some .openBracket ∧ r.cursor.token ≠ some .closeBracket ∧
      r.cursor.token ≠ some .comma) (ha : r.again env = true) :
    ∃ t, r.cursor = ⟨.initial, some t, r.cursor.buf, r.cursor.consumed⟩ ∧
      AtToken env r.cursor.buf t r.size := by
  obtain ⟨-, -, -, -, -, -, hspace⟩ := h
  simp only [Skipped.again, decide_eq_true_eq] at ha
  obtain ⟨t, ht⟩ := Option.ne_none_iff_exists'.1 ha.1
  have hp := ha.2
  have hne : t ≠ .space := by
    rintro rfl
    exact hspace ⟨Nat.pos_of_ne_zero hs, ht⟩
  rw [ht] at hp hm
  have hstate := gserParse_state hp hne
  rw [hstate] at hp
  refine ⟨t, ?_, hp, hs, hne, by simpa using hm⟩
  obtain ⟨⟨state, token, buf, consumed⟩, size, delivered⟩ := r
  simp_all

theorem addElement_doomed {c : Cursor} {braces : ℤ} {items : List Value} {moved again : Bool}
    {loop : Cursor → ℤ → List Value → Logged Event Rval} {x : Rval}
    (hloop : ∀ c braces items, Doomed Event.Fatal (loop c braces items))
    (hidle : moved = false → again = true → ∀ v, x = .ok 0 v →
      (loop (c.advance 0) braces (items ++ [v])).res = none) :
    Doomed Event.Fatal (addElement c braces items moved again loop x) := by
  cases x with
  | ok k v =>
    refine .tellIf_bind (fun hk hE ↦ ?_) (hloop _ _ _)
    obtain ⟨hm, rfl⟩ := hk
    exact hidle hm hE v rfl
  | empty k v => exact .tell_bind (fun hE ↦ hE.elim) (.pure _)
  | wmore k => exact .pure _
  | fail k => exact .pure _

theorem setOfLoop_doomed {env : Env} {element : List ℕ → Text → Logged Event Rval}
    (hel : IdleAgain env element) (hd : ∀ path buf, Doomed Event.Fatal (element path buf))
    (path : List ℕ) (n : ℕ) (c : Cursor) (braces : ℤ) (items : List Value) :
    Doomed Event.Fatal (setOfLoop env element path n c braces items) := by
  induction n generalizing c braces items with
  | zero => exact .timeout
  | succ n ih =>
    have hadd : ∀ (c : Cursor) braces again, Doomed Event.Fatal
        (element (items.length :: path) c.buf >>=
          addElement c braces items true again (setOfLoop env element path n)) :=
      fun c braces again ↦ (hd _ _).bind fun x _ ↦
        addElement_doomed ih fun hm ↦ absurd hm (by decide)
    rw [setOfLoop]
    refine .records_bind (skipSpaces_quiet env _ c) fun r hr ↦ ?_
    split
    · exact .pure _
    · next hsize =>
      refine .tell_bind False.elim ?_
      split
      · exact hadd _ _ _
      · exact hadd _ _ _
      · refine .tellIf_bind (fun _ hE ↦ hE.elim) ?_
        split
        · exact .pure _
        · exact ih _ _ _
      · next hopen hcomma hclose =>
        refine (hd _ _).bind fun x hx ↦ addElement_doomed ih fun _ ha v hv ↦ ?_
        obtain ⟨t, hcur, ht⟩ := hr.atToken hsize ⟨hopen, hclose, hcomma⟩ ha
        rw [hv] at hx
        rw [hcur]
        exact setOfLoop_idle hel ht hx path n _ _ _ _

theorem seekMember_quiet (env : Env) (name : Text) (optional : Bool) (n : ℕ) (c : Cursor)
    (braces : ℤ) :
    Records (fun e ↦ ¬ e.Fatal) (fun _ ↦ True) (seekMember env name optional n c braces) := by
  induction n generalizing c braces with
  | zero => exact .timeout
  | succ n ih =>
    rw [seekMember]
    refine (skipSpaces_quiet env _ c).bind fun r _ ↦ ?_
    split
    · split
      · exact .pure trivial
      · exact .tell_bind id (.pure trivial)
    · split
      · exact ih _ _
      · exact ih _ _
      · split
        · exact .pure trivial
        · exact .tell_bind id (.pure trivial)
      · exact .pure trivial
      · exact .tell_bind id (.pure trivial)

theorem decodePrimitive_doomed (env : Env) (p : Primitive) (path : List ℕ) (buf : Text) :
    Doomed Event.Fatal (decodePrimitive env p path buf) := by
  have hgen : Doomed Event.Fatal (gserDecodeGeneral env p path buf) := by
    refine .records_bind (skipSpaces_quiet env _ _) fun r _ ↦ ?_
    refine .records_bind (readToken_quiet r) fun token _ ↦ ?_
    split
    · split
      · exact .pure _
      · exact .tell_bind (fun _ ↦ rfl) .timeout
      · split <;> exact .pure _
    · split <;> exact .pure _
  refine hgen.bind fun r _ ↦ ?_
  split
  · split <;> exact .pure _
  · split
    · exact .tell_bind False.elim (.pure _)
    · exact .pure _

theorem choiceName_quiet (env : Env) (first : Option Text) (path : List ℕ) (buf : Text) :
    Records (fun e ↦ ¬ e.Fatal) (fun _ ↦ True) (choiceName env first path buf) := by
  refine (skipSpaces_quiet env _ _).bind fun r _ ↦ ?_
  split
  · exact .pure trivial
  · split
    · refine (skipSpaces_quiet env _ _).bind fun r' _ ↦ ?_
      split
      · exact .pure trivial
      · split
        · exact .pure trivial
        · exact .tell_bind id (.pure trivial)
    · exact .pure trivial

mutual
theorem decodeTy_doomed (env : Env) : ∀ (ty : Ty) (path : List ℕ) (buf : Text),
    Doomed Event.Fatal (decodeTy env ty path buf)
  | .prim p, path, buf => decodePrimitive_doomed env p path buf
  | .sequence els, path, buf => decodeElements_doomed env els path _ buf 0 _ 0 []
  | .sequenceOf ty, path, buf => by
    by_cases hb : env.bound = 0
    · rw [decodeTy, hb]
      exact .timeout
    · exact setOfLoop_doomed (fun h _ _ hok ↦ decodeTy_idle h hb hok) (decodeTy_doomed env ty)
        path _ _ 0 []
  | .choice els, path, buf => by
    refine .records_bind (choiceName_quiet env _ path buf) fun x _ ↦ ?_
    split
    · exact decodeAlternative_doomed env els _ path 0 _ _
    · exact .pure _

theorem decodeElements_doomed (env : Env) : ∀ (els : Elements) (path : List ℕ) (mark : Token)
    (start : Text) (i : ℕ) (c : Cursor) (braces : ℤ) (vs : List (Option Value)),
    Doomed Event.Fatal (decodeElements env els path mark start i c braces vs)
  | .nil, _, _, _, _, c, braces, vs => by
    rw [decodeElements]
    exact (closeSequence_doomed env _ _ c braces).bind fun x _ ↦ .tell_bind False.elim (.pure x)
  | .cons name presence ty rest, path, _, _, i, c, braces, vs => by
    have hnext : ∀ (mark : Token) start (c : Cursor) braces vs, Doomed Event.Fatal
        (nextElement path c braces rest.isNil vs
          (decodeElements env rest path mark start (i + 1))) := by
      intro mark start c braces vs
      unfold nextElement
      split
      · exact .tell_bind (fun hE ↦ hE.elim) (.pure _)
      · exact decodeElements_doomed env rest path mark start (i + 1) c braces vs
    rw [decodeElements]
    refine .records_bind (seekMember_quiet env _ _ _ c braces) fun x _ ↦ ?_
    split
    · exact .pure _
    · split
      · refine .tell_bind False.elim ((decodeTy_doomed env ty _ _).bind fun y _ ↦ ?_)
        split
        · exact hnext _ _ _ _ _
        · exact .tell_bind (fun hE ↦ hE.elim) (hnext _ _ _ _ _)
        · exact .pure _
        · exact .pure _
      · split
        · exact hnext _ _ _ _ _
        · exact .tell_bind (fun hE ↦ hE.elim) (.pure _)

theorem decodeAlternative_doomed (env : Env) : ∀ (els : Elements) (first : Option Text)
    (path : List ℕ) (i : ℕ) (choice : Text) (c : Cursor),
    Doomed Event.Fatal (decodeAlternative env els first path i choice c)
  | .nil, _, _, _, _, _ => .tell_bind (fun hE ↦ hE.elim) (.pure _)
  | .cons name _ ty rest, first, path, i, choice, c => by
    rw [decodeAlternative]
    split
    · refine (decodeTy_doomed env ty _ _).bind fun y _ ↦ ?_
      cases y <;> exact .pure _
    · exact decodeAlternative_doomed env rest first path (i + 1) choice c
end

theorem gserDecode_diverges {env : Env} {ty : Ty} {buf : Text} {N : ℕ} {e : Event}
    (he : e ∈ (gserDecode (env.withBound N) ty buf).log) (hE : e.Fatal) (N' : ℕ) :
    (gserDecode (env.withBound N') ty buf).res = none := by
  have hdoomed : ∀ N, Doomed Event.Fatal (gserDecode (env.withBound N) ty buf) := by
    intro N
    refine (decodeTy_doomed _ ty [] _).bind fun r _ ↦ ?_
    split <;> exact .pure _
  have hmax : (gserDecode (env.withBound (max N N')) ty buf).res = none :=
    hdoomed _ ⟨e, (gserDecode_cut env (Nat.le_max_left N N') ty buf).mem_log he, hE⟩
  cases hr : (gserDecode (env.withBound N') ty buf).res with
  | none => rfl
  | some r =>
    rw [(gserDecode_cut env (Nat.le_max_right N N') ty buf).eq_of_res hr, hmax] at hr
    cases hr

/-- As long as every round gets further and no assertion fails, the decoder returns, and a bound of
twice the length of the buffer is never reached. If a loop comes back to the place where it was,
with the token it had, or an assertion fails, the decoder does not return. -/
theorem gserDecode_returns (env : Env) (ty : Ty) (buf : Text) :
    ((∀ e ∈ (gserDecode (env.withBound (2 * buf.length + 1)) ty buf).log, e.Progresses) →
      ∃ r, ∀ N, 2 * buf.length < N → (gserDecode (env.withBound N) ty buf).res = some r) ∧
    ∀ N, ∀ e ∈ (gserDecode (env.withBound N) ty buf).log, e.Fatal →
      ∀ N', (gserDecode (env.withBound N') ty buf).res = none := by
  constructor
  · intro he
    have hfin : Finishes (gserDecode (env.withBound (2 * buf.length + 1)) ty buf) :=
      gserDecode_finishes ty (Nat.lt_succ_self _)
    obtain ⟨r, hr, -⟩ := hfin he
    refine ⟨r, fun N hN ↦ ?_⟩
    rw [← (gserDecode_cut env hN ty buf).eq_of_res hr, hr]
  · intro N e he hE N'
    exact gserDecode_diverges he hE N'

/-- The text `{a TRUE,`, cut off behind the comma. -/
theorem gserDecode_never_returns : (fun N ↦ (gserDecode ⟨N, 0, fun _ ↦ none⟩
    (.sequence (.cons (ascii "a") .mandatory (.prim booleanType) .nil))
    (ascii "\x7ba TRUE,")).res) = fun _ ↦ none := by
  have hstuck : (gserDecode (Env.withBound ⟨0, 0, fun _ ↦ none⟩ 4)
      (.sequence (.cons (ascii "a") .mandatory (.prim booleanType) .nil))
      (ascii "\x7ba TRUE,")).log[8]? = some .stuck := by
    rfl
  exact funext (gserDecode_diverges (List.mem_of_getElem? hstuck) trivial)

/-- The bits `101` without quotes and letter. -/
example (N : ℕ) : (gserDecode ⟨N, 0, fun _ ↦ none⟩
    (.sequence (.cons (ascii "a") .mandatory (.prim octetString) .nil))
    (ascii "\x7b a 101 \x7d")).res = none := by
  have habort : (gserDecode (Env.withBound ⟨0, 0, fun _ ↦ none⟩ 4)
      (.sequence (.cons (ascii "a") .mandatory (.prim octetString) .nil))
      (ascii "\x7b a 101 \x7d")).log[6]? = some .abort := by
    rfl
  exact gserDecode_diverges (List.mem_of_getElem? habort) trivial N

end EnbL1Ppc.Gser
