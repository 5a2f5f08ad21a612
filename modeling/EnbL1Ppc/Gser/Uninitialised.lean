import EnbL1Ppc.Gser.Bounds
import EnbL1Ppc.Gser.Lexemes
import EnbL1Ppc.Gser.Primitives

namespace EnbL1Ppc.Gser

open Lib Logged

/-!
Two runs that differ in what the uninitialised token variables hold. One of them has numbers in
them that are no tokens.
-/

def Env.noToken (env : Env) : Env :=
  { env with junk := fun _ ↦ none }

def Event.IsStale (e : Event) : Prop :=
  e = .stale

def Rval.IsFail : Rval → Prop
  | .fail _ => True
  | _ => False

/-- The run `m` without tokens in the variables and another run are the same, unless the first
one reads a variable that has not been assigned, and fails. -/
abbrev Agree (m m' : Logged Event Rval) : Prop :=
  SameUnless Event.IsStale Rval.IsFail m m'

theorem Rval.isFail_iff {r : Rval} : r.IsFail ↔ ∃ k, r = .fail k := by
  cases r <;> simp [Rval.IsFail]

section Loops

variable (env : Env)

theorem skipSpaces_noToken (n : ℕ) (c : Cursor) :
    skipSpaces env.noToken n c = skipSpaces env n c := by
  induction n generalizing c with
  | zero => rfl
  | succ n ih =>
    simp only [skipSpaces, ih]
    rfl

theorem skipSpaces_assigned {buf : Text} (h : (gserParse env.after .initial buf).token ≠ none)
    (n k : ℕ) (t t' : Option Token) :
    skipSpaces env n ⟨.initial, t, buf, k⟩ = skipSpaces env n ⟨.initial, t', buf, k⟩ := by
  cases n with
  | zero => rfl
  | succ n =>
    obtain ⟨t₁, ht₁⟩ := Option.ne_none_iff_exists'.1 h
    simp only [skipSpaces, ht₁, Option.some_or]

theorem skipSpaces_unassigned {buf : Text} (h : (gserParse env.after .initial buf).token = none)
    (n k : ℕ) {t : Option Token}
    (ht : (gserParse env.after .initial buf).size = 0 ∨ t ≠ some .space) :
    skipSpaces env (n + 1) ⟨.initial, t, buf, k⟩ =
      ⟨.lex .initial buf :: if 0 < (gserParse env.after .initial buf).size then [.stale] else [],
        some ⟨⟨(gserParse env.after .initial buf).state, t, buf, k⟩,
          (gserParse env.after .initial buf).size, false⟩⟩ := by
  have hstop : ¬ (0 < (gserParse env.after .initial buf).size ∧ t = some .space) := by
    rintro ⟨hpos, heq⟩
    rcases ht with ht | ht
    · omega
    · exact ht heq
  simp only [skipSpaces, h, Option.none_or, if_neg hstop, and_true, tellIf]
  split <;> rfl

/-- With no token in the variable of a decoder, the loop that skips spaces on its buffer ends
with the first call, which assigns nothing. -/
def Unseen (buf : Text) (st : PState) (size : ℕ) : Prop :=
  ∀ path, skipSpaces env.noToken env.bound (.start env.noToken path buf) =
    ⟨.lex .initial buf :: if 0 < size then [.stale] else [],
      some ⟨⟨st, none, buf, 0⟩, size, false⟩⟩

theorem skipSpaces_start (path : List ℕ) (buf : Text) :
    skipSpaces env env.bound (.start env path buf) =
      skipSpaces env.noToken env.bound (.start env.noToken path buf) ∨
    ∃ st size, Unseen env buf st size ∧
      (size = 0 → skipSpaces env env.bound (.start env path buf) =
        ⟨[.lex .initial buf], some ⟨⟨st, env.junk path, buf, 0⟩, 0, false⟩⟩) := by
  unfold Unseen
  simp only [skipSpaces_noToken]
  by_cases h : (gserParse env.after .initial buf).token = none
  · cases env.bound with
    | zero => exact .inl rfl
    | succ n =>
      refine .inr ⟨_, _, fun _ ↦ skipSpaces_unassigned env h n 0 (.inr nofun), fun hsize ↦ ?_⟩
      refine (skipSpaces_unassigned env h n 0 (.inl hsize)).trans ?_
      rw [hsize]
      rfl
  · exact .inl (skipSpaces_assigned env h _ _ _ _)

end Loops

theorem stale_mem_readToken {r : Skipped} (h : r.size = 0) (hd : r.delivered = false) :
    .stale ∈ (readToken r).log := by
  rw [readToken, tellIf, if_pos ⟨h, hd⟩, tell_bind_log]
  exact List.mem_cons_self

theorem decodePrimitive_fail {env : Env} {p : Primitive} {path : List ℕ} {buf : Text} {k : ℕ}
    (h : (gserDecodeGeneral env p path buf).res = some (.fail k)) :
    ∃ k', (decodePrimitive env p path buf).res = some (.fail k') := by
  rw [decodePrimitive, bind_res h]
  dsimp only [Primitive.wrap]
  cases p.xmlTag with
  | none => exact ⟨_, rfl⟩
  | some tag => exact ⟨_, rfl⟩

section Unseen

variable {env : Env} {buf : Text} {st : PState} {size : ℕ} (h : Unseen env buf st size)
include h

theorem Unseen.exists_bound : ∃ n, env.bound = n + 1 ∧ env.noToken.bound = n + 1 := by
  have hne : env.bound ≠ 0 := by
    intro h0
    have hrun := h []
    rw [h0] at hrun
    cases hrun
  obtain ⟨n, hn⟩ := Nat.exists_eq_succ_of_ne_zero hne
  exact ⟨n, hn, hn⟩

theorem Unseen.skipSpaces_res (path : List ℕ) :
    (skipSpaces env.noToken env.noToken.bound (.start env.noToken path buf)).res =
      some ⟨⟨st, none, buf, 0⟩, size, false⟩ :=
  congrArg Logged.res (h path)

theorem Unseen.stale_mem {α : Type} (hsize : size ≠ 0) (path : List ℕ)
    (f : Skipped → Logged Event α) :
    .stale ∈ (skipSpaces env.noToken env.bound (.start env.noToken path buf) >>= f).log := by
  rw [h path]
  exact mem_bind_log.2 (.inl (by simp [Nat.pos_of_ne_zero hsize]))

theorem Unseen.stale_mem_readToken {α : Type} (path : List ℕ)
    (f : Skipped → Option Token → Logged Event α) :
    .stale ∈ (skipSpaces env.noToken env.bound (.start env.noToken path buf) >>=
      fun r ↦ readToken r >>= f r).log := by
  by_cases hsize : size = 0
  · refine mem_bind_log.2 (.inr ⟨_, by rw [h path], mem_bind_log.2 (.inl ?_)⟩)
    exact Gser.stale_mem_readToken hsize rfl
  · exact h.stale_mem hsize path _

theorem Unseen.gserDecodeGeneral_res (p : Primitive) (path : List ℕ) :
    (gserDecodeGeneral env.noToken p path buf).res = some (.fail 0) := by
  rw [gserDecodeGeneral, bind_res (h.skipSpaces_res path), bind_res (readToken_res _)]
  rfl

theorem Unseen.closeSequence_res (v : Value) (path : List ℕ) (braces : ℤ) :
    (closeSequence env.noToken v env.noToken.bound (.start env.noToken path buf) braces).res =
      some (.fail 0) := by
  obtain ⟨n, -, hbound⟩ := h.exists_bound
  nth_rewrite 1 [hbound]
  rw [closeSequence, bind_res (h.skipSpaces_res path), bind_res (readToken_res _)]
  rfl

theorem Unseen.seekMember_res (hsize : size ≠ 0) (name : Text) (optional : Bool) (path : List ℕ)
    (braces : ℤ) : (seekMember env.noToken name optional env.noToken.bound
      (.start env.noToken path buf) braces).res = some (.done (.fail 0)) := by
  obtain ⟨n, -, hbound⟩ := h.exists_bound
  nth_rewrite 1 [hbound]
  rw [seekMember, bind_res (h.skipSpaces_res path), if_neg hsize]
  rfl

theorem Unseen.setOfLoop_res (hsize : size ≠ 0) {element : List ℕ → Text → Logged Event Rval}
    (he : ∀ path, ∃ k, (element path buf).res = some (.fail k)) (path : List ℕ) :
    ∃ k, (setOfLoop env.noToken element path env.noToken.bound (.start env.noToken path buf) 0
      []).res = some (.fail k) := by
  obtain ⟨n, -, hbound⟩ := h.exists_bound
  obtain ⟨k, hk⟩ := he (0 :: path)
  refine ⟨0 + k, ?_⟩
  nth_rewrite 1 [hbound]
  rw [setOfLoop, bind_res (h.skipSpaces_res path), if_neg hsize, tell_bind_res]
  exact bind_res hk _

theorem Unseen.choiceName_res (first : Option Text) (path : List ℕ) :
    (choiceName env.noToken first path buf).res = some (⟨st, none, buf, 0⟩, .inr (.fail 0)) := by
  rw [choiceName, bind_res (h.skipSpaces_res path)]
  split <;> rfl

theorem Unseen.decodePrimitive_res (p : Primitive) (path : List ℕ) :
    ∃ k, (decodePrimitive env.noToken p path buf).res = some (.fail k) :=
  decodePrimitive_fail (h.gserDecodeGeneral_res p path)

theorem Unseen.decodeTy_res (hsize : size ≠ 0) : ∀ (ty : Ty) (path : List ℕ),
    ∃ k, (decodeTy env.noToken ty path buf).res = some (.fail k)
  | .prim p, path => h.decodePrimitive_res p path
  | .sequence .nil, path =>
    ⟨0, by rw [decodeTy, decodeElements, bind_res (h.closeSequence_res _ path 0)]; rfl⟩
  | .sequence (.cons name presence ty rest), path =>
    ⟨0, by rw [decodeTy, decodeElements, bind_res (h.seekMember_res hsize name _ path 0)]; rfl⟩
  | .sequenceOf ty, path => h.setOfLoop_res hsize (Unseen.decodeTy_res hsize ty) path
  | .choice els, path => ⟨0, by rw [decodeTy, bind_res (h.choiceName_res _ path)]; rfl⟩

end Unseen

section Decoders

variable (env : Env)

theorem gserDecodeGeneral_agree (p : Primitive) (path : List ℕ) (buf : Text) :
    Agree (gserDecodeGeneral env.noToken p path buf) (gserDecodeGeneral env p path buf) := by
  rcases skipSpaces_start env path buf with heq | ⟨st, size, h, -⟩
  · left
    unfold gserDecodeGeneral
    rw [heq]
    rfl
  · exact .inr ⟨⟨.stale, h.stale_mem_readToken path _, rfl⟩, .fail 0,
      h.gserDecodeGeneral_res p path, trivial⟩

theorem decodePrimitive_agree (p : Primitive) (path : List ℕ) (buf : Text) :
    Agree (decodePrimitive env.noToken p path buf) (decodePrimitive env p path buf) := by
  rcases gserDecodeGeneral_agree env p path buf with heq | ⟨⟨e, he, hE⟩, r, hr, hfail⟩
  · left
    rw [decodePrimitive, decodePrimitive, heq]
  · obtain ⟨k, rfl⟩ := Rval.isFail_iff.1 hfail
    obtain ⟨k', hk'⟩ := decodePrimitive_fail hr
    exact .inr ⟨⟨e, mem_bind_log.2 (.inl he), hE⟩, .fail k', hk', trivial⟩

def Sought.IsFail : Sought → Prop
  | .done r => r.IsFail
  | .text .. => False

theorem seekMember_noToken (name : Text) (optional : Bool) (n : ℕ) (c : Cursor) (braces : ℤ) :
    seekMember env.noToken name optional n c braces = seekMember env name optional n c braces := by
  induction n generalizing c braces with
  | zero => rfl
  | succ n ih =>
    simp only [seekMember, skipSpaces_noToken, ih]
    rfl

theorem seekMember_start (name : Text) (optional : Bool) (path : List ℕ) (buf : Text)
    (braces : ℤ) : SameUnless Event.IsStale Sought.IsFail
      (seekMember env.noToken name optional env.noToken.bound (.start env.noToken path buf) braces)
      (seekMember env name optional env.bound (.start env path buf) braces) := by
  rcases skipSpaces_start env path buf with heq | ⟨st, size, h, hzero⟩
  · left
    rw [seekMember_noToken]
    change _ = seekMember env name optional env.bound (.start env.noToken path buf) braces
    cases hb : env.bound with
    | zero => rfl
    | succ n => rw [seekMember, seekMember, heq, skipSpaces_noToken]
  · obtain ⟨n, hn, hbound⟩ := h.exists_bound
    by_cases hsize : size = 0
    · -- a missing member is treated alike in both runs
      left
      have hrun := h path
      rw [skipSpaces_noToken] at hrun
      rw [seekMember_noToken]
      change _ = seekMember env name optional env.bound (.start env.noToken path buf) braces
      rw [hn, seekMember, seekMember, hrun, hzero hsize]
      subst hsize
      rfl
    · refine .inr ⟨⟨.stale, ?_, rfl⟩, .done (.fail 0), h.seekMember_res hsize name optional path
        braces, trivial⟩
      nth_rewrite 1 [hbound]
      rw [seekMember]
      exact h.stale_mem hsize path _

theorem closeSequence_noToken (v : Value) (n : ℕ) (c : Cursor) (braces : ℤ) :
    closeSequence env.noToken v n c braces = closeSequence env v n c braces := by
  induction n generalizing c braces with
  | zero => rfl
  | succ n ih =>
    simp only [closeSequence, skipSpaces_noToken, ih]
    rfl

theorem closeSequence_start (v : Value) (path : List ℕ) (buf : Text) (braces : ℤ) :
    Agree (closeSequence env.noToken v env.noToken.bound (.start env.noToken path buf) braces)
      (closeSequence env v env.bound (.start env path buf) braces) := by
  rcases skipSpaces_start env path buf with heq | ⟨st, size, h, -⟩
  · left
    rw [closeSequence_noToken]
    change _ = closeSequence env v env.bound (.start env.noToken path buf) braces
    cases hb : env.bound with
    | zero => rfl
    | succ n => rw [closeSequence, closeSequence, heq, skipSpaces_noToken]
  · obtain ⟨n, -, hbound⟩ := h.exists_bound
    refine .inr ⟨⟨.stale, ?_, rfl⟩, .fail 0, h.closeSequence_res v path braces, trivial⟩
    nth_rewrite 1 [hbound]
    rw [closeSequence]
    exact h.stale_mem_readToken path _

theorem addElement_agree (c : Cursor) (braces : ℤ) (items : List Value) (moved again : Bool)
    {loop loop' : Cursor → ℤ → List Value → Logged Event Rval}
    (h : ∀ c braces items, Agree (loop c braces items) (loop' c braces items)) (x : Rval) :
    Agree (addElement c braces items moved again loop x)
      (addElement c braces items moved again loop' x) := by
  cases x with
  | ok k v => exact .bind_same _ fun _ ↦ h _ _ _
  | empty k v => exact .refl _
  | wmore k => exact .refl _
  | fail k => exact .refl _

section Elements

variable {element element' : List ℕ → Text → Logged Event Rval}
  (he : ∀ path buf, Agree (element path buf) (element' path buf))
include he

theorem setOfLoop_agree (path : List ℕ) (n : ℕ) (c : Cursor) (braces : ℤ) (items : List Value) :
    Agree (setOfLoop env.noToken element path n c braces items)
      (setOfLoop env element' path n c braces items) := by
  induction n generalizing c braces items with
  | zero => exact .refl _
  | succ n ih =>
    have hadd : ∀ (c : Cursor) braces moved again, Agree
        (element (items.length :: path) c.buf >>=
          addElement c braces items moved again (setOfLoop env.noToken element path n))
        (element' (items.length :: path) c.buf >>=
          addElement c braces items moved again (setOfLoop env element' path n)) := by
      intro c braces moved again
      refine (he _ _).bind (fun r hr ↦ ?_) (addElement_agree c braces items moved again ih)
      obtain ⟨k, rfl⟩ := Rval.isFail_iff.1 hr
      exact ⟨_, rfl, trivial⟩
    rw [setOfLoop, setOfLoop, skipSpaces_noToken]
    refine .bind_same _ fun r ↦ ?_
    split
    · exact .refl _
    · refine .bind_same _ fun _ ↦ ?_
      split
      · exact hadd _ _ _ _
      · exact hadd _ _ _ _
      · refine .bind_same _ fun _ ↦ ?_
        split
        · exact .refl _
        · exact ih _ _ _
      · exact hadd _ _ _ _

theorem setOfLoop_start (path : List ℕ) (buf : Text)
    (hfail : ∀ {st size}, Unseen env buf st size → size ≠ 0 →
      ∀ path, ∃ k, (element path buf).res = some (.fail k)) :
    Agree (setOfLoop env.noToken element path env.noToken.bound (.start env.noToken path buf) 0 [])
      (setOfLoop env element' path env.bound (.start env path buf) 0 []) := by
  rcases skipSpaces_start env path buf with heq | ⟨st, size, h, hzero⟩
  · have hsame : setOfLoop env element' path env.bound (.start env path buf) 0 [] =
        setOfLoop env element' path env.bound (.start env.noToken path buf) 0 [] := by
      cases hb : env.bound with
      | zero => rfl
      | succ n => rw [setOfLoop, setOfLoop, heq, skipSpaces_noToken]
    rw [hsame]
    exact setOfLoop_agree env he path env.bound _ 0 []
  · obtain ⟨n, hn, hbound⟩ := h.exists_bound
    by_cases hsize : size = 0
    · left
      rw [hbound, hn, setOfLoop, setOfLoop]
      have hrun : skipSpaces env.noToken env.noToken.bound (.start env.noToken path buf) = _ :=
        h path
      rw [hrun, hzero hsize]
      subst hsize
      rfl
    · obtain ⟨k, hk⟩ := h.setOfLoop_res hsize (hfail h hsize) path
      refine .inr ⟨⟨.stale, ?_, rfl⟩, .fail k, hk, trivial⟩
      nth_rewrite 1 [hbound]
      rw [setOfLoop]
      exact h.stale_mem hsize path _

end Elements

theorem nextElement_agree (path : List ℕ) (c : Cursor) (braces : ℤ) (isLast : Bool)
    (vs : List (Option Value)) {loop loop' : Cursor → ℤ → List (Option Value) → Logged Event Rval}
    (h : Agree (loop c braces vs) (loop' c braces vs)) :
    Agree (nextElement path c braces isLast vs loop)
      (nextElement path c braces isLast vs loop') := by
  unfold nextElement
  split
  · exact .refl _
  · exact h

theorem choice_start {rest rest' : Cursor → Text → Logged Event Rval} (first : Option Text)
    (path : List ℕ) (buf : Text) (hrest : ∀ c name, Agree (rest c name) (rest' c name)) :
    Agree
      (choiceName env.noToken first path buf >>= fun x ↦ match x.2 with
        | .inl name => rest x.1 name
        | .inr r => pure r)
      (choiceName env first path buf >>= fun x ↦ match x.2 with
        | .inl name => rest' x.1 name
        | .inr r => pure r) := by
  rcases skipSpaces_start env path buf with heq | ⟨st, size, h, hzero⟩
  · have hsame : choiceName env first path buf = choiceName env.noToken first path buf := by
      unfold choiceName
      rw [heq]
      simp only [skipSpaces_noToken]
      rfl
    rw [hsame]
    refine .bind_same _ fun x ↦ ?_
    split
    · exact hrest _ _
    · exact .refl _
  · by_cases hsize : size = 0
    · left
      have hrun : skipSpaces env.noToken env.noToken.bound (.start env.noToken path buf) = _ :=
        h path
      unfold choiceName
      rw [hrun, hzero hsize]
      subst hsize
      rfl
    · refine .inr ⟨⟨.stale, mem_bind_log.2 (.inl (h.stale_mem hsize path _)), rfl⟩, .fail 0, ?_,
        trivial⟩
      rw [bind_res (h.choiceName_res first path)]
      rfl

end Decoders

mutual
theorem decodeTy_agree (env : Env) : ∀ (ty : Ty) (path : List ℕ) (buf : Text),
    Agree (decodeTy env.noToken ty path buf) (decodeTy env ty path buf)
  | .prim p, path, buf => decodePrimitive_agree env p path buf
  | .sequence els, path, buf =>
    decodeElements_agree env els path _ buf 0 (.inr ⟨buf, rfl, rfl⟩) 0 []
  | .sequenceOf ty, path, buf => setOfLoop_start env (decodeTy_agree env ty) path buf
      fun h hsize path ↦ h.decodeTy_res hsize ty path
  | .choice els, path, buf => choice_start env _ path buf fun c name ↦
      decodeAlternative_agree env els _ path 0 name c

theorem decodeElements_agree (env : Env) : ∀ (els : Elements) (path : List ℕ) (mark : Token)
    (start : Text) (i : ℕ) {c c' : Cursor},
    (c' = c ∨ ∃ buf, c = .start env.noToken path buf ∧ c' = .start env path buf) →
    ∀ (braces : ℤ) (vs : List (Option Value)),
      Agree (decodeElements env.noToken els path mark start i c braces vs)
        (decodeElements env els path mark start i c' braces vs)
  | .nil, path, mark, start, i, c, c', hc, braces, vs => by
    rw [decodeElements, decodeElements]
    rcases hc with rfl | ⟨buf, rfl, rfl⟩
    · rw [closeSequence_noToken]
      exact .refl _
    · exact (closeSequence_start env _ path buf braces).bind (fun x hx ↦ ⟨x, rfl, hx⟩)
        fun _ ↦ .refl _
  | .cons name presence ty rest, path, mark, start, i, c, c', hc, braces, vs => by
    have hnext : ∀ (mark : Token) start (c : Cursor) braces vs, Agree
        (nextElement path c braces rest.isNil vs
          (decodeElements env.noToken rest path mark start (i + 1)))
        (nextElement path c braces rest.isNil vs
          (decodeElements env rest path mark start (i + 1))) :=
      fun mark start c braces vs ↦ nextElement_agree _ _ _ _ _
        (decodeElements_agree env rest path mark start (i + 1) (.inl rfl) braces vs)
    have hseek : SameUnless Event.IsStale Sought.IsFail
        (seekMember env.noToken name presence.isOptional env.noToken.bound c braces)
        (seekMember env name presence.isOptional env.bound c' braces) := by
      rcases hc with rfl | ⟨buf, rfl, rfl⟩
      · exact .inl (seekMember_noToken env _ _ _ _ _).symm
      · exact seekMember_start env name _ path buf braces
    rw [decodeElements, decodeElements]
    refine hseek.bind (fun x hx ↦ ?_) fun x ↦ ?_
    · cases x with
      | text => exact hx.elim
      | done r => exact ⟨r, rfl, hx⟩
    · split
      · exact .refl _
      · split
        · refine .bind_same _ fun _ ↦ (decodeTy_agree env ty _ _).bind (fun y hy ↦ ?_) fun y ↦ ?_
          · obtain ⟨k, rfl⟩ := Rval.isFail_iff.1 hy
            exact ⟨_, rfl, trivial⟩
          · split
            · exact hnext _ _ _ _ _
            · exact .bind_same _ fun _ ↦ hnext _ _ _ _ _
            · exact .refl _
            · exact .refl _
        · split
          · exact hnext _ _ _ _ _
          · exact .refl _

theorem decodeAlternative_agree (env : Env) : ∀ (els : Elements) (first : Option Text)
    (path : List ℕ) (i : ℕ) (choice : Text) (c : Cursor),
    Agree (decodeAlternative env.noToken els first path i choice c)
      (decodeAlternative env els first path i choice c)
  | .nil, _, _, _, _, _ => .refl _
  | .cons name _ ty rest, first, path, i, choice, c => by
    rw [decodeAlternative, decodeAlternative]
    split
    · refine (decodeTy_agree env ty _ _).bind (fun y hy ↦ ?_) fun _ ↦ .refl _
      obtain ⟨k, rfl⟩ := Rval.isFail_iff.1 hy
      exact ⟨_, rfl, trivial⟩
    · exact decodeAlternative_agree env rest first path (i + 1) choice c
end

theorem gserDecode_agree (env : Env) (ty : Ty) (buf : Text) :
    Agree (gserDecode env.noToken ty buf) (gserDecode env ty buf) := by
  refine (decodeTy_agree env ty [] _).bind (fun r hr ↦ ?_) fun _ ↦ .refl _
  obtain ⟨k, rfl⟩ := Rval.isFail_iff.1 hr
  exact ⟨_, rfl, trivial⟩

/-- The decoder returns `r`: some bound on the rounds of its loops is large enough. -/
def Outcome (after : UInt8) (junk : List ℕ → Option Token) (ty : Ty) (buf : Text) (r : Rval) :
    Prop :=
  ∃ N, (gserDecode ⟨N, after, junk⟩ ty buf).res = some r

section Outcome

variable {after : UInt8} {junk : List ℕ → Option Token} {ty : Ty} {buf : Text}

theorem Outcome.unique {r r' : Rval} (h : Outcome after junk ty buf r)
    (h' : Outcome after junk ty buf r') : r = r' := by
  obtain ⟨N, hN⟩ := h
  obtain ⟨N', hN'⟩ := h'
  wlog hle : N ≤ N' generalizing N N' r r'
  · exact (this N' hN' N hN (by omega)).symm
  have heq : gserDecode ⟨N, after, junk⟩ ty buf = gserDecode ⟨N', after, junk⟩ ty buf :=
    (gserDecode_cut ⟨0, after, junk⟩ hle ty buf).eq_of_res hN
  rw [heq, hN'] at hN
  exact (Option.some.inj hN).symm

/-- The variables hold no tokens, one of them is read without having been assigned, and the
decoder fails. -/
def FailsBlindly (after : UInt8) (ty : Ty) (buf : Text) : Prop :=
  ∃ N k, .stale ∈ (gserDecode ⟨N, after, fun _ ↦ none⟩ ty buf).log ∧
    (gserDecode ⟨N, after, fun _ ↦ none⟩ ty buf).res = some (.fail k)

theorem gserDecode_eq_of_not_failsBlindly (h : ¬ FailsBlindly after ty buf) (N : ℕ)
    (junk : List ℕ → Option Token) :
    gserDecode ⟨N, after, junk⟩ ty buf = gserDecode ⟨N, after, fun _ ↦ none⟩ ty buf := by
  rcases gserDecode_agree ⟨N, after, junk⟩ ty buf with heq | ⟨⟨e, he, hE⟩, r, hr, hfail⟩
  · exact heq
  · obtain rfl : e = .stale := hE
    obtain ⟨k, rfl⟩ := Rval.isFail_iff.1 hfail
    exact absurd ⟨N, k, he, hr⟩ h

end Outcome

/-- What the uninitialised variables hold has no influence on the run, and so none on the outcome,
unless the decoder fails blindly. -/
theorem gserDecode_independent {after : UInt8} {ty : Ty} {buf : Text}
    (h : ¬ FailsBlindly after ty buf) (junk junk' : List ℕ → Option Token) :
    (∀ N, gserDecode ⟨N, after, junk⟩ ty buf = gserDecode ⟨N, after, junk'⟩ ty buf) ∧
      ∀ r, Outcome after junk ty buf r ↔ Outcome after junk' ty buf r := by
  have heq (N : ℕ) : gserDecode ⟨N, after, junk⟩ ty buf = gserDecode ⟨N, after, junk'⟩ ty buf := by
    rw [gserDecode_eq_of_not_failsBlindly h N junk, gserDecode_eq_of_not_failsBlindly h N junk']
  refine ⟨heq, fun r ↦ ?_⟩
  simp only [Outcome, heq]

/-- The INTEGER `12` with a space behind it. -/
theorem gserDecode_independent_twelve :
    Outcome 0 (fun _ ↦ some .text) (.prim (nativeInteger 32 (ascii "INTEGER"))) (ascii "12 ")
      (.ok 2 (.integer 12)) := by
  have hok : Outcome 0 (fun _ ↦ none) (.prim (nativeInteger 32 (ascii "INTEGER"))) (ascii "12 ")
      (.ok 2 (.integer 12)) := ⟨2, rfl⟩
  refine ((gserDecode_independent ?_ (fun _ ↦ none) _).2 _).1 hok
  rintro ⟨N, k, -, hfail⟩
  cases hok.unique ⟨N, hfail⟩

/-- The INTEGER `12` at the end of the input: if the variable happens to hold `GSER_TOKEN_TEXT`,
the value is 1. -/
theorem outcome_depends : Outcome 0 (fun _ ↦ some .text) (.prim (nativeInteger 32 (ascii "INTEGER")))
      (ascii "12") (.ok 1 (.integer 1)) ∧
    Outcome 0 (fun _ ↦ none) (.prim (nativeInteger 32 (ascii "INTEGER"))) (ascii "12") (.fail 0) :=
  ⟨⟨2, rfl⟩, 2, rfl⟩

end EnbL1Ppc.Gser
