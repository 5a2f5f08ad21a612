import EnbL1Ppc.Gser.LexerEnd
import EnbL1Ppc.Gser.Progress

namespace EnbL1Ppc.Gser

open Lib Logged

/-- The events after which the decoder does not return: a loop repeats itself for ever, or an
assertion fails. -/
def Event.Fatal : Event → Prop
  | .stuck | .abort => True
  | .idle again => again = true
  | _ => False

def Skipped.LastCall (env : Env) (r : Skipped) : Prop :=
  ∃ state t token, gserParse env.after state r.cursor.buf = ⟨r.cursor.state, t, r.size⟩ ∧
    r.cursor.token = t.or token ∧ r.delivered = t.isSome ∧
    ¬ (0 < r.size ∧ r.cursor.token = some .space)

theorem skipSpaces_quiet (env : Env) (n : ℕ) (c : Cursor) :
    Records (fun e ↦ ¬ e.Fatal) (Skipped.LastCall env) (skipSpaces env n c) := by
  induction n generalizing c with
  | zero => exact .timeout
  | succ n ih =>
    rw [skipSpaces]
    refine .tell_bind id (.tellIf_bind (fun _ ↦ id) ?_)
    split
    · exact ih _
    · next h => exact .pure ⟨c.state, _, c.token, rfl, rfl, rfl, h⟩

theorem readToken_quiet (r : Skipped) :
    Records (fun e ↦ ¬ e.Fatal) (fun t ↦ t = r.cursor.token) (readToken r) :=
  .tellIf_bind (fun _ ↦ id) (.pure rfl)

structure Skipped.AtEnd (env : Env) (r : Skipped) : Prop where
  size : r.size = 0
  not_delivered : r.delivered = false
  parse : gserParse env.after r.cursor.state r.cursor.buf = ⟨r.cursor.state, none, 0⟩

theorem Skipped.LastCall.atEnd {env : Env} {r : Skipped} (h : r.LastCall env) (hs : r.size = 0)
    {t : Token} (ht : r.cursor.token = some t)
    (hm : t = .openBracket ∨ t = .closeBracket ∨ t = .comma) : r.AtEnd env := by
  obtain ⟨state, t', token, hp, htok, hdel, -⟩ := h
  cases t' with
  | some t' =>
    obtain rfl : t = t' := by simpa [ht] using htok
    exact absurd hs (Nat.pos_iff_ne_zero.1 (gserParse_mark_pos hp hm))
  | none =>
    rw [hs] at hp
    exact ⟨hs, hdel, gserParse_again hp⟩

theorem Skipped.AtEnd.advanced {env : Env} {r : Skipped} (h : r.AtEnd env) :
    r.advanced = r.cursor := by
  simp [Skipped.advanced, Cursor.advance, h.size]

theorem Skipped.AtEnd.skipSpaces {env : Env} {r : Skipped} (h : r.AtEnd env) (n : ℕ) :
    (Gser.skipSpaces env (n + 1) r.cursor).res = some r := by
  rw [Gser.skipSpaces, h.parse]
  obtain ⟨cursor, size, delivered⟩ := r
  obtain rfl : size = 0 := h.size
  obtain rfl : delivered = false := h.not_delivered
  simp

theorem closeSequence_stuck {env : Env} {v : Value} {r : Skipped} (h : r.AtEnd env) {t : Token}
    (ht : r.cursor.token = some t) {n : ℕ} {braces : ℤ}
    (hm : t = .openBracket ∨ t = .comma ∨ t = .closeBracket ∧ braces ≤ 0) :
    (closeSequence env v n r.cursor braces).res = none := by
  induction n generalizing braces with
  | zero => rfl
  | succ n ih =>
    rw [closeSequence]
    cases env.bound with
    | zero => rw [bind_of_none rfl]
    | succ b =>
      rw [bind_res (h.skipSpaces b), bind_res (readToken_res r)]
      simp only [ht, h.advanced]
      rcases hm with rfl | rfl | ⟨rfl, hbr⟩
      · exact (tellIf_bind_res _ _ _).trans (ih (.inl rfl))
      · exact (tellIf_bind_res _ _ _).trans (ih (.inr (.inl rfl)))
      · simp only [tellIf_bind_res]
        rw [if_neg (by omega)]
        exact ih (.inr (.inr ⟨rfl, by omega⟩))

theorem closeSequence_doomed (env : Env) (v : Value) (n : ℕ) (c : Cursor) (braces : ℤ) :
    Doomed Event.Fatal (closeSequence env v n c braces) := by
  induction n generalizing c braces with
  | zero => exact .timeout
  | succ n ih =>
    rw [closeSequence]
    refine .records_bind (skipSpaces_quiet env _ c) fun r hr ↦ ?_
    refine .records_bind (readToken_quiet r) fun token htoken ↦ ?_
    have hend : ∀ {t : Token}, token = some t → r.size = 0 →
        t = .openBracket ∨ t = .closeBracket ∨ t = .comma → r.AtEnd env :=
      fun ht hs hm ↦ hr.atEnd hs (htoken ▸ ht) hm
    split
    · refine .tellIf_bind (fun hs _ ↦ ?_) (ih _ _)
      have h := hend rfl hs (by simp)
      rw [h.advanced]
      exact closeSequence_stuck h htoken.symm (.inl rfl)
    · refine .tellIf_bind (fun hs _ ↦ ?_) (ih _ _)
      have h := hend rfl hs (by simp)
      rw [h.advanced]
      exact closeSequence_stuck h htoken.symm (.inr (.inl rfl))
    · refine .tellIf_bind (fun _ hE ↦ hE.elim) (.tellIf_bind (fun hs _ ↦ ?_) ?_)
      · have h := hend rfl hs.1 (by simp)
        rw [if_neg (by omega), h.advanced]
        exact closeSequence_stuck h htoken.symm (.inr (.inr ⟨rfl, by omega⟩))
      · split
        · exact .pure _
        · exact ih _ _
    · exact .tell_bind (fun hE ↦ hE.elim) (.pure _)
    · exact .tell_bind (fun hE ↦ hE.elim) (.pure _)

def Rval.OkFrom (m : ℕ) : Rval → Prop
  | .ok k _ => m ≤ k
  | _ => True

abbrev Consumes (m : ℕ) (x : Logged Event Rval) : Prop :=
  Records (fun _ ↦ True) (Rval.OkFrom m) x

theorem Consumes.le {m m' : ℕ} {x : Logged Event Rval} (h : Consumes m x) (hle : m' ≤ m) :
    Consumes m' x := by
  refine h.mono fun r hr ↦ ?_
  cases r with
  | ok k v => exact Nat.le_trans hle hr
  | _ => trivial

section Consumes

variable {env : Env}

theorem seekMember_consumes (name : Text) (optional : Bool) (n : ℕ) (c : Cursor) (braces : ℤ) :
    Records (fun _ ↦ True) (fun
      | .text c' _ _ => c.consumed ≤ c'.consumed
      | .done r => r.OkFrom c.consumed) (seekMember env name optional n c braces) := by
  have habsent : ∀ c' : Cursor, Records (fun _ ↦ True) (fun
      | .text c' _ _ => c.consumed ≤ c'.consumed
      | .done r => r.OkFrom c.consumed) (absentMandatory name c') :=
    fun _ ↦ .tell_bind trivial (.pure trivial)
  induction n generalizing c braces with
  | zero => exact .timeout
  | succ n ih =>
    rw [seekMember]
    refine (skipSpaces_advances _ c).bind fun r hboth ↦ ?_
    have hr := hboth.1
    have hadv : c.consumed ≤ r.advanced.consumed := Nat.le_trans hr (Nat.le_add_right _ _)
    have hloop : ∀ braces, Records (fun _ ↦ True) (fun
        | .text c' _ _ => c.consumed ≤ c'.consumed
        | .done r => r.OkFrom c.consumed) (seekMember env name optional n r.advanced braces) := by
      refine fun braces ↦ (ih r.advanced braces fun _ ↦ .tell_bind trivial (.pure trivial)).mono ?_
      intro x hx
      cases x with
      | text c' size braces => exact Nat.le_trans hadv hx
      | done r =>
        cases r with
        | ok k v => exact Nat.le_trans hadv hx
        | _ => trivial
    split
    · split
      · exact .pure hr
      · exact habsent _
    · split
      · exact hloop _
      · exact hloop _
      · split
        · exact .pure hr
        · exact habsent _
      · exact .pure hr
      · exact .tell_bind trivial (.pure trivial)

theorem closeSequence_consumes (v : Value) (n : ℕ) (c : Cursor) (braces : ℤ) :
    Consumes c.consumed (closeSequence env v n c braces) := by
  induction n generalizing c braces with
  | zero => exact .timeout
  | succ n ih =>
    rw [closeSequence]
    refine (skipSpaces_advances _ c).bind fun r hboth ↦ (Records.any _).bind fun token _ ↦ ?_
    have hr := hboth.1
    have hadv : c.consumed ≤ r.advanced.consumed := Nat.le_trans hr (Nat.le_add_right _ _)
    split
    · exact .tellIf_bind (fun _ ↦ trivial) ((ih _ _).le hadv)
    · exact .tellIf_bind (fun _ ↦ trivial) ((ih _ _).le hadv)
    · refine .tellIf_bind (fun _ ↦ trivial) (.tellIf_bind (fun _ ↦ trivial) ?_)
      split
      · exact .pure hadv
      · exact (ih _ _).le hadv
    · exact .tell_bind trivial (.pure trivial)
    · exact .tell_bind trivial (.pure trivial)

theorem decodeElements_consumes (path : List ℕ) : ∀ (els : Elements) (mark : Token) (start : Text)
    (i : ℕ) (c : Cursor) (braces : ℤ) (vs : List (Option Value)),
    Consumes c.consumed (decodeElements env els path mark start i c braces vs)
  | .nil, _, _, _, c, braces, vs => by
    rw [decodeElements]
    exact (closeSequence_consumes _ _ c braces).bind fun x hx ↦ .tell_bind trivial (.pure hx)
  | .cons name presence ty rest, _, _, i, c, braces, vs => by
    have hnext : ∀ (mark : Token) start {c' : Cursor}, c.consumed ≤ c'.consumed → ∀ braces vs,
        Consumes c.consumed (nextElement path c' braces rest.isNil vs
          (decodeElements env rest path mark start (i + 1))) := by
      intro mark start c' hle braces vs
      unfold nextElement
      split
      · exact .tell_bind trivial (.pure hle)
      · exact (decodeElements_consumes path rest mark start (i + 1) c' braces vs).le hle
    rw [decodeElements]
    refine (seekMember_consumes _ _ _ c braces).bind fun x hx ↦ ?_
    split
    · exact .pure hx
    · next c' size braces' =>
      have hadv : ∀ k, c.consumed ≤ ((c'.advance size).advance k).consumed := by
        intro k
        have hx : c.consumed ≤ c'.consumed := hx
        simp only [Cursor.advance]
        omega
      split
      · refine .tell_bind trivial ((Records.any _).bind fun y _ ↦ ?_)
        split
        · exact hnext _ _ (hadv _) _ _
        · exact .tell_bind trivial (hnext _ _ (hadv _) _ _)
        · exact .pure trivial
        · exact .pure trivial
      · split
        · exact hnext _ _ hx _ _
        · exact .tell_bind trivial (.pure trivial)

theorem setOfLoop_consumes (element : List ℕ → Text → Logged Event Rval) (path : List ℕ) (n : ℕ)
    (c : Cursor) (braces : ℤ) (items : List Value) :
    Consumes 1 (setOfLoop env element path n c braces items) := by
  induction n generalizing c braces items with
  | zero => exact .timeout
  | succ n ih =>
    have hadd : ∀ (c : Cursor) braces moved again x, Consumes 1
        (addElement c braces items moved again (setOfLoop env element path n) x) := by
      intro c braces moved again x
      cases x with
      | ok k v => exact .tellIf_bind (fun _ ↦ trivial) (ih _ _ _)
      | empty k v => exact .tell_bind trivial (.pure trivial)
      | wmore k => exact .pure trivial
      | fail k => exact .pure trivial
    rw [setOfLoop]
    refine (Records.any _).bind fun r _ ↦ ?_
    split
    · exact .pure trivial
    · next hsize =>
      refine .tell_bind trivial ?_
      split
      · exact (Records.any _).bind fun x _ ↦ hadd _ _ _ _ x
      · exact (Records.any _).bind fun x _ ↦ hadd _ _ _ _ x
      · refine .tellIf_bind (fun _ ↦ trivial) ?_
        split
        · refine .pure ?_
          simp only [Rval.OkFrom, Skipped.advanced, Cursor.advance]
          omega
        · exact ih _ _ _
      · exact (Records.any _).bind fun x _ ↦ hadd _ _ _ _ x

theorem decodeAlternative_consumes (first : Option Text) (path : List ℕ) (choice : Text)
    (c : Cursor) : ∀ (els : Elements) (i : ℕ),
    Consumes c.consumed (decodeAlternative env els first path i choice c)
  | .nil, _ => .tell_bind trivial (.pure trivial)
  | .cons name _ ty rest, i => by
    rw [decodeAlternative]
    split
    · refine (Records.any _).bind fun y _ ↦ ?_
      cases y with
      | ok k v => exact .pure (Nat.le_add_right _ _)
      | _ => exact .pure trivial
    · exact decodeAlternative_consumes first path choice c rest (i + 1)

theorem decodeChoice_consumes (els : Elements) (path : List ℕ) (buf : Text) :
    Consumes 1 (decodeTy env (.choice els) path buf) := by
  have hname : Records (fun _ ↦ True) (fun x ↦ x.2.elim (fun _ ↦ 1 ≤ x.1.consumed) (Rval.OkFrom 1))
      (choiceName env els.firstName path buf) := by
    refine (Records.any _).bind fun r _ ↦ ?_
    split
    · exact .pure trivial
    · next hsize =>
      split
      · refine (skipSpaces_advances _ _).bind fun r' ⟨hr', _⟩ ↦ ?_
        split
        · exact .pure trivial
        · split
          · refine .pure ?_
            simp only [Skipped.advanced, Cursor.advance, Sum.elim_inl] at hr' ⊢
            omega
          · exact .tell_bind trivial (.pure trivial)
      · exact .pure trivial
  rw [decodeTy]
  refine hname.bind fun x hx ↦ ?_
  split
  · next name h =>
    rw [h] at hx
    exact (decodeAlternative_consumes _ _ _ _ els 0).le hx
  · next r h =>
    rw [h] at hx
    exact .pure hx

end Consumes

end EnbL1Ppc.Gser
