import EnbL1Ppc.Gser.Consumption

namespace EnbL1Ppc.Gser

open Lib Logged

/-- The events of a run in which every round of a loop gets further and no assertion fails. -/
def Event.Progresses : Event → Prop
  | .stuck | .idle _ | .abort => False
  | _ => True

section Loops

variable {env : Env} {buf : Text} {c : Cursor} {n : ℕ}

theorem skipSpaces_halts (hc : c.On buf) (hn : c.buf.length < n) :
    Halts Event.Progresses (Skipped.On · buf) (skipSpaces env n c) := by
  induction n generalizing c with
  | zero => omega
  | succ n ih =>
    have hle := gserParse_size_le env.after c.state c.buf
    have hc' : Cursor.On ⟨(gserParse env.after c.state c.buf).state,
        (gserParse env.after c.state c.buf).token.or c.token, c.buf, c.consumed⟩ buf :=
      ⟨hc.buf_eq, hc.consumed_le⟩
    rw [skipSpaces]
    refine .tell_bind fun _ ↦ .tellIf_bind fun _ ↦ ?_
    split
    · next hsize =>
      refine ih (hc'.advance hle) ?_
      simp only [Cursor.advance, List.length_drop]
      omega
    · exact .pure ⟨hc', hle⟩

theorem readToken_halts (r : Skipped) :
    Halts Event.Progresses (fun _ ↦ True) (readToken r) :=
  .tellIf_bind fun _ ↦ .pure trivial

abbrev Finishes (m : Logged Event Rval) : Prop :=
  Halts Event.Progresses (fun _ ↦ True) m

theorem decodePrimitive_finishes (p : Primitive) (path : List ℕ) (hb : buf.length < env.bound) :
    Finishes (decodePrimitive env p path buf) := by
  have hgen : Finishes (gserDecodeGeneral env p path buf) := by
    refine (skipSpaces_halts (Cursor.start_on env path buf) hb).bind fun r _ ↦ ?_
    refine (readToken_halts r).bind fun token _ ↦ ?_
    split
    · split
      · exact .pure trivial
      · exact .tell_bind False.elim
      · split <;> exact .pure trivial
    · split <;> exact .pure trivial
  refine hgen.bind fun r _ ↦ ?_
  split
  · split <;> exact .pure trivial
  · split
    · exact .tell_bind fun _ ↦ .pure trivial
    · exact .pure trivial

def Sought.Open (buf : Text) : Sought → Prop
  | .text c size braces => (c.On buf ∧ size ≤ c.buf.length) ∧ braces ≤ c.consumed
  | .done _ => True

theorem absentMandatory_halts (name : Text) (c : Cursor) :
    Halts Event.Progresses (Sought.Open buf) (absentMandatory name c) :=
  .tell_bind fun _ ↦ .pure trivial

theorem length_advanced {r : Skipped} (h : r.size ≠ 0) (hr : r.On buf) :
    r.advanced.buf.length < r.cursor.buf.length := by
  have hle := hr.2
  simp only [Skipped.advanced, Cursor.advance, List.length_drop]
  omega

theorem skipSpaces_advances (n : ℕ) (c : Cursor) :
    Records (fun _ ↦ True) (fun r ↦ c.consumed ≤ r.cursor.consumed ∧
      r.cursor.buf.length ≤ c.buf.length) (skipSpaces env n c) := by
  induction n generalizing c with
  | zero => exact .timeout
  | succ n ih =>
    rw [skipSpaces]
    refine .tell_bind trivial (.tellIf_bind (fun _ ↦ trivial) ?_)
    split
    · refine (ih _).mono fun r hboth ↦ ?_
      obtain ⟨hcons, hlen⟩ := hboth
      simp only [Cursor.advance, List.length_drop] at hcons hlen
      omega
    · exact .pure ⟨Nat.le_refl _, Nat.le_refl _⟩

theorem seekMember_halts (name : Text) (optional : Bool) (hb : buf.length < env.bound)
    (hc : c.On buf) {braces : ℤ} (hbr : braces ≤ c.consumed) (hn : c.buf.length < n) :
    Halts Event.Progresses (Sought.Open buf) (seekMember env name optional n c braces) := by
  induction n generalizing c braces with
  | zero => omega
  | succ n ih =>
    have hlen := hc.length
    rw [seekMember]
    refine ((skipSpaces_halts hc (by omega)).of_records (skipSpaces_advances _ c)).bind
      fun r hboth ↦ ?_
    obtain ⟨hr, hle⟩ := hboth
    split
    · split
      · exact .pure ⟨⟨hr.1.setToken _, Nat.zero_le _⟩, by simp only; omega⟩
      · exact absentMandatory_halts name _
    · next hsize =>
      have hadv := length_advanced hsize hr
      have hcons : r.advanced.consumed = r.cursor.consumed + r.size := rfl
      split
      · exact ih hr.advanced (by omega) (by omega)
      · exact ih hr.advanced (by omega) (by omega)
      · split
        · exact .pure ⟨⟨hr.1.setToken _, hr.2⟩, by simp only; omega⟩
        · exact absentMandatory_halts name _
      · exact .pure ⟨hr, by omega⟩
      · exact .tell_bind fun _ ↦ .pure trivial

theorem closeSequence_finishes (v : Value) (hb : buf.length < env.bound) (hc : c.On buf)
    {braces : ℤ} (hn : 2 * c.buf.length + braces.toNat < n) :
    Finishes (closeSequence env v n c braces) := by
  induction n generalizing c braces with
  | zero => omega
  | succ n ih =>
    have hlen := hc.length
    rw [closeSequence]
    refine ((skipSpaces_halts hc (by omega)).of_records (skipSpaces_advances _ c)).bind
      fun r hboth ↦ ?_
    obtain ⟨hr, hle⟩ := hboth
    refine (readToken_halts r).bind fun token _ ↦ ?_
    have hadv : r.size ≠ 0 → r.advanced.buf.length < r.cursor.buf.length :=
      fun hsize ↦ length_advanced hsize hr
    have hadv' : r.advanced.buf.length ≤ r.cursor.buf.length := by
      simp [Skipped.advanced, Cursor.advance]
    split
    · refine .tellIf_bind fun hstuck ↦ ih hr.advanced ?_
      have := hadv fun h0 ↦ hstuck h0
      omega
    · refine .tellIf_bind fun hstuck ↦ ih hr.advanced ?_
      have := hadv fun h0 ↦ hstuck h0
      omega
    · refine .tellIf_bind fun _ ↦ .tellIf_bind fun hstuck ↦ ?_
      split
      · exact .pure trivial
      · refine ih hr.advanced ?_
        by_cases h0 : r.size = 0
        · have : ¬ braces ≤ 0 := fun hbr ↦ hstuck ⟨h0, hbr⟩
          omega
        · have := hadv h0
          omega
    · exact .tell_bind fun _ ↦ .pure trivial
    · exact .tell_bind fun _ ↦ .pure trivial

theorem addElement_finishes {braces : ℤ} {items : List Value} {moved again : Bool}
    {loop : Cursor → ℤ → List Value → Logged Event Rval} (hc : c.On buf)
    (hloop : ∀ {c braces items}, c.On buf → c.buf.length < n → Finishes (loop c braces items))
    (hn : c.buf.length < n ∨ moved = false ∧ c.buf.length ≤ n) {x : Rval}
    (hx : x.consumed ≤ c.buf.length) :
    Finishes (addElement c braces items moved again loop x) := by
  cases x with
  | ok k v =>
    refine .tellIf_bind fun hidle ↦ hloop (hc.advance hx) ?_
    simp only [Rval.consumed] at hx
    simp only [Cursor.advance, List.length_drop]
    rcases hn with hn | ⟨hmoved, hn⟩
    · omega
    · have : k ≠ 0 := fun h0 ↦ hidle ⟨hmoved, h0⟩
      omega
  | empty k v => exact .tell_bind fun _ ↦ .pure trivial
  | wmore k => exact .pure trivial
  | fail k => exact .pure trivial

theorem setOfLoop_finishes {element : List ℕ → Text → Logged Event Rval}
    (hel : ∀ path b, b.length ≤ buf.length → Finishes (element path b))
    (hin : ∀ path b, Inside b (element path b)) (path : List ℕ) (hb : buf.length < env.bound)
    (hc : c.On buf) (braces : ℤ) (items : List Value) (hn : c.buf.length < n) :
    Finishes (setOfLoop env element path n c braces items) := by
  induction n generalizing c braces items with
  | zero => omega
  | succ n ih =>
    have hlen := hc.length
    have hadd : ∀ {c : Cursor}, c.On buf → ∀ braces moved again,
        (c.buf.length < n ∨ moved = false ∧ c.buf.length ≤ n) →
        Finishes (element (items.length :: path) c.buf >>=
          addElement c braces items moved again (setOfLoop env element path n)) := by
      intro c hc braces moved again hn
      have hlen := hc.length
      refine ((hel _ _ (by omega)).of_records (hin _ _)).bind fun x hx ↦ ?_
      exact addElement_finishes hc (fun hc hn ↦ ih hc _ _ hn) hn hx.2
    rw [setOfLoop]
    refine ((skipSpaces_halts hc (by omega)).of_records (skipSpaces_advances _ c)).bind
      fun r hboth ↦ ?_
    obtain ⟨hr, hle⟩ := hboth
    split
    · exact .pure trivial
    · next hsize =>
      have hadv := length_advanced hsize hr
      refine .tell_bind fun _ ↦ ?_
      split
      · exact hadd hr.advanced _ _ _ (.inl (by omega))
      · exact hadd hr.advanced _ _ _ (.inl (by omega))
      · refine .tellIf_bind fun _ ↦ ?_
        split
        · exact .pure trivial
        · exact ih hr.advanced _ _ (by omega)
      · exact hadd hr.1 _ _ _ (.inr ⟨rfl, by omega⟩)

theorem choiceName_halts (first : Option Text) (path : List ℕ) (hb : buf.length < env.bound) :
    Halts Event.Progresses (fun _ ↦ True) (choiceName env first path buf) := by
  refine (skipSpaces_halts (Cursor.start_on env path buf) hb).bind fun r hr ↦ ?_
  split
  · exact .pure trivial
  · split
    · have hlen := hr.advanced.length
      refine (skipSpaces_halts hr.advanced (by omega)).bind fun r' _ ↦ ?_
      split
      · exact .pure trivial
      · split
        · exact .pure trivial
        · exact .tell_bind fun _ ↦ .pure trivial
    · exact .pure trivial

theorem nextElement_finishes {path : List ℕ} {braces : ℤ} {isLast : Bool}
    {vs : List (Option Value)} {loop : Cursor → ℤ → List (Option Value) → Logged Event Rval}
    (hloop : Finishes (loop c braces vs)) :
    Finishes (nextElement path c braces isLast vs loop) := by
  unfold nextElement
  split
  · exact .tell_bind fun _ ↦ .pure trivial
  · exact hloop

end Loops

mutual
theorem decodeTy_finishes {env : Env} : ∀ (ty : Ty) (path : List ℕ) {buf : Text},
    2 * buf.length < env.bound → Finishes (decodeTy env ty path buf)
  | .prim p, path, buf, hb => decodePrimitive_finishes p path (by omega)
  | .sequence els, path, buf, hb =>
    decodeElements_finishes els path _ buf hb (Cursor.start_on env path buf) 0 (Int.le_refl 0) []
  | .sequenceOf ty, path, buf, hb =>
    setOfLoop_finishes (fun path b hle ↦ decodeTy_finishes ty path (by omega))
      (decodeTy_inside env ty) path (by omega) (Cursor.start_on env path buf) 0 []
      (by simp only [Cursor.start]; omega)
  | .choice els, path, buf, hb => by
    refine ((choiceName_halts _ path (by omega)).of_records
      (choiceName_records env _ path buf)).bind fun x ⟨_, hx⟩ ↦ ?_
    split
    · exact decodeAlternative_finishes els _ path 0 _ hb hx.1
    · exact .pure trivial

theorem decodeElements_finishes {env : Env} : ∀ (els : Elements) (path : List ℕ) (mark : Token)
    (start : Text) {buf : Text}, 2 * buf.length < env.bound → ∀ {c : Cursor}, c.On buf →
    ∀ (i : ℕ) {braces : ℤ}, braces ≤ c.consumed → ∀ (vs : List (Option Value)),
    Finishes (decodeElements env els path mark start i c braces vs)
  | .nil, _, _, _, buf, hb, c, hc, _, braces, hbr, vs => by
    have hlen := hc.length
    rw [decodeElements]
    exact (closeSequence_finishes (.sequence vs) (by omega) hc (by omega)).bind
      fun _ _ ↦ .tell_bind fun _ ↦ .pure trivial
  | .cons name presence ty rest, path, _, _, buf, hb, c, hc, i, braces, hbr, vs => by
    have hlen := hc.length
    have hnext : ∀ (mark : Token) start {c : Cursor}, c.On buf → ∀ {braces : ℤ},
        braces ≤ c.consumed → ∀ vs, Finishes (nextElement path c braces rest.isNil vs
          (decodeElements env rest path mark start (i + 1))) :=
      fun mark start _ hc _ hbr vs ↦ nextElement_finishes
        (decodeElements_finishes rest path mark start hb hc (i + 1) hbr vs)
    rw [decodeElements]
    refine (seekMember_halts name presence.isOptional (by omega) hc hbr (by omega)).bind
      fun x hx ↦ ?_
    split
    · exact .pure trivial
    · next c' size braces' =>
      have hadv : ∀ k, ((c'.advance size).advance k).consumed = c'.consumed + size + k := fun _ ↦ rfl
      have hbr' := hx.2
      split
      · have hlen' := (hx.1.1.advance hx.1.2).length
        refine .tell_bind fun _ ↦ ((decodeTy_finishes ty _ (by omega)).of_records
          (decodeTy_inside env ty _ _)).bind fun y ⟨_, hy⟩ ↦ ?_
        split
        · exact hnext _ _ ((hx.1.1.advance hx.1.2).advance hy) (by rw [hadv]; omega) _
        · refine .tell_bind fun _ ↦ ?_
          exact hnext _ _ ((hx.1.1.advance hx.1.2).advance hy) (by rw [hadv]; omega) _
        · exact .pure trivial
        · exact .pure trivial
      · split
        · exact hnext _ _ hx.1.1 hbr' _
        · exact .tell_bind fun _ ↦ .pure trivial

theorem decodeAlternative_finishes {env : Env} : ∀ (els : Elements) (first : Option Text)
    (path : List ℕ) (i : ℕ) (choice : Text) {buf : Text}, 2 * buf.length < env.bound →
    ∀ {c : Cursor}, c.On buf → Finishes (decodeAlternative env els first path i choice c)
  | .nil, _, _, _, _, _, _, _, _ => .tell_bind fun _ ↦ .pure trivial
  | .cons name _ ty rest, first, path, i, choice, buf, hb, c, hc => by
    have hlen := hc.length
    rw [decodeAlternative]
    split
    · refine (decodeTy_finishes ty _ (by omega)).bind fun y _ ↦ ?_
      cases y <;> exact .pure trivial
    · exact decodeAlternative_finishes rest first path (i + 1) choice hb hc
end

theorem gserDecode_finishes {env : Env} (ty : Ty) {buf : Text} (hb : 2 * buf.length < env.bound) :
    Finishes (gserDecode env ty buf) := by
  have hlen : (buf.drop (gserWhitespaceSpan buf)).length ≤ buf.length := by simp
  refine (decodeTy_finishes ty [] (by omega)).bind fun r _ ↦ ?_
  split <;> exact .pure trivial

end EnbL1Ppc.Gser
