import EnbL1Ppc.Gser.Decoder

namespace EnbL1Ppc.Gser

open Lib Lib.Logged

/-!
Every structure that the decoder fills in is a value of its type, however irregular the text. The
only lists that can stay empty are those whose elements can be taken for empty.
-/

/-- What the decoder of a primitive type can leave: a converted token or the structure as it was
allocated. -/
def Primitive.Leaves (p : Primitive) (v : Value) : Prop :=
  v = p.zero ∨ ∃ chunk next more n w, p.receive chunk next more = .converted n w ∧
    p.convert w = some v

mutual
def Ty.canBeEmpty : Ty → Bool
  | .prim _ => true
  | .sequence _ => false
  | .sequenceOf element => element.canBeEmpty
  | .choice elements => elements.canBeEmpty

def Elements.canBeEmpty : Elements → Bool
  | .nil => false
  | .cons _ _ ty rest => ty.canBeEmpty || rest.canBeEmpty
end

mutual
def Ty.Holds : Ty → Value → Prop
  | .prim p, v => p.Leaves v
  | .sequence elements, .sequence vs => elements.Hold vs
  | .sequenceOf element, .list vs =>
    (element.canBeEmpty = false → vs ≠ []) ∧ ∀ v ∈ vs, element.Holds v
  | .choice elements, .choice present v => elements.HoldAlternative present v
  | _, _ => False

def Elements.Hold : Elements → List (Option Value) → Prop
  | .nil, vs => vs = []
  | .cons _ presence ty rest, v :: vs =>
    ((∃ w, v = some w ∧ ty.Holds w) ∨ presence.isOptional = true ∧ v = presence.absent) ∧
      rest.Hold vs
  | .cons .., [] => False

def Elements.HoldAlternative : Elements → ℕ → Value → Prop
  | .cons _ _ ty _, 1, v => ty.Holds v
  | .cons _ _ _ rest, k + 2, v => rest.HoldAlternative (k + 1) v
  | _, _, _ => False
end

def Ty.Returns (ty : Ty) : Rval → Prop
  | .ok _ v => ty.Holds v
  | .empty _ v => ty.canBeEmpty = true ∧ ty.Holds v
  | .wmore _ | .fail _ => True

abbrev Yields (Q : Rval → Prop) (m : Logged Event Rval) : Prop :=
  Records (fun _ ↦ True) Q m

def Primitive.Received (p : Primitive) : Rval → Prop
  | .ok _ w => ∃ chunk next more n, p.receive chunk next more = .converted n w
  | .empty _ v => v = p.zero
  | .wmore _ | .fail _ => True

theorem gserDecodeGeneral_yields (env : Env) (p : Primitive) (path : List ℕ) (buf : Text) :
    Yields p.Received (gserDecodeGeneral env p path buf) := by
  refine (Records.any _).bind fun r _ ↦ (Records.any _).bind fun token _ ↦ ?_
  split
  · split
    · exact .pure trivial
    · exact .tell_bind trivial .timeout
    · next n v hreceive =>
      split
      · exact .pure trivial
      · exact .pure ⟨_, _, _, n, hreceive⟩
  · split
    · exact .pure rfl
    · exact .pure trivial

theorem reported_yields {Q : Rval → Prop} {r : Rval} (h : Q r) (xmlTag : Option Text)
    (buf : Text) :
    Yields Q (match xmlTag with
      | some tag => do
        Logged.tell (.report (.invalidValue tag buf))
        pure r
      | none => pure r) := by
  split
  · exact .tell_bind trivial (.pure h)
  · exact .pure h

theorem decodePrimitive_yields (env : Env) (p : Primitive) (path : List ℕ) (buf : Text) :
    Yields (Ty.prim p).Returns (decodePrimitive env p path buf) := by
  refine (gserDecodeGeneral_yields env p path buf).bind fun r hr ↦ ?_
  cases r with
  | ok n w =>
    obtain ⟨chunk, next, more, k, hreceive⟩ := hr
    have hwrap : p.wrap (.ok n w) = .ok n w := rfl
    cases hconvert : p.convert w with
    | some v =>
      have hret : (Ty.prim p).Returns (.ok n v) := .inr ⟨chunk, next, more, k, w, hreceive, hconvert⟩
      simpa only [hwrap, hconvert] using Records.pure hret
    | none =>
      have hret : (Ty.prim p).Returns (.fail 0) := trivial
      simpa only [hwrap, hconvert] using Records.pure hret
  | empty n v =>
    have hret : (Ty.prim p).Returns (.empty n v) := ⟨rfl, .inl hr⟩
    exact reported_yields hret p.xmlTag buf
  | wmore n => exact reported_yields trivial p.xmlTag buf
  | fail n => exact reported_yields trivial p.xmlTag buf

section Lists

variable {env : Env} {ty : Ty} {element : List ℕ → Text → Logged Event Rval}

structure Collected (ty : Ty) (braces : ℤ) (items : List Value) : Prop where
  braces_le : items = [] → braces ≤ 0
  holds : ∀ v ∈ items, ty.Holds v

theorem addElement_yields {c : Cursor} {braces : ℤ} {items : List Value} {moved again : Bool}
    {loop : Cursor → ℤ → List Value → Logged Event Rval} {x : Rval}
    (hitems : ∀ v ∈ items, ty.Holds v) (hx : ty.Returns x)
    (hloop : ∀ c braces items, Collected ty braces items →
      Yields (Ty.sequenceOf ty).Returns (loop c braces items)) :
    Yields (Ty.sequenceOf ty).Returns (addElement c braces items moved again loop x) := by
  cases x with
  | ok k v =>
    refine .tellIf_bind (fun _ ↦ trivial) (hloop _ _ _ ⟨fun h ↦ ?_, ?_⟩)
    · simp at h
    · intro w hw
      rcases List.mem_append.1 hw with hw | hw
      · exact hitems w hw
      · rw [List.mem_singleton.1 hw]
        exact hx
  | empty k v =>
    refine .tell_bind trivial (.pure ⟨hx.1, fun hne ↦ ?_, hitems⟩)
    rw [hx.1] at hne
    cases hne
  | wmore k => exact .pure trivial
  | fail k => exact .pure trivial

theorem setOfLoop_yields (hel : ∀ path buf, Yields ty.Returns (element path buf)) (path : List ℕ)
    (n : ℕ) (c : Cursor) (braces : ℤ) (items : List Value) (h : Collected ty braces items) :
    Yields (Ty.sequenceOf ty).Returns (setOfLoop env element path n c braces items) := by
  induction n generalizing c braces items with
  | zero => exact .timeout
  | succ n ih =>
    have hadd : ∀ (c : Cursor) braces moved again, Yields (Ty.sequenceOf ty).Returns
        (element (items.length :: path) c.buf >>=
          addElement c braces items moved again (setOfLoop env element path n)) :=
      fun c braces moved again ↦ (hel _ _).bind fun x hx ↦ addElement_yields h.holds hx ih
    rw [setOfLoop]
    refine (Records.any _).bind fun r _ ↦ ?_
    split
    · exact .pure trivial
    · refine .tell_bind trivial ?_
      split
      · exact hadd _ _ _ _
      · exact hadd _ _ _ _
      · refine .tellIf_bind (fun _ ↦ trivial) ?_
        split
        · next hclosed =>
          refine .pure ⟨fun _ hnil ↦ ?_, h.holds⟩
          have := h.braces_le hnil
          omega
        · refine ih _ _ _ ⟨fun hnil ↦ ?_, h.holds⟩
          have := h.braces_le hnil
          omega
      · exact hadd _ _ _ _

end Lists

theorem closeSequence_yields (env : Env) {els : Elements} {vs : List (Option Value)}
    (h : els.Hold vs) (n : ℕ) (c : Cursor) (braces : ℤ) :
    Yields (Ty.sequence els).Returns (closeSequence env (.sequence vs) n c braces) := by
  induction n generalizing c braces with
  | zero => exact .timeout
  | succ n ih =>
    rw [closeSequence]
    refine (Records.any _).bind fun r _ ↦ (Records.any _).bind fun token _ ↦ ?_
    split
    · exact .tellIf_bind (fun _ ↦ trivial) (ih _ _)
    · exact .tellIf_bind (fun _ ↦ trivial) (ih _ _)
    · refine .tellIf_bind (fun _ ↦ trivial) (.tellIf_bind (fun _ ↦ trivial) ?_)
      split
      · exact .pure h
      · exact ih _ _
    · exact .tell_bind trivial (.pure trivial)
    · exact .tell_bind trivial (.pure trivial)

/-- The members that are still to come complete the ones before to a structure of the type. -/
def Elements.Completes (els whole : Elements) (vs : List (Option Value)) : Prop :=
  ∀ ws, els.Hold ws → whole.Hold (vs ++ ws)

theorem Elements.Completes.next {name : Text} {presence : Presence} {ty : Ty}
    {rest whole : Elements} {vs : List (Option Value)}
    (h : (Elements.cons name presence ty rest).Completes whole vs) {v : Option Value}
    (hv : (∃ w, v = some w ∧ ty.Holds w) ∨ presence.isOptional = true ∧ v = presence.absent) :
    rest.Completes whole (vs ++ [v]) := by
  intro ws hws
  rw [List.append_assoc, List.singleton_append]
  exact h _ ⟨hv, hws⟩

def Sought.Fails : Sought → Prop
  | .done r => ∃ n, r = .fail n
  | .text .. => True

theorem seekMember_fails (env : Env) (name : Text) (optional : Bool) (n : ℕ) (c : Cursor)
    (braces : ℤ) :
    Records (fun _ ↦ True) Sought.Fails (seekMember env name optional n c braces) := by
  induction n generalizing c braces with
  | zero => exact .timeout
  | succ n ih =>
    rw [seekMember]
    refine (Records.any _).bind fun r _ ↦ ?_
    split
    · split
      · exact .pure trivial
      · exact .tell_bind trivial (.pure ⟨_, rfl⟩)
    · split
      · exact ih _ _
      · exact ih _ _
      · split
        · exact .pure trivial
        · exact .tell_bind trivial (.pure ⟨_, rfl⟩)
      · exact .pure trivial
      · exact .tell_bind trivial (.pure ⟨_, rfl⟩)

theorem choiceName_fails (env : Env) (first : Option Text) (path : List ℕ) (buf : Text) :
    Records (fun _ ↦ True) (fun x ↦ ∀ r, x.2 = .inr r → ∃ n, r = .fail n)
      (choiceName env first path buf) := by
  have hfail {n : ℕ} : ∀ r : Rval,
      (Sum.inr (.fail n) : Text ⊕ Rval) = .inr r → ∃ n, r = .fail n :=
    fun r h ↦ ⟨n, (Sum.inr.inj h).symm⟩
  refine (Records.any _).bind fun r _ ↦ ?_
  split
  · exact .pure hfail
  · split
    · refine (Records.any _).bind fun r' _ ↦ ?_
      split
      · exact .pure hfail
      · split
        · exact .pure fun _ h ↦ (Sum.inl_ne_inr h).elim
        · exact .tell_bind trivial (.pure hfail)
    · exact .pure hfail

def Elements.Offers (els whole : Elements) (i : ℕ) : Prop :=
  (els.canBeEmpty = true → whole.canBeEmpty = true) ∧
    ∀ k v, els.HoldAlternative (k + 1) v → whole.HoldAlternative (i + k + 1) v

mutual
theorem decodeTy_yields (env : Env) : ∀ (ty : Ty) (path : List ℕ) (buf : Text),
    Yields ty.Returns (decodeTy env ty path buf)
  | .prim p, path, buf => decodePrimitive_yields env p path buf
  | .sequence els, path, buf =>
    decodeElements_yields env els els path _ buf 0 _ 0 [] fun _ hws ↦ hws
  | .sequenceOf ty, path, buf =>
    setOfLoop_yields (decodeTy_yields env ty) path _ _ 0 []
      ⟨fun _ ↦ Int.le_refl 0, fun _ hv ↦ absurd hv (List.not_mem_nil)⟩
  | .choice els, path, buf => by
    refine (choiceName_fails env _ path buf).bind fun x hx ↦ ?_
    split
    · refine decodeAlternative_yields env els els _ path 0 _ _ ⟨id, fun k v h ↦ ?_⟩
      rwa [Nat.zero_add]
    · next r hr =>
      obtain ⟨n, rfl⟩ := hx r hr
      exact .pure trivial

theorem decodeElements_yields (env : Env) : ∀ (els whole : Elements) (path : List ℕ) (mark : Token)
    (start : Text) (i : ℕ) (c : Cursor) (braces : ℤ) (vs : List (Option Value)),
    els.Completes whole vs →
    Yields (Ty.sequence whole).Returns (decodeElements env els path mark start i c braces vs)
  | .nil, whole, _, _, _, _, c, braces, vs, h => by
    have hvs : whole.Hold vs := by simpa using h [] rfl
    rw [decodeElements]
    exact (closeSequence_yields env hvs _ c braces).bind fun x hx ↦ .tell_bind trivial (.pure hx)
  | .cons name presence ty rest, whole, path, _, _, i, c, braces, vs, h => by
    have hnext : ∀ (mark : Token) start (c : Cursor) braces v,
        ((∃ w, v = some w ∧ ty.Holds w) ∨ presence.isOptional = true ∧ v = presence.absent) →
        Yields (Ty.sequence whole).Returns (nextElement path c braces rest.isNil (vs ++ [v])
          (decodeElements env rest path mark start (i + 1))) := by
      intro mark start c braces v hv
      unfold nextElement
      split
      · next hlast =>
        have hnil : rest = .nil := by
          cases rest with
          | nil => rfl
          | cons => exact absurd hlast.2 (by simp [Elements.isNil])
        refine .tell_bind trivial (.pure ?_)
        have hvs := h.next hv [] (hnil ▸ rfl)
        rwa [List.append_nil] at hvs
      · exact decodeElements_yields env rest whole path mark start (i + 1) c braces _ (h.next hv)
    rw [decodeElements]
    refine (seekMember_fails env _ _ _ c braces).bind fun x hx ↦ ?_
    split
    · obtain ⟨n, rfl⟩ := hx
      exact .pure trivial
    · split
      · refine .tell_bind trivial ((decodeTy_yields env ty _ _).bind fun y hy ↦ ?_)
        split
        · exact hnext _ _ _ _ _ (.inl ⟨_, rfl, hy⟩)
        · exact .tell_bind trivial (hnext _ _ _ _ _ (.inl ⟨_, rfl, hy.2⟩))
        · exact .pure trivial
        · exact .pure trivial
      · split
        · next hopt => exact hnext _ _ _ _ _ (.inr ⟨hopt, rfl⟩)
        · exact .tell_bind trivial (.pure trivial)

theorem decodeAlternative_yields (env : Env) : ∀ (els whole : Elements) (first : Option Text)
    (path : List ℕ) (i : ℕ) (choice : Text) (c : Cursor), els.Offers whole i →
    Yields (Ty.choice whole).Returns (decodeAlternative env els first path i choice c)
  | .nil, _, _, _, _, _, _, _ => .tell_bind trivial (.pure trivial)
  | .cons name presence ty rest, whole, first, path, i, choice, c, h => by
    rw [decodeAlternative]
    split
    · refine (decodeTy_yields env ty _ _).bind fun y hy ↦ ?_
      cases y with
      | ok k v => exact .pure (h.2 0 v hy)
      | empty k v =>
        refine .pure ⟨h.1 ?_, h.2 0 v hy.2⟩
        simp [Elements.canBeEmpty, hy.1]
      | wmore k => exact .pure trivial
      | fail k => exact .pure trivial
    · refine decodeAlternative_yields env rest whole first path (i + 1) choice c ⟨fun hr ↦ h.1 ?_, ?_⟩
      · simp [Elements.canBeEmpty, hr]
      · intro k v hv
        have := h.2 (k + 1) v hv
        rwa [Nat.add_right_comm i 1 k, Nat.add_assoc i k 1]
end

theorem gserDecode_holds {env : Env} {ty : Ty} {buf : Text} {n : ℕ} {v : Value}
    (h : (gserDecode env ty buf).res = some (.ok n v)) : ty.Holds v := by
  obtain ⟨r, hr, h⟩ := bind_res_eq_some.1 h
  have hret := (decodeTy_yields env ty [] _).2 r hr
  cases r with
  | ok k w =>
    cases h
    exact hret
  | empty k w => cases h
  | wmore k => cases h
  | fail k => cases h

end EnbL1Ppc.Gser
