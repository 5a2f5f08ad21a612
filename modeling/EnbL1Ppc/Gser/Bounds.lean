import EnbL1Ppc.Gser.Decoder

namespace EnbL1Ppc.Gser

open Lib Logged

/-!
A run with a smaller bound is the beginning of a run with a larger one.
-/

def Env.withBound (env : Env) (N : ℕ) : Env :=
  { env with bound := N }

section Cut

variable {env : Env} {N N' : ℕ}

theorem skipSpaces_cut {n n' : ℕ} (hn : n ≤ n') (c : Cursor) :
    Cut (skipSpaces (env.withBound N) n c) (skipSpaces (env.withBound N') n' c) := by
  induction n generalizing n' c with
  | zero => exact .timeout _
  | succ n ih =>
    obtain ⟨n', rfl⟩ := Nat.exists_eq_add_of_le' (Nat.lt_of_lt_of_le (Nat.succ_pos n) hn)
    rw [skipSpaces, skipSpaces]
    refine .bind (.refl _) fun _ ↦ .bind (.refl _) fun _ ↦ ?_
    exact .ite (fun _ ↦ ih (by omega) _) fun _ ↦ .refl _

variable (hN : N ≤ N')
include hN

theorem gserDecodeGeneral_cut (p : Primitive) (path : List ℕ) (buf : Text) :
    Cut (gserDecodeGeneral (env.withBound N) p path buf)
      (gserDecodeGeneral (env.withBound N') p path buf) :=
  .bind (skipSpaces_cut hN _) fun _ ↦ .refl _

theorem decodePrimitive_cut (p : Primitive) (path : List ℕ) (buf : Text) :
    Cut (decodePrimitive (env.withBound N) p path buf)
      (decodePrimitive (env.withBound N') p path buf) :=
  .bind (gserDecodeGeneral_cut hN p path buf) fun _ ↦ .refl _

theorem seekMember_cut (name : Text) (optional : Bool) {n n' : ℕ} (hn : n ≤ n') (c : Cursor)
    (braces : ℤ) : Cut (seekMember (env.withBound N) name optional n c braces)
      (seekMember (env.withBound N') name optional n' c braces) := by
  induction n generalizing n' c braces with
  | zero => exact .timeout _
  | succ n ih =>
    obtain ⟨n', rfl⟩ := Nat.exists_eq_add_of_le' (Nat.lt_of_lt_of_le (Nat.succ_pos n) hn)
    rw [seekMember, seekMember]
    refine .bind (skipSpaces_cut hN _) fun r ↦ ?_
    split
    · exact .refl _
    · split
      · exact ih (by omega) _ _
      · exact ih (by omega) _ _
      · exact .refl _
      · exact .refl _
      · exact .refl _

theorem closeSequence_cut (v : Value) {n n' : ℕ} (hn : n ≤ n') (c : Cursor) (braces : ℤ) :
    Cut (closeSequence (env.withBound N) v n c braces)
      (closeSequence (env.withBound N') v n' c braces) := by
  induction n generalizing n' c braces with
  | zero => exact .timeout _
  | succ n ih =>
    obtain ⟨n', rfl⟩ := Nat.exists_eq_add_of_le' (Nat.lt_of_lt_of_le (Nat.succ_pos n) hn)
    rw [closeSequence, closeSequence]
    refine .bind (skipSpaces_cut hN _) fun r ↦ .bind (.refl _) fun token ↦ ?_
    split
    · exact .bind (.refl _) fun _ ↦ ih (by omega) _ _
    · exact .bind (.refl _) fun _ ↦ ih (by omega) _ _
    · refine .bind (.refl _) fun _ ↦ .bind (.refl _) fun _ ↦ ?_
      split
      · exact .refl _
      · exact ih (by omega) _ _
    · exact .refl _
    · exact .refl _

omit hN in
theorem addElement_cut (c : Cursor) (braces : ℤ) (items : List Value) (moved again : Bool)
    {loop loop' : Cursor → ℤ → List Value → Logged Event Rval}
    (h : ∀ c braces items, Cut (loop c braces items) (loop' c braces items)) (x : Rval) :
    Cut (addElement c braces items moved again loop x)
      (addElement c braces items moved again loop' x) := by
  cases x with
  | ok k v => exact .bind (.refl _) fun _ ↦ h _ _ _
  | empty k v => exact .refl _
  | wmore k => exact .refl _
  | fail k => exact .refl _

theorem setOfLoop_cut {element element' : List ℕ → Text → Logged Event Rval}
    (he : ∀ path buf, Cut (element path buf) (element' path buf)) (path : List ℕ) {n n' : ℕ}
    (hn : n ≤ n') (c : Cursor) (braces : ℤ) (items : List Value) :
    Cut (setOfLoop (env.withBound N) element path n c braces items)
      (setOfLoop (env.withBound N') element' path n' c braces items) := by
  induction n generalizing n' c braces items with
  | zero => exact .timeout _
  | succ n ih =>
    obtain ⟨n', rfl⟩ := Nat.exists_eq_add_of_le' (Nat.lt_of_lt_of_le (Nat.succ_pos n) hn)
    have hadd : ∀ (c : Cursor) braces moved again, Cut
        (element (items.length :: path) c.buf >>=
          addElement c braces items moved again (setOfLoop (env.withBound N) element path n))
        (element' (items.length :: path) c.buf >>=
          addElement c braces items moved again (setOfLoop (env.withBound N') element' path n')) :=
      fun c braces moved again ↦ .bind (he _ _) fun x ↦
        addElement_cut c braces items moved again (fun c b i ↦ ih (by omega) c b i) x
    rw [setOfLoop, setOfLoop]
    refine .bind (skipSpaces_cut hN _) fun r ↦ ?_
    split
    · exact .refl _
    · refine .bind (.refl _) fun _ ↦ ?_
      split
      · exact hadd _ _ _ _
      · exact hadd _ _ _ _
      · refine .bind (.refl _) fun _ ↦ ?_
        split
        · exact .refl _
        · exact ih (by omega) _ _ _
      · exact hadd _ _ _ _

theorem choiceName_cut (first : Option Text) (path : List ℕ) (buf : Text) :
    Cut (choiceName (env.withBound N) first path buf)
      (choiceName (env.withBound N') first path buf) := by
  refine .bind (skipSpaces_cut hN _) fun r ↦ ?_
  split
  · exact .refl _
  · split
    · exact .bind (skipSpaces_cut hN _) fun _ ↦ .refl _
    · exact .refl _

omit hN in
theorem nextElement_cut (path : List ℕ) (c : Cursor) (braces : ℤ) (isLast : Bool)
    (vs : List (Option Value)) {loop loop' : Cursor → ℤ → List (Option Value) → Logged Event Rval}
    (h : Cut (loop c braces vs) (loop' c braces vs)) :
    Cut (nextElement path c braces isLast vs loop)
      (nextElement path c braces isLast vs loop') := by
  unfold nextElement
  split
  · exact .refl _
  · exact h

end Cut

mutual
theorem decodeTy_cut {env : Env} {N N' : ℕ} (hN : N ≤ N') : ∀ (ty : Ty) (path : List ℕ)
    (buf : Text), Cut (decodeTy (env.withBound N) ty path buf) (decodeTy (env.withBound N') ty path buf)
  | .prim p, path, buf => decodePrimitive_cut hN p path buf
  | .sequence els, path, buf => decodeElements_cut hN els path _ buf 0 _ 0 []
  | .sequenceOf ty, path, buf => setOfLoop_cut hN (decodeTy_cut hN ty) path hN _ 0 []
  | .choice els, path, buf => by
    refine .bind (choiceName_cut hN _ path buf) fun x ↦ ?_
    split
    · exact decodeAlternative_cut hN els _ path 0 _ _
    · exact .refl _

theorem decodeElements_cut {env : Env} {N N' : ℕ} (hN : N ≤ N') : ∀ (els : Elements)
    (path : List ℕ) (mark : Token) (start : Text) (i : ℕ) (c : Cursor) (braces : ℤ)
    (vs : List (Option Value)),
    Cut (decodeElements (env.withBound N) els path mark start i c braces vs)
      (decodeElements (env.withBound N') els path mark start i c braces vs)
  | .nil, _, _, _, _, c, braces, vs => .bind (closeSequence_cut hN _ hN c braces) fun _ ↦ .refl _
  | .cons name presence ty rest, path, _, _, i, c, braces, vs => by
    have hnext : ∀ (mark : Token) start (c : Cursor) braces vs, Cut
        (nextElement path c braces rest.isNil vs
          (decodeElements (env.withBound N) rest path mark start (i + 1)))
        (nextElement path c braces rest.isNil vs
          (decodeElements (env.withBound N') rest path mark start (i + 1))) :=
      fun mark start c braces vs ↦ nextElement_cut _ _ _ _ _
        (decodeElements_cut hN rest path mark start (i + 1) c braces vs)
    rw [decodeElements, decodeElements]
    refine .bind (seekMember_cut hN _ _ hN _ _) fun x ↦ ?_
    split
    · exact .refl _
    · split
      · refine .bind (.refl _) fun _ ↦ .bind (decodeTy_cut hN ty _ _) fun y ↦ ?_
        split
        · exact hnext _ _ _ _ _
        · exact .bind (.refl _) fun _ ↦ hnext _ _ _ _ _
        · exact .refl _
        · exact .refl _
      · split
        · exact hnext _ _ _ _ _
        · exact .refl _

theorem decodeAlternative_cut {env : Env} {N N' : ℕ} (hN : N ≤ N') : ∀ (els : Elements)
    (first : Option Text) (path : List ℕ) (i : ℕ) (choice : Text) (c : Cursor),
    Cut (decodeAlternative (env.withBound N) els first path i choice c)
      (decodeAlternative (env.withBound N') els first path i choice c)
  | .nil, _, _, _, _, _ => .refl _
  | .cons name _ ty rest, first, path, i, choice, c => by
    rw [decodeAlternative, decodeAlternative]
    split
    · exact .bind (decodeTy_cut hN ty _ _) fun _ ↦ .refl _
    · exact decodeAlternative_cut hN rest first path (i + 1) choice c
end

theorem gserDecode_cut (env : Env) {N N' : ℕ} (hN : N ≤ N') (ty : Ty) (buf : Text) :
    Cut (gserDecode (env.withBound N) ty buf) (gserDecode (env.withBound N') ty buf) :=
  .bind (decodeTy_cut hN ty [] _) fun _ ↦ .refl _

end EnbL1Ppc.Gser
