import Mathlib.Data.List.Nodup
import Mathlib.Logic.Function.Basic
import Mathlib.Tactic.Common

namespace EnbL1Ppc.Lib

/-- The two link fields of the nodes of doubly linked lists; `none` is a null pointer. -/
structure Links (α : Type) where
  next : α → Option α
  prev : α → Option α

namespace Links

variable {α : Type}

def Linked (l : Links α) (x y : α) : Prop :=
  l.next x = some y ∧ l.prev y = some x

def Path (l : Links α) : α → List α → α → Prop
  | a, [], b => l.Linked a b
  | a, x :: xs, b => l.Linked a x ∧ l.Path x xs b

variable {l l' : Links α} {a b e n p x y : α} {xs ys : List α}

theorem Path.next (h : l.Path a xs b) : l.next a = some (xs.headD b) := by
  cases xs with
  | nil => exact h.1
  | cons x xs => exact h.1.1

theorem Path.prev (h : l.Path a xs b) : l.prev b = some (xs.getLastD a) := by
  induction xs generalizing a with
  | nil => exact h.2
  | cons x xs ih =>
    rw [List.getLastD_cons]
    exact ih h.2

theorem path_append_cons : l.Path a (xs ++ x :: ys) b ↔ l.Path a xs x ∧ l.Path x ys b := by
  induction xs generalizing a with
  | nil => rfl
  | cons z xs ih => simp only [List.cons_append, Path, ih, and_assoc]

theorem Path.imp (h : l.Path a xs b)
    (himp : ∀ x ∈ a :: xs, ∀ y ∈ xs ++ [b], l.Linked x y → l'.Linked x y) : l'.Path a xs b := by
  induction xs generalizing a with
  | nil => exact himp a (by simp) b (by simp) h
  | cons x xs ih =>
    refine ⟨himp a (by simp) x (by simp) h.1, ih h.2 fun z hz y hy ↦ ?_⟩
    exact himp z (List.mem_cons_of_mem _ hz) y (List.mem_cons_of_mem _ hy)

theorem Path.unique (h : l.Path a xs b) (h' : l.Path a ys b) (hb : b ∉ xs) (hb' : b ∉ ys) :
    xs = ys := by
  induction xs generalizing a ys with
  | nil =>
    cases ys with
    | nil => rfl
    | cons y ys =>
      have : b = y := Option.some.inj (h.1.symm.trans h'.1.1)
      exact absurd (this ▸ List.mem_cons_self) hb'
  | cons x xs ih =>
    cases ys with
    | nil =>
      have : b = x := Option.some.inj (h'.1.symm.trans h.1.1)
      exact absurd (this ▸ List.mem_cons_self) hb
    | cons y ys =>
      obtain rfl : x = y := Option.some.inj (h.1.1.symm.trans h'.1.1)
      rw [ih h.2 h'.2 (List.not_mem_of_not_mem_cons hb) (List.not_mem_of_not_mem_cons hb')]

theorem Path.linked_head (h : l.Path a xs b) : l.Linked a (xs.headD b) := by
  cases xs with
  | nil => exact h
  | cons x xs => exact h.1

theorem Path.linked (h : l.Path a (xs ++ ys) b) : l.Linked (xs.getLastD a) (ys.headD b) := by
  induction xs generalizing a with
  | nil => exact h.linked_head
  | cons x xs ih =>
    rw [List.getLastD_cons]
    exact ih h.2

theorem getLastD_mem (a : α) (xs : List α) : xs.getLastD a ∈ a :: xs := by
  induction xs generalizing a with
  | nil => simp
  | cons x xs ih =>
    rw [List.getLastD_cons]
    exact List.mem_cons_of_mem _ (ih x)

theorem getLastD_mem_append (a : α) (xs ys : List α) : xs.getLastD a ∈ a :: (xs ++ ys) :=
  List.cons_subset_cons a (List.subset_append_left xs ys) (getLastD_mem a xs)

theorem headD_mem (ys : List α) (b : α) : ys.headD b ∈ ys ++ [b] := by
  cases ys <;> simp

theorem ne_getLastD (h : (a :: (x :: xs ++ ys)).Nodup) : a ≠ (x :: xs).getLastD a := by
  rw [List.getLastD_cons]
  intro heq
  have hmem := getLastD_mem x xs
  rw [← heq] at hmem
  exact (List.nodup_cons.1 h).1 (List.mem_append_left _ hmem)

section Rings

variable {ι : Type} {head : ι → α} {c c' : ι → List α} {i : ι}

/-- Circular lists with the heads `head i` and the contents `c i`, without a common node. -/
structure Rings (l : Links α) (head : ι → α) (c : ι → List α) : Prop where
  path : ∀ i, l.Path (head i) (c i) (head i)
  nodup : ∀ i, (head i :: c i).Nodup
  disjoint : ∀ {i j}, i ≠ j → (head i :: c i).Disjoint (head j :: c j)

theorem Rings.next_head (h : l.Rings head c) (i : ι) :
    l.next (head i) = some ((c i).headD (head i)) :=
  (h.path i).next

theorem Rings.prev_head (h : l.Rings head c) (i : ι) :
    l.prev (head i) = some ((c i).getLastD (head i)) :=
  (h.path i).prev

theorem Rings.next (h : l.Rings head c) (hc : c i = xs ++ x :: ys) :
    l.next x = some (ys.headD (head i)) := by
  have hpath := h.path i
  rw [hc] at hpath
  exact (path_append_cons.1 hpath).2.next

theorem Rings.prev (h : l.Rings head c) (hc : c i = xs ++ x :: ys) :
    l.prev x = some (xs.getLastD (head i)) := by
  have hpath := h.path i
  rw [hc] at hpath
  exact (path_append_cons.1 hpath).1.prev

theorem Rings.head_not_mem (h : l.Rings head c) (i j : ι) : head i ∉ c j := by
  intro hmem
  by_cases hij : i = j
  · subst hij
    exact (List.nodup_cons.1 (h.nodup i)).1 hmem
  · exact h.disjoint hij List.mem_cons_self (List.mem_cons_of_mem _ hmem)

theorem Rings.eq_of_mem (h : l.Rings head c) {j : ι} (hi : x ∈ c i) (hj : x ∈ c j) : i = j := by
  by_contra hij
  exact h.disjoint hij (List.mem_cons_of_mem _ hi) (List.mem_cons_of_mem _ hj)

theorem Rings.not_mem_of_mem (h : l.Rings head c) {j : ι} (hi : x ∈ c i) (hj : j ≠ i) :
    x ∉ head j :: c j :=
  fun hx ↦ h.disjoint hj hx (List.mem_cons_of_mem _ hi)

theorem Rings.unique (h : l.Rings head c) (h' : l.Rings head c') : c = c' := by
  funext i
  exact (h.path i).unique (h'.path i) (h.head_not_mem i i) (h'.head_not_mem i i)

variable [DecidableEq ι]

theorem Rings.update {ws : List α} (h : l.Rings head c) (hi : l'.Path (head i) ws (head i))
    (hnd : (head i :: ws).Nodup) (hnew : ∀ x ∈ ws, ∀ j, j ≠ i → x ∉ head j :: c j)
    (hother : ∀ j, j ≠ i → l'.Path (head j) (c j) (head j)) :
    l'.Rings head (Function.update c i ws) := by
  have hdisj : ∀ j, j ≠ i → (head i :: ws).Disjoint (head j :: c j) := by
    intro j hj x hx hx'
    rcases List.mem_cons.1 hx with rfl | hx
    · exact h.disjoint hj hx' List.mem_cons_self
    · exact hnew x hx j hj hx'
  refine ⟨fun j ↦ ?_, fun j ↦ ?_, fun {j k} hjk ↦ ?_⟩
  · by_cases hj : j = i
    · subst hj
      rwa [Function.update_self]
    · rw [Function.update_of_ne hj]
      exact hother j hj
  · by_cases hj : j = i
    · subst hj
      rwa [Function.update_self]
    · rw [Function.update_of_ne hj]
      exact h.nodup j
  · by_cases hj : j = i
    · subst hj
      rw [Function.update_self, Function.update_of_ne (Ne.symm hjk)]
      exact hdisj k (Ne.symm hjk)
    · rw [Function.update_of_ne hj]
      by_cases hk : k = i
      · subst hk
        rw [Function.update_self]
        exact fun x hx hx' ↦ hdisj j hj hx' hx
      · rw [Function.update_of_ne hk]
        exact h.disjoint hjk

end Rings

variable [DecidableEq α]

def splice (l : Links α) (p e n : α) : Links α where
  next := Function.update (Function.update l.next e (some n)) p (some e)
  prev := Function.update (Function.update l.prev e (some p)) n (some e)

def join (l : Links α) (p e n : α) : Links α where
  next := Function.update (Function.update l.next p (some n)) e none
  prev := Function.update (Function.update l.prev n (some p)) e none

def unlink (l : Links α) (e : α) : Option (Links α) := do
  let p ← l.prev e
  let n ← l.next e
  some (l.join p e n)

theorem splice_next (hxp : x ≠ p) (hxe : x ≠ e) : (l.splice p e n).next x = l.next x :=
  (Function.update_of_ne hxp ..).trans (Function.update_of_ne hxe ..)

theorem join_next (hxp : x ≠ p) (hxe : x ≠ e) : (l.join p e n).next x = l.next x :=
  (Function.update_of_ne hxe ..).trans (Function.update_of_ne hxp ..)

theorem Linked.splice (h : l.Linked x y) (hpn : l.Linked p n) (hxp : x ≠ p) (hxe : x ≠ e)
    (hye : y ≠ e) : (l.splice p e n).Linked x y := by
  have hyn : y ≠ n := by
    rintro rfl
    exact hxp (Option.some.inj (h.2.symm.trans hpn.2))
  constructor
  · simpa [Links.splice, hxp, hxe] using h.1
  · simpa [Links.splice, hyn, hye] using h.2

theorem Linked.join (h : l.Linked x y) (hen : l.Linked e n) (hxp : x ≠ p) (hxe : x ≠ e)
    (hye : y ≠ e) : (l.join p e n).Linked x y := by
  have hyn : y ≠ n := by
    rintro rfl
    exact hxe (Option.some.inj (h.2.symm.trans hen.2))
  constructor
  · simpa [Links.join, hxp, hxe] using h.1
  · simpa [Links.join, hyn, hye] using h.2

theorem splice_linked_left (l : Links α) (hen : e ≠ n) : (l.splice p e n).Linked p e :=
  ⟨Function.update_self .., (Function.update_of_ne hen ..).trans (Function.update_self ..)⟩

theorem splice_linked_right (l : Links α) (hep : e ≠ p) : (l.splice p e n).Linked e n :=
  ⟨(Function.update_of_ne hep ..).trans (Function.update_self ..), Function.update_self ..⟩

theorem join_linked (l : Links α) (hpe : p ≠ e) (hne : n ≠ e) : (l.join p e n).Linked p n :=
  ⟨(Function.update_of_ne hpe ..).trans (Function.update_self ..),
    (Function.update_of_ne hne ..).trans (Function.update_self ..)⟩

theorem Path.splice_of_not_mem (h : l.Path a xs b) (hpn : l.Linked p n) (hp : p ∉ a :: xs)
    (he : e ∉ a :: xs) (heb : e ≠ b) : (l.splice p e n).Path a xs b := by
  refine h.imp fun x hx y hy hxy ↦ hxy.splice hpn ?_ ?_ ?_
  · rintro rfl
    exact hp hx
  · rintro rfl
    exact he hx
  · rintro rfl
    rcases List.mem_append.1 hy with hy | hy
    · exact he (List.mem_cons_of_mem _ hy)
    · exact heb (List.mem_singleton.1 hy)

theorem Path.join_of_not_mem (h : l.Path a xs b) (hen : l.Linked e n) (hp : p ∉ a :: xs)
    (he : e ∉ a :: xs) (heb : e ≠ b) : (l.join p e n).Path a xs b := by
  refine h.imp fun x hx y hy hxy ↦ hxy.join hen ?_ ?_ ?_
  · rintro rfl
    exact hp hx
  · rintro rfl
    exact he hx
  · rintro rfl
    rcases List.mem_append.1 hy with hy | hy
    · exact he (List.mem_cons_of_mem _ hy)
    · exact heb (List.mem_singleton.1 hy)

theorem Path.splice (h : l.Path a (xs ++ ys) b) (hnd : (a :: (xs ++ ys)).Nodup)
    (he : e ∉ a :: (xs ++ ys)) (heb : e ≠ b) :
    (l.splice (xs.getLastD a) e (ys.headD b)).Path a (xs ++ e :: ys) b := by
  have hlinked := h.linked
  induction xs generalizing a with
  | nil =>
    have hen : e ≠ ys.headD b := by
      rintro rfl
      rcases List.mem_append.1 (headD_mem ys b) with hy | hy
      · exact he (List.mem_cons_of_mem _ hy)
      · exact heb (List.mem_singleton.1 hy)
    refine ⟨splice_linked_left l hen, ?_⟩
    have hright := splice_linked_right (n := ys.headD b) l (List.ne_of_not_mem_cons he)
    cases ys with
    | nil => exact hright
    | cons y ys =>
      exact ⟨hright, h.2.splice_of_not_mem hlinked (List.nodup_cons.1 hnd).1
        (List.not_mem_of_not_mem_cons he) heb⟩
  | cons x xs ih =>
    refine ⟨h.1.splice hlinked (ne_getLastD hnd) ?_ ?_, ?_⟩
    · rintro rfl
      exact he (by simp)
    · rintro rfl
      exact he (by simp)
    · rw [List.getLastD_cons] at hlinked ⊢
      exact ih h.2 (List.nodup_cons.1 hnd).2 (List.not_mem_of_not_mem_cons he) hlinked

theorem Path.join (h : l.Path a (xs ++ e :: ys) b) (hnd : (a :: (xs ++ e :: ys)).Nodup)
    (heb : e ≠ b) : (l.join (xs.getLastD a) e (ys.headD b)).Path a (xs ++ ys) b := by
  have hlinked : l.Linked e (ys.headD b) := (path_append_cons.1 h).2.linked_head
  induction xs generalizing a with
  | nil =>
    obtain ⟨ha, hnd⟩ := List.nodup_cons.1 hnd
    have hae : a ≠ e := List.ne_of_not_mem_cons ha
    have hne : ys.headD b ≠ e := by
      intro heq
      have hmem := headD_mem ys b
      rw [heq] at hmem
      rcases List.mem_append.1 hmem with hy | hy
      · exact (List.nodup_cons.1 hnd).1 hy
      · exact heb (List.mem_singleton.1 hy)
    have hjoin := join_linked l hae hne
    cases ys with
    | nil => exact hjoin
    | cons y ys =>
      exact ⟨hjoin, h.2.2.join_of_not_mem hlinked (List.not_mem_of_not_mem_cons ha)
        (List.nodup_cons.1 hnd).1 heb⟩
  | cons x xs ih =>
    refine ⟨h.1.join hlinked (ne_getLastD hnd) ?_ ?_, ?_⟩
    · rintro rfl
      exact (List.nodup_cons.1 hnd).1 (by simp)
    · rintro rfl
      exact (List.nodup_cons.1 (List.nodup_cons.1 hnd).2).1 (by simp)
    · rw [List.getLastD_cons]
      exact ih h.2 (List.nodup_cons.1 hnd).2

section Rings

variable {ι : Type} {head : ι → α} {c : ι → List α} {i : ι} [DecidableEq ι]

theorem Rings.splice (h : l.Rings head c) (hc : c i = xs ++ ys) (he : ∀ j, e ∉ head j :: c j) :
    (l.splice (xs.getLastD (head i)) e (ys.headD (head i))).Rings head
      (Function.update c i (xs ++ e :: ys)) := by
  have hpath := h.path i
  have hnd := h.nodup i
  have hei := he i
  rw [hc] at hpath hnd hei
  refine h.update (hpath.splice hnd hei (List.ne_of_not_mem_cons hei)) ?_ ?_ ?_
  · rw [← List.cons_append, List.nodup_middle]
    exact List.nodup_cons.2 ⟨hei, hnd⟩
  · intro x hx j hj
    rcases List.mem_append.1 hx with hx | hx
    · exact h.not_mem_of_mem (hc ▸ List.mem_append_left _ hx) hj
    · rcases List.mem_cons.1 hx with rfl | hx
      · exact he j
      · exact h.not_mem_of_mem (hc ▸ List.mem_append_right _ hx) hj
  · intro j hj
    refine (h.path j).splice_of_not_mem hpath.linked ?_ (he j) (List.ne_of_not_mem_cons (he j))
    exact fun hx ↦ h.disjoint hj hx (hc ▸ getLastD_mem_append ..)

theorem Rings.unlink (h : l.Rings head c) (hc : c i = xs ++ e :: ys) :
    l.unlink e = some (l.join (xs.getLastD (head i)) e (ys.headD (head i))) ∧
      (l.join (xs.getLastD (head i)) e (ys.headD (head i))).Rings head
        (Function.update c i (xs ++ ys)) := by
  have hpath := h.path i
  have hnd := h.nodup i
  have hmem : e ∈ c i := by simp [hc]
  rw [hc] at hpath hnd
  refine ⟨by simp [Links.unlink, h.prev hc, h.next hc], ?_⟩
  refine h.update (hpath.join hnd fun heq ↦ h.head_not_mem i i (heq ▸ hmem)) ?_ ?_ ?_
  · rw [← List.cons_append, List.nodup_middle] at hnd
    exact (List.nodup_cons.1 hnd).2
  · intro x hx j hj
    refine h.not_mem_of_mem ?_ hj
    rw [hc]
    simp only [List.mem_append, List.mem_cons] at hx ⊢
    tauto
  · intro j hj
    have he := h.not_mem_of_mem hmem hj
    refine (h.path j).join_of_not_mem (path_append_cons.1 hpath).2.linked_head ?_ he
      (List.ne_of_not_mem_cons he)
    exact fun hx ↦ h.disjoint hj hx (hc ▸ getLastD_mem_append ..)

end Rings

section Ring

variable {h : α}

abbrev Ring (l : Links α) (h : α) (xs : List α) : Prop :=
  l.Rings (fun _ : Unit ↦ h) fun _ ↦ xs

omit [DecidableEq α] in
theorem update_unit (f : Unit → List α) (ws : List α) : Function.update f () ws = fun _ ↦ ws :=
  funext fun _ ↦ Function.update_self ..

theorem Ring.splice (hl : l.Ring h (xs ++ ys)) (he : e ∉ h :: (xs ++ ys)) :
    (l.splice (xs.getLastD h) e (ys.headD h)).Ring h (xs ++ e :: ys) := by
  have hrings := Rings.splice hl (i := ()) rfl fun _ ↦ he
  rwa [update_unit] at hrings

theorem Ring.unlink (hl : l.Ring h (xs ++ e :: ys)) :
    l.unlink e = some (l.join (xs.getLastD h) e (ys.headD h)) ∧
      (l.join (xs.getLastD h) e (ys.headD h)).Ring h (xs ++ ys) := by
  obtain ⟨hunlink, hrings⟩ := Rings.unlink hl (i := ()) rfl
  rw [update_unit] at hrings
  exact ⟨hunlink, hrings⟩

end Ring

end Links

end EnbL1Ppc.Lib
