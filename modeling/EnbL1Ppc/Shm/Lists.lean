import EnbL1Ppc.Shm.Heap
import Mathlib.Algebra.BigOperators.Group.List.Basic

namespace EnbL1Ppc.Shm

open Lib

/-- Two heaps that differ only in the lists and in the sizes of the list heads. -/
structure Heap.SameNodes (h h' : Heap) : Prop where
  tag : h'.tag = h.tag
  address : h'.address = h.address
  size : ∀ k, h'.size (.cell k) = h.size (.cell k)
  global : h'.global = h.global
  cells : h'.cells = h.cells
  supply : h'.supply = h.supply

theorem Heap.SameNodes.trans {h₁ h₂ h₃ : Heap} (h : h₁.SameNodes h₂) (h' : h₂.SameNodes h₃) :
    h₁.SameNodes h₃ where
  tag := h'.tag.trans h.tag
  address := h'.address.trans h.address
  size k := (h'.size k).trans (h.size k)
  global := h'.global.trans h.global
  cells := h'.cells.trans h.cells
  supply := h'.supply.trans h.supply

/-- The lists have the contents `c`, and every node is in the list it belongs to. It also holds
between the steps of an operation, when some nodes are in no list. -/
structure Lists (h : Heap) (c : ListId → List Ref) : Prop where
  rings : h.links.Rings .head c
  cell : ∀ l, ∀ r ∈ c l, ∃ k < h.cells, r = .cell k
  listOf : ∀ l, ∀ r ∈ c l, h.listOf l.kind r = l
  size_lt : ∀ r, h.size r < 2 ^ 32
  size_head : ∀ l, h.size (.head l) = ((c l).map h.size).sum % 2 ^ 32

def Listed (c : ListId → List Ref) (kind : Kind) (r : Ref) : Prop :=
  ∃ i, r ∈ c ⟨kind, i⟩

section Insertion

variable {size : Ref → ℕ} {e : Ref}

/-- The contents of a list after `list_add_free_area` or `list_add_allocated_area`. -/
def insertBySize (size : Ref → ℕ) (e : Ref) : List Ref → List Ref
  | [] => [e]
  | x :: rest =>
    if size (rest.getLastD x) ≤ size e then x :: rest ++ [e]
    else if size x > size e then e :: x :: rest
    else x :: e :: rest

theorem insertBySize_perm (size : Ref → ℕ) (e : Ref) (xs : List Ref) :
    (insertBySize size e xs).Perm (e :: xs) := by
  cases xs with
  | nil => exact .refl _
  | cons x rest =>
    rw [insertBySize]
    split
    · exact List.perm_append_singleton e (x :: rest)
    · split
      · exact .refl _
      · exact .swap e x rest

theorem place_rings {h : Heap} {c : ListId → List Ref} (hr : h.links.Rings .head c) (l : ListId)
    (he : ∀ j, e ∉ Ref.head j :: c j) (hempty : c l = [] → h.size (.head l) ≤ h.size e) :
    ∃ links, h.place (.head l) e = some links ∧
      links.Rings .head (Function.update c l (insertBySize h.size e (c l))) := by
  have hprev := hr.prev_head l
  have hnext := hr.next_head l
  cases hc : c l with
  | nil =>
    rw [hc] at hprev
    have hle := hempty hc
    have hnil : c l = [] ++ [] := hc
    refine ⟨h.links.splice (.head l) e (.head l), ?_, hr.splice hnil he⟩
    simp [Heap.place, hprev, hle]
  | cons x rest =>
    rw [hc, List.getLastD_cons] at hprev
    rw [hc] at hnext
    have hhead : c l = [] ++ x :: rest := hc
    have htl : c l = (x :: rest) ++ [] := by rw [hc, List.append_nil]
    have hmid : c l = [x] ++ rest := hc
    have hsecond := hr.next hhead
    rw [insertBySize]
    by_cases htail : h.size (rest.getLastD x) ≤ h.size e
    · rw [if_pos htail]
      refine ⟨h.links.splice (rest.getLastD x) e (.head l), ?_, ?_⟩
      · simp only [Heap.place, hprev, Option.bind_eq_bind, Option.bind_some, if_pos htail]
      · have hrings := hr.splice htl he
        rwa [List.getLastD_cons] at hrings
    · rw [if_neg htail]
      by_cases hfirst : h.size x > h.size e
      · rw [if_pos hfirst]
        refine ⟨h.links.splice (.head l) e x, ?_, hr.splice hhead he⟩
        simp only [Heap.place, hprev, hnext, List.headD_cons, Option.bind_eq_bind, Option.bind_some,
          if_neg htail, if_pos hfirst]
      · rw [if_neg hfirst]
        refine ⟨h.links.splice x e (rest.headD (.head l)), ?_, hr.splice hmid he⟩
        simp only [Heap.place, hprev, hnext, hsecond, List.headD_cons, Option.bind_eq_bind,
          Option.bind_some, if_neg htail, if_neg hfirst]

end Insertion

theorem insertBySize_congr {size size' : Ref → ℕ} {e : Ref} {xs : List Ref}
    (h : ∀ r ∈ e :: xs, size r = size' r) : insertBySize size e xs = insertBySize size' e xs := by
  rw [List.forall_mem_cons] at h
  cases xs with
  | nil => rfl
  | cons x rest =>
    rw [insertBySize, insertBySize, h.1, h.2 x List.mem_cons_self,
      h.2 _ (Links.getLastD_mem x rest)]

section Operations

variable {h h' : Heap} {c : ListId → List Ref} {kind : Kind} {r : Ref}

theorem Heap.SameNodes.listOf (hs : h.SameNodes h') (k : ℕ) :
    h'.listOf kind (.cell k) = h.listOf kind (.cell k) := by
  cases kind <;> simp [Heap.listOf, hs.size, hs.address]

theorem Heap.SameNodes.map_size (hs : h.SameNodes h') {xs : List Ref}
    (hx : ∀ r ∈ xs, ∃ k < h.cells, r = .cell k) : xs.map h'.size = xs.map h.size := by
  refine List.map_congr_left fun r hr ↦ ?_
  obtain ⟨k, -, rfl⟩ := hx r hr
  exact hs.size k

def Heap.relink (h : Heap) (l : ListId) (n : ℕ) (links : Links Ref) : Heap :=
  { h.setSize (.head l) n with links := links }

theorem Heap.relink_size {l : ListId} {n : ℕ} {links : Links Ref} (hr : r ≠ .head l) :
    (h.relink l n links).size r = h.size r := by
  change Function.update h.size (.head l) n r = h.size r
  exact Function.update_of_ne hr ..

theorem Heap.relink_sameNodes (h : Heap) (l : ListId) (n : ℕ) (links : Links Ref) :
    h.SameNodes (h.relink l n links) where
  tag := rfl
  address := rfl
  size _ := Heap.relink_size nofun
  global := rfl
  cells := rfl
  supply := rfl

theorem Lists.relink {l : ListId} {n : ℕ} {links : Links Ref} {ws : List Ref} (hl : Lists h c)
    (hrings : links.Rings .head (Function.update c l ws))
    (hcell : ∀ r ∈ ws, ∃ k < h.cells, r = .cell k) (hlist : ∀ r ∈ ws, h.listOf l.kind r = l)
    (hn : n = (ws.map h.size).sum % 2 ^ 32) :
    Lists (h.relink l n links) (Function.update c l ws) := by
  have hs := h.relink_sameNodes l n links
  have hhead : (h.relink l n links).size (.head l) = n := Function.update_self ..
  refine ⟨hrings, ?_, ?_, fun r ↦ ?_, ?_⟩
  · exact (Function.forall_update_iff c fun _ ws ↦ ∀ r ∈ ws, ∃ k < h.cells, r = .cell k).2
      ⟨hcell, fun l' _ ↦ hl.cell l'⟩
  · refine (Function.forall_update_iff c fun l' ws ↦
      ∀ r ∈ ws, (h.relink l n links).listOf l'.kind r = l').2 ⟨?_, ?_⟩
    · intro r hr
      obtain ⟨k, -, rfl⟩ := hcell r hr
      rw [hs.listOf, hlist _ hr]
    · intro l' _ r hr
      obtain ⟨k, -, rfl⟩ := hl.cell l' r hr
      rw [hs.listOf, hl.listOf l' _ hr]
  · by_cases hr : r = .head l
    · rw [hr, hhead, hn]
      exact Nat.mod_lt _ (by decide)
    · rw [Heap.relink_size hr]
      exact hl.size_lt r
  · refine (Function.forall_update_iff c fun l' ws ↦ (h.relink l n links).size (.head l') =
      (ws.map (h.relink l n links).size).sum % 2 ^ 32).2 ⟨?_, fun l' hl' ↦ ?_⟩
    · rw [hhead, hs.map_size hcell, hn]
    · rw [Heap.relink_size (by simpa using hl'), hl.size_head, hs.map_size (hl.cell l')]

theorem Lists.add (hl : Lists h c) (kind : Kind) {k : ℕ} (hk : k < h.cells)
    (hnew : ∀ l, Ref.cell k ∉ c l) :
    ∃ h', h.listAdd kind (.cell k) = some h' ∧ h.SameNodes h' ∧
      Lists h' (Function.update c (h.listOf kind (.cell k))
        (insertBySize h.size (.cell k) (c (h.listOf kind (.cell k))))) := by
  set l := h.listOf kind (.cell k) with hldef
  set n := (h.size (.head l) + h.size (.cell k)) % 2 ^ 32 with hn
  have hsize : ∀ r ∈ Ref.cell k :: c l, (h.setSize (.head l) n).size r = h.size r := by
    intro r hr
    refine Function.update_of_ne ?_ ..
    rintro rfl
    rcases List.mem_cons.1 hr with hr | hr
    · cases hr
    · exact hl.rings.head_not_mem l l hr
  have he : ∀ j, Ref.cell k ∉ Ref.head j :: c j := by
    intro j hj
    rcases List.mem_cons.1 hj with hj | hj
    · cases hj
    · exact hnew j hj
  have hempty : c l = [] → (h.setSize (.head l) n).size (.head l) ≤
      (h.setSize (.head l) n).size (.cell k) := by
    intro hc
    have hzero : h.size (.head l) = 0 := by
      rw [hl.size_head, hc]
      rfl
    rw [hsize _ List.mem_cons_self]
    simp only [Heap.setSize, Function.update_self, hn, hzero, Nat.zero_add]
    exact Nat.mod_le _ _
  obtain ⟨links, hplace, hrings⟩ := place_rings (h := h.setSize (.head l) n) hl.rings l he hempty
  rw [insertBySize_congr hsize] at hrings
  have hperm := insertBySize_perm h.size (.cell k) (c l)
  refine ⟨h.relink l n links, ?_, h.relink_sameNodes l n links, hl.relink hrings ?_ ?_ ?_⟩
  · simp only [Heap.listAdd, ← hldef, ← hn, hplace, Option.bind_eq_bind, Option.bind_some]
    rfl
  · intro r hr
    rcases List.mem_cons.1 (hperm.subset hr) with rfl | hr
    · exact ⟨k, hk, rfl⟩
    · exact hl.cell l r hr
  · intro r hr
    have hkind : l.kind = kind := by cases kind <;> rfl
    rcases List.mem_cons.1 (hperm.subset hr) with rfl | hr
    · rw [hkind]
    · exact hl.listOf l r hr
  · rw [(hperm.map h.size).sum_eq, List.map_cons, List.sum_cons, hn, hl.size_head]
    omega

theorem Lists.remove (hl : Lists h c) {l : ListId} (hr : r ∈ c l) :
    ∃ h', h.listRemove l.kind r = some h' ∧ h.SameNodes h' ∧
      Lists h' (Function.update c l ((c l).erase r)) := by
  obtain ⟨xs, ys, hc⟩ := List.append_of_mem hr
  have hlist := hl.listOf l r hr
  set n := (h.size (.head l) + 2 ^ 32 - h.size r) % 2 ^ 32 with hn
  obtain ⟨hunlink, hrings⟩ := hl.rings.unlink hc
  set links := h.links.join (xs.getLastD (.head l)) r (ys.headD (.head l))
  have herase : (c l).erase r = xs ++ ys := by
    have hnd := (List.nodup_cons.1 (hl.rings.nodup l)).2
    rw [hc] at hnd
    have hrx : r ∉ xs := fun hx ↦ (List.nodup_append.1 hnd).2.2 r hx r List.mem_cons_self rfl
    rw [hc, List.erase_append_right _ hrx, List.erase_cons_head]
  refine ⟨h.relink l n links, ?_, h.relink_sameNodes l n links,
    hl.relink (herase ▸ hrings) ?_ ?_ ?_⟩
  · have hunlink' : (h.setSize (.head l) n).links.unlink r = some links := hunlink
    simp only [Heap.listRemove, hlist, ← hn, hunlink', Option.bind_eq_bind, Option.bind_some]
    rfl
  · exact fun r' hr' ↦ hl.cell l r' (List.mem_of_mem_erase hr')
  · exact fun r' hr' ↦ hl.listOf l r' (List.mem_of_mem_erase hr')
  · have hsum : ((c l).map h.size).sum = h.size r + (((c l).erase r).map h.size).sum := by
      rw [((List.perm_cons_erase hr).map h.size).sum_eq, List.map_cons, List.sum_cons]
    have hlt := hl.size_lt r
    rw [hn, hl.size_head, hsum]
    omega

theorem Lists.congr (hl : Lists h c) (hlinks : h'.links = h.links) (hcells : h.cells ≤ h'.cells)
    (hhead : ∀ l, h'.size (.head l) = h.size (.head l))
    (hmem : ∀ l, ∀ r ∈ c l, h'.size r = h.size r ∧ h'.address r = h.address r)
    (hlt : ∀ r, h'.size r < 2 ^ 32) : Lists h' c where
  rings := hlinks ▸ hl.rings
  cell l r hr := by
    obtain ⟨k, hk, rfl⟩ := hl.cell l r hr
    exact ⟨k, Nat.lt_of_lt_of_le hk hcells, rfl⟩
  listOf l r hr := by
    obtain ⟨hs, ha⟩ := hmem l r hr
    refine Eq.trans ?_ (hl.listOf l r hr)
    cases l.kind <;> simp [Heap.listOf, hs, ha]
  size_lt := hlt
  size_head l := by
    rw [hhead, hl.size_head, List.map_congr_left fun r hr ↦ (hmem l r hr).1]

theorem Lists.insert (hl : Lists h c) (kind : Kind) {k : ℕ} (hk : k < h.cells)
    (hnew : ∀ kind, ¬ Listed c kind (.cell k)) :
    ∃ h' c', h.listAdd kind (.cell k) = some h' ∧ h.SameNodes h' ∧ Lists h' c' ∧
      ∀ kind' r, Listed c' kind' r ↔ Listed c kind' r ∨ kind' = kind ∧ r = .cell k := by
  obtain ⟨h', hadd, hs, hl'⟩ := hl.add kind hk fun l hmem ↦ hnew l.kind ⟨l.index, hmem⟩
  refine ⟨h', _, hadd, hs, hl', fun kind' r ↦ ?_⟩
  set l := h.listOf kind (.cell k) with hldef
  have hkind : l.kind = kind := by cases kind <;> rfl
  have hmem : ∀ r, r ∈ insertBySize h.size (.cell k) (c l) ↔ r = .cell k ∨ r ∈ c l := fun r ↦ by
    rw [(insertBySize_perm h.size (.cell k) (c l)).mem_iff, List.mem_cons]
  constructor
  · rintro ⟨i, hi⟩
    by_cases hil : (⟨kind', i⟩ : ListId) = l
    · rw [hil, Function.update_self, hmem] at hi
      rcases hi with rfl | hi
      · exact .inr ⟨by rw [← hkind, ← hil], rfl⟩
      · exact .inl ⟨i, hil ▸ hi⟩
    · rw [Function.update_of_ne hil] at hi
      exact .inl ⟨i, hi⟩
  · rintro (⟨i, hi⟩ | ⟨rfl, rfl⟩)
    · refine ⟨i, ?_⟩
      by_cases hil : (⟨kind', i⟩ : ListId) = l
      · rw [hil, Function.update_self, hmem]
        exact .inr (hil ▸ hi)
      · rwa [Function.update_of_ne hil]
    · refine ⟨l.index, ?_⟩
      rw [show (⟨kind', l.index⟩ : ListId) = l by rw [← hkind], Function.update_self, hmem]
      exact .inl rfl

theorem Lists.delete (hl : Lists h c) (hr : Listed c kind r) :
    ∃ h' c', h.listRemove kind r = some h' ∧ h.SameNodes h' ∧ Lists h' c' ∧
      ∀ kind' r', Listed c' kind' r' ↔ Listed c kind' r' ∧ r' ≠ r := by
  obtain ⟨i, hi⟩ := hr
  obtain ⟨h', hremove, hs, hl'⟩ := hl.remove hi
  refine ⟨h', _, hremove, hs, hl', fun kind' r' ↦ ?_⟩
  have hnd := (List.nodup_cons.1 (hl.rings.nodup ⟨kind, i⟩)).2
  have hmem : ∀ j, r' ∈ Function.update c ⟨kind, i⟩ ((c ⟨kind, i⟩).erase r) ⟨kind', j⟩ ↔
      r' ∈ c ⟨kind', j⟩ ∧ r' ≠ r := by
    intro j
    by_cases hj : (⟨kind', j⟩ : ListId) = ⟨kind, i⟩
    · rw [hj, Function.update_self, hnd.mem_erase_iff, and_comm]
    · rw [Function.update_of_ne hj]
      refine ⟨fun h ↦ ⟨h, ?_⟩, fun h ↦ h.1⟩
      rintro rfl
      exact hj (hl.rings.eq_of_mem h hi)
  simp only [Listed, hmem, exists_and_right]

end Operations

end EnbL1Ppc.Shm
