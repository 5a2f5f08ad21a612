import EnbL1Ppc.Shm.Release

namespace EnbL1Ppc.Shm

open Lib

section Order

variable {size size' : Ref → ℕ} {e t : Ref} {xs ys : List Ref}

def LastLargest (size : Ref → ℕ) (xs : List Ref) : Prop :=
  ∀ t ∈ xs.getLast?, ∀ r ∈ xs, size r ≤ size t

instance (size : Ref → ℕ) (xs : List Ref) : Decidable (LastLargest size xs) :=
  inferInstanceAs (Decidable (∀ t ∈ xs.getLast?, ∀ r ∈ xs, size r ≤ size t))

theorem filter_ne_eq_self (h : e ∉ xs) : xs.filter (· ≠ e) = xs :=
  List.filter_eq_self.2 fun _ hx ↦ decide_eq_true (ne_of_mem_of_not_mem hx h)

theorem lastLargest_nil (size : Ref → ℕ) : LastLargest size [] := by
  simp [LastLargest]

theorem lastLargest_concat : LastLargest size (xs ++ [t]) ↔ ∀ r ∈ xs, size r ≤ size t := by
  simp [LastLargest, or_imp, forall_and]

theorem lastLargest_congr (h : ∀ r ∈ xs, size' r = size r) :
    LastLargest size' xs ↔ LastLargest size xs := by
  refine forall₂_congr fun t ht ↦ forall₂_congr fun r hr ↦ ?_
  rw [h r hr, h t (List.mem_of_getLast? ht)]

theorem insertBySize_of_lt (xs : List Ref) (h : size e < size t) :
    ∃ ys, ys.Perm (e :: xs) ∧ insertBySize size e (xs ++ [t]) = ys ++ [t] := by
  cases xs with
  | nil => exact ⟨[e], .refl _, by simp [insertBySize, h]⟩
  | cons x xs =>
    rw [List.cons_append, insertBySize, List.getLastD_concat, if_neg h.not_ge]
    split
    · exact ⟨e :: x :: xs, .refl _, rfl⟩
    · exact ⟨x :: e :: xs, .swap e x xs, rfl⟩

theorem insertBySize_of_le (h : size t ≤ size e) :
    insertBySize size e (xs ++ [t]) = xs ++ [t] ++ [e] := by
  cases xs with
  | nil => simp [insertBySize, h]
  | cons x xs => rw [List.cons_append, insertBySize, List.getLastD_concat, if_pos h]

theorem lastLargest_insertBySize :
    LastLargest size (insertBySize size e xs) ↔
      LastLargest size xs ∨ ∀ r ∈ xs, size r ≤ size e := by
  rcases xs.eq_nil_or_concat' with rfl | ⟨xs, t, rfl⟩
  · simp [insertBySize, LastLargest]
  · rw [lastLargest_concat, List.forall_mem_append, List.forall_mem_singleton]
    rcases lt_or_ge (size e) (size t) with hlt | hle
    · obtain ⟨ys, hperm, heq⟩ := insertBySize_of_lt xs hlt
      rw [heq, lastLargest_concat, or_iff_left fun h ↦ hlt.not_ge h.2]
      constructor
      · exact fun h r hr ↦ h r (hperm.symm.subset (List.mem_cons_of_mem e hr))
      · intro h r hr
        rcases List.mem_cons.1 (hperm.subset hr) with rfl | hr
        · exact hlt.le
        · exact h r hr
    · rw [insertBySize_of_le hle, lastLargest_concat, List.forall_mem_append,
        List.forall_mem_singleton]
      constructor
      · exact .inr
      · rintro (h | h)
        · exact ⟨fun r hr ↦ (h r hr).trans hle, hle⟩
        · exact h

/-- The last entry or the entry `t`, which is to be sorted in again, is a largest one. -/
def Mendable (size : Ref → ℕ) (t : Ref) (xs : List Ref) : Prop :=
  LastLargest size xs ∨ t ∈ xs ∧ ∀ r ∈ xs, size r ≤ size t

theorem Mendable.congr (hm : Mendable size t xs) (h : ∀ r ∈ xs, size' r = size r) :
    Mendable size' t xs := by
  refine hm.imp (lastLargest_congr h).2 fun ⟨ht, hle⟩ ↦ ⟨ht, fun r hr ↦ ?_⟩
  rw [h r hr, h t ht]
  exact hle r hr

theorem Mendable.insertBySize (hm : Mendable size t xs) (e : Ref) :
    Mendable size t (insertBySize size e xs) := by
  rcases hm with h | ⟨ht, hle⟩
  · exact .inl (lastLargest_insertBySize.2 (.inl h))
  · have hperm := insertBySize_perm size e xs
    rcases le_total (size t) (size e) with hte | het
    · exact .inl (lastLargest_insertBySize.2 (.inr fun r hr ↦ (hle r hr).trans hte))
    · refine .inr ⟨hperm.symm.subset (List.mem_cons_of_mem e ht), fun r hr ↦ ?_⟩
      rcases List.mem_cons.1 (hperm.subset hr) with rfl | hr
      · exact het
      · exact hle r hr

theorem LastLargest.mendable (h : LastLargest size (xs ++ e :: ys))
    (ht : xs = [] ∨ t ∈ xs ∧ ∀ r ∈ xs, size r ≤ size t) : Mendable size t (xs ++ ys) := by
  rcases ys.eq_nil_or_concat' with rfl | ⟨ys, l, rfl⟩
  · rw [List.append_nil]
    rcases ht with rfl | ht
    · exact .inl (lastLargest_nil size)
    · exact .inr ht
  · rw [← List.cons_append, ← List.append_assoc, lastLargest_concat] at h
    rw [← List.append_assoc]
    refine .inl (lastLargest_concat.2 fun r hr ↦ h r ?_)
    simp only [List.mem_append, List.mem_cons] at hr ⊢
    tauto

theorem Mendable.lastLargest (hm : Mendable size t xs) (ht : t ∉ xs) : LastLargest size xs :=
  hm.resolve_right fun h ↦ ht h.1

theorem Mendable.resort (hm : Mendable size t xs) :
    LastLargest size (xs.filter (· ≠ t)) ∨ ∀ r ∈ xs.filter (· ≠ t), size r ≤ size t := by
  rcases hm with h | ⟨-, hle⟩
  · rcases xs.eq_nil_or_concat' with rfl | ⟨xs, l, rfl⟩
    · exact .inl (lastLargest_nil size)
    · rw [lastLargest_concat] at h
      by_cases hl : l = t
      · subst hl
        refine .inr fun r hr ↦ ?_
        obtain ⟨hr, hne⟩ := List.mem_filter.1 hr
        rcases List.mem_append.1 hr with hr | hr
        · exact h r hr
        · exact (congrArg size (List.mem_singleton.1 hr)).le
      · have hlast : [l].filter (· ≠ t) = [l] := by simp [hl]
        rw [List.filter_append, hlast, lastLargest_concat]
        exact .inl fun r hr ↦ h r (List.mem_of_mem_filter hr)
  · exact .inr fun r hr ↦ hle r (List.mem_of_mem_filter hr)

end Order

section Contents

variable {h h' : Heap} {c : ListId → List Ref} {l : ListId} {N N' : Set Ref} {r : Ref} {kind : Kind}
  {i : Fin 9} {k : ℕ}

def Heap.entriesFrom (h : Heap) (head : Ref) : ℕ → Ref → List Ref
  | 0, _ => []
  | n + 1, r => if r = head then [] else r :: (h.links.next r).elim [] (h.entriesFrom head n)

def Heap.freeList (h : Heap) (i : Fin 9) : List Ref :=
  (h.links.next (.head ⟨.free, i⟩)).elim [] (h.entriesFrom (.head ⟨.free, i⟩) h.cells)

def Heap.LastEntries (h : Heap) : Prop :=
  ∀ i, LastLargest h.size (h.freeList i)

def Heap.Receives (h : Heap) (F : Fin 9 → List Ref) (e : Ref) : Prop :=
  h.freeList = Function.update F (listIndex (h.size e))
    (insertBySize h.size e (F (listIndex (h.size e))))

theorem Heap.Receives.lastEntries_iff {F : Fin 9 → List Ref} (hr : h.Receives F r) :
    h.LastEntries ↔ ∀ i, LastLargest h.size (F i) ∨
      i = listIndex (h.size r) ∧ ∀ x ∈ F i, h.size x ≤ h.size r := by
  rw [Heap.LastEntries, hr, Function.forall_update_iff F fun _ xs ↦ LastLargest h.size xs,
    lastLargest_insertBySize]
  constructor
  · rintro ⟨hown, hother⟩ i
    by_cases hi : i = listIndex (h.size r)
    · subst hi
      exact hown.imp_right fun hle ↦ ⟨rfl, hle⟩
    · exact .inl (hother i hi)
  · intro hall
    exact ⟨(hall _).imp_right And.right, fun i hi ↦ (hall i).resolve_right fun hown ↦ hi hown.1⟩

theorem entriesFrom_eq (hr : h.links.Rings .head c) {xs ys : List Ref} {n : ℕ}
    (hc : c l = xs ++ ys) (hn : ys.length ≤ n) :
    h.entriesFrom (.head l) n (ys.headD (.head l)) = ys := by
  induction ys generalizing xs n with
  | nil => cases n <;> simp [Heap.entriesFrom]
  | cons y ys ih =>
    obtain ⟨n, rfl⟩ := Nat.exists_eq_succ_of_ne_zero (Nat.ne_of_gt (Nat.zero_lt_of_lt hn))
    have hy : y ≠ .head l := fun heq ↦ hr.head_not_mem l l (by simp [hc, ← heq])
    have hnext := hr.next hc
    rw [List.append_cons] at hc
    rw [List.headD_cons, Heap.entriesFrom, if_neg hy, hnext, Option.elim_some,
      ih hc (Nat.le_of_succ_le_succ hn)]

theorem Lists.freeList_eq (hl : Lists h c) (i : Fin 9) : h.freeList i = c ⟨.free, i⟩ := by
  rw [Heap.freeList, hl.rings.next_head, Option.elim_some]
  exact entriesFrom_eq hl.rings (List.nil_append _).symm (hl.length_le _)

namespace Filed

theorem of_delete (hf : Filed h N) (hr : r ∈ N) (htag : h.tag r = kind)
    (heq : h.listRemove kind r = some h') : h.SameNodes h' ∧ Filed h' (N \ {r}) := by
  obtain ⟨h₁, hremove, hs, hf₁⟩ := hf.delete kind hr htag
  cases heq.symm.trans hremove
  exact ⟨hs, hf₁⟩

theorem of_insert (hf : Filed h N) (hk : k < h.cells) (hnew : .cell k ∉ N)
    (htag : h.tag (.cell k) = kind) (heq : h.listAdd kind (.cell k) = some h') :
    h.SameNodes h' ∧ Filed h' (Insert.insert (.cell k) N) := by
  obtain ⟨h₁, hadd, hs, hf₁⟩ := hf.insert kind hk hnew htag
  cases heq.symm.trans hadd
  exact ⟨hs, hf₁⟩

theorem of_mem_freeList (hf : Filed h N) (hr : r ∈ h.freeList i) : r ∈ N ∧ h.tag r = .free := by
  obtain ⟨c, hl, hlisted⟩ := hf
  rw [hl.freeList_eq] at hr
  exact (hlisted .free r).1 ⟨i, hr⟩

theorem cell_of_mem_freeList (hf : Filed h N) (hr : r ∈ h.freeList i) :
    ∃ k < h.cells, r = .cell k :=
  hf.cell (hf.of_mem_freeList hr).1

theorem eq_listIndex_of_mem_freeList (hf : Filed h N) (hr : r ∈ h.freeList i) :
    i = listIndex (h.size r) := by
  obtain ⟨c, hl, -⟩ := hf
  rw [hl.freeList_eq] at hr
  have hlist := hl.listOf _ r hr
  exact (congrArg ListId.index hlist).symm

theorem freeList_congr (hf : Filed h N) (hf' : Filed h' N') (hlinks : h'.links = h.links) :
    h'.freeList = h.freeList := by
  obtain ⟨c, hl, -⟩ := hf
  obtain ⟨c', hl', -⟩ := hf'
  obtain rfl : c' = c := hl'.rings.unique (hlinks ▸ hl.rings)
  funext i
  rw [hl'.freeList_eq, hl.freeList_eq]

theorem freeList_delete (hf : Filed h N) (hr : r ∈ N) (htag : h.tag r = kind)
    (heq : h.listRemove kind r = some h') (i : Fin 9) :
    h'.freeList i = (h.freeList i).filter (· ≠ r) := by
  obtain ⟨c, hl, hlisted⟩ := hf
  obtain ⟨j, hj⟩ := (hlisted kind r).2 ⟨hr, htag⟩
  obtain ⟨h₁, hremove, -, hl'⟩ := hl.remove hj
  cases heq.symm.trans hremove
  rw [hl'.freeList_eq, hl.freeList_eq]
  by_cases hi : (⟨.free, i⟩ : ListId) = ⟨kind, j⟩
  · have hnd := (List.nodup_cons.1 (hl.rings.nodup ⟨kind, j⟩)).2
    rw [hi, Function.update_self, hnd.erase_eq_filter]
    exact List.filter_congr fun x _ ↦ Bool.eq_iff_iff.2 (by simp)
  · rw [Function.update_of_ne hi]
    exact (filter_ne_eq_self fun hx ↦ hi (hl.rings.eq_of_mem hx hj)).symm

theorem receives (hf : Filed h N) (hk : k < h.cells) (hnew : .cell k ∉ N)
    (heq : h.listAdd .free (.cell k) = some h') : h'.Receives h.freeList (.cell k) := by
  obtain ⟨c, hl, hlisted⟩ := hf
  obtain ⟨h₁, hadd, hs, hl'⟩ := hl.add .free hk fun l hmem ↦
    hnew ((hlisted l.kind _).1 ⟨l.index, hmem⟩).1
  cases heq.symm.trans hadd
  funext i
  rw [hl'.freeList_eq, hs.size]
  by_cases hi : i = listIndex (h.size (.cell k))
  · subst hi
    rw [Function.update_self, hl.freeList_eq]
    refine (Function.update_self ..).trans (insertBySize_congr fun r hr ↦ ?_)
    rcases List.mem_cons.1 hr with rfl | hr
    · exact (hs.size k).symm
    · obtain ⟨k', -, rfl⟩ := hl.cell _ r hr
      exact (hs.size k').symm
  · have hne : (⟨.free, i⟩ : ListId) ≠ h.listOf .free (.cell k) := by
      simpa [Heap.listOf, getList] using hi
    rw [Function.update_of_ne hne, Function.update_of_ne hi, hl.freeList_eq]

theorem freeList_insert_allocated (hf : Filed h N) (hk : k < h.cells) (hnew : .cell k ∉ N)
    (heq : h.listAdd .allocated (.cell k) = some h') : h'.freeList = h.freeList := by
  obtain ⟨c, hl, hlisted⟩ := hf
  obtain ⟨h₁, hadd, -, hl'⟩ := hl.add .allocated hk fun l hmem ↦
    hnew ((hlisted l.kind _).1 ⟨l.index, hmem⟩).1
  cases heq.symm.trans hadd
  funext i
  rw [hl'.freeList_eq, hl.freeList_eq]
  exact Function.update_of_ne (by simp [Heap.listOf, getAllocatedListFromAddress]) ..

end Filed

end Contents

end EnbL1Ppc.Shm
