import EnbL1Ppc.Shm.SortedSearch
import EnbL1Ppc.Shm.Soundness

namespace EnbL1Ppc.Shm

open Lib Lib.Machine

def Heap.freeSize (h : Heap) : Option Ref → ℕ
  | some (.cell k) => if h.tag (.cell k) = .free then h.size (.cell k) else 0
  | _ => 0

def Heap.joinedSize (h : Heap) (r : Ref) : ℕ :=
  (h.freeSize (h.global.prev r) + h.size r + h.freeSize (h.global.next r)) % 2 ^ 32

def Heap.remaining (h : Heap) (r : Ref) (i : Fin 9) : List Ref :=
  (h.freeList i).filter fun x ↦ h.global.prev r ≠ some x ∧ h.global.next r ≠ some x

/-- When the neighbours of `r` have left their lists, the last entries are still the largest, or
the list is the one that the joined area comes into, and this is the largest. -/
def Heap.KeepsLast (h : Heap) (r : Ref) : Prop :=
  ∀ i, LastLargest h.size (h.remaining r i) ∨
    i = listIndex (h.joinedSize r) ∧ ∀ x ∈ h.remaining r i, h.size x ≤ h.joinedSize r

def Heap.without (h : Heap) (o : Option Ref) (i : Fin 9) : List Ref :=
  (h.freeList i).filter fun x ↦ o ≠ some x

section Merges

variable {h h' : Heap} {N : Set Ref} {g₁ g₂ : List Ref} {o : Option Ref} {r : Ref} {k m : ℕ}

theorem Heap.freeSize_of_free (hfree : h.tag (.cell m) = .free) :
    h.freeSize (some (.cell m)) = h.size (.cell m) :=
  if_pos hfree

theorem Heap.freeSize_eq_zero (ho : ∀ m, o = some (.cell m) → h.tag (.cell m) ≠ .free) :
    h.freeSize o = 0 := by
  rcases o with _ | _ | _ | m
  · rfl
  · rfl
  · rfl
  · exact if_neg (ho m rfl)

theorem Heap.freeSize_congr (ho : ∀ m, o = some (.cell m) → h'.block (.cell m) = h.block (.cell m)) :
    h'.freeSize o = h.freeSize o := by
  rcases o with _ | _ | _ | m
  · rfl
  · rfl
  · rfl
  · obtain ⟨-, hsize, htag⟩ := Heap.block_congr (ho m rfl)
    rw [Heap.freeSize, Heap.freeSize, hsize, htag]

theorem Filed.without_eq_self (hf : Filed h N)
    (ho : ∀ m, o = some (.cell m) → h.tag (.cell m) ≠ .free) : h.without o = h.freeList := by
  funext i
  refine List.filter_eq_self.2 fun x hx ↦ decide_eq_true fun heq ↦ ?_
  obtain ⟨m, -, rfl⟩ := hf.cell_of_mem_freeList hx
  exact ho m heq (hf.of_mem_freeList hx).2

theorem Filed.freeList_delete_neighbour (hf : Filed h N) (hm : .cell m ∈ N)
    (hfree : h.tag (.cell m) = .free) (heq : h.listRemoveFreeArea (.cell m) = some h') :
    h'.freeList = h.without (some (.cell m)) := by
  funext i
  rw [hf.freeList_delete hm hfree heq]
  exact List.filter_congr fun x _ ↦ by simp [eq_comm]

theorem Wired.tryMergeDownward_lists (hw : Wired h {x | x ∈ g₁ ++ g₂} (g₁ ++ .cell k :: g₂))
    (heq : h.tryMergeDownward (.cell k) = some h') :
    h'.freeList = h.without (h.global.next (.cell k)) ∧
      h'.size (.cell k) = (h.size (.cell k) + h.freeSize (h.global.next (.cell k))) % 2 ^ 32 ∧
      ∀ j, j ≠ k → h'.size (.cell j) = h.size (.cell j) := by
  have hlt := hw.filed.size_lt (.cell k)
  have hstay (ho : ∀ m, h.global.next (.cell k) = some (.cell m) → h.tag (.cell m) ≠ .free) :
      h.freeList = h.without (h.global.next (.cell k)) ∧
        h.size (.cell k) = (h.size (.cell k) + h.freeSize (h.global.next (.cell k))) % 2 ^ 32 ∧
        ∀ j, j ≠ k → h.size (.cell j) = h.size (.cell j) := by
    refine ⟨(hw.filed.without_eq_self ho).symm, ?_, fun _ _ ↦ rfl⟩
    rw [Heap.freeSize_eq_zero ho, Nat.add_zero, Nat.mod_eq_of_lt hlt]
  have hnext := hw.chained.next
  cases g₂ with
  | nil =>
    rw [List.headD_nil] at hnext
    rw [Heap.tryMergeDownward, if_pos hnext] at heq
    cases heq
    refine hstay fun m hm ↦ ?_
    cases hnext.symm.trans hm
  | cons n g₂ =>
    obtain ⟨m, -, rfl⟩ := hw.chained.cell n (by simp)
    rw [List.headD_cons] at hnext
    rw [Heap.tryMergeDownward, hnext, if_neg (by simp), Option.bind_eq_bind, Option.bind_some] at heq
    by_cases hfree : h.tag (.cell m) = .free
    · have hmem : Ref.cell m ∈ g₁ ++ .cell m :: g₂ := by simp
      have hsum := Nat.mod_lt (h.size (.cell k) + h.size (.cell m)) (Nat.two_pow_pos 32)
      have hf := hw.filed.setSize hw.chained.not_mem hsum
      rw [if_pos hfree] at heq
      simp only [Option.bind_eq_bind, Option.bind_eq_some_iff] at heq
      obtain ⟨h₁, hremove, hglobal⟩ := heq
      obtain ⟨global, rfl⟩ := Heap.listRemoveGlobal_eq hglobal
      obtain ⟨hs, hf₁⟩ := hf.of_delete hmem hfree hremove
      refine ⟨?_, ?_, fun j hj ↦ ?_⟩
      · rw [hf₁.freeList_congr (hf₁.regroup global) rfl,
          hf.freeList_delete_neighbour hmem hfree hremove, hnext]
        funext i
        rw [Heap.without, hw.filed.freeList_congr hf rfl, Heap.without]
      · rw [hnext, Heap.freeSize_of_free hfree]
        exact (hs.size k).trans (Function.update_self ..)
      · exact (hs.size j).trans (Function.update_of_ne (by simpa using hj) ..)
    · rw [if_neg hfree] at heq
      cases heq
      refine hstay fun m' hm' ↦ ?_
      cases hnext.symm.trans hm'
      exact hfree

structure Settles (h : Heap) (k : ℕ) (h' : Heap) (e : Ref) : Prop where
  size : h'.size e = (h.freeSize (h.global.prev (.cell k)) + h.size (.cell k)) % 2 ^ 32
  receives : h'.Receives (h.without (h.global.prev (.cell k))) e
  other : ∀ j, j ≠ k → h.global.prev (.cell k) ≠ some (.cell j) →
    h'.size (.cell j) = h.size (.cell j)

theorem Wired.settles_alone (hw : Wired h {x | x ∈ g₁ ++ g₂} (g₁ ++ .cell k :: g₂))
    (hfree : h.tag (.cell k) = .free) (hmerge : h.tryMergeUpward (.cell k) = some (h, false))
    (ho : ∀ m, h.global.prev (.cell k) = some (.cell m) → h.tag (.cell m) ≠ .free)
    (heq : h.settle (.cell k) = some h') : Settles h k h' (.cell k) := by
  have hk := hw.chained.not_mem
  obtain ⟨_, hcells, ⟨⟩⟩ := hw.chained.cell (.cell k) (by simp)
  rw [Heap.settle, hmerge] at heq
  have hadd : h.listAddFreeArea (.cell k) = some h' := heq
  obtain ⟨hs, -⟩ := hw.filed.of_insert hcells hk hfree hadd
  refine ⟨?_, ?_, fun j _ _ ↦ hs.size j⟩
  · rw [Heap.freeSize_eq_zero ho, Nat.zero_add, Nat.mod_eq_of_lt (hw.filed.size_lt _), hs.size]
  · rw [hw.filed.without_eq_self ho]
    exact hw.filed.receives hcells hk hadd

theorem Wired.settles_join (hw : Wired h {x | x ∈ g₁ ++ [.cell m] ++ g₂}
      (g₁ ++ [.cell m] ++ .cell k :: g₂))
    (hfree : h.tag (.cell m) = .free) (heq : h.settle (.cell k) = some h') :
    Settles h k h' (.cell m) := by
  have hprev := hw.chained.prev
  rw [List.getLastD_concat] at hprev
  have hmem : Ref.cell m ∈ g₁ ++ [.cell m] ++ g₂ := by simp
  have hout : Ref.cell m ∉ ({x | x ∈ g₁ ++ [.cell m] ++ g₂} : Set Ref) \ {.cell m} := by simp
  obtain ⟨_, hcells, ⟨⟩⟩ := hw.chained.cell (.cell m) (by simp)
  simp only [Heap.settle, Heap.tryMergeUpward, hprev, Option.bind_eq_bind, Option.bind_some, hfree,
    if_true, Option.bind_eq_some_iff] at heq
  obtain ⟨⟨h₂, merged⟩, hmerge, hglobal⟩ := heq
  rw [if_neg (by simp)] at hmerge
  simp only [Option.bind_eq_some_iff, Option.some.injEq, Prod.mk.injEq] at hmerge
  obtain ⟨h₁, hremove, _, hadd, rfl, rfl⟩ := hmerge
  obtain ⟨global, rfl⟩ := Heap.listRemoveGlobal_eq ((if_pos rfl).symm.trans hglobal)
  obtain ⟨hs₁, hf₁⟩ := hw.filed.of_delete hmem hfree hremove
  have hf₂ := hf₁.setSize hout
    (Nat.mod_lt (h₁.size (.cell m) + h₁.size (.cell k)) (Nat.two_pow_pos 32))
  have hlists : (h₁.setSize (.cell m) ((h₁.size (.cell m) + h₁.size (.cell k)) % 2 ^ 32)).freeList =
      h.without (some (.cell m)) := by
    rw [hf₁.freeList_congr hf₂ rfl, hw.filed.freeList_delete_neighbour hmem hfree hremove]
  obtain ⟨hs₂, hf₃⟩ := hf₂.of_insert (hs₁.cells ▸ hcells) hout ((congrFun hs₁.tag _).trans hfree)
    hadd
  refine ⟨?_, ?_, fun j _ hj ↦ ?_⟩
  · rw [hprev, Heap.freeSize_of_free hfree, ← hs₁.size m, ← hs₁.size k]
    exact (hs₂.size m).trans (Function.update_self ..)
  · rw [Heap.Receives, hf₃.freeList_congr (hf₃.regroup global) rfl, hprev, ← hlists]
    exact hf₂.receives (hs₁.cells ▸ hcells) hout hadd
  · have hne : Ref.cell j ≠ .cell m := fun heq ↦ hj (hprev.trans (congrArg some heq.symm))
    exact (hs₂.size j).trans ((Function.update_of_ne hne ..).trans (hs₁.size j))

theorem Wired.settles (hw : Wired h {x | x ∈ g₁ ++ g₂} (g₁ ++ .cell k :: g₂))
    (hfree : h.tag (.cell k) = .free) (heq : h.settle (.cell k) = some h') :
    ∃ e, Settles h k h' e := by
  have hprev := hw.chained.prev
  rcases g₁.eq_nil_or_concat' with rfl | ⟨g, p, rfl⟩
  · refine ⟨_, hw.settles_alone hfree (if_pos hprev) (fun m hm ↦ ?_) heq⟩
    cases hprev.symm.trans hm
  · obtain ⟨m, -, rfl⟩ := hw.chained.cell p (by simp)
    rw [List.getLastD_concat] at hprev
    by_cases htag : h.tag (.cell m) = .free
    · exact ⟨_, hw.settles_join htag heq⟩
    · have hmerge : h.tryMergeUpward (.cell k) = some (h, false) := by
        simp [Heap.tryMergeUpward, hprev, htag]
      refine ⟨_, hw.settles_alone hfree hmerge (fun m' hm' ↦ ?_) heq⟩
      cases hprev.symm.trans hm'
      exact htag

/-- The free lists have lost the neighbours of `r` and got the area `e` instead. -/
structure Joins (h : Heap) (r : Ref) (h' : Heap) (e : Ref) : Prop where
  size : h'.size e = h.joinedSize r
  receives : h'.Receives (h.remaining r) e
  other : ∀ i, ∀ x ∈ h.remaining r i, h'.size x = h.size x

theorem Joins.lastEntries_iff {e : Ref} (hj : Joins h r h' e) : h'.LastEntries ↔ h.KeepsLast r := by
  rw [hj.receives.lastEntries_iff, hj.size]
  refine forall_congr' fun i ↦ ?_
  rw [lastLargest_congr (hj.other i)]
  refine or_congr_right (and_congr_right fun _ ↦ forall₂_congr fun x hx ↦ ?_)
  rw [hj.other i x hx]

theorem Chained.mem_of_next (hc : Chained h (g₁ ++ r :: g₂))
    (heq : h.global.next r = some (.cell m)) : .cell m ∈ g₂ := by
  have hnext := hc.next.symm.trans heq
  cases g₂ with
  | nil => cases hnext
  | cons n g₂ =>
    cases hnext
    exact List.mem_cons_self

theorem Chained.mem_of_prev (hc : Chained h (g₁ ++ r :: g₂))
    (heq : h.global.prev r = some (.cell m)) : .cell m ∈ g₁ := by
  have hprev := hc.prev.symm.trans heq
  rcases g₁.eq_nil_or_concat' with rfl | ⟨g, p, rfl⟩
  · cases hprev
  · rw [List.getLastD_concat] at hprev
    cases hprev
    simp

theorem Whole.joins (hw : Whole h (g₁ ++ .cell k :: g₂)) (hapart : h.Apart (g₁ ++ .cell k :: g₂))
    (htag : h.tag (.cell k) = .allocated) (heq : h.release (.cell k) = some h') :
    ∃ e, Joins h (.cell k) h' e := by
  obtain ⟨h₁, hremove, hs, hw₂, hsame₂, hblock₂⟩ := hw.release_start htag
  have hlist₂ : (h₁.setTag (.cell k) .free).freeList = h.freeList := by
    obtain ⟨-, hf₁⟩ := hw.filed.of_delete (by simp) htag hremove
    rw [hf₁.freeList_congr hw₂.filed rfl]
    funext i
    rw [hw.filed.freeList_delete (by simp) htag hremove, filter_ne_eq_self]
    intro hmem
    cases htag.symm.trans (hw.filed.of_mem_freeList hmem).2
  have hnext₂ := hw₂.chained.next.trans hw.chained.next.symm
  simp only [Heap.release, hremove, Option.bind_eq_bind, Option.bind_some,
    Option.bind_eq_some_iff] at heq
  set h₂ := h₁.setTag (.cell k) .free
  obtain ⟨h₃, hdown, hsettle⟩ := heq
  obtain ⟨hlist₃, hsize₃, hother₃⟩ := hw₂.tryMergeDownward_lists hdown
  obtain ⟨hchain₁, hchain₂, -⟩ := List.isChain_append.1 hapart
  have hapart₂ : h₂.Apart g₂ :=
    Heap.Apart.congr hchain₂.tail fun x hx ↦ hsame₂ x (List.mem_append_right _ hx)
  obtain ⟨_, ns, g₂', hdown', rfl, hm⟩ := hw₂.tryMergeDownward hapart₂
  cases hdown.symm.trans hdown'
  obtain ⟨e, hsettles⟩ := hm.wired.settles
    ((Heap.block_eq_iff.1 hm.block).2.2.trans (Heap.block_eq_iff.1 hblock₂).2.2) hsettle
  have hprev₃ := hm.wired.chained.prev.trans hw.chained.prev.symm
  have hfree₂ : h₂.freeSize (h.global.next (.cell k)) = h.freeSize (h.global.next (.cell k)) :=
    Heap.freeSize_congr fun m heq ↦
      hsame₂ _ (List.mem_append_right _ (hw.chained.mem_of_next heq))
  have hfree₃ : h₃.freeSize (h.global.prev (.cell k)) = h.freeSize (h.global.prev (.cell k)) := by
    refine Heap.freeSize_congr fun m heq ↦ ?_
    have hmem := hw.chained.mem_of_prev heq
    exact (hm.same _ (List.mem_append_left _ hmem)).trans (hsame₂ _ (List.mem_append_left _ hmem))
  refine ⟨e, ?_, ?_, fun i x hx ↦ ?_⟩
  · rw [hsettles.size, hprev₃, hfree₃, hsize₃, hnext₂, hfree₂, (Heap.block_eq_iff.1 hblock₂).2.1,
      Nat.add_mod_mod, Heap.joinedSize, Nat.add_assoc]
  · have hreceives := hsettles.receives
    have hlists : h₃.without (h₃.global.prev (.cell k)) = h.remaining (.cell k) := by
      funext i
      rw [Heap.without, hlist₃, Heap.without, List.filter_filter, hlist₂, hprev₃, hnext₂,
        Heap.remaining]
      exact List.filter_congr fun x _ ↦ by simp
    rwa [hlists] at hreceives
  · obtain ⟨hmem, hne⟩ := List.mem_filter.1 hx
    obtain ⟨j, -, rfl⟩ := hw.filed.cell_of_mem_freeList hmem
    have hjk : j ≠ k := by
      rintro rfl
      cases htag.symm.trans (hw.filed.of_mem_freeList hmem).2
    have hne' : h₃.global.prev (.cell k) ≠ some (.cell j) := hprev₃ ▸ (of_decide_eq_true hne).1
    exact (hsettles.other j hjk hne').trans ((hother₃ j hjk).trans (hs.size j))

end Merges

section Runs

variable {u : ℕ} {h : Heap} {g : List Ref}

/-- Nothing is said about the state in which a null pointer has been dereferenced. -/
def LastEntries : Option State → Prop
  | none => True
  | some s => s.heap.LastEntries

def State.KeepsLast (s : State) : Call u → Prop
  | .free ptr => ∀ k, s.heap.blockAt ptr.toNat = some (.cell k) → s.heap.KeepsLast (.cell k)
  | _ => True

def KeepsLast (u : ℕ) : Option State → Call u × List Bool → Prop
  | none, _ => True
  | some s, (call, supply) => (s.supplied supply).KeepsLast call

theorem Released.apart {h' : Heap} {g₁ ps ns g₂ : List Ref} {r : Ref}
    (hr : Released h g₁ ps r ns g₂ h') (hapart : h.Apart (g₁ ++ ps ++ r :: (ns ++ g₂))) :
    h'.Apart (g₁ ++ ps.headD r :: g₂) := by
  obtain ⟨hchain, htail, -⟩ := List.isChain_append.1 hapart
  have hapart₁ : h'.Apart g₁ := Heap.Apart.congr (List.isChain_append.1 hchain).1 fun x hx ↦
    hr.same x (List.mem_append_left _ hx)
  have hapart₂ : h'.Apart g₂ := Heap.Apart.congr (List.isChain_append.1 htail.tail).2.1 fun x hx ↦
    hr.same x (List.mem_append_right _ hx)
  refine List.isChain_append.2 ⟨hapart₁, List.isChain_cons.2 ⟨fun y hy hboth ↦ ?_, hapart₂⟩,
    fun x hx _ _ hboth ↦ ?_⟩
  · have hsame := hr.same y (List.mem_append_right _ (List.mem_of_head? hy))
    exact hr.after y hy ((Heap.block_congr hsame).2.2.symm.trans hboth.2)
  · have hsame := hr.same x (List.mem_append_left _ (List.mem_of_getLast? hx))
    exact hr.before x hx ((Heap.block_congr hsame).2.2.symm.trans hboth.1)

theorem Sorted.release (hs : Sorted h g) {k : ℕ} (hk : .cell k ∈ g)
    (htag : h.tag (.cell k) = .allocated) :
    ∃ h' g', h.release (.cell k) = some h' ∧ Whole h' g' ∧ h'.Apart g' ∧
      (h'.LastEntries ↔ h.KeepsLast (.cell k)) := by
  obtain ⟨g₁, g₂, rfl⟩ := List.append_of_mem hk
  obtain ⟨h', g₁, ps, ns, g₂, hrelease, rfl, rfl, hr⟩ := hs.whole.released hs.apart htag
  obtain ⟨e, hj⟩ := hs.whole.joins hs.apart htag hrelease
  exact ⟨h', _, hrelease, hr.whole, hr.apart hs.apart, hj.lastEntries_iff⟩

/-- The property that every state has as long as `__free` keeps the last entries. -/
def Ordered : Option State → Prop
  | none => True
  | some s => ∃ g, Sorted s.heap g

theorem Sorted.perform {s : State} (hs : Sorted s.heap g) (call : Call u) :
    (LastEntries (s.perform call) → s.KeepsLast call) ∧
      (s.KeepsLast call → Ordered (s.perform call)) := by
  cases call with
  | alloc size =>
    obtain ⟨h', x, g', halloc, hs'⟩ := hs.alloc u size.toNat
    refine ⟨fun _ ↦ trivial, fun _ ↦ ?_⟩
    rw [State.perform, halloc]
    exact ⟨g', hs'⟩
  | memalign size align =>
    obtain ⟨h', x, g', hmemalign, hs'⟩ := hs.memalign u size.toNat align.toNat
    refine ⟨fun _ ↦ trivial, fun _ ↦ ?_⟩
    rw [State.perform, hmemalign]
    exact ⟨g', hs'⟩
  | free ptr =>
    obtain ⟨r, hblock, hcase⟩ := hs.whole.blockAt ptr.toNat
    rw [State.perform, State.KeepsLast, Heap.free, hblock, Option.bind_eq_bind, Option.bind_some]
    rcases hcase with ⟨hr, htag, haddress⟩ | ⟨rfl, -⟩
    · obtain ⟨k, -, rfl⟩ := hs.whole.chained.cell r hr
      obtain ⟨h', g', hrelease, hw, hapart, hiff⟩ := hs.release hr htag
      rw [if_pos haddress, hrelease]
      refine ⟨fun hlast k' hk' ↦ ?_, fun hkeeps ↦ ⟨g', hw, hapart, hiff.2 (hkeeps k rfl)⟩⟩
      cases hk'
      exact hiff.1 hlast
    · constructor
      · intro _ k hk
        cases hk
      · intro _
        split_ifs with haddress
        · rw [Heap.release_eq_none (hs.whole.chained.detached _)]
          trivial
        · exact ⟨g, hs⟩

theorem initial_ordered (psa segment : BitVec u) : Ordered (initial psa segment) := by
  obtain ⟨h, hinit, hw, hblock⟩ := initializeHeap_whole psa.toNat segment.toNat
  rw [initial, hinit]
  refine ⟨[.cell 0], hw, by simp [Heap.Apart], fun i t ht r hr ↦ ?_⟩
  obtain ⟨hr, -⟩ := hw.filed.of_mem_freeList hr
  obtain ⟨ht, -⟩ := hw.filed.of_mem_freeList (List.mem_of_getLast? ht)
  rw [List.mem_singleton.1 hr, List.mem_singleton.1 ht]

theorem Ordered.next {t t' : Option State} {i : Call u × List Bool} {o : List Empty}
    (ht : Ordered t) (hs : step u t i = some (t', o)) :
    (LastEntries t' → KeepsLast u t i) ∧ (KeepsLast u t i → Ordered t') := by
  obtain ⟨call, supply⟩ := i
  cases t with
  | none => cases hs
  | some s =>
    cases hs
    obtain ⟨g, hsorted⟩ := ht
    have hg : s.heap.Grows (s.supplied supply).heap := ⟨rfl, rfl, le_rfl, fun _ _ ↦ rfl, id⟩
    exact (hsorted.grows hg).perform call

theorem Ordered.lastEntries {t : Option State} (ht : Ordered t) : LastEntries t := by
  cases t with
  | none => trivial
  | some s =>
    obtain ⟨g, hs⟩ := ht
    exact hs.last

/-- `__alloc` and `__memalign` keep the largest areas at the ends of the lists, since they sort in
again the largest area that they have passed over. `__free` does so only if the neighbours that it
takes out of their lists do not leave a list with a smaller area at its end. -/
theorem lastEntries_always_iff (psa segment : BitVec u) (calls : List (Call u × List Bool)) :
    Always (step u) LastEntries (initial psa segment) calls ↔
      Along (step u) (KeepsLast u) (initial psa segment) calls :=
  always_iff_along_of_invariant Ordered.lastEntries Ordered.next (initial_ordered psa segment) calls

/-- The block that is freed is joined with the first and the last of the four areas in list 0, and
the other two stay there with the larger one in front. -/
theorem free_leaves_smaller_last :
    ∃ s o, exec (step 32) (initial 0x80001F00#32 0x10000#32)
        [(.memalign 0x100#32 0x1000#32, []), (.memalign 0xE00#32 0x1000#32, []),
          (.memalign 0xD00#32 0x1000#32, []), (.memalign 0x100#32 0x1000#32, []),
          (.free 0x80002000#32, [])] = some (some s, o) ∧
      (s.heap.freeList 0).map s.heap.size = [0x300, 0x200] ∧ ¬LastEntries (some s) := by
  have hrun : (exec (step 32) (initial 0x80001F00#32 0x10000#32)
        [(.memalign 0x100#32 0x1000#32, []), (.memalign 0xE00#32 0x1000#32, []),
          (.memalign 0xD00#32 0x1000#32, []), (.memalign 0x100#32 0x1000#32, []),
          (.free 0x80002000#32, [])]).map
      (fun r ↦ r.1.map fun s ↦ ((s.heap.freeList 0).map s.heap.size,
        decide (LastLargest s.heap.size (s.heap.freeList 0)))) =
      some (some ([0x300, 0x200], false)) := by decide +kernel
  obtain ⟨⟨t, o⟩, hs, ht⟩ := Option.map_eq_some_iff.1 hrun
  obtain ⟨s, rfl, heq⟩ := Option.map_eq_some_iff.1 ht
  obtain ⟨hsizes, hlast⟩ := Prod.mk.inj heq
  exact ⟨s, o, hs, hsizes, fun hall ↦ of_decide_eq_false hlast (hall 0)⟩

end Runs

end EnbL1Ppc.Shm
