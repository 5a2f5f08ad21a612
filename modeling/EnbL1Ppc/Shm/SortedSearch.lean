import EnbL1Ppc.Shm.Refills

namespace EnbL1Ppc.Shm

open Lib

section Cuts

variable {h h' : Heap} {g g₁ g₂ ns : List Ref} {ptr : Ref} {u align size : ℕ}

theorem Cut.apart (hcut : Cut h g₁ g₂ h' ns) (hapart : h.Apart (g₁ ++ ptr :: g₂))
    (hfree : h.tag ptr = .free) (hns : h'.Apart ns) : h'.Apart (g₁ ++ (ns ++ g₂)) := by
  obtain ⟨hchain₁, htail, hbefore⟩ := List.isChain_append.1 hapart
  obtain ⟨hafter, hchain₂⟩ := List.isChain_cons.1 htail
  have hapart₁ : h'.Apart g₁ :=
    Heap.Apart.congr hchain₁ fun x hx ↦ hcut.same x (List.mem_append_left _ hx)
  have hapart₂ : h'.Apart g₂ :=
    Heap.Apart.congr hchain₂ fun x hx ↦ hcut.same x (List.mem_append_right _ hx)
  refine List.isChain_append.2 ⟨hapart₁, List.isChain_append.2 ⟨hns, hapart₂, ?_⟩, ?_⟩
  · intro x _ y hy hboth
    have hsame := hcut.same y (List.mem_append_right _ (List.mem_of_head? hy))
    exact hafter y hy ⟨hfree, (Heap.block_congr hsame).2.2.symm.trans hboth.2⟩
  · intro x hx y _ hboth
    have hsame := hcut.same x (List.mem_append_left _ (List.mem_of_getLast? hx))
    exact hbefore x hx ptr rfl ⟨(Heap.block_congr hsame).2.2.symm.trans hboth.1, hfree⟩

theorem cutBlocks_apart (u addr s x size : ℕ) :
    (cutBlocks u addr s x size).IsChain fun y z ↦ ¬(y.kind = .free ∧ z.kind = .free) := by
  rw [cutBlocks]
  split_ifs <;> simp

structure Carves (h : Heap) (g : List Ref) (ptr : Ref) (h' : Heap) : Prop where
  cut : ∃ g₁ g₂ ns, g = g₁ ++ ptr :: g₂ ∧ Cut h g₁ g₂ h' ns ∧ h'.Apart ns
  refills : h.Refills ptr h'

theorem Whole.allocateFreeArea_carves (hw : Whole h g) (hptr : ptr ∈ h.areas g)
    (hsize : size ≤ h.size ptr) :
    ∃ h' a, h.allocateFreeArea u ptr size = some (h', a) ∧
      (a = none ∧ h.Grows h' ∨ ∃ r, a = some r ∧ Carves h g ptr h') := by
  obtain ⟨hmem, hfree⟩ := hptr
  obtain ⟨k, -, rfl⟩ := hw.chained.cell ptr hmem
  obtain ⟨g₁, g₂, rfl⟩ := List.append_of_mem hmem
  rcases hsize.eq_or_lt with hall | hpart
  · obtain ⟨h', heq, ht⟩ := hw.allocate_all (u := u) hfree hall.symm
    have hcut : h'.Apart [.cell k] := by simp [Heap.Apart]
    exact ⟨h', _, heq, .inr ⟨_, rfl, ⟨g₁, g₂, _, rfl, ht.toCut, hcut⟩,
      hw.filed.allocateFreeArea hmem hfree heq⟩⟩
  · obtain ⟨h', a, heq, hg | ⟨rfl, ht, -⟩⟩ := hw.allocate_part (u := u) hfree hpart
    · exact ⟨h', a, heq, .inl hg⟩
    · have hcut : h'.Apart [.cell h.cells, .cell k] := by
        simp [Heap.Apart, (Heap.block_eq_iff.1 ht.block).2.2]
      exact ⟨h', _, heq, .inr ⟨_, rfl, ⟨g₁, g₂, _, rfl, ht.toCut, hcut⟩,
        hw.filed.allocateFreeArea hmem hfree heq⟩⟩

theorem Whole.doAlignValloc_carves (hw : Whole h g) (hptr : ptr ∈ h.areas g) (align size : ℕ) :
    ∃ h' a, h.doAlignValloc u ptr align size = some (h', a) ∧
      (a = none ∧ h.Grows h' ∨ ∃ r, a = some r ∧ Carves h g ptr h') := by
  by_cases hlt : h.size ptr < size
  · exact ⟨h, none, if_pos hlt, .inl ⟨rfl, .refl h⟩⟩
  have hle : size ≤ h.size ptr := not_lt.1 hlt
  by_cases hstart : h.StartsAligned ptr align
  · have hmod : size % 2 ^ 32 = size := Nat.mod_eq_of_lt (hle.trans_lt (hw.filed.size_lt ptr))
    rw [Heap.doAlignValloc, if_neg hlt, if_pos hstart, hmod]
    exact hw.allocateFreeArea_carves hptr hle
  by_cases hfits : h.FitsAligned u ptr align size
  · obtain ⟨hmem, hfree⟩ := hptr
    obtain ⟨k, -, rfl⟩ := hw.chained.cell ptr hmem
    obtain ⟨g₁, g₂, rfl⟩ := List.append_of_mem hmem
    obtain ⟨h', a, heq, hg | ⟨ns, r, rfl, ht, hblocks⟩⟩ := hw.cut hfree hle hstart hfits
    · exact ⟨h', a, heq, .inl hg⟩
    · have hchain : (ns.map h'.block).IsChain fun y z ↦ ¬(y.kind = .free ∧ z.kind = .free) :=
        hblocks ▸ cutBlocks_apart ..
      exact ⟨h', _, heq, .inr ⟨r, rfl, ⟨g₁, g₂, ns, rfl, ht.toCut, (List.isChain_map _).1 hchain⟩,
        hw.filed.doAlignValloc hmem hfree heq⟩⟩
  · exact ⟨h, none, by rw [Heap.doAlignValloc, if_neg hlt, if_neg hstart, if_neg hfits],
      .inl ⟨rfl, .refl h⟩⟩

/-- The attempts cut a block out of a free area or change nothing that is in use, and the head of
an empty list is passed over. -/
structure Carving (attempt : Heap → Ref → Option (Heap × Option (Option Ref))) : Prop where
  carves : ∀ {h g ptr}, Whole h g → ptr ∈ h.areas g → ∃ h' o, attempt h ptr = some (h', o) ∧
    (o.join = none ∧ h.Grows h' ∨ ∃ a, o = some (some a) ∧ Carves h g ptr h')
  empty : ∀ h r, h.size r = 0 → attempt h r = some (h, none)

theorem allocAttempt_carving (u : ℕ) (hsize : 0 < size) : Carving (allocAttempt u size) where
  carves {h g ptr} hw hptr := by
    by_cases hle : size ≤ h.size ptr
    · have hmod : size % 2 ^ 32 = size := Nat.mod_eq_of_lt (hle.trans_lt (hw.filed.size_lt ptr))
      obtain ⟨h', a, heq, hcase⟩ := hw.allocateFreeArea_carves (u := u) hptr hle
      refine ⟨h', some a, ?_, hcase.imp id fun ⟨r, hr, hcarves⟩ ↦ ⟨r, congrArg some hr, hcarves⟩⟩
      rw [allocAttempt, if_pos hle, hmod, heq]
      rfl
    · exact ⟨h, none, if_neg hle, .inl ⟨rfl, .refl h⟩⟩
  empty h r hr := if_neg (by omega)

theorem memalignAttempt_carving (u align : ℕ) (hsize : 0 < size) :
    Carving (memalignAttempt u size align) where
  carves {h g ptr} hw hptr := by
    obtain ⟨h', a, heq, hcase⟩ := hw.doAlignValloc_carves (u := u) hptr align size
    refine ⟨h', a.map some, by rw [memalignAttempt, heq]; rfl, ?_⟩
    rcases hcase with ⟨rfl, hg⟩ | ⟨r, rfl, hcarves⟩
    · exact .inl ⟨rfl, hg⟩
    · exact .inr ⟨r, rfl, hcarves⟩
  empty h r hr := by
    rw [memalignAttempt, Heap.doAlignValloc, if_pos (hr ▸ hsize)]
    rfl

end Cuts

structure Sorted (h : Heap) (g : List Ref) : Prop where
  whole : Whole h g
  apart : h.Apart g
  last : h.LastEntries

structure Unsorted (h : Heap) (g : List Ref) (l : ListId) (t : Ref) : Prop where
  whole : Whole h g
  apart : h.Apart g
  mendable : ∀ i, Mendable h.size t (h.freeList i)
  entry : t = .head l ∨ t ∈ h.areas g

section Searches

variable {h h' : Heap} {g : List Ref} {l : ListId} {t : Ref} {size : ℕ}
  {attempt : Heap → Ref → Option (Heap × Option (Option Ref))}

theorem Sorted.grows (hs : Sorted h g) (hg : h.Grows h') : Sorted h' g := by
  refine ⟨hs.whole.grows hg, hs.apart.congr fun x hx ↦ hs.whole.grows_block hg hx, fun i ↦ ?_⟩
  rw [hs.whole.filed.freeList_congr (hs.whole.filed.grows hg) hg.links]
  refine (lastLargest_congr fun r hr ↦ ?_).2 (hs.last i)
  have hmem := (hs.whole.filed.of_mem_freeList hr).1
  exact (Heap.block_congr (hs.whole.grows_block hg hmem)).2.1

def Passed (size : Ref → ℕ) (head : Ref) (xs : List Ref) (tptr : Ref) : Prop :=
  xs = [] ∧ tptr = head ∨ tptr ∈ xs ∧ ∀ r ∈ xs, size r ≤ size tptr

theorem Passed.passOver {c : ListId → List Ref} {xs ys : List Ref} {ptr tptr : Ref}
    (hr : h'.links.Rings .head c) (hc : c l = xs ++ ptr :: ys)
    (hsize : ∀ r ∈ xs ++ [ptr], h'.size r = h.size r) (hp : Passed h.size (.head l) xs tptr) :
    ∃ t, h'.passOver (.head l) ptr tptr = some t ∧ Passed h.size (.head l) (xs ++ [ptr]) t := by
  rcases hp with ⟨rfl, rfl⟩ | ⟨hmem, hle⟩
  · refine ⟨ptr, ?_, .inr (by simp)⟩
    rw [Heap.passOver, if_pos rfl, hr.next_head, hc]
    rfl
  · have hne : tptr ≠ .head l := fun heq ↦ hr.head_not_mem l l (by simp [hc, ← heq, hmem])
    rw [Heap.passOver, if_neg hne, hsize tptr (by simp [hmem]), hsize ptr (by simp)]
    refine ⟨_, rfl, .inr ?_⟩
    split_ifs with hlt
    · refine ⟨by simp, fun r hr ↦ ?_⟩
      rcases List.mem_append.1 hr with hr | hr
      · exact (hle r hr).trans hlt.le
      · rw [List.mem_singleton.1 hr]
    · refine ⟨by simp [hmem], fun r hr ↦ ?_⟩
      rcases List.mem_append.1 hr with hr | hr
      · exact hle r hr
      · rw [List.mem_singleton.1 hr]
        exact not_lt.1 hlt

theorem Sorted.mendable {c : ListId → List Ref} {i : Fin 9} {xs ys : List Ref} {ptr : Ref}
    (hs : Sorted h g) (hl : Lists h c) (hc : c ⟨.free, i⟩ = xs ++ ptr :: ys)
    (hp : Passed h.size (.head ⟨.free, i⟩) xs t) (j : Fin 9) :
    Mendable h.size t ((h.freeList j).filter (· ≠ ptr)) := by
  have hlast := hs.last j
  rw [hl.freeList_eq] at hlast ⊢
  by_cases hj : j = i
  · subst hj
    have hnd := (List.nodup_cons.1 (hl.rings.nodup ⟨.free, j⟩)).2
    rw [hc, List.nodup_middle, List.nodup_cons] at hnd
    have hfilter : (xs ++ ptr :: ys).filter (· ≠ ptr) = xs ++ ys := by
      rw [List.filter_append, List.filter_cons_of_neg (by simp), ← List.filter_append]
      exact filter_ne_eq_self hnd.1
    rw [hc] at hlast ⊢
    rw [hfilter]
    exact hlast.mendable (hp.imp_left And.left)
  · have hnot : ptr ∉ c ⟨.free, j⟩ := by
      intro hmem
      have hid := hl.rings.eq_of_mem hmem (i := ⟨.free, j⟩) (j := ⟨.free, i⟩) (by simp [hc])
      exact hj (congrArg ListId.index hid)
    rw [filter_ne_eq_self hnot]
    exact .inl hlast

theorem Sorted.searchList (hs : Sorted h g) (hcarving : Carving attempt) (i : Fin 9) :
    ∃ f, h.searchList attempt ⟨.free, i⟩ = some f ∧ (f.node = none ∧ Sorted f.heap g ∨
      ∃ a g', f.node = some a ∧ Unsorted f.heap g' ⟨.free, i⟩ f.tptr) := by
  obtain ⟨c, hl, hlisted⟩ := hs.whole.filed
  have hareas : ∀ r ∈ c ⟨.free, i⟩, r ∈ h.areas g := fun r hr ↦ (hlisted .free r).1 ⟨i, hr⟩
  have hsame : ∀ h₁, h.Grows h₁ → ∀ r ∈ c ⟨.free, i⟩, h₁.block r = h.block r :=
    fun h₁ hg r hr ↦ hs.whole.grows_block hg (hareas r hr).1
  have htry : ∀ h₁, h.Grows h₁ → ∀ r ∈ c ⟨.free, i⟩, ∃ h' o, attempt h₁ r = some (h', o) ∧
      (o.join = none ∧ h₁.Grows h' ∨ ∃ a, o = some (some a) ∧ Carves h₁ g r h') := by
    intro h₁ hg r hr
    obtain ⟨hmem, hfree⟩ := hareas r hr
    refine hcarving.carves (hs.whole.grows hg) ⟨hmem, ?_⟩
    exact (Heap.block_congr (hsame h₁ hg r hr)).2.2.trans hfree
  have hattempt : ∀ h₁, h.Grows h₁ → ∀ r ∈ c ⟨.free, i⟩,
      ∃ h' o, attempt h₁ r = some (h', o) ∧ (o = none → h.Grows h') := by
    intro h₁ hg r hr
    obtain ⟨h', o, heq, ⟨-, hg'⟩ | ⟨a, rfl, -⟩⟩ := htry h₁ hg r hr
    · exact ⟨h', o, heq, fun _ ↦ hg.trans hg'⟩
    · exact ⟨h', _, heq, fun hnone ↦ absurd hnone (Option.some_ne_none _)⟩
  have hover : ∀ h₁, h.Grows h₁ → ∀ xs ptr ys tptr, c ⟨.free, i⟩ = xs ++ ptr :: ys →
      Passed h.size (.head ⟨.free, i⟩) xs tptr →
      ∃ t, h₁.passOver (.head ⟨.free, i⟩) ptr tptr = some t ∧
        Passed h.size (.head ⟨.free, i⟩) (xs ++ [ptr]) t := by
    intro h₁ hg xs ptr ys tptr hc hp
    refine hp.passOver (hg.links ▸ hl.rings) hc fun r hr ↦ ?_
    refine (Heap.block_congr (hsame h₁ hg r ?_)).2.1
    rw [hc, List.append_cons]
    exact List.mem_append_left _ hr
  obtain ⟨f, hf, htrack⟩ := hl.searchList_track (.refl h) (fun h₁ hg ↦ hg.links) hattempt hover
    (hcarving.empty h) (.inl ⟨rfl, rfl⟩)
  refine ⟨f, hf, ?_⟩
  rcases htrack with ⟨h₁, xs, ys, hg, hc, heq, hp⟩ | ⟨hnode, hg, -⟩
  · have hptr : f.ptr ∈ c ⟨.free, i⟩ := by simp [hc]
    obtain ⟨h', o, heq', hcase⟩ := htry h₁ hg f.ptr hptr
    cases heq.symm.trans heq'
    rcases hcase with ⟨hnode, hg'⟩ | ⟨a, ha, hcut, hrefills⟩
    · exact .inl ⟨hnode, hs.grows (hg.trans hg')⟩
    · obtain ⟨g₁, g₂, ns, rfl, hcut, hns⟩ := hcut
      have hcut := hcut.of_grows hs.whole hg
      refine .inr ⟨a, g₁ ++ (ns ++ g₂), Option.some.inj ha, hcut.whole,
        hcut.apart hs.apart (hareas f.ptr hptr).2 hns,
        hrefills.of_grows hs.whole.filed hg _ (hs.mendable hl hc hp), ?_⟩
      rcases hp with ⟨-, hhead⟩ | ⟨hmem, -⟩
      · exact .inl hhead
      · have hnd := (List.nodup_cons.1 (hl.rings.nodup ⟨.free, i⟩)).2
        rw [hc, List.nodup_middle, List.nodup_cons] at hnd
        have hne : f.tptr ≠ f.ptr := fun heq ↦ hnd.1 (List.mem_append_left _ (heq ▸ hmem))
        obtain ⟨hg', hfree⟩ := hareas f.tptr (by simp [hc, hmem])
        have hrest : f.tptr ∈ g₁ ++ g₂ := by
          simp only [List.mem_append, List.mem_cons] at hg' ⊢
          tauto
        refine .inr ⟨?_, (Heap.block_congr (hcut.same _ hrest)).2.2.trans hfree⟩
        simp only [List.mem_append] at hrest ⊢
        tauto
  · exact .inl ⟨hnode, hs.grows hg⟩

theorem Filed.resort {N : Set Ref} {h₁ h₂ : Heap} {k : ℕ} (hf : Filed h N) (hk : .cell k ∈ N)
    (htag : h.tag (.cell k) = .free) (hm : ∀ i, Mendable h.size (.cell k) (h.freeList i))
    (hremove : h.listRemoveFreeArea (.cell k) = some h₁)
    (hadd : h₁.listAddFreeArea (.cell k) = some h₂) : h₂.LastEntries := by
  obtain ⟨_, hlt, ⟨⟩⟩ := hf.cell hk
  have hout : Ref.cell k ∉ N \ {.cell k} := by simp
  obtain ⟨hs₁, hf₁⟩ := hf.of_delete hk htag hremove
  obtain ⟨hs₂, -⟩ := hf₁.of_insert (hs₁.cells ▸ hlt) hout ((congrFun hs₁.tag _).trans htag) hadd
  have hs := hs₁.trans hs₂
  refine (hf₁.receives (hs₁.cells ▸ hlt) hout hadd).lastEntries_iff.2 fun i ↦ ?_
  rw [hf.freeList_delete hk htag hremove, hs.size]
  have hsize : ∀ r ∈ (h.freeList i).filter (· ≠ .cell k), h₂.size r = h.size r := by
    intro r hr
    obtain ⟨k', -, rfl⟩ := hf.cell_of_mem_freeList (List.mem_of_mem_filter hr)
    exact hs.size k'
  rw [lastLargest_congr hsize]
  by_cases hmem : .cell k ∈ h.freeList i
  · refine (hm i).resort.imp_right fun hle ↦ ⟨hf.eq_listIndex_of_mem_freeList hmem, fun r hr ↦ ?_⟩
    rw [hsize r hr]
    exact hle r hr
  · rw [filter_ne_eq_self hmem]
    exact .inl ((hm i).lastLargest hmem)

theorem Unsorted.finish {f : Found} {a : Ref} (hu : Unsorted f.heap g l f.tptr)
    (hnode : f.node = some a) : ∃ h' x, f.finish (.head l) = some (h', x) ∧ Sorted h' g := by
  have hf := hu.whole.filed
  rw [Found.finish, hnode]
  by_cases hhead : f.tptr = .head l
  · refine ⟨_, _, if_pos hhead, hu.whole, hu.apart, fun i ↦ (hu.mendable i).lastLargest ?_⟩
    intro hmem
    obtain ⟨k, -, hk⟩ := hf.cell_of_mem_freeList hmem
    cases hhead.symm.trans hk
  · have harea := hu.entry.resolve_left hhead
    obtain ⟨h₁, h₂, hremove, hadd, hsame, hw₂⟩ := hu.whole.resort harea
    obtain ⟨k, -, hcell⟩ := hu.whole.chained.cell _ harea.1
    refine ⟨h₂, h₂.address a, ?_, hw₂, hu.apart.congr fun x hx ↦ ?_, ?_⟩
    · simp only [if_neg hhead, hremove, hadd, Option.bind_eq_bind, Option.bind_some]
    · obtain ⟨k', -, rfl⟩ := hu.whole.chained.cell x hx
      exact hsame.block k'
    · have hm := hu.mendable
      rw [hcell] at harea hremove hadd hm
      exact hf.resort harea.1 harea.2 hm hremove hadd

theorem Found.finish_sorted {f : Found} (hend : f.node = none ∧ Sorted f.heap g ∨
      ∃ a g', f.node = some a ∧ Unsorted f.heap g' l f.tptr) :
    ∃ h' x g', f.finish (.head l) = some (h', x) ∧ Sorted h' g' := by
  rcases hend with ⟨hnode, hs'⟩ | ⟨a, g', hnode, hu⟩
  · exact ⟨f.heap, 0, g, by rw [Found.finish, hnode], hs'⟩
  · obtain ⟨h', x, hfinish, hs'⟩ := hu.finish hnode
    exact ⟨h', x, g', hfinish, hs'⟩

theorem Sorted.searchLists (hs : Sorted h g) (u align : ℕ) (hsize : 0 < size)
    (rest : List (Fin 9)) (i : Fin 9) :
    ∃ f j, searchLists u size align rest h i = some (f, j) ∧ (f.node = none ∧ Sorted f.heap g ∨
      ∃ a g', f.node = some a ∧ Unsorted f.heap g' ⟨.free, j⟩ f.tptr) := by
  have hcarving := memalignAttempt_carving u align hsize
  induction rest generalizing h i with
  | nil =>
    obtain ⟨f, hf, hend⟩ := hs.searchList hcarving i
    exact ⟨f, i, by simp [Shm.searchLists, hf], hend⟩
  | cons j rest ih =>
    obtain ⟨f, hf, ⟨hnode, hs'⟩ | ⟨a, g', hnode, hu⟩⟩ := hs.searchList hcarving i
    · obtain ⟨f', j', hf', hend'⟩ := ih hs' j
      exact ⟨f', j', by simp [Shm.searchLists, hf, hnode, hf'], hend'⟩
    · exact ⟨f, i, by simp [Shm.searchLists, hf, hnode], .inr ⟨a, g', hnode, hu⟩⟩

theorem Sorted.alloc (hs : Sorted h g) (u size : ℕ) :
    ∃ h' x g', h.alloc u size = some (h', x) ∧ Sorted h' g' := by
  by_cases hzero : size = 0
  · exact ⟨h, 0, g, if_pos hzero, hs⟩
  obtain ⟨o, hlist⟩ := hs.whole.getFreeAreaList (size % 2 ^ 32)
  rw [Heap.alloc, if_neg hzero, hlist, Option.bind_eq_bind, Option.bind_some]
  cases o with
  | none => exact ⟨h, 0, g, rfl, hs⟩
  | some i =>
    have hcarving := allocAttempt_carving u (Nat.pos_of_ne_zero hzero)
    obtain ⟨f, hf, hend⟩ := hs.searchList hcarving i
    obtain ⟨h', x, g', hfinish, hs'⟩ := f.finish_sorted hend
    refine ⟨h', x, g', ?_, hs'⟩
    simp only [hf, Option.bind_eq_bind, Option.bind_some, hfinish]

theorem Sorted.memalign (hs : Sorted h g) (u size align : ℕ) :
    ∃ h' x g', h.memalign u size align = some (h', x) ∧ Sorted h' g' := by
  by_cases hzero : size = 0
  · exact ⟨h, 0, g, if_pos hzero, hs⟩
  by_cases hzero' : align = 0
  · rw [Heap.memalign, if_neg hzero, if_pos hzero']
    exact hs.alloc u size
  obtain ⟨o, hlist⟩ := hs.whole.getFreeAreaList (size % 2 ^ 32)
  rw [Heap.memalign, if_neg hzero, if_neg hzero', hlist, Option.bind_eq_bind, Option.bind_some]
  cases o with
  | none => exact ⟨h, 0, g, rfl, hs⟩
  | some i =>
    obtain ⟨f, j, hf, hend⟩ := hs.searchLists u align (Nat.pos_of_ne_zero hzero) (listsFrom (i + 1)) i
    obtain ⟨h', x, g', hfinish, hs'⟩ := f.finish_sorted hend
    refine ⟨h', x, g', ?_, hs'⟩
    simp only [hf, Option.bind_eq_bind, Option.bind_some, hfinish]

end Searches

end EnbL1Ppc.Shm
