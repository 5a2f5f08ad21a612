import EnbL1Ppc.Shm.Nodes

namespace EnbL1Ppc.Shm

open Lib

structure Cut (h : Heap) (g₁ g₂ : List Ref) (h' : Heap) (ns : List Ref) : Prop where
  whole : Whole h' (g₁ ++ (ns ++ g₂))
  same : ∀ r ∈ g₁ ++ g₂, h'.block r = h.block r

structure Taken (h : Heap) (g₁ g₂ : List Ref) (x size : ℕ) (h' : Heap) (ns : List Ref) (a : Ref) :
    Prop extends Cut h g₁ g₂ h' ns where
  mem : a ∈ ns
  block : h'.block a = ⟨x, size, .allocated⟩

section

variable {h h' : Heap} {g g₁ g₂ : List Ref} {ptr : Ref} {u size x k : ℕ}

theorem Heap.setTag_listRemove (h : Heap) (r entry : Ref) (kind t : Kind) :
    (h.setTag r t).listRemove kind entry = (h.listRemove kind entry).map (·.setTag r t) := by
  cases kind <;> cases hu : h.links.unlink entry <;>
    simp [Heap.listRemove, Heap.setTag, Heap.setSize, Heap.listOf, hu]

theorem insert_diff_mem (hr : ptr ∈ g) :
    insert ptr ({r | r ∈ g} \ {ptr}) = {r | r ∈ g} := by
  rw [Set.insert_sdiff_singleton, Set.insert_eq_of_mem]
  exact hr

theorem diff_mem_middle (hr : ptr ∉ g₁ ++ g₂) :
    {r | r ∈ g₁ ++ ptr :: g₂} \ {ptr} = {r | r ∈ g₁ ++ g₂} := by
  ext r
  simp only [List.mem_append, List.mem_cons, Set.mem_sdiff, Set.mem_ofPred_eq,
    Set.mem_singleton_iff] at hr ⊢
  constructor
  · rintro ⟨hr', hne⟩
    tauto
  · intro hr'
    refine ⟨by tauto, ?_⟩
    rintro rfl
    exact hr hr'

theorem Whole.allocate_all (hw : Whole h (g₁ ++ ptr :: g₂)) (hfree : h.tag ptr = .free)
    (hsize : h.size ptr = size) :
    ∃ h', h.allocateFreeArea u ptr size = some (h', some ptr) ∧
      Taken h g₁ g₂ (h.address ptr) size h' [ptr] ptr := by
  have hmem : ptr ∈ g₁ ++ ptr :: g₂ := by simp
  obtain ⟨k, hk, rfl⟩ := hw.chained.cell ptr hmem
  obtain ⟨h₁, hremove, hs₁, hw₁⟩ := hw.delete .free hmem hfree
  have hout : Ref.cell k ∉ {r | r ∈ g₁ ++ .cell k :: g₂} \ {.cell k} := by simp
  obtain ⟨h₂, hadd, hs₂, hw₂⟩ := (hw₁.setTag hout .allocated).insert .allocated
    (hs₁.cells ▸ hk) hout (by simp [Heap.setTag])
  rw [insert_diff_mem hmem] at hw₂
  refine ⟨h₂, ?_, ⟨hw₂, fun r hr ↦ ?_⟩, by simp, ?_⟩
  · rw [Heap.allocateFreeArea, if_pos hsize, Heap.listRemoveFreeArea, Heap.setTag_listRemove,
      hremove, Heap.listAddAllocatedArea]
    simp only [Option.map_some, Option.bind_eq_bind, Option.bind_some, hadd]
  · have hne := hw.ne_of_mem hr
    obtain ⟨k', -, rfl⟩ := hw.chained.cell_of_mem hr
    rw [hs₂.block, Heap.setTag_block_of_ne hne, hs₁.block]
  · rw [hs₂.block, Heap.setTag_block, hs₁.address, hs₁.size, hsize]

theorem Whole.allocate_part (hw : Whole h (g₁ ++ ptr :: g₂)) (hfree : h.tag ptr = .free)
    (hsize : size < h.size ptr) :
    ∃ h' a, h.allocateFreeArea u ptr size = some (h', a) ∧ (a = none ∧ h.Grows h' ∨
      a = some (.cell h.cells) ∧
      Taken h g₁ g₂ (h.address ptr) size h' [.cell h.cells, ptr] (.cell h.cells) ∧
      h'.block ptr = ⟨(h.address ptr + size) % 2 ^ u, h.size ptr - size, .free⟩) := by
  have hmem : ptr ∈ g₁ ++ ptr :: g₂ := by simp
  obtain ⟨k, hk, rfl⟩ := hw.chained.cell ptr hmem
  rw [Heap.allocateFreeArea, if_neg (by omega), if_pos hsize]
  rcases h.kmalloc_cases with ⟨h₀, hkm, hg⟩ | ⟨h₀, hkm, hg, hcells, hblock⟩
  · rw [hkm]
    exact ⟨h₀, none, rfl, .inl ⟨rfl, hg⟩⟩
  · have hcell : Ref.cell h.cells ∉ g₁ ++ .cell k :: g₂ := hw.new_not_mem le_rfl
    have hne : Ref.cell h.cells ≠ .cell k := fun heq ↦ hcell (heq ▸ hmem)
    have hlt : size < 2 ^ 32 := hsize.trans (hw.filed.size_lt _)
    have hlt' : h.size (.cell k) - size < 2 ^ 32 := (Nat.sub_le ..).trans_lt (hw.filed.size_lt _)
    have hout : Ref.cell k ∉ {r | r ∈ g₁ ++ .cell k :: g₂} \ {.cell k} := by simp
    obtain ⟨h₁, hremove, hs₁, hw₁⟩ := (hw.grows hg).delete .free hmem
      ((Heap.block_congr (hblock _)).2.2.trans hfree)
    have hw₂ := (hw₁.set (fun hc ↦ hcell hc.1) (h.address (.cell k)) hlt .allocated).set hout
      ((h.address (.cell k) + size) % 2 ^ u) hlt' .free
    set h₂ := (h₁.set (.cell h.cells) (h.address (.cell k)) size .allocated).set (.cell k)
      ((h.address (.cell k) + size) % 2 ^ u) (h.size (.cell k) - size) .free
    have hcells₂ : h₂.cells = h.cells + 1 := hs₁.cells.trans hcells
    have hptr : h₂.block (.cell k) = ⟨_, _, .free⟩ := Heap.set_block ..
    have hnew : h₂.block (.cell h.cells) = ⟨_, _, .allocated⟩ :=
      (Heap.set_block_of_ne hne).trans (Heap.set_block ..)
    obtain ⟨h₃, hadd₃, hs₃, hw₃⟩ := hw₂.insert .free (by omega) hout (Heap.block_eq_iff.1 hptr).2.2
    rw [insert_diff_mem hmem] at hw₃
    obtain ⟨h₄, hadd₄, hs₄, hw₄⟩ := hw₃.insert .allocated (by rw [hs₃.cells]; omega) hcell
      (by rw [hs₃.tag]; exact (Heap.block_eq_iff.1 hnew).2.2)
    have hs := hs₃.trans hs₄
    obtain ⟨global, hadd₅, hw₅⟩ := hw₄.addBefore (by rw [hs.cells]; omega) hcell
    rw [hkm]
    refine ⟨h₄.regroup global, some (.cell h.cells), ?_, .inr
      ⟨rfl, ⟨⟨?_, fun r hr ↦ ?_⟩, by simp, ?_⟩, ?_⟩⟩
    · dsimp only
      rw [Heap.listRemoveFreeArea, hremove, Option.bind_eq_bind, Option.bind_some]
      simp only [Heap.listAddFreeArea, Heap.listAddAllocatedArea]
      rw [hadd₃, Option.bind_some, hadd₄, Option.bind_some, hadd₅, Option.bind_some]
    · refine hw₅.whole fun r ↦ ?_
      simp only [Set.mem_ofPred_eq, Set.mem_insert_iff, List.mem_append, List.mem_cons]
      tauto
    · have hr' : r ≠ .cell k := hw.ne_of_mem hr
      obtain ⟨k', hk', rfl⟩ := hw.chained.cell_of_mem hr
      have hne' : Ref.cell k' ≠ .cell h.cells := by
        rintro ⟨⟩
        omega
      rw [Heap.regroup_block, hs.block, Heap.set_block_of_ne hr', Heap.set_block_of_ne hne',
        hs₁.block, hblock]
    · rw [Heap.regroup_block, hs.block, hnew]
    · rw [Heap.regroup_block, hs.block, hptr]

theorem Whole.carve_start (hw : Whole h (g₁ ++ ptr :: g₂)) (hfree : h.tag ptr = .free)
    (hk : k < h.cells) (hnew : .cell k ∉ g₁ ++ ptr :: g₂) (htag : h.tag (.cell k) = .allocated)
    {n : ℕ} (hn : n < 2 ^ 32) :
    ∃ h₁ h₃ h₄ global, h.listRemoveFreeArea ptr = some h₁ ∧ h.SameNodes h₁ ∧
      (h₁.setSize ptr n).listAddFreeArea ptr = some h₃ ∧
      h₃.listAddAllocatedArea (.cell k) = some h₄ ∧
      h₄.listAddGlobalAfter (.cell k) ptr = some (h₄.regroup global) ∧
      Whole (h₄.regroup global) (g₁ ++ ptr :: .cell k :: g₂) ∧
      (h₄.regroup global).block ptr = ⟨h.address ptr, n, .free⟩ ∧
      (∀ k', Ref.cell k' ≠ ptr → (h₄.regroup global).block (.cell k') = h.block (.cell k')) ∧
      (h₄.regroup global).cells = h.cells := by
  have hmem : ptr ∈ g₁ ++ ptr :: g₂ := by simp
  obtain ⟨j, hj, rfl⟩ := hw.chained.cell ptr hmem
  have hne : Ref.cell k ≠ .cell j := fun heq ↦ hnew (heq ▸ hmem)
  have hout : Ref.cell j ∉ {r | r ∈ g₁ ++ .cell j :: g₂} \ {.cell j} := by simp
  obtain ⟨h₁, hremove, hs₁, hw₁⟩ := hw.delete .free hmem hfree
  obtain ⟨h₃, hadd₃, hs₃, hw₃⟩ := (hw₁.setSize hout hn).insert .free (hs₁.cells ▸ hj) hout
    ((congrFun hs₁.tag _).trans hfree)
  rw [insert_diff_mem hmem] at hw₃
  obtain ⟨h₄, hadd₄, hs₄, hw₄⟩ := hw₃.insert .allocated (by rw [hs₃.cells]; exact hs₁.cells ▸ hk)
    hnew (by rw [hs₃.tag]; exact (congrFun hs₁.tag _).trans htag)
  have hs := hs₃.trans hs₄
  have hcells : h₄.cells = h.cells := hs.cells.trans hs₁.cells
  obtain ⟨global, hadd₅, hw₅⟩ := hw₄.addAfter (hcells ▸ hk) hnew
  refine ⟨h₁, h₃, h₄, global, hremove, hs₁, hadd₃, hadd₄, hadd₅, hw₅.whole fun r ↦ ?_, ?_,
    fun k' hk' ↦ ?_, hcells⟩
  · simp only [Set.mem_ofPred_eq, Set.mem_insert_iff, List.mem_append, List.mem_cons]
    tauto
  · rw [Heap.regroup_block, hs.block, Heap.setSize_block, hs₁.address, hs₁.tag, hfree]
  · rw [Heap.regroup_block, hs.block, Heap.setSize_block_of_ne hk', hs₁.block]

theorem Heap.sizeLeft_lt (h : Heap) (ptr anptr : Ref) (fnptr : Option Ref) :
    h.sizeLeft ptr anptr fnptr < 2 ^ 32 := by
  cases fnptr <;> exact Nat.mod_lt _ (Nat.two_pow_pos 32)

theorem Heap.SameNodes.sizeLeft_none (hs : h.SameNodes h') (i k : ℕ) :
    h'.sizeLeft (.cell i) (.cell k) none = h.sizeLeft (.cell i) (.cell k) none := by
  simp only [Heap.sizeLeft, hs.size]

theorem Heap.SameNodes.sizeLeft_some (hs : h.SameNodes h') (i k j : ℕ) :
    h'.sizeLeft (.cell i) (.cell k) (some (.cell j)) =
      h.sizeLeft (.cell i) (.cell k) (some (.cell j)) := by
  simp only [Heap.sizeLeft, hs.size]

theorem Whole.carve_end (hw : Whole h (g₁ ++ ptr :: g₂)) (hfree : h.tag ptr = .free)
    (hk : k < h.cells) (hnew : .cell k ∉ g₁ ++ ptr :: g₂)
    (hblock : h.block (.cell k) = ⟨x, size, .allocated⟩) :
    ∃ h', h.carve ptr (.cell k) none = some (h', some (.cell k)) ∧
      Taken h g₁ g₂ x size h' [ptr, .cell k] (.cell k) ∧
      h'.block ptr = ⟨h.address ptr, h.sizeLeft ptr (.cell k) none, .free⟩ := by
  have hmem : ptr ∈ g₁ ++ ptr :: g₂ := by simp
  obtain ⟨h₁, h₃, h₄, global, hremove, hs, hadd₃, hadd₄, hadd₅, hw', hptr, hother, -⟩ :=
    hw.carve_start hfree hk hnew (Heap.block_eq_iff.1 hblock).2.2 (h.sizeLeft_lt ptr (.cell k) none)
  have hne : Ref.cell k ≠ ptr := fun heq ↦ hnew (heq ▸ hmem)
  refine ⟨h₄.regroup global, ?_, ⟨⟨hw', fun r hr ↦ ?_⟩, by simp, (hother k hne).trans hblock⟩, hptr⟩
  · obtain ⟨i, -, rfl⟩ := hw.chained.cell ptr hmem
    simp only [Heap.carve, hremove, Option.bind_eq_bind, Option.bind_some, hs.sizeLeft_none, hadd₃,
      hadd₄, hadd₅]
  · have hr' := hw.ne_of_mem hr
    obtain ⟨k', -, rfl⟩ := hw.chained.cell_of_mem hr
    exact hother k' hr'

theorem Whole.carve_middle {j : ℕ} (hw : Whole h (g₁ ++ ptr :: g₂)) (hfree : h.tag ptr = .free)
    (hk : k < h.cells) (hnew : .cell k ∉ g₁ ++ ptr :: g₂)
    (hblock : h.block (.cell k) = ⟨x, size, .allocated⟩) (hj : j < h.cells)
    (hnew' : .cell j ∉ g₁ ++ ptr :: g₂) (hjk : j ≠ k) (htag : h.tag (.cell j) = .free) :
    ∃ h', h.carve ptr (.cell k) (some (.cell j)) = some (h', some (.cell k)) ∧
      Taken h g₁ g₂ x size h' [ptr, .cell k, .cell j] (.cell k) ∧
      h'.block (.cell j) = h.block (.cell j) ∧
      h'.block ptr = ⟨h.address ptr, h.sizeLeft ptr (.cell k) (some (.cell j)), .free⟩ := by
  have hmem : ptr ∈ g₁ ++ ptr :: g₂ := by simp
  obtain ⟨h₁, h₃, h₄, global, hremove, hs, hadd₃, hadd₄, hadd₅, hw', hptr, hother, hcells⟩ :=
    hw.carve_start hfree hk hnew (Heap.block_eq_iff.1 hblock).2.2
      (h.sizeLeft_lt ptr (.cell k) (some (.cell j)))
  have hne : Ref.cell k ≠ ptr := fun heq ↦ hnew (heq ▸ hmem)
  have hne' : Ref.cell j ≠ ptr := fun heq ↦ hnew' (heq ▸ hmem)
  have hout : Ref.cell j ∉ g₁ ++ ptr :: .cell k :: g₂ := by
    simp only [List.mem_append, List.mem_cons, Ref.cell.injEq, not_or] at hnew' ⊢
    tauto
  obtain ⟨h₆, hadd₆, hs₆, hw₆⟩ := hw'.insert .free (hcells ▸ hj) hout
    ((Heap.block_congr (hother j hne')).2.2.trans htag)
  rw [List.append_cons] at hw₆ hout
  obtain ⟨global', hadd₇, hw₇⟩ := hw₆.addAfter (by rw [hs₆.cells]; exact hcells ▸ hj) hout
  rw [← List.append_cons, ← List.append_cons] at hw₇
  obtain ⟨i, -, rfl⟩ := hw.chained.cell ptr hmem
  refine ⟨h₆.regroup global', ?_, ⟨⟨hw₇.whole fun r ↦ ?_, fun r hr ↦ ?_⟩, by simp, ?_⟩, ?_, ?_⟩
  · simp only [Heap.carve, hremove, Option.bind_eq_bind, Option.bind_some, hs.sizeLeft_some, hadd₃,
      hadd₄, hadd₅]
    rw [Heap.listAddFreeArea, hadd₆, Option.bind_some, hadd₇, Option.bind_some]
  · simp only [Set.mem_insert_iff, Set.mem_ofPred_eq, List.mem_append, List.mem_cons]
    tauto
  · have hr' := hw.ne_of_mem hr
    obtain ⟨k', -, rfl⟩ := hw.chained.cell_of_mem hr
    rw [Heap.regroup_block, hs₆.block, hother k' hr']
  · rw [Heap.regroup_block, hs₆.block, hother k hne, hblock]
  · rw [Heap.regroup_block, hs₆.block, hother j hne']
  · rw [Heap.regroup_block, hs₆.block, hptr]

theorem Cut.of_grows {h₁ : Heap} {ns : List Ref} (hcut : Cut h₁ g₁ g₂ h' ns)
    (hw : Whole h (g₁ ++ ptr :: g₂)) (hg : h.Grows h₁) : Cut h g₁ g₂ h' ns where
  whole := hcut.whole
  same r hr := by
    rw [hcut.same r hr]
    refine hw.grows_block hg ?_
    simp only [List.mem_append, List.mem_cons] at hr ⊢
    tauto

theorem Taken.of_grows {h₁ : Heap} {ns : List Ref} {a : Ref} (ht : Taken h₁ g₁ g₂ x size h' ns a)
    (hw : Whole h (g₁ ++ ptr :: g₂)) (hg : h.Grows h₁) : Taken h g₁ g₂ x size h' ns a :=
  ⟨ht.toCut.of_grows hw hg, ht.mem, ht.block⟩

end

end EnbL1Ppc.Shm
