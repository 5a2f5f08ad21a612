import EnbL1Ppc.Shm.FreeLists

namespace EnbL1Ppc.Shm

open Lib

section Stock

variable {h h' : Heap} {N : Set Ref} {t ptr r : Ref} {kind : Kind} {k : ℕ}

/-- The nodes of `N` are in the lists. Their largest entries are at the end, or will be when `t`
has been sorted in again. -/
structure Stocked (h : Heap) (N : Set Ref) (t : Ref) : Prop where
  filed : Filed h N
  mendable : ∀ i, Mendable h.size t (h.freeList i)

namespace Stocked

theorem congr (hst : Stocked h N t) (hf : Filed h' N) (hlinks : h'.links = h.links)
    (hsize : ∀ r ∈ N, h'.size r = h.size r) : Stocked h' N t := by
  refine ⟨hf, fun i ↦ ?_⟩
  rw [hst.filed.freeList_congr hf hlinks]
  exact (hst.mendable i).congr fun r hr ↦ hsize r (hst.filed.of_mem_freeList hr).1

theorem set (hst : Stocked h N t) (hk : .cell k ∉ N) (a : ℕ) {s : ℕ} (hs : s < 2 ^ 32) (tag : Kind) :
    Stocked (h.set (.cell k) a s tag) N t := by
  refine hst.congr (hst.filed.set hk a hs tag) rfl fun r hr ↦ ?_
  have hne : r ≠ .cell k := fun heq ↦ hk (heq ▸ hr)
  exact (Heap.block_congr (Heap.set_block_of_ne hne)).2.1

theorem setSize (hst : Stocked h N t) (hk : .cell k ∉ N) {s : ℕ} (hs : s < 2 ^ 32) :
    Stocked (h.setSize (.cell k) s) N t := by
  refine hst.congr (hst.filed.setSize hk hs) rfl fun r hr ↦ ?_
  have hne : r ≠ .cell k := fun heq ↦ hk (heq ▸ hr)
  exact (Heap.block_congr (Heap.setSize_block_of_ne hne)).2.1

theorem setTag (hst : Stocked h N t) (hk : .cell k ∉ N) (tag : Kind) :
    Stocked (h.setTag (.cell k) tag) N t :=
  hst.congr (hst.filed.setTag hk tag) rfl fun _ _ ↦ rfl

theorem regroup (hst : Stocked h N t) (global : Links Ref) : Stocked (h.regroup global) N t :=
  hst.congr (hst.filed.regroup global) rfl fun _ _ ↦ rfl

theorem insert (hst : Stocked h N t) (hk : k < h.cells) (hnew : .cell k ∉ N)
    (htag : h.tag (.cell k) = kind) (heq : h.listAdd kind (.cell k) = some h') :
    h.SameNodes h' ∧ Stocked h' (Insert.insert (.cell k) N) t := by
  obtain ⟨hs, hf⟩ := hst.filed.of_insert hk hnew htag heq
  have hm : ∀ i, Mendable h'.size t (h.freeList i) := by
    intro i
    refine (hst.mendable i).congr fun r hr ↦ ?_
    obtain ⟨k', -, rfl⟩ := hst.filed.cell_of_mem_freeList hr
    exact hs.size k'
  refine ⟨hs, hf, fun i ↦ ?_⟩
  cases kind with
  | free =>
    rw [show h'.freeList = _ from hst.filed.receives hk hnew heq]
    by_cases hi : i = listIndex (h'.size (.cell k))
    · subst hi
      rw [Function.update_self]
      exact (hm _).insertBySize _
    · rw [Function.update_of_ne hi]
      exact hm i
  | allocated =>
    rw [hst.filed.freeList_insert_allocated hk hnew heq]
    exact hm i

end Stocked

theorem Filed.stocked_delete (hf : Filed h N) (hr : ptr ∈ N) (htag : h.tag ptr = .free)
    (hm : ∀ i, Mendable h.size t ((h.freeList i).filter (· ≠ ptr)))
    (heq : h.listRemove .free ptr = some h') : h.SameNodes h' ∧ Stocked h' (N \ {ptr}) t := by
  obtain ⟨hs, hf'⟩ := hf.of_delete hr htag heq
  refine ⟨hs, hf', fun i ↦ ?_⟩
  rw [hf.freeList_delete hr htag heq]
  refine (hm i).congr fun r hr ↦ ?_
  obtain ⟨k', -, rfl⟩ := hf.cell_of_mem_freeList (List.mem_of_mem_filter hr)
  exact hs.size k'

theorem Heap.listAddGlobalBefore_eq (heq : h.listAddGlobalBefore r ptr = some h') :
    ∃ global, h' = h.regroup global := by
  simp only [Heap.listAddGlobalBefore, Option.bind_eq_bind, Option.bind_eq_some_iff,
    Option.some.injEq] at heq
  obtain ⟨p, -, rfl⟩ := heq
  exact ⟨_, rfl⟩

theorem Heap.listAddGlobalAfter_eq (heq : h.listAddGlobalAfter r ptr = some h') :
    ∃ global, h' = h.regroup global := by
  simp only [Heap.listAddGlobalAfter, Option.bind_eq_bind, Option.bind_eq_some_iff,
    Option.some.injEq] at heq
  obtain ⟨n, -, rfl⟩ := heq
  exact ⟨_, rfl⟩

theorem Heap.listRemoveGlobal_eq (heq : h.listRemoveGlobal r = some h') :
    ∃ global, h' = h.regroup global := by
  simp only [Heap.listRemoveGlobal, Option.bind_eq_bind, Option.bind_eq_some_iff,
    Option.some.injEq] at heq
  obtain ⟨global, -, rfl⟩ := heq
  exact ⟨global, rfl⟩

end Stock

section Refill

variable {h h₁ h' : Heap} {N : Set Ref} {ptr r : Ref} {u align size j k : ℕ}

def Heap.Refills (h : Heap) (ptr : Ref) (h' : Heap) : Prop :=
  ∀ t, (∀ i, Mendable h.size t ((h.freeList i).filter (· ≠ ptr))) →
    ∀ i, Mendable h'.size t (h'.freeList i)

theorem Heap.Refills.of_grows (hr : h₁.Refills ptr h') (hf : Filed h N) (hg : h.Grows h₁) :
    h.Refills ptr h' := by
  intro t hm
  refine hr t fun i ↦ ?_
  rw [hf.freeList_congr (hf.grows hg) hg.links]
  refine (hm i).congr fun r hr ↦ ?_
  obtain ⟨k, hk, rfl⟩ := hf.cell_of_mem_freeList (List.mem_of_mem_filter hr)
  refine (Heap.block_congr (hg.block _ ?_)).2.1
  rintro _ ⟨⟩
  exact hk

theorem Filed.new_not_mem (hf : Filed h N) (hk : h.cells ≤ k) : .cell k ∉ N := by
  intro hmem
  obtain ⟨k', hk', heq⟩ := hf.cell hmem
  cases heq
  omega

theorem Filed.allocate_all (hf : Filed h N) (hptr : .cell k ∈ N) (htag : h.tag (.cell k) = .free)
    (hsize : h.size (.cell k) = size)
    (heq : h.allocateFreeArea u (.cell k) size = some (h', some r)) : h.Refills (.cell k) h' := by
  intro t hm
  obtain ⟨_, hk, ⟨⟩⟩ := hf.cell hptr
  have hout : Ref.cell k ∉ N \ {.cell k} := by simp
  rw [Heap.allocateFreeArea, if_pos hsize, Heap.listRemoveFreeArea, Heap.setTag_listRemove] at heq
  simp only [Option.bind_eq_bind, Option.bind_eq_some_iff, Option.map_eq_some_iff, Option.some.injEq,
    Prod.mk.injEq] at heq
  obtain ⟨_, ⟨h₁, hremove, rfl⟩, h₂, hadd, rfl, -⟩ := heq
  obtain ⟨hs₁, hst₁⟩ := hf.stocked_delete hptr htag hm hremove
  have hst₂ := hst₁.setTag hout .allocated
  obtain ⟨-, hst₃⟩ := hst₂.insert (hs₁.cells ▸ hk) hout (by simp [Heap.setTag]) hadd
  exact hst₃.mendable

theorem Filed.allocate_part (hf : Filed h N) (hptr : .cell k ∈ N) (htag : h.tag (.cell k) = .free)
    (hlt : size < h.size (.cell k))
    (heq : h.allocateFreeArea u (.cell k) size = some (h', some r)) : h.Refills (.cell k) h' := by
  obtain ⟨_, hk, ⟨⟩⟩ := hf.cell hptr
  rw [Heap.allocateFreeArea, if_neg (by omega), if_pos hlt] at heq
  rcases h.kmalloc_cases with ⟨h₀, hkm, -⟩ | ⟨h₀, hkm, hg, hcells, hblock⟩
  · rw [hkm] at heq
    cases heq
  rw [hkm] at heq
  simp only [Option.bind_eq_bind, Option.bind_eq_some_iff, Option.some.injEq, Prod.mk.injEq] at heq
  obtain ⟨h₁, hremove, h₃, hadd₃, h₄, hadd₄, h₅, hadd₅, rfl, -⟩ := heq
  refine Heap.Refills.of_grows ?_ hf hg
  intro t hm
  have hcell : Ref.cell h.cells ∉ N := hf.new_not_mem le_rfl
  have hne : Ref.cell h.cells ≠ .cell k := fun heq ↦ hcell (heq ▸ hptr)
  have hout : Ref.cell k ∉ N \ {.cell k} := by simp
  have hout' : Ref.cell h.cells ∉ N \ {.cell k} := fun hmem ↦ hcell hmem.1
  have hsize := hf.size_lt (.cell k)
  have hrest : h.size (.cell k) - size < 2 ^ 32 := (Nat.sub_le ..).trans_lt hsize
  obtain ⟨hs₁, hst₁⟩ := (hf.grows hg).stocked_delete hptr
    ((Heap.block_congr (hblock _)).2.2.trans htag) hm hremove
  have hst₂ := (hst₁.set hout' (h.address (.cell k)) (hlt.trans hsize) .allocated).set hout
    ((h.address (.cell k) + size) % 2 ^ u) hrest .free
  obtain ⟨hs₃, hst₃⟩ := hst₂.insert (hs₁.cells.trans hcells ▸ Nat.lt_succ_of_lt hk) hout
    (by simp [Heap.set]) hadd₃
  have hcells₃ : h₃.cells = h.cells + 1 := hs₃.cells.trans (hs₁.cells.trans hcells)
  obtain ⟨-, hst₄⟩ := hst₃.insert (by omega) (by simp [hne, hcell])
    (by simp [hs₃.tag, Heap.set, hne]) hadd₄
  obtain ⟨global, rfl⟩ := Heap.listAddGlobalBefore_eq hadd₅
  exact (hst₄.regroup global).mendable

theorem Filed.allocateFreeArea (hf : Filed h N) (hptr : .cell k ∈ N)
    (htag : h.tag (.cell k) = .free)
    (heq : h.allocateFreeArea u (.cell k) size = some (h', some r)) : h.Refills (.cell k) h' := by
  rcases lt_trichotomy size (h.size (.cell k)) with hlt | hsize | hgt
  · exact hf.allocate_part hptr htag hlt heq
  · exact hf.allocate_all hptr htag hsize.symm heq
  · rw [Heap.allocateFreeArea, if_neg (by omega), if_neg (by omega)] at heq
    cases heq

theorem Filed.carve (hf : Filed h N) (hptr : .cell k ∈ N) (htag : h.tag (.cell k) = .free)
    (hj : j < h.cells) (hnew : .cell j ∉ N) (hallocated : h.tag (.cell j) = .allocated)
    {fnptr : Option Ref} (hfnptr : ∀ f ∈ fnptr, ∃ m < h.cells, f = .cell m ∧ .cell m ∉ N ∧ m ≠ j ∧
      h.tag (.cell m) = .free)
    (heq : h.carve (.cell k) (.cell j) fnptr = some (h', some r)) : h.Refills (.cell k) h' := by
  intro t hm
  obtain ⟨_, hk, ⟨⟩⟩ := hf.cell hptr
  have hne : Ref.cell j ≠ .cell k := fun heq ↦ hnew (heq ▸ hptr)
  have hout : Ref.cell k ∉ N \ {.cell k} := by simp
  simp only [Heap.carve, Option.bind_eq_bind, Option.bind_eq_some_iff] at heq
  obtain ⟨h₁, hremove, h₃, hadd₃, h₄, hadd₄, h₅, hadd₅, heq⟩ := heq
  obtain ⟨hs₁, hst₁⟩ := hf.stocked_delete hptr htag hm hremove
  have hst₂ := hst₁.setSize hout (h₁.sizeLeft_lt (.cell k) (.cell j) fnptr)
  obtain ⟨hs₃, hst₃⟩ := hst₂.insert (hs₁.cells ▸ hk) hout ((congrFun hs₁.tag _).trans htag) hadd₃
  have hcells₃ : h₃.cells = h.cells := hs₃.cells.trans hs₁.cells
  have htag₃ : h₃.tag = h.tag := hs₃.tag.trans hs₁.tag
  obtain ⟨hs₄, hst₄⟩ := hst₃.insert (hcells₃ ▸ hj) (by simp [hne, hnew])
    ((congrFun htag₃ _).trans hallocated) hadd₄
  obtain ⟨global, rfl⟩ := Heap.listAddGlobalAfter_eq hadd₅
  have hst₅ := hst₄.regroup global
  cases fnptr with
  | none =>
    cases heq
    exact hst₅.mendable
  | some f =>
    obtain ⟨m, hm, rfl, hnew', hmj, hfree⟩ := hfnptr f rfl
    have hne' : Ref.cell m ≠ .cell k := fun heq ↦ hnew' (heq ▸ hptr)
    simp only [Option.bind_eq_some_iff, Option.some.injEq, Prod.mk.injEq] at heq
    obtain ⟨h₆, hadd₆, h₇, hadd₇, rfl, -⟩ := heq
    obtain ⟨-, hst₆⟩ := hst₅.insert ((hs₄.cells.trans hcells₃).symm ▸ hm)
      (by simp [hne', hnew', hmj]) ((congrFun (hs₄.tag.trans htag₃) _).trans hfree) hadd₆
    obtain ⟨global', rfl⟩ := Heap.listAddGlobalAfter_eq hadd₇
    exact (hst₆.regroup global').mendable

theorem Filed.cut (hf : Filed h N) (hptr : .cell k ∈ N) (htag : h.tag (.cell k) = .free)
    (hsize : size ≤ h.size (.cell k)) (hstart : ¬h.StartsAligned (.cell k) align)
    (hfits : h.FitsAligned u (.cell k) align size)
    (heq : h.doAlignValloc u (.cell k) align size = some (h', some r)) :
    h.Refills (.cell k) h' := by
  have hcell : Ref.cell h.cells ∉ N := hf.new_not_mem le_rfl
  obtain ⟨_, hk, ⟨⟩⟩ := hf.cell hptr
  have hsame : ∀ {h₁}, h.Grows h₁ → h₁.tag (.cell k) = .free := by
    intro h₁ hg
    refine (Heap.block_congr (hg.block _ ?_)).2.2.trans htag
    rintro _ ⟨⟩
    exact hk
  rw [Heap.doAlignValloc, if_neg hsize.not_gt, if_neg hstart, if_pos hfits] at heq
  dsimp only at heq
  rcases h.kmalloc_cases with ⟨h₀, hkm, -⟩ | ⟨h₀, hkm, hg, hcells, -⟩
  · rw [hkm] at heq
    cases heq
  rw [hkm] at heq
  dsimp only at heq
  have hg₁ := hg.set le_rfl (alignUp u (h.address (.cell k)) align)
    (Nat.mod_lt size (Nat.two_pow_pos 32)) .allocated
  have htag₁ : (h₀.set (.cell h.cells) (alignUp u (h.address (.cell k)) align) (size % 2 ^ 32)
      .allocated).tag (.cell h.cells) = .allocated := by simp [Heap.set]
  have hcells₁ : (h₀.set (.cell h.cells) (alignUp u (h.address (.cell k)) align) (size % 2 ^ 32)
      .allocated).cells = h.cells + 1 := hcells
  set h₁ := h₀.set (.cell h.cells) (alignUp u (h.address (.cell k)) align) (size % 2 ^ 32)
    .allocated
  split_ifs at heq with hend
  · refine ((hf.grows hg₁).carve hptr (hsame hg₁) (by omega) hcell htag₁ ?_ heq).of_grows hf hg₁
    simp
  · rcases h₁.kmalloc_cases with ⟨h₂, hkm', -⟩ | ⟨h₂, hkm', hg', hcells', hblock⟩
    · rw [hkm'] at heq
      cases heq
    rw [hkm'] at heq
    dsimp only at heq
    have hne : Ref.cell h.cells ≠ .cell h₁.cells := by
      rw [hcells₁, Ne, Ref.cell.injEq]
      omega
    have hg₂ := (hg₁.trans hg').set hg₁.cells
      ((alignUp u (h.address (.cell k)) align + size) % 2 ^ u)
      (Nat.mod_lt (((h.address (.cell k) + h.size (.cell k)) % 2 ^ u) -
        (alignUp u (h.address (.cell k)) align + size) % 2 ^ u) (Nat.two_pow_pos 32)) .free
    refine ((hf.grows hg₂).carve hptr (hsame hg₂) ?_ hcell ?_ ?_ heq).of_grows hf hg₂
    · change h.cells < h₂.cells
      omega
    · exact (Heap.block_congr (Heap.set_block_of_ne hne)).2.2.trans
        ((Heap.block_congr (hblock _)).2.2.trans htag₁)
    · rintro f ⟨⟩
      refine ⟨h₁.cells, ?_, rfl, hf.new_not_mem hg₁.cells, by omega, by simp [Heap.set]⟩
      change h₁.cells < h₂.cells
      omega

theorem Filed.doAlignValloc (hf : Filed h N) (hptr : .cell k ∈ N) (htag : h.tag (.cell k) = .free)
    (heq : h.doAlignValloc u (.cell k) align size = some (h', some r)) :
    h.Refills (.cell k) h' := by
  by_cases hlt : h.size (.cell k) < size
  · rw [Heap.doAlignValloc, if_pos hlt] at heq
    cases heq
  by_cases hstart : h.StartsAligned (.cell k) align
  · rw [Heap.doAlignValloc, if_neg hlt, if_pos hstart] at heq
    exact hf.allocateFreeArea hptr htag heq
  by_cases hfits : h.FitsAligned u (.cell k) align size
  · exact hf.cut hptr htag (not_lt.1 hlt) hstart hfits heq
  · rw [Heap.doAlignValloc, if_neg hlt, if_neg hstart, if_neg hfits] at heq
    cases heq

end Refill

end EnbL1Ppc.Shm
