import EnbL1Ppc.Shm.Layout
import EnbL1Ppc.Shm.Lists

namespace EnbL1Ppc.Shm

open Lib

def Heap.block (h : Heap) (r : Ref) : Block :=
  ⟨h.address r, h.size r, h.tag r⟩

def Filed (h : Heap) (N : Set Ref) : Prop :=
  ∃ c, Lists h c ∧ ∀ kind r, Listed c kind r ↔ r ∈ N ∧ h.tag r = kind

/-- `kmalloc` may have been called, and only nodes that it has handed out since have changed. -/
structure Heap.Grows (h h' : Heap) : Prop where
  links : h'.links = h.links
  global : h'.global = h.global
  cells : h.cells ≤ h'.cells
  block : ∀ r, (∀ k, r = .cell k → k < h.cells) → h'.block r = h.block r
  size_lt : (∀ r, h.size r < 2 ^ 32) → ∀ r, h'.size r < 2 ^ 32

structure Chained (h : Heap) (g : List Ref) : Prop where
  ring : h.global.Ring .globalHead g
  cell : ∀ r ∈ g, ∃ k < h.cells, r = .cell k
  detached : ∀ l, h.global.next (.head l) = none

section

variable {h h' : Heap} {N : Set Ref} {g g₁ g₂ : List Ref} {r r' : Ref} {kind : Kind} {k : ℕ}

theorem Heap.block_eq_iff {a s : ℕ} {t : Kind} :
    h.block r = ⟨a, s, t⟩ ↔ h.address r = a ∧ h.size r = s ∧ h.tag r = t := by
  simp [Heap.block]

theorem Heap.block_congr (hb : h'.block r = h.block r) :
    h'.address r = h.address r ∧ h'.size r = h.size r ∧ h'.tag r = h.tag r := by
  simpa [Heap.block] using hb

@[simp] theorem Heap.set_block (h : Heap) (r : Ref) (a s : ℕ) (t : Kind) :
    (h.set r a s t).block r = ⟨a, s, t⟩ := by
  simp [Heap.block, Heap.set]

theorem Heap.set_block_of_ne {a s : ℕ} {t : Kind} (hne : r' ≠ r) :
    (h.set r a s t).block r' = h.block r' := by
  simp [Heap.block, Heap.set, hne]

@[simp] theorem Heap.setSize_block (h : Heap) (r : Ref) (s : ℕ) :
    (h.setSize r s).block r = ⟨h.address r, s, h.tag r⟩ := by
  simp [Heap.block, Heap.setSize]

theorem Heap.setSize_block_of_ne {s : ℕ} (hne : r' ≠ r) :
    (h.setSize r s).block r' = h.block r' := by
  simp [Heap.block, Heap.setSize, hne]

@[simp] theorem Heap.setTag_block (h : Heap) (r : Ref) (t : Kind) :
    (h.setTag r t).block r = ⟨h.address r, h.size r, t⟩ := by
  simp [Heap.block, Heap.setTag]

theorem Heap.setTag_block_of_ne {t : Kind} (hne : r' ≠ r) :
    (h.setTag r t).block r' = h.block r' := by
  simp [Heap.block, Heap.setTag, hne]

theorem Heap.SameNodes.block (hs : h.SameNodes h') (k : ℕ) :
    h'.block (.cell k) = h.block (.cell k) := by
  simp [Heap.block, hs.tag, hs.address, hs.size]

namespace Filed

theorem cell (hf : Filed h N) (hr : r ∈ N) : ∃ k < h.cells, r = .cell k := by
  obtain ⟨c, hl, hlisted⟩ := hf
  obtain ⟨i, hi⟩ := (hlisted (h.tag r) r).2 ⟨hr, rfl⟩
  exact hl.cell _ r hi

theorem size_lt (hf : Filed h N) (r : Ref) : h.size r < 2 ^ 32 := by
  obtain ⟨c, hl, -⟩ := hf
  exact hl.size_lt r

theorem delete (hf : Filed h N) (kind : Kind) (hr : r ∈ N) (htag : h.tag r = kind) :
    ∃ h', h.listRemove kind r = some h' ∧ h.SameNodes h' ∧ Filed h' (N \ {r}) := by
  obtain ⟨c, hl, hlisted⟩ := hf
  obtain ⟨h', c', hremove, hs, hl', hlisted'⟩ := hl.delete ((hlisted kind r).2 ⟨hr, htag⟩)
  refine ⟨h', hremove, hs, c', hl', fun kind' r' ↦ ?_⟩
  rw [hlisted', hlisted, hs.tag]
  exact and_right_comm

theorem insert (hf : Filed h N) (kind : Kind) (hk : k < h.cells) (hnew : .cell k ∉ N)
    (htag : h.tag (.cell k) = kind) :
    ∃ h', h.listAdd kind (.cell k) = some h' ∧ h.SameNodes h' ∧
      Filed h' (Insert.insert (.cell k) N) := by
  obtain ⟨c, hl, hlisted⟩ := hf
  obtain ⟨h', c', hadd, hs, hl', hlisted'⟩ := hl.insert kind hk fun kind' hmem ↦
    hnew ((hlisted kind' _).1 hmem).1
  refine ⟨h', hadd, hs, c', hl', fun kind' r ↦ ?_⟩
  rw [hlisted', hlisted, hs.tag, Set.mem_insert_iff]
  constructor
  · rintro (⟨hr, rfl⟩ | ⟨rfl, rfl⟩)
    · exact ⟨.inr hr, rfl⟩
    · exact ⟨.inl rfl, htag⟩
  · rintro ⟨rfl | hr, rfl⟩
    · exact .inr ⟨htag, rfl⟩
    · exact .inl ⟨hr, rfl⟩

theorem congr (hf : Filed h N) (hlinks : h'.links = h.links) (hcells : h.cells ≤ h'.cells)
    (hhead : ∀ l, h'.size (.head l) = h.size (.head l)) (hblock : ∀ r ∈ N, h'.block r = h.block r)
    (hlt : ∀ r, h'.size r < 2 ^ 32) : Filed h' N := by
  obtain ⟨c, hl, hlisted⟩ := hf
  refine ⟨c, hl.congr hlinks hcells hhead (fun l r hr ↦ ?_) hlt, fun kind r ↦ ?_⟩
  · obtain ⟨ha, hs, -⟩ := Heap.block_congr (hblock r ((hlisted l.kind r).1 ⟨l.index, hr⟩).1)
    exact ⟨hs, ha⟩
  · rw [hlisted]
    refine and_congr_right fun hr ↦ ?_
    rw [(Heap.block_congr (hblock r hr)).2.2]

theorem set (hf : Filed h N) (hk : .cell k ∉ N) (a : ℕ) {s : ℕ} (hs : s < 2 ^ 32) (t : Kind) :
    Filed (h.set (.cell k) a s t) N := by
  refine hf.congr rfl le_rfl (fun l ↦ ?_) (fun r hr ↦ Heap.set_block_of_ne ?_) fun r ↦ ?_
  · simp [Heap.set]
  · rintro rfl
    exact hk hr
  · by_cases hr : r = .cell k
    · rw [hr]
      exact (Heap.block_eq_iff.1 (h.set_block (.cell k) a s t)).2.1.trans_lt hs
    · exact (Heap.block_congr (Heap.set_block_of_ne hr)).2.1.trans_lt (hf.size_lt r)

theorem setSize (hf : Filed h N) (hk : .cell k ∉ N) {s : ℕ} (hs : s < 2 ^ 32) :
    Filed (h.setSize (.cell k) s) N := by
  have heq : h.setSize (.cell k) s =
      h.set (.cell k) (h.address (.cell k)) s (h.tag (.cell k)) := by
    simp [Heap.setSize, Heap.set]
  rw [heq]
  exact hf.set hk _ hs _

theorem setTag (hf : Filed h N) (hk : .cell k ∉ N) (t : Kind) :
    Filed (h.setTag (.cell k) t) N := by
  have heq : h.setTag (.cell k) t =
      h.set (.cell k) (h.address (.cell k)) (h.size (.cell k)) t := by
    simp [Heap.setTag, Heap.set]
  rw [heq]
  exact hf.set hk _ (hf.size_lt _) _

theorem grows (hf : Filed h N) (hg : h.Grows h') : Filed h' N := by
  refine hf.congr hg.links hg.cells (fun l ↦ ?_) (fun r hr ↦ hg.block r ?_) (hg.size_lt hf.size_lt)
  · exact (Heap.block_congr (hg.block (.head l) nofun)).2.1
  · obtain ⟨k, hk, rfl⟩ := hf.cell hr
    rintro _ ⟨⟩
    exact hk

end Filed

namespace Heap.Grows

theorem refl (h : Heap) : h.Grows h :=
  ⟨rfl, rfl, le_rfl, fun _ _ ↦ rfl, id⟩

theorem trans {h₁ h₂ h₃ : Heap} (h : h₁.Grows h₂) (h' : h₂.Grows h₃) : h₁.Grows h₃ where
  links := h'.links.trans h.links
  global := h'.global.trans h.global
  cells := h.cells.trans h'.cells
  block r hr := (h'.block r fun k hk ↦ (hr k hk).trans_le h.cells).trans (h.block r hr)
  size_lt hlt := h'.size_lt (h.size_lt hlt)

theorem set (hg : h.Grows h') (hk : h.cells ≤ k) (a : ℕ) {s : ℕ} (hs : s < 2 ^ 32) (t : Kind) :
    h.Grows (h'.set (.cell k) a s t) where
  links := hg.links
  global := hg.global
  cells := hg.cells
  block r hr := by
    refine (Heap.set_block_of_ne ?_).trans (hg.block r hr)
    rintro rfl
    exact absurd (hr k rfl) (by omega)
  size_lt hlt r := by
    by_cases hr : r = .cell k
    · rw [hr]
      exact (Heap.block_eq_iff.1 (h'.set_block (.cell k) a s t)).2.1.trans_lt hs
    · exact (Heap.block_congr (Heap.set_block_of_ne hr)).2.1.trans_lt (hg.size_lt hlt r)

end Heap.Grows

theorem Heap.kmalloc_cases (h : Heap) :
    (∃ h', h.kmalloc = (h', none) ∧ h.Grows h') ∨
      ∃ h', h.kmalloc = (h', some (.cell h.cells)) ∧ h.Grows h' ∧ h'.cells = h.cells + 1 ∧
        ∀ r, h'.block r = h.block r := by
  unfold Heap.kmalloc
  split
  · exact .inl ⟨_, rfl, rfl, rfl, le_rfl, fun _ _ ↦ rfl, id⟩
  · exact .inr ⟨_, rfl, ⟨rfl, rfl, Nat.le_succ _, fun _ _ ↦ rfl, id⟩, rfl, fun _ ↦ rfl⟩

def Heap.regroup (h : Heap) (global : Links Ref) : Heap :=
  { h with global := global }

@[simp] theorem Heap.regroup_block (h : Heap) (global : Links Ref) (r : Ref) :
    (h.regroup global).block r = h.block r := rfl

theorem Filed.regroup (hf : Filed h N) (global : Links Ref) : Filed (h.regroup global) N :=
  hf.congr rfl le_rfl (fun _ ↦ rfl) (fun _ _ ↦ rfl) hf.size_lt

namespace Chained

theorem nodup (hc : Chained h g) : g.Nodup :=
  (List.nodup_cons.1 (hc.ring.nodup ())).2

theorem not_mem (hc : Chained h (g₁ ++ r :: g₂)) : r ∉ g₁ ++ g₂ := by
  have hnd := hc.nodup
  rw [List.nodup_middle] at hnd
  exact (List.nodup_cons.1 hnd).1

theorem cell_of_mem (hc : Chained h (g₁ ++ r :: g₂)) (hr' : r' ∈ g₁ ++ g₂) :
    ∃ k < h.cells, r' = .cell k := by
  refine hc.cell r' ?_
  simp only [List.mem_append, List.mem_cons] at hr' ⊢
  tauto

theorem ne_globalHead (hc : Chained h g) (hr : r ∈ g) : r ≠ .globalHead := by
  rintro rfl
  obtain ⟨k, -, hk⟩ := hc.cell _ hr
  cases hk

theorem sameNodes (hc : Chained h g) (hs : h.SameNodes h') : Chained h' g := by
  refine ⟨hs.global ▸ hc.ring, ?_, hs.global ▸ hc.detached⟩
  rw [hs.cells]
  exact hc.cell

theorem grows (hc : Chained h g) (hg : h.Grows h') : Chained h' g := by
  refine ⟨hg.global ▸ hc.ring, fun r hr ↦ ?_, hg.global ▸ hc.detached⟩
  obtain ⟨k, hk, rfl⟩ := hc.cell r hr
  exact ⟨k, hk.trans_le hg.cells, rfl⟩

theorem next (hc : Chained h (g₁ ++ r :: g₂)) : h.global.next r = some (g₂.headD .globalHead) :=
  hc.ring.next (i := ()) rfl

theorem prev (hc : Chained h (g₁ ++ r :: g₂)) :
    h.global.prev r = some (g₁.getLastD .globalHead) :=
  hc.ring.prev (i := ()) rfl

theorem head_ne_getLastD (hc : Chained h (g₁ ++ g₂)) (l : ListId) :
    Ref.head l ≠ g₁.getLastD .globalHead := by
  intro heq
  rcases List.mem_cons.1 (Links.getLastD_mem Ref.globalHead g₁) with h₁ | h₁
  · rw [h₁] at heq
    cases heq
  · obtain ⟨k', -, hk'⟩ := hc.cell _ (List.mem_append_left _ h₁)
    rw [hk'] at heq
    cases heq

theorem splice (hc : Chained h (g₁ ++ g₂)) (hk : k < h.cells) (hnew : .cell k ∉ g₁ ++ g₂) :
    Chained (h.regroup (h.global.splice (g₁.getLastD .globalHead) (.cell k)
      (g₂.headD .globalHead))) (g₁ ++ .cell k :: g₂) where
  ring := by
    refine Links.Ring.splice hc.ring ?_
    rw [List.mem_cons]
    rintro (hk | hk)
    · cases hk
    · exact hnew hk
  cell r hr := by
    rcases List.mem_append.1 hr with hr | hr
    · exact hc.cell r (List.mem_append_left _ hr)
    · rcases List.mem_cons.1 hr with rfl | hr
      · exact ⟨k, hk, rfl⟩
      · exact hc.cell r (List.mem_append_right _ hr)
  detached l := by
    have hne : Ref.head l ≠ .cell k := nofun
    exact (Links.splice_next (hc.head_ne_getLastD l) hne).trans (hc.detached l)

theorem addBefore (hc : Chained h (g₁ ++ r :: g₂)) (hk : k < h.cells)
    (hnew : .cell k ∉ g₁ ++ r :: g₂) :
    ∃ global, h.listAddGlobalBefore (.cell k) r = some (h.regroup global) ∧
      Chained (h.regroup global) (g₁ ++ .cell k :: r :: g₂) := by
  refine ⟨_, ?_, hc.splice hk hnew⟩
  simp only [Heap.listAddGlobalBefore, hc.prev, Option.bind_eq_bind, Option.bind_some]
  rfl

theorem addAfter (hc : Chained h (g₁ ++ r :: g₂)) (hk : k < h.cells)
    (hnew : .cell k ∉ g₁ ++ r :: g₂) :
    ∃ global, h.listAddGlobalAfter (.cell k) r = some (h.regroup global) ∧
      Chained (h.regroup global) (g₁ ++ r :: .cell k :: g₂) := by
  have hnext := hc.next
  rw [List.append_cons] at hc hnew
  have hsplice := hc.splice hk hnew
  rw [List.append_assoc, List.singleton_append, List.getLastD_concat] at hsplice
  refine ⟨_, ?_, hsplice⟩
  simp only [Heap.listAddGlobalAfter, hnext, Option.bind_eq_bind, Option.bind_some]
  rfl

theorem remove (hc : Chained h (g₁ ++ r :: g₂)) :
    ∃ global, h.listRemoveGlobal r = some (h.regroup global) ∧
      Chained (h.regroup global) (g₁ ++ g₂) := by
  obtain ⟨hunlink, hring⟩ := Links.Ring.unlink hc.ring
  refine ⟨_, ?_, hring, fun r' hr' ↦ ?_, fun l ↦ ?_⟩
  · simp only [Heap.listRemoveGlobal, hunlink, Option.bind_eq_bind, Option.bind_some]
    rfl
  · refine hc.cell r' ?_
    simp only [List.mem_append, List.mem_cons] at hr' ⊢
    tauto
  · have hne : Ref.head l ≠ r := by
      rintro rfl
      obtain ⟨k, -, hk⟩ := hc.cell _ (List.mem_append_right _ List.mem_cons_self)
      cases hk
    exact (Links.join_next (hc.head_ne_getLastD l) hne).trans (hc.detached l)

end Chained

structure Wired (h : Heap) (N : Set Ref) (g : List Ref) : Prop where
  filed : Filed h N
  chained : Chained h g
  head_address : ∀ l, h.address (.head l) = 0

namespace Wired

theorem delete (hw : Wired h N g) (kind : Kind) (hr : r ∈ N) (htag : h.tag r = kind) :
    ∃ h', h.listRemove kind r = some h' ∧ h.SameNodes h' ∧ Wired h' (N \ {r}) g := by
  obtain ⟨h', hremove, hs, hf⟩ := hw.filed.delete kind hr htag
  exact ⟨h', hremove, hs, hf, hw.chained.sameNodes hs, hs.address ▸ hw.head_address⟩

theorem insert (hw : Wired h N g) (kind : Kind) (hk : k < h.cells) (hnew : .cell k ∉ N)
    (htag : h.tag (.cell k) = kind) :
    ∃ h', h.listAdd kind (.cell k) = some h' ∧ h.SameNodes h' ∧
      Wired h' (Insert.insert (.cell k) N) g := by
  obtain ⟨h', hadd, hs, hf⟩ := hw.filed.insert kind hk hnew htag
  exact ⟨h', hadd, hs, hf, hw.chained.sameNodes hs, hs.address ▸ hw.head_address⟩

theorem set (hw : Wired h N g) (hk : .cell k ∉ N) (a : ℕ) {s : ℕ} (hs : s < 2 ^ 32) (t : Kind) :
    Wired (h.set (.cell k) a s t) N g where
  filed := hw.filed.set hk a hs t
  chained := ⟨hw.chained.ring, hw.chained.cell, hw.chained.detached⟩
  head_address l := by simpa [Heap.set] using hw.head_address l

theorem setSize (hw : Wired h N g) (hk : .cell k ∉ N) {s : ℕ} (hs : s < 2 ^ 32) :
    Wired (h.setSize (.cell k) s) N g where
  filed := hw.filed.setSize hk hs
  chained := ⟨hw.chained.ring, hw.chained.cell, hw.chained.detached⟩
  head_address := hw.head_address

theorem setTag (hw : Wired h N g) (hk : .cell k ∉ N) (t : Kind) :
    Wired (h.setTag (.cell k) t) N g where
  filed := hw.filed.setTag hk t
  chained := ⟨hw.chained.ring, hw.chained.cell, hw.chained.detached⟩
  head_address := hw.head_address

theorem grows (hw : Wired h N g) (hg : h.Grows h') : Wired h' N g where
  filed := hw.filed.grows hg
  chained := hw.chained.grows hg
  head_address l := (Heap.block_congr (hg.block (.head l) nofun)).1.trans (hw.head_address l)

theorem addBefore (hw : Wired h N (g₁ ++ r :: g₂)) (hk : k < h.cells)
    (hnew : .cell k ∉ g₁ ++ r :: g₂) :
    ∃ global, h.listAddGlobalBefore (.cell k) r = some (h.regroup global) ∧
      Wired (h.regroup global) N (g₁ ++ .cell k :: r :: g₂) := by
  obtain ⟨global, hadd, hc⟩ := hw.chained.addBefore hk hnew
  exact ⟨global, hadd, hw.filed.regroup global, hc, hw.head_address⟩

theorem addAfter (hw : Wired h N (g₁ ++ r :: g₂)) (hk : k < h.cells)
    (hnew : .cell k ∉ g₁ ++ r :: g₂) :
    ∃ global, h.listAddGlobalAfter (.cell k) r = some (h.regroup global) ∧
      Wired (h.regroup global) N (g₁ ++ r :: .cell k :: g₂) := by
  obtain ⟨global, hadd, hc⟩ := hw.chained.addAfter hk hnew
  exact ⟨global, hadd, hw.filed.regroup global, hc, hw.head_address⟩

theorem remove (hw : Wired h N (g₁ ++ r :: g₂)) :
    ∃ global, h.listRemoveGlobal r = some (h.regroup global) ∧
      Wired (h.regroup global) N (g₁ ++ g₂) := by
  obtain ⟨global, hremove, hc⟩ := hw.chained.remove
  exact ⟨global, hremove, hw.filed.regroup global, hc, hw.head_address⟩

end Wired

abbrev Whole (h : Heap) (g : List Ref) : Prop :=
  Wired h {r | r ∈ g} g

theorem Wired.whole (hw : Wired h N g) (hN : ∀ r, r ∈ N ↔ r ∈ g) : Whole h g := by
  obtain rfl : N = {r | r ∈ g} := Set.ext hN
  exact hw

theorem Whole.grows_block (hw : Whole h g) (hg : h.Grows h') (hr : r ∈ g) :
    h'.block r = h.block r := by
  obtain ⟨k, hk, rfl⟩ := hw.chained.cell r hr
  refine hg.block _ ?_
  rintro _ ⟨⟩
  exact hk

theorem Whole.new_not_mem (hw : Whole h g) (hk : h.cells ≤ k) : .cell k ∉ g := by
  intro hmem
  obtain ⟨k', hk', heq⟩ := hw.chained.cell _ hmem
  cases heq
  omega

theorem Whole.ne_of_mem (hw : Whole h (g₁ ++ r :: g₂)) (hr' : r' ∈ g₁ ++ g₂) : r' ≠ r := by
  rintro rfl
  exact hw.chained.not_mem hr'

end

end EnbL1Ppc.Shm
