import EnbL1Ppc.Shm.Soundness

namespace EnbL1Ppc.Shm

open Lib Lib.Machine

def Heap.taken (h : Heap) (g : List Ref) : List Block :=
  (g.map h.block).filter (·.kind = .allocated)

/-- The block of size `size` at `x` has been cut out of the free area `ptr`, and the rest of the
area is free. -/
def Grants (h : Heap) (g : List Ref) (size : ℕ) (h' : Heap) (ptr : Ref) (x : ℕ) : Prop :=
  ∃ g₁ g₂ ns, g = g₁ ++ ptr :: g₂ ∧ Cut h g₁ g₂ h' ns ∧ h'.taken ns = [⟨x, size, .allocated⟩]

section Cuts

variable {h h' h₁ : Heap} {g g₁ g₂ : List Ref} {ptr : Ref} {u align size x : ℕ}

theorem Heap.taken_congr (hsame : ∀ r ∈ g, h'.block r = h.block r) : h'.taken g = h.taken g := by
  rw [Heap.taken, List.map_congr_left hsame, Heap.taken]

@[simp]
theorem Heap.taken_append : h.taken (g₁ ++ g₂) = h.taken g₁ ++ h.taken g₂ := by
  simp [Heap.taken]

theorem Heap.taken_eq_nil : h.taken g = [] ↔ ∀ r ∈ g, h.tag r = .free := by
  have hkind : ∀ k : Kind, k ≠ .allocated ↔ k = .free := by rintro (_ | _) <;> decide
  simp [Heap.taken, Heap.block, hkind]

theorem Heap.taken_cons_free (hfree : h.tag ptr = .free) : h.taken (ptr :: g) = h.taken g := by
  simp [Heap.taken, Heap.block, hfree]

theorem Heap.taken_cons_allocated (htag : h.tag ptr = .allocated) :
    h.taken (ptr :: g) = h.block ptr :: h.taken g := by
  simp [Heap.taken, Heap.block, htag]

theorem Whole.unique (hw : Whole h g₁) (hw' : Whole h g₂) : g₁ = g₂ :=
  congrFun (hw.chained.ring.unique hw'.chained.ring) ()

theorem Whole.allocateFreeArea_grants (hw : Whole h g) (hptr : ptr ∈ h.areas g)
    (hsize : size ≤ h.size ptr) :
    ∃ h' a, h.allocateFreeArea u ptr size = some (h', a) ∧
      (a = none ∧ h.Grows h' ∨ ∃ r, a = some r ∧ Grants h g size h' ptr (h'.address r)) := by
  obtain ⟨hmem, hfree⟩ := hptr
  obtain ⟨g₁, g₂, rfl⟩ := List.append_of_mem hmem
  rcases hsize.eq_or_lt with hall | hpart
  · obtain ⟨h', heq, ht⟩ := hw.allocate_all (u := u) hfree hall.symm
    refine ⟨h', _, heq, .inr ⟨_, rfl, g₁, g₂, _, rfl, ht.toCut, ?_⟩⟩
    simp [Heap.taken, ht.block, (Heap.block_eq_iff.1 ht.block).1]
  · obtain ⟨h', a, heq, hg | ⟨rfl, ht, hrest⟩⟩ := hw.allocate_part (u := u) hfree hpart
    · exact ⟨h', a, heq, .inl hg⟩
    · refine ⟨h', _, heq, .inr ⟨_, rfl, g₁, g₂, _, rfl, ht.toCut, ?_⟩⟩
      simp [Heap.taken, ht.block, hrest, (Heap.block_eq_iff.1 ht.block).1]

theorem Whole.doAlignValloc_grants (hw : Whole h g) (hptr : ptr ∈ h.areas g) (align size : ℕ) :
    ∃ h' a, h.doAlignValloc u ptr align size = some (h', a) ∧
      (a = none ∧ h.Grows h' ∨ ∃ r, a = some r ∧ Grants h g size h' ptr (h'.address r)) := by
  by_cases hlt : h.size ptr < size
  · exact ⟨h, none, if_pos hlt, .inl ⟨rfl, .refl h⟩⟩
  have hle : size ≤ h.size ptr := not_lt.1 hlt
  by_cases hstart : h.StartsAligned ptr align
  · have hmod : size % 2 ^ 32 = size := Nat.mod_eq_of_lt (hle.trans_lt (hw.filed.size_lt ptr))
    rw [Heap.doAlignValloc, if_neg hlt, if_pos hstart, hmod]
    exact hw.allocateFreeArea_grants hptr hle
  by_cases hfits : h.FitsAligned u ptr align size
  · obtain ⟨g₁, g₂, rfl⟩ := List.append_of_mem hptr.1
    obtain ⟨h', a, heq, hg | ⟨ns, r, rfl, ht, hblocks⟩⟩ := hw.cut hptr.2 hle hstart hfits
    · exact ⟨h', a, heq, .inl hg⟩
    · refine ⟨h', _, heq, .inr ⟨r, rfl, g₁, g₂, ns, rfl, ht.toCut, ?_⟩⟩
      rw [Heap.taken, hblocks, (Heap.block_eq_iff.1 ht.block).1, cutBlocks]
      split_ifs <;> simp
  · exact ⟨h, none, by rw [Heap.doAlignValloc, if_neg hlt, if_neg hstart, if_neg hfits],
      .inl ⟨rfl, .refl h⟩⟩

end Cuts

def Granting (attempt : Heap → Ref → Option (Heap × Option (Option Ref))) (size : ℕ) : Prop :=
  ∀ h g ptr, Whole h g → ptr ∈ h.areas g → ∃ h' o, attempt h ptr = some (h', o) ∧
    (o.join = none ∧ h.Grows h' ∨ ∃ a, o = some (some a) ∧ Grants h g size h' ptr (h'.address a))

section Calls

variable {h h' h₁ : Heap} {g : List Ref} {ptr : Ref} {u align size x : ℕ}
  {attempt : Heap → Ref → Option (Heap × Option (Option Ref))} {f : Found}

theorem allocAttempt_granting (u size : ℕ) : Granting (allocAttempt u size) size := by
  intro h g ptr hw hptr
  by_cases hle : size ≤ h.size ptr
  · have hmod : size % 2 ^ 32 = size := Nat.mod_eq_of_lt (hle.trans_lt (hw.filed.size_lt ptr))
    obtain ⟨h', a, heq, hcase⟩ := hw.allocateFreeArea_grants (u := u) hptr hle
    refine ⟨h', some a, ?_, hcase.imp id fun ⟨r, hr, hgrants⟩ ↦ ⟨r, congrArg some hr, hgrants⟩⟩
    rw [allocAttempt, if_pos hle, hmod, heq]
    rfl
  · exact ⟨h, none, if_neg hle, .inl ⟨rfl, .refl h⟩⟩

theorem memalignAttempt_granting (u size align : ℕ) :
    Granting (memalignAttempt u size align) size := by
  intro h g ptr hw hptr
  obtain ⟨h', a, heq, hcase⟩ := hw.doAlignValloc_grants (u := u) hptr align size
  refine ⟨h', a.map some, by rw [memalignAttempt, heq]; rfl, ?_⟩
  rcases hcase with ⟨rfl, hg⟩ | ⟨r, rfl, hgrants⟩
  · exact .inl ⟨rfl, hg⟩
  · exact .inr ⟨r, rfl, hgrants⟩

theorem Granting.grown (ha : Granting attempt size) (hw : Whole h g) (hg : h.Grows h₁)
    (hptr : ptr ∈ h.areas g) :
    ∃ h' o, attempt h₁ ptr = some (h', o) ∧ (o.join = none ∧ h₁.Grows h' ∨
      ∃ a, o = some (some a) ∧ Grants h₁ g size h' ptr (h'.address a)) :=
  ha _ _ _ (hw.grows hg) ⟨hptr.1, (Heap.block_congr (hw.grows_block hg hptr.1)).2.2.trans hptr.2⟩

theorem Granting.safe (ha : Granting attempt size) (hw : Whole h g) (hg : h.Grows h₁)
    (hptr : ptr ∈ h.areas g) : Safe attempt h₁ ptr := by
  obtain ⟨h', o, heq, ⟨-, hg'⟩ | ⟨a, rfl, -⟩⟩ := ha.grown hw hg hptr
  · exact ⟨h', o, heq, fun _ ↦ hg'⟩
  · exact ⟨h', _, heq, fun hnone ↦ nomatch hnone⟩

theorem Cut.sameNodes {h₂ : Heap} {g₁ g₂ ns : List Ref} (hcut : Cut h g₁ g₂ h' ns)
    (hs : h'.SameNodes h₂) (hw : Whole h₂ (g₁ ++ (ns ++ g₂))) :
    Cut h g₁ g₂ h₂ ns ∧ h₂.taken ns = h'.taken ns := by
  have hblock : ∀ r ∈ g₁ ++ (ns ++ g₂), h₂.block r = h'.block r := by
    intro r hr
    obtain ⟨k, -, rfl⟩ := hw.chained.cell r hr
    exact hs.block k
  refine ⟨⟨hw, fun r hr ↦ ?_⟩, Heap.taken_congr fun r hr ↦ hblock r (by simp [hr])⟩
  rw [← hcut.same r hr]
  refine hblock r ?_
  simp only [List.mem_append] at hr ⊢
  tauto

def Heap.Answers (h : Heap) (g : List Ref) (size : ℕ) (h' : Heap) (x : ℕ) : Prop :=
  h.Grows h' ∧ x = 0 ∨ ∃ ptr, h.tag ptr = .free ∧ Grants h g size h' ptr x

theorem Whole.finish_answers (hw : Whole h g) (ha : Granting attempt size) {head : Ref}
    (hf : f.Ends attempt h head (h.areas g)) :
    ∃ h' x, f.finish head = some (h', x) ∧ h.Answers g size h' x := by
  rcases hf with ⟨hnode, hg⟩ | ⟨h₁, a, hg, hptr, heq, hnode, htptr⟩
  · exact ⟨f.heap, 0, by rw [Found.finish, hnode], .inl ⟨hg, rfl⟩⟩
  obtain ⟨h', o, heq', hcase⟩ := ha.grown hw hg hptr
  cases heq.symm.trans heq'
  rcases hcase with ⟨hnone, -⟩ | ⟨_, ⟨⟩, g₁, g₂, ns, rfl, hcut₁, htaken⟩
  · cases hnone
  have hcut := hcut₁.of_grows hw hg
  rw [Found.finish, hnode]
  by_cases hhead : f.tptr = head
  · exact ⟨_, _, if_pos hhead, .inr ⟨f.ptr, hptr.2, g₁, g₂, ns, rfl, hcut, htaken⟩⟩
  -- The entry that is sorted in again is another area, which the cut has left as it was.
  · obtain ⟨⟨hmem, hfree⟩, hne⟩ := htptr.resolve_left hhead
    have hrest : f.tptr ∈ g₁ ++ g₂ := by
      simp only [List.mem_append, List.mem_cons] at hmem ⊢
      tauto
    have harea : f.tptr ∈ f.heap.areas (g₁ ++ (ns ++ g₂)) := by
      refine ⟨?_, (Heap.block_congr (hcut.same _ hrest)).2.2.trans hfree⟩
      simp only [List.mem_append] at hrest ⊢
      tauto
    obtain ⟨h₂, h₃, hremove, hadd, hsame, hw₃⟩ := hcut.whole.resort harea
    obtain ⟨hcut₃, htaken₃⟩ := hcut.sameNodes hsame hw₃
    refine ⟨h₃, h₃.address a, ?_, .inr ⟨f.ptr, hptr.2, g₁, g₂, ns, rfl, hcut₃, ?_⟩⟩
    · simp only [if_neg hhead, hremove, hadd, Option.bind_eq_bind, Option.bind_some]
    · rw [htaken₃, htaken, hsame.address]

theorem Whole.alloc_answers (hw : Whole h g) (u size : ℕ) :
    ∃ h' x, h.alloc u size = some (h', x) ∧ h.Answers g size h' x := by
  by_cases hzero : size = 0
  · exact ⟨h, 0, if_pos hzero, .inl ⟨.refl h, rfl⟩⟩
  obtain ⟨o, hlist⟩ := hw.getFreeAreaList (size % 2 ^ 32)
  rw [Heap.alloc, if_neg hzero, hlist, Option.bind_eq_bind, Option.bind_some]
  cases o with
  | none => exact ⟨h, 0, rfl, .inl ⟨.refl h, rfl⟩⟩
  | some i =>
    have ha := allocAttempt_granting u size
    obtain ⟨f, hf, hends⟩ := hw.searchList_ends (fun h₁ hg ptr hptr ↦ ha.safe hw hg hptr)
      (fun h₁ r hr ↦ if_neg (by omega)) (.refl h) i
    obtain ⟨h', x, hfinish, hanswers⟩ := hw.finish_answers ha hends
    refine ⟨h', x, ?_, hanswers⟩
    simp only [hf, Option.bind_eq_bind, Option.bind_some, hfinish]

theorem Whole.memalign_answers (hw : Whole h g) (u size align : ℕ) :
    ∃ h' x, h.memalign u size align = some (h', x) ∧ h.Answers g size h' x := by
  by_cases hzero : size = 0
  · exact ⟨h, 0, if_pos hzero, .inl ⟨.refl h, rfl⟩⟩
  by_cases hzero' : align = 0
  · rw [Heap.memalign, if_neg hzero, if_pos hzero']
    exact hw.alloc_answers u size
  obtain ⟨o, hlist⟩ := hw.getFreeAreaList (size % 2 ^ 32)
  rw [Heap.memalign, if_neg hzero, if_neg hzero', hlist, Option.bind_eq_bind, Option.bind_some]
  cases o with
  | none => exact ⟨h, 0, rfl, .inl ⟨.refl h, rfl⟩⟩
  | some i =>
    have ha := memalignAttempt_granting u size align
    obtain ⟨f, j, hf, hends⟩ := hw.searchLists_ends (fun h₁ hg ptr hptr ↦ ha.safe hw hg hptr)
      (Nat.pos_of_ne_zero hzero) (.refl h) (listsFrom (i + 1)) i
    obtain ⟨h', x, hfinish, hanswers⟩ := hw.finish_answers ha hends
    refine ⟨h', x, ?_, hanswers⟩
    simp only [hf, Option.bind_eq_bind, Option.bind_some, hfinish]

theorem Whole.grants_taken (hw : Whole h g) (hfree : h.tag ptr = .free)
    (hgrants : Grants h g size h' ptr x) :
    ∃ g', Whole h' g' ∧ (h'.taken g').Perm (⟨x, size, .allocated⟩ :: h.taken g) := by
  obtain ⟨g₁, g₂, ns, rfl, hcut, htaken⟩ := hgrants
  refine ⟨_, hcut.whole, ?_⟩
  rw [Heap.taken_append, Heap.taken_append, Heap.taken_append, Heap.taken_cons_free hfree, htaken,
    Heap.taken_congr fun r hr ↦ hcut.same r (List.mem_append_left _ hr),
    Heap.taken_congr fun r hr ↦ hcut.same r (List.mem_append_right _ hr)]
  exact List.perm_middle

end Calls

def Request.block (q : Request) : Block :=
  ⟨q.address, q.size, .allocated⟩

structure Balanced (a b : ℕ) (s : State) (g : List Ref) : Prop extends Intact a b s g where
  taken : (s.heap.taken g).Perm (s.live.map Request.block)

section Steps

variable {a b u x : ℕ} {s : State} {g g' : List Ref} {h' : Heap}

theorem Balanced.supplied (hb : Balanced a b s g) (supply : List Bool) :
    Balanced a b (s.supplied supply) g :=
  ⟨hb.toIntact.supplied supply, hb.taken⟩

theorem Balanced.returned (hb : Balanced a b s g) (ha : 0 < a) {size align : ℕ}
    (hanswers : s.heap.Answers g size h' x)
    (hi : Intact a b (s.returned (h', x) size align) g') :
    Balanced a b (s.returned (h', x) size align) g' := by
  refine ⟨hi, ?_⟩
  rcases hanswers with ⟨hg, rfl⟩ | ⟨ptr, hfree, hgrants⟩
  · obtain rfl := hi.whole.unique (hb.whole.grows hg)
    exact (Heap.taken_congr fun r hr ↦ hb.whole.grows_block hg hr).symm ▸ hb.taken
  · obtain ⟨g₁, hw₁, hperm⟩ := hb.whole.grants_taken hfree hgrants
    obtain rfl := hi.whole.unique hw₁
    -- The block lies in the segment, so that its address is not the one of a failure.
    have hx : x ≠ 0 := by
      have hmem := List.mem_of_mem_filter (hperm.mem_iff.2 List.mem_cons_self)
      have hle := (hi.layout.tiles.bounds hmem).1
      change a ≤ x at hle
      omega
    simp only [State.returned, if_neg hx]
    exact hperm.trans (hb.taken.cons _)

theorem Balanced.addresses (hb : Balanced a b s g) :
    ((s.heap.taken g).map Block.address).Nodup := by
  rw [(hb.taken.map Block.address).nodup_iff, List.map_map]
  exact List.pairwise_map.2 hb.distinct

theorem Balanced.released (hb : Balanced a b s g) {ptr : ℕ} (hfree : s.heap.free ptr = some h') :
    ∃ g', Whole h' g' ∧ h'.taken g' = (s.heap.taken g).filter (·.address ≠ ptr) := by
  obtain ⟨r, hblock, hcase⟩ := hb.whole.blockAt ptr
  rw [Heap.free, hblock, Option.bind_eq_bind, Option.bind_some] at hfree
  rcases hcase with ⟨hr, htag, rfl⟩ | ⟨rfl, hall⟩
  · rw [if_pos rfl] at hfree
    obtain ⟨g₁, g₂, rfl⟩ := List.append_of_mem hr
    have hapart : s.heap.Apart (g₁ ++ r :: g₂) := (List.isChain_map _).1 hb.layout.apart
    obtain ⟨_, g₁, ps, ns, g₂, hrelease, rfl, rfl, hm⟩ := hb.whole.released hapart htag
    cases hfree.symm.trans hrelease
    have hps := Heap.taken_eq_nil.2 fun x hx ↦ hm.free x (List.mem_append_left _ hx)
    have hns := Heap.taken_eq_nil.2 fun x hx ↦ hm.free x (List.mem_append_right _ hx)
    have htaken : s.heap.taken (g₁ ++ ps ++ r :: (ns ++ g₂)) =
        s.heap.taken g₁ ++ s.heap.block r :: s.heap.taken g₂ := by
      rw [Heap.taken_append, Heap.taken_append, hps, Heap.taken_cons_allocated htag,
        Heap.taken_append, hns]
      simp
    have hnodup := hb.addresses
    rw [htaken, List.map_append, List.map_cons, List.nodup_middle, List.nodup_cons,
      ← List.map_append] at hnodup
    refine ⟨_, hm.whole, ?_⟩
    rw [htaken, Heap.taken_append, Heap.taken_cons_free (Heap.block_eq_iff.1 hm.block).2.2,
      Heap.taken_congr fun x hx ↦ hm.same x (List.mem_append_left _ hx),
      Heap.taken_congr fun x hx ↦ hm.same x (List.mem_append_right _ hx), List.filter_append,
      List.filter_cons_of_neg (by simp [Heap.block]), ← List.filter_append, eq_comm,
      List.filter_eq_self]
    exact fun y hy ↦ decide_eq_true fun heq ↦ hnodup.1 (List.mem_map.2 ⟨y, hy, heq⟩)
  · split_ifs at hfree with hhead
    · rw [Heap.release_eq_none (hb.whole.chained.detached _)] at hfree
      cases hfree
    · cases hfree
      refine ⟨g, hb.whole, (List.filter_eq_self.2 fun y hy ↦ ?_).symm⟩
      obtain ⟨hmem, htag⟩ := List.mem_filter.1 hy
      obtain ⟨x, hx, rfl⟩ := List.mem_map.1 hmem
      exact decide_eq_true (hall x hx (of_decide_eq_true htag))

theorem Balanced.perform (hb : Balanced a b s g) (ha : 0 < a) (hend : b ≤ 2 ^ u)
    (hlt : b < a + 2 ^ 32) {call : Call u} (hadmits : s.Admits call) :
    ∃ s' g', s.perform call = some s' ∧ Balanced a b s' g' := by
  obtain ⟨s', g', hperform, hi⟩ := (hb.toIntact.perform hend hlt call).2 hadmits
  refine ⟨s', g', hperform, ?_⟩
  cases call with
  | alloc size =>
    obtain ⟨h', x, halloc, hanswers⟩ := hb.whole.alloc_answers u size.toNat
    rw [State.perform, halloc] at hperform
    cases hperform
    exact hb.returned ha hanswers hi
  | memalign size align =>
    obtain ⟨h', x, hmemalign, hanswers⟩ := hb.whole.memalign_answers u size.toNat align.toNat
    rw [State.perform, hmemalign] at hperform
    cases hperform
    exact hb.returned ha hanswers hi
  | free ptr =>
    obtain ⟨h', hfree, rfl⟩ := Option.map_eq_some_iff.1 hperform
    obtain ⟨g₁, hw₁, htaken⟩ := hb.released hfree
    obtain rfl := hi.whole.unique hw₁
    refine ⟨hi, ?_⟩
    rw [htaken]
    refine (hb.taken.filter _).trans (.of_eq ?_)
    rw [List.filter_map]
    rfl

end Steps

/-- The free areas and the blocks in use make up the segment of size `n` at `a`. When no block is
in use, it is a single free area. -/
def Settled (a n : ℕ) : Option State → Prop
  | none => False
  | some s => ∃ g, s.heap.global.Ring .globalHead g ∧
    (s.heap.taken g).Perm (s.live.map Request.block) ∧
    ((g.filter (s.heap.tag · = .free)).map s.heap.size).sum + (s.live.map Request.size).sum = n ∧
    (s.live = [] → ∃ r, g = [r] ∧ s.heap.block r = ⟨a, n, .free⟩)

section Runs

variable {u : ℕ}

theorem Heap.sum_free_add_taken (h : Heap) (g : List Ref) :
    ((g.filter (h.tag · = .free)).map h.size).sum + ((h.taken g).map Block.size).sum =
      (g.map h.size).sum := by
  induction g with
  | nil => rfl
  | cons r g ih =>
    rw [List.map_cons, List.sum_cons, ← ih]
    cases htag : h.tag r with
    | free =>
      rw [Heap.taken_cons_free htag, List.filter_cons_of_pos (by simpa using htag), List.map_cons,
        List.sum_cons, Nat.add_assoc]
    | allocated =>
      rw [Heap.taken_cons_allocated htag, List.filter_cons_of_neg (by simp [htag]), List.map_cons,
        List.sum_cons]
      exact Nat.add_left_comm ..

theorem Balanced.settled {a n : ℕ} {s : State} {g : List Ref} (hb : Balanced a (a + n) s g)
    (hn : 0 < n) : Settled a n (some s) := by
  have htotal := hb.layout.eq_add_sum
  refine ⟨g, hb.whole.chained.ring, hb.taken, ?_, fun hlive ↦ ?_⟩
  · have hsum := s.heap.sum_free_add_taken g
    rw [(hb.taken.map Block.size).sum_eq, List.map_map] at hsum
    exact hsum.trans (Nat.add_left_cancel htotal).symm
  · have hperm := hb.taken
    rw [hlive, List.map_nil, List.perm_nil, Heap.taken_eq_nil] at hperm
    have hapart : s.heap.Apart g := (List.isChain_map _).1 hb.layout.apart
    match g with
    | [] =>
      simp only [List.map_nil, List.sum_nil] at htotal
      omega
    | [r] =>
      have hstart := hb.layout.tiles.1
      rw [List.map_singleton, List.sum_singleton] at htotal
      refine ⟨r, rfl, Heap.block_eq_iff.2 ⟨hstart, ?_, hperm r (by simp)⟩⟩
      omega
    | r :: r' :: g =>
      exact absurd ⟨hperm r (by simp), hperm r' (by simp)⟩ (List.isChain_cons_cons.1 hapart).1

theorem initial_balanced (psa : BitVec u) {size : BitVec u} (hsize : size.toNat < 2 ^ 32) :
    ∃ s g, initial psa size = some s ∧ Balanced psa.toNat (psa.toNat + size.toNat) s g := by
  obtain ⟨s, g, hinit, hi⟩ := initial_kept psa hsize
  obtain ⟨h, hheap, hw, hblock⟩ := initializeHeap_whole psa.toNat size.toNat
  have hstart : initial psa size = some ⟨h, []⟩ := by
    rw [initial, hheap]
    rfl
  cases hinit.symm.trans hstart
  obtain rfl := hi.whole.unique hw
  refine ⟨_, _, hinit, hi, ?_⟩
  simp [Heap.taken, hblock]

/-- No byte of the segment is lost: in every state, what is not in use is free, and when the last
block has been freed, the segment is the one free area of the start again. -/
theorem allocator_settled (psa size : BitVec u) (hpsa : psa ≠ 0) (hpos : size ≠ 0)
    (hseg : psa.toNat + size.toNat ≤ 2 ^ u) (hsize : size.toNat < 2 ^ 32)
    {calls : List (Call u × List Bool)}
    (hcalls : Along (step u) (Guarded u) (initial psa size) calls) :
    Always (step u) (Settled psa.toNat size.toNat) (initial psa size) calls := by
  have ha : 0 < psa.toNat := Nat.pos_of_ne_zero fun h ↦ hpsa (BitVec.eq_of_toNat_eq h)
  have hn : 0 < size.toNat := Nat.pos_of_ne_zero fun h ↦ hpos (BitVec.eq_of_toNat_eq h)
  have hlt : psa.toNat + size.toNat < psa.toNat + 2 ^ 32 := Nat.add_lt_add_left hsize _
  refine Along.always (J := fun t ↦ ∃ s g, t = some s ∧
    Balanced psa.toNat (psa.toNat + size.toNat) s g) ?_ ?_ (initial_balanced psa hsize) hcalls
  · rintro _ ⟨s, g, rfl, hb⟩
    exact hb.settled hn
  · rintro _ ⟨call, supply⟩ _ _ ⟨s, g, rfl, hb⟩ hguard ⟨⟩
    exact (hb.supplied supply).perform ha hseg hlt hguard

theorem allocator_settled_alloc_free :
    Always (step 32) (Settled 0x80001000 0x10000) (initial 0x80001000#32 0x10000#32)
      [(.alloc 0x100#32, []), (.alloc 0x200#32, []), (.free 0x80001000#32, []),
        (.free 0x80001100#32, [])] := by
  refine allocator_settled 0x80001000#32 0x10000#32 (by decide) (by decide) (by decide) (by decide)
    (Along.of_forall ?_ _)
  rintro i hi (_ | s)
  · trivial
  · simp only [List.mem_cons, List.not_mem_nil, or_false] at hi
    rcases hi with rfl | rfl | rfl | rfl
    · trivial
    · trivial
    · exact fun hzero ↦ absurd hzero (by decide)
    · exact fun hzero ↦ absurd hzero (by decide)

end Runs

end EnbL1Ppc.Shm
