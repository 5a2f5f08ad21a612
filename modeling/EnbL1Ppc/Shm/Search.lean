import EnbL1Ppc.Shm.Alignment

namespace EnbL1Ppc.Shm

open Lib

section Walk

variable {h h₁ : Heap} {c : ListId → List Ref} {l : ListId}

theorem Lists.length_le (hl : Lists h c) (l : ListId) : (c l).length ≤ h.cells := by
  have hsub : c l ⊆ (List.range h.cells).map Ref.cell := by
    intro r hr
    obtain ⟨k, hk, rfl⟩ := hl.cell l r hr
    exact List.mem_map_of_mem (List.mem_range.2 hk)
  have hnd := (List.nodup_cons.1 (hl.rings.nodup l)).2
  simpa using (hnd.subperm hsub).length_le

variable {attempt : Heap → Ref → Option (Heap × Option (Option Ref))}

def Safe (attempt : Heap → Ref → Option (Heap × Option (Option Ref))) (h : Heap) (ptr : Ref) :
    Prop :=
  ∃ h' r, attempt h ptr = some (h', r) ∧ (r.join = none → h.Grows h')

def Found.Ends (f : Found) (attempt : Heap → Ref → Option (Heap × Option (Option Ref)))
    (h : Heap) (head : Ref) (xs : Set Ref) : Prop :=
  f.node = none ∧ h.Grows f.heap ∨
    ∃ h₁ a, h.Grows h₁ ∧ f.ptr ∈ xs ∧ attempt h₁ f.ptr = some (f.heap, some (some a)) ∧
      f.node = some a ∧ (f.tptr = head ∨ f.tptr ∈ xs ∧ f.tptr ≠ f.ptr)

theorem passOver_mem (hr : h.links.Rings .head c) {xs ys : List Ref} {ptr tptr : Ref}
    (hc : c l = xs ++ ptr :: ys) (ht : tptr = .head l ∨ tptr ∈ xs) :
    ∃ t, h.passOver (.head l) ptr tptr = some t ∧ t ∈ xs ++ [ptr] := by
  by_cases hhead : tptr = .head l
  · refine ⟨(c l).headD (.head l), ?_, ?_⟩
    · rw [Heap.passOver, if_pos hhead, hr.next_head]
    · rw [hc]
      cases xs <;> simp
  · refine ⟨_, if_neg hhead, ?_⟩
    have hmem := ht.resolve_left hhead
    split <;> simp [hmem]

/-- How a search through the areas `xs` ends, of which `left` are to be tried: at an area, or
when it has passed over all. The heaps in between have the property `I`. -/
def Found.Outcome (f : Found) (attempt : Heap → Ref → Option (Heap × Option (Option Ref)))
    (I : Heap → Prop) (head : Ref) (xs left : List Ref) : Prop :=
  (∃ h, I h ∧ f.ptr ∈ xs ∧ attempt h f.ptr = some (f.heap, some f.node) ∧
      (f.tptr = head ∨ f.tptr ∈ xs ∧ f.tptr ≠ f.ptr)) ∨
    f.node = none ∧ I f.heap ∧ ∀ r ∈ left, ∃ h h', I h ∧ attempt h r = some (h', none)

def Found.Tracked (f : Found) (attempt : Heap → Ref → Option (Heap × Option (Option Ref)))
    (I : Heap → Prop) (T : List Ref → Ref → Prop) (xs left : List Ref) : Prop :=
  (∃ h pre suf, I h ∧ xs = pre ++ f.ptr :: suf ∧ attempt h f.ptr = some (f.heap, some f.node) ∧
      T pre f.tptr) ∨
    f.node = none ∧ I f.heap ∧ ∀ r ∈ left, ∃ h h', I h ∧ attempt h r = some (h', none)

theorem search_track {I : Heap → Prop} {T : List Ref → Ref → Prop} (hr : h.links.Rings .head c)
    (hlinks : ∀ h₁, I h₁ → h₁.links = h.links)
    (hattempt : ∀ h₁, I h₁ → ∀ r ∈ c l, ∃ h' a, attempt h₁ r = some (h', a) ∧ (a = none → I h'))
    (hover : ∀ h₁, I h₁ → ∀ xs ptr ys tptr, c l = xs ++ ptr :: ys → T xs tptr →
      ∃ t, h₁.passOver (.head l) ptr tptr = some t ∧ T (xs ++ [ptr]) t)
    {n : ℕ} {xs ys : List Ref} {ptr tptr : Ref} (hc : c l = xs ++ ptr :: ys) (hn : ys.length < n)
    (hI : I h₁) (ht : T xs tptr) :
    ∃ f, search attempt (.head l) n h₁ ptr tptr = some f ∧
      f.Tracked attempt I T (c l) (ptr :: ys) := by
  induction n generalizing h₁ xs ys ptr tptr with
  | zero => exact absurd hn (Nat.not_lt_zero _)
  | succ n ih =>
    obtain ⟨h', a, heq, hpass⟩ := hattempt h₁ hI ptr (by simp [hc])
    cases a with
    | some node =>
      refine ⟨⟨h', node, ptr, tptr⟩, ?_, .inl ⟨h₁, xs, ys, hI, hc, heq, ht⟩⟩
      simp [search, heq]
    | none =>
      have hI' := hpass rfl
      have hr' : h'.links.Rings .head c := hlinks h' hI' ▸ hr
      have hnext := hr'.next hc
      obtain ⟨t, hover', ht'⟩ := hover h' hI' xs ptr ys tptr hc ht
      cases ys with
      | nil =>
        refine ⟨⟨h', none, .head l, t⟩, ?_, .inr ⟨rfl, hI', ?_⟩⟩
        · simp [search, heq, hover', hnext]
        · exact List.forall_mem_singleton.2 ⟨h₁, h', hI, heq⟩
      | cons y ys =>
        have hy : y ≠ .head l := fun heq ↦ hr.head_not_mem l l (by simp [hc, ← heq])
        rw [List.append_cons] at hc
        obtain ⟨f, hf, hends⟩ := ih hc (by simpa using hn) hI' ht'
        refine ⟨f, ?_, hends.imp_right fun hall ↦ ⟨hall.1, hall.2.1, ?_⟩⟩
        · simpa [search, heq, hover', hnext, hy] using hf
        · exact List.forall_mem_cons.2 ⟨⟨h₁, h', hI, heq⟩, hall.2.2⟩

theorem Lists.searchList_track (hl : Lists h c) {I : Heap → Prop} {T : List Ref → Ref → Prop}
    (hI : I h) (hlinks : ∀ h₁, I h₁ → h₁.links = h.links)
    (hattempt : ∀ h₁, I h₁ → ∀ r ∈ c l, ∃ h' a, attempt h₁ r = some (h', a) ∧ (a = none → I h'))
    (hover : ∀ h₁, I h₁ → ∀ xs ptr ys tptr, c l = xs ++ ptr :: ys → T xs tptr →
      ∃ t, h₁.passOver (.head l) ptr tptr = some t ∧ T (xs ++ [ptr]) t)
    (hempty : ∀ r, h.size r = 0 → attempt h r = some (h, none)) (hT : T [] (.head l)) :
    ∃ f, h.searchList attempt l = some f ∧ f.Tracked attempt I T (c l) (c l) := by
  have hnext := hl.rings.next_head l
  have hlen := hl.length_le l
  rw [Heap.searchList, hnext]
  cases hc : c l with
  | nil =>
    have hzero : h.size (.head l) = 0 := by
      rw [hl.size_head, hc]
      rfl
    refine ⟨⟨h, none, .head l, .head l⟩, ?_, .inr ⟨rfl, hI, by simp⟩⟩
    rw [hc] at hnext
    simp [search, hempty _ hzero, Heap.passOver, hnext]
  | cons x xs =>
    have hfirst : c l = [] ++ x :: xs := hc
    rw [hc, List.length_cons] at hlen
    have htrack := search_track hl.rings hlinks hattempt hover hfirst (Nat.lt_succ_of_lt hlen) hI hT
    rwa [hc] at htrack

theorem Lists.searchList_walk (hl : Lists h c) {I : Heap → Prop} (hI : I h)
    (hlinks : ∀ h₁, I h₁ → h₁.links = h.links)
    (hattempt : ∀ h₁, I h₁ → ∀ r ∈ c l, ∃ h' a, attempt h₁ r = some (h', a) ∧ (a = none → I h'))
    (hempty : ∀ r, h.size r = 0 → attempt h r = some (h, none)) :
    ∃ f, h.searchList attempt l = some f ∧ f.Outcome attempt I (.head l) (c l) (c l) := by
  have hover : ∀ h₁, I h₁ → ∀ xs ptr ys tptr, c l = xs ++ ptr :: ys → tptr = .head l ∨ tptr ∈ xs →
      ∃ t, h₁.passOver (.head l) ptr tptr = some t ∧ (t = .head l ∨ t ∈ xs ++ [ptr]) := by
    intro h₁ hI₁ xs ptr ys tptr hc ht
    obtain ⟨t, heq, hmem⟩ := passOver_mem (hlinks h₁ hI₁ ▸ hl.rings) hc ht
    exact ⟨t, heq, .inr hmem⟩
  obtain ⟨f, hf, htrack⟩ := hl.searchList_track hI hlinks hattempt hover hempty (.inl rfl)
  refine ⟨f, hf, htrack.imp_left ?_⟩
  rintro ⟨h₁, xs, ys, hI₁, hc, heq, ht⟩
  have hnd := (List.nodup_cons.1 (hl.rings.nodup l)).2
  rw [hc, List.nodup_middle] at hnd
  refine ⟨h₁, hI₁, by simp [hc], heq, ht.imp_right fun hmem ↦ ⟨by simp [hc, hmem], fun hptr ↦ ?_⟩⟩
  exact (List.nodup_cons.1 hnd).1 (List.mem_append_left _ (hptr ▸ hmem))

theorem Found.Outcome.ends {f : Found} {head : Ref} {xs left : List Ref} {ys : Set Ref}
    (hf : f.Outcome attempt h.Grows head xs left) (hsub : ∀ r ∈ xs, r ∈ ys)
    (hsafe : ∀ h₁, h.Grows h₁ → ∀ ptr ∈ xs, Safe attempt h₁ ptr) : f.Ends attempt h head ys := by
  rcases hf with ⟨h₁, hg, hptr, heq, ht⟩ | ⟨hnode, hg, -⟩
  · obtain ⟨h', r, heq', hgrows⟩ := hsafe h₁ hg f.ptr hptr
    cases heq.symm.trans heq'
    cases hnode : f.node with
    | none => exact .inl ⟨hnode, hg.trans (hgrows (by rw [hnode]; rfl))⟩
    | some a =>
      rw [hnode] at heq
      exact .inr ⟨h₁, a, hg, hsub _ hptr, heq, hnode, ht.imp_right fun ht ↦ ⟨hsub _ ht.1, ht.2⟩⟩
  · exact .inl ⟨hnode, hg⟩

end Walk

section Lists

variable {h : Heap} {c : ListId → List Ref}

/-- The test of `get_free_area_list` for a list: the sum of its areas is larger than `size`, and
the last one is large enough. -/
def Heap.Roomy (h : Heap) (size : ℕ) (i : Fin 9) : Prop :=
  size < h.size (.head ⟨.free, i⟩) ∧
    ∃ tail, h.links.prev (.head ⟨.free, i⟩) = some tail ∧ size ≤ h.size tail

def Heap.Offers (h : Heap) (size : ℕ) : Prop :=
  0x8000 < size ∨ ∃ i : Fin 9, size / 0x1000 ≤ i ∧ h.Roomy size i

theorem Lists.firstRoomy_cases (hl : Lists h c) (size : ℕ) (is : List (Fin 9)) :
    h.firstRoomy size is = some none ∧ (∀ i ∈ is, ¬h.Roomy size i) ∨
      ∃ i ∈ is, h.firstRoomy size is = some (some i) ∧ h.Roomy size i := by
  induction is with
  | nil => exact .inl ⟨rfl, by simp⟩
  | cons i is ih =>
    have hprev := hl.rings.prev_head ⟨.free, i⟩
    by_cases hroomy : h.Roomy size i
    · obtain ⟨hsum, tail, htail, hle⟩ := hroomy
      refine .inr ⟨i, List.mem_cons_self, ?_, hsum, tail, htail, hle⟩
      simp only [Heap.firstRoomy, if_pos hsum, htail, Option.bind_eq_bind, Option.bind_some,
        if_pos hle]
    · have hskip : h.firstRoomy size (i :: is) = h.firstRoomy size is := by
        simp only [Heap.firstRoomy, hprev, Option.bind_eq_bind, Option.bind_some]
        split_ifs with hsum hle
        · exact absurd ⟨hsum, _, hprev, hle⟩ hroomy
        · rfl
        · rfl
      rw [hskip]
      rcases ih with ⟨hnone, hall⟩ | ⟨j, hj, hsome, hroomy'⟩
      · exact .inl ⟨hnone, List.forall_mem_cons.2 ⟨hroomy, hall⟩⟩
      · exact .inr ⟨j, List.mem_cons_of_mem i hj, hsome, hroomy'⟩

theorem mem_listsFrom {n : ℕ} {i : Fin 9} : i ∈ listsFrom n ↔ n ≤ i := by
  rw [listsFrom, List.mem_drop_iff_getElem]
  constructor
  · rintro ⟨j, hj, rfl⟩
    simp
  · intro hn
    refine ⟨i - n, by simp; omega, ?_⟩
    simp [Nat.add_sub_cancel' hn]

theorem Lists.getFreeAreaList_cases (hl : Lists h c) (size : ℕ) :
    h.getFreeAreaList size = some none ∧ ¬h.Offers size ∨
      ∃ i, h.getFreeAreaList size = some (some i) ∧ h.Offers size ∧
        (0x8000 < size ∧ i = 8 ∨ h.Roomy size i) := by
  rw [Heap.getFreeAreaList]
  by_cases hlarge : size > 0x8000
  · exact .inr ⟨8, if_pos hlarge, .inl hlarge, .inl ⟨hlarge, rfl⟩⟩
  · rw [if_neg hlarge]
    rcases hl.firstRoomy_cases size (listsFrom (size / 0x1000)) with
      ⟨hnone, hall⟩ | ⟨i, hi, hsome, hroomy⟩
    · refine .inl ⟨hnone, ?_⟩
      rintro (hgt | ⟨i, hle, hroomy⟩)
      · exact hlarge hgt
      · exact hall i (mem_listsFrom.2 hle) hroomy
    · exact .inr ⟨i, hsome, .inr ⟨i, mem_listsFrom.1 hi, hroomy⟩, .inr hroomy⟩

end Lists

section Calls

variable {h h' h₁ : Heap} {g : List Ref} {ptr : Ref} {u align size : ℕ}
  {attempt : Heap → Ref → Option (Heap × Option (Option Ref))} {f : Found}

def Heap.areas (h : Heap) (g : List Ref) : Set Ref :=
  {r | r ∈ g ∧ h.tag r = .free}

theorem Whole.searchList_ends (hw : Whole h g)
    (hsafe : ∀ h₁, h.Grows h₁ → ∀ ptr ∈ h.areas g, Safe attempt h₁ ptr)
    (hempty : ∀ h₁ r, h₁.size r = 0 → attempt h₁ r = some (h₁, none)) (hg : h.Grows h₁)
    (i : Fin 9) :
    ∃ f, h₁.searchList attempt ⟨.free, i⟩ = some f ∧
      f.Ends attempt h (.head ⟨.free, i⟩) (h.areas g) := by
  obtain ⟨c, hl, hlisted⟩ := (hw.grows hg).filed
  have hsub : ∀ r ∈ c ⟨.free, i⟩, r ∈ h.areas g := by
    intro r hr
    obtain ⟨hmem, htag⟩ := (hlisted .free r).1 ⟨i, hr⟩
    exact ⟨hmem, (Heap.block_congr (hw.grows_block hg hmem)).2.2.symm.trans htag⟩
  have hsafe' : ∀ h₂, h.Grows h₂ → ∀ ptr ∈ c ⟨.free, i⟩, Safe attempt h₂ ptr :=
    fun h₂ hg₂ ptr hptr ↦ hsafe h₂ hg₂ ptr (hsub ptr hptr)
  have hpass : ∀ h₂, h.Grows h₂ → ∀ ptr ∈ c ⟨.free, i⟩,
      ∃ h' a, attempt h₂ ptr = some (h', a) ∧ (a = none → h.Grows h') := by
    intro h₂ hg₂ ptr hptr
    obtain ⟨h', a, heq, hgrows⟩ := hsafe' h₂ hg₂ ptr hptr
    exact ⟨h', a, heq, fun hnone ↦ hg₂.trans (hgrows (by rw [hnone]; rfl))⟩
  obtain ⟨f, hf, hends⟩ := hl.searchList_walk hg (fun h₂ hg₂ ↦ hg₂.links.trans hg.links.symm)
    hpass (hempty h₁)
  exact ⟨f, hf, hends.ends hsub hsafe'⟩

theorem Whole.searchLists_ends (hw : Whole h g)
    (hsafe : ∀ h₁, h.Grows h₁ → ∀ ptr ∈ h.areas g, Safe (memalignAttempt u size align) h₁ ptr)
    (hsize : 0 < size) (hg : h.Grows h₁) (rest : List (Fin 9)) (i : Fin 9) :
    ∃ f j, searchLists u size align rest h₁ i = some (f, j) ∧
      f.Ends (memalignAttempt u size align) h (.head ⟨.free, j⟩) (h.areas g) := by
  have hempty : ∀ h₁ r, h₁.size r = 0 → memalignAttempt u size align h₁ r = some (h₁, none) := by
    intro h₁ r hr
    rw [memalignAttempt, Heap.doAlignValloc, if_pos (hr ▸ hsize)]
    rfl
  induction rest generalizing h₁ i with
  | nil =>
    obtain ⟨f, hf, hends⟩ := hw.searchList_ends hsafe hempty hg i
    exact ⟨f, i, by simp [searchLists, hf], hends⟩
  | cons j rest ih =>
    obtain ⟨f, hf, hends⟩ := hw.searchList_ends hsafe hempty hg i
    cases hnode : f.node with
    | none =>
      have hg' : h.Grows f.heap := by
        rcases hends with hend | ⟨_, a, _, _, _, ha, _⟩
        · exact hend.2
        · rw [hnode] at ha
          cases ha
      obtain ⟨f', j', hf', hends'⟩ := ih hg' j
      exact ⟨f', j', by simp [searchLists, hf, hnode, hf'], hends'⟩
    | some a => exact ⟨f, i, by simp [searchLists, hf, hnode], hends⟩

theorem Whole.getFreeAreaList (hw : Whole h g) (n : ℕ) : ∃ o, h.getFreeAreaList n = some o := by
  obtain ⟨c, hl, -⟩ := hw.filed
  rcases hl.getFreeAreaList_cases n with ⟨hnone, -⟩ | ⟨i, hsome, -⟩
  · exact ⟨none, hnone⟩
  · exact ⟨some i, hsome⟩

theorem Whole.resort (hw : Whole h g) (hptr : ptr ∈ h.areas g) :
    ∃ h₁ h₂, h.listRemoveFreeArea ptr = some h₁ ∧ h₁.listAddFreeArea ptr = some h₂ ∧
      h.SameNodes h₂ ∧ Whole h₂ g := by
  obtain ⟨hmem, hfree⟩ := hptr
  obtain ⟨k, hk, rfl⟩ := hw.chained.cell ptr hmem
  obtain ⟨h₁, hremove, hs, hw₁⟩ := hw.delete .free hmem hfree
  obtain ⟨h₂, hadd, hs', hw₂⟩ := hw₁.insert .free (hs.cells ▸ hk) (by simp)
    ((congrFun hs.tag _).trans hfree)
  rw [insert_diff_mem hmem] at hw₂
  exact ⟨h₁, h₂, hremove, hadd, hs.trans hs', hw₂⟩

theorem Serves.of_grows {fits : Prop} {x : ℕ} (hs : Serves h₁ g ptr align size fits h' x)
    (hw : Whole h g) (hg : h.Grows h₁) (hptr : ptr ∈ g) :
    Serves h g ptr align size fits h' x := by
  obtain ⟨haddress, hsize, htag⟩ := Heap.block_congr (hw.grows_block hg hptr)
  obtain ⟨hfree, ⟨g₁, g₂, ns, a, rfl, ht, hlayout, hbad⟩, haligned⟩ := hs
  rw [haddress, hsize] at hlayout
  exact ⟨htag ▸ hfree, ⟨g₁, g₂, ns, a, rfl, ht.of_grows hw hg, hlayout, hbad⟩, haligned⟩

theorem Taken.sameNodes {h₂ : Heap} {g₁ g₂ ns : List Ref} {x : ℕ} {a : Ref}
    (ht : Taken h g₁ g₂ x size h' ns a) (hs : h'.SameNodes h₂)
    (hw : Whole h₂ (g₁ ++ (ns ++ g₂))) :
    Taken h g₁ g₂ x size h₂ ns a ∧ ns.map h₂.block = ns.map h'.block := by
  have hblock : ∀ r ∈ g₁ ++ (ns ++ g₂), h₂.block r = h'.block r := by
    intro r hr
    obtain ⟨k, -, rfl⟩ := hw.chained.cell r hr
    exact hs.block k
  refine ⟨⟨⟨hw, fun r hr ↦ ?_⟩, ht.mem, ?_⟩, List.map_congr_left fun r hr ↦ hblock r ?_⟩
  · rw [← ht.same r hr]
    refine hblock r ?_
    simp only [List.mem_append] at hr ⊢
    tauto
  · rw [← ht.block]
    exact hblock a (by simp [ht.mem])
  · simp [hr]

theorem Serves.finish {head : Ref} {fits : Prop} {a : Ref}
    (hs : Serves h g f.ptr align size fits f.heap (f.heap.address a)) (hnode : f.node = some a)
    (htptr : f.tptr = head ∨ f.tptr ∈ h.areas g ∧ f.tptr ≠ f.ptr) :
    ∃ h' x, f.finish head = some (h', x) ∧ Serves h g f.ptr align size fits h' x := by
  rw [Found.finish, hnode]
  by_cases hhead : f.tptr = head
  · exact ⟨_, _, if_pos hhead, hs⟩
  · obtain ⟨⟨hmem, hfree⟩, hne⟩ := htptr.resolve_left hhead
    obtain ⟨hfree', ⟨g₁, g₂, ns, b, hg, ht, hlayout, hbad⟩, haligned⟩ := hs
    have hrest : f.tptr ∈ g₁ ++ g₂ := by
      simp only [hg, List.mem_append, List.mem_cons] at hmem ⊢
      tauto
    have harea : f.tptr ∈ f.heap.areas (g₁ ++ (ns ++ g₂)) := by
      refine ⟨?_, (Heap.block_congr (ht.same _ hrest)).2.2.trans hfree⟩
      simp only [List.mem_append] at hrest ⊢
      tauto
    obtain ⟨h₁, h₂, hremove, hadd, hsame, hw₂⟩ := ht.whole.resort harea
    obtain ⟨ht₂, hmap⟩ := ht.sameNodes hsame hw₂
    rw [← hmap] at hlayout hbad
    rw [← hsame.address] at ht₂ haligned
    refine ⟨h₂, h₂.address a, ?_, hfree', ⟨g₁, g₂, ns, b, hg, ht₂, hlayout, hbad⟩, haligned⟩
    simp only [if_neg hhead, hremove, hadd, Option.bind_eq_bind, Option.bind_some]

def Attempts (attempt : Heap → Ref → Option (Heap × Option (Option Ref))) (h : Heap) (g : List Ref)
    (ptr : Ref) (align size : ℕ) (fits : Prop) : Prop :=
  ∃ h' r, attempt h ptr = some (h', r) ∧ (r.join = none ∧ h.Grows h' ∨
    ∃ a, r = some (some a) ∧ Serves h g ptr align size fits h' (h'.address a))

theorem Attempts.safe {fits : Prop} (ha : Attempts attempt h g ptr align size fits) :
    Safe attempt h ptr := by
  obtain ⟨h', r, heq, ⟨-, hg⟩ | ⟨a, rfl, -⟩⟩ := ha
  · exact ⟨h', r, heq, fun _ ↦ hg⟩
  · exact ⟨h', _, heq, fun hnone ↦ nomatch hnone⟩

theorem Attempts.serves {fits : Prop} {a : Ref} (ha : Attempts attempt h g ptr align size fits)
    (heq : attempt h ptr = some (h', some (some a))) :
    Serves h g ptr align size fits h' (h'.address a) := by
  obtain ⟨h₂, r, heq', hcase⟩ := ha
  cases heq'.symm.trans heq
  rcases hcase with ⟨hnone, -⟩ | ⟨b, hb, hs⟩
  · cases hnone
  · cases hb
    exact hs

theorem Whole.finish_ends (hw : Whole h g) {head : Ref} {fits : Ref → Prop}
    (hattempts : ∀ h₁, h.Grows h₁ → ∀ ptr ∈ h.areas g,
      Attempts attempt h₁ g ptr align size (fits ptr))
    (hf : f.Ends attempt h head (h.areas g)) :
    ∃ h' x, f.finish head = some (h', x) ∧ (f.node = none ∧ x = 0 ∧ h.Grows h' ∨
      (∃ a, f.node = some a) ∧ Serves h g f.ptr align size (fits f.ptr) h' x) := by
  rcases hf with ⟨hnode, hg⟩ | ⟨h₁, a, hg, hptr, heq, hnode, htptr⟩
  · exact ⟨f.heap, 0, by rw [Found.finish, hnode], .inl ⟨hnode, rfl, hg⟩⟩
  · have hs := ((hattempts h₁ hg f.ptr hptr).serves heq).of_grows hw hg hptr.1
    obtain ⟨h', x, hfinish, hs'⟩ := hs.finish hnode htptr
    exact ⟨h', x, hfinish, .inr ⟨⟨a, hnode⟩, hs'⟩⟩

theorem Whole.allocAttempt (hw : Whole h g) (hend : ∀ r ∈ g, h.address r + h.size r ≤ 2 ^ u)
    (haligned : ∀ x e, align = 2 ^ e → align ∣ x) (hg : h.Grows h₁) (hptr : ptr ∈ h.areas g) :
    Attempts (allocAttempt u size) h₁ g ptr align size True := by
  obtain ⟨hmem, hfree⟩ := hptr
  obtain ⟨haddress, hsize, htag⟩ := Heap.block_congr (hw.grows_block hg hmem)
  by_cases hle : size ≤ h₁.size ptr
  · have hlt : size < 2 ^ 32 := hle.trans_lt ((hw.grows hg).filed.size_lt ptr)
    have hend' : h₁.address ptr + h₁.size ptr ≤ 2 ^ u := by
      rw [haddress, hsize]
      exact hend ptr hmem
    obtain ⟨h', a, heq, hcase⟩ := Whole.allocateFreeArea_serves (hw.grows hg) hmem
      (htag.trans hfree) hle hend' trivial (haligned _)
    refine ⟨h', some a, ?_, hcase.imp id fun ⟨r, hr, hs⟩ ↦ ⟨r, congrArg some hr, hs⟩⟩
    rw [Shm.allocAttempt, if_pos hle, Nat.mod_eq_of_lt hlt, heq]
    rfl
  · exact ⟨h₁, none, if_neg hle, .inl ⟨rfl, .refl h₁⟩⟩

theorem Whole.memalignAttempt (hw : Whole h g) (hend : ∀ r ∈ g, h.address r + h.size r ≤ 2 ^ u)
    (hpos : 0 < align) (halign : align < 2 ^ u) (hg : h.Grows h₁) (hptr : ptr ∈ h.areas g) :
    Attempts (memalignAttempt u size align) h₁ g ptr align size
      (h.AlignsWithin u ptr align size) := by
  obtain ⟨hmem, hfree⟩ := hptr
  obtain ⟨haddress, hsize, htag⟩ := Heap.block_congr (hw.grows_block hg hmem)
  have hend' : h₁.address ptr + h₁.size ptr ≤ 2 ^ u := by
    rw [haddress, hsize]
    exact hend ptr hmem
  have hfits : h₁.AlignsWithin u ptr align size = h.AlignsWithin u ptr align size := by
    simp only [Heap.AlignsWithin, Heap.StartsAligned, haddress]
  obtain ⟨h', a, heq, hcase⟩ := Whole.doAlignValloc_serves (hw.grows hg) hmem
    (htag.trans hfree) hpos halign hend' size
  rw [hfits] at hcase
  refine ⟨h', a.map some, by rw [Shm.memalignAttempt, heq]; rfl, ?_⟩
  rcases hcase with ⟨rfl, hg'⟩ | ⟨r, rfl, hs⟩
  · exact .inl ⟨rfl, hg'⟩
  · exact .inr ⟨r, rfl, hs⟩

theorem Whole.alloc (hw : Whole h g) (hend : ∀ r ∈ g, h.address r + h.size r ≤ 2 ^ u)
    (haligned : ∀ x e, align = 2 ^ e → align ∣ x) (hsize : 0 < size) :
    ∃ h' x, h.alloc u size = some (h', x) ∧
      (x = 0 ∧ h.Grows h' ∨ ∃ ptr, Serves h g ptr align size True h' x) := by
  obtain ⟨o, hlist⟩ := hw.getFreeAreaList (size % 2 ^ 32)
  rw [Heap.alloc, if_neg hsize.ne', hlist, Option.bind_eq_bind, Option.bind_some]
  cases o with
  | none => exact ⟨h, 0, rfl, .inl ⟨rfl, .refl h⟩⟩
  | some i =>
    have hattempts : ∀ h₁, h.Grows h₁ → ∀ ptr ∈ h.areas g,
        Attempts (Shm.allocAttempt u size) h₁ g ptr align size True :=
      fun h₁ hg ptr hptr ↦ hw.allocAttempt hend haligned hg hptr
    have hempty : ∀ h₁ r, h₁.size r = 0 → Shm.allocAttempt u size h₁ r = some (h₁, none) :=
      fun h₁ r hr ↦ if_neg (by omega)
    obtain ⟨f, hf, hends⟩ := hw.searchList_ends
      (fun h₁ hg ptr hptr ↦ (hattempts h₁ hg ptr hptr).safe) hempty (.refl h) i
    obtain ⟨h', x, hfinish, hcase⟩ := hw.finish_ends hattempts hends
    refine ⟨h', x, ?_, hcase.imp And.right fun hs ↦ ⟨f.ptr, hs.2⟩⟩
    simp only [hf, Option.bind_eq_bind, Option.bind_some, hfinish]

def Heap.memalignArea (u : ℕ) (h : Heap) (size align : ℕ) : Option Ref :=
  if size = 0 ∨ align = 0 then none
  else do
    let list ← h.getFreeAreaList (size % 2 ^ 32)
    let i ← list
    let (f, _) ← searchLists u size align (listsFrom (i + 1)) h i
    f.node.map fun _ ↦ f.ptr

theorem Whole.memalign (hw : Whole h g) (hend : ∀ r ∈ g, h.address r + h.size r ≤ 2 ^ u)
    (hpos : 0 < align) (halign : align < 2 ^ u) (hsize : 0 < size) :
    ∃ h' x, h.memalign u size align = some (h', x) ∧
      (h.memalignArea u size align = none ∧ x = 0 ∧ h.Grows h' ∨
        ∃ ptr, h.memalignArea u size align = some ptr ∧
          Serves h g ptr align size (h.AlignsWithin u ptr align size) h' x) := by
  obtain ⟨o, hlist⟩ := hw.getFreeAreaList (size % 2 ^ 32)
  have hne : ¬ (size = 0 ∨ align = 0) := by omega
  simp only [Heap.memalign, Heap.memalignArea, if_neg hsize.ne', if_neg hpos.ne', if_neg hne, hlist,
    Option.bind_eq_bind, Option.bind_some]
  cases o with
  | none => exact ⟨h, 0, rfl, .inl ⟨rfl, rfl, .refl h⟩⟩
  | some i =>
    have hattempts : ∀ h₁, h.Grows h₁ → ∀ ptr ∈ h.areas g,
        Attempts (Shm.memalignAttempt u size align) h₁ g ptr align size
          (h.AlignsWithin u ptr align size) :=
      fun h₁ hg ptr hptr ↦ hw.memalignAttempt hend hpos halign hg hptr
    obtain ⟨f, j, hf, hends⟩ := hw.searchLists_ends
      (fun h₁ hg ptr hptr ↦ (hattempts h₁ hg ptr hptr).safe) hsize (.refl h) (listsFrom (i + 1)) i
    obtain ⟨h', x, hfinish, hcase⟩ := hw.finish_ends hattempts hends
    simp only [Option.bind_some, hf, hfinish]
    refine ⟨h', x, rfl, ?_⟩
    rcases hcase with ⟨hnode, hnone⟩ | ⟨⟨a, hnode⟩, hs⟩
    · exact .inl ⟨by rw [hnode]; rfl, hnone⟩
    · exact .inr ⟨f.ptr, by rw [hnode]; rfl, hs⟩

end Calls

end EnbL1Ppc.Shm
