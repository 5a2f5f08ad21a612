import EnbL1Ppc.Lib.Machine
import EnbL1Ppc.Shm.Release

namespace EnbL1Ppc.Shm

open Lib Lib.Machine Lib.Tiling

/-- A call of the allocator, where `u` is the number of bits of an `unsigned long`. -/
inductive Call (u : ℕ)
  | alloc (size : BitVec u)
  | memalign (size align : BitVec u)
  | free (ptr : BitVec u)

/-- The address that a call has returned, with the arguments of the call. -/
structure Request where
  address : ℕ
  size : ℕ
  align : ℕ

structure State where
  heap : Heap
  live : List Request

def State.returned (s : State) (r : Heap × ℕ) (size align : ℕ) : State :=
  ⟨r.1, if r.2 = 0 then s.live else ⟨r.2, size, align⟩ :: s.live⟩

/-- `none` if a null pointer is dereferenced. Every address is aligned for `__alloc`. -/
def State.perform {u : ℕ} (s : State) : Call u → Option State
  | .alloc size => (s.heap.alloc u size.toNat).map fun r ↦ s.returned r size.toNat 1
  | .memalign size align =>
    (s.heap.memalign u size.toNat align.toNat).map fun r ↦ s.returned r size.toNat align.toNat
  | .free ptr =>
    (s.heap.free ptr.toNat).map fun h ↦ ⟨h, s.live.filter fun q ↦ q.address ≠ ptr.toNat⟩

def State.supplied (s : State) (supply : List Bool) : State :=
  { s with heap := { s.heap with supply := supply } }

/-- The state `none` is reached when a null pointer has been dereferenced; it has no steps. -/
def step (u : ℕ) : Step (Option State) (Call u × List Bool) Empty
  | none, _ => none
  | some s, (call, supply) => some ((s.supplied supply).perform call, [])

def initial {u : ℕ} (psa size : BitVec u) : Option State :=
  (initializeHeap psa.toNat size.toNat).map fun h ↦ ⟨h, []⟩

def Holds (h : Heap) (g : List Ref) (q : Request) (r : Ref) : Prop :=
  r ∈ g ∧ h.tag r = .allocated ∧ h.address r = q.address

/-- The lists have the contents `c` and the global list has the nodes `g`, which fill the segment
from `a` to `b`. Each node is in the list of its size or of its address, and the heads know the
sums of their lists. The blocks in use are in nodes of their own, are large enough and aligned. -/
structure Consistent (a b : ℕ) (s : State) (c : ListId → List Ref) (g : List Ref) : Prop where
  global : s.heap.global.Ring .globalHead g
  lists : s.heap.links.Rings .head c
  layout : Layout a b (g.map s.heap.block)
  listed : ∀ l r, r ∈ c l ↔ r ∈ g ∧ s.heap.listOf (s.heap.tag r) r = l
  head_size : ∀ l, s.heap.size (.head l) = ((c l).map s.heap.size).sum
  held : ∀ q ∈ s.live, ∃ r, Holds s.heap g q r ∧ q.size ≤ s.heap.size r
  inside : ∀ q ∈ s.live, ∀ r, Holds s.heap g q r →
    a ≤ s.heap.address r ∧ s.heap.address r + s.heap.size r ≤ b
  disjoint : s.live.Pairwise fun q q' ↦ ∀ r r', Holds s.heap g q r → Holds s.heap g q' r' →
    s.heap.address r + s.heap.size r ≤ s.heap.address r' ∨
      s.heap.address r' + s.heap.size r' ≤ s.heap.address r
  aligned : ∀ q ∈ s.live, ∀ e, q.align = 2 ^ e → q.align ∣ q.address

def Sound (a b : ℕ) : Option State → Prop
  | none => False
  | some s => ∃ c g, Consistent a b s c g

/-- No sum of `__memalign` overflows for the area it takes, and `__free` is not called with a null
pointer unless a block is there. -/
def State.Admits {u : ℕ} (s : State) : Call u → Prop
  | .alloc _ => True
  | .memalign size align => ∀ ptr, s.heap.memalignArea u size.toNat align.toNat = some ptr →
    s.heap.AlignsWithin u ptr align.toNat size.toNat
  | .free ptr => ptr = 0 → ∃ k, s.heap.blockAt 0 = some (.cell k)

def Guarded (u : ℕ) : Option State → Call u × List Bool → Prop
  | none, _ => True
  | some s, (call, supply) => (s.supplied supply).Admits call

structure Intact (a b : ℕ) (s : State) (g : List Ref) : Prop where
  whole : Whole s.heap g
  layout : Layout a b (g.map s.heap.block)
  held : ∀ q ∈ s.live, 0 < q.size ∧ ∃ r, Holds s.heap g q r ∧ q.size ≤ s.heap.size r
  distinct : s.live.Pairwise fun q q' ↦ q.address ≠ q'.address
  aligned : ∀ q ∈ s.live, ∀ e, q.align = 2 ^ e → q.align ∣ q.address

section Intact

variable {a b u : ℕ} {s : State} {g : List Ref} {h h' : Heap} {r r' : Ref}

theorem Layout.bounds (hl : Layout a b (g.map h.block)) (hr : r ∈ g) :
    a ≤ h.address r ∧ h.address r + h.size r ≤ b :=
  hl.tiles.bounds (List.mem_map_of_mem hr)

theorem Layout.disjoint (hl : Layout a b (g.map h.block)) (hr : r ∈ g) (hr' : r' ∈ g)
    (hne : r ≠ r') :
    h.address r + h.size r ≤ h.address r' ∨ h.address r' + h.size r' ≤ h.address r := by
  let R : Ref → Ref → Prop := fun r r' ↦
    h.address r + h.size r ≤ h.address r' ∨ h.address r' + h.size r' ≤ h.address r
  have : Std.Symm R := ⟨fun _ _ ↦ Or.symm⟩
  have hpair : g.Pairwise R := (List.pairwise_map.1 hl.tiles.pairwise).imp .inl
  exact hpair.forall hr hr' hne

theorem Intact.consistent (hi : Intact a b s g) (hlt : b < a + 2 ^ 32) :
    ∃ c, Consistent a b s c g := by
  obtain ⟨c, hl, hlisted⟩ := hi.whole.filed
  have hmem : ∀ l r, r ∈ c l ↔ r ∈ g ∧ s.heap.listOf (s.heap.tag r) r = l := by
    intro l r
    constructor
    · intro hr
      obtain ⟨hg, htag⟩ := (hlisted l.kind r).1 ⟨l.index, hr⟩
      exact ⟨hg, htag ▸ hl.listOf l r hr⟩
    · rintro ⟨hg, rfl⟩
      obtain ⟨i, hr⟩ := (hlisted _ r).2 ⟨hg, rfl⟩
      rwa [hl.listOf _ r hr]
  refine ⟨c, hi.whole.chained.ring, hl.rings, hi.layout, hmem, fun l ↦ ?_,
    fun q hq ↦ (hi.held q hq).2, fun q hq r hr ↦ hi.layout.bounds hr.1, ?_, hi.aligned⟩
  · obtain ⟨xs, hperm, hsub⟩ := (List.nodup_cons.1 (hl.rings.nodup l)).2.subperm
      fun r hr ↦ ((hmem l r).1 hr).1
    have hle : (xs.map s.heap.size).sum ≤ (g.map s.heap.size).sum :=
      (hsub.map s.heap.size).sum_le_sum (by simp)
    rw [(hperm.map s.heap.size).sum_eq] at hle
    have hsum := hi.layout.eq_add_sum
    rw [hl.size_head, Nat.mod_eq_of_lt (by omega)]
  · refine hi.distinct.imp fun {q q'} hne r r' hr hr' ↦ ?_
    refine hi.layout.disjoint hr.1 hr'.1 ?_
    rintro rfl
    exact hne (hr.2.2.symm.trans hr'.2.2)

end Intact

section Steps

variable {a b u : ℕ} {s : State} {g g' : List Ref} {h h' : Heap}

theorem Intact.update (hi : Intact a b s g) (hw : Whole h' g') (hl : Layout a b (g'.map h'.block))
    {live : List Request} (hsub : live.Sublist s.live)
    (hkeep : ∀ q ∈ live, ∀ r, Holds s.heap g q r → r ∈ g' ∧ h'.block r = s.heap.block r) :
    Intact a b ⟨h', live⟩ g' := by
  refine ⟨hw, hl, fun q hq ↦ ?_, hi.distinct.sublist hsub, fun q hq ↦ hi.aligned q (hsub.subset hq)⟩
  obtain ⟨hpos, r, hr, hsize⟩ := hi.held q (hsub.subset hq)
  obtain ⟨hmem, hblock⟩ := hkeep q hq r hr
  obtain ⟨haddress, hsize', htag⟩ := Heap.block_congr hblock
  exact ⟨hpos, r, ⟨hmem, htag.trans hr.2.1, haddress.trans hr.2.2⟩, hsize'.symm ▸ hsize⟩

theorem Intact.grows (hi : Intact a b s g) (hg : s.heap.Grows h') : Intact a b ⟨h', s.live⟩ g := by
  have hmap : g.map h'.block = g.map s.heap.block :=
    List.map_congr_left fun r hr ↦ hi.whole.grows_block hg hr
  refine hi.update (hi.whole.grows hg) (hmap ▸ hi.layout) (.refl _) fun q _ r hr ↦ ?_
  exact ⟨hr.1, hi.whole.grows_block hg hr.1⟩

theorem Intact.supplied (hi : Intact a b s g) (supply : List Bool) :
    Intact a b (s.supplied supply) g := by
  have hg : s.heap.Grows (s.supplied supply).heap := ⟨rfl, rfl, le_rfl, fun _ _ ↦ rfl, id⟩
  exact hi.grows hg

theorem Intact.returned_zero (hi : Intact a b s g) (hg : s.heap.Grows h') (size align : ℕ) :
    Intact a b (s.returned (h', 0) size align) g :=
  hi.grows hg

section Taken

variable {ptr n : Ref} {g₁ g₂ ns : List Ref} {size x : ℕ}

theorem Taken.layout (ht : Taken h g₁ g₂ x size h' ns n) (hfree : h.tag ptr = .free)
    (hl : Layout a b ((g₁ ++ ptr :: g₂).map h.block))
    (hns : Layout (h.address ptr) (h.address ptr + h.size ptr) (ns.map h'.block)) :
    Layout a b ((g₁ ++ (ns ++ g₂)).map h'.block) := by
  have hsame₁ : g₁.map h'.block = g₁.map h.block :=
    List.map_congr_left fun r hr ↦ ht.same r (List.mem_append_left _ hr)
  have hsame₂ : g₂.map h'.block = g₂.map h.block :=
    List.map_congr_left fun r hr ↦ ht.same r (List.mem_append_right _ hr)
  rw [List.map_append, List.map_cons] at hl
  rw [List.map_append, List.map_append, hsame₁, hsame₂]
  exact hl.replace hfree hns

theorem Taken.not_mem (ht : Taken h g₁ g₂ x size h' ns n) : n ∉ g₁ ++ g₂ := by
  have hnd := ht.whole.chained.nodup
  simp only [List.nodup_append, List.mem_append] at hnd
  intro hmem
  rcases List.mem_append.1 hmem with hmem | hmem
  · exact hnd.2.2 n hmem n (.inl ht.mem) rfl
  · exact hnd.2.1.2.2 n ht.mem n hmem rfl

theorem Holds.of_free {q : Request} {r : Ref} (hr : Holds h (g₁ ++ ptr :: g₂) q r)
    (hfree : h.tag ptr = .free) : r ∈ g₁ ++ g₂ := by
  obtain ⟨hmem, htag, -⟩ := hr
  have hne : r ≠ ptr := by
    rintro rfl
    rw [hfree] at htag
    cases htag
  simp only [List.mem_append, List.mem_cons] at hmem ⊢
  tauto

end Taken

theorem Intact.served {ptr : Ref} {align size x : ℕ} {fits : Prop} (hi : Intact a b s g)
    (hs : Serves s.heap g ptr align size fits h' x) (hfits : fits) (hsize : 0 < size) :
    ∃ g', Intact a b (s.returned (h', x) size align) g' := by
  obtain ⟨hfree, ⟨g₁, g₂, ns, n, rfl, ht, hlayout, -⟩, haligned⟩ := hs
  obtain ⟨haddress, hsize', htag⟩ := Heap.block_eq_iff.1 ht.block
  have hl := ht.layout hfree hi.layout (hlayout hfits)
  have hsub : ∀ r ∈ g₁ ++ g₂, r ∈ g₁ ++ (ns ++ g₂) := by
    intro r hr
    simp only [List.mem_append] at hr ⊢
    tauto
  have hi' : Intact a b ⟨h', s.live⟩ (g₁ ++ (ns ++ g₂)) := by
    refine hi.update ht.whole hl (.refl _) fun q _ r hr ↦ ?_
    have hmem := hr.of_free hfree
    exact ⟨hsub r hmem, ht.same r hmem⟩
  refine ⟨g₁ ++ (ns ++ g₂), ?_⟩
  by_cases hx : x = 0
  · simpa [State.returned, hx] using hi'
  · simp only [State.returned, if_neg hx]
    have hn : n ∈ g₁ ++ (ns ++ g₂) := by simp [ht.mem]
    refine ⟨hi'.whole, hl, List.forall_mem_cons.2 ⟨⟨hsize, n, ⟨hn, htag, haddress⟩, hsize'.ge⟩,
      hi'.held⟩, List.pairwise_cons.2 ⟨fun q hq heq ↦ ?_, hi'.distinct⟩,
      List.forall_mem_cons.2 ⟨haligned hfits, hi'.aligned⟩⟩
    -- The block that has the same address is in another node, and both have a positive size.
    obtain ⟨hpos, r, hr, hle⟩ := hi.held q hq
    have hmem := hr.of_free hfree
    have hne : n ≠ r := by
      rintro rfl
      exact ht.not_mem hmem
    obtain ⟨haddress', hsize'', -⟩ := Heap.block_congr (ht.same r hmem)
    have hdisjoint := hl.disjoint hn (hsub r hmem) hne
    have hsame := hr.2.2
    change x = q.address at heq
    omega

theorem Serves.not_sound {ptr : Ref} {align size x : ℕ} {fits : Prop} {live : List Request}
    (hs : Serves h g ptr align size fits h' x) (hfits : ¬ fits) :
    ¬ Sound a b (some ⟨h', live⟩) := by
  obtain ⟨-, ⟨g₁, g₂, ns, n, -, ht, -, hbad⟩, -⟩ := hs
  rintro ⟨c, g', hc⟩
  obtain rfl : g' = g₁ ++ (ns ++ g₂) :=
    congrFun (hc.global.unique ht.whole.chained.ring) ()
  have htiles := hc.layout.tiles
  rw [List.map_append, List.map_append] at htiles
  obtain ⟨_, -, htail⟩ := tiles_append.1 htiles
  obtain ⟨_, hns, -⟩ := tiles_append.1 htail
  exact hbad hfits _ _ hns

theorem Intact.alloc (hi : Intact a b s g) (hend : b ≤ 2 ^ u) (size align : ℕ)
    (haligned : ∀ x e, align = 2 ^ e → align ∣ x) :
    ∃ r g', s.heap.alloc u size = some r ∧ Intact a b (s.returned r size align) g' := by
  by_cases hzero : size = 0
  · exact ⟨_, g, if_pos hzero, hi.returned_zero (.refl _) ..⟩
  obtain ⟨h', x, halloc, hcase⟩ := hi.whole.alloc
    (fun r hr ↦ (hi.layout.bounds hr).2.trans hend) haligned (Nat.pos_of_ne_zero hzero)
  rcases hcase with ⟨rfl, hg⟩ | ⟨ptr, hs⟩
  · exact ⟨_, g, halloc, hi.returned_zero hg ..⟩
  · obtain ⟨g', hi'⟩ := hi.served hs trivial (Nat.pos_of_ne_zero hzero)
    exact ⟨_, g', halloc, hi'⟩

theorem Intact.memalign (hi : Intact a b s g) (hend : b ≤ 2 ^ u) (size : ℕ) {align : ℕ}
    (halign : align < 2 ^ u) :
    ∃ r, s.heap.memalign u size align = some r ∧
      (Sound a b (some (s.returned r size align)) → ∀ ptr,
        s.heap.memalignArea u size align = some ptr → s.heap.AlignsWithin u ptr align size) ∧
      ((∀ ptr, s.heap.memalignArea u size align = some ptr →
        s.heap.AlignsWithin u ptr align size) →
          ∃ g', Intact a b (s.returned r size align) g') := by
  by_cases hzero : size = 0
  · refine ⟨_, if_pos hzero, fun _ ptr hptr ↦ ?_, fun _ ↦ ⟨g, hi.returned_zero (.refl _) ..⟩⟩
    rw [Heap.memalignArea, if_pos (.inl hzero)] at hptr
    cases hptr
  have hsize := Nat.pos_of_ne_zero hzero
  by_cases hzero' : align = 0
  · subst hzero'
    obtain ⟨r, g', halloc, hi'⟩ := hi.alloc hend size 0 fun x e he ↦
      absurd he (Nat.two_pow_pos e).ne
    refine ⟨r, ?_, fun _ ptr hptr ↦ ?_, fun _ ↦ ⟨g', hi'⟩⟩
    · rw [Heap.memalign, if_neg hzero, if_pos rfl, halloc]
    · rw [Heap.memalignArea, if_pos (.inr rfl)] at hptr
      cases hptr
  obtain ⟨h', x, hmemalign, hcase⟩ := hi.whole.memalign
    (fun r hr ↦ (hi.layout.bounds hr).2.trans hend) (Nat.pos_of_ne_zero hzero') halign hsize
  refine ⟨_, hmemalign, ?_⟩
  rcases hcase with ⟨harea, rfl, hg⟩ | ⟨ptr, harea, hs⟩
  · rw [harea]
    refine ⟨fun _ ptr hptr ↦ ?_, fun _ ↦ ⟨g, hi.returned_zero hg ..⟩⟩
    cases hptr
  · rw [harea]
    refine ⟨?_, fun hfits ↦ hi.served hs (hfits ptr rfl) hsize⟩
    rintro hsound _ ⟨⟩
    by_contra hfits
    exact hs.not_sound hfits hsound

theorem Intact.free (hi : Intact a b s g) (hlt : b < a + 2 ^ 32) (ptr : ℕ)
    (hptr : ptr = 0 → ∃ k, s.heap.blockAt 0 = some (.cell k)) :
    ∃ h' g', s.heap.free ptr = some h' ∧
      Intact a b ⟨h', s.live.filter fun q ↦ q.address ≠ ptr⟩ g' := by
  obtain ⟨r, hblock, hcase⟩ := hi.whole.blockAt ptr
  rw [Heap.free, hblock, Option.bind_eq_bind, Option.bind_some]
  rcases hcase with ⟨hr, htag, rfl⟩ | ⟨rfl, hall⟩
  · obtain ⟨h', g', hrelease, hw, hl, hkeep⟩ := hi.whole.release hi.layout hlt hr htag
    refine ⟨h', g', (if_pos rfl).trans hrelease, hi.update hw hl List.filter_sublist ?_⟩
    rintro q hq x ⟨hx, hx', haddress⟩
    refine hkeep x hx ?_ hx'
    rintro rfl
    simp [haddress] at hq
  · have hne : s.heap.address (.head (getAllocatedListFromAddress ptr)) ≠ ptr := by
      rw [hi.whole.head_address]
      rintro rfl
      obtain ⟨k, hk⟩ := hptr rfl
      rw [hblock] at hk
      cases hk
    refine ⟨s.heap, g, if_neg hne, hi.update hi.whole hi.layout List.filter_sublist ?_⟩
    exact fun q _ x hx ↦ ⟨hx.1, rfl⟩

theorem Intact.free_zero (hi : Intact a b s g) (hnot : ¬ ∃ k, s.heap.blockAt 0 = some (.cell k)) :
    s.heap.free 0 = none := by
  obtain ⟨r, hblock, hcase⟩ := hi.whole.blockAt 0
  rcases hcase with ⟨hr, -⟩ | ⟨rfl, -⟩
  · obtain ⟨k, -, rfl⟩ := hi.whole.chained.cell r hr
    exact absurd ⟨k, hblock⟩ hnot
  · rw [Heap.free, hblock, Option.bind_eq_bind, Option.bind_some, if_pos (hi.whole.head_address _)]
    exact Heap.release_eq_none (hi.whole.chained.detached _)

theorem Intact.perform (hi : Intact a b s g) (hend : b ≤ 2 ^ u) (hlt : b < a + 2 ^ 32)
    (call : Call u) :
    (Sound a b (s.perform call) → s.Admits call) ∧
      (s.Admits call → ∃ s' g', s.perform call = some s' ∧ Intact a b s' g') := by
  cases call with
  | alloc size =>
    obtain ⟨r, g', halloc, hi'⟩ := hi.alloc hend size.toNat 1 fun x _ _ ↦ Nat.one_dvd x
    refine ⟨fun _ ↦ trivial, fun _ ↦ ⟨_, g', ?_, hi'⟩⟩
    rw [State.perform, halloc]
    rfl
  | memalign size align =>
    obtain ⟨r, hmemalign, hbad, hgood⟩ := hi.memalign hend size.toNat align.isLt
    have hperform : s.perform (.memalign size align) =
        some (s.returned r size.toNat align.toNat) := by
      rw [State.perform, hmemalign]
      rfl
    rw [hperform]
    refine ⟨hbad, fun hadmits ↦ ?_⟩
    obtain ⟨g', hi'⟩ := hgood hadmits
    exact ⟨_, g', rfl, hi'⟩
  | free ptr =>
    rw [State.perform]
    refine ⟨fun hsound hzero ↦ ?_, fun hadmits ↦ ?_⟩
    · subst hzero
      by_contra hnot
      rw [show (0 : BitVec u).toNat = 0 from BitVec.toNat_zero, hi.free_zero hnot] at hsound
      exact hsound
    · obtain ⟨h', g', hfree, hi'⟩ := hi.free hlt ptr.toNat fun hzero ↦
        hadmits (BitVec.eq_of_toNat_eq hzero)
      rw [hfree]
      exact ⟨_, g', rfl, hi'⟩

end Steps

section Runs

theorem empty_wired : Wired { Heap.empty with cells := 1 } ∅ [] where
  filed := by
    refine ⟨fun _ ↦ [], ⟨⟨fun l ↦ ⟨rfl, rfl⟩, fun l ↦ by simp, fun {l l'} hne ↦ ?_⟩, by simp, by simp,
      fun _ ↦ Nat.two_pow_pos 32, fun _ ↦ rfl⟩, by simp [Listed]⟩
    simpa using hne.symm
  chained := ⟨⟨fun _ ↦ ⟨rfl, rfl⟩, by simp, fun {i j} hne ↦ absurd rfl hne⟩, by simp, fun _ ↦ rfl⟩
  head_address _ := rfl

theorem initializeHeap_whole (paddr size : ℕ) :
    ∃ h, initializeHeap paddr size = some h ∧ Whole h [.cell 0] ∧
      h.block (.cell 0) = ⟨paddr, size % 2 ^ 32, .free⟩ := by
  have hlt := Nat.mod_lt size (Nat.two_pow_pos 32)
  have hnew : Ref.cell 0 ∉ (∅ : Set Ref) := Set.notMem_empty _
  have hw := empty_wired.set hnew paddr hlt .free
  have hblock := ({ Heap.empty with cells := 1 } : Heap).set_block (.cell 0) paddr (size % 2 ^ 32)
    .free
  obtain ⟨h₂, hadd, hs, hw₂⟩ := hw.insert .free Nat.one_pos hnew (Heap.block_eq_iff.1 hblock).2.2
  have hc : Chained h₂ ([] ++ []) := hw₂.chained
  have hcells : 0 < h₂.cells := hs.cells ▸ Nat.one_pos
  have hw₃ : Wired (h₂.regroup (h₂.global.splice .globalHead (.cell 0) .globalHead)) _ [.cell 0] :=
    ⟨hw₂.filed.regroup _, hc.splice hcells (List.not_mem_nil), hw₂.head_address⟩
  refine ⟨_, ?_, hw₃.whole (by simp), (hs.block 0).trans hblock⟩
  have hprev : h₂.global.prev .globalHead = some .globalHead := hc.ring.prev_head ()
  rw [initializeHeap, Heap.listAddFreeArea, hadd, Option.bind_eq_bind, Option.bind_some,
    Heap.listAddGlobalBefore, hprev]
  rfl

def Kept (a b : ℕ) (t : Option State) : Prop :=
  ∃ s g, t = some s ∧ Intact a b s g

variable {u : ℕ} {psa size : BitVec u}

theorem initial_kept (psa : BitVec u) (hsize : size.toNat < 2 ^ 32) :
    Kept psa.toNat (psa.toNat + size.toNat) (initial psa size) := by
  obtain ⟨h, hinit, hw, hblock⟩ := initializeHeap_whole psa.toNat size.toNat
  rw [Nat.mod_eq_of_lt hsize] at hblock
  refine ⟨⟨h, []⟩, [.cell 0], by rw [initial, hinit]; rfl, hw, ?_, by simp, .nil, by simp⟩
  rw [List.map_singleton, hblock]
  exact ⟨⟨rfl, rfl⟩, by simp⟩

theorem initial_sound_size (h : Sound psa.toNat (psa.toNat + size.toNat) (initial psa size)) :
    size.toNat < 2 ^ 32 := by
  obtain ⟨h₀, hinit, hw, hblock⟩ := initializeHeap_whole psa.toNat size.toNat
  rw [initial, hinit] at h
  obtain ⟨c, g, hc⟩ := h
  obtain rfl : g = [.cell 0] := congrFun (hc.global.unique hw.chained.ring) ()
  have hsum := hc.layout.eq_add_sum
  rw [List.map_singleton, List.sum_singleton] at hsum
  have hlt := hw.filed.size_lt (.cell 0)
  change psa.toNat + size.toNat = psa.toNat + h₀.size (.cell 0) at hsum
  omega

theorem Kept.next {a b : ℕ} (hend : b ≤ 2 ^ u) (hlt : b < a + 2 ^ 32) {t t' : Option State}
    {i : Call u × List Bool} {o : List Empty} (hk : Kept a b t) (hs : step u t i = some (t', o)) :
    (Sound a b t' → Guarded u t i) ∧ (Guarded u t i → Kept a b t') := by
  obtain ⟨s, g, rfl, hi⟩ := hk
  obtain ⟨call, supply⟩ := i
  cases hs
  exact (hi.supplied supply).perform hend hlt call

theorem Kept.sound {a b : ℕ} (hlt : b < a + 2 ^ 32) {t : Option State} (hk : Kept a b t) :
    Sound a b t := by
  obtain ⟨s, g, rfl, hi⟩ := hk
  obtain ⟨c, hc⟩ := hi.consistent hlt
  exact ⟨c, g, hc⟩

/-- The allocator keeps its structures and hands out good blocks in exactly the runs in which no
sum of `__memalign` overflows and `__free` gets no null pointer. -/
theorem allocator_sound_iff (psa size : BitVec u) (hseg : psa.toNat + size.toNat ≤ 2 ^ u)
    (calls : List (Call u × List Bool)) :
    Always (step u) (Sound psa.toNat (psa.toNat + size.toNat)) (initial psa size) calls ↔
      size.toNat < 2 ^ 32 ∧ Along (step u) (Guarded u) (initial psa size) calls := by
  have hiff (hsize : size.toNat < 2 ^ 32) :
      Always (step u) (Sound psa.toNat (psa.toNat + size.toNat)) (initial psa size) calls ↔
        Along (step u) (Guarded u) (initial psa size) calls := by
    have hlt : psa.toNat + size.toNat < psa.toNat + 2 ^ 32 := Nat.add_lt_add_left hsize _
    exact always_iff_along_of_invariant (Kept.sound hlt) (Kept.next hseg hlt)
      (initial_kept psa hsize) calls
  constructor
  · intro h
    have hsize := initial_sound_size h.first
    exact ⟨hsize, (hiff hsize).1 h⟩
  · rintro ⟨hsize, h⟩
    exact (hiff hsize).2 h

theorem allocator_sound_iff_alloc_free :
    Always (step 32) (Sound 0x80001000 0x80011000) (initial 0x80001000#32 0x10000#32)
      [(.alloc 0x100#32, [false]), (.alloc 0x100#32, []), (.free 0x80001000#32, [])] := by
  refine (allocator_sound_iff 0x80001000#32 0x10000#32 (by decide) _).2 ⟨by decide, ?_⟩
  refine Along.of_forall ?_ _
  rintro i hi (_ | s)
  · trivial
  · simp only [List.mem_cons, List.not_mem_nil, or_false] at hi
    rcases hi with rfl | rfl | rfl
    · trivial
    · trivial
    · exact fun hzero ↦ absurd hzero (by decide)

theorem Kept.not_always {a b : ℕ} (hend : b ≤ 2 ^ u) (hlt : b < a + 2 ^ 32) {t t' : Option State}
    {i : Call u × List Bool} {o : List Empty} (hk : Kept a b t) (hs : step u t i = some (t', o))
    (hbad : ¬ Guarded u t i) : ¬ Always (step u) (Sound a b) t [i] :=
  fun h ↦ hbad ((hk.next hend hlt hs).1 (h.2 _ hs))

/-- An alignment of nearly the whole address space gives a block at address 1, and `__free` of a
null pointer takes the list head for a block. -/
theorem allocator_unsound :
    ¬ Always (step 32) (Sound 0x80001000 0x80011000) (initial 0x80001000#32 0x10000#32)
        [(.memalign 0x100#32 0xFFFFFFFF#32, [])] ∧
      ¬ Always (step 32) (Sound 0x80001000 0x80011000) (initial 0x80001000#32 0x10000#32)
        [(.free 0#32, [])] := by
  have hsize : (0x10000#32).toNat < 2 ^ 32 := by decide
  have hkept := initial_kept 0x80001000#32 hsize
  constructor
  · have hrun : (initial 0x80001000#32 0x10000#32).map (fun s ↦
        ((s.supplied []).heap.memalignArea 32 0x100 0xFFFFFFFF,
          decide ((s.supplied []).heap.AlignsWithin 32 (.cell 0) 0xFFFFFFFF 0x100))) =
        some (some (.cell 0), false) := by decide +kernel
    obtain ⟨s, hs, hpair⟩ := Option.map_eq_some_iff.1 hrun
    obtain ⟨harea, hwithin⟩ := Prod.ext_iff.1 hpair
    rw [hs] at hkept ⊢
    exact hkept.not_always (by decide) (by decide) rfl fun hguard ↦
      of_decide_eq_false hwithin (hguard _ harea)
  · have hrun : (initial 0x80001000#32 0x10000#32).map (fun s ↦ (s.supplied []).heap.blockAt 0) =
        some (some (.head ⟨.allocated, 0⟩)) := by decide +kernel
    obtain ⟨s, hs, hblock⟩ := Option.map_eq_some_iff.1 hrun
    rw [hs] at hkept ⊢
    refine hkept.not_always (by decide) (by decide) rfl fun hguard ↦ ?_
    obtain ⟨k, hk⟩ := hguard rfl
    rw [hblock] at hk
    cases hk

end Runs

end EnbL1Ppc.Shm
