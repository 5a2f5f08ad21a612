import EnbL1Ppc.Shm.Search

namespace EnbL1Ppc.Shm

open Lib

section Merge

variable {h h' : Heap} {g₁ g₂ : List Ref} {r : Ref} {k : ℕ}

def Heap.Apart (h : Heap) (g : List Ref) : Prop :=
  g.IsChain fun x y ↦ ¬ (h.tag x = .free ∧ h.tag y = .free)

/-- The node between `g₁` and `g₂`, which is in no list, takes in the nodes `ns` behind it. -/
structure MergedDown (h : Heap) (g₁ : List Ref) (r : Ref) (ns g₂ : List Ref) (h' : Heap) : Prop where
  wired : Wired h' {x | x ∈ g₁ ++ g₂} (g₁ ++ r :: g₂)
  same : ∀ x ∈ g₁ ++ g₂, h'.block x = h.block x
  block : h'.block r = ⟨h.address r, (h.size r + (ns.map h.size).sum) % 2 ^ 32, h.tag r⟩
  free : ∀ n ∈ ns, h.tag n = .free
  apart : ∀ n ∈ g₂.head?, h.tag n ≠ .free

theorem Wired.tryMergeDownward (hw : Wired h {x | x ∈ g₁ ++ g₂} (g₁ ++ .cell k :: g₂))
    (hapart : h.Apart g₂) :
    ∃ h' ns g₂', h.tryMergeDownward (.cell k) = some h' ∧ g₂ = ns ++ g₂' ∧
      MergedDown h g₁ (.cell k) ns g₂' h' := by
  have hnext := hw.chained.next
  have hlt := hw.filed.size_lt (.cell k)
  have hsame : (⟨h.address (.cell k), h.size (.cell k), h.tag (.cell k)⟩ : Block) =
      ⟨h.address (.cell k), (h.size (.cell k) + 0) % 2 ^ 32, h.tag (.cell k)⟩ := by
    rw [Nat.add_zero, Nat.mod_eq_of_lt hlt]
  cases g₂ with
  | nil =>
    refine ⟨h, [], [], ?_, rfl, hw, fun _ _ ↦ rfl, hsame, by simp, by simp⟩
    exact if_pos hnext
  | cons n g₂ =>
    rw [List.headD_cons] at hnext
    have hn : n ∈ g₁ ++ .cell k :: n :: g₂ := by simp
    have hne : n ≠ .globalHead := hw.chained.ne_globalHead hn
    rw [Heap.tryMergeDownward, hnext, if_neg (by simpa using hne), Option.bind_eq_bind,
      Option.bind_some]
    by_cases hfree : h.tag n = .free
    · have hk := hw.chained.not_mem
      have hsum := Nat.mod_lt (h.size (.cell k) + h.size n) (Nat.two_pow_pos 32)
      have hmem : n ∈ g₁ ++ n :: g₂ := by simp
      have hne' : n ≠ .cell k := fun heq ↦ hk (heq ▸ hmem)
      have htag : (h.setSize (.cell k) ((h.size (.cell k) + h.size n) % 2 ^ 32)).tag n = .free :=
        hfree
      obtain ⟨h₁, hremove, hs, hw₁⟩ := (hw.setSize hk hsum).delete .free hmem htag
      have hc := hw.chained
      rw [List.append_cons g₁ (.cell k)] at hc hw₁
      have hnot : n ∉ g₁ ++ g₂ := fun hmem ↦ by
        refine hc.not_mem ?_
        simp only [List.mem_append] at hmem ⊢
        tauto
      obtain ⟨global, hremove', hw₂⟩ := hw₁.remove
      rw [← List.append_cons, diff_mem_middle hnot] at hw₂
      refine ⟨h₁.regroup global, [n], g₂, ?_, rfl, hw₂, fun x hx ↦ ?_, ?_, ?_, ?_⟩
      · simp only [if_pos hfree, Heap.listRemoveFreeArea, hremove, Option.bind_eq_bind,
          Option.bind_some, hremove']
      · have hne : x ≠ .cell k := by
          rintro rfl
          exact hk (by simp only [List.mem_append, List.mem_cons] at hx ⊢; tauto)
        obtain ⟨k', -, rfl⟩ := hw₂.chained.cell_of_mem hx
        rw [Heap.regroup_block, hs.block, Heap.setSize_block_of_ne hne]
      · rw [Heap.regroup_block, hs.block, Heap.setSize_block, List.map_singleton,
          List.sum_singleton]
      · simpa using hfree
      · exact fun z hz hz' ↦ (List.isChain_cons.1 hapart).1 z hz ⟨hfree, hz'⟩
    · refine ⟨h, [], n :: g₂, if_neg hfree, rfl, hw, fun _ _ ↦ rfl, hsame, by simp, ?_⟩
      simpa using hfree

/-- The node takes in the nodes `ps` in front of it, and the first of them goes into the lists. -/
structure MergedUp (h : Heap) (g₁ ps : List Ref) (r : Ref) (g₂ : List Ref) (h' : Heap) : Prop where
  whole : Whole h' (g₁ ++ ps.headD r :: g₂)
  same : ∀ x ∈ g₁ ++ g₂, h'.block x = h.block x
  block : h'.block (ps.headD r) =
    ⟨h.address (ps.headD r), (((ps ++ [r]).map h.size).sum) % 2 ^ 32, .free⟩
  free : ∀ p ∈ ps, h.tag p = .free
  apart : ∀ p ∈ g₁.getLast?, h.tag p ≠ .free

theorem Wired.settle_alone (hw : Wired h {x | x ∈ g₁ ++ g₂} (g₁ ++ .cell k :: g₂))
    (hfree : h.tag (.cell k) = .free) (hmerge : h.tryMergeUpward (.cell k) = some (h, false))
    (hlast : ∀ p ∈ g₁.getLast?, h.tag p ≠ .free) :
    ∃ h', h.settle (.cell k) = some h' ∧ MergedUp h g₁ [] (.cell k) g₂ h' := by
  have hlt := hw.filed.size_lt (.cell k)
  obtain ⟨_, hk, ⟨⟩⟩ := hw.chained.cell (.cell k) (by simp)
  obtain ⟨h', hadd, hs, hw'⟩ := hw.insert .free hk hw.chained.not_mem hfree
  refine ⟨h', ?_, hw'.whole fun x ↦ ?_, fun x hx ↦ ?_, ?_, by simp, hlast⟩
  · rw [Heap.settle, hmerge]
    exact hadd
  · simp only [Set.mem_insert_iff, Set.mem_ofPred_eq, List.mem_append, List.mem_cons]
    tauto
  · obtain ⟨k', -, rfl⟩ := hw.chained.cell_of_mem hx
    exact hs.block k'
  · rw [List.nil_append, List.map_singleton, List.sum_singleton, List.headD_nil,
      Nat.mod_eq_of_lt hlt, hs.block, Heap.block, hfree]

theorem Wired.settle_join {p : Ref}
    (hw : Wired h {x | x ∈ g₁ ++ [p] ++ g₂} (g₁ ++ [p] ++ .cell k :: g₂))
    (hfree : h.tag p = .free) (hlast : ∀ p ∈ g₁.getLast?, h.tag p ≠ .free) :
    ∃ h', h.settle (.cell k) = some h' ∧ MergedUp h g₁ [p] (.cell k) g₂ h' := by
  have hprev := hw.chained.prev
  rw [List.getLastD_concat] at hprev
  have hmem : p ∈ g₁ ++ [p] ++ g₂ := by simp
  have hne : p ≠ .globalHead := hw.chained.ne_globalHead (by simp)
  obtain ⟨j, hj, rfl⟩ := hw.chained.cell_of_mem hmem
  have hout : Ref.cell j ∉ ({x | x ∈ g₁ ++ [.cell j] ++ g₂} : Set Ref) \ {.cell j} := by simp
  obtain ⟨h₁, hremove, hs, hw₁⟩ := hw.delete .free hmem hfree
  have hsum := Nat.mod_lt (h₁.size (.cell j) + h₁.size (.cell k)) (Nat.two_pow_pos 32)
  obtain ⟨h₂, hadd, hs', hw₂⟩ := (hw₁.setSize hout hsum).insert .free (hs.cells ▸ hj) hout
    ((congrFun hs.tag _).trans hfree)
  rw [insert_diff_mem hmem] at hw₂
  obtain ⟨global, hremove', hw₃⟩ := hw₂.remove
  refine ⟨h₂.regroup global, ?_, ?_, fun x hx ↦ ?_, ?_, ?_, hlast⟩
  · simp only [Heap.settle, Heap.tryMergeUpward, hprev, Heap.listRemoveFreeArea, hremove,
      Heap.listAddFreeArea, hadd, Option.bind_eq_bind, Option.bind_some, hfree, if_true]
    simpa using hremove'
  · rw [List.headD_cons, List.append_cons]
    exact hw₃
  · have hx' : x ∈ g₁ ++ [.cell j] ++ g₂ := by
      simp only [List.mem_append] at hx ⊢
      tauto
    have hne : x ≠ .cell j := by
      rintro rfl
      have hc := hw.chained
      rw [← List.append_cons] at hc
      exact hc.not_mem (by simp only [List.mem_append, List.mem_cons] at hx ⊢; tauto)
    obtain ⟨k', -, rfl⟩ := hw.chained.cell_of_mem hx'
    rw [Heap.regroup_block, hs'.block, Heap.setSize_block_of_ne hne, hs.block]
  · rw [List.headD_cons, Heap.regroup_block, hs'.block, Heap.setSize_block, hs.address, hs.tag,
      hs.size, hs.size, hfree]
    simp
  · simpa using hfree

theorem Wired.settle (hw : Wired h {x | x ∈ g₁ ++ g₂} (g₁ ++ .cell k :: g₂))
    (hfree : h.tag (.cell k) = .free) (hapart : h.Apart g₁) :
    ∃ h' g₁' ps, h.settle (.cell k) = some h' ∧ g₁ = g₁' ++ ps ∧
      MergedUp h g₁' ps (.cell k) g₂ h' := by
  have hprev := hw.chained.prev
  rcases g₁.eq_nil_or_concat' with rfl | ⟨g, p, rfl⟩
  · obtain ⟨h', hsettle, hmerged⟩ := hw.settle_alone hfree (if_pos hprev) (by simp)
    exact ⟨h', [], [], hsettle, rfl, hmerged⟩
  · rw [List.getLastD_concat] at hprev
    by_cases htag : h.tag p = .free
    · obtain ⟨h', hsettle, hmerged⟩ := hw.settle_join htag fun z hz hz' ↦
        (List.isChain_append.1 hapart).2.2 z hz p rfl ⟨hz', htag⟩
      exact ⟨h', g, [p], hsettle, rfl, hmerged⟩
    · have hne : p ≠ .globalHead := hw.chained.ne_globalHead (by simp)
      have hmerge : h.tryMergeUpward (.cell k) = some (h, false) := by
        simp [Heap.tryMergeUpward, hprev, hne, htag]
      obtain ⟨h', hsettle, hmerged⟩ := hw.settle_alone hfree hmerge (by simpa using htag)
      exact ⟨h', g ++ [p], [], hsettle, (List.append_nil _).symm, hmerged⟩

end Merge

section Free

variable {h h' : Heap} {g g₁ g₂ ps ns : List Ref} {r : Ref} {a b : ℕ}

theorem Heap.Apart.congr (hapart : h.Apart g) (hsame : ∀ x ∈ g, h'.block x = h.block x) :
    h'.Apart g := by
  have hchain : (g.map h.block).IsChain fun x y ↦ ¬ (x.kind = .free ∧ y.kind = .free) :=
    (List.isChain_map _).2 hapart
  rw [← List.map_congr_left hsame] at hchain
  exact (List.isChain_map _).1 hchain

theorem Layout.eq_add_sum (hl : Layout a b (g.map h.block)) : b = a + (g.map h.size).sum := by
  have hsum := hl.tiles.eq_add_sum
  rwa [List.map_map] at hsum

theorem not_mem_of_free {xs : List Ref} (hfree : ∀ x ∈ xs, h.tag x = .free)
    (hr : h.tag r = .allocated) : r ∉ xs := by
  intro hmem
  have htag := hfree r hmem
  rw [hr] at htag
  cases htag

theorem map_size_congr {xs : List Ref} (hsame : ∀ x ∈ xs, h'.block x = h.block x) :
    xs.map h'.size = xs.map h.size :=
  List.map_congr_left fun x hx ↦ (Heap.block_congr (hsame x hx)).2.1

theorem Layout.merge (hl : Layout a b ((g₁ ++ (ps ++ r :: ns ++ g₂)).map h.block))
    (hsame : ∀ x ∈ g₁ ++ g₂, h'.block x = h.block x)
    (hblock : h'.block (ps.headD r) =
      ⟨h.address (ps.headD r), ((ps ++ r :: ns).map h.size).sum, .free⟩)
    (hbefore : ∀ p ∈ g₁.getLast?, h.tag p ≠ .free) (hafter : ∀ n ∈ g₂.head?, h.tag n ≠ .free) :
    Layout a b ((g₁ ++ ps.headD r :: g₂).map h'.block) := by
  have hsame₁ : g₁.map h'.block = g₁.map h.block :=
    List.map_congr_left fun x hx ↦ hsame x (List.mem_append_left _ hx)
  have hsame₂ : g₂.map h'.block = g₂.map h.block :=
    List.map_congr_left fun x hx ↦ hsame x (List.mem_append_right _ hx)
  have hcons : ps ++ r :: ns = ps.headD r :: (ps ++ r :: ns).tail := by cases ps <;> rfl
  rw [hcons] at hl hblock
  rw [List.map_append, List.map_append, List.map_cons] at hl
  rw [List.map_append, List.map_cons, hsame₁, hsame₂, hblock]
  refine hl.join rfl ?_ ?_ ?_
  · rw [List.map_cons, List.map_cons, List.map_map]
    rfl
  · simpa [List.getLast?_map, Heap.block] using hbefore
  · simpa [List.head?_map, Heap.block] using hafter

/-- The allocated node between `g₁ ++ ps` and `ns ++ g₂` has become a free one and been joined with
the free nodes around it. -/
structure Released (h : Heap) (g₁ ps : List Ref) (r : Ref) (ns g₂ : List Ref) (h' : Heap) :
    Prop where
  whole : Whole h' (g₁ ++ ps.headD r :: g₂)
  same : ∀ x ∈ g₁ ++ g₂, h'.block x = h.block x
  block : h'.block (ps.headD r) =
    ⟨h.address (ps.headD r), (((ps ++ r :: ns).map h.size).sum) % 2 ^ 32, .free⟩
  free : ∀ x ∈ ps ++ ns, h.tag x = .free
  before : ∀ p ∈ g₁.getLast?, h.tag p ≠ .free
  after : ∀ n ∈ g₂.head?, h.tag n ≠ .free

theorem Whole.release_start {k : ℕ} (hw : Whole h (g₁ ++ .cell k :: g₂))
    (htag : h.tag (.cell k) = .allocated) :
    ∃ h₁, h.listRemoveAllocatedArea (.cell k) = some h₁ ∧ h.SameNodes h₁ ∧
      Wired (h₁.setTag (.cell k) .free) {x | x ∈ g₁ ++ g₂} (g₁ ++ .cell k :: g₂) ∧
      (∀ x ∈ g₁ ++ g₂, (h₁.setTag (.cell k) .free).block x = h.block x) ∧
      (h₁.setTag (.cell k) .free).block (.cell k) =
        ⟨h.address (.cell k), h.size (.cell k), .free⟩ := by
  have hnot := hw.chained.not_mem
  obtain ⟨h₁, hremove, hs, hw₁⟩ := hw.delete .allocated (by simp) htag
  rw [diff_mem_middle hnot] at hw₁
  refine ⟨h₁, hremove, hs, hw₁.setTag hnot .free, fun x hx ↦ ?_, ?_⟩
  · have hne := hw.ne_of_mem hx
    obtain ⟨k', -, rfl⟩ := hw.chained.cell_of_mem hx
    rw [Heap.setTag_block_of_ne hne, hs.block]
  · rw [Heap.setTag_block, hs.address, hs.size]

theorem Whole.released (hw : Whole h (g₁ ++ r :: g₂)) (hapart : h.Apart (g₁ ++ r :: g₂))
    (htag : h.tag r = .allocated) :
    ∃ h' g₁' ps ns g₂', h.release r = some h' ∧ g₁ = g₁' ++ ps ∧ g₂ = ns ++ g₂' ∧
      Released h g₁' ps r ns g₂' h' := by
  obtain ⟨k, -, rfl⟩ := hw.chained.cell r (by simp)
  obtain ⟨h₁, hremove, -, hw₂, hsame₂, hblock₂⟩ := hw.release_start htag
  set h₂ := h₁.setTag (.cell k) .free
  obtain ⟨hchain₁, hchain₂, -⟩ := List.isChain_append.1 hapart
  have hapart₂ : h₂.Apart g₂ :=
    Heap.Apart.congr hchain₂.tail fun x hx ↦ hsame₂ x (List.mem_append_right _ hx)
  obtain ⟨h₃, ns, g₂', hdown, rfl, hm⟩ := hw₂.tryMergeDownward hapart₂
  have hsame₃ : ∀ x ∈ g₁ ++ g₂', h₃.block x = h.block x := fun x hx ↦
    (hm.same x hx).trans (hsame₂ x (by simp only [List.mem_append] at hx ⊢; tauto))
  have hapart₃ : h₃.Apart g₁ :=
    Heap.Apart.congr hchain₁ fun x hx ↦ hsame₃ x (List.mem_append_left _ hx)
  obtain ⟨haddress₂, hsize₂, htag₂⟩ := Heap.block_eq_iff.1 hblock₂
  obtain ⟨haddress₃, hsize₃, htag₃⟩ := Heap.block_eq_iff.1 hm.block
  obtain ⟨h₄, g₁', ps, hsettle, rfl, hm'⟩ := hm.wired.settle (htag₃.trans htag₂) hapart₃
  have hsame₄ : ∀ x ∈ g₁' ++ g₂', h₄.block x = h.block x := fun x hx ↦
    (hm'.same x hx).trans (hsame₃ x (by simp only [List.mem_append] at hx ⊢; tauto))
  refine ⟨h₄, g₁', ps, ns, g₂', ?_, rfl, rfl, hm'.whole, hsame₄, ?_, ?_, ?_, ?_⟩
  · simp only [Heap.release, hremove, Option.bind_eq_bind, Option.bind_some]
    rw [hdown, Option.bind_some, hsettle]
  · have hps : ps.map h₃.size = ps.map h.size := map_size_congr fun x hx ↦ hsame₃ x (by simp [hx])
    have hns : ns.map h₂.size = ns.map h.size := map_size_congr fun x hx ↦ hsame₂ x (by simp [hx])
    have haddress : h₃.address (ps.headD (.cell k)) = h.address (ps.headD (.cell k)) := by
      cases ps with
      | nil => exact haddress₃.trans haddress₂
      | cons p ps => exact (Heap.block_congr (hsame₃ p (by simp))).1
    rw [hm'.block, haddress]
    simp only [List.map_append, List.map_cons, List.map_nil, List.sum_append, List.sum_cons,
      List.sum_nil, hps, hsize₃, hsize₂, hns, Nat.add_zero, Nat.add_mod_mod]
  · intro x hx
    rcases List.mem_append.1 hx with hx | hx
    · exact (Heap.block_congr (hsame₃ x (by simp [hx]))).2.2.symm.trans (hm'.free x hx)
    · exact (Heap.block_congr (hsame₂ x (by simp [hx]))).2.2.symm.trans (hm.free x hx)
  · exact fun p hp hfree ↦ hm'.apart p hp <|
      (Heap.block_congr (hsame₃ p (by simp [List.mem_of_getLast? hp]))).2.2.trans hfree
  · exact fun n hn hfree ↦ hm.apart n hn <|
      (Heap.block_congr (hsame₂ n (by simp [List.mem_of_head? hn]))).2.2.trans hfree

theorem Whole.release (hw : Whole h g) (hl : Layout a b (g.map h.block)) (hlt : b < a + 2 ^ 32)
    (hr : r ∈ g) (htag : h.tag r = .allocated) :
    ∃ h' g', h.release r = some h' ∧ Whole h' g' ∧ Layout a b (g'.map h'.block) ∧
      ∀ x ∈ g, x ≠ r → h.tag x = .allocated → x ∈ g' ∧ h'.block x = h.block x := by
  obtain ⟨g₁, g₂, rfl⟩ := List.append_of_mem hr
  have hapart : h.Apart (g₁ ++ r :: g₂) := (List.isChain_map _).1 hl.apart
  obtain ⟨h', g₁, ps, ns, g₂, hrelease, rfl, rfl, hm⟩ := hw.released hapart htag
  refine ⟨h', _, hrelease, hm.whole, ?_, ?_⟩
  · have hsum : ((ps ++ r :: ns).map h.size).sum < 2 ^ 32 := by
      have htotal := hl.eq_add_sum
      simp only [List.map_append, List.map_cons, List.sum_append, List.sum_cons] at htotal ⊢
      omega
    have hblock := hm.block
    rw [Nat.mod_eq_of_lt hsum] at hblock
    exact Layout.merge (by simpa using hl) hm.same hblock hm.before hm.after
  · intro x hx hne hx'
    have hout : x ∉ ps ++ ns := not_mem_of_free hm.free hx'
    have hmem : x ∈ g₁ ++ g₂ := by
      simp only [List.mem_append, List.mem_cons] at hx hout ⊢
      tauto
    refine ⟨?_, hm.same x hmem⟩
    simp only [List.mem_append, List.mem_cons] at hmem ⊢
    tauto

end Free

section Lookup

variable {h : Heap} {c : ListId → List Ref} {l : ListId} {g : List Ref}

theorem findBlock_ends (hr : h.links.Rings .head c) (address : ℕ) {xs ys : List Ref} {n : ℕ}
    (hc : c l = xs ++ ys) (hn : ys.length < n) :
    ∃ r, h.findBlock (.head l) address n (ys.headD (.head l)) = some r ∧
      (r ∈ ys ∧ h.address r = address ∨ r = .head l ∧ ∀ x ∈ ys, h.address x ≠ address) := by
  induction ys generalizing xs n with
  | nil =>
    obtain ⟨n, rfl⟩ := Nat.exists_eq_succ_of_ne_zero (Nat.ne_of_gt hn)
    exact ⟨.head l, if_pos (.inl rfl), .inr ⟨rfl, by simp⟩⟩
  | cons y ys ih =>
    obtain ⟨n, rfl⟩ := Nat.exists_eq_succ_of_ne_zero (Nat.ne_of_gt (Nat.zero_lt_of_lt hn))
    by_cases hy : h.address y = address
    · exact ⟨y, if_pos (.inr hy), .inl ⟨by simp, hy⟩⟩
    · have hhead : y ≠ .head l := fun heq ↦ hr.head_not_mem l l (by simp [hc, ← heq])
      have hnext := hr.next hc
      rw [List.append_cons] at hc
      obtain ⟨r, hfind, hcase⟩ := ih hc (by simpa using hn)
      refine ⟨r, ?_, ?_⟩
      · rw [List.headD_cons, Heap.findBlock, if_neg (by simp [hhead, hy]), hnext]
        exact hfind
      · rcases hcase with ⟨hmem, hr⟩ | ⟨hr, hall⟩
        · exact .inl ⟨List.mem_cons_of_mem _ hmem, hr⟩
        · exact .inr ⟨hr, List.forall_mem_cons.2 ⟨hy, hall⟩⟩

theorem Whole.blockAt (hw : Whole h g) (address : ℕ) :
    ∃ r, h.blockAt address = some r ∧
      (r ∈ g ∧ h.tag r = .allocated ∧ h.address r = address ∨
        r = .head (getAllocatedListFromAddress address) ∧
          ∀ x ∈ g, h.tag x = .allocated → h.address x ≠ address) := by
  obtain ⟨c, hl, hlisted⟩ := hw.filed
  set l := getAllocatedListFromAddress address with hldef
  have hlen := hl.length_le l
  obtain ⟨r, hfind, hcase⟩ := findBlock_ends hl.rings address (List.nil_append (c l)).symm
    (Nat.lt_succ_of_le hlen)
  refine ⟨r, ?_, ?_⟩
  · rw [Heap.blockAt, ← hldef, hl.rings.next_head]
    exact hfind
  · rcases hcase with ⟨hmem, haddress⟩ | ⟨hr, hall⟩
    · obtain ⟨hg, htag⟩ := (hlisted .allocated r).1 ⟨l.index, hmem⟩
      exact .inl ⟨hg, htag, haddress⟩
    · refine .inr ⟨hr, fun x hx htag haddress ↦ ?_⟩
      obtain ⟨i, hi⟩ := (hlisted .allocated x).2 ⟨hx, htag⟩
      have hlist := hl.listOf _ x hi
      rw [Heap.listOf, haddress, ← hldef] at hlist
      exact hall x (hlist ▸ hi) haddress

theorem Heap.release_eq_none {r : Ref} (hr : h.global.next r = none) : h.release r = none := by
  rw [Heap.release, Heap.listRemoveAllocatedArea, Heap.listRemove]
  cases hu : h.links.unlink r with
  | none => simp [Heap.setSize, hu]
  | some links => simp [Heap.setSize, hu, Heap.setTag, Heap.tryMergeDownward, hr]

end Lookup

end EnbL1Ppc.Shm
