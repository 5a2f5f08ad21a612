import EnbL1Ppc.Shm.Soundness

namespace EnbL1Ppc.Shm

open Lib Lib.Machine

section Walk

variable {h : Heap} {c : ListId → List Ref} {l : ListId}
  {attempt : Heap → Ref → Option (Heap × Option (Option Ref))}

theorem Lists.searchList_stops (hl : Lists h c) {p : Ref → Prop}
    (hpass : ∀ r ∈ c l, ¬p r → attempt h r = some (h, none))
    (hstop : ∀ r ∈ c l, p r → ∃ h' node, attempt h r = some (h', some node))
    (hempty : ∀ r, h.size r = 0 → attempt h r = some (h, none)) (hex : ∃ r ∈ c l, p r) :
    ∃ f, h.searchList attempt l = some f ∧ f.ptr ∈ c l ∧ p f.ptr ∧
      attempt h f.ptr = some (f.heap, some f.node) := by
  have hattempt : ∀ h₁, h₁ = h → ∀ r ∈ c l,
      ∃ h' a, attempt h₁ r = some (h', a) ∧ (a = none → h' = h) := by
    rintro h₁ rfl r hr
    by_cases hp : p r
    · obtain ⟨h', node, heq⟩ := hstop r hr hp
      exact ⟨h', some node, heq, fun hnone ↦ absurd hnone (Option.some_ne_none _)⟩
    · exact ⟨h₁, none, hpass r hr hp, fun _ ↦ rfl⟩
  obtain ⟨f, hf, ⟨_, rfl, hptr, heq, -⟩ | ⟨-, -, hall⟩⟩ :=
    hl.searchList_walk (I := fun h₁ ↦ h₁ = h) rfl (fun _ heq ↦ congrArg Heap.links heq) hattempt
      hempty
  · refine ⟨f, hf, hptr, ?_, heq⟩
    by_contra hp
    cases heq.symm.trans (hpass f.ptr hptr hp)
  · obtain ⟨r, hr, hp⟩ := hex
    obtain ⟨_, h', rfl, hnone⟩ := hall r hr
    obtain ⟨h'', node, hsome⟩ := hstop r hr hp
    cases hnone.symm.trans hsome

end Walk

section Lists

variable {h h' : Heap} {c : ListId → List Ref} {size : ℕ}

theorem Lists.exists_fitting (hl : Lists h c) {i : Fin 9}
    (hi : 0x8000 < size ∧ i = 8 ∨ h.Roomy size i) (hex : ∃ r, Listed c .free r ∧ size ≤ h.size r) :
    ∃ r ∈ c ⟨.free, i⟩, size ≤ h.size r := by
  rcases hi with ⟨hlarge, rfl⟩ | ⟨hsum, tail, htail, hle⟩
  · obtain ⟨r, ⟨j, hr⟩, hle⟩ := hex
    have hlist : getList (h.size r) = ⟨.free, j⟩ := hl.listOf _ r hr
    have hlast : getList (h.size r) = ⟨.free, 8⟩ := by
      rw [getList, listIndex, dif_pos (hlarge.trans_le hle)]
    rw [hlist] at hlast
    exact ⟨r, hlast ▸ hr, hle⟩
  · have hprev := hl.rings.prev_head ⟨.free, i⟩
    cases hc : c ⟨.free, i⟩ with
    | nil =>
      rw [hl.size_head, hc] at hsum
      exact absurd hsum (Nat.not_lt_zero _)
    | cons x xs =>
      rw [hc, List.getLastD_cons, htail] at hprev
      cases hprev
      exact ⟨_, Links.getLastD_mem x xs, hle⟩

end Lists

section Calls

variable {h h' : Heap} {g : List Ref} {u size : ℕ} {ptr : Ref}

theorem Heap.listAdd_address {kind : Kind} {r : Ref} (heq : h.listAdd kind r = some h') :
    h'.address = h.address := by
  simp only [Heap.listAdd, Option.bind_eq_bind, Option.bind_eq_some_iff, Option.some.injEq] at heq
  obtain ⟨links, -, rfl⟩ := heq
  rfl

theorem Heap.listRemove_address {kind : Kind} {r : Ref} (heq : h.listRemove kind r = some h') :
    h'.address = h.address := by
  simp only [Heap.listRemove, Option.bind_eq_bind, Option.bind_eq_some_iff, Option.some.injEq] at heq
  obtain ⟨links, -, rfl⟩ := heq
  rfl

theorem Found.finish_address {f : Found} {head node : Ref} {x : ℕ} (hnode : f.node = some node)
    (heq : f.finish head = some (h', x)) : x = f.heap.address node := by
  simp only [Found.finish, hnode] at heq
  split_ifs at heq with hhead
  · cases heq
    rfl
  · simp only [Option.bind_eq_bind, Option.bind_eq_some_iff, Option.some.injEq, Prod.mk.injEq] at heq
    obtain ⟨h₁, hremove, h₂, hadd, -, rfl⟩ := heq
    rw [Heap.listAdd_address hadd, Heap.listRemove_address hremove]

theorem Whole.allocateFreeArea_start (hw : Whole h g) (hptr : ptr ∈ h.areas g)
    (hend : h.address ptr + h.size ptr ≤ 2 ^ u) (hsupply : h.supply = []) (hle : size ≤ h.size ptr) :
    ∃ h' node, h.allocateFreeArea u ptr size = some (h', some node) ∧
      h'.address node = h.address ptr := by
  obtain ⟨hmem, hfree⟩ := hptr
  obtain ⟨g₁, g₂, rfl⟩ := List.append_of_mem hmem
  obtain ⟨h', a, heq, ⟨rfl, -⟩ | ⟨ns, node, rfl, ht, -⟩⟩ := hw.allocate hfree hle hend
  · exfalso
    simp only [Heap.allocateFreeArea, Heap.kmalloc, hsupply] at heq
    split_ifs at heq with hsame hlt
    · simp [Option.bind_eq_some_iff] at heq
    · simp [Option.bind_eq_some_iff] at heq
    · omega
  · exact ⟨h', node, heq, (Heap.block_eq_iff.1 ht.block).1⟩

theorem Whole.allocAttempt_start (hw : Whole h g) (hptr : ptr ∈ h.areas g)
    (hend : h.address ptr + h.size ptr ≤ 2 ^ u) (hsupply : h.supply = []) (hle : size ≤ h.size ptr) :
    ∃ h' node, Shm.allocAttempt u size h ptr = some (h', some (some node)) ∧
      h'.address node = h.address ptr := by
  have hlt : size < 2 ^ 32 := hle.trans_lt (hw.filed.size_lt ptr)
  obtain ⟨h', node, heq, haddress⟩ := hw.allocateFreeArea_start hptr hend hsupply hle
  refine ⟨h', node, ?_, haddress⟩
  rw [Shm.allocAttempt, if_pos hle, Nat.mod_eq_of_lt hlt, heq]
  rfl

def Heap.allocArea (u : ℕ) (h : Heap) (size : ℕ) : Option Ref := do
  let list ← h.getFreeAreaList (size % 2 ^ 32)
  let i ← list
  let f ← h.searchList (allocAttempt u size) ⟨.free, i⟩
  f.node.map fun _ ↦ f.ptr

theorem Whole.alloc_returns (hw : Whole h g) (hend : ∀ r ∈ g, h.address r + h.size r ≤ 2 ^ u)
    (hsize : 0 < size) : ∃ h' x, h.alloc u size = some (h', x) := by
  have haligned : ∀ x e, 1 = 2 ^ e → 1 ∣ x := fun x _ _ ↦ Nat.one_dvd x
  obtain ⟨h', x, halloc, -⟩ := hw.alloc hend haligned hsize
  exact ⟨h', x, halloc⟩

theorem Whole.alloc_eq_zero (hw : Whole h g) (hsize : 0 < size) (hoffers : ¬h.Offers size) :
    h.alloc u size = some (h, 0) := by
  obtain ⟨c, hl, -⟩ := hw.filed
  have hsmall : size ≤ 0x8000 := not_lt.1 fun hgt ↦ hoffers (.inl hgt)
  rcases hl.getFreeAreaList_cases size with ⟨hnone, -⟩ | ⟨i, -, hoffers', -⟩
  · rw [Heap.alloc, if_neg hsize.ne', Nat.mod_eq_of_lt (by omega), hnone]
    rfl
  · exact absurd hoffers' hoffers

theorem Whole.alloc_eq_start (hw : Whole h g) (hend : ∀ r ∈ g, h.address r + h.size r ≤ 2 ^ u)
    (hsupply : h.supply = []) (hsize : 0 < size) (hoffers : h.Offers size)
    (hex : ∃ r ∈ h.areas g, size ≤ h.size r) :
    ∃ h' ptr, h.allocArea u size = some ptr ∧ h.alloc u size = some (h', h.address ptr) := by
  obtain ⟨c, hl, hlisted⟩ := hw.filed
  have hareas : ∀ i, ∀ r ∈ c ⟨.free, i⟩, r ∈ h.areas g := fun i r hr ↦ (hlisted .free r).1 ⟨i, hr⟩
  obtain ⟨r, hr, hfit⟩ := hex
  have hlt : size < 2 ^ 32 := hfit.trans_lt (hl.size_lt r)
  obtain ⟨-, hnot⟩ | ⟨i, hlist, -, hi⟩ := hl.getFreeAreaList_cases size
  · exact absurd hoffers hnot
  have hlist' : h.getFreeAreaList (size % 2 ^ 32) = some (some i) := by
    rw [Nat.mod_eq_of_lt hlt, hlist]
  have hstart : ∀ r ∈ c ⟨.free, i⟩, size ≤ h.size r → ∃ h' node,
      Shm.allocAttempt u size h r = some (h', some (some node)) ∧ h'.address node = h.address r := by
    intro r hr hle
    exact hw.allocAttempt_start (hareas i r hr) (hend r (hareas i r hr).1) hsupply hle
  have hstop : ∀ r ∈ c ⟨.free, i⟩, size ≤ h.size r → ∃ h' node,
      Shm.allocAttempt u size h r = some (h', some node) := by
    intro r hr hle
    obtain ⟨h', node, heq, -⟩ := hstart r hr hle
    exact ⟨h', some node, heq⟩
  have hempty : ∀ r, h.size r = 0 → Shm.allocAttempt u size h r = some (h, none) :=
    fun r hr ↦ if_neg (by omega)
  obtain ⟨f, hf, hptr, hle, hfound⟩ := hl.searchList_stops (fun r _ hnot ↦ if_neg hnot) hstop hempty
    (hl.exists_fitting hi ⟨r, (hlisted .free r).2 hr, hfit⟩)
  obtain ⟨h₁, node, heq, haddress⟩ := hstart f.ptr hptr hle
  have hnode : f.node = some node ∧ f.heap = h₁ := by
    rw [heq] at hfound
    simpa [eq_comm, and_comm] using hfound
  obtain ⟨h', x, halloc⟩ := hw.alloc_returns hend hsize
  refine ⟨h', f.ptr, ?_, ?_⟩
  · simp only [Heap.allocArea, hlist', hf, hnode.1, Option.bind_eq_bind, Option.bind_some,
      Option.map_some]
  · have hfinish : f.finish (.head ⟨.free, i⟩) = some (h', x) := by
      simpa only [Heap.alloc, if_neg hsize.ne', hlist', hf, Option.bind_eq_bind,
        Option.bind_some] using halloc
    rw [halloc, f.finish_address hnode.1 hfinish, hnode.2, haddress]

end Calls

def Heap.IsFree (h : Heap) (r : Ref) : Prop :=
  ∃ g, h.global.Ring .globalHead g ∧ r ∈ g ∧ h.tag r = .free

/-- `__alloc` returns, and it returns null only if no free area is large enough. -/
def Heap.Complete (u : ℕ) (h : Heap) (size : ℕ) : Prop :=
  ∃ h' x, h.alloc u size = some (h', x) ∧ (x = 0 → ∀ r, h.IsFree r → h.size r < size)

theorem Whole.isFree_iff {h : Heap} {g : List Ref} (hw : Whole h g) (r : Ref) :
    h.IsFree r ↔ r ∈ h.areas g := by
  constructor
  · rintro ⟨g', hring, hr⟩
    obtain rfl : g' = g := congrFun (hring.unique hw.chained.ring) ()
    exact hr
  · exact fun hr ↦ ⟨g, hw.chained.ring, hr⟩

theorem Whole.complete_iff {h : Heap} {g : List Ref} {u size : ℕ} (hw : Whole h g)
    (hend : ∀ r ∈ g, h.address r + h.size r ≤ 2 ^ u) (hsupply : h.supply = []) (hsize : 0 < size) :
    h.Complete u size ↔ (∀ r, h.IsFree r → h.size r < size) ∨
      h.Offers size ∧ ∀ ptr, h.allocArea u size = some ptr → h.address ptr ≠ 0 := by
  obtain ⟨h', x, halloc⟩ := hw.alloc_returns hend hsize
  have hcomplete : h.Complete u size ↔ (x = 0 → ∀ r, h.IsFree r → h.size r < size) := by
    simp [Heap.Complete, halloc]
  rw [hcomplete]
  by_cases hall : ∀ r, h.IsFree r → h.size r < size
  · exact ⟨fun _ ↦ .inl hall, fun _ _ ↦ hall⟩
  have hex : ∃ r ∈ h.areas g, size ≤ h.size r := by
    simpa [hw.isFree_iff, and_assoc] using hall
  rw [iff_false_intro hall, imp_false, false_or]
  by_cases hoffers : h.Offers size
  · obtain ⟨h₁, ptr, harea, heq⟩ := hw.alloc_eq_start hend hsupply hsize hoffers hex
    rw [halloc] at heq
    cases heq
    simp [hoffers, harea]
  · have heq := hw.alloc_eq_zero (u := u) hsize hoffers
    rw [halloc] at heq
    cases heq
    simp [hoffers]

def State.ready (s : State) : Heap := (s.supplied []).heap

/-- `__alloc` overlooks a free area that is large enough if the sums and last entries of the
lists let `get_free_area_list` pass over its list, and a block at address 0 looks like null. -/
theorem alloc_complete_iff {u : ℕ} {psa segment : BitVec u}
    (hseg : psa.toNat + segment.toNat ≤ 2 ^ u) (hlt : segment.toNat < 2 ^ 32)
    {calls : List (Call u × List Bool)} (hg : Along (step u) (Guarded u) (initial psa segment) calls)
    {s : State} {o : List Empty} (hs : exec (step u) (initial psa segment) calls = some (some s, o))
    {size : ℕ} (hsize : 1 ≤ size) :
    s.ready.Complete u size ↔ (∀ r, s.ready.IsFree r → s.ready.size r < size) ∨
      s.ready.Offers size ∧
        ∀ ptr, s.ready.allocArea u size = some ptr → s.ready.address ptr ≠ 0 := by
  have hlt' : psa.toNat + segment.toNat < psa.toNat + 2 ^ 32 := Nat.add_lt_add_left hlt _
  obtain ⟨_, g, ⟨⟩, hi⟩ := exec_invariant (g := Guarded u)
    (fun hk hi hs ↦ (hk.next hseg hlt' hs).2 hi) (initial_kept psa hlt) hg hs
  have hi' := hi.supplied []
  exact hi'.whole.complete_iff (fun r hr ↦ (hi'.layout.bounds hr).2.trans hseg) rfl hsize

theorem alloc_complete_iff_second :
    ∃ s o, exec (step 32) (initial 0x80001000#32 0x10000#32) [(.alloc 0x100#32, [])] =
        some (some s, o) ∧
      s.ready.Complete 32 0x200 := by
  have hrun : (exec (step 32) (initial 0x80001000#32 0x10000#32) [(.alloc 0x100#32, [])]).map
      (fun r ↦ r.1.map fun s ↦ (s.ready.size (.head ⟨.free, 8⟩),
        (s.ready.links.prev (.head ⟨.free, 8⟩)).map s.ready.size,
        (s.ready.allocArea 32 0x200).map s.ready.address)) =
      some (some (0xFF00, some 0xFF00, some 0x80001100)) := by decide +kernel
  obtain ⟨⟨t, o⟩, hs, ht⟩ := Option.map_eq_some_iff.1 hrun
  obtain ⟨s, rfl, heq⟩ := Option.map_eq_some_iff.1 ht
  obtain ⟨hsum, heq⟩ := Prod.mk.inj heq
  obtain ⟨htail, harea⟩ := Prod.mk.inj heq
  obtain ⟨tail, hprev, hsize⟩ := Option.map_eq_some_iff.1 htail
  have hg : Along (step 32) (Guarded 32) (initial 0x80001000#32 0x10000#32)
      [(.alloc 0x100#32, [])] := by
    refine Along.of_forall ?_ _
    rintro i hi (_ | s)
    · trivial
    · cases List.mem_singleton.1 hi
      trivial
  refine ⟨s, o, hs, (alloc_complete_iff (by decide) (by decide) hg hs (by decide)).2 (.inr ⟨?_, ?_⟩)⟩
  · exact .inr ⟨8, by decide, by omega, tail, hprev, by omega⟩
  · intro ptr hptr
    rw [hptr, Option.map_some, Option.some.injEq] at harea
    omega

/-- A segment of one page cannot be allocated as a whole: the sum of the list is not larger than
the page. -/
theorem alloc_overlooks_page :
    ∃ s, initial 0x80001000#32 0x1000#32 = some s ∧
      (s.ready.alloc 32 0x1000).map Prod.snd = some 0 ∧
      s.ready.IsFree (.cell 0) ∧ s.ready.size (.cell 0) = 0x1000 := by
  obtain ⟨h, hinit, hw, hblock⟩ := initializeHeap_whole 0x80001000 0x1000
  have hfree := Heap.block_eq_iff.1 hblock
  have hrun : (initializeHeap 0x80001000 0x1000).map (fun h ↦
      ((State.ready ⟨h, []⟩).alloc 32 0x1000).map Prod.snd) = some (some 0) := by decide +kernel
  rw [hinit, Option.map_some, Option.some.injEq] at hrun
  refine ⟨⟨h, []⟩, ?_, hrun, ?_, hfree.2.1⟩
  · rw [initial, show (0x80001000#32).toNat = 0x80001000 by decide,
      show (0x1000#32).toNat = 0x1000 by decide, hinit]
    rfl
  · exact ⟨[.cell 0], hw.chained.ring, List.mem_singleton_self _, hfree.2.2⟩

end EnbL1Ppc.Shm
