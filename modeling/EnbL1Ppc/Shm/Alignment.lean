import EnbL1Ppc.Shm.Areas

namespace EnbL1Ppc.Shm

open Lib Lib.Tiling

section Arithmetic

variable {u addr align x m : ℕ}

theorem sub_le_clear (x m : ℕ) : x - m ≤ clear x m :=
  Nat.sub_le_sub_left Nat.and_le_right x

theorem clear_le (x m : ℕ) : clear x m ≤ x :=
  Nat.sub_le ..

theorem two_pow_dvd_clear (x e : ℕ) : 2 ^ e ∣ clear x (2 ^ e - 1) := by
  rw [clear, Nat.and_two_pow_sub_one_eq_mod]
  exact Nat.dvd_sub_mod x

theorem lt_alignUp (halign : 0 < align) (hlt : addr + align < 2 ^ u) :
    addr < alignUp u addr align := by
  have h := sub_le_clear (addr + align) (align - 1)
  rw [alignUp, Nat.mod_eq_of_lt hlt]
  omega

theorem alignUp_lt (halign : align < 2 ^ u) (haddr : addr < 2 ^ u) (hge : 2 ^ u ≤ addr + align) :
    alignUp u addr align < addr := by
  have hmod : (addr + align) % 2 ^ u = addr + align - 2 ^ u := by
    rw [Nat.mod_eq_sub_mod hge, Nat.mod_eq_of_lt (by omega)]
  have h := clear_le (addr + align - 2 ^ u) (align - 1)
  rw [alignUp, hmod]
  omega

theorem two_pow_dvd_alignUp (u addr e : ℕ) : 2 ^ e ∣ alignUp u addr (2 ^ e) :=
  two_pow_dvd_clear ..

theorem Heap.StartsAligned.dvd {h : Heap} {ptr : Ref} {e : ℕ} (hs : h.StartsAligned ptr (2 ^ e)) :
    2 ^ e ∣ h.address ptr := by
  rcases hs with hs | ⟨-, hs⟩
  · exact hs ▸ Nat.dvd_zero _
  · exact hs ▸ two_pow_dvd_clear ..

end Arithmetic

section Pieces

variable {a s x size : ℕ}

theorem layout_start (h : size ≤ s) :
    Layout a (a + s) [⟨a, size, .allocated⟩, ⟨a + size, s - size, .free⟩] := by
  refine ⟨⟨rfl, rfl, ?_⟩, by simp⟩
  change a + size + (s - size) = a + s
  omega

theorem layout_end (hx : a ≤ x) (h : x + size = a + s) :
    Layout a (a + s) [⟨a, s - size, .free⟩, ⟨x, size, .allocated⟩] := by
  refine ⟨⟨rfl, ?_, ?_⟩, by simp⟩
  · change x = a + (s - size)
    omega
  · change a + (s - size) + size = a + s
    omega

theorem layout_middle (hx : a ≤ x) (h : x + size ≤ a + s) :
    Layout a (a + s) [⟨a, x - a, .free⟩, ⟨x, size, .allocated⟩,
      ⟨x + size, a + s - (x + size), .free⟩] := by
  refine ⟨⟨rfl, ?_, ?_, ?_⟩, by simp⟩
  · change x = a + (x - a)
    omega
  · change x + size = a + (x - a) + size
    omega
  · change a + (x - a) + size + (a + s - (x + size)) = a + s
    omega

end Pieces

/-- The blocks into which `do_align_valloc` cuts the area at `addr` of size `s` for a block of
size `size` at `x`. -/
def cutBlocks (u addr s x size : ℕ) : List Block :=
  let y := (x + size) % 2 ^ u
  let z := (addr + s) % 2 ^ u
  if y = z then [⟨addr, (s + 2 ^ 32 - size) % 2 ^ 32, .free⟩, ⟨x, size, .allocated⟩]
  else [⟨addr, ((s + 2 ^ 32 - size) % 2 ^ 32 + 2 ^ 32 - (z - y) % 2 ^ 32) % 2 ^ 32, .free⟩,
    ⟨x, size, .allocated⟩, ⟨y, (z - y) % 2 ^ 32, .free⟩]

section CutBlocks

variable {u addr s x size : ℕ}

theorem cutBlocks_layout (hs : s < 2 ^ 32) (hend : addr + s < 2 ^ u) (hx : addr ≤ x)
    (hsum : x + size < 2 ^ u) (hle : (x + size) % 2 ^ u ≤ (addr + s) % 2 ^ u) :
    Layout addr (addr + s) (cutBlocks u addr s x size) := by
  rw [Nat.mod_eq_of_lt hsum, Nat.mod_eq_of_lt hend] at hle
  simp only [cutBlocks, Nat.mod_eq_of_lt hsum, Nat.mod_eq_of_lt hend]
  have hsize : (s + 2 ^ 32 - size) % 2 ^ 32 = s - size := by omega
  rw [hsize]
  split
  · next heq => exact layout_end hx heq
  · have hrest : (addr + s - (x + size)) % 2 ^ 32 = addr + s - (x + size) := by omega
    have hleft : (s - size + 2 ^ 32 - (addr + s - (x + size))) % 2 ^ 32 = x - addr := by omega
    rw [hrest, hleft]
    exact layout_middle hx hle

theorem cutBlocks_not_tiles (hend : addr + s < 2 ^ u) (hsize : size < 2 ^ u)
    (hx : x < (addr + s) % 2 ^ u) (hbad : x < addr ∨ 2 ^ u ≤ x + size) (a b : ℕ) :
    ¬ Tiles Block.address Block.size a (cutBlocks u addr s x size) b := by
  rw [Nat.mod_eq_of_lt hend] at hx
  simp only [cutBlocks, Nat.mod_eq_of_lt hend]
  split
  · next heq =>
    rintro ⟨rfl, hxa, -⟩
    rcases hbad with hbad | hbad
    · exact absurd hxa (Nat.lt_add_right _ hbad).ne
    · rw [Nat.mod_eq_sub_mod hbad, Nat.mod_eq_of_lt (by omega)] at heq
      omega
  · rintro ⟨rfl, hxa, hya, -⟩
    rcases hbad with hbad | hbad
    · exact absurd hxa (Nat.lt_add_right _ hbad).ne
    · rw [← hxa] at hya
      have hlt : (x + size) % 2 ^ u < x + size := (Nat.mod_lt _ (Nat.two_pow_pos u)).trans_le hbad
      exact absurd hya hlt.ne

end CutBlocks

def Heap.AlignsWithin (u : ℕ) (h : Heap) (ptr : Ref) (align size : ℕ) : Prop :=
  h.StartsAligned ptr align ∨
    h.address ptr + align < 2 ^ u ∧ alignUp u (h.address ptr) align + size < 2 ^ u

instance (u : ℕ) (h : Heap) (ptr : Ref) (align size : ℕ) :
    Decidable (h.AlignsWithin u ptr align size) :=
  inferInstanceAs (Decidable (_ ∨ _))

section

variable {h h' : Heap} {g₁ g₂ : List Ref} {ptr : Ref} {u align size : ℕ}

theorem Whole.allocate (hw : Whole h (g₁ ++ ptr :: g₂)) (hfree : h.tag ptr = .free)
    (hsize : size ≤ h.size ptr) (hend : h.address ptr + h.size ptr ≤ 2 ^ u) :
    ∃ h' a, h.allocateFreeArea u ptr size = some (h', a) ∧ (a = none ∧ h.Grows h' ∨
      ∃ ns r, a = some r ∧ Taken h g₁ g₂ (h.address ptr) size h' ns r ∧
        Layout (h.address ptr) (h.address ptr + h.size ptr) (ns.map h'.block)) := by
  rcases hsize.eq_or_lt with rfl | hlt
  · obtain ⟨h', heq, ht⟩ := hw.allocate_all (u := u) hfree rfl
    refine ⟨h', some ptr, heq, .inr ⟨[ptr], ptr, rfl, ht, ?_⟩⟩
    rw [List.map_singleton, ht.block]
    exact ⟨⟨rfl, rfl⟩, by simp⟩
  · obtain ⟨h', a, heq, ⟨rfl, hg⟩ | ⟨rfl, ht, hptr⟩⟩ := hw.allocate_part (u := u) hfree hlt
    · exact ⟨h', none, heq, .inl ⟨rfl, hg⟩⟩
    · refine ⟨h', _, heq, .inr ⟨_, _, rfl, ht, ?_⟩⟩
      have hmod : (h.address ptr + size) % 2 ^ u = h.address ptr + size :=
        Nat.mod_eq_of_lt (by omega)
      rw [List.map_cons, List.map_singleton, ht.block, hptr, hmod]
      exact layout_start hsize

theorem Whole.cut (hw : Whole h (g₁ ++ ptr :: g₂)) (hfree : h.tag ptr = .free)
    (hsize : size ≤ h.size ptr) (hstart : ¬ h.StartsAligned ptr align)
    (hfits : h.FitsAligned u ptr align size) :
    ∃ h' a, h.doAlignValloc u ptr align size = some (h', a) ∧ (a = none ∧ h.Grows h' ∨
      ∃ ns r, a = some r ∧ Taken h g₁ g₂ (alignUp u (h.address ptr) align) size h' ns r ∧
        ns.map h'.block =
          cutBlocks u (h.address ptr) (h.size ptr) (alignUp u (h.address ptr) align) size) := by
  have hmem : ptr ∈ g₁ ++ ptr :: g₂ := by simp
  have hlt : size < 2 ^ 32 := hsize.trans_lt (hw.filed.size_lt ptr)
  set x := alignUp u (h.address ptr) align with hx
  set y := (x + size) % 2 ^ u with hy
  set z := (h.address ptr + h.size ptr) % 2 ^ u with hz
  simp only [Heap.doAlignValloc, if_neg hsize.not_gt, if_neg hstart, if_pos hfits, ← hx, ← hy, ← hz,
    Nat.mod_eq_of_lt hlt]
  rcases h.kmalloc_cases with ⟨h₀, hkm, hg⟩ | ⟨h₀, hkm, hg, hcells, -⟩
  · rw [hkm]
    exact ⟨h₀, none, rfl, .inl ⟨rfl, hg⟩⟩
  rw [hkm]
  dsimp only
  have hg₁ := hg.set le_rfl x hlt .allocated
  have hcell : Ref.cell h.cells ∉ g₁ ++ ptr :: g₂ := hw.new_not_mem le_rfl
  have hnew : (h₀.set (.cell h.cells) x size .allocated).block (.cell h.cells) = ⟨x, size, _⟩ :=
    Heap.set_block ..
  have hcells₁ : (h₀.set (.cell h.cells) x size .allocated).cells = h.cells + 1 := hcells
  set h₁ := h₀.set (.cell h.cells) x size .allocated
  split
  · next heq =>
    obtain ⟨haddress, hptr, htag⟩ := Heap.block_congr (hw.grows_block hg₁ hmem)
    obtain ⟨h', hcarve, ht, hleft⟩ :=
      Whole.carve_end (hw.grows hg₁) (htag.trans hfree) (by omega) hcell hnew
    refine ⟨h', _, hcarve, .inr ⟨_, _, rfl, ht.of_grows hw hg₁, ?_⟩⟩
    rw [List.map_cons, List.map_singleton, ht.block, hleft, Heap.sizeLeft, haddress, hptr,
      (Heap.block_eq_iff.1 hnew).2.1, cutBlocks, if_pos heq]
  · next hne =>
    rcases h₁.kmalloc_cases with ⟨h₂, hkm', hg'⟩ | ⟨h₂, hkm', hg', hcells', hsame⟩
    · rw [hkm']
      exact ⟨h₂, none, rfl, .inl ⟨rfl, hg₁.trans hg'⟩⟩
    rw [hkm']
    dsimp only
    have hrest : (z - y) % 2 ^ 32 < 2 ^ 32 := Nat.mod_lt _ (Nat.two_pow_pos 32)
    have hg₂ := (hg₁.trans hg').set hg₁.cells y hrest .free
    have hne' : Ref.cell h.cells ≠ .cell h₁.cells := by
      rw [hcells₁, Ne, Ref.cell.injEq]
      omega
    have hnew₂ : (h₂.set (.cell h₁.cells) y ((z - y) % 2 ^ 32) .free).block (.cell h.cells) =
        ⟨x, size, .allocated⟩ :=
      (Heap.set_block_of_ne hne').trans ((hsame _).trans hnew)
    have hlast : (h₂.set (.cell h₁.cells) y ((z - y) % 2 ^ 32) .free).block (.cell h₁.cells) =
        ⟨y, (z - y) % 2 ^ 32, .free⟩ := Heap.set_block ..
    have hcells₃ : (h₂.set (.cell h₁.cells) y ((z - y) % 2 ^ 32) .free).cells = h₁.cells + 1 :=
      hcells'
    set h₃ := h₂.set (.cell h₁.cells) y ((z - y) % 2 ^ 32) .free
    obtain ⟨haddress, hptr, htag⟩ := Heap.block_congr (hw.grows_block hg₂ hmem)
    obtain ⟨h', hcarve, ht, hblock, hleft⟩ :=
      Whole.carve_middle (hw.grows hg₂) (htag.trans hfree) (by omega) hcell hnew₂ (by omega)
        (hw.new_not_mem hg₁.cells) (by omega) (Heap.block_eq_iff.1 hlast).2.2
    refine ⟨h', _, hcarve, .inr ⟨_, _, rfl, ht.of_grows hw hg₂, ?_⟩⟩
    rw [List.map_cons, List.map_cons, List.map_singleton, ht.block, hblock, hleft, hlast,
      Heap.sizeLeft, haddress, hptr, (Heap.block_eq_iff.1 hnew₂).2.1,
      (Heap.block_eq_iff.1 hlast).2.1, cutBlocks, if_neg hne]

end

/-- The call has allocated the block of size `size` at `x`. If `fits` holds, the block and what
is left of the area fill the area, and the block is aligned. Otherwise they do not even lie one
after the other. -/
structure Serves (h : Heap) (g : List Ref) (ptr : Ref) (align size : ℕ) (fits : Prop) (h' : Heap)
    (x : ℕ) : Prop where
  free : h.tag ptr = .free
  split : ∃ g₁ g₂ ns a, g = g₁ ++ ptr :: g₂ ∧ Taken h g₁ g₂ x size h' ns a ∧
    (fits → Layout (h.address ptr) (h.address ptr + h.size ptr) (ns.map h'.block)) ∧
    (¬ fits → ∀ a b, ¬ Tiles Block.address Block.size a (ns.map h'.block) b)
  aligned : fits → ∀ e, align = 2 ^ e → align ∣ x

section

variable {h h' : Heap} {g g₁ g₂ : List Ref} {ptr : Ref} {u align size : ℕ}

theorem Whole.allocateFreeArea_serves (hw : Whole h g) (hptr : ptr ∈ g) (hfree : h.tag ptr = .free)
    (hsize : size ≤ h.size ptr) (hend : h.address ptr + h.size ptr ≤ 2 ^ u) {fits : Prop}
    (hfits : fits) (haligned : ∀ e, align = 2 ^ e → align ∣ h.address ptr) :
    ∃ h' a, h.allocateFreeArea u ptr size = some (h', a) ∧ (a = none ∧ h.Grows h' ∨
      ∃ r, a = some r ∧ Serves h g ptr align size fits h' (h'.address r)) := by
  obtain ⟨g₁, g₂, rfl⟩ := List.append_of_mem hptr
  obtain ⟨h', a, heq, hg | ⟨ns, r, rfl, ht, hl⟩⟩ := hw.allocate hfree hsize hend
  · exact ⟨h', a, heq, .inl hg⟩
  · have haddress := (Heap.block_eq_iff.1 ht.block).1
    rw [← haddress] at ht haligned
    exact ⟨h', some r, heq, .inr ⟨r, rfl, hfree, ⟨g₁, g₂, ns, r, rfl, ht, fun _ ↦ hl,
      fun hn ↦ absurd hfits hn⟩, fun _ ↦ haligned⟩⟩

theorem Whole.doAlignValloc_serves (hw : Whole h g) (hptr : ptr ∈ g) (hfree : h.tag ptr = .free)
    (hpos : 0 < align) (halign : align < 2 ^ u) (hend : h.address ptr + h.size ptr ≤ 2 ^ u)
    (size : ℕ) :
    ∃ h' a, h.doAlignValloc u ptr align size = some (h', a) ∧ (a = none ∧ h.Grows h' ∨
      ∃ r, a = some r ∧
        Serves h g ptr align size (h.AlignsWithin u ptr align size) h' (h'.address r)) := by
  by_cases hsize : h.size ptr < size
  · exact ⟨h, none, if_pos hsize, .inl ⟨rfl, .refl h⟩⟩
  have hle : size ≤ h.size ptr := not_lt.1 hsize
  by_cases hstart : h.StartsAligned ptr align
  · have hlt : size < 2 ^ 32 := hle.trans_lt (hw.filed.size_lt ptr)
    rw [Heap.doAlignValloc, if_neg hsize, if_pos hstart, Nat.mod_eq_of_lt hlt]
    refine hw.allocateFreeArea_serves hptr hfree hle hend (.inl hstart) ?_
    rintro e rfl
    exact hstart.dvd
  by_cases hfits : h.FitsAligned u ptr align size
  · obtain ⟨g₁, g₂, rfl⟩ := List.append_of_mem hptr
    obtain ⟨h', a, heq, hg | ⟨ns, r, rfl, ht, hblocks⟩⟩ := hw.cut hfree hle hstart hfits
    · exact ⟨h', a, heq, .inl hg⟩
    obtain ⟨hx, hy⟩ := hfits
    have haddress := (Heap.block_eq_iff.1 ht.block).1
    have hend' : h.address ptr + h.size ptr < 2 ^ u := by
      refine hend.lt_of_ne fun heq ↦ ?_
      rw [heq, Nat.mod_self] at hx
      exact Nat.not_lt_zero _ hx
    refine ⟨h', _, heq, .inr ⟨r, rfl, hfree, ⟨g₁, g₂, ns, r, rfl, haddress ▸ ht, fun hfit ↦ ?_,
      fun hfit ↦ ?_⟩, fun _ e he ↦ ?_⟩⟩
    · obtain ⟨hsum, hsum'⟩ := hfit.resolve_left hstart
      rw [hblocks]
      exact cutBlocks_layout (hw.filed.size_lt ptr) hend' (lt_alignUp hpos hsum).le hsum' hy
    · rw [hblocks]
      refine cutBlocks_not_tiles hend' (by omega) hx ?_
      by_cases hsum : h.address ptr + align < 2 ^ u
      · exact .inr (not_lt.1 fun hsum' ↦ hfit (.inr ⟨hsum, hsum'⟩))
      · exact .inl (alignUp_lt halign (by omega) (not_lt.1 hsum))
    · rw [haddress, he]
      exact two_pow_dvd_alignUp ..
  · refine ⟨h, none, ?_, .inl ⟨rfl, .refl h⟩⟩
    rw [Heap.doAlignValloc, if_neg hsize, if_neg hstart, if_neg hfits]

end

end EnbL1Ppc.Shm
