import EnbL1Ppc.Lib.Tiling
import EnbL1Ppc.Shm.Heap

namespace EnbL1Ppc.Shm

open Lib.Tiling

structure Block where
  address : ℕ
  size : ℕ
  kind : Kind

/-- The areas of a segment from `a` to `b`: no gap, no overlap, and no two free areas side by
side. -/
structure Layout (a b : ℕ) (bs : List Block) : Prop where
  tiles : Tiles Block.address Block.size a bs b
  apart : bs.IsChain fun x y ↦ ¬ (x.kind = .free ∧ y.kind = .free)

section

variable {a b : ℕ} {x y : Block} {as bs cs : List Block}

theorem Layout.before (h : Layout a b (as ++ x :: bs)) (hx : x.kind = .free) :
    ∀ y ∈ as.getLast?, y.kind ≠ .free :=
  fun y hy hfree ↦ (List.isChain_append.1 h.apart).2.2 y hy x rfl ⟨hfree, hx⟩

theorem Layout.after (h : Layout a b (as ++ x :: bs)) (hx : x.kind = .free) :
    ∀ y ∈ bs.head?, y.kind ≠ .free :=
  fun y hy hfree ↦ (List.isChain_cons.1 (List.isChain_append.1 h.apart).2.1).1 y hy ⟨hx, hfree⟩

theorem Layout.replace (h : Layout a b (as ++ x :: bs)) (hx : x.kind = .free)
    (hc : Layout x.address (x.address + x.size) cs) : Layout a b (as ++ (cs ++ bs)) := by
  obtain ⟨m, has, rfl, hbs⟩ := tiles_append.1 h.tiles
  obtain ⟨hchain, hxs, -⟩ := List.isChain_append.1 h.apart
  refine ⟨tiles_append.2 ⟨_, has, tiles_append.2 ⟨_, hc.tiles, hbs⟩⟩, ?_⟩
  refine List.isChain_append.2 ⟨hchain, List.isChain_append.2 ⟨hc.apart, hxs.tail, ?_⟩, ?_⟩
  · exact fun _ _ z hz hfree ↦ h.after hx z hz hfree.2
  · exact fun z hz _ _ hfree ↦ h.before hx z hz hfree.1

theorem Layout.join (h : Layout a b (as ++ (x :: cs ++ bs))) (haddress : y.address = x.address)
    (hsize : y.size = ((x :: cs).map Block.size).sum)
    (hbefore : ∀ z ∈ as.getLast?, z.kind ≠ .free) (hafter : ∀ z ∈ bs.head?, z.kind ≠ .free) :
    Layout a b (as ++ y :: bs) := by
  obtain ⟨m, has, htail⟩ := tiles_append.1 h.tiles
  obtain ⟨n, hcs, hbs⟩ := tiles_append.1 htail
  obtain ⟨hchain, htail, -⟩ := List.isChain_append.1 h.apart
  obtain ⟨-, hchain', -⟩ := List.isChain_append.1 htail
  rw [hcs.eq_add_sum, ← hsize] at hbs
  refine ⟨tiles_append.2 ⟨_, has, haddress.trans hcs.1, hbs⟩, ?_⟩
  refine List.isChain_append.2 ⟨hchain, List.isChain_cons.2 ⟨?_, hchain'⟩, ?_⟩
  · exact fun z hz hfree ↦ hafter z hz hfree.2
  · exact fun z hz _ _ hfree ↦ hbefore z hz hfree.1

end

end EnbL1Ppc.Shm
