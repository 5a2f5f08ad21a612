import EnbL1Ppc.Core.BlockQueueInvariant

namespace EnbL1Ppc.Core.BlockQueue

variable {P : Type} {w : ℕ}

/-- A queue without a break, and the item pointers that it holds, oldest first. -/
structure Contains (q : BlockQueue P w) (items : List P) : Prop where
  shaped : Shaped q
  consistent : Consistent q
  popBreakFlag : q.popBreakFlag = false
  pushBreakFlag : q.pushBreakFlag = false
  items_eq : q.held.map QueueItem.ptr = items

theorem init_contains [Inhabited P] {n : BitVec 32} (hn : 2 ≤ n.toNat) (hn' : n.toNat ≤ 2 ^ 30) :
    Contains (init n : BlockQueue P w) [] :=
  ⟨init_shaped hn hn', init_consistent n, rfl, rfl, rfl⟩

section Contains

variable {q : BlockQueue P w} {items : List P} {p : P}

theorem Contains.length_eq (h : Contains q items) : q.numItems = items.length := by
  rw [← h.items_eq, List.length_map, h.consistent.length_held]

theorem Contains.store (h : Contains q items) (hn : q.numItems ≠ q.len) (itemLen : ℤ) :
    Contains (q.store p itemLen) (items ++ [p]) := by
  refine ⟨h.shaped.store hn p itemLen, h.consistent.store h.shaped hn p itemLen, h.popBreakFlag,
    h.pushBreakFlag, ?_⟩
  rw [held_store h.consistent hn, List.map_append, h.items_eq]
  rfl

theorem Contains.push_eq (h : Contains q items) (itemLen : ℤ) :
    q.push p itemLen = if q.numItems = q.len then none else some (q.store p itemLen, true) := by
  simp [push, pushBody, h.pushBreakFlag]

theorem Contains.remove (h : Contains q (p :: items)) :
    (q.queue q.tail).ptr = p ∧ Contains q.remove items := by
  have hn : q.numItems ≠ 0 := by
    rw [h.length_eq, List.length_cons]
    omega
  have hheld := h.items_eq
  rw [held_remove h.shaped h.consistent hn, List.map_cons, List.cons.injEq] at hheld
  exact ⟨hheld.1, h.shaped.remove, h.consistent.remove h.shaped hn, h.popBreakFlag,
    h.pushBreakFlag, hheld.2⟩

theorem Contains.tryPop_nil (h : Contains q []) : q.tryPop = (q, none) :=
  if_pos h.length_eq

theorem Contains.tryPop_cons (h : Contains q (p :: items)) :
    q.tryPop = (q.remove, some p) := by
  rw [tryPop, if_neg (by rw [h.length_eq, List.length_cons]; omega), h.remove.1]

variable [Inhabited P]

theorem Contains.pop_nil (h : Contains q []) : q.pop = none :=
  if_pos ⟨h.length_eq, by simp [h.popBreakFlag]⟩

theorem Contains.pop_cons (h : Contains q (p :: items)) : q.pop = some (q.remove, p) := by
  have hq : { q.remove with popBreakFlag := false } = q.remove := by
    rw [← h.popBreakFlag]
    rfl
  have hn : ¬ (q.numItems = 0 ∧ !q.popBreakFlag) := by
    rw [h.length_eq, List.length_cons]
    omega
  rw [pop, if_neg hn, popBody, hq, h.popBreakFlag, h.remove.1]
  rfl

end Contains

end EnbL1Ppc.Core.BlockQueue
