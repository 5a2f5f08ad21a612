import EnbL1Ppc.Core.BlockQueueDelivery

namespace EnbL1Ppc.Core.BlockQueueThreads

open Lib BlockQueue

variable {T P : Type} {w : ℕ}

section IsEmpty

theorem isEmpty_ne_zero {q : BlockQueue P w} (hs : Shaped q) (hc : Consistent q) :
    q.isEmpty ≠ 0 ↔ q.numItems = 0 ∨ q.numItems = q.len := by
  have htail := hs.tail_lt
  have hnonneg := hc.numItems_nonneg
  have hle := hc.numItems_le
  have hhead := hc.head_eq
  have hiff : q.isEmpty ≠ 0 ↔ q.head = q.tail := by
    rw [isEmpty]
    split_ifs with h <;> simp [h]
  rw [hiff]
  rcases lt_or_ge ((q.tail : ℤ) + q.numItems) q.len with hlt | hge
  · rw [Int.emod_eq_of_lt (by omega) hlt] at hhead
    omega
  · have hwrap : ((q.tail : ℤ) + q.numItems) % q.len = q.tail + q.numItems - q.len := by
      rw [← Int.sub_emod_right]
      exact Int.emod_eq_of_lt (by omega) (by omega)
    omega

theorem held_eq_nil {q : BlockQueue P w} (hc : Consistent q) : q.held = [] ↔ q.numItems = 0 := by
  have hlen := hc.length_held
  rw [← List.length_eq_zero_iff]
  omega

/-- `is_empty` compares the indices, which also agree when the ring is full: it is right about
exactly the queues that are not. -/
theorem isEmpty_right_iff [Inhabited P] [DecidableEq P] [DecidableEq T] {n : BitVec 32}
    (hn : 2 ≤ n.toNat) (hn' : n.toNat ≤ 2 ^ 30) {is : List (Input T P)}
    (hops : ∀ i ∈ is, i.Calls fun op ↦ op.isFifo = true) {s : System T P w}
    {out : List (Event T P)}
    (h : Machine.exec step (start n : System T P w) is = some (s, out)) :
    (s.queue.held = [] ↔ s.queue.numItems = 0) ∧
    ((s.queue.isEmpty ≠ 0 ↔ s.queue.held = []) ↔ s.queue.numItems ≠ s.queue.len) := by
  obtain ⟨items, ht⟩ := exec_fifo_tracks hn hn' hops h
  have hnil := held_eq_nil ht.consistent
  have hlen := ht.shaped.len_ge
  refine ⟨hnil, ?_⟩
  rw [isEmpty_ne_zero ht.shaped ht.consistent, hnil]
  omega

theorem isEmpty_right_iff_two :
    (Machine.exec step (start 2 : System ℕ ℕ 32) [.call 0 (.push 7 1)]).isSome = true ∧
      ∀ s out, Machine.exec step (start 2 : System ℕ ℕ 32) [.call 0 (.push 7 1)] = some (s, out) →
        (s.queue.held = [] ↔ s.queue.numItems = 0) ∧
        ((s.queue.isEmpty ≠ 0 ↔ s.queue.held = []) ↔ s.queue.numItems ≠ s.queue.len) :=
  ⟨rfl, fun _ _ h ↦ isEmpty_right_iff (n := 2) (by decide) (by decide)
    (by simp [Input.Calls, Op.isFifo, Op.breaks]) h⟩

/-- Two pushes fill the ring of two, which then counts as empty. -/
theorem full_isEmpty :
    (Machine.exec step (start 2 : System ℕ ℕ 32)
        [.call 0 (.tryPush 7 1), .call 0 (.tryPush 8 1)]).map
      (fun r ↦ (r.1.queue.isEmpty, r.1.queue.numItems, r.1.queue.held.map QueueItem.ptr)) =
    some (1, 2, [7, 8]) := by
  decide

end IsEmpty

section Clear

def answer (q : BlockQueue P w) : Op P → Result P → Result P
  | .push _ _, _ => .returned q.pushReturn
  | _, r => r

def answers [Inhabited P] (q : BlockQueue P w) : List (Op P) → List (Option (Result P))
  | [] => []
  | op :: ops =>
    match enter q op with
    | none => [none]
    | some (q', r) => some (answer q' op r) :: answers q' ops

def Op.isPlain : Op P → Bool
  | .push _ _ | .tryPush _ _ | .tryPop | .pop => true
  | _ => false

/-- On a fresh queue the calls are no `push`, and the first `pop` takes a `NULL`. `popped` tells
whether there was a `pop` before. -/
def Unnoticed [Inhabited P] (popped : Bool) (q : BlockQueue P w) : List (Op P) → Prop
  | [] => True
  | op :: ops =>
    match op with
    | .push _ _ => False
    | .pop =>
      (popped = false → q.numItems ≠ 0 ∧ (q.queue q.tail).ptr = default) ∧
        ∀ q' r, enter q .pop = some (q', r) → Unnoticed true q' ops
    | op => ∀ q' r, enter q op = some (q', r) → Unnoticed popped q' ops

/-- A cleared queue `c` beside a fresh one after the same calls: the same items, but the flag of
the pushes is set for good and that of the pops until the first `pop`. -/
structure Beside (popped : Bool) (q c : BlockQueue P w) : Prop where
  shaped : Shaped q
  consistent : Consistent q
  popFlag : q.popBreakFlag = false
  pushFlag : q.pushBreakFlag = false
  popFlag_cleared : c.popBreakFlag = !popped
  pushFlag_cleared : c.pushBreakFlag = true
  head : c.head = q.head
  tail : c.tail = q.tail
  len : c.len = q.len
  numItems : c.numItems = q.numItems
  accumulated : c.accumulatedItemsLen = q.accumulatedItemsLen
  held_eq : c.held = q.held

variable {popped : Bool} {q c : BlockQueue P w}

theorem Beside.shaped_cleared (h : Beside popped q c) : Shaped c where
  len_eq := h.len ▸ h.shaped.len_eq
  head_lt := by rw [h.head, h.len]; exact h.shaped.head_lt
  tail_lt := by rw [h.tail, h.len]; exact h.shaped.tail_lt
  numItems_le := by rw [h.numItems, h.len]; exact h.shaped.numItems_le

theorem Beside.consistent_cleared (h : Beside popped q c) : Consistent c where
  numItems_nonneg := h.numItems ▸ h.consistent.numItems_nonneg
  numItems_le := h.shaped_cleared.numItems_le
  head_eq := by rw [h.head, h.tail, h.numItems, h.len]; exact h.consistent.head_eq
  accumulated_eq := by rw [h.held_eq, h.accumulated]; exact h.consistent.accumulated_eq

theorem Beside.store (h : Beside popped q c) (hn : q.numItems ≠ q.len) (item : P) (itemLen : ℤ) :
    Beside popped (q.store item itemLen) (c.store item itemLen) where
  shaped := h.shaped.store hn _ _
  consistent := h.consistent.store h.shaped hn _ _
  popFlag := h.popFlag
  pushFlag := h.pushFlag
  popFlag_cleared := h.popFlag_cleared
  pushFlag_cleared := h.pushFlag_cleared
  head := by simp only [BlockQueue.store, h.head, h.len]
  tail := h.tail
  len := h.len
  numItems := by simp only [BlockQueue.store, h.numItems]
  accumulated := by simp only [BlockQueue.store, h.accumulated]
  held_eq := by
    have hn' : c.numItems ≠ c.len := by rwa [h.numItems, h.len]
    rw [held_store h.consistent hn, held_store h.consistent_cleared hn', h.held_eq]

theorem Beside.next (h : Beside popped q c) (hn : q.numItems ≠ 0) :
    c.queue c.tail = q.queue q.tail ∧ c.remove.held = q.remove.held := by
  have hheld := held_remove h.shaped_cleared h.consistent_cleared (h.numItems ▸ hn)
  rw [h.held_eq, held_remove h.shaped h.consistent hn] at hheld
  obtain ⟨hfirst, hrest⟩ := List.cons.inj hheld
  exact ⟨hfirst.symm, hrest.symm⟩

theorem Beside.remove (h : Beside popped q c) (hn : q.numItems ≠ 0) :
    Beside popped q.remove c.remove where
  shaped := h.shaped.remove
  consistent := h.consistent.remove h.shaped hn
  popFlag := h.popFlag
  pushFlag := h.pushFlag
  popFlag_cleared := h.popFlag_cleared
  pushFlag_cleared := h.pushFlag_cleared
  head := h.head
  tail := by simp only [BlockQueue.remove, h.tail, h.len]
  len := h.len
  numItems := by simp only [BlockQueue.remove, h.numItems]
  accumulated := by simp only [BlockQueue.remove, h.accumulated, (h.next hn).1]
  held_eq := (h.next hn).2

variable [Inhabited P]

theorem Beside.pop (h : Beside popped q c) (hn : q.numItems ≠ 0) :
    Beside true q.popBody.1 c.popBody.1 := by
  have hr := h.remove hn
  rw [popBody_of_calm h.popFlag]
  exact ⟨hr.shaped, hr.consistent, hr.popFlag, hr.pushFlag, rfl, hr.pushFlag_cleared, hr.head,
    hr.tail, hr.len, hr.numItems, hr.accumulated, hr.held_eq⟩

theorem Beside.enter_tryPush (h : Beside popped q c) (item : P) (itemLen : ℤ) :
    ∃ q' c' r, enter q (.tryPush item itemLen) = some (q', r) ∧
      enter c (.tryPush item itemLen) = some (c', r) ∧ Beside popped q' c' := by
  by_cases hn : q.numItems = q.len
  · refine ⟨q, c, .stored false, ?_, ?_, h⟩
    · simp [enter, BlockQueue.tryPush, hn]
    · simp [enter, BlockQueue.tryPush, h.numItems, h.len, hn]
  · refine ⟨_, _, .stored true, ?_, ?_, h.store hn item itemLen⟩
    · simp [enter, BlockQueue.tryPush, hn]
    · simp [enter, BlockQueue.tryPush, h.numItems, h.len, hn]

theorem Beside.enter_tryPop (h : Beside popped q c) :
    ∃ q' c' r, enter q .tryPop = some (q', r) ∧ enter c .tryPop = some (c', r) ∧
      Beside popped q' c' := by
  by_cases hn : q.numItems = 0
  · refine ⟨q, c, .fetched none, ?_, ?_, h⟩
    · simp [enter, BlockQueue.tryPop, hn]
    · simp [enter, BlockQueue.tryPop, h.numItems, hn]
  · refine ⟨_, _, .fetched (some (q.queue q.tail).ptr), ?_, ?_, h.remove hn⟩
    · simp [enter, BlockQueue.tryPop, hn]
    · simp [enter, BlockQueue.tryPop, h.numItems, hn, (h.next hn).1]

theorem Beside.enter_pop (h : Beside popped q c) (hn : q.numItems ≠ 0) :
    enter q .pop = some (q.popBody.1, .item (q.queue q.tail).ptr) ∧
      enter c .pop = some (c.popBody.1,
        .item (if popped then (q.queue q.tail).ptr else default)) := by
  constructor
  · simp [enter, BlockQueue.pop, hn, popBody, h.popFlag]
  · cases popped <;>
      simp [enter, BlockQueue.pop, h.numItems, hn, popBody, h.popFlag_cleared, (h.next hn).1]

theorem Beside.push_noticed (h : Beside popped q c) (item : P) (itemLen : ℤ) (ops : List (Op P)) :
    answers c (.push item itemLen :: ops) ≠ answers q (.push item itemLen :: ops) := by
  have hc : enter c (.push item itemLen) = some (c, .stored false) := by
    simp [enter, BlockQueue.push, pushBody, h.pushFlag_cleared]
  by_cases hn : q.numItems = q.len
  · have hq : enter q (.push item itemLen) = none := by
      simp [enter, BlockQueue.push, hn, h.pushFlag]
    simp [answers, hc, hq]
  · have hq : enter q (.push item itemLen) = some (q.store item itemLen, .stored true) := by
      simp [enter, BlockQueue.push, pushBody, hn, h.pushFlag]
    simp [answers, hc, hq, answer, pushReturn, h.pushFlag_cleared, h.pushFlag, BlockQueue.store]

theorem answers_eq_iff (ops : List (Op P)) (hops : ∀ op ∈ ops, op.isPlain = true)
    (h : Beside popped q c) : answers c ops = answers q ops ↔ Unnoticed popped q ops := by
  induction ops generalizing popped q c with
  | nil => simp [answers, Unnoticed]
  | cons op ops ih =>
    replace ih {popped : Bool} {q c : BlockQueue P w} (h : Beside popped q c) :=
      ih (fun op hop ↦ hops op (List.mem_cons_of_mem _ hop)) h
    cases op with
    | push item itemLen => exact iff_of_false (h.push_noticed item itemLen ops) id
    | tryPush item itemLen =>
      obtain ⟨q', c', r, hq, hc, h'⟩ := h.enter_tryPush item itemLen
      simp [answers, Unnoticed, hc, hq, answer, ih h']
    | tryPop =>
      obtain ⟨q', c', r, hq, hc, h'⟩ := h.enter_tryPop
      simp [answers, Unnoticed, hc, hq, answer, ih h']
    | pop =>
      by_cases hn : q.numItems = 0
      · have hq : enter q .pop = none := by simp [enter, BlockQueue.pop, hn, h.popFlag]
        cases popped with
        | false =>
          have hc : enter c .pop = some (c.popBody.1, .item c.popBody.2) := by
            simp [enter, BlockQueue.pop, h.popFlag_cleared]
          simp [answers, Unnoticed, hc, hq, hn]
        | true =>
          have hc : enter c .pop = none := by
            simp [enter, BlockQueue.pop, h.numItems, hn, h.popFlag_cleared]
          simp [answers, Unnoticed, hc, hq]
      · obtain ⟨hq, hc⟩ := h.enter_pop hn
        simp only [answers, Unnoticed, hc, hq, answer, List.cons.injEq, Option.some.injEq,
          Result.item.injEq, ih (h.pop hn), Prod.mk.injEq, and_imp]
        cases popped <;> simp [hn, eq_comm]
    | _ => simp [Op.isPlain] at hops

/-- After `clear` both break flags stay set, so that the queue answers like a new one only to
calls without a `push` whose first `pop`, if any, takes a `NULL`. -/
theorem clear_fresh_iff [DecidableEq T] {n : BitVec 32} (hn : 2 ≤ n.toNat) (hn' : n.toNat ≤ 2 ^ 30)
    {is : List (Input T P)} {s : System T P w} {out : List (Event T P)}
    (h : Machine.exec step (start n : System T P w) is = some (s, out)) (ops : List (Op P))
    (hops : ∀ op ∈ ops, op.isPlain = true) :
    answers s.queue.clear ops = answers (init n : BlockQueue P w) ops ↔
      Unnoticed false (init n : BlockQueue P w) ops := by
  refine answers_eq_iff ops hops ?_
  exact ⟨init_shaped hn hn', init_consistent n, rfl, rfl, rfl, rfl, rfl, rfl, exec_len h, rfl, rfl,
    rfl⟩

theorem clear_fresh_iff_two :
    (Machine.exec step (start 2 : System ℕ ℕ 32) [.call 0 (.push 7 1)]).isSome = true ∧
      ∀ s out, Machine.exec step (start 2 : System ℕ ℕ 32) [.call 0 (.push 7 1)] = some (s, out) →
        (answers s.queue.clear [.tryPush 8 1, .tryPop] =
            answers (init 2 : BlockQueue ℕ 32) [.tryPush 8 1, .tryPop] ↔
          Unnoticed false (init 2 : BlockQueue ℕ 32) [.tryPush 8 1, .tryPop]) :=
  ⟨rfl, fun _ _ h ↦ clear_fresh_iff (n := 2) (by decide) (by decide) h _ (by simp [Op.isPlain])⟩

/-- A new queue takes two items, a cleared one none. -/
theorem cleared_refuses_push :
    answers (init 2 : BlockQueue ℕ 32).clear [.push 7 1, .push 8 1] =
      [some (.returned false), some (.returned false)] ∧
    answers (init 2 : BlockQueue ℕ 32) [.push 7 1, .push 8 1] =
      [some (.returned true), some (.returned true)] ∧
    answers (init 2 : BlockQueue ℕ 32).clear [.push 7 1, .push 8 1] ≠
      answers (init 2 : BlockQueue ℕ 32) [.push 7 1, .push 8 1] := by
  refine ⟨rfl, rfl, fun h ↦ ?_⟩
  have hfirst := List.cons.inj (show [some (Result.returned false), some (.returned false)] =
    [some (Result.returned true : Result ℕ), some (.returned true)] from h)
  simp at hfirst

end Clear

end EnbL1Ppc.Core.BlockQueueThreads
