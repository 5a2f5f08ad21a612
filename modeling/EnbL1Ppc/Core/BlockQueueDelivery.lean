import EnbL1Ppc.Core.BlockQueueInvariant
import EnbL1Ppc.Core.BlockQueueThreads
import EnbL1Ppc.Lib.Fifo

namespace EnbL1Ppc.Core.BlockQueueThreads

open Lib BlockQueue

variable {T P : Type} {w : ℕ}

def Op.breaks : Op P → Bool
  | .breakPop | .breakPush | .breakBoth | .clear => true
  | _ => false

def Op.isFifo : Op P → Bool
  | .popLast => false
  | op => !op.breaks

def Op.isPop : Op P → Bool
  | .pop | .popLast => true
  | _ => false

def Input.Calls (ok : Op P → Prop) : Input T P → Prop
  | .call _ op => ok op
  | _ => True

def Event.pushed : Event T P → Option (P × ℤ)
  | ⟨_, .push item itemLen, .stored true⟩ => some (item, itemLen)
  | ⟨_, .tryPush item itemLen, .stored true⟩ => some (item, itemLen)
  | _ => none

def Event.popped : Event T P → Option P
  | ⟨_, _, .fetched (some p)⟩ => some p
  | ⟨_, _, .item p⟩ => some p
  | _ => none

def Event.observe : Event T P → List (Fifo.Event P)
  | ⟨_, .push item _, .stored true⟩ => [.put item]
  | ⟨_, .tryPush item _, .stored true⟩ => [.put item]
  | ⟨_, .tryPush _ _, .stored false⟩ => [.full]
  | ⟨_, .tryPop, .fetched none⟩ => [.empty]
  | ⟨_, _, .fetched (some p)⟩ => [.get p]
  | ⟨_, _, .item p⟩ => [.get p]
  | _ => []

/-- The items accepted by `push` and `try_push`, with their lengths, in the order of the
critical sections. -/
def pushed (out : List (Event T P)) : List (P × ℤ) := out.filterMap Event.pushed

def popped (out : List (Event T P)) : List P := out.filterMap Event.popped

def remaining (out : List (Event T P)) : List (P × ℤ) := (pushed out).drop (popped out).length

def toItem (w : ℕ) (a : P × ℤ) : QueueItem P w := ⟨a.1, BitVec.ofInt w a.2⟩

@[simp] theorem pushed_append (out o : List (Event T P)) :
    pushed (out ++ o) = pushed out ++ pushed o := by simp [pushed]

@[simp] theorem popped_append (out o : List (Event T P)) :
    popped (out ++ o) = popped out ++ popped o := by simp [popped]

@[simp] theorem pushed_singleton (e : Event T P) : pushed [e] = e.pushed.toList := by
  cases h : e.pushed <;> simp [pushed, h]

@[simp] theorem popped_singleton (e : Event T P) : popped [e] = e.popped.toList := by
  cases h : e.popped <;> simp [popped, h]

theorem sum_len_toItem (items : List (P × ℤ)) :
    ((items.map (toItem w)).map QueueItem.len).sum = BitVec.ofInt w (items.map Prod.snd).sum := by
  induction items with
  | nil => simp
  | cons a items ih =>
    simp only [List.map_cons, List.sum_cons, ih, BitVec.ofInt_add, toItem]

/-- The queue holds, in order, the accepted items that no pop has returned. -/
structure Tracks [DecidableEq P] (out : List (Event T P)) (q : BlockQueue P w)
    (items : List (P × ℤ)) : Prop where
  shaped : Shaped q
  consistent : Consistent q
  split : ∃ taken, pushed out = taken ++ items ∧ taken.map Prod.fst = popped out
  held_eq : q.held = items.map (toItem w)
  run : Fifo.run q.len [] (out.flatMap Event.observe) = some (items.map Prod.fst)

section Tracking

variable [DecidableEq P] {out : List (Event T P)} {q : BlockQueue P w} {items : List (P × ℤ)}

theorem Tracks.length_items (h : Tracks out q items) : (items.length : ℤ) = q.numItems := by
  have hl := h.consistent.length_held
  rwa [h.held_eq, List.length_map] at hl

theorem Tracks.remaining_eq (h : Tracks out q items) : remaining out = items := by
  obtain ⟨taken, hp, ht⟩ := h.split
  rw [remaining, hp, ← ht, List.length_map, List.drop_left]

theorem Tracks.popped_prefix (h : Tracks out q items) :
    popped out <+: (pushed out).map Prod.fst := by
  obtain ⟨taken, hp, ht⟩ := h.split
  rw [hp, List.map_append, ht]
  exact List.prefix_append _ _

theorem Tracks.silent (h : Tracks out q items) {e : Event T P} (hp : e.pushed = none)
    (hg : e.popped = none) (ho : e.observe = [] ∨ (e.observe = [.full] ∧ q.numItems = q.len) ∨
      (e.observe = [.empty] ∧ q.numItems = 0)) : Tracks (out ++ [e]) q items := by
  have hlen := h.length_items
  refine ⟨h.shaped, h.consistent, ?_, h.held_eq, ?_⟩
  · simpa [hp, hg] using h.split
  · rw [List.flatMap_append, Fifo.run_append, h.run, Option.bind_some, List.flatMap_singleton]
    rcases ho with ho | ⟨ho, hn⟩ | ⟨ho, hn⟩
    · rw [ho, Fifo.run_nil]
    · have hc : items.length = q.len := by omega
      simp [ho, Fifo.step, hc]
    · have hc : items = [] := List.length_eq_zero_iff.1 (by omega)
      simp [ho, Fifo.step, hc]

theorem Tracks.breakPop (h : Tracks out q items) : Tracks out q.breakPop items :=
  ⟨⟨h.shaped.1, h.shaped.2, h.shaped.3, h.shaped.4⟩,
    ⟨h.consistent.1, h.consistent.2, h.consistent.3, h.consistent.4⟩, h.split, h.held_eq, h.run⟩

theorem Tracks.breakPush (h : Tracks out q items) : Tracks out q.breakPush items :=
  ⟨⟨h.shaped.1, h.shaped.2, h.shaped.3, h.shaped.4⟩,
    ⟨h.consistent.1, h.consistent.2, h.consistent.3, h.consistent.4⟩, h.split, h.held_eq, h.run⟩

theorem Tracks.put (h : Tracks out q items) (hn : q.numItems ≠ q.len) {e : Event T P}
    {item : P} {itemLen : ℤ} (hp : e.pushed = some (item, itemLen)) (hg : e.popped = none)
    (ho : e.observe = [.put item]) :
    Tracks (out ++ [e]) (q.store item itemLen) (items ++ [(item, itemLen)]) := by
  have hlen := h.length_items
  have hle := h.consistent.numItems_le
  have hlt : items.length < q.len := by omega
  refine ⟨h.shaped.store hn _ _, h.consistent.store h.shaped hn _ _, ?_, ?_, ?_⟩
  · obtain ⟨taken, hsplit, htaken⟩ := h.split
    refine ⟨taken, ?_, ?_⟩
    · simp [hsplit, hp]
    · simp [htaken, hg]
  · rw [held_store h.consistent hn, h.held_eq, List.map_append]
    rfl
  · rw [List.flatMap_append, Fifo.run_append, store_len, h.run, Option.bind_some,
      List.flatMap_singleton, ho]
    simp [Fifo.step, hlt]

theorem Tracks.get (h : Tracks out q items) (hn : q.numItems ≠ 0) {e : Event T P}
    (hp : e.pushed = none) (hg : e.popped = some (q.queue q.tail).ptr)
    (ho : e.observe = [.get (q.queue q.tail).ptr]) :
    ∃ rest, Tracks (out ++ [e]) q.remove rest := by
  have hheld := held_remove h.shaped h.consistent hn
  rw [h.held_eq] at hheld
  cases items with
  | nil => simp at hheld
  | cons a rest =>
    simp only [List.map_cons, List.cons.injEq] at hheld
    have ha : a.1 = (q.queue q.tail).ptr := congrArg QueueItem.ptr hheld.1
    refine ⟨rest, h.shaped.remove, h.consistent.remove h.shaped hn, ?_, hheld.2.symm, ?_⟩
    · obtain ⟨taken, hsplit, htaken⟩ := h.split
      refine ⟨taken ++ [a], ?_, ?_⟩
      · simp [hsplit, hp]
      · simp [htaken, hg, ha]
    · rw [List.flatMap_append, Fifo.run_append, remove_len, h.run, Option.bind_some,
        List.flatMap_singleton, ho]
      simp [Fifo.step, ha]

end Tracking

section Calm

variable {ok : Op P → Prop} {s s' : System T P w} {i : Input T P} {o : List (Event T P)}

def Thread.Calm (ok : Op P → Prop) : Thread P → Prop
  | .waiting op => ok op
  | .breaking => False
  | _ => True

structure Calm (ok : Op P → Prop) (s : System T P w) : Prop where
  pop : s.queue.popBreakFlag = false
  push : s.queue.pushBreakFlag = false
  thread : ∀ t, (s.thread t).Calm ok

theorem afterSection_calm {op : Op P} (hop : op.breaks = false) : (afterSection op).Calm ok := by
  cases op <;> simp_all [afterSection, Thread.Calm, Op.breaks]

theorem Calm.op_ok (hc : Calm ok s) (hi : i.Calls ok) {t : T} {op : Op P}
    (h : i = .call t op ∨ s.thread t = .waiting op) : ok op := by
  rcases h with rfl | h
  · exact hi
  · have ht := hc.thread t
    rwa [h] at ht

theorem Calm.update [DecidableEq T] (hc : Calm ok s) {t : T} (th : Thread P) (hth : th.Calm ok)
    (ht : s'.thread = Function.update s.thread t th) (u : T) : (s'.thread u).Calm ok := by
  rw [ht]
  by_cases hu : u = t
  · rwa [hu, Function.update_self]
  · rw [Function.update_of_ne hu]
    exact hc.thread u

variable [Inhabited P]

theorem popBody_of_calm {q : BlockQueue P w} (h : q.popBreakFlag = false) :
    q.popBody = (q.remove, (q.queue q.tail).ptr) := by
  have he : { q.remove with popBreakFlag := false } = q.remove := by
    rw [← h]
    rfl
  rw [BlockQueue.popBody, he, h]
  rfl

theorem Section.flags {q q' : BlockQueue P w} {op : Op P} {r : Result P} (h : Section q op r q')
    (hop : op.breaks = false) (hpop : q.popBreakFlag = false) (hpush : q.pushBreakFlag = false) :
    q'.popBreakFlag = false ∧ q'.pushBreakFlag = false := by
  cases h with
  | breakPop | breakPush | breakBoth | clear => simp [Op.breaks] at hop
  | pop | popLast => exact ⟨rfl, hpush⟩
  | _ => exact ⟨hpop, hpush⟩

theorem Section.tracks [DecidableEq P] {q q' : BlockQueue P w} {op : Op P} {r : Result P}
    {items : List (P × ℤ)} {out : List (Event T P)} (h : Section q op r q') (hclear : op ≠ .clear)
    (hpop : op.isPop = true → q.popBreakFlag = false)
    (hlast : op = .popLast → q.numItems = 1) (ht : Tracks out q items) (t : T) :
    ∃ items', Tracks (out ++ [⟨t, op, r⟩]) q' items' := by
  cases h with
  | push item itemLen hflag hn => exact ⟨_, ht.put hn rfl rfl rfl⟩
  | pushBroken item itemLen hflag => exact ⟨_, ht.silent rfl rfl (.inl rfl)⟩
  | tryPush item itemLen hn => exact ⟨_, ht.put hn rfl rfl rfl⟩
  | tryPushFull item itemLen hn => exact ⟨_, ht.silent rfl rfl (.inr (.inl ⟨rfl, hn⟩))⟩
  | tryPop hn => exact ht.get hn rfl rfl rfl
  | tryPopEmpty hn => exact ⟨_, ht.silent rfl rfl (.inr (.inr ⟨rfl, hn⟩))⟩
  | tryPopTimeout hflag hn => exact ht.get hn rfl rfl rfl
  | tryPopTimeoutNone => exact ⟨_, ht.silent rfl rfl (.inl rfl)⟩
  | pop hn =>
    rw [popBody_of_calm (hpop rfl)]
    exact ht.get (by simpa [hpop rfl] using hn) rfl rfl rfl
  | popLast hn =>
    have hone := hlast rfl
    rw [popLastBody_eq_popBody ht.shaped ht.consistent hone, popBody_of_calm (hpop rfl)]
    exact ht.get (by omega) rfl rfl rfl
  | breakPop => exact ⟨_, ht.breakPop.silent rfl rfl (.inl rfl)⟩
  | breakPush | breakBoth => exact ⟨_, ht.breakPush.silent rfl rfl (.inl rfl)⟩
  | clear => exact absurd rfl hclear

theorem start_tracks [DecidableEq P] {n : BitVec 32} (hn : 2 ≤ n.toNat) (hn' : n.toNat ≤ 2 ^ 30) :
    Tracks ([] : List (Event T P)) (start n : System T P w).queue [] :=
  ⟨init_shaped hn hn', init_consistent n, ⟨[], rfl, rfl⟩, rfl, rfl⟩

theorem start_calm (n : BitVec 32) : Calm ok (start n : System T P w) :=
  ⟨rfl, rfl, fun _ ↦ trivial⟩

variable [DecidableEq T]

theorem step_calm (hok : ∀ op, ok op → op.breaks = false) (hc : Calm ok s) (hi : i.Calls ok)
    (h : step s i = some (s', o)) : Calm ok s' := by
  obtain ⟨t, hst⟩ := step_cases h
  cases hst with
  | wait op hop hq ht =>
    exact ⟨hq ▸ hc.pop, hq ▸ hc.push, hc.update (.waiting op) (hc.op_ok hi hop) ht⟩
  | complete op r hop hq ht =>
    have hb := hok op (hc.op_ok hi hop)
    have hf := hq.flags hb hc.pop hc.push
    exact ⟨hf.1, hf.2, hc.update _ (afterSection_calm hb) ht⟩
  | leave item itemLen hop hq ht =>
    exact ⟨hq ▸ hc.pop, hq ▸ hc.push, hc.update .idle trivial ht⟩
  | breakSecond hop hq ht =>
    have hb := hc.thread t
    rw [hop] at hb
    exact hb.elim

def SingleLast (s : System T P w) (i : Input T P) : Prop :=
  ∀ r, step s i = some r → ∀ e ∈ r.2, e.op = .popLast → s.queue.numItems = 1

theorem step_tracks [DecidableEq P] {out : List (Event T P)} {items : List (P × ℤ)}
    (hok : ∀ op, ok op → op.breaks = false) (hc : Calm ok s) (ht : Tracks out s.queue items)
    (hi : i.Calls ok) (hlast : ok .popLast → SingleLast s i) (h : step s i = some (s', o)) :
    ∃ items', Tracks (out ++ o) s'.queue items' := by
  obtain ⟨t, hst⟩ := step_cases h
  cases hst with
  | wait op hop hq _ => exact ⟨items, by rw [hq, List.append_nil]; exact ht⟩
  | complete op r hop hq _ =>
    have hopok := hc.op_ok hi hop
    have hclear : op ≠ .clear := by
      rintro rfl
      exact Bool.noConfusion (hok _ hopok)
    refine hq.tracks hclear (fun _ ↦ hc.pop) (fun he ↦ ?_) ht t
    exact hlast (he ▸ hopok) _ h _ (List.mem_singleton_self _) he
  | leave item itemLen hop hq _ =>
    refine ⟨items, ?_⟩
    rw [hq]
    exact ht.silent rfl rfl (.inl rfl)
  | breakSecond hop hq _ =>
    have hb := hc.thread t
    rw [hop] at hb
    exact hb.elim

theorem exec_tracks [DecidableEq P] (hok : ∀ op, ok op → op.breaks = false) {n : BitVec 32}
    (hn : 2 ≤ n.toNat) (hn' : n.toNat ≤ 2 ^ 30) {is : List (Input T P)} {out : List (Event T P)}
    (hg : Machine.Along step (fun s i ↦ i.Calls ok ∧ (ok .popLast → SingleLast s i))
      (start n : System T P w) is)
    (h : Machine.exec step (start n : System T P w) is = some (s, out)) :
    Calm ok s ∧ ∃ items, Tracks out s.queue items :=
  Machine.exec_history (R := fun out s ↦ Calm ok s ∧ ∃ items, Tracks out s.queue items)
    (fun ⟨hc, _, ht⟩ hg hs ↦ ⟨step_calm hok hc hg.1 hs, step_tracks hok hc ht hg.1 hg.2 hs⟩)
    [] ⟨start_calm n, [], start_tracks hn hn'⟩ hg h

end Calm

section Results

/-- The queue as a bounded FIFO of capacity `len` after the events `out`. -/
structure RefinesFifo [DecidableEq P] (out : List (Event T P)) (q : BlockQueue P w) : Prop where
  run : Fifo.run q.len [] (out.flatMap Event.observe) = some ((remaining out).map Prod.fst)
  popped_prefix : popped out <+: (pushed out).map Prod.fst
  held_eq : q.held = (remaining out).map (toItem w)
  numItems_eq : q.numItems = (remaining out).length
  length_le : (remaining out).length ≤ q.len
  accumulated_eq : q.accumulatedItemsLen = BitVec.ofInt w ((remaining out).map Prod.snd).sum
  accumulated_toNat : 0 ≤ ((remaining out).map Prod.snd).sum →
    ((remaining out).map Prod.snd).sum < 2 ^ w →
      (q.accumulatedItemsLen.toNat : ℤ) = ((remaining out).map Prod.snd).sum

theorem Tracks.refinesFifo [DecidableEq P] {out : List (Event T P)} {q : BlockQueue P w}
    {items : List (P × ℤ)}
    (h : Tracks out q items) : RefinesFifo out q := by
  have hlen := h.length_items
  have hle := h.consistent.numItems_le
  have hacc := h.consistent.accumulated_eq
  rw [h.held_eq, sum_len_toItem] at hacc
  obtain rfl := h.remaining_eq
  refine ⟨h.run, h.popped_prefix, h.held_eq, hlen.symm, by omega, hacc, fun h0 hw ↦ ?_⟩
  rw [hacc, BitVec.toNat_ofInt, Int.toNat_of_nonneg (Int.emod_nonneg _ (by positivity))]
  exact Int.emod_eq_of_lt h0 (by exact_mod_cast hw)

variable [Inhabited P] [DecidableEq T]

theorem exec_len {n : BitVec 32} {is : List (Input T P)} {s : System T P w}
    {out : List (Event T P)} (h : Machine.exec step (start n : System T P w) is = some (s, out)) :
    s.queue.len = (powerOfTwoRoundUp n).toNat := by
  refine Machine.exec_invariant (g := fun _ _ ↦ True)
    (p := fun s : System T P w ↦ s.queue.len = (powerOfTwoRoundUp n).toNat) ?_ rfl
    (Machine.Along.of_forall (fun _ _ _ ↦ trivial) _) h
  intro s i s' o hs _ h
  obtain ⟨t, hst⟩ := step_cases h
  cases hst with
  | wait op hop hq ht => rw [hq, hs]
  | complete op r hop hq ht => rw [hq.len_eq, hs]
  | leave item itemLen hop hq ht => rw [hq, hs]
  | breakSecond hop hq ht => rw [hq]; exact hs

theorem exec_fifo_tracks [DecidableEq P] {n : BitVec 32} (hn : 2 ≤ n.toNat)
    (hn' : n.toNat ≤ 2 ^ 30) {is : List (Input T P)}
    (hops : ∀ i ∈ is, i.Calls fun op ↦ op.isFifo = true) {s : System T P w}
    {out : List (Event T P)}
    (h : Machine.exec step (start n : System T P w) is = some (s, out)) :
    ∃ items, Tracks out s.queue items := by
  have hok : ∀ op : Op P, op.isFifo = true → op.breaks = false := by
    intro op hop
    cases op <;> simp_all [Op.isFifo, Op.breaks]
  have hg : Machine.Along step (fun s i ↦ i.Calls (fun op ↦ op.isFifo = true) ∧
      ((Op.popLast : Op P).isFifo = true → SingleLast s i)) (start n : System T P w) is :=
    .of_forall (fun i hi s ↦ ⟨hops i hi, fun hlast ↦ by simp [Op.isFifo] at hlast⟩) _
  exact (exec_tracks hok hn hn' hg h).2

theorem popLast_repeats {q : BlockQueue P w} (hflag : q.popBreakFlag = false)
    (hn : 2 ≤ q.numItems) : ∃ q' q'' p, q.popLast = some (q', p) ∧ q'.popLast = some (q'', p) := by
  have hnum : q.popLastBody.1.numItems = q.numItems - 1 := rfl
  have hp : q.popLastBody.1.popLastBody.2 = q.popLastBody.2 := by
    change (q.queue q.lastIndex).ptr =
      if q.popBreakFlag then default else (q.queue q.lastIndex).ptr
    rw [hflag]
    rfl
  refine ⟨q.popLastBody.1, q.popLastBody.1.popLastBody.1, q.popLastBody.2, ?_, ?_⟩
  · rw [BlockQueue.popLast, if_neg (by omega)]
  · rw [BlockQueue.popLast, if_neg (by omega), ← hp]

/-- Without breaks, as long as every completed `pop_last` finds exactly one item, no accepted
item is returned twice. The condition cannot be relaxed: with several items held, two
`pop_last` calls in a row return the same item. -/
theorem popped_at_most_once [DecidableEq P] {n : BitVec 32} (hn : 2 ≤ n.toNat)
    (hn' : n.toNat ≤ 2 ^ 30) {is : List (Input T P)}
    (hops : ∀ i ∈ is, i.Calls fun op ↦ op.breaks = false)
    (hlast : Machine.Along step SingleLast (start n : System T P w) is)
    {s : System T P w} {out : List (Event T P)}
    (h : Machine.exec step (start n : System T P w) is = some (s, out)) :
    (∀ p, (popped out).count p ≤ ((pushed out).map Prod.fst).count p) ∧
    ∀ t, s.thread t = .idle → 2 ≤ s.queue.numItems → ∃ s' p,
      Machine.exec step s [.call t .popLast, .call t .popLast] =
        some (s', [⟨t, .popLast, .item p⟩, ⟨t, .popLast, .item p⟩]) := by
  have hcalls : Machine.Along step (fun _ i ↦ i.Calls fun op ↦ op.breaks = false)
      (start n : System T P w) is := .of_forall (fun i hi _ ↦ hops i hi) _
  obtain ⟨hc, items, ht⟩ := exec_tracks (fun _ hop ↦ hop)
    hn hn' ((hcalls.and hlast).mono fun _ _ hg ↦ ⟨hg.1, fun _ ↦ hg.2⟩) h
  refine ⟨fun p ↦ ht.popped_prefix.sublist.count_le p, fun t hidle hnum ↦ ?_⟩
  obtain ⟨q', q'', p, h₁, h₂⟩ := popLast_repeats hc.pop hnum
  refine ⟨⟨q'', Function.update (Function.update s.thread t .idle) t .idle⟩, p, ?_⟩
  simp [Machine.exec, step, hidle, enter, h₁, h₂, settle, afterSection]

theorem popped_at_most_once_two :
    ∃ (s : System ℕ ℕ 32) (out : List (Event ℕ ℕ)),
      Machine.exec step (start 2) [.call 0 (.tryPush 7 100), .call 1 .popLast] = some (s, out) ∧
      (∀ p, (popped out).count p ≤ ((pushed out).map Prod.fst).count p) ∧
      ∀ t, s.thread t = .idle → 2 ≤ s.queue.numItems → ∃ s' p,
        Machine.exec step s [.call t .popLast, .call t .popLast] =
          some (s', [⟨t, .popLast, .item p⟩, ⟨t, .popLast, .item p⟩]) := by
  obtain ⟨⟨s, out⟩, h⟩ : ∃ r, Machine.exec step (start 2 : System ℕ ℕ 32)
    [.call 0 (.tryPush 7 100), .call 1 .popLast] = some r := ⟨_, rfl⟩
  refine ⟨s, out, h, popped_at_most_once (by decide) (by decide) ?_ ?_ h⟩
  · intro i hi
    fin_cases hi <;> rfl
  · rintro r hr
    cases hr
    refine ⟨?_, ?_⟩
    · rintro r hr e he hop
      cases hr
      fin_cases he
      cases hop
    · rintro r hr
      cases hr
      refine ⟨fun r hr e he hop ↦ rfl, trivial⟩

/-- Two subframes that arrived while the consumer was busy: both `pop_last` calls return the
second one. -/
theorem popLast_returns_twice :
    ∃ (s : System ℕ ℕ 32) (out : List (Event ℕ ℕ)),
      Machine.exec step (start 64) [.call 0 (.tryPush 7 100), .call 0 (.tryPush 8 100),
        .call 1 .popLast, .call 1 .popLast] = some (s, out) ∧
      (popped out).count 8 = 2 ∧ ((pushed out).map Prod.fst).count 8 = 1 :=
  ⟨_, _, rfl, by decide, by decide⟩

end Results

end EnbL1Ppc.Core.BlockQueueThreads
