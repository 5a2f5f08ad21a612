import EnbL1Ppc.Core.BlockQueueDelivery

namespace EnbL1Ppc.Core.BlockQueueThreads

open Lib BlockQueue

variable {T P : Type} {w : ℕ} [DecidableEq T]

section Breaks

variable [Inhabited P]

structure SameItems (q q' : BlockQueue P w) : Prop where
  held : q'.held = q.held
  numItems : q'.numItems = q.numItems
  head : q'.head = q.head
  tail : q'.tail = q.tail
  accumulatedItemsLen : q'.accumulatedItemsLen = q.accumulatedItemsLen

def BreakKeepsItems (s : System T P w) (i : Input T P) : Prop :=
  ∀ r, step s i = some r → ∀ e ∈ r.2, e.op.isPop = true → s.queue.popBreakFlag = true →
    SameItems s.queue r.1.queue

def Unbroken (s : System T P w) (i : Input T P) : Prop :=
  ∀ r, step s i = some r → ∀ e ∈ r.2, e.op.isPop = true → s.queue.popBreakFlag = false

theorem Section.numItems_pop {q q' : BlockQueue P w} {op : Op P} {r : Result P}
    (h : Section q op r q') (hop : op.isPop = true) : q'.numItems = q.numItems - 1 := by
  cases h with
  | pop | popLast => rfl
  | _ => simp [Op.isPop] at hop

theorem breakKeepsItems_iff (s : System T P w) (i : Input T P) :
    BreakKeepsItems s i ↔ Unbroken s i := by
  constructor
  · rintro h ⟨s', o⟩ hr e he hop
    by_contra hflag
    have hsame := (h _ hr e he hop (Bool.eq_true_of_not_eq_false hflag)).numItems
    obtain ⟨t, hst⟩ := step_cases hr
    dsimp only at he hsame
    cases hst with
    | wait => simp at he
    | complete op res hop' hq ht =>
      obtain rfl := List.mem_singleton.1 he
      have hless := hq.numItems_pop hop
      omega
    | leave | breakSecond =>
      obtain rfl := List.mem_singleton.1 he
      simp [Op.isPop] at hop
  · intro h r hr e he hop hflag
    rw [h r hr e he hop] at hflag
    exact Bool.noConfusion hflag

/-- The operations between which a stopped and restarted consumer can come: all but `clear` and
`pop_last`. -/
def Op.isStop : Op P → Bool
  | .clear | .popLast => false
  | _ => true

def Thread.WaitsToStop : Thread P → Prop
  | .waiting op => op.isStop = true
  | _ => True

theorem step_waitsToStop {s s' : System T P w} {i : Input T P} {o : List (Event T P)}
    (hi : i.Calls fun op ↦ op.isStop = true) (hw : ∀ t, (s.thread t).WaitsToStop)
    (h : step s i = some (s', o)) (u : T) : (s'.thread u).WaitsToStop := by
  have hupdate {t : T} {th : Thread P} (hth : th.WaitsToStop)
      (ht : s'.thread = Function.update s.thread t th) : (s'.thread u).WaitsToStop := by
    rw [ht]
    exact (Function.forall_update_iff _ fun _ (th : Thread P) ↦ th.WaitsToStop).2 ⟨hth, fun v _ ↦ hw v⟩ u
  obtain ⟨t, hst⟩ := step_cases h
  cases hst with
  | wait op hop hq ht =>
    refine hupdate ?_ ht
    rcases hop with rfl | hop
    · exact hi
    · exact hop ▸ hw t
  | complete op r hop hq ht =>
    refine hupdate ?_ ht
    cases op <;> trivial
  | leave item itemLen hop hq ht => exact hupdate (show Thread.WaitsToStop .idle from trivial) ht
  | breakSecond hop hq ht => exact hupdate (show Thread.WaitsToStop .idle from trivial) ht

theorem step_tracks_of_unbroken [DecidableEq P] {s s' : System T P w} {i : Input T P}
    {out o : List (Event T P)} {items : List (P × ℤ)} (hi : i.Calls fun op ↦ op.isStop = true)
    (hw : ∀ t, (s.thread t).WaitsToStop) (ht : Tracks out s.queue items) (hu : Unbroken s i)
    (h : step s i = some (s', o)) : ∃ items', Tracks (out ++ o) s'.queue items' := by
  obtain ⟨t, hst⟩ := step_cases h
  cases hst with
  | wait op hop hq _ => exact ⟨items, by rw [hq, List.append_nil]; exact ht⟩
  | complete op r hop hq _ =>
    have hstop : op.isStop = true := by
      rcases hop with rfl | hop
      · exact hi
      · have hwait := hw t
        rwa [hop] at hwait
    refine hq.tracks ?_ (fun hpop ↦ hu _ h _ (List.mem_singleton_self _) hpop) ?_ ht t
    · rintro rfl
      exact Bool.noConfusion hstop
    · rintro rfl
      exact Bool.noConfusion hstop
  | leave item itemLen hop hq _ =>
    refine ⟨items, ?_⟩
    rw [hq]
    exact ht.silent rfl rfl (.inl rfl)
  | breakSecond hop hq _ =>
    refine ⟨items, ?_⟩
    rw [hq]
    exact ht.breakPop.silent rfl rfl (.inl rfl)

/-- A broken `pop` or `pop_last` always takes an item away, so that breaks keep the items in
exactly those runs in which none completes while the flag is set. In such a run no item is lost
or invented either, however often the queue is broken. -/
theorem breaks_keep_items_iff [DecidableEq P] {n : BitVec 32} (hn : 2 ≤ n.toNat)
    (hn' : n.toNat ≤ 2 ^ 30) :
    (∀ (s : System T P w) (is : List (Input T P)),
      Machine.Along step BreakKeepsItems s is ↔ Machine.Along step Unbroken s is) ∧
    ∀ is : List (Input T P), (∀ i ∈ is, i.Calls fun op ↦ op.isStop = true) →
      Machine.Along step Unbroken (start n : System T P w) is →
      ∀ s out, Machine.exec step (start n : System T P w) is = some (s, out) →
        RefinesFifo out s.queue := by
  refine ⟨fun s is ↦ ⟨fun h ↦ h.mono fun s i ↦ (breakKeepsItems_iff s i).1,
    fun h ↦ h.mono fun s i ↦ (breakKeepsItems_iff s i).2⟩, fun is hops hu s out h ↦ ?_⟩
  have hcalls : Machine.Along step (fun _ i ↦ i.Calls fun op ↦ op.isStop = true)
      (start n : System T P w) is := .of_forall (fun i hi _ ↦ hops i hi) _
  obtain ⟨-, items, ht⟩ := Machine.exec_history
    (R := fun out s ↦ (∀ t, (s.thread t).WaitsToStop) ∧ ∃ items, Tracks out s.queue items)
    (fun ⟨hw, _, ht⟩ hg hs ↦
      ⟨step_waitsToStop hg.1 hw hs, step_tracks_of_unbroken hg.1 hw ht hg.2 hs⟩)
    [] ⟨fun _ ↦ trivial, [], start_tracks hn hn'⟩ (hcalls.and hu) h
  exact ht.refinesFifo

theorem breaks_keep_items_iff_two :
    Machine.Along step BreakKeepsItems (start 2 : System ℕ ℕ 32)
        [.call 0 (.tryPush 7 1), .call 1 .breakBoth, .resume 1, .call 2 .tryPop] ↔
      Machine.Along step Unbroken (start 2 : System ℕ ℕ 32)
        [.call 0 (.tryPush 7 1), .call 1 .breakBoth, .resume 1, .call 2 .tryPop] :=
  (breaks_keep_items_iff (n := 2) (by decide) (by decide)).1 _ _

/-- An item is in the queue when `p8_stop` breaks it; the `pop` of the thread that `p8_start`
creates answers `NULL`, and the item is gone. On an empty queue `num_items` becomes -1. -/
theorem broken_pop_loses_item :
    (Machine.exec step (start 2 : System ℕ ℕ 32)
        [.call 0 (.tryPush 7 1), .call 1 .breakBoth, .resume 1, .call 2 .pop]).map
      (fun r ↦ (r.1.queue.held, r.1.queue.numItems, popped r.2)) = some ([], 0, [0]) ∧
    (Machine.exec step (start 2 : System ℕ ℕ 32)
        [.call 1 .breakBoth, .resume 1, .call 2 .pop]).map (fun r ↦ r.1.queue.numItems) =
      some (-1) ∧
    ¬Machine.Along step BreakKeepsItems (start 2 : System ℕ ℕ 32)
      [.call 0 (.tryPush 7 1), .call 1 .breakBoth, .resume 1, .call 2 .pop] := by
  refine ⟨by decide, by decide, fun h ↦ ?_⟩
  have h₁ := (h _ rfl).2 _ rfl
  have h₃ := (h₁.2 _ rfl).2 _ rfl
  have hsame := h₃.1 _ rfl ⟨2, .pop, .item 0⟩ (List.mem_singleton_self _) rfl rfl
  exact absurd hsame.numItems (by decide)

end Breaks

section Returns

def lastStored (t : T) (out : List (Event T P)) : Option Bool :=
  out.foldl (fun last e ↦
    match e with
    | ⟨u, .push _ _, .stored b⟩ => if u = t then some b else last
    | _ => last) none

def Truthful (out : List (Event T P)) : Prop :=
  ∀ k e b, out[k]? = some e → e.result = .returned b → lastStored e.thread (out.take k) = some b

def ReturnsUnbroken (s : System T P w × List (Event T P)) (i : Input T P) : Prop :=
  ∀ t item itemLen, i = .resume t → s.1.thread t = .returning item itemLen →
    lastStored t s.2 = some true → s.1.queue.pushBreakFlag = false

theorem truthful_append {out : List (Event T P)} {e : Event T P} :
    Truthful (out ++ [e]) ↔
      Truthful out ∧ ∀ b, e.result = .returned b → lastStored e.thread out = some b := by
  constructor
  · intro h
    refine ⟨fun k e' b hk hb ↦ ?_, fun b hb ↦ ?_⟩
    · have hlt := (List.getElem?_eq_some_iff.1 hk).1
      have he := h k e' b (by rw [List.getElem?_append_left hlt, hk]) hb
      rwa [List.take_append_of_le_length hlt.le] at he
    · simpa using h out.length e b (by simp) hb
  · rintro ⟨hout, he⟩ k e' b hk hb
    rcases Nat.lt_or_ge k out.length with hlt | hge
    · rw [List.getElem?_append_left hlt] at hk
      rw [List.take_append_of_le_length hlt.le]
      exact hout k e' b hk hb
    · rw [List.getElem?_append_right hge, List.getElem?_eq_some_iff] at hk
      obtain ⟨hlt, hk⟩ := hk
      have hk0 : k - out.length = 0 := by simpa using hlt
      have hkeq : k = out.length := by omega
      subst hkeq
      simp only [Nat.sub_self, List.getElem_cons_zero] at hk
      subst hk
      simpa using he b hb

theorem lastStored_append (t : T) (out : List (Event T P)) (e : Event T P) :
    lastStored t (out ++ [e]) = match e with
      | ⟨u, .push _ _, .stored b⟩ => if u = t then some b else lastStored t out
      | _ => lastStored t out := by
  rw [lastStored, List.foldl_append]
  rfl

theorem lastStored_append_other {t : T} (out : List (Event T P)) {e : Event T P}
    (he : e.thread ≠ t) : lastStored t (out ++ [e]) = lastStored t out := by
  rw [lastStored_append]
  split
  · exact if_neg he
  · rfl

def Remembered (s : System T P w × List (Event T P)) : Prop :=
  ∀ t item itemLen, s.1.thread t = .returning item itemLen →
    ∃ b, lastStored t s.2 = some b ∧ (b = false → s.1.queue.pushBreakFlag = true)

variable [Inhabited P]

theorem Section.pushBreakFlag_mono {q q' : BlockQueue P w} {op : Op P} {r : Result P}
    (h : Section q op r q') (hflag : q.pushBreakFlag = true) : q'.pushBreakFlag = true := by
  cases h with
  | breakPush | breakBoth | clear => rfl
  | _ => exact hflag

theorem Section.not_returned {q q' : BlockQueue P w} {op : Op P} {r : Result P}
    (h : Section q op r q') (b : Bool) : r ≠ .returned b := by
  cases h <;> simp

theorem Section.push_of_returning {q q' : BlockQueue P w} {op : Op P} {r : Result P} {item : P}
    {itemLen : ℤ} (h : Section q op r q') (hop : afterSection op = .returning item itemLen) :
    ∃ b, op = .push item itemLen ∧ r = .stored b ∧ (b = false → q'.pushBreakFlag = true) := by
  cases h with
  | push item' itemLen' hflag hn =>
    cases hop
    exact ⟨true, rfl, rfl, fun hb ↦ Bool.noConfusion hb⟩
  | pushBroken item' itemLen' hflag =>
    cases hop
    exact ⟨false, rfl, rfl, fun _ ↦ hflag⟩
  | _ => simp [afterSection] at hop

theorem remembered_step {s s' : System T P w × List (Event T P)} {i : Input T P}
    {o : List (Event T P)} (hr : Remembered s)
    (hs : Machine.recorded step s i = some (s', o)) : Remembered s' := by
  obtain ⟨hs, hout⟩ := Machine.recorded_eq_some.1 hs
  obtain ⟨t, hst⟩ := step_cases hs
  intro u item itemLen hu
  have hother {th : Thread P} (hut : u ≠ t) (ht : s'.1.thread = Function.update s.1.thread t th) :
      s.1.thread u = .returning item itemLen := by
    rwa [ht, Function.update_of_ne hut] at hu
  have hself {th : Thread P} (hut : u = t) (ht : s'.1.thread = Function.update s.1.thread t th) :
      th = .returning item itemLen := by
    rwa [ht, hut, Function.update_self] at hu
  cases hst with
  | wait op hop hq ht =>
    by_cases hut : u = t
    · nomatch hself hut ht
    · rw [hout, List.append_nil, hq]
      exact hr u item itemLen (hother hut ht)
  | complete op r hop hq ht =>
    by_cases hut : u = t
    · obtain ⟨b, rfl, rfl, hb⟩ := hq.push_of_returning (hself hut ht)
      refine ⟨b, ?_, hb⟩
      rw [hout, lastStored_append]
      exact if_pos hut.symm
    · obtain ⟨b, hlast, hb⟩ := hr u item itemLen (hother hut ht)
      refine ⟨b, ?_, fun hf ↦ hq.pushBreakFlag_mono (hb hf)⟩
      rw [hout, lastStored_append_other _ (Ne.symm hut), hlast]
  | leave item' itemLen' hop hq ht =>
    by_cases hut : u = t
    · nomatch hself hut ht
    · rw [hout, lastStored_append_other _ (Ne.symm hut), hq]
      exact hr u item itemLen (hother hut ht)
  | breakSecond hop hq ht =>
    by_cases hut : u = t
    · nomatch hself hut ht
    · rw [hout, lastStored_append_other _ (Ne.symm hut), hq]
      exact hr u item itemLen (hother hut ht)

theorem step_returns {s s' : System T P w} {i : Input T P} {o : List (Event T P)}
    (h : step s i = some (s', o)) :
    (∃ t item itemLen, i = .resume t ∧ s.thread t = .returning item itemLen ∧
      o = [⟨t, .push item itemLen, .returned s.queue.pushReturn⟩]) ∨
    ((∀ e ∈ o, ∀ b, e.result ≠ .returned b) ∧
      ∀ t item itemLen, i = .resume t → s.thread t ≠ .returning item itemLen) := by
  have hsettle {t : T} {op : Op P} {x : Option (BlockQueue P w × Result P)}
      (hx : ∀ q r, x = some (q, r) → Section s.queue op r q) :
      ∀ e ∈ (settle s t op x).2, ∀ b, e.result ≠ .returned b := by
    cases x with
    | none => simp [settle]
    | some qr =>
      intro e he
      obtain rfl := List.mem_singleton.1 he
      exact (hx _ _ rfl).not_returned
  cases i with
  | call t op =>
    simp only [step] at h
    split at h
    · obtain rfl : (settle s t op (enter s.queue op)).2 = o := congrArg Prod.snd (Option.some.inj h)
      exact .inr ⟨hsettle fun _ _ hq ↦ enter_section hq, by simp⟩
    · cases h
  | wake t timedOut =>
    simp only [step] at h
    split at h
    · rename_i op hop
      obtain rfl : (settle s t op (wakeUp s.queue timedOut op)).2 = o :=
        congrArg Prod.snd (Option.some.inj h)
      exact .inr ⟨hsettle fun _ _ hq ↦ wakeUp_section hq, by simp⟩
    · cases h
  | resume t =>
    simp only [step] at h
    split at h
    · rename_i item itemLen hop
      cases h
      exact .inl ⟨t, item, itemLen, rfl, hop, rfl⟩
    · rename_i hop
      cases h
      refine .inr ⟨by simp, ?_⟩
      rintro u item itemLen ⟨⟩ hu
      have hne := hop.symm.trans hu
      cases hne
    · cases h

theorem truthful_step_iff {s s' : System T P w × List (Event T P)} {i : Input T P}
    {o : List (Event T P)} (hr : Remembered s) (ht : Truthful s.2)
    (hs : Machine.recorded step s i = some (s', o)) : Truthful s'.2 ↔ ReturnsUnbroken s i := by
  obtain ⟨hs, hout⟩ := Machine.recorded_eq_some.1 hs
  rw [hout]
  rcases step_returns hs with ⟨t, item, itemLen, rfl, hret, rfl⟩ | ⟨hsilent, hno⟩
  · obtain ⟨b, hlast, hb⟩ := hr t item itemLen hret
    have hanswer : Truthful (s.2 ++ [⟨t, .push item itemLen, .returned s.1.queue.pushReturn⟩]) ↔
        b = !s.1.queue.pushBreakFlag := by
      rw [truthful_append, and_iff_right ht]
      simp [hlast, pushReturn, eq_comm]
    have hcond : ReturnsUnbroken s (.resume t) ↔ (b = true → s.1.queue.pushBreakFlag = false) := by
      constructor
      · exact fun h hbt ↦ h t item itemLen rfl hret (hbt ▸ hlast)
      · rintro h u item' itemLen' ⟨⟩ - hl
        exact h (Option.some.inj (hlast.symm.trans hl))
    rw [hanswer, hcond]
    cases b with
    | false => simp [hb rfl]
    | true => cases s.1.queue.pushBreakFlag <;> simp
  · refine iff_of_true ?_ fun t item itemLen hi hret ↦ absurd hret (hno t item itemLen hi)
    have hlen : o = [] ∨ ∃ e, o = [e] := by
      obtain ⟨t, hst⟩ := step_cases hs
      cases hst <;> simp
    rcases hlen with rfl | ⟨e, rfl⟩
    · rwa [List.append_nil]
    · rw [truthful_append]
      exact ⟨ht, fun b hb ↦ absurd hb (hsilent e (List.mem_singleton_self e) b)⟩

/-- The flag that `push` returns is read after the unlock, so that its answers are right in
exactly those runs in which no `push` that stored its item finds the flag set by then. -/
theorem push_truthful_iff (n : BitVec 32) (is : List (Input T P)) :
    Machine.Always (Machine.recorded step) (fun s ↦ Truthful s.2)
        ((start n : System T P w), []) is ↔
      Machine.Along (Machine.recorded step) ReturnsUnbroken ((start n : System T P w), []) is := by
  refine Machine.always_iff_along remembered_step truthful_step_iff ?_ ?_ is
  · intro t item itemLen h
    cases h
  · simp [Truthful]

/-- A break between the unlock and the return: the item is in the queue, the answer is `false`. -/
theorem stored_returns_false :
    (Machine.exec step (start 2 : System ℕ ℕ 32)
        [.call 0 (.push 7 1), .call 1 .breakPush, .resume 0]).map
      (fun r ↦ (r.1.queue.held.map QueueItem.ptr, lastStored 0 r.2)) = some ([7], some true) ∧
    ¬Machine.Always (Machine.recorded step) (fun s ↦ Truthful s.2)
      ((start 2 : System ℕ ℕ 32), []) [.call 0 (.push 7 1), .call 1 .breakPush, .resume 0] := by
  refine ⟨by decide, fun h ↦ ?_⟩
  have hlast := ((h.2 _ rfl).2 _ rfl).2 _ rfl
  exact absurd (hlast 2 _ false rfl rfl) (by decide)

end Returns

end EnbL1Ppc.Core.BlockQueueThreads
