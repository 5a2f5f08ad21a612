import EnbL1Ppc.Fapi.DispatchDeadlock

namespace EnbL1Ppc.Fapi.Dispatch

open Lib EnbL1Ppc.Core

variable {P : Type} {w : ℕ}

/-- The queues that some thread pops from. P5 is read in `fapi_p5_config_request`, P8 in
`p8_thread`, the others in `phy_dispatcher_thread`. Only `fapi_p7_recv_blocking` reads the queue
of the remaining P7 messages, and it has no caller. -/
def consumed : List QueueId :=
  .p5 :: .p8 :: .p7 .subframe :: drainOrder.map .p7

/-- `fapi_thread` is inside `block_queue_push` on a full queue that nobody pops from. -/
def WaitsUnread (s : System P w) : Prop :=
  ∃ q body m, q ∉ consumed ∧ s.fapi = .awaitingRoom q body m ∧
    (s.queues q).numItems = (s.queues q).len

theorem eq_other_of_notMem_consumed {q : QueueId} (hq : q ∉ consumed) : q = .p7 .other := by
  revert hq
  cases q with
  | p7 i => cases i <;> decide
  | _ => decide

def DrainsKnown (d : Dispatcher) : Prop :=
  ∀ qs, d = .draining qs → qs ⊆ drainOrder

theorem pushed_setDispatcher (s : System P w) (d : Dispatcher) (q : QueueId) (body : P)
    (m : DspMessage P) (r : Option (BlockQueue P w × Bool)) :
    pushed { s with dispatcher := d } q body m r =
      ({ (pushed s q body m r).1 with dispatcher := d }, (pushed s q body m r).2) := by
  cases r <;> rfl

theorem process_setDispatcher (s : System P w) (d : Dispatcher) (m : DspMessage P) :
    process { s with dispatcher := d } m =
      ({ (process s m).1 with dispatcher := d }, (process s m).2) := by
  cases m with
  | p5Ind r body => exact pushed_setDispatcher s d _ _ _ _
  | p7Ind i body => exact pushed_setDispatcher s d _ _ _ _
  | _ => rfl

theorem process_ring (s : System P w) (m : DspMessage P) : (process s m).1.ring = s.ring := by
  have pushed_ring {q body} (r : Option (BlockQueue P w × Bool)) :
      (pushed s q body m r).1.ring = s.ring := by
    cases r <;> rfl
  cases m with
  | p5Ind r body => exact pushed_ring _
  | p7Ind i body => exact pushed_ring _
  | _ => rfl

theorem fapiStep_setDispatcher {s s' : System P w} {o : List (Event P)} (d : Dispatcher)
    (h : fapiStep s = some (s', o)) :
    fapiStep { s with dispatcher := d } = some ({ s' with dispatcher := d }, o) := by
  obtain ⟨ring, queues, fapi, d', requested⟩ := s
  cases fapi with
  | awaitingRoom q body m =>
    have hp := Option.some.inj h
    refine congrArg some ((pushed_setDispatcher _ d q body m _).trans ?_)
    rw [hp]
  | receiving =>
    cases ring with
    | nil => cases h
    | cons m ring =>
      have ha : available ⟨m :: ring, queues, .receiving, d, requested⟩ m =
          available ⟨m :: ring, queues, .receiving, d', requested⟩ m := by
        unfold available
        split <;> rfl
      simp only [fapiStep, ha] at h ⊢
      split at h
      · next hm =>
        rw [if_pos hm]
        have hp := Option.some.inj h
        have hd := process_setDispatcher ⟨ring, queues, .receiving, d', requested⟩ d m
        rw [hp] at hd
        exact congrArg some hd
      · cases h

theorem fapiStep_account {s s' : System P w} {o : List (Event P)}
    (hu : ∀ q, Unbroken (s.queues q))
    (hw : ∀ q body m, s.fapi = .awaitingRoom q body m → m.queue? = some q)
    (h : fapiStep s = some (s', o)) {taken : List (DspMessage P)} (ht : Takes taken s s' o)
    {q : QueueId} (hq : q ≠ .p8) : account s' q = account s q + load q taken := by
  have h' := fapiStep_setDispatcher .configuring h
  obtain ⟨taken', ht'⟩ :=
    (fapiStep_cases (s := { s with dispatcher := .configuring }) hu h').takes hu hw
  have heq : taken = taken' := List.append_cancel_right (ht.ring.symm.trans ht'.ring)
  subst heq
  exact (ht'.account_eq (.inl rfl)).2 q hq

theorem Stepped.numItems_le {s s' : System P w} {o : List (Event P)} (h : Stepped s s' o)
    (hs : ∀ q ≠ .p8, (s.queues q).numItems ≤ 64) (q : QueueId) (hq : q ≠ .p8) :
    (s'.queues q).numItems ≤ 64 := by
  have store {q' : QueueId} (body : P) (hn : (s.queues q').numItems ≠ 64) :
      ((setQueue s q' ((s.queues q').store body headerSize)).queues q).numItems ≤ 64 := by
    have hle := hs q hq
    rcases eq_or_ne q q' with rfl | hne
    · rw [setQueue_queues_self, BlockQueue.store_numItems]
      omega
    · rwa [setQueue_queues_of_ne s hne]
  cases h with
  | store body hf hr hm hn => exact store body hn
  | block body hf hr hm hn => exact hs q hq
  | @skip m ring bq hf hr hm hb =>
    change ((setQueue s .p8 bq).queues q).numItems ≤ 64
    rw [setQueue_queues_of_ne s hq]
    exact hs q hq
  | resume hf hn => exact store _ hn
  | stay hf hn => exact hs q hq
  | configure hd => exact hs q hq
  | @run d i bq hd hb =>
    change ((setQueue s i bq).queues q).numItems ≤ 64
    rcases eq_or_ne q i with rfl | hne
    · rw [setQueue_queues_self]
      exact hb.numItems_le.trans (hs q hq)
    · rw [setQueue_queues_of_ne s hne]
      exact hs q hq

structure Unread (done : List (DspMessage P)) (out : List (Event P)) (s : System P w) :
    Prop where
  tracks : Tracks done out s
  numItems_le : ∀ q ≠ .p8, (s.queues q).numItems ≤ 64
  drainsKnown : DrainsKnown s.dispatcher
  account_eq : ∀ q ∉ consumed, account s q = load q done

theorem Unread.waitsUnread_iff {done : List (DspMessage P)} {out : List (Event P)}
    {s : System P w} (h : Unread done out s) :
    WaitsUnread s ↔ 64 < load (.p7 .other) done := by
  constructor
  · rintro ⟨q, body, m, hq, hf, -⟩
    obtain rfl := eq_other_of_notMem_consumed hq
    exact (h.tracks.waits _ _ _ hf).2.2.1
  · intro hl
    have hother : QueueId.p7 .other ∉ consumed := by decide
    have hacc := h.account_eq _ hother
    have hle := h.numItems_le (.p7 .other) (by decide)
    cases hf : s.fapi with
    | receiving =>
      rw [account, pending_of_receiving hf, load_nil] at hacc
      omega
    | awaitingRoom q body m =>
      have hm := (h.tracks.waits _ _ _ hf).1
      rw [account, pending_of_awaiting hf, load_singleton, hm] at hacc
      split at hacc
      · next hq =>
        obtain rfl := Option.some.inj hq
        refine ⟨_, body, m, hother, hf, ?_⟩
        rw [(h.tracks.unbroken _).len]
        omega
      · omega

variable [Inhabited P] [DecidableEq P]

theorem dispatcherStep_queues {s : System P w} (hd : DrainsKnown s.dispatcher) (sent : Bool)
    {q : QueueId} (hq : q ∉ consumed) : (dispatcherStep s sent).queues q = s.queues q := by
  have responded_queues (r : Option (BlockQueue P w × P)) :
      (responded s r).queues q = s.queues q := by
    cases r with
    | none => rfl
    | some r => exact setQueue_queues_of_ne s (fun h ↦ hq (by simp [h, consumed])) _
  have subframe_queues (r : Option (BlockQueue P w × P)) :
      (subframeReceived s r).queues q = s.queues q := by
    cases r with
    | none => rfl
    | some r => exact setQueue_queues_of_ne s (fun h ↦ hq (by simp [h, consumed])) _
  unfold dispatcherStep
  split
  · split <;> rfl
  · exact responded_queues _
  · exact responded_queues _
  · exact subframe_queues _
  · exact subframe_queues _
  · rfl
  · next i qs h =>
    have hi : i ∈ drainOrder := hd _ h List.mem_cons_self
    unfold drainOne
    split
    · rfl
    · refine setQueue_queues_of_ne s (fun h ↦ hq ?_) _
      rw [h]
      exact List.mem_cons_of_mem _ (List.mem_cons_of_mem _ (List.mem_cons_of_mem _
        (List.mem_map_of_mem hi)))

theorem dispatcherStep_drainsKnown {s : System P w} (hd : DrainsKnown s.dispatcher)
    (sent : Bool) : DrainsKnown (dispatcherStep s sent).dispatcher := by
  have subframe_drains (r : Option (BlockQueue P w × P)) :
      DrainsKnown (subframeReceived s r).dispatcher := by
    intro qs h
    cases r with
    | none => simp [subframeReceived] at h
    | some r =>
      simp only [subframeReceived] at h
      split at h
      · cases h
      · cases h
        exact List.Subset.refl _
  unfold dispatcherStep
  split
  · split <;> simp [DrainsKnown]
  · cases (s.queues .p5).pop <;> simp [responded, DrainsKnown]
  · cases (s.queues .p5).popWake <;> simp [responded, DrainsKnown]
  · exact subframe_drains _
  · exact subframe_drains _
  · simp [DrainsKnown]
  · next i qs h =>
    unfold drainOne
    split
    · intro qs' h'
      cases h'
      exact List.Subset.trans (List.subset_cons_self i qs) (hd _ h)
    · exact hd

theorem dispatcherStep_fapi (s : System P w) (sent : Bool) :
    (dispatcherStep s sent).fapi = s.fapi ∧ (dispatcherStep s sent).ring = s.ring := by
  unfold dispatcherStep
  split
  · split <;> exact ⟨rfl, rfl⟩
  · cases (s.queues .p5).pop <;> exact ⟨rfl, rfl⟩
  · cases (s.queues .p5).popWake <;> exact ⟨rfl, rfl⟩
  · cases (s.queues (.p7 .subframe)).popLast <;> exact ⟨rfl, rfl⟩
  · cases (s.queues (.p7 .subframe)).popLastWake <;> exact ⟨rfl, rfl⟩
  · exact ⟨rfl, rfl⟩
  · unfold drainOne
    split <;> exact ⟨rfl, rfl⟩

omit [DecidableEq P] in
theorem start_unread (ms : List (DspMessage P)) : Unread [] [] (start ms : System P w) where
  tracks := start_tracks ms
  numItems_le _ _ := by simp [start, BlockQueue.init]
  drainsKnown := by simp [start, DrainsKnown]
  account_eq _ _ := rfl

section Unread

variable {ms done : List (DspMessage P)} {out o : List (Event P)} {s s' : System P w}

theorem Unread.step {i : Input} (h : Unread done out s) (hs : step s i = some (s', o)) :
    ∃ taken, s.ring = taken ++ s'.ring ∧ Unread (done ++ taken) (out ++ o) s' := by
  have hw : ∀ q body m, s.fapi = .awaitingRoom q body m → m.queue? = some q :=
    fun q body m hf ↦ (h.tracks.waits q body m hf).1
  have hstep := step_cases h.tracks.unbroken hs
  obtain ⟨taken, ht⟩ := hstep.takes h.tracks.unbroken hw
  refine ⟨taken, ht.ring, h.tracks.takes ht, hstep.numItems_le h.numItems_le, ?_, ?_⟩
  · cases i with
    | fapi =>
      rw [(fapiStep_dispatcher hs).1]
      exact h.drainsKnown
    | dispatcher sent =>
      cases hs
      exact dispatcherStep_drainsKnown h.drainsKnown sent
  · intro q hq
    have hq8 : q ≠ .p8 := fun h8 ↦ hq (by simp [h8, consumed])
    have hd := h.account_eq q hq
    rw [load_append, Nat.cast_add, ← hd]
    cases i with
    | fapi => exact fapiStep_account h.tracks.unbroken hw hs ht hq8
    | dispatcher sent =>
      -- The dispatcher takes nothing, holds nothing and leaves this queue alone.
      cases hs
      obtain ⟨hf, hr⟩ := dispatcherStep_fapi s sent
      have htaken : taken = [] := by
        have hring := ht.ring
        rwa [hr, List.self_eq_append_left] at hring
      subst htaken
      simp only [account, pending, hf, dispatcherStep_queues h.drainsKnown sent hq, load_nil]
      simp

theorem Unread.always_iff {is : List Input} (h : Unread done out s)
    (hrun : Machine.exec Dispatch.step s is = some (s', o)) :
    ∃ taken, s.ring = taken ++ s'.ring ∧ Unread (done ++ taken) (out ++ o) s' ∧
      (Machine.Always Dispatch.step (¬ WaitsUnread ·) s is ↔
        load (.p7 .other) (done ++ taken) ≤ 64) := by
  induction is generalizing s done out o with
  | nil =>
    cases hrun
    refine ⟨[], rfl, by simpa using h, ?_⟩
    rw [List.append_nil, Machine.Always, h.waitsUnread_iff, not_lt]
  | cons i is ih =>
    obtain ⟨s₁, o₁, o₂, hs, hrun', rfl⟩ := Machine.exec_cons_some hrun
    obtain ⟨taken₁, hr₁, h₁⟩ := h.step hs
    obtain ⟨taken₂, hr₂, h₂, hiff⟩ := ih h₁ hrun'
    refine ⟨taken₁ ++ taken₂, by rw [hr₁, hr₂, List.append_assoc], ?_, ?_⟩
    · simpa using h₂
    · simp only [Machine.Always, h.waitsUnread_iff, hs, Option.some.injEq, forall_eq']
      rw [hiff, ← List.append_assoc]
      refine and_iff_right_of_imp fun hl ↦ ?_
      rw [load_append, load_append] at hl
      omega

end Unread

theorem Unread.waits_forever {done : List (DspMessage P)} {out o : List (Event P)}
    {s s' : System P w} (h : Unread done out s) (hw : WaitsUnread s) {is : List Input}
    (hrun : Machine.exec Dispatch.step s is = some (s', o)) : WaitsUnread s' := by
  obtain ⟨taken, -, h', -⟩ := h.always_iff hrun
  rw [h.waitsUnread_iff] at hw
  rw [h'.waitsUnread_iff, load_append]
  omega

theorem Unread.run_waitsUnread {done l : List (DspMessage P)} {out : List (Event P)}
    {s : System P w} {m : DspMessage P} (h : Unread done out s) (hf : s.fapi = .receiving)
    (hq : s.requested = true) (hr : s.ring = l ++ [m]) (hload : ∀ q, load q (done ++ l) ≤ 64)
    (hover : 64 < load (.p7 .other) (done ++ (l ++ [m]))) :
    ∃ is s' o, Machine.exec Dispatch.step s is = some (s', o) ∧
      s'.dispatcher = s.dispatcher ∧ Unread (done ++ (l ++ [m])) (out ++ o) s' ∧
      WaitsUnread s' := by
  obtain ⟨is, s₁, o₁, hp, -⟩ := run_passes h.tracks hf hq hr hload
  have hr₁ : s₁.ring = [m] := (List.append_cancel_left (hr.symm.trans hp.ring)).symm
  have hstep := fapiStep_receive hp.fapi hr₁ (available_of_requested (hp.requested.trans hq) m)
  obtain ⟨s', o', hs⟩ : ∃ s' o', fapiStep s₁ = some (s', o') := ⟨_, _, hstep⟩
  have hrun := Machine.exec_append hp.run
    (show Machine.exec Dispatch.step s₁ [.fapi] = some (s', o' ++ []) by
      simp [Machine.exec, Dispatch.step, hs])
  obtain ⟨taken, hr', hu, -⟩ := h.always_iff hrun
  have hring : s'.ring = [] := by
    obtain rfl : _ = s' := congrArg Prod.fst (Option.some.inj (hstep.symm.trans hs))
    exact process_ring _ m
  have htaken : l ++ [m] = taken := by
    rw [← hr, hr', hring, List.append_nil]
  subst htaken
  refine ⟨_, s', _, hrun, ?_, hu, hu.waitsUnread_iff.2 hover⟩
  rw [(fapiStep_dispatcher hs).1, hp.dispatcher]

/-- In a run that takes `done` from the ring, `fapi_thread` never waits for room in a queue
without a reader exactly if at most 64 of these messages have a `message_id` that
`fapi_b4860_process_p7_message` does not route. -/
theorem never_waitsUnread_iff {ms done : List (DspMessage P)} {is : List Input}
    {s : System P w} {out : List (Event P)}
    (h : Machine.exec step (start ms) is = some (s, out)) (hms : ms = done ++ s.ring) :
    Machine.Always step (¬ WaitsUnread ·) (start ms : System P w) is ↔
      load (.p7 .other) done ≤ 64 := by
  obtain ⟨taken, hr, -, hiff⟩ := (start_unread ms).always_iff h
  have htaken : done = taken := List.append_cancel_right (hms.symm.trans hr)
  rw [htaken]
  exact hiff

theorem never_waitsUnread_iff_one :
    Machine.Always step (¬ WaitsUnread ·) (start [.p7Ind .other 1] : System ℕ 32) [.fapi] := by
  have hrun : Machine.exec step (start [.p7Ind .other 1] : System ℕ 32) [.fapi] =
    some (_, _) := rfl
  exact (never_waitsUnread_iff hrun (List.append_nil _).symm).2 (by decide)

def firstSubframe : List Input :=
  [.dispatcher true, .fapi, .dispatcher true, .fapi] ++ List.replicate 8 (.dispatcher true)

def configured : List (DspMessage ℕ) :=
  [.p5Ind true 1, .p7Ind .subframe 1]

def unknownIds (n : ℕ) : List (DspMessage ℕ) :=
  List.replicate n (.p7Ind .other 1)

theorem run_firstSubframe :
    ∃ (s : System ℕ 32) (out : List (Event ℕ)),
      Machine.exec step (start (configured ++ unknownIds 65)) firstSubframe = some (s, out) ∧
      s.fapi = .receiving ∧ s.dispatcher = .connected ∧ s.requested = true ∧
      s.ring = unknownIds 65 := by
  have h : (Machine.exec step (start (configured ++ unknownIds 65) : System ℕ 32)
      firstSubframe).map (fun r ↦ (r.1.fapi, r.1.dispatcher, r.1.requested, r.1.ring)) =
      some (.receiving, .connected, true, unknownIds 65) := by
    decide +kernel
  obtain ⟨⟨s, out⟩, hrun, hs⟩ := Option.map_eq_some_iff.1 h
  simp only [Prod.mk.injEq] at hs
  exact ⟨s, out, hrun, hs⟩

theorem load_unknownIds (q : QueueId) : load q (configured ++ unknownIds 64) ≤ 64 := by
  cases q with
  | p7 i => cases i <;> decide +kernel
  | _ => decide +kernel

/-- After a first subframe 65 indications with unknown ids come in, and `fapi_thread` is lost. -/
theorem unknown_ids_block :
    ∃ is, ∃ (s : System ℕ 32) (out : List (Event ℕ)),
      Machine.exec step (start (configured ++ unknownIds 65)) (firstSubframe ++ is) =
        some (s, out) ∧
      s.dispatcher = .connected ∧ WaitsUnread s ∧
      ∀ is' s' out', Machine.exec step s is' = some (s', out') → WaitsUnread s' := by
  obtain ⟨s₁, out₁, hrun₁, hf, hd, hq, hr⟩ := run_firstSubframe
  obtain ⟨done, hms, hu, -⟩ := (start_unread (configured ++ unknownIds 65)).always_iff hrun₁
  rw [hr] at hms
  obtain rfl : configured = done := List.append_cancel_right hms
  obtain ⟨is, s, o, hrun, hd', hu', hw⟩ := hu.run_waitsUnread hf hq
    (hr.trans List.replicate_succ') load_unknownIds (by decide +kernel)
  exact ⟨is, s, _, Machine.exec_append hrun₁ hrun, hd'.trans hd, hw,
    fun is' s' out' h ↦ hu'.waits_forever hw h⟩

end EnbL1Ppc.Fapi.Dispatch
