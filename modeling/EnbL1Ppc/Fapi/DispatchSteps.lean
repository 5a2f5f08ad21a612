import EnbL1Ppc.Fapi.Dispatch

namespace EnbL1Ppc.Fapi.Dispatch

open Lib EnbL1Ppc.Core

variable {P : Type} {w : ℕ}

structure Unbroken (q : BlockQueue P w) : Prop where
  len : q.len = 64
  pushBreakFlag : q.pushBreakFlag = false
  popBreakFlag : q.popBreakFlag = false

theorem Unbroken.store {q : BlockQueue P w} (h : Unbroken q) (body : P) (n : ℤ) :
    Unbroken (q.store body n) :=
  ⟨h.len, h.pushBreakFlag, h.popBreakFlag⟩

theorem Unbroken.push_eq {q : BlockQueue P w} (h : Unbroken q) (body : P) (n : ℤ) :
    q.push body n = if q.numItems = 64 then none else some (q.store body n, true) := by
  simp [BlockQueue.push, BlockQueue.pushBody, h.pushBreakFlag, h.len]

theorem Unbroken.tryPush {q : BlockQueue P w} (h : Unbroken q) (body : P) (n : ℤ) :
    Unbroken (q.tryPush body n).1 := by
  unfold BlockQueue.tryPush
  split
  · exact h
  · exact h.store body n

structure Popped (q q' : BlockQueue P w) : Prop where
  unbroken : Unbroken q'
  numItems_le : q'.numItems ≤ q.numItems

theorem Unbroken.tryPop {q : BlockQueue P w} (h : Unbroken q) : Popped q q.tryPop.1 := by
  unfold BlockQueue.tryPop
  split
  · exact ⟨h, le_rfl⟩
  · exact ⟨⟨h.len, h.pushBreakFlag, h.popBreakFlag⟩, by simp⟩

theorem Unbroken.popBody [Inhabited P] {q : BlockQueue P w} (h : Unbroken q) :
    Popped q q.popBody.1 :=
  ⟨⟨h.len, h.pushBreakFlag, rfl⟩, by simp [BlockQueue.popBody]⟩

theorem Unbroken.popLastBody [Inhabited P] {q : BlockQueue P w} (h : Unbroken q) :
    Popped q q.popLastBody.1 :=
  ⟨⟨h.len, h.pushBreakFlag, rfl⟩, by simp [BlockQueue.popLastBody, BlockQueue.popBody]⟩

theorem Unbroken.pop_eq [Inhabited P] {q : BlockQueue P w} (h : Unbroken q) :
    q.pop = if q.numItems = 0 then none else some q.popBody := by
  simp [BlockQueue.pop, h.popBreakFlag]

theorem Unbroken.popLast_eq [Inhabited P] {q : BlockQueue P w} (h : Unbroken q) :
    q.popLast = if q.numItems = 0 then none else some q.popLastBody := by
  simp [BlockQueue.popLast, h.popBreakFlag]

theorem init_unbroken [Inhabited P] : Unbroken (BlockQueue.init 64 : BlockQueue P w) := by
  have h : (BlockQueue.powerOfTwoRoundUp 64).toNat = 64 := by decide
  exact ⟨h, rfl, rfl⟩

def Dispatcher.Configures (d : Dispatcher) : Prop :=
  d = .configuring ∨ d = .requesting ∨ d = .awaitingResponse

inductive Stepped (s : System P w) : System P w → List (Event P) → Prop
  | store {m ring q} (body : P) (hf : s.fapi = .receiving) (hr : s.ring = m :: ring)
      (hm : m.queue? = some q) (hn : (s.queues q).numItems ≠ 64) :
      Stepped s { setQueue s q ((s.queues q).store body headerSize) with ring := ring }
        [.stored m]
  | block {m ring q} (body : P) (hf : s.fapi = .receiving) (hr : s.ring = m :: ring)
      (hm : m.queue? = some q) (hn : (s.queues q).numItems = 64) :
      Stepped s { s with ring := ring, fapi := .awaitingRoom q body m } []
  | skip {m ring bq} (hf : s.fapi = .receiving) (hr : s.ring = m :: ring)
      (hm : m.queue? = none) (hb : Unbroken bq) :
      Stepped s { setQueue s .p8 bq with ring := ring } []
  | resume {m q body} (hf : s.fapi = .awaitingRoom q body m) (hn : (s.queues q).numItems ≠ 64) :
      Stepped s { setQueue s q ((s.queues q).store body headerSize) with fapi := .receiving }
        [.stored m]
  | stay {m q body} (hf : s.fapi = .awaitingRoom q body m) (hn : (s.queues q).numItems = 64) :
      Stepped s s []
  | configure {d b} (hd : s.dispatcher.Configures) :
      Stepped s { s with dispatcher := d, requested := b } []
  | run {d i bq} (hd : ¬ d.Configures) (hb : Popped (s.queues i) bq) :
      Stepped s { setQueue s i bq with dispatcher := d } []

theorem setQueue_self (s : System P w) (q : QueueId) : setQueue s q (s.queues q) = s := by
  simp [setQueue]

theorem Popped.refl {q : BlockQueue P w} (h : Unbroken q) : Popped q q :=
  ⟨h, le_rfl⟩

theorem Stepped.idle {s : System P w} (hu : ∀ q, Unbroken (s.queues q)) {d : Dispatcher}
    (hd : ¬ d.Configures) : Stepped s { s with dispatcher := d } [] := by
  have h := Stepped.run (i := .p5) hd (Popped.refl (hu .p5))
  rwa [setQueue_self] at h

theorem Stepped.skip_self {s : System P w} (hu : ∀ q, Unbroken (s.queues q))
    {m : DspMessage P} {ring : List (DspMessage P)} (hf : s.fapi = .receiving)
    (hr : s.ring = m :: ring) (hm : m.queue? = none) : Stepped s { s with ring := ring } [] := by
  have h := Stepped.skip hf hr hm (hu .p8)
  rwa [setQueue_self] at h

theorem process_cases {s : System P w} (hu : ∀ q, Unbroken (s.queues q)) {m : DspMessage P}
    {ring : List (DspMessage P)} (hf : s.fapi = .receiving) (hr : s.ring = m :: ring) :
    Stepped s (process { s with ring := ring } m).1 (process { s with ring := ring } m).2 := by
  have push : ∀ {q body}, m.queue? = some q →
      Stepped s
        (pushed { s with ring := ring } q body m ((s.queues q).push body headerSize)).1
        (pushed { s with ring := ring } q body m ((s.queues q).push body headerSize)).2 := by
    intro q body hm
    rw [(hu q).push_eq]
    split
    · next hn => exact .block body hf hr hm hn
    · next hn =>
      have h := Stepped.store body hf hr hm hn
      simpa [pushed, setQueue, ← hf] using h
  cases m with
  | p5Ind r body => exact push rfl
  | p7Ind i body => exact push rfl
  | p8Ind body => exact .skip hf hr rfl ((hu .p8).tryPush body headerSize)
  | cpriEth => exact .skip_self hu hf hr rfl
  | log => exact .skip_self hu hf hr rfl
  | ignored => exact .skip_self hu hf hr rfl

theorem fapiStep_cases {s s' : System P w} {o : List (Event P)}
    (hu : ∀ q, Unbroken (s.queues q)) (h : fapiStep s = some (s', o)) : Stepped s s' o := by
  unfold fapiStep at h
  split at h
  · next q body m hf =>
    rw [BlockQueue.pushWake_eq, (hu q).push_eq] at h
    split at h
    · next hn =>
      obtain ⟨rfl, rfl⟩ : s = s' ∧ [] = o := by simpa [pushed, ← hf] using h
      exact .stay hf hn
    · next hn =>
      cases h
      exact .resume hf hn
  · next hf =>
    split at h
    · cases h
    · next m ring hr =>
      split at h
      · obtain ⟨hs, ho⟩ := Prod.ext_iff.1 (Option.some.inj h)
        have hp := process_cases hu hf hr
        rwa [hs, ho] at hp
      · cases h

theorem pushed_dispatcher (s : System P w) (q : QueueId) (body : P) (m : DspMessage P)
    (r : Option (BlockQueue P w × Bool)) :
    (pushed s q body m r).1.dispatcher = s.dispatcher ∧
      (pushed s q body m r).1.requested = s.requested := by
  cases r <;> exact ⟨rfl, rfl⟩

theorem fapiStep_dispatcher {s s' : System P w} {o : List (Event P)}
    (h : fapiStep s = some (s', o)) :
    s'.dispatcher = s.dispatcher ∧ s'.requested = s.requested := by
  unfold fapiStep at h
  split at h
  · obtain rfl : _ = s' := congrArg Prod.fst (Option.some.inj h)
    exact pushed_dispatcher _ _ _ _ _
  · split at h
    · cases h
    · next m ring _ =>
      split at h
      · obtain rfl : _ = s' := congrArg Prod.fst (Option.some.inj h)
        cases m with
        | p5Ind r body => exact pushed_dispatcher _ _ _ _ _
        | p7Ind i body => exact pushed_dispatcher _ _ _ _ _
        | _ => exact ⟨rfl, rfl⟩
      · cases h

theorem responded_cases [Inhabited P] {s : System P w} (hu : ∀ q, Unbroken (s.queues q))
    (hd : s.dispatcher.Configures) : Stepped s (responded s (s.queues .p5).pop) [] := by
  rw [(hu .p5).pop_eq]
  split
  · exact .configure (b := s.requested) hd
  · exact .run (by simp [Dispatcher.Configures]) (hu .p5).popBody

variable [Inhabited P] [DecidableEq P]

theorem subframeReceived_cases {s : System P w} (hu : ∀ q, Unbroken (s.queues q)) :
    Stepped s (subframeReceived s (s.queues (.p7 .subframe)).popLast) [] := by
  have hd (c : Prop) [Decidable c] :
      ¬ Dispatcher.Configures (if c then .connected else .draining drainOrder) := by
    split <;> simp [Dispatcher.Configures]
  rw [(hu _).popLast_eq]
  split
  · exact .idle hu (by simp [Dispatcher.Configures])
  · exact .run (hd _) (hu _).popLastBody

theorem dispatcherStep_cases {s : System P w} (hu : ∀ q, Unbroken (s.queues q)) (sent : Bool) :
    Stepped s (dispatcherStep s sent) [] := by
  unfold dispatcherStep
  split
  · next hd =>
    have hc : s.dispatcher.Configures := .inl hd
    cases sent
    · exact .configure (b := s.requested) hc
    · exact .configure hc
  · next hd => exact responded_cases hu (.inr (.inl hd))
  · next hd =>
    rw [BlockQueue.popWake_eq]
    exact responded_cases hu (.inr (.inr hd))
  · exact subframeReceived_cases hu
  · rw [BlockQueue.popLastWake_eq]
    exact subframeReceived_cases hu
  · exact .idle hu (by simp [Dispatcher.Configures])
  · next i qs hd =>
    have hp := (hu (.p7 i)).tryPop
    have hs : { setQueue s (.p7 i) (s.queues (.p7 i)).tryPop.1 with
        dispatcher := s.dispatcher } = setQueue s (.p7 i) (s.queues (.p7 i)).tryPop.1 := rfl
    unfold drainOne
    split
    · exact .idle hu (by simp [Dispatcher.Configures])
    · next bq body ht =>
      rw [ht] at hp hs
      rw [← hs, hd]
      exact .run (by simp [Dispatcher.Configures]) hp

theorem step_cases {s s' : System P w} {i : Input} {o : List (Event P)}
    (hu : ∀ q, Unbroken (s.queues q)) (h : step s i = some (s', o)) : Stepped s s' o := by
  cases i with
  | fapi => exact fapiStep_cases hu h
  | dispatcher sent =>
    obtain ⟨rfl, rfl⟩ := Prod.ext_iff.1 (Option.some.inj h)
    exact dispatcherStep_cases hu sent

theorem dispatcherStep_requested {s : System P w}
    (h : s.requested = true ∨ s.dispatcher = .configuring) :
    (dispatcherStep s true).requested = true := by
  unfold dispatcherStep
  rcases h with h | h
  · split
    · rfl
    · cases (s.queues .p5).pop <;> exact h
    · cases (s.queues .p5).popWake <;> exact h
    · cases (s.queues (.p7 .subframe)).popLast <;> exact h
    · cases (s.queues (.p7 .subframe)).popLastWake <;> exact h
    · exact h
    · unfold drainOne
      split <;> exact h
  · rw [h]
    rfl

end EnbL1Ppc.Fapi.Dispatch
