import EnbL1Ppc.Fapi.DispatchSteps

namespace EnbL1Ppc.Fapi.Dispatch

open Lib EnbL1Ppc.Core

variable {P : Type} {w : ℕ}

def pending (s : System P w) : List (DspMessage P) :=
  match s.fapi with
  | .receiving => []
  | .awaitingRoom _ _ m => [m]

@[simp] theorem load_nil (q : QueueId) : load q ([] : List (DspMessage P)) = 0 := rfl

@[simp] theorem load_append (q : QueueId) (ms ms' : List (DspMessage P)) :
    load q (ms ++ ms') = load q ms + load q ms' :=
  List.countP_append

theorem load_singleton (q : QueueId) (m : DspMessage P) :
    load q [m] = if m.queue? = some q then 1 else 0 := by
  simp [load, List.countP_singleton]

def account (s : System P w) (q : QueueId) : ℤ :=
  (s.queues q).numItems + load q (pending s)

theorem pending_of_receiving {s : System P w} (hf : s.fapi = .receiving) : pending s = [] := by
  simp [pending, hf]

theorem pending_of_awaiting {s : System P w} {q : QueueId} {body : P} {m : DspMessage P}
    (hf : s.fapi = .awaitingRoom q body m) : pending s = [m] := by
  simp [pending, hf]

@[simp] theorem setQueue_queues_self (s : System P w) (q : QueueId) (bq : BlockQueue P w) :
    (setQueue s q bq).queues q = bq := by
  simp [setQueue]

theorem setQueue_queues_of_ne (s : System P w) {q q' : QueueId} (h : q' ≠ q)
    (bq : BlockQueue P w) : (setQueue s q bq).queues q' = s.queues q' := by
  simp [setQueue, h]

theorem setQueue_unbroken {s : System P w} (hu : ∀ q, Unbroken (s.queues q)) {q : QueueId}
    {bq : BlockQueue P w} (hb : Unbroken bq) (q' : QueueId) :
    Unbroken ((setQueue s q bq).queues q') := by
  rcases eq_or_ne q' q with rfl | hne
  · rwa [setQueue_queues_self]
  · rw [setQueue_queues_of_ne s hne]
    exact hu q'

/-- The messages `taken` by one step: they are stored or left pending after what was pending,
and the accounts grow by their load. Pops come only after the configuration. -/
structure Takes (taken : List (DspMessage P)) (s s' : System P w) (o : List (Event P)) : Prop where
  ring : s.ring = taken ++ s'.ring
  unbroken : ∀ q, Unbroken (s'.queues q)
  stored : o ++ (pending s').map .stored =
    (pending s ++ taken.filter (·.queue?.isSome)).map .stored
  account_le : ∀ q ≠ .p8, account s' q ≤ account s q + load q taken
  account_eq : s'.dispatcher.Configures → s.dispatcher.Configures ∧
    ∀ q ≠ .p8, account s' q = account s q + load q taken
  blocked : ∀ q body m, s'.fapi = .awaitingRoom q body m →
    taken = [] ∧ s.fapi = .awaitingRoom q body m ∨
      taken = [m] ∧ m.queue? = some q ∧ account s q = 64

theorem load_filter (q : QueueId) (ms : List (DspMessage P)) :
    load q (ms.filter (·.queue?.isSome)) = load q ms := by
  unfold load
  rw [List.countP_filter]
  refine List.countP_congr fun m _ ↦ ?_
  cases hm : m.queue? <;> simp

section Takes

variable {s s' : System P w} {taken : List (DspMessage P)}

theorem Takes.store {m : DspMessage P} {q : QueueId} {body : P}
    (hu : ∀ q, Unbroken (s.queues q)) (hr : s.ring = taken ++ s'.ring)
    (hp : pending s ++ taken.filter (·.queue?.isSome) = [m]) (hm : m.queue? = some q)
    (hq : s'.queues = (setQueue s q ((s.queues q).store body headerSize)).queues)
    (hf : s'.fapi = .receiving) (hd : s'.dispatcher = s.dispatcher) :
    Takes taken s s' [.stored m] := by
  have ha (q') : account s' q' = account s q' + load q' taken := by
    have hl : load q' (pending s) + load q' taken = if q = q' then 1 else 0 := by
      rw [← load_filter q' taken, ← load_append, hp, load_singleton, hm]
      simp
    unfold account
    rw [hq, pending_of_receiving hf, load_nil]
    rcases eq_or_ne q' q with rfl | hne
    · rw [setQueue_queues_self, BlockQueue.store_numItems]
      rw [if_pos rfl] at hl
      omega
    · rw [setQueue_queues_of_ne s hne]
      rw [if_neg hne.symm] at hl
      omega
  refine ⟨hr, ?_, ?_, fun q' _ ↦ (ha q').le, fun hc ↦ ⟨hd ▸ hc, fun q' _ ↦ ha q'⟩, ?_⟩
  · rw [hq]
    exact setQueue_unbroken hu ((hu q).store body headerSize)
  · rw [hp, pending_of_receiving hf]
    rfl
  · intro q' body' m' h
    rw [hf] at h
    cases h

theorem Takes.block {m : DspMessage P} {q : QueueId} {body : P}
    (hu : ∀ q, Unbroken (s.queues q)) (hr : s.ring = m :: s'.ring) (hm : m.queue? = some q)
    (hf : s.fapi = .receiving) (hf' : s'.fapi = .awaitingRoom q body m)
    (hq : s'.queues = s.queues) (hd : s'.dispatcher = s.dispatcher)
    (hn : (s.queues q).numItems = 64) : Takes [m] s s' [] := by
  have ha (q') : account s' q' = account s q' + load q' [m] := by
    unfold account
    rw [hq, pending_of_receiving hf, pending_of_awaiting hf', load_nil]
    omega
  refine ⟨hr, hq ▸ hu, ?_, fun q' _ ↦ (ha q').le, fun hc ↦ ⟨hd ▸ hc, fun q' _ ↦ ha q'⟩, ?_⟩
  · rw [pending_of_receiving hf, pending_of_awaiting hf']
    simp [hm]
  · intro q' body' m' h
    obtain ⟨rfl, rfl, rfl⟩ : q = q' ∧ body = body' ∧ m = m' := by simpa [hf'] using h
    refine .inr ⟨rfl, hm, ?_⟩
    simp [account, pending_of_receiving hf, hn]

theorem Takes.quiet (hu : ∀ q, Unbroken (s'.queues q)) (hr : s.ring = taken ++ s'.ring)
    (ht : taken.filter (·.queue?.isSome) = []) (hf : s'.fapi = s.fapi)
    (hw : taken = [] ∨ s.fapi = .receiving)
    (hle : ∀ q ≠ .p8, (s'.queues q).numItems ≤ (s.queues q).numItems)
    (heq : s'.dispatcher.Configures → s.dispatcher.Configures ∧
      ∀ q ≠ .p8, (s'.queues q).numItems = (s.queues q).numItems) : Takes taken s s' [] := by
  have hp : pending s' = pending s := by simp only [pending, hf]
  have hl (q) : load q taken = 0 := by rw [← load_filter, ht, load_nil]
  refine ⟨hr, hu, by simp [hp, ht], ?_, ?_, ?_⟩
  · intro q hq
    have h := hle q hq
    simp only [account, hp, hl]
    omega
  · intro hc
    refine ⟨(heq hc).1, fun q hq ↦ ?_⟩
    simp only [account, hp, hl, (heq hc).2 q hq]
    omega
  · intro q body m h
    rw [hf] at h
    rcases hw with rfl | hw
    · exact .inl ⟨rfl, h⟩
    · rw [hw] at h
      cases h

end Takes

theorem Stepped.takes {s s' : System P w} {o : List (Event P)} (h : Stepped s s' o)
    (hu : ∀ q, Unbroken (s.queues q))
    (hw : ∀ q body m, s.fapi = .awaitingRoom q body m → m.queue? = some q) :
    ∃ taken, Takes taken s s' o := by
  cases h with
  | @store m ring q body hf hr hm hn =>
    refine ⟨[m], .store hu hr ?_ hm rfl hf rfl⟩
    simp [pending_of_receiving hf, hm]
  | @block m ring q body hf hr hm hn =>
    exact ⟨[m], .block hu hr hm hf rfl rfl rfl hn⟩
  | @skip m ring bq hf hr hm hb =>
    have hn (q : QueueId) (hq : q ≠ .p8) : (setQueue s .p8 bq).queues q = s.queues q :=
      setQueue_queues_of_ne s hq bq
    refine ⟨[m], .quiet (setQueue_unbroken hu hb) hr (by simp [hm]) rfl (.inr hf) ?_ ?_⟩
    · intro q hq
      exact (congrArg BlockQueue.numItems (hn q hq)).le
    · intro hc
      exact ⟨hc, fun q hq ↦ congrArg BlockQueue.numItems (hn q hq)⟩
  | @resume m q body hf hn =>
    refine ⟨[], .store hu rfl ?_ (hw q body m hf) rfl rfl rfl⟩
    simp [pending_of_awaiting hf]
  | stay hf hn =>
    exact ⟨[], .quiet hu rfl rfl rfl (.inl rfl) (fun _ _ ↦ le_rfl) fun hc ↦ ⟨hc, fun _ _ ↦ rfl⟩⟩
  | configure hd =>
    exact ⟨[], .quiet hu rfl rfl rfl (.inl rfl) (fun _ _ ↦ le_rfl) fun _ ↦ ⟨hd, fun _ _ ↦ rfl⟩⟩
  | @run d i bq hd hb =>
    refine ⟨[], .quiet (setQueue_unbroken hu hb.unbroken) rfl rfl rfl (.inl rfl) ?_
      fun hc ↦ absurd hc hd⟩
    intro q _
    change ((setQueue s i bq).queues q).numItems ≤ _
    rcases eq_or_ne q i with rfl | hne
    · rw [setQueue_queues_self]
      exact hb.numItems_le
    · rw [setQueue_queues_of_ne s hne]

/-- `done` are the messages taken off the ring so far. They bound every account, exactly so
until the configuration ends, and a message that waits is the last of them. -/
structure Tracks (done : List (DspMessage P)) (out : List (Event P)) (s : System P w) : Prop where
  unbroken : ∀ q, Unbroken (s.queues q)
  stored : out ++ (pending s).map .stored = (done.filter (·.queue?.isSome)).map .stored
  account_le : ∀ q ≠ .p8, account s q ≤ load q done
  account_eq : s.dispatcher.Configures → ∀ q ≠ .p8, account s q = load q done
  waits : ∀ q body m, s.fapi = .awaitingRoom q body m →
    m.queue? = some q ∧ q ≠ .p8 ∧ 64 < load q done ∧ ∃ done', done = done' ++ [m]

theorem start_tracks [Inhabited P] (ms : List (DspMessage P)) :
    Tracks [] [] (start ms : System P w) where
  unbroken _ := init_unbroken
  stored := rfl
  account_le _ _ := le_rfl
  account_eq _ _ _ := rfl
  waits := by simp [start]

theorem queue?_ne_p8 {m : DspMessage P} {q : QueueId} (hm : m.queue? = some q) : q ≠ .p8 := by
  rintro rfl
  cases m <;> simp [DspMessage.queue?] at hm

theorem Tracks.takes {done taken : List (DspMessage P)} {out o : List (Event P)}
    {s s' : System P w} (h : Tracks done out s) (ht : Takes taken s s' o) :
    Tracks (done ++ taken) (out ++ o) s' where
  unbroken := ht.unbroken
  stored := by
    rw [List.append_assoc, ht.stored, List.map_append, ← List.append_assoc, h.stored,
      List.filter_append, List.map_append]
  account_le q hq := by
    have hle := ht.account_le q hq
    have hle' := h.account_le q hq
    rw [load_append]
    omega
  account_eq hd q hq := by
    obtain ⟨hd', heq⟩ := ht.account_eq hd
    have heq' := h.account_eq hd' q hq
    rw [load_append, heq q hq, heq']
    simp
  waits q body m hf := by
    rcases ht.blocked q body m hf with ⟨rfl, hf'⟩ | ⟨rfl, hm, hn⟩
    · simpa using h.waits q body m hf'
    · have hle := h.account_le q (queue?_ne_p8 hm)
      refine ⟨hm, queue?_ne_p8 hm, ?_, done, rfl⟩
      rw [load_append, load_singleton, if_pos hm]
      omega

theorem Tracks.stored_mem {s : System P w} {done : List (DspMessage P)} {out : List (Event P)}
    (ht : Tracks done out s) (hf : s.fapi = .receiving) {m : DspMessage P} {q : QueueId}
    (hm : m ∈ done) (hq : m.queue? = some q) : .stored m ∈ out := by
  have hs := ht.stored
  rw [pending_of_receiving hf, List.map_nil, List.append_nil] at hs
  rw [hs]
  exact List.mem_map_of_mem (List.mem_filter.2 ⟨hm, by simp [hq]⟩)

theorem Tracks.stored_of_append {s : System P w} {done : List (DspMessage P)}
    {out : List (Event P)} (ht : Tracks done out s) {pre l : List (DspMessage P)}
    {m : DspMessage P} {q : QueueId} (hq : m.queue? = some q) (hdone : done = pre ++ m :: l)
    (hload : load q (pre ++ [m]) ≤ 64) : .stored m ∈ out := by
  cases hf : s.fapi with
  | receiving => exact ht.stored_mem hf (by simp [hdone]) hq
  | awaitingRoom q' body m' =>
    obtain ⟨hm', -, hl, done', hdone'⟩ := ht.waits _ _ _ hf
    have hs := ht.stored
    rw [pending_of_awaiting hf, hdone', List.filter_append, List.map_append,
      List.filter_singleton, hm'] at hs
    rcases List.eq_nil_or_concat l with rfl | ⟨l', m'', rfl⟩
    · obtain ⟨-, rfl⟩ : pre = done' ∧ m = m' := by simpa using hdone.symm.trans hdone'
      obtain rfl : q' = q := by simpa [hm'] using hq
      rw [hdone] at hl
      omega
    · have hd : done' = pre ++ m :: l' := by
        have := hdone'.symm.trans hdone
        rw [List.concat_eq_append, ← List.cons_append, ← List.append_assoc] at this
        exact (List.append_inj' this rfl).1
      have ho : out = (done'.filter (·.queue?.isSome)).map .stored :=
        List.append_cancel_right hs
      rw [ho, hd]
      exact List.mem_map_of_mem (List.mem_filter.2 ⟨by simp, by simp [hq]⟩)

theorem Tracks.mem_of_stored {s : System P w} {done : List (DspMessage P)} {out : List (Event P)}
    (ht : Tracks done out s) {m : DspMessage P} (hm : .stored m ∈ out) : m ∈ done := by
  have hs : Event.stored m ∈ out ++ (pending s).map .stored := List.mem_append_left _ hm
  rw [ht.stored] at hs
  obtain ⟨m', hm', h⟩ := List.mem_map.1 hs
  cases h
  exact (List.mem_filter.1 hm').1

def Reads (ms : List (DspMessage P)) (out : List (Event P)) (s : System P w) : Prop :=
  ∃ done, ms = done ++ s.ring ∧ Tracks done out s

variable [Inhabited P] [DecidableEq P] {ms : List (DspMessage P)} {out o : List (Event P)}
  {s s' : System P w}

theorem step_reads {i : Input} (h : Reads ms out s) (hs : step s i = some (s', o)) :
    Reads ms (out ++ o) s' := by
  obtain ⟨done, rfl, ht⟩ := h
  obtain ⟨taken, hk⟩ := (step_cases ht.unbroken hs).takes ht.unbroken
    fun q body m hf ↦ (ht.waits q body m hf).1
  exact ⟨done ++ taken, by rw [hk.ring, List.append_assoc], ht.takes hk⟩

theorem exec_reads {is : List Input} (h : Machine.exec step (start ms) is = some (s, out)) :
    Reads ms out s :=
  Machine.exec_history (g := fun _ _ ↦ True) (fun hR _ hs ↦ step_reads hR hs) []
    ⟨[], rfl, start_tracks ms⟩ (Machine.Along.of_forall (fun _ _ _ ↦ trivial) _) h

end EnbL1Ppc.Fapi.Dispatch
