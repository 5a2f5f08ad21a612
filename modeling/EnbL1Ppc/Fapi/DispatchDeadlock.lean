import Mathlib.Data.List.TakeWhile
import EnbL1Ppc.Fapi.DispatchAccounts

namespace EnbL1Ppc.Fapi.Dispatch

open Lib EnbL1Ppc.Core

variable {P : Type} {w : ℕ}

theorem load_pos_iff {q : QueueId} {ms : List (DspMessage P)} :
    0 < load q ms ↔ ∃ m ∈ ms, m.queue? = some q := by
  simp [load, List.countP_pos_iff]

theorem beforeP5_append {done ring : List (DspMessage P)} (h : load .p5 done = 0) :
    beforeP5 (done ++ ring) = done ++ beforeP5 ring := by
  unfold beforeP5
  refine List.takeWhile_append_of_pos fun m hm ↦ ?_
  have hne : m.queue? ≠ some .p5 := fun hq ↦ (load_pos_iff.2 ⟨m, hm, hq⟩).ne' h
  simpa using hne

theorem beforeP5_prefix (ms : List (DspMessage P)) :
    ∃ post, ms = beforeP5 ms ++ post ∧ load .p5 (beforeP5 ms) = 0 := by
  refine ⟨_, (List.takeWhile_append_dropWhile).symm, ?_⟩
  refine List.countP_eq_zero.2 fun m hm ↦ ?_
  simpa using List.mem_takeWhile_imp hm

theorem load_p8 (ms : List (DspMessage P)) : load .p8 ms = 0 :=
  List.countP_eq_zero.2 fun m _ ↦ by simpa using fun hm ↦ queue?_ne_p8 hm rfl

theorem exists_overflow {l : List (DspMessage P)} {q : QueueId} (h : 64 < load q l) :
    ∃ l₁ m l₂ q', l = l₁ ++ m :: l₂ ∧ (∀ q, load q l₁ ≤ 64) ∧ m.queue? = some q' ∧
      load q' l₁ = 64 := by
  induction l using List.reverseRecOn generalizing q with
  | nil => simp at h
  | append_singleton l m ih =>
    by_cases hl : ∀ q, load q l ≤ 64
    · have hle := hl q
      rw [load_append, load_singleton] at h
      split at h
      · next hm => exact ⟨l, m, [], q, rfl, hl, hm, by omega⟩
      · omega
    · push Not at hl
      obtain ⟨q₁, hq₁⟩ := hl
      obtain ⟨l₁, m', l₂, q', rfl, hl₁, hm', hq'⟩ := ih hq₁
      exact ⟨l₁, m', l₂ ++ [m], q', by simp, hl₁, hm', hq'⟩

theorem CircularWait.overload {s : System P w} {ms : List (DspMessage P)} {out : List (Event P)}
    (hc : CircularWait s) (h : Reads ms out s) : ∃ i, 64 < load (.p7 i) (beforeP5 ms) := by
  obtain ⟨hd, hn, i, body, m, -, hf, -⟩ := hc
  obtain ⟨done, rfl, ht⟩ := h
  obtain ⟨hm, -, hload, -⟩ := ht.waits _ _ _ hf
  have hp5 : load .p5 done = 0 := by
    have heq := ht.account_eq (.inr (.inr hd)) .p5 (by simp)
    rw [account, hn, pending_of_awaiting hf, load_singleton, hm] at heq
    simpa using heq.symm
  refine ⟨i, ?_⟩
  rw [beforeP5_append hp5, load_append]
  omega

section Receive

variable {s : System P w} {m : DspMessage P} {ring : List (DspMessage P)}

theorem process_room (hu : ∀ q, Unbroken (s.queues q)) (hf : s.fapi = .receiving)
    (hroom : ∀ q, m.queue? = some q → (s.queues q).numItems ≠ 64) :
    ∃ s' o, process s m = (s', o) ∧ s'.fapi = .receiving ∧ s'.ring = s.ring ∧
      s'.dispatcher = s.dispatcher ∧ s'.requested = s.requested := by
  have push : ∀ {q body}, m.queue? = some q →
      (s.queues q).push body headerSize = some ((s.queues q).store body headerSize, true) := by
    intro q body hm
    rw [(hu q).push_eq, if_neg (hroom q hm)]
  cases m with
  | p5Ind r body =>
    simp only [process, push rfl]
    exact ⟨_, _, rfl, rfl, rfl, rfl, rfl⟩
  | p7Ind i body =>
    simp only [process, processP7Message, push rfl]
    exact ⟨_, _, rfl, rfl, rfl, rfl, rfl⟩
  | p8Ind body => exact ⟨_, _, rfl, hf, rfl, rfl, rfl⟩
  | cpriEth => exact ⟨_, _, rfl, hf, rfl, rfl, rfl⟩
  | log => exact ⟨_, _, rfl, hf, rfl, rfl, rfl⟩
  | ignored => exact ⟨_, _, rfl, hf, rfl, rfl, rfl⟩

theorem process_full (hu : ∀ q, Unbroken (s.queues q)) {q : QueueId} (hm : m.queue? = some q)
    (hn : (s.queues q).numItems = 64) :
    ∃ body, process s m = ({ s with fapi := .awaitingRoom q body m }, []) := by
  have push : ∀ body, (s.queues q).push body headerSize = none := by
    intro body
    rw [(hu q).push_eq, if_pos hn]
  cases m with
  | p5Ind r body =>
    cases hm
    exact ⟨body, by rw [process, push]; rfl⟩
  | p7Ind i body =>
    cases hm
    exact ⟨body, by rw [process, processP7Message, push]; rfl⟩
  | p8Ind body => cases hm
  | cpriEth => cases hm
  | log => cases hm
  | ignored => cases hm

theorem fapiStep_receive (hf : s.fapi = .receiving) (hr : s.ring = m :: ring)
    (ha : available s m) : fapiStep s = some (process { s with ring := ring } m) := by
  simp [fapiStep, hf, hr, ha]

end Receive

theorem available_of_requested {s : System P w} (h : s.requested = true) (m : DspMessage P) :
    available s m = true := by
  unfold available
  split
  · exact h
  · rfl

variable [Inhabited P] [DecidableEq P]

structure Passes (l : List (DspMessage P)) (is : List Input) (s s' : System P w)
    (o : List (Event P)) : Prop where
  run : Machine.exec step s is = some (s', o)
  onlyFapi : ∀ i ∈ is, i = .fapi
  fapi : s'.fapi = .receiving
  ring : s.ring = l ++ s'.ring
  dispatcher : s'.dispatcher = s.dispatcher
  requested : s'.requested = s.requested

theorem receive_passes {s : System P w} {done ring : List (DspMessage P)} {out : List (Event P)}
    {m : DspMessage P} (ht : Tracks done out s) (hf : s.fapi = .receiving)
    (hq : s.requested = true) (hr : s.ring = m :: ring) (hload : ∀ q, load q (done ++ [m]) ≤ 64) :
    ∃ s' o, Passes [m] [.fapi] s s' o ∧ Tracks (done ++ [m]) (out ++ o) s' := by
  have hroom : ∀ q, m.queue? = some q → (s.queues q).numItems ≠ 64 := by
    intro q hm
    have hle := ht.account_le q (queue?_ne_p8 hm)
    have hl := hload q
    rw [load_append, load_singleton, if_pos hm] at hl
    rw [account, pending_of_receiving hf, load_nil] at hle
    omega
  have hs := fapiStep_receive hf hr (available_of_requested hq m)
  obtain ⟨s', o, hp, hf', hring, hd, hreq⟩ :=
    process_room (s := { s with ring := ring }) ht.unbroken hf hroom
  rw [hp] at hs
  obtain ⟨taken, hk⟩ := (fapiStep_cases ht.unbroken hs).takes ht.unbroken
    fun q body m hf ↦ (ht.waits q body m hf).1
  have htaken : [m] = taken := by
    have hk' := hk.ring
    rw [hr, hring] at hk'
    exact List.append_cancel_right hk'
  subst htaken
  refine ⟨s', o, ⟨?_, by simp, hf', hk.ring, hd, hreq⟩, ht.takes hk⟩
  simp [Machine.exec, step, hs]

theorem run_passes {l : List (DspMessage P)} {s : System P w} {done ring : List (DspMessage P)}
    {out : List (Event P)} (ht : Tracks done out s) (hf : s.fapi = .receiving)
    (hq : s.requested = true) (hr : s.ring = l ++ ring) (hload : ∀ q, load q (done ++ l) ≤ 64) :
    ∃ is s' o, Passes l is s s' o ∧ Tracks (done ++ l) (out ++ o) s' := by
  induction l generalizing s done out with
  | nil =>
    refine ⟨[], s, [], ⟨rfl, by simp, hf, rfl, rfl, rfl⟩, ?_⟩
    simpa using ht
  | cons m l ih =>
    have hload' : ∀ q, load q (done ++ [m]) ≤ 64 := by
      intro q
      have hl := hload q
      rw [List.append_cons, load_append] at hl
      omega
    obtain ⟨s₁, o₁, hp, ht₁⟩ := receive_passes ht hf hq hr hload'
    have hr₁ : s₁.ring = l ++ ring := by
      have hp' := hp.ring
      rw [hr] at hp'
      exact (List.cons.inj hp').2.symm
    rw [List.append_cons] at hload
    obtain ⟨is, s₂, o₂, hp₂, ht₂⟩ := ih ht₁ hp.fapi (hp.requested.trans hq) hr₁ hload
    refine ⟨[.fapi] ++ is, s₂, o₁ ++ o₂, ?_, ?_⟩
    · refine ⟨Machine.exec_append hp.run hp₂.run, ?_, hp₂.fapi, ?_,
        hp₂.dispatcher.trans hp.dispatcher, hp₂.requested.trans hp.requested⟩
      · intro i hi
        rcases List.mem_append.1 hi with hi | hi
        · exact hp.onlyFapi i hi
        · exact hp₂.onlyFapi i hi
      · rw [hp.ring, hp₂.ring]
        rfl
    · rw [List.append_cons, ← List.append_assoc]
      exact ht₂

theorem run_to_awaitingResponse (ms : List (DspMessage P)) :
    ∃ s : System P w, Machine.exec step (start ms) [.dispatcher true, .dispatcher true] =
        some (s, []) ∧ Tracks [] [] s ∧ s.fapi = .receiving ∧ s.dispatcher = .awaitingResponse ∧
      s.requested = true ∧ s.ring = ms := by
  have hrun : Machine.exec step (start ms : System P w) [.dispatcher true, .dispatcher true] =
      some ({ start ms with dispatcher := .awaitingResponse, requested := true }, []) := rfl
  obtain ⟨done, hms, ht⟩ := exec_reads hrun
  have hdone : done = [] := by simpa [start] using hms
  subst hdone
  exact ⟨_, hrun, ht, rfl, rfl, rfl, rfl⟩

theorem overload_blocks {pre : List (DspMessage P)} (post : List (DspMessage P))
    (hp5 : load .p5 pre = 0) {q : QueueId} (h : 64 < load q pre) :
    ∃ is done, ∃ (s : System P w) (out : List (Event P)), (∀ i ∈ is, i ≠ .dispatcher false) ∧
      Machine.exec step (start (pre ++ post)) is = some (s, out) ∧ done <+: pre ∧
      Tracks done out s ∧ s.dispatcher = .awaitingResponse ∧ (s.queues .p5).numItems = 0 ∧
      ∃ q body m, m ∈ pre ∧ m.queue? = some q ∧ s.fapi = .awaitingRoom q body m ∧
        (s.queues q).numItems = 64 := by
  obtain ⟨l₁, m, l₂, q', rfl, hl₁, hm, hq'⟩ := exists_overflow h
  obtain ⟨s₁, hrun₁, ht₁, hf₁, hd₁, hreq₁, hring₁⟩ :=
    run_to_awaitingResponse (w := w) (l₁ ++ m :: l₂ ++ post)
  have hring₁' : s₁.ring = l₁ ++ m :: (l₂ ++ post) := by simp [hring₁]
  obtain ⟨is, s₂, o₂, hp, ht₂⟩ := run_passes ht₁ hf₁ hreq₁ hring₁' (by simpa using hl₁)
  have hring₂ : s₂.ring = m :: (l₂ ++ post) :=
    (List.append_cancel_left (hring₁'.symm.trans hp.ring)).symm
  have hc : s₂.dispatcher.Configures := .inr (.inr (hp.dispatcher.trans hd₁))
  have hnum (q) (hq : q ≠ .p8) : (s₂.queues q).numItems = load q l₁ := by
    have heq := ht₂.account_eq hc q hq
    simpa [account, pending_of_receiving hp.fapi] using heq
  have hfull : (s₂.queues q').numItems = 64 := by
    rw [hnum q' (queue?_ne_p8 hm), hq']
    rfl
  have hlast := fapiStep_receive hp.fapi hring₂
    (available_of_requested (hp.requested.trans hreq₁) m)
  obtain ⟨body, hbody⟩ :=
    process_full (s := { s₂ with ring := l₂ ++ post }) (m := m) ht₂.unbroken hm hfull
  rw [hbody] at hlast
  have hrun := Machine.exec_append (Machine.exec_append hrun₁ hp.run)
    (show Machine.exec step s₂ [.fapi] = some (_, []) by simp [Machine.exec, step, hlast]; rfl)
  obtain ⟨done, hms, ht⟩ := exec_reads hrun
  have hdone : done = l₁ ++ [m] := by
    refine List.append_cancel_right (hms.symm.trans ?_)
    simp
  subst hdone
  have hp5' : load .p5 l₁ = 0 := by
    rw [load_append] at hp5
    omega
  refine ⟨_, _, _, _, ?_, hrun, ⟨l₂, by simp⟩, ht, hp.dispatcher.trans hd₁, ?_, q', body, m, by simp,
    hm, rfl, hfull⟩
  · intro i hi
    rcases List.mem_append.1 hi with hi | hi
    · rcases List.mem_append.1 hi with hi | hi
      · simp only [List.mem_cons, List.not_mem_nil, or_false, or_self] at hi
        simp [hi]
      · simp [hp.onlyFapi i hi]
    · simp [List.mem_singleton.1 hi]
  · exact (hnum .p5 (by simp)).trans (by simp [hp5'])

theorem blocked_forever {s s' : System P w} (hu : ∀ q, Unbroken (s.queues q))
    (hd : s.dispatcher = .awaitingResponse) (hp5 : (s.queues .p5).numItems = 0) {q : QueueId}
    {body : P} {m : DspMessage P} (hf : s.fapi = .awaitingRoom q body m)
    (hn : (s.queues q).numItems = 64) {is : List Input} {out : List (Event P)}
    (h : Machine.exec step s is = some (s', out)) : s' = s ∧ out = [] := by
  have hstay : ∀ i, step s i = some (s, []) := by
    intro i
    cases i with
    | fapi =>
      simp only [step, fapiStep, hf, BlockQueue.pushWake_eq, (hu q).push_eq, if_pos hn, pushed]
      rw [← hf]
    | dispatcher sent =>
      simp only [step, dispatcherStep, hd, BlockQueue.popWake_eq, (hu .p5).pop_eq, if_pos hp5,
        responded]
      rw [← hd]
  induction is generalizing out with
  | nil =>
    simp only [Machine.exec_nil, Option.some.injEq, Prod.mk.injEq] at h
    exact ⟨h.1.symm, h.2.symm⟩
  | cons i is ih =>
    obtain ⟨s₁, o, o', hs, he, rfl⟩ := Machine.exec_cons_some h
    rw [hstay i] at hs
    cases hs
    obtain ⟨rfl, rfl⟩ := ih he
    exact ⟨rfl, rfl⟩

def Delivers (w : ℕ) (ms : List (DspMessage P)) : Prop :=
  ∀ is (s : System P w) out, (∀ i ∈ is, i ≠ .dispatcher false) →
    Machine.exec step (start ms) is = some (s, out) →
    ∃ is' s' out', Machine.exec step s is' = some (s', out') ∧
      ∃ body, .stored (.p5Ind true body) ∈ out ++ out'

theorem exec_requested {is : List Input} {ms : List (DspMessage P)} {s : System P w}
    {out : List (Event P)} (hi : ∀ i ∈ is, i ≠ .dispatcher false)
    (h : Machine.exec step (start ms) is = some (s, out)) :
    s.requested = true ∨ s.dispatcher = .configuring := by
  refine Machine.exec_invariant (p := fun s ↦ s.requested = true ∨ s.dispatcher = .configuring)
    (g := fun _ i ↦ i ≠ Input.dispatcher false) ?_ (.inr rfl)
    (Machine.Along.of_forall (fun i hi' _ ↦ hi i hi') _) h
  intro s i s' o hs hg hstep
  cases i with
  | fapi =>
    obtain ⟨hd, hr⟩ := fapiStep_dispatcher hstep
    rwa [hd, hr]
  | dispatcher sent =>
    cases sent with
    | false => exact absurd rfl hg
    | true =>
      cases hstep
      exact .inl (dispatcherStep_requested hs)

theorem run_to_requested {s : System P w} {done : List (DspMessage P)} {out : List (Event P)}
    (ht : Tracks done out s) (h : s.requested = true ∨ s.dispatcher = .configuring) :
    ∃ is s', Machine.exec step s is = some (s', []) ∧ Tracks done out s' ∧ s'.requested = true ∧
      s'.fapi = s.fapi ∧ s'.ring = s.ring := by
  rcases h with h | h
  · exact ⟨[], s, rfl, ht, h, rfl, rfl⟩
  · refine ⟨[.dispatcher true], { s with dispatcher := .requesting, requested := true }, ?_, ?_, rfl,
      rfl, rfl⟩
    · simp [Machine.exec, step, dispatcherStep, h]
    · have hc : s.dispatcher.Configures := .inl h
      exact ⟨ht.unbroken, ht.stored, ht.account_le, fun _ ↦ ht.account_eq hc, ht.waits⟩

theorem run_to_response {s : System P w} {done l post : List (DspMessage P)}
    {out : List (Event P)} {body : P} (ht : Tracks done out s)
    (hreq : s.requested = true ∨ s.dispatcher = .configuring)
    (hring : s.ring = l ++ .p5Ind true body :: post)
    (h : ∀ q, load q (done ++ l ++ [.p5Ind true body]) ≤ 64) :
    ∃ is' s' out', Machine.exec step s is' = some (s', out') ∧
      .stored (.p5Ind true body) ∈ out ++ out' := by
  have hf : s.fapi = .receiving := by
    cases hf : s.fapi with
    | receiving => rfl
    | awaitingRoom q body' m =>
      obtain ⟨-, -, hl, -⟩ := ht.waits _ _ _ hf
      have hle := h q
      rw [load_append, load_append] at hle
      omega
  obtain ⟨is₁, s₁, hrun₁, ht₁, hreq₁, hf₁, hring₁⟩ := run_to_requested ht hreq
  have hring' : s₁.ring = (l ++ [.p5Ind true body]) ++ post := by simp [hring₁, hring]
  rw [List.append_assoc] at h
  obtain ⟨is₂, s₂, o₂, hp, ht₂⟩ := run_passes ht₁ (hf₁.trans hf) hreq₁ hring' h
  refine ⟨is₁ ++ is₂, s₂, o₂, by simpa using Machine.exec_append hrun₁ hp.run, ?_⟩
  exact ht₂.stored_mem (q := .p5) hp.fapi (by simp) rfl

theorem delivers_of_load_le {pre post : List (DspMessage P)} {body : P}
    (h : ∀ q, load q (pre ++ [.p5Ind true body]) ≤ 64) :
    Delivers w (pre ++ .p5Ind true body :: post) := by
  intro is s out hi hrun
  have hreq := exec_requested hi hrun
  obtain ⟨done, hms, ht⟩ := exec_reads hrun
  rcases List.append_eq_append_iff.1 hms with ⟨l, hdone, hring⟩ | ⟨l, rfl, hring⟩
  · cases l with
    | nil =>
      rw [List.append_nil] at hdone
      subst hdone
      obtain ⟨is', s', out', hrun', hmem⟩ :=
        run_to_response (l := []) ht hreq hring.symm (by simpa using h)
      exact ⟨is', s', out', hrun', body, hmem⟩
    | cons m l =>
      obtain ⟨rfl, -⟩ := List.cons.inj hring
      exact ⟨[], s, [], rfl, body, by simpa using ht.stored_of_append rfl hdone (h .p5)⟩
  · obtain ⟨is', s', out', hrun', hmem⟩ := run_to_response ht hreq hring h
    exact ⟨is', s', out', hrun', body, hmem⟩

theorem load_le_of_delivers {pre post : List (DspMessage P)} {body : P} (hp5 : load .p5 pre = 0)
    (h : Delivers w (pre ++ .p5Ind true body :: post)) (q : QueueId) : load q pre ≤ 64 := by
  by_contra hq
  obtain ⟨is, done, s, out, hi, hrun, hdone, ht, hd, hn, q', body', m, -, -, hf, hfull⟩ :=
    overload_blocks (w := w) (.p5Ind true body :: post) hp5 (not_le.1 hq)
  obtain ⟨is', s', out', hrun', body'', hmem⟩ := h is s out hi hrun
  obtain ⟨-, rfl⟩ := blocked_forever ht.unbroken hd hn hf hfull hrun'
  rw [List.append_nil] at hmem
  have hpos : 0 < load .p5 pre :=
    load_pos_iff.2 ⟨_, hdone.subset (ht.mem_of_stored hmem), rfl⟩
  omega

theorem overload_circularWait {pre : List (DspMessage P)} (post : List (DspMessage P))
    (hr : ∀ m ∈ pre, m.queue? ≠ some (.p7 .other)) (hp5 : load .p5 pre = 0) {q : QueueId}
    (h : 64 < load q pre) :
    ∃ is, ∃ (s : System P w) (out : List (Event P)),
      Machine.exec step (start (pre ++ post)) is = some (s, out) ∧ CircularWait s := by
  obtain ⟨is, done, s, out, -, hrun, -, ht, hd, hn, q', body, m, hmem, hm, hf, hfull⟩ :=
    overload_blocks (w := w) post hp5 h
  refine ⟨is, s, out, hrun, hd, hn, ?_⟩
  cases q' with
  | p5 => exact absurd (load_pos_iff.2 ⟨m, hmem, hm⟩) (by omega)
  | p8 => exact absurd rfl (queue?_ne_p8 hm)
  | p7 i =>
    have hne : i ≠ .other := fun he ↦ hr m hmem (he ▸ hm)
    exact ⟨i, body, m, hne, hf, by rw [hfull, (ht.unbroken _).len]; rfl⟩

/-- For DSP messages whose P7 indications are all of the routed types. The two threads never
wait for each other exactly when each of these types comes at most 64 times in front of the
first P5 indication. If that indication is the `CONFIG.response`, it is delivered in exactly
the same case; in general 64 messages for each queue up to the response are not too many. -/
theorem circularWait_unreachable_iff (ms : List (DspMessage P))
    (hr : ∀ m ∈ ms, m.queue? ≠ some (.p7 .other)) :
    ((∀ is (s : System P w) out, Machine.exec step (start ms) is = some (s, out) →
        ¬ CircularWait s) ↔ ∀ i, load (.p7 i) (beforeP5 ms) ≤ 64) ∧
      ∀ pre body post, ms = pre ++ .p5Ind true body :: post →
        (load .p5 pre = 0 → (Delivers w ms ↔ ∀ i, load (.p7 i) pre ≤ 64)) ∧
        ((∀ q, load q (pre ++ [.p5Ind true body]) ≤ 64) → Delivers w ms) := by
  refine ⟨⟨?_, ?_⟩, ?_⟩
  · intro h i
    by_contra hi
    obtain ⟨post, hms, hp5⟩ := beforeP5_prefix ms
    have hr' : ∀ m ∈ beforeP5 ms, m.queue? ≠ some (.p7 .other) := fun m hm ↦
      hr m (hms ▸ List.mem_append_left _ hm)
    obtain ⟨is, s, out, hrun, hc⟩ := overload_circularWait post hr' hp5 (not_le.1 hi)
    rw [← hms] at hrun
    exact h is s out hrun hc
  · intro h is s out hrun hc
    obtain ⟨i, hi⟩ := hc.overload (exec_reads hrun)
    exact absurd (h i) (not_le.2 hi)
  · rintro pre body post rfl
    refine ⟨fun hp5 ↦ ⟨fun h i ↦ load_le_of_delivers hp5 h _, fun h ↦ ?_⟩, delivers_of_load_le⟩
    refine delivers_of_load_le fun q ↦ ?_
    rw [load_append, load_singleton]
    cases q with
    | p5 => simp [hp5, DspMessage.queue?]
    | p7 i => simpa [DspMessage.queue?] using h i
    | p8 => simp [DspMessage.queue?, load_p8]

theorem circularWait_unreachable_iff_rach :
    (∀ m ∈ [DspMessage.p7Ind .rach 1, .p5Ind true 2], m.queue? ≠ some (.p7 .other)) ∧
      Delivers 64 [.p7Ind .rach 1, .p5Ind true 2] := by
  have hr : ∀ m ∈ [DspMessage.p7Ind .rach 1, .p5Ind true 2], m.queue? ≠ some (.p7 .other) := by
    decide
  refine ⟨hr, ((circularWait_unreachable_iff _ hr).2 [.p7Ind .rach 1] 2 [] rfl).2 fun q ↦ ?_⟩
  exact List.countP_le_length.trans (by decide)

/-- Sixty-five RACH indications in front of the response. -/
theorem rach_burst_deadlocks :
    (∃ is, ∃ (s : System ℕ 64) (out : List (Event ℕ)),
      Machine.exec step (start (List.replicate 65 (.p7Ind .rach 1) ++ [.p5Ind true 2])) is =
        some (s, out) ∧ CircularWait s) ∧
      ¬ Delivers 64 (List.replicate 65 (.p7Ind .rach 1) ++ [.p5Ind true 2]) := by
  have hload : load (.p7 .rach) (List.replicate 65 (DspMessage.p7Ind .rach 1)) = 65 := by decide
  have hp5 : load .p5 (List.replicate 65 (DspMessage.p7Ind .rach 1)) = 0 := by decide
  refine ⟨overload_circularWait _ ?_ hp5 (by rw [hload]; decide), fun h ↦ ?_⟩
  · intro m hm
    rw [List.eq_of_mem_replicate hm]
    decide
  · have hle := load_le_of_delivers hp5 h (.p7 .rach)
    rw [hload] at hle
    omega

end EnbL1Ppc.Fapi.Dispatch
