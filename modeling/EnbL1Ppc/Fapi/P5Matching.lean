import EnbL1Ppc.Fapi.P5Config

namespace EnbL1Ppc.Fapi.P5Config

open Lib EnbL1Ppc.Core

variable {P : Type} {w : ℕ}

theorem indications_append (out o : List (Event P)) :
    indications (out ++ o) = indications out ++ indications o := by
  simp [indications]

theorem requests_append (out o : List (Event P)) :
    requests (out ++ o) = requests out ++ requests o := by
  simp [requests]

theorem answers_append (out o : List (Event P)) :
    answers (out ++ o) = answers out ++ answers o := by
  simp [answers]

theorem tagged_append_singleton (ms : List (Indication P)) (m : Indication P) :
    tagged (ms ++ [m]) = tagged ms ++ [⟨m, ms.length⟩] := by
  simp [tagged, List.zipIdx_append]

section Steps

variable [Inhabited P] [DecidableEq P] {s s' : System P w} {i : Input P}
  {out o : List (Event P)} {items : List (Received P)}

theorem start_tracks : Tracks [] (start : System P w) [] where
  contains := BlockQueue.init_contains (by decide) (by decide)
  arrived := rfl
  received := rfl
  requested := rfl
  returns := by simp

inductive Stepped (s : System P w) (items : List (Received P)) :
    System P w → List (Event P) → List (Received P) → Prop
  | receive {m queue fapi} (stored : List (Received P)) (hf : s.fapi = .receiving)
      (hc : queue.Contains (items ++ stored))
      (hp : stored ++ pending { s with fapi := fapi } = [⟨m, s.arrived⟩]) :
      Stepped s items { s with queue := queue, fapi := fapi, arrived := s.arrived + 1 }
        [.received m] (items ++ stored)
  | resume {item queue} (hf : s.fapi = .awaitingRoom item) (hc : queue.Contains (items ++ [item])) :
      Stepped s items { s with queue := queue, fapi := .receiving } [] (items ++ [item])
  | stay : Stepped s items s [] items
  | send (hr : s.requester = .idle) :
      Stepped s items { s with requester := .awaitingResponse s.arrived }
        [.configSent s.arrived] items
  | other {e : Event P} (hr : s.requester = .idle) (hi : indications [e] = [])
      (hq : requests [e] = []) (ha : answers [e] = []) (he : e.Returns) :
      Stepped s items s [e] items
  | answer {item rest queue sentAt} (hr : s.requester = .awaitingResponse sentAt)
      (hi : items = item :: rest) (hc : queue.Contains rest) :
      Stepped s items { s with queue := queue, requester := .idle }
        [.configReturned (if item.body = default then 1 else 0) (some ⟨item, sentAt⟩)] rest

theorem step_cases (hc : s.queue.Contains items) (h : step s i = some (s', o)) :
    ∃ items', Stepped s items s' o items' := by
  cases i with
  | indication m =>
    simp only [step] at h
    split at h
    · next hf =>
      rw [hc.push_eq] at h
      split at h
      · cases h
        exact ⟨_, .receive [] hf (by simpa using hc) rfl⟩
      · next hn =>
        cases h
        exact ⟨_, .receive [_] hf (hc.store hn _) rfl⟩
    · cases h
  | resumePush =>
    simp only [step] at h
    split at h
    · cases h
    · next item hf =>
      rw [BlockQueue.pushWake_eq, hc.push_eq] at h
      split at h
      · obtain ⟨rfl, rfl⟩ : s = s' ∧ [] = o := by simpa [pushed, ← hf] using h
        exact ⟨_, .stay⟩
      · next hn =>
        cases h
        exact ⟨_, .resume hf (hc.store hn _)⟩
  | configRequest sent =>
    cases hr : s.requester with
    | idle =>
      cases sent <;> simp only [step, hr] at h <;> cases h
      · exact ⟨_, .other hr rfl rfl rfl rfl⟩
      · exact ⟨_, .send hr⟩
    | awaitingResponse sentAt => simp [step, hr] at h
  | startRequest sent =>
    cases hr : s.requester with
    | idle =>
      simp only [step, hr] at h
      cases h
      exact ⟨_, .other hr rfl rfl rfl trivial⟩
    | awaitingResponse sentAt => simp [step, hr] at h
  | stopRequest sent =>
    cases hr : s.requester with
    | idle =>
      simp only [step, hr] at h
      cases h
      exact ⟨_, .other hr rfl rfl rfl trivial⟩
    | awaitingResponse sentAt => simp [step, hr] at h
  | recvBlocking =>
    cases hr : s.requester with
    | idle => simp [step, hr] at h
    | awaitingResponse sentAt =>
      simp only [step, hr] at h
      cases items with
      | nil =>
        rw [hc.pop_nil] at h
        cases h
        exact ⟨_, .stay⟩
      | cons item rest =>
        rw [hc.pop_cons] at h
        cases h
        exact ⟨_, .answer hr rfl hc.remove.2⟩

theorem Tracks.step (ht : Tracks out s items) (h : step s i = some (s', o)) :
    ∃ items', Tracks (out ++ o) s' items' := by
  obtain ⟨items', hst⟩ := step_cases ht.contains h
  refine ⟨items', ?_⟩
  have hrecv := ht.received
  have hreq := ht.requested
  cases hst with
  | @receive m queue fapi stored hf hc hp =>
    refine ⟨hc, ?_, ?_, ?_, ?_⟩
    · simp [indications, ht.arrived]
    · rw [indications_append, answers_append]
      have hm : indications [Event.received m] = [m] := rfl
      have ha : answers [Event.received m] = [] := rfl
      rw [hm, ha, tagged_append_singleton, hrecv, ← ht.arrived, ← hp]
      simp [pending, hf]
    · rw [requests_append, answers_append]
      simpa [requests, answers, outstanding] using hreq
    · exact List.forall_mem_append.2 ⟨ht.returns, List.forall_mem_singleton.2 trivial⟩
  | @resume item queue hf hc =>
    refine ⟨hc, by simpa using ht.arrived, ?_, by simpa [outstanding] using hreq,
      by simpa using ht.returns⟩
    simpa [pending, hf] using hrecv
  | stay => simpa using ht
  | send hr =>
    refine ⟨ht.contains, ?_, ?_, ?_, ?_⟩
    · simp [indications, ht.arrived]
    · rw [indications_append, answers_append]
      simpa [indications, answers, pending] using hrecv
    · rw [requests_append, answers_append, hreq]
      simp [outstanding, hr, requests, answers]
    · exact List.forall_mem_append.2 ⟨ht.returns, List.forall_mem_singleton.2 trivial⟩
  | @other e hr hi hq ha he =>
    refine ⟨ht.contains, ?_, ?_, ?_, ?_⟩
    · rw [indications_append, hi, List.append_nil, ht.arrived]
    · rw [indications_append, answers_append, hi, ha, List.append_nil, List.append_nil, hrecv]
    · rw [requests_append, answers_append, hq, ha, List.append_nil, List.append_nil, hreq]
    · exact List.forall_mem_append.2 ⟨ht.returns, List.forall_mem_singleton.2 he⟩
  | @answer item rest queue sentAt hr hi hc =>
    subst hi
    refine ⟨hc, ?_, ?_, ?_, ?_⟩
    · simp [indications, ht.arrived]
    · rw [indications_append, answers_append]
      simpa [indications, answers, pending] using hrecv
    · rw [requests_append, answers_append, hreq]
      simp [outstanding, hr, requests, answers]
    · exact List.forall_mem_append.2 ⟨ht.returns, List.forall_mem_singleton.2 rfl⟩

theorem exec_tracks {is : List (Input P)}
    (h : Machine.exec P5Config.step (start : System P w) is = some (s, out)) :
    ∃ items, Tracks out s items :=
  Machine.exec_history (g := fun _ _ ↦ True) (R := fun out s ↦ ∃ items, Tracks out s items)
    (fun ⟨_, ht⟩ _ hs ↦ ht.step hs) [] ⟨[], start_tracks⟩
    (Machine.Along.of_forall (fun _ _ _ ↦ trivial) _) h

theorem Tracks.answer_at (ht : Tracks out s items) {k : ℕ} {a : Answer P}
    (ha : (answers out)[k]? = some a) :
    (indications out)[k]? = some a.toIndication ∧ a.arrival = k ∧
      (requests out)[k]? = some a.sentAt := by
  have hk : k < (answers out).length := (List.getElem?_eq_some_iff.1 ha).1
  have hrecv : (tagged (indications out))[k]? = some a.toReceived := by
    rw [ht.received, List.append_assoc, List.getElem?_append_left (by simpa using hk),
      List.getElem?_map, ha]
    rfl
  have hreq : (requests out)[k]? = some a.sentAt := by
    rw [ht.requested, List.getElem?_append_left (by simpa using hk), List.getElem?_map, ha]
    rfl
  simp only [tagged, List.getElem?_map, List.getElem?_zipIdx, Option.map_map,
    Option.map_eq_some_iff, Function.comp_apply, zero_add] at hrecv
  obtain ⟨m, hm, ha'⟩ := hrecv
  exact ⟨by rw [hm, ← ha'], by rw [← ha'], hreq⟩

end Steps

variable [Inhabited P] [DecidableEq P]

/-- Requests and indications are matched by position only. In every run, all calls that return 0
have a `CONFIG.response` to their own request exactly if the `k`-th P5 indication is a
`CONFIG.response` (or a null pointer) that comes in after the `k`-th `CONFIG.request`, for every
request that was answered. -/
theorem config_matches_iff {is : List (Input P)} {s : System P w} {out : List (Event P)}
    (h : Machine.exec step (start : System P w) is = some (s, out)) :
    (∀ e ∈ out, e.Matches) ↔
      ∀ k < (answers out).length, ∀ m n, (indications out)[k]? = some m →
        (requests out)[k]? = some n → m.body ≠ default →
        m.messageId = fapiConfigResponse ∧ n ≤ k := by
  obtain ⟨items, ht⟩ := exec_tracks h
  constructor
  · intro hall k hk m n hm hn hbody
    obtain ⟨a, ha⟩ : ∃ a, (answers out)[k]? = some a := ⟨_, List.getElem?_eq_getElem hk⟩
    obtain ⟨hind, hk', hreq⟩ := ht.answer_at ha
    obtain rfl : a.toIndication = m := Option.some.inj (hind.symm.trans hm)
    obtain rfl : a.sentAt = n := Option.some.inj (hreq.symm.trans hn)
    obtain ⟨e, he, hea⟩ := List.mem_filterMap.1 (List.mem_of_getElem? ha)
    cases e with
    | configReturned ret resp =>
      obtain rfl : resp = some a := hea
      have hret : ret = 0 := (ht.returns _ he).trans (if_neg hbody)
      obtain ⟨a', ha', hid, hle⟩ := hall _ he hret
      obtain rfl := Option.some.inj ha'
      exact ⟨hid, hk' ▸ hle⟩
    | _ => cases hea
  · intro hall e he
    cases e with
    | configReturned ret resp =>
      intro hret
      have hr := ht.returns _ he
      cases resp with
      | none =>
        rw [hret] at hr
        cases hr
      | some a =>
        obtain ⟨k, ha⟩ := List.mem_iff_getElem?.1
          (List.mem_filterMap.2 ⟨_, he, rfl⟩ : a ∈ answers out)
        obtain ⟨hind, hk, hreq⟩ := ht.answer_at ha
        have hbody : a.body ≠ default := by
          intro hb
          rw [hret, Event.Returns, if_pos hb] at hr
          cases hr
        obtain ⟨hid, hle⟩ :=
          hall k (List.getElem?_eq_some_iff.1 ha).1 _ _ hind hreq hbody
        exact ⟨a, rfl, hid, hk ▸ hle⟩
    | _ => trivial

theorem config_matches_iff_one :
    ∃ (s : System ℕ 32) (out : List (Event ℕ)),
      Machine.exec step start [.configRequest true, .indication ⟨1, fapiConfigResponse⟩,
        .recvBlocking] = some (s, out) ∧ ∀ e ∈ out, e.Matches := by
  obtain ⟨s, out, h⟩ : ∃ (s : System ℕ 32) (out : List (Event ℕ)),
    Machine.exec step start [.configRequest true, .indication ⟨1, fapiConfigResponse⟩,
      .recvBlocking] = some (s, out) := ⟨_, _, rfl⟩
  refine ⟨s, out, h, (config_matches_iff h).2 ?_⟩
  cases h
  intro k hk m n hm hn _
  obtain rfl : k = 0 := Nat.lt_one_iff.1 hk
  cases hm
  cases hn
  exact ⟨rfl, le_rfl⟩

/-- `phy_dispatcher_thread` stops the L1 twice before it configures it, and takes the first
`STOP.indication` for the answer. -/
theorem stop_indication_taken_for_response :
    ∃ (s : System ℕ 32) (out : List (Event ℕ)),
      Machine.exec step start [.stopRequest true, .indication ⟨1, fapiStopIndication⟩,
        .stopRequest true, .indication ⟨2, fapiStopIndication⟩, .configRequest true,
        .indication ⟨3, fapiConfigResponse⟩, .recvBlocking] = some (s, out) ∧
      .configReturned 0 (some ⟨⟨⟨1, fapiStopIndication⟩, 0⟩, 2⟩) ∈ out ∧
      ¬ ∀ e ∈ out, e.Matches := by
  have h : (Machine.exec step (start : System ℕ 32) [.stopRequest true,
      .indication ⟨1, fapiStopIndication⟩, .stopRequest true,
      .indication ⟨2, fapiStopIndication⟩, .configRequest true,
      .indication ⟨3, fapiConfigResponse⟩, .recvBlocking]).map Prod.snd =
      some [.stopReturned 0, .received ⟨1, fapiStopIndication⟩, .stopReturned 0,
        .received ⟨2, fapiStopIndication⟩, .configSent 2, .received ⟨3, fapiConfigResponse⟩,
        .configReturned 0 (some ⟨⟨⟨1, fapiStopIndication⟩, 0⟩, 2⟩)] := by
    decide +kernel
  obtain ⟨⟨s, out⟩, hrun, rfl⟩ := Option.map_eq_some_iff.1 h
  refine ⟨s, _, hrun, by simp, fun hall ↦ ?_⟩
  obtain ⟨a, ha, hid, -⟩ :=
    hall (.configReturned 0 (some ⟨⟨⟨1, fapiStopIndication⟩, 0⟩, 2⟩)) (by simp) rfl
  cases ha
  exact absurd hid (by decide)

end EnbL1Ppc.Fapi.P5Config
