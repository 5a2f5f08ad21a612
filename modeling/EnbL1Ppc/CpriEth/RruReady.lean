import EnbL1Ppc.CpriEth.RruSteps

namespace EnbL1Ppc.CpriEth

open Lib.Machine

/-!
What happened before a slot became ready. The history of a run is the list of all that was
observed in it.
-/

def SinceConnected (i : SlotId) (h h' : List Obs) : Prop :=
  ∃ h₁, h = h₁ ++ .connected i :: h' ∧ .connected i ∉ h'

def Established (i : SlotId) (h : List Obs) : Prop :=
  ∃ h' m, SinceConnected i h h' ∧ m.isEstablish = true ∧ .sent i m ∈ h'

def Justified (i : SlotId) (h : List Obs) : Prop :=
  ∃ h' m, SinceConnected i h h' ∧ m.isEstablish = true ∧
    [.sent i m, .received i .cellConfigurationResp].Sublist h'

theorem SinceConnected.append {i : SlotId} {h h' o : List Obs} (hs : SinceConnected i h h')
    (ho : .connected i ∉ o) : SinceConnected i (h ++ o) (h' ++ o) := by
  obtain ⟨h₁, rfl, hn⟩ := hs
  exact ⟨h₁, by simp, by simp [hn, ho]⟩

theorem SinceConnected.of_append_singleton {i : SlotId} {h h' : List Obs} {x : Obs}
    (hs : SinceConnected i (h ++ [x]) h') (hx : x ≠ .connected i) :
    ∃ h'', h' = h'' ++ [x] ∧ SinceConnected i h h'' := by
  obtain ⟨h₁, heq, hn⟩ := hs
  rcases List.eq_nil_or_concat h' with rfl | ⟨h'', y, rfl⟩
  · exact absurd (List.append_inj_right' heq rfl) (by simpa using hx)
  · rw [List.concat_eq_append, ← List.cons_append, ← List.append_assoc] at heq
    obtain ⟨rfl, hy⟩ := List.append_inj' heq rfl
    obtain rfl : x = y := by simpa using hy
    exact ⟨h'', by simp, h₁, rfl, by simp_all⟩

theorem Justified.append {i : SlotId} {h o : List Obs} (hj : Justified i h)
    (ho : .connected i ∉ o) : Justified i (h ++ o) := by
  obtain ⟨h', m, hs, hm, hsub⟩ := hj
  exact ⟨h' ++ o, m, hs.append ho, hm, hsub.trans (List.sublist_append_left h' o)⟩

theorem justified_received_iff (i : SlotId) (h : List Obs) :
    Justified i (h ++ [.received i .cellConfigurationResp]) ↔ Established i h := by
  constructor
  · rintro ⟨h', m, hs, hm, hsub⟩
    obtain ⟨h'', rfl, hs'⟩ := hs.of_append_singleton nofun
    refine ⟨h'', m, hs', hm, ?_⟩
    have hmem : Obs.sent i m ∈ h'' ++ [.received i .cellConfigurationResp] :=
      hsub.subset List.mem_cons_self
    simpa using hmem
  · rintro ⟨h', m, hs, hm, hmem⟩
    refine ⟨_, m, hs.append (by simp), hm, ?_⟩
    exact (List.singleton_sublist.2 hmem).append (List.Sublist.refl _)

def ReadyJustified (x : Manager × List Obs) : Prop :=
  ∀ i, (x.1.rrus i).state = .ready → Justified i x.2

/-- A response is read only when the request has been sent, unless it is taken as the answer to
a cell clear request. A failed read finds no response in the buffer, or the slot has already had
one that was solicited. -/
def Solicited (x : Manager × List Obs) (e : Env × Input) : Prop :=
  match e.2 with
  | .read (some (.bytes chunk)) => ∀ i, x.1.phase = .read i →
    Confirms (x.1.rrus i) (x.1.mem.write chunk) chunk.length → Established i x.2
  | .read (some .error) => ∀ i, x.1.phase = .read i →
    Confirms (x.1.rrus i) x.1.mem (-1) → Justified i x.2
  | _ => True

theorem solicited_iff {x : Manager × List Obs} {env : Env} {r : ReadResult} :
    Solicited x (env, .read (some r)) ↔
      ∀ i o, x.1.phase = .read i → Answer x.1 i r o → Justified i (x.2 ++ o) := by
  cases r with
  | closed peer => exact iff_of_true trivial fun i o _ ha ↦ by cases ha
  | error =>
    constructor
    · rintro h i o hp ⟨⟩
      rw [List.append_nil]
      exact h i hp ‹_›
    · intro h i hp hc
      simpa using h i [] hp (.error hc)
  | bytes chunk =>
    constructor
    · rintro h i o hp ⟨⟩
      exact (justified_received_iff i x.2).2 (h i hp ‹_›)
    · intro h i hp hc
      exact (justified_received_iff i x.2).1 (h i _ hp (.bytes hc))

theorem step_read {s s' : Manager} {env : Env} {r : ReadResult} {i : SlotId} {o : List Obs}
    (h : s.step (env, .read (some r)) = some (s', o)) (hp : s.phase = .read i) :
    ∃ x, s.readSlot env i r = some x ∧ s'.rrus = x.1.rrus ∧ o = x.2 := by
  rw [step_read_some env hp] at h
  split at h
  · cases h
  · obtain ⟨x, hx, heq⟩ := Option.map_eq_some_iff.1 h
    cases heq
    exact ⟨x, hx, rfl, rfl⟩

theorem Obs.OnSlot.not_connected {i : SlotId} {o : List Obs} (h : ∀ x ∈ o, x.OnSlot i)
    (j : SlotId) : .connected j ∉ o :=
  fun hj ↦ h _ hj

theorem ReadyJustified.update {s s' : Manager} {h o : List Obs} (hj : ReadyJustified (s, h))
    {i : SlotId} {r : Rru} (hr : s'.rrus = Function.update s.rrus i r)
    (hready : r.state = .ready → Justified i (h ++ o)) (ho : ∀ j, j ≠ i → .connected j ∉ o) :
    ReadyJustified (s', h ++ o) := by
  intro j hjr
  rw [hr] at hjr
  by_cases hji : j = i
  · subst hji
    rw [Function.update_self] at hjr
    exact hready hjr
  · rw [Function.update_of_ne hji] at hjr
    exact (hj j hjr).append (ho j hji)

theorem step_readyJustified {s s' : Manager} {h o : List Obs} {e : Env × Input}
    (hj : ReadyJustified (s, h)) (hsol : Solicited (s, h) e) (hs : s.step e = some (s', o)) :
    ReadyJustified (s', h ++ o) := by
  cases step_effect hs with
  | quiet hrrus _ =>
    rw [List.append_nil]
    intro i hi
    rw [hrrus] at hi
    exact hj i hi
  | kept hrrus _ hkept _ ho =>
    refine hj.update hrrus (fun hr ↦ ?_) fun j _ ↦ Obs.OnSlot.not_connected ho j
    have hstate := hkept.eq_of_not_inSetup (by rw [hr]; rfl)
    exact (hj _ (hstate.trans hr)).append (Obs.OnSlot.not_connected ho _)
  | confirmed hphase _ ha hrrus _ =>
    refine hj.update hrrus (fun _ ↦ solicited_iff.1 hsol _ _ hphase ha) fun j _ ↦ ?_
    cases ha with
    | bytes _ => simp
    | error _ => simp
  | closed _ hrrus _ => exact hj.update hrrus nofun fun j _ ↦ List.not_mem_nil
  | registered _ hrrus _ =>
    refine hj.update hrrus nofun fun j _ ↦ ?_
    simp [Manager.register]
  | ignored _ hrrus _ =>
    rw [List.append_nil]
    intro i hi
    rw [hrrus] at hi
    exact hj i hi
  | connected _ hrrus _ => exact hj.update hrrus nofun fun j hji ↦ by simpa using hji

theorem step_solicited {s s' : Manager} {h o : List Obs} {e : Env × Input}
    (hs : s.step e = some (s', o)) (hj : ReadyJustified (s', h ++ o)) : Solicited (s, h) e := by
  obtain ⟨env, input⟩ := e
  match input with
  | .read (some r) =>
    refine solicited_iff.2 fun i o' hp ha ↦ ?_
    obtain ⟨x, hx, hrrus, rfl⟩ := step_read hs hp
    obtain ⟨hr, -, rfl⟩ := readSlot_answer ha hx
    refine hj i ?_
    rw [hrrus, hr, Function.update_self]
  | .read none | .poll _ | .params | .inactivity _ | .cfg _ | .control _ | .tap _
  | .reconfigure _ => trivial

/-- Over a whole run slots are ready for good reason exactly if all responses are solicited. -/
theorem ready_always_iff (fds : List ℕ) (address : UInt32) (mem : Mem)
    (es : List (Env × Input)) :
    Always (recorded Manager.step) ReadyJustified (Manager.start fds address mem, []) es ↔
      Along (recorded Manager.step) Solicited (Manager.start fds address mem, []) es := by
  refine always_iff_along (J := fun _ ↦ True) (fun _ _ ↦ trivial) ?_ trivial nofun es
  rintro ⟨s, h⟩ e ⟨s', h'⟩ o - hj hs
  obtain ⟨hs, rfl⟩ := recorded_eq_some.1 hs
  exact ⟨step_solicited hs, fun hsol ↦ step_readyJustified hj hsol hs⟩

def unsolicitedResponse : List (Env × Input) :=
  let env : Env := ⟨false, [⟨some 0xc0a81e02, 0, 0, 0⟩], ⟨25, 1⟩, ⟨0, 0, 0, 1, 1, 2020⟩⟩
  roundInputs env (some ⟨0, 0, [1, 0, 0, 0, 0, 1]⟩) (some (some 0xc0a81e02)) (fun _ ↦ none) ++
    roundInputs env none none fun i ↦ if i.val = 0 then
      some (.bytes [0, 0, 0, 194, 0, 0, 0, 15, 0, 0, 0, 0, 0, 0, 0]) else none

def Obs.isSent : Obs → Bool
  | .sent .. => true
  | _ => false

theorem unsolicited_ready : ∃ s o,
    exec Manager.step (.start [0, 1, 2] 0 fun _ ↦ 0) unsolicitedResponse = some (s, o) ∧
      (s.rrus 0).state = .ready ∧ ¬ Justified 0 o := by
  have hrun : (exec Manager.step (.start [0, 1, 2] 0 fun _ ↦ 0) unsolicitedResponse).map (fun r ↦
      ((r.1.rrus 0).state, r.2.all fun x ↦ !x.isSent)) = some (.ready, true) := by
    decide
  obtain ⟨⟨s, o⟩, hs, heq⟩ := Option.map_eq_some_iff.1 hrun
  simp only [Prod.mk.injEq, List.all_eq_true] at heq
  refine ⟨s, o, hs, heq.1, ?_⟩
  -- nothing has been sent at all
  rintro ⟨h', m, ⟨h₁, rfl, -⟩, -, hsub⟩
  have hm : Obs.sent 0 m ∈ h' := hsub.subset List.mem_cons_self
  have hnot := heq.2 (.sent 0 m) (by simp [hm])
  cases hnot

end EnbL1Ppc.CpriEth
