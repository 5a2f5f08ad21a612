import EnbL1Ppc.CpriEth.RruManager

namespace EnbL1Ppc.CpriEth

/-!
What a step of the manager does: it touches one slot at most, and the descriptors only where it
accepts or closes a connection.
-/

section Equations

variable {s : Manager} {i : SlotId} (env : Env)

theorem step_poll (h : s.phase = .top) (r : PollResult) :
    s.step (env, .poll r) = some (s.doPoll r, []) := by
  rw [Manager.step, h]

theorem step_params (h : s.phase = .params i) :
    s.step (env, .params) = some ({ s.setRru i (checkParams env (s.rrus i)).1 with
        phase := Manager.nextSlot i .params (.inactivity 0) },
      (checkParams env (s.rrus i)).2.map (.sent i)) := by
  rw [Manager.step, h]

theorem step_inactivity (h : s.phase = .inactivity i) (peer : Option UInt32) :
    s.step (env, .inactivity peer) = some ({ s.checkInactivity i peer with
      phase := Manager.nextSlot i .inactivity .top }, []) := by
  rw [Manager.step, h]

theorem step_cfg_none (h : s.phase = .cfg) :
    s.step (env, .cfg none) = some ({ s with phase := .control }, []) := by
  rw [Manager.step, h]

theorem step_cfg_some (h : s.phase = .cfg) (req : CfgReq) :
    s.step (env, .cfg (some req)) =
      (s.configure env req).map fun r ↦ ({ r.1 with phase := .control }, r.2) := by
  rw [Manager.step, h]

theorem step_control_none (h : s.phase = .control) :
    s.step (env, .control none) = some ({ s with phase := .tap }, []) := by
  rw [Manager.step, h]

theorem step_control_some (h : s.phase = .control) (peer : Option UInt32) :
    s.step (env, .control (some peer)) =
      some ({ (s.accept peer).1 with phase := .tap }, (s.accept peer).2) := by
  rw [Manager.step, h]

theorem step_tap (h : s.phase = .tap) (n : Option ℤ) :
    s.step (env, .tap n) =
      some ({ s with phase := if n.any (· < 0) then .done else .read 0 }, []) := by
  rw [Manager.step, h]

theorem step_read_none (h : s.phase = .read i) :
    s.step (env, .read none) = some ({ s with phase := Manager.nextSlot i .read .top }, []) := by
  rw [Manager.step, h]

theorem step_read_some (h : s.phase = .read i) (r : ReadResult) :
    s.step (env, .read (some r)) = if (s.rrus i).state = .none ∨ s.pollfds i < 0 then none
      else (s.readSlot env i r).map fun x ↦
        ({ x.1 with phase := Manager.nextSlot i .read .top }, x.2) := by
  rw [Manager.step, h]

theorem step_reconfigure (s : Manager) (i : SlotId) :
    s.step (env, .reconfigure i) = if (s.rrus i).state = .ready then
      some (s.setRru i { s.rrus i with state := .needParamsConfig, timer := 0 }, [])
    else some (s, []) := by
  rw [Manager.step]
  cases s.phase <;> rfl

end Equations

structure SameSockets (s s' : Manager) : Prop where
  fds : s'.fds = s.fds
  accepted : s'.accepted = s.accepted

def Obs.OnSlot (i : SlotId) : Obs → Prop
  | .received j _ | .sent j _ => j = i
  | .cfgResp _ | .connected _ => False

/-- The result of `read` makes slot `i` ready: it is a cell configuration response, or it is an
error and the buffer still holds such a response. -/
inductive Answer (s : Manager) (i : SlotId) : ReadResult → List Obs → Prop
  | bytes {chunk : List UInt8} : Confirms (s.rrus i) (s.mem.write chunk) chunk.length →
    Answer s i (.bytes chunk) [.received i .cellConfigurationResp]
  | error : Confirms (s.rrus i) s.mem (-1) → Answer s i .error []

inductive Effect (s : Manager) : Env × Input → Manager → List Obs → Prop
  | quiet {e : Env × Input} {s' : Manager} : s'.rrus = s.rrus → SameSockets s s' →
    Effect s e s' []
  | kept {e : Env × Input} {s' : Manager} {i : SlotId} {r' : Rru} {o : List Obs} :
    s'.rrus = Function.update s.rrus i r' → SameSockets s s' → Kept (s.rrus i) r' →
    ((s.rrus i).state = .none → r'.state = .none) → (∀ x ∈ o, x.OnSlot i) → Effect s e s' o
  | confirmed {env : Env} {s' : Manager} {i : SlotId} {r : ReadResult} {o : List Obs} :
    s.phase = .read i → (s.rrus i).state ≠ .none → Answer s i r o →
    s'.rrus = Function.update s.rrus i { s.rrus i with state := .ready, timeout := 0 } →
    SameSockets s s' → Effect s (env, .read (some r)) s' o
  | closed {e : Env × Input} {s' : Manager} {i : SlotId} {timeout : ℕ} :
    (s.rrus i).state ≠ .none →
    s'.rrus = Function.update s.rrus i { s.rrus i with state := .none, timeout := timeout } →
    SameSockets (s.close (s.rrus i).fd) s' → Effect s e s' []
  | registered {env : Env} {req : CfgReq} {s' : Manager} {i : SlotId} {r : Rru} :
    s.slotFor req.rruMac = some (i, r) → s'.rrus = (s.register env req i r).1.rrus →
    SameSockets s s' → Effect s (env, .cfg (some req)) s' (s.register env req i r).2
  | ignored {env : Env} {peer : Option UInt32} {s' : Manager} :
    s.target (peer.getD s.address) = none → s'.rrus = s.rrus →
    SameSockets (s.accept peer).1 s' → Effect s (env, .control (some peer)) s' []
  | connected {env : Env} {peer : Option UInt32} {s' : Manager} {i : SlotId} :
    s.target (peer.getD s.address) = some i →
    s'.rrus = Function.update s.rrus i
      { s.rrus i with fd := s.newSocket peer, state := .connected, timeout := 0 } →
    SameSockets (s.accept peer).1 s' → Effect s (env, .control (some peer)) s' [.connected i]

theorem associate_none {s : Manager} (h : s.target s.address = none) (fd : ℤ) :
    s.associate fd = (s, []) := by
  rw [Manager.associate, h]

theorem associate_some {s : Manager} {i : SlotId} (h : s.target s.address = some i) (fd : ℤ) :
    s.associate fd = (s.setRru i { s.rrus i with fd := fd, state := .connected, timeout := 0 },
      [.connected i]) := by
  rw [Manager.associate, h]

theorem accept_ignored {s : Manager} (peer : Option UInt32)
    (h : s.target (peer.getD s.address) = none) :
    (s.accept peer).1.rrus = s.rrus ∧ (s.accept peer).2 = [] := by
  cases peer with
  | none =>
    rw [Manager.accept, associate_none h]
    exact ⟨rfl, rfl⟩
  | some ip =>
    rw [Manager.accept, associate_none (by exact h)]
    exact ⟨rfl, rfl⟩

theorem accept_connected {s : Manager} (peer : Option UInt32) {i : SlotId}
    (h : s.target (peer.getD s.address) = some i) :
    (s.accept peer).1.rrus = Function.update s.rrus i
        { s.rrus i with fd := s.newSocket peer, state := .connected, timeout := 0 } ∧
      (s.accept peer).2 = [.connected i] := by
  cases peer with
  | none =>
    rw [Manager.accept, associate_some h]
    exact ⟨rfl, rfl⟩
  | some ip =>
    rw [Manager.accept, associate_some (by exact h)]
    exact ⟨rfl, rfl⟩

theorem accept_effect {s s' : Manager} (env : Env) {peer : Option UInt32}
    (hr : s'.rrus = (s.accept peer).1.rrus) (hs : SameSockets (s.accept peer).1 s') :
    Effect s (env, .control (some peer)) s' (s.accept peer).2 := by
  cases ht : s.target (peer.getD s.address) with
  | none =>
    obtain ⟨hrrus, hobs⟩ := accept_ignored peer ht
    rw [hobs]
    exact .ignored ht (hr.trans hrrus) hs
  | some i =>
    obtain ⟨hrrus, hobs⟩ := accept_connected peer ht
    rw [hobs]
    exact .connected ht (hr.trans hrrus) hs

theorem checkParams_kept (env : Env) (r : Rru) : Kept r (checkParams env r).1 := by
  unfold checkParams
  split_ifs
  · exact ⟨rfl, rfl, .inr rfl⟩
  · exact ⟨rfl, rfl, .inl rfl⟩
  · exact .refl r

theorem checkParams_none (env : Env) {r : Rru} (h : r.state = .none) :
    (checkParams env r).1.state = .none := by
  rw [checkParams, if_neg (by rw [h]; exact nofun), h]

theorem checkInactivity_effect (s : Manager) (e : Env × Input) (i : SlotId) (peer : Option UInt32)
    {s' : Manager} (hr : s'.rrus = (s.checkInactivity i peer).rrus)
    (hs : SameSockets (s.checkInactivity i peer) s') : Effect s e s' [] := by
  unfold Manager.checkInactivity at hr hs
  dsimp only at hr hs
  split at hr
  · next hnone =>
    rw [if_pos hnone] at hs
    exact .quiet hr hs
  · next hnone =>
    rw [if_neg hnone] at hs
    split at hr
    · next ht =>
      rw [if_pos ht] at hs
      exact .closed hnone hr ⟨hs.fds, hs.accepted⟩
    · next ht =>
      rw [if_neg ht] at hs
      exact .kept hr ⟨hs.fds, hs.accepted⟩ ⟨rfl, rfl, .inl rfl⟩ (fun h ↦ h) (by simp)

theorem handle_effect (s : Manager) {t : Manager} {env : Env} {i : SlotId} {len : ℤ}
    {h : Manager × List IrMsg} (hh : t.handle env i len = some h) (hrrus : t.rrus = s.rrus)
    (hsock : SameSockets s t) (hne : (s.rrus i).state ≠ .none)
    (hc : ¬ Confirms (s.rrus i) t.mem len) {e : Env × Input} {s' : Manager}
    (hr : s'.rrus = h.1.rrus) (hs : SameSockets h.1 s') {pre : List Obs}
    (hpre : ∀ x ∈ pre, x.OnSlot i) : Effect s e s' (pre ++ h.2.map (.sent i)) := by
  obtain ⟨h', hh', rfl⟩ := Option.map_eq_some_iff.1 hh
  rw [hrrus] at hh'
  have hupd : s'.rrus = Function.update s.rrus i h'.1 := by
    rw [hr, Manager.setRru, hrrus]
  refine .kept hupd ⟨hs.fds.trans hsock.fds, hs.accepted.trans hsock.accepted⟩
    (receiveMessage_kept hh' hc) (fun h ↦ absurd h hne) ?_
  intro x hx
  rcases List.mem_append.1 hx with hx | hx
  · exact hpre x hx
  · obtain ⟨m, -, rfl⟩ := List.mem_map.1 hx
    rfl

theorem handle_confirms {s t : Manager} {env : Env} {i : SlotId} {len : ℤ}
    {h : Manager × List IrMsg} (hh : t.handle env i len = some h) (hrrus : t.rrus = s.rrus)
    (hc : Confirms (s.rrus i) t.mem len) :
    h = (t.setRru i { s.rrus i with state := .ready, timeout := 0 }, []) := by
  obtain ⟨h', hh', rfl⟩ := Option.map_eq_some_iff.1 hh
  rw [hrrus, receiveMessage_confirms hc] at hh'
  rw [← Option.some.inj hh']

theorem readSlot_answer {s : Manager} {env : Env} {i : SlotId} {r : ReadResult} {o : List Obs}
    (ha : Answer s i r o) {x : Manager × List Obs} (hx : s.readSlot env i r = some x) :
    x.1.rrus = Function.update s.rrus i { s.rrus i with state := .ready, timeout := 0 } ∧
      SameSockets s x.1 ∧ x.2 = o := by
  cases ha with
  | error hc =>
    obtain ⟨h, hh, rfl⟩ := Option.map_eq_some_iff.1 hx
    obtain rfl := handle_confirms hh rfl hc
    exact ⟨rfl, ⟨rfl, rfl⟩, rfl⟩
  | bytes hc =>
    rw [Manager.readSlot] at hx
    split at hx
    · obtain ⟨h, hh, rfl⟩ := Option.map_eq_some_iff.1 hx
      obtain rfl := handle_confirms hh rfl hc
      have hlong := hc.1
      simp only [longEnough, decide_eq_true_eq] at hlong
      refine ⟨rfl, ⟨rfl, rfl⟩, ?_⟩
      simp only [List.map_nil, List.append_nil]
      rw [if_pos (by omega), hc.2.1]
    · cases hx

theorem readSlot_effect {s : Manager} {env : Env} {i : SlotId} {r : ReadResult}
    {x : Manager × List Obs} (hphase : s.phase = .read i) (hne : (s.rrus i).state ≠ .none)
    (hx : s.readSlot env i r = some x) {s' : Manager} (hr : s'.rrus = x.1.rrus)
    (hs : SameSockets x.1 s') : Effect s (env, .read (some r)) s' x.2 := by
  by_cases ha : ∃ o, Answer s i r o
  · obtain ⟨o, ha⟩ := ha
    obtain ⟨hrrus, hsock, rfl⟩ := readSlot_answer ha hx
    exact .confirmed hphase hne ha (hr.trans hrrus)
      ⟨hs.fds.trans hsock.fds, hs.accepted.trans hsock.accepted⟩
  cases r with
  | closed peer =>
    cases hx
    exact .closed hne hr ⟨hs.fds, hs.accepted⟩
  | error =>
    obtain ⟨h, hh, rfl⟩ := Option.map_eq_some_iff.1 hx
    exact handle_effect s hh rfl ⟨rfl, rfl⟩ hne (fun hc ↦ ha ⟨_, .error hc⟩) hr hs
      (fun _ h ↦ absurd h List.not_mem_nil)
  | bytes chunk =>
    rw [Manager.readSlot] at hx
    split at hx
    · obtain ⟨h, hh, rfl⟩ := Option.map_eq_some_iff.1 hx
      refine handle_effect s hh rfl ⟨rfl, rfl⟩ hne (fun hc ↦ ha ⟨_, .bytes hc⟩) hr hs fun x hx ↦ ?_
      split at hx
      · rw [List.mem_singleton.1 hx]
        rfl
      · exact absurd hx List.not_mem_nil
    · cases hx

theorem step_effect {s s' : Manager} {e : Env × Input} {o : List Obs}
    (h : s.step e = some (s', o)) : Effect s e s' o := by
  obtain ⟨env, input⟩ := e
  unfold Manager.step at h
  split at h
  · next r _ _ =>
    cases h
    cases r <;> exact .quiet rfl ⟨rfl, rfl⟩
  · next i _ _ =>
    cases h
    refine .kept rfl ⟨rfl, rfl⟩ (checkParams_kept env (s.rrus i))
      (checkParams_none env) fun x hx ↦ ?_
    obtain ⟨m, -, rfl⟩ := List.mem_map.1 hx
    rfl
  · cases h
    exact checkInactivity_effect s _ _ _ rfl ⟨rfl, rfl⟩
  · cases h
    exact .quiet rfl ⟨rfl, rfl⟩
  · next req _ hin =>
    obtain rfl : input = .cfg (some req) := hin
    obtain ⟨r, hr, heq⟩ := Option.map_eq_some_iff.1 h
    obtain ⟨x, hx, rfl⟩ := Option.map_eq_some_iff.1 hr
    cases heq
    exact .registered hx rfl ⟨rfl, rfl⟩
  · cases h
    exact .quiet rfl ⟨rfl, rfl⟩
  · next peer _ hin =>
    obtain rfl : input = .control (some peer) := hin
    cases h
    exact accept_effect env rfl ⟨rfl, rfl⟩
  · cases h
    exact .quiet rfl ⟨rfl, rfl⟩
  · cases h
    exact .quiet rfl ⟨rfl, rfl⟩
  · next i r hphase hin =>
    obtain rfl : input = .read (some r) := hin
    split at h
    · cases h
    · next hne =>
      obtain ⟨x, hx, heq⟩ := Option.map_eq_some_iff.1 h
      cases heq
      exact readSlot_effect hphase (fun hn ↦ hne (.inl hn)) hx rfl ⟨rfl, rfl⟩
  · next i _ =>
    split at h
    · cases h
      exact .kept rfl ⟨rfl, rfl⟩ ⟨rfl, rfl, .inr rfl⟩ (fun h ↦ by simp_all) (by simp)
    · cases h
      exact .quiet rfl ⟨rfl, rfl⟩
  · cases h

end EnbL1Ppc.CpriEth
