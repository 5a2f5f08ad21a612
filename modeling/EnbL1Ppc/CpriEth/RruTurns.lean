import EnbL1Ppc.CpriEth.RruAssociation

namespace EnbL1Ppc.CpriEth

/-!
The steps of the manager with the states they lead to, one for each place in its loop, and what
they leave of the request that a slot was set up by.
-/

inductive Turn (s : Manager) : Env × Input → Manager → Prop
  | poll {env : Env} {r : PollResult} : s.phase = .top → Turn s (env, .poll r) (s.doPoll r)
  | params {env : Env} {i : SlotId} : s.phase = .params i → Turn s (env, .params)
    { s.setRru i (checkParams env (s.rrus i)).1 with
      phase := Manager.nextSlot i .params (.inactivity 0) }
  | inactivity {env : Env} {i : SlotId} {peer : Option UInt32} : s.phase = .inactivity i →
    Turn s (env, .inactivity peer)
      { s.checkInactivity i peer with phase := Manager.nextSlot i .inactivity .top }
  | noRequest {env : Env} : s.phase = .cfg → Turn s (env, .cfg none) { s with phase := .control }
  | request {env : Env} {req : CfgReq} {i : SlotId} {r : Rru} : s.phase = .cfg →
    s.slotFor req.rruMac = some (i, r) →
    Turn s (env, .cfg (some req)) { (s.register env req i r).1 with phase := .control }
  | noConnection {env : Env} : s.phase = .control →
    Turn s (env, .control none) { s with phase := .tap }
  | connection {env : Env} {peer : Option UInt32} : s.phase = .control →
    Turn s (env, .control (some peer)) { (s.accept peer).1 with phase := .tap }
  | tap {env : Env} {n : Option ℤ} : s.phase = .tap →
    Turn s (env, .tap n) { s with phase := if n.any (· < 0) then .done else .read 0 }
  | noRead {env : Env} {i : SlotId} : s.phase = .read i →
    Turn s (env, .read none) { s with phase := Manager.nextSlot i .read .top }
  | read {env : Env} {i : SlotId} {r : ReadResult} {x : Manager × List Obs} :
    s.phase = .read i → (s.rrus i).state ≠ .none → 0 ≤ s.pollfds i →
    s.readSlot env i r = some x →
    Turn s (env, .read (some r)) { x.1 with phase := Manager.nextSlot i .read .top }
  | reconfigure {env : Env} {i : SlotId} : (s.rrus i).state = .ready →
    Turn s (env, .reconfigure i)
      (s.setRru i { s.rrus i with state := .needParamsConfig, timer := 0 })
  | noReconfigure {env : Env} {i : SlotId} : (s.rrus i).state ≠ .ready →
    Turn s (env, .reconfigure i) s

theorem step_turn {s s' : Manager} {e : Env × Input} {o : List Obs}
    (h : s.step e = some (s', o)) : Turn s e s' := by
  obtain ⟨env, input⟩ := e
  unfold Manager.step at h
  split at h
  · next hphase hin =>
    cases hin
    cases h
    exact .poll hphase
  · next hphase hin =>
    cases hin
    cases h
    exact .params hphase
  · next hphase hin =>
    cases hin
    cases h
    exact .inactivity hphase
  · next hphase hin =>
    cases hin
    cases h
    exact .noRequest hphase
  · next hphase hin =>
    cases hin
    obtain ⟨r, hr, heq⟩ := Option.map_eq_some_iff.1 h
    obtain ⟨x, hx, rfl⟩ := Option.map_eq_some_iff.1 hr
    cases heq
    exact .request hphase hx
  · next hphase hin =>
    cases hin
    cases h
    exact .noConnection hphase
  · next hphase hin =>
    cases hin
    cases h
    exact .connection hphase
  · next hphase hin =>
    cases hin
    cases h
    exact .tap hphase
  · next hphase hin =>
    cases hin
    cases h
    exact .noRead hphase
  · next hphase hin =>
    cases hin
    split at h
    · cases h
    · next huse =>
      rw [not_or, not_lt] at huse
      obtain ⟨x, hx, heq⟩ := Option.map_eq_some_iff.1 h
      cases heq
      exact .read hphase huse.1 huse.2 hx
  · next hin =>
    cases hin
    split at h
    · next hready =>
      cases h
      exact .reconfigure hready
    · next hready =>
      cases h
      exact .noReconfigure hready
  · cases h

theorem readSlot_cases {s : Manager} {env : Env} {i : SlotId} {r : ReadResult}
    {x : Manager × List Obs} (h : s.readSlot env i r = some x) :
    x.1.pollfds = s.pollfds ∧
      ((∃ peer, r = .closed peer ∧
          x.1.rrus = Function.update s.rrus i { s.rrus i with state := .none }) ∨
        (∀ peer, r ≠ .closed peer) ∧ ∃ m len h, receiveMessage env (s.rrus i) m len = some h ∧
          x.1.rrus = Function.update s.rrus i h.1) := by
  cases r with
  | closed peer =>
    cases h
    exact ⟨rfl, .inl ⟨peer, rfl, rfl⟩⟩
  | error =>
    obtain ⟨y, hy, rfl⟩ := Option.map_eq_some_iff.1 h
    obtain ⟨hd, hhd, rfl⟩ := Option.map_eq_some_iff.1 hy
    exact ⟨rfl, .inr ⟨fun _ ↦ by simp, _, _, hd, hhd, rfl⟩⟩
  | bytes chunk =>
    rw [Manager.readSlot] at h
    split at h
    · obtain ⟨y, hy, rfl⟩ := Option.map_eq_some_iff.1 h
      obtain ⟨hd, hhd, rfl⟩ := Option.map_eq_some_iff.1 hy
      exact ⟨rfl, .inr ⟨fun _ ↦ by simp, _, _, hd, hhd, rfl⟩⟩
    · cases h

structure SameRequest (r r' : Rru) : Prop where
  mac : r'.mac = r.mac
  cfg : r'.cfg = r.cfg

theorem SameRequest.refl (r : Rru) : SameRequest r r :=
  ⟨rfl, rfl⟩

theorem receiveMessage_sameRequest {env : Env} {r : Rru} {m : Mem} {len : ℤ} {h : Handled}
    (hr : receiveMessage env r m len = some h) : SameRequest r h.1 := by
  obtain ⟨h, hp, rfl⟩ := Option.map_eq_some_iff.1 hr
  cases processRruMessage_reaction hp with
  | quiet => exact ⟨rfl, rfl⟩
  | established => exact ⟨rfl, rfl⟩
  | cleared => exact ⟨rfl, rfl⟩
  | confirmed => exact ⟨rfl, rfl⟩
  | asked => exact ⟨rfl, rfl⟩

structure Stays (r r' : Rru) : Prop extends SameRequest r r' where
  unused : r.state = .none → r'.state = .none

theorem Stays.refl (r : Rru) : Stays r r :=
  ⟨.refl r, fun h ↦ h⟩

theorem stays_update {rrus rrus' : SlotId → Rru} {i : SlotId} {r : Rru}
    (hr : rrus' = Function.update rrus i r) (h : Stays (rrus i) r) (j : SlotId) :
    Stays (rrus j) (rrus' j) := by
  rw [hr]
  exact (Function.forall_update_iff rrus fun j r' ↦ Stays (rrus j) r').2 ⟨h, fun _ _ ↦ .refl _⟩ j

theorem checkParams_stays (env : Env) (r : Rru) : Stays r (checkParams env r).1 := by
  refine ⟨?_, checkParams_none env⟩
  unfold checkParams
  split_ifs <;> exact ⟨rfl, rfl⟩

theorem checkInactivity_stays (s : Manager) (i : SlotId) (peer : Option UInt32) (j : SlotId) :
    Stays (s.rrus j) ((s.checkInactivity i peer).rrus j) := by
  unfold Manager.checkInactivity
  dsimp only
  split_ifs with hnone ht
  · exact .refl _
  · refine stays_update rfl ?_ j
    exact ⟨⟨rfl, rfl⟩, fun _ ↦ rfl⟩
  · refine stays_update rfl ?_ j
    exact ⟨⟨rfl, rfl⟩, fun h ↦ h⟩

theorem accept_stays (s : Manager) (peer : Option UInt32) (j : SlotId) :
    Stays (s.rrus j) ((s.accept peer).1.rrus j) := by
  cases ht : s.target (peer.getD s.address) with
  | none =>
    rw [(accept_ignored peer ht).1]
    exact .refl _
  | some i =>
    refine stays_update (accept_connected peer ht).1 ⟨⟨rfl, rfl⟩, fun hnone ↦ ?_⟩ j
    rw [(target_eq_some.1 ht).1] at hnone
    cases hnone

theorem readSlot_stays {s : Manager} {env : Env} {i : SlotId} {r : ReadResult}
    {x : Manager × List Obs} (hne : (s.rrus i).state ≠ .none)
    (hx : s.readSlot env i r = some x) (j : SlotId) : Stays (s.rrus j) (x.1.rrus j) := by
  rcases (readSlot_cases hx).2 with ⟨_, -, hr⟩ | ⟨-, _, _, h, hh, hr⟩
  · exact stays_update hr ⟨⟨rfl, rfl⟩, fun _ ↦ rfl⟩ j
  · exact stays_update hr ⟨receiveMessage_sameRequest hh, fun hnone ↦ absurd hnone hne⟩ j

theorem step_slot {s s' : Manager} {e : Env × Input} {o : List Obs}
    (h : s.step e = some (s', o)) (j : SlotId) :
    (∃ env req r, e = (env, .cfg (some req)) ∧ s.slotFor req.rruMac = some (j, r) ∧
        s'.rrus = (s.register env req j r).1.rrus) ∨
      Stays (s.rrus j) (s'.rrus j) := by
  cases step_turn h with
  | @request env req i r _ hx =>
    by_cases hj : j = i
    · subst hj
      exact .inl ⟨env, req, r, rfl, hx, rfl⟩
    · refine .inr ?_
      change Stays _ (Function.update s.rrus i _ j)
      rw [Function.update_of_ne hj]
      exact .refl _
  | @poll env r =>
    cases r <;> exact .inr (.refl _)
  | @params env i =>
    exact .inr (stays_update rfl (checkParams_stays env (s.rrus i)) j)
  | @inactivity env i peer =>
    exact .inr (checkInactivity_stays s i peer j)
  | @connection env peer =>
    exact .inr (accept_stays s peer j)
  | read _ hne _ hx => exact .inr (readSlot_stays hne hx j)
  | reconfigure hready =>
    refine .inr (stays_update rfl ?_ j)
    refine ⟨⟨rfl, rfl⟩, fun hnone ↦ ?_⟩
    rw [hready] at hnone
    cases hnone
  | noRequest | noConnection | tap | noRead | noReconfigure => exact .inr (.refl _)

end EnbL1Ppc.CpriEth
