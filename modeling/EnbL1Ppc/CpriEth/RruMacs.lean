import EnbL1Ppc.CpriEth.RruSlots

namespace EnbL1Ppc.CpriEth

open Lib.Machine

/-!
The table as a registry of MAC addresses. A slot keeps its address when it becomes unused, and
the lookup does not ask for the state, so that an RRU that comes back is found in its old slot.
-/

def zeroMac : List UInt8 := List.replicate 6 0

def Manager.DistinctMacs (s : Manager) : Prop :=
  ∀ i j, i ≠ j → (s.rrus i).mac = (s.rrus j).mac → (s.rrus i).mac = zeroMac

theorem start_distinctMacs (fds : List ℕ) (address : UInt32) (mem : Mem) :
    (Manager.start fds address mem).DistinctMacs :=
  fun _ _ _ _ ↦ rfl

theorem Manager.DistinctMacs.stays {s s' : Manager} (h : s.DistinctMacs)
    (hstays : ∀ j, Stays (s.rrus j) (s'.rrus j)) : s'.DistinctMacs := by
  intro i j hij heq
  rw [(hstays i).mac, (hstays j).mac] at heq
  rw [(hstays i).mac]
  exact h i j hij heq

theorem Manager.DistinctMacs.register {s s' : Manager} (h : s.DistinctMacs) {mac : List UInt8}
    {i : SlotId} {r r' : Rru} (hslot : s.slotFor mac = some (i, r))
    (hr : s'.rrus = Function.update s.rrus i r') (hmac : r'.mac = r.mac) : s'.DistinctMacs := by
  obtain ⟨hrmac, -, hown⟩ := slotFor_mac hslot
  have hi : (s'.rrus i).mac = mac := by
    rw [hr, Function.update_self, hmac, hrmac]
  have hother : ∀ j, j ≠ i → s'.rrus j = s.rrus j := fun j hj ↦ by
    rw [hr, Function.update_of_ne hj]
  -- another slot has the address only if it is zero
  have hzero : ∀ j, j ≠ i → (s.rrus j).mac = mac → mac = zeroMac := by
    intro j hj hmac
    rcases hown with hown | hnone
    · exact hown ▸ h i j hj.symm (hown.trans hmac.symm)
    · exact absurd hmac (hnone j)
  intro a b hab heq
  by_cases ha : a = i
  · subst ha
    rw [hi, hother b hab.symm] at heq
    rw [hi]
    exact hzero b hab.symm heq.symm
  · rw [hother a ha] at heq ⊢
    by_cases hb : b = i
    · subst hb
      rw [hi] at heq
      rw [heq]
      exact hzero a ha heq
    · rw [hother b hb] at heq
      exact h a b hab heq

theorem Manager.DistinctMacs.step {s s' : Manager} (h : s.DistinctMacs) {e : Env × Input}
    {o : List Obs} (hs : s.step e = some (s', o)) : s'.DistinctMacs := by
  by_cases hreg : ∃ j env req r, e = (env, .cfg (some req)) ∧
      s.slotFor req.rruMac = some (j, r) ∧ s'.rrus = (s.register env req j r).1.rrus
  · obtain ⟨j, env, req, r, rfl, hslot, hr⟩ := hreg
    exact h.register hslot hr rfl
  · refine h.stays fun j ↦ ?_
    rcases step_slot hs j with ⟨env, req, r, he⟩ | hj
    · exact absurd ⟨j, env, req, r, he⟩ hreg
    · exact hj

def NotTakenOver (i : SlotId) (mac : List UInt8) (s : Manager) (e : Env × Input) : Prop :=
  ∀ req r, e.2 = .cfg (some req) → s.slotFor req.rruMac = some (i, r) → req.rruMac = mac

theorem mac_step {s s' : Manager} {i : SlotId} {mac : List UInt8} (h : (s.rrus i).mac = mac)
    {e : Env × Input} (hkept : NotTakenOver i mac s e) {o : List Obs}
    (hs : s.step e = some (s', o)) : (s'.rrus i).mac = mac := by
  rcases step_slot hs i with ⟨env, req, r, rfl, hslot, hr⟩ | hstays
  · have hmac : (s'.rrus i).mac = r.mac := by
      rw [hr]
      change (Function.update s.rrus i _ i).mac = _
      rw [Function.update_self]
    rw [hmac, (slotFor_mac hslot).1]
    exact hkept req r rfl hslot
  · rw [hstays.mac, h]

theorem Manager.DistinctMacs.slotFor_eq {s : Manager} (h : s.DistinctMacs) {i : SlotId}
    (hne : (s.rrus i).mac ≠ zeroMac) : s.slotFor (s.rrus i).mac = some (i, s.rrus i) := by
  have hfind : findRruByMac s.rrus (s.rrus i).mac = some i := by
    rw [findRruByMac, findSlot_eq_some]
    refine ⟨by simp, fun j hj ↦ ?_⟩
    rw [decide_eq_false_iff_not]
    intro heq
    exact hne (h i j hj.ne' heq.symm)
  rw [Manager.slotFor, hfind]

/-- In every run the slots have different addresses, those aside that were never requested. An
RRU that registers again gets the slot that it had, unless another RRU got it in between. -/
theorem registered_slot {fds : List ℕ} {address : UInt32} {mem : Mem} {es : List (Env × Input)}
    {s : Manager} {o : List Obs} (h : exec Manager.step (.start fds address mem) es = some (s, o)) :
    s.DistinctMacs ∧
    ∀ i, (s.rrus i).mac ≠ zeroMac → ∀ es' s' o', exec Manager.step s es' = some (s', o') →
      Along Manager.step (NotTakenOver i (s.rrus i).mac) s es' →
      ∀ env req, req.rruMac = (s.rrus i).mac →
        s'.configure env req = some (s'.register env req i (s'.rrus i)) := by
  have hstep {s : Manager} {e : Env × Input} {s' : Manager} {o : List Obs} (hd : s.DistinctMacs)
      (_ : True) (hs : s.step e = some (s', o)) : s'.DistinctMacs := hd.step hs
  have hany (s : Manager) (es : List (Env × Input)) :
      Along Manager.step (fun _ _ ↦ True) s es := .of_forall (fun _ _ _ ↦ trivial) s
  have hdistinct : s.DistinctMacs :=
    exec_invariant hstep (start_distinctMacs fds address mem) (hany _ es) h
  refine ⟨hdistinct, fun i hne es' s' o' h' hkept env req hreq ↦ ?_⟩
  have hdistinct' : s'.DistinctMacs := exec_invariant hstep hdistinct (hany _ es') h'
  have hmac : (s'.rrus i).mac = (s.rrus i).mac :=
    exec_invariant (p := fun t : Manager ↦ (t.rrus i).mac = (s.rrus i).mac)
      (fun hm hg hs ↦ mac_step hm hg hs) rfl hkept h'
  rw [Manager.configure, hreq, ← hmac, hdistinct'.slotFor_eq (by rwa [hmac]), Option.map_some]

theorem registered_slot_idleRound :
    ∃ (env : Env) (req : CfgReq) (s s' : Manager) (o o' : List Obs),
      exec Manager.step (.start [0, 1, 2] 0 fun _ ↦ 0)
        (roundInputs env (some req) none fun _ ↦ none) = some (s, o) ∧
      exec Manager.step s (roundInputs env none none fun _ ↦ none) = some (s', o') ∧
      s'.configure env req = some (s'.register env req 0 (s'.rrus 0)) := by
  let env : Env := ⟨false, [⟨some 0xc0a81e02, 0, 0, 0⟩], ⟨25, 1⟩, ⟨0, 0, 0, 1, 1, 2020⟩⟩
  let req : CfgReq := ⟨0, 0, [2, 0, 0, 0, 0, 1]⟩
  obtain ⟨⟨s, o⟩, h⟩ : ∃ r, exec Manager.step (.start [0, 1, 2] 0 fun _ ↦ 0)
    (roundInputs env (some req) none fun _ ↦ none) = some r := ⟨_, rfl⟩
  have hmac : (s.rrus 0).mac = req.rruMac := by
    cases h
    rfl
  obtain ⟨⟨s', o'⟩, h'⟩ : ∃ r, exec Manager.step s (roundInputs env none none fun _ ↦ none) =
      some r := by
    cases h
    exact ⟨_, rfl⟩
  refine ⟨env, req, s, s', o, o', h, h', (registered_slot h).2 0 ?_ _ s' o' h' ?_ env req hmac.symm⟩
  · rw [hmac]
    decide
  · refine .of_forall (fun e he t q r hq ↦ ?_) s
    simp only [roundInputs, List.mem_append, List.mem_cons, List.not_mem_nil, or_false,
      List.mem_map] at he
    rcases he with (rfl | rfl | rfl | rfl) | ⟨j, -, rfl⟩ <;> cases hq

end EnbL1Ppc.CpriEth
