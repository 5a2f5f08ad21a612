import EnbL1Ppc.CpriEth.RruSteps

namespace EnbL1Ppc.CpriEth

open Lib.Machine

/-!
Which slot a new connection goes to. The lookup takes the first slot with the address of the
peer, whatever its state, so that the addresses of all slots matter.
-/

theorem findSlot_eq_some {rrus : SlotId → Rru} {p : Rru → Bool} {i : SlotId} :
    findSlot rrus p = some i ↔ p (rrus i) = true ∧ ∀ j < i, p (rrus j) = false := by
  rw [findSlot, List.find?_eq_some_iff_getElem]
  constructor
  · rintro ⟨hp, k, hk, hki, hlt⟩
    rw [List.getElem_finRange] at hki
    refine ⟨hp, fun j hj ↦ ?_⟩
    have hjk : j.val < k := by
      rw [← hki] at hj
      exact hj
    have := hlt j.val hjk
    rw [List.getElem_finRange] at this
    simpa using this
  · rintro ⟨hp, hlt⟩
    refine ⟨hp, i.val, by simp, by simp, fun j hj ↦ ?_⟩
    rw [List.getElem_finRange]
    simpa using hlt ⟨j, Nat.lt_trans hj i.isLt⟩ hj

theorem target_eq_some {s : Manager} {ip : UInt32} {i : SlotId} :
    s.target ip = some i ↔
      (s.rrus i).state = .init ∧ (s.rrus i).ip = ip ∧ ∀ j < i, (s.rrus j).ip ≠ ip := by
  simp only [Manager.target, findRruByIp, Option.filter_eq_some_iff, findSlot_eq_some,
    decide_eq_true_eq, decide_eq_false_iff_not]
  constructor
  · rintro ⟨⟨hip, hlt⟩, hst⟩
    exact ⟨hst, hip, hlt⟩
  · rintro ⟨hst, hip, hlt⟩
    exact ⟨⟨hip, hlt⟩, hst⟩

def Manager.Waiting (s : Manager) (ip : UInt32) (i : SlotId) : Prop :=
  (s.rrus i).state = .init ∧ (s.rrus i).ip = ip

/-- If a slot waits for a connection from `ip`, it is the only one, and it gets the socket. -/
def Manager.Associates (s : Manager) (ip : UInt32) : Prop :=
  (∃ i, s.Waiting ip i) → ∃ i, s.Waiting ip i ∧ (∀ j, s.Waiting ip j → j = i) ∧
    ((s.accept (some ip)).1.rrus i).state = .connected ∧
    ((s.accept (some ip)).1.rrus i).fd = lowestFree s.fds

/-- A slot that waits has its address for itself, but for slots behind it that do not wait. -/
def Manager.Distinct (s : Manager) : Prop :=
  ∀ i j, (s.rrus i).state = .init → i ≠ j → (s.rrus j).ip = (s.rrus i).ip →
    i < j ∧ (s.rrus j).state ≠ .init

theorem associates_iff (s : Manager) : (∀ ip, s.Associates ip) ↔ s.Distinct := by
  constructor
  · intro h i j hi hij hip
    have hwait : s.Waiting (s.rrus i).ip i := ⟨hi, rfl⟩
    obtain ⟨k, -, huniq, hconn, -⟩ := h (s.rrus i).ip ⟨i, hwait⟩
    obtain rfl := huniq i hwait
    have htarget : s.target (s.rrus i).ip = some i := by
      -- a slot other than the target would still wait
      cases ht : s.target (s.rrus i).ip with
      | none =>
        rw [(accept_ignored (some (s.rrus i).ip) ht).1, hi] at hconn
        cases hconn
      | some k =>
        by_cases hk : i = k
        · rw [hk]
        · rw [(accept_connected (some (s.rrus i).ip) ht).1, Function.update_of_ne hk,
            hi] at hconn
          cases hconn
    obtain ⟨-, -, hlt⟩ := target_eq_some.1 htarget
    refine ⟨?_, fun hj ↦ hij (huniq j ⟨hj, hip⟩).symm⟩
    rcases lt_trichotomy i j with hlt' | heq | hgt
    · exact hlt'
    · exact absurd heq hij
    · exact absurd hip (hlt j hgt)
  · rintro h ip ⟨i, hi, hip⟩
    have htarget : s.target ip = some i := by
      refine target_eq_some.2 ⟨hi, hip, fun j hj hjp ↦ ?_⟩
      exact absurd (h i j hi (ne_of_gt hj) (hjp.trans hip.symm)).1 (not_lt_of_gt hj)
    refine ⟨i, ⟨hi, hip⟩, ?_, ?_⟩
    · intro j hj
      by_contra hne
      exact (h i j hi (Ne.symm hne) (hj.2.trans hip.symm)).2 hj.1
    · rw [(accept_connected (some ip) htarget).1, Function.update_self]
      exact ⟨rfl, rfl⟩

/-- A configuration request gives its slot an address that no slot before it has, and no slot
that waits. -/
def FreshAddress (s : Manager) (e : Env × Input) : Prop :=
  match e.2 with
  | .cfg (some req) => ∀ i r, s.slotFor req.rruMac = some (i, r) → ∀ j, i ≠ j →
    (s.rrus j).ip = s.assignedIp e.1 req.bbuPort → i < j ∧ (s.rrus j).state ≠ .init
  | _ => True

theorem Manager.Distinct.of_kept {s s' : Manager} (h : s.Distinct)
    (hip : ∀ i, (s'.rrus i).ip = (s.rrus i).ip)
    (hst : ∀ i, (s'.rrus i).state = .init → (s.rrus i).state = .init) : s'.Distinct := by
  intro i j hi hij hp
  rw [hip, hip] at hp
  obtain ⟨hlt, hj⟩ := h i j (hst i hi) hij hp
  exact ⟨hlt, fun hj' ↦ hj (hst j hj')⟩

theorem Manager.Distinct.update {s s' : Manager} (h : s.Distinct) {i : SlotId} {r : Rru}
    (hr : s'.rrus = Function.update s.rrus i r) (hip : r.ip = (s.rrus i).ip)
    (hst : r.state = .init → (s.rrus i).state = .init) : s'.Distinct := by
  refine h.of_kept (fun j ↦ ?_) fun j ↦ ?_
  · rw [hr]
    by_cases hj : j = i
    · rw [hj, Function.update_self, hip]
    · rw [Function.update_of_ne hj]
  · rw [hr]
    by_cases hj : j = i
    · rw [hj, Function.update_self]
      exact hst
    · rw [Function.update_of_ne hj]
      exact id

theorem distinct_register_iff {s s' : Manager} (h : s.Distinct) {i : SlotId} {r : Rru}
    (hr : s'.rrus = Function.update s.rrus i r) (hst : r.state = .init) :
    s'.Distinct ↔ ∀ j, i ≠ j → (s.rrus j).ip = r.ip → i < j ∧ (s.rrus j).state ≠ .init := by
  have hself : s'.rrus i = r := by
    rw [hr, Function.update_self]
  have hother : ∀ {j}, i ≠ j → s'.rrus j = s.rrus j := by
    intro j hj
    rw [hr, Function.update_of_ne (Ne.symm hj)]
  constructor
  · intro h' j hij hip
    have := h' i j (hself ▸ hst) hij (by rw [hself, hother hij, hip])
    rwa [hother hij] at this
  · intro hfresh j k hj hjk hip
    by_cases hij : i = j
    · subst hij
      rw [hself, hother hjk] at hip
      rw [hother hjk]
      exact hfresh k hjk hip
    · by_cases hik : i = k
      · -- no slot that waits has the new address
        subst hik
        rw [hself, hother hij] at hip
        rw [hother hij] at hj
        exact absurd hj (hfresh j hij hip.symm).2
      · rw [hother hij, hother hik] at hip
        rw [hother hij] at hj
        rw [hother hik]
        exact h j k hj hjk hip

theorem step_cfg {s s' : Manager} {env : Env} {req : CfgReq} {o : List Obs}
    (h : s.step (env, .cfg (some req)) = some (s', o)) :
    ∃ i r, s.slotFor req.rruMac = some (i, r) ∧ s'.rrus = (s.register env req i r).1.rrus ∧
      SameSockets s s' := by
  unfold Manager.step at h
  cases hphase : s.phase with
  | cfg =>
    rw [hphase] at h
    obtain ⟨r, hr, heq⟩ := Option.map_eq_some_iff.1 h
    obtain ⟨x, hx, rfl⟩ := Option.map_eq_some_iff.1 hr
    cases heq
    exact ⟨x.1, x.2, hx, rfl, rfl, rfl⟩
  | _ =>
    rw [hphase] at h
    cases h

theorem step_distinct_iff {s s' : Manager} {e : Env × Input} {o : List Obs} (h : s.Distinct)
    (hs : s.step e = some (s', o)) : s'.Distinct ↔ FreshAddress s e := by
  constructor
  · intro hd
    obtain ⟨env, input⟩ := e
    unfold FreshAddress
    split
    · next req hin =>
      obtain rfl : input = .cfg (some req) := hin
      intro i r hslot
      obtain ⟨i', r', hslot', hrrus, -⟩ := step_cfg hs
      rw [hslot, Option.some.injEq, Prod.mk.injEq] at hslot'
      obtain ⟨rfl, rfl⟩ := hslot'
      exact (distinct_register_iff h hrrus rfl).1 hd
    · trivial
  · intro hfresh
    cases step_effect hs with
    | quiet hrrus _ => exact h.of_kept (fun i ↦ by rw [hrrus]) fun i ↦ by rw [hrrus]; exact id
    | kept hrrus _ hkept _ _ =>
      exact h.update hrrus hkept.ip fun hi ↦
        (hkept.eq_of_not_inSetup (by rw [hi]; rfl)).trans hi
    | confirmed _ _ _ hrrus _ => exact h.update hrrus rfl fun hi ↦ by cases hi
    | closed _ hrrus _ => exact h.update hrrus rfl fun hi ↦ by cases hi
    | registered hslot hrrus _ =>
      exact (distinct_register_iff h hrrus rfl).2 (hfresh _ _ hslot)
    | ignored _ hrrus _ => exact h.of_kept (fun i ↦ by rw [hrrus]) fun i ↦ by rw [hrrus]; exact id
    | connected _ hrrus _ => exact h.update hrrus rfl fun hi ↦ by cases hi

theorem start_distinct (fds : List ℕ) (address : UInt32) (mem : Mem) :
    (Manager.start fds address mem).Distinct :=
  fun _ _ hi ↦ by cases hi

/-- Over a whole run connections find their slots exactly if all configuration requests get
fresh addresses. -/
theorem associates_always_iff (fds : List ℕ) (address : UInt32) (mem : Mem)
    (es : List (Env × Input)) :
    Always Manager.step (fun s ↦ ∀ ip, s.Associates ip) (Manager.start fds address mem) es ↔
      Along Manager.step FreshAddress (Manager.start fds address mem) es := by
  refine always_iff_along (J := fun _ ↦ True) (fun _ _ ↦ trivial) ?_ trivial
    ((associates_iff _).2 (start_distinct fds address mem)) es
  intro s e s' o _ hp hs
  rw [associates_iff] at hp ⊢
  exact step_distinct_iff hp hs

def twoRrusOnOnePort : List (Env × Input) :=
  let env : Env := ⟨false, [⟨some 0xc0a81e02, 0, 0, 0⟩], ⟨25, 1⟩, ⟨0, 0, 0, 1, 1, 2020⟩⟩
  roundInputs env (some ⟨0, 0, [1, 0, 0, 0, 0, 1]⟩) none (fun _ ↦ none) ++
    roundInputs env (some ⟨0, 0, [1, 0, 0, 0, 0, 2]⟩) none fun _ ↦ none

theorem shared_port_not_associated : ∃ s o,
    exec Manager.step (.start [0, 1, 2] 0 fun _ ↦ 0) twoRrusOnOnePort = some (s, o) ∧
      ¬ s.Associates 0xc0a81e02 := by
  have hrun : (exec Manager.step (.start [0, 1, 2] 0 fun _ ↦ 0) twoRrusOnOnePort).map (fun r ↦
      ([(r.1.rrus 0).state, (r.1.rrus 1).state], [(r.1.rrus 0).ip, (r.1.rrus 1).ip])) =
      some ([.init, .init], [0xc0a81e02, 0xc0a81e02]) := by
    decide
  obtain ⟨⟨s, o⟩, hs, heq⟩ := Option.map_eq_some_iff.1 hrun
  simp only [Prod.mk.injEq, List.cons.injEq, and_true] at heq
  obtain ⟨⟨h0, h1⟩, hip0, hip1⟩ := heq
  refine ⟨s, o, hs, fun h ↦ ?_⟩
  obtain ⟨i, -, huniq, -⟩ := h ⟨0, h0, hip0⟩
  have h01 := (huniq 0 ⟨h0, hip0⟩).trans (huniq 1 ⟨h1, hip1⟩).symm
  exact absurd h01 (by decide)

end EnbL1Ppc.CpriEth
