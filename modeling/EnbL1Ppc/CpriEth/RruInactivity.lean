import EnbL1Ppc.CpriEth.RruFraming
import EnbL1Ppc.CpriEth.RruTurns

namespace EnbL1Ppc.CpriEth

open Lib.Machine

/-!
When a slot is given up. Its counter follows a watchdog that counts the timeouts of `poll` since
the slot was last touched; a round of the loop in which anything else is ready does not count.
-/

def expire (k : ℕ) (w : Option ℕ) : Option ℕ :=
  w.bind fun v ↦ if v + k ≤ rruInactivityTimeout + 1 then some (v + k) else none

theorem le_of_mem_expire {k v : ℕ} {w : Option ℕ} (h : v ∈ expire k w) :
    v ≤ rruInactivityTimeout + 1 := by
  obtain ⟨u, -, hu⟩ := Option.bind_eq_some_iff.1 h
  split at hu
  · next hle =>
    cases hu
    exact hle
  · cases hu

theorem expire_expire (j k : ℕ) (w : Option ℕ) : expire j (expire k w) = expire (j + k) w := by
  cases w with
  | none => rfl
  | some v =>
    simp only [expire, Option.bind_some]
    by_cases hk : v + k ≤ rruInactivityTimeout + 1
    · rw [if_pos hk, Option.bind_some, Nat.add_assoc, Nat.add_comm k j]
    · rw [if_neg hk, if_neg (by omega)]
      rfl

theorem expire_eq_none {k v : ℕ} :
    expire k (some v) = none ↔ rruInactivityTimeout + 1 < v + k := by
  simp only [expire, Option.bind_some]
  split
  · next h => exact ⟨nofun, fun hlt ↦ absurd h (not_le_of_gt hlt)⟩
  · next h => exact ⟨fun _ ↦ not_le.1 h, fun _ ↦ rfl⟩

/-- The watchdog of slot `i`: the timeouts of `poll` since the slot was last touched, or `none`
if the slot is given up. -/
def watch (i : SlotId) (s : Manager) (w : Option ℕ) : Input → Option ℕ
  | .poll .timeout => expire 1 w
  | .params =>
    -- the parameters are sent during the round of the timeout
    if s.phase = .params i ∧ (s.rrus i).state = .needParamsConfig ∧ 10 ≤ (s.rrus i).timer then
      some 1
    else w
  | .cfg (some req) => if (s.slotFor req.rruMac).any (·.1 = i) then some 0 else w
  | .control (some peer) => if s.target (peer.getD s.address) = some i then some 0 else w
  | .read (some (.closed _)) => if s.phase = .read i then none else w
  | .read (some _) => if s.phase = .read i then some 0 else w
  | _ => w

section Equations

variable (i : SlotId) (s : Manager) (w : Option ℕ)

theorem watch_timeout : watch i s w (.poll .timeout) = expire 1 w :=
  rfl

theorem watch_params :
    watch i s w .params =
      if s.phase = .params i ∧ (s.rrus i).state = .needParamsConfig ∧ 10 ≤ (s.rrus i).timer then
        some 1
      else w :=
  rfl

theorem watch_cfg (req : CfgReq) :
    watch i s w (.cfg (some req)) =
      if (s.slotFor req.rruMac).any (·.1 = i) then some 0 else w :=
  rfl

theorem watch_control (peer : Option UInt32) :
    watch i s w (.control (some peer)) =
      if s.target (peer.getD s.address) = some i then some 0 else w :=
  rfl

theorem watch_closed (peer : Option UInt32) :
    watch i s w (.read (some (.closed peer))) = if s.phase = .read i then none else w :=
  rfl

end Equations

def watchedStep (i : SlotId) : Step (Manager × Option ℕ) (Env × Input) Obs :=
  fun x e ↦ (x.1.step e).map fun r ↦ ((r.1, watch i x.1 x.2 e.2), r.2)

def Phase.Unchecked (i : SlotId) : Phase → Prop
  | .params _ => True
  | .inactivity j => j ≤ i
  | _ => False

instance (i : SlotId) : (p : Phase) → Decidable (p.Unchecked i)
  | .params _ => .isTrue trivial
  | .inactivity j => inferInstanceAs (Decidable (j ≤ i))
  | .top | .cfg | .control | .tap | .read _ | .done => .isFalse id

def Watched (i : SlotId) (phase : Phase) (r : Rru) : Option ℕ → Prop
  | some v => r.state ≠ .none ∧ v ≤ rruInactivityTimeout + 1 ∧
    v = r.timeout + if phase.Unchecked i then 1 else 0
  | none => r.state = .none ∨ phase.Unchecked i ∧ rruInactivityTimeout < r.timeout

theorem Watched.none_iff {i : SlotId} {phase : Phase} {r : Rru} {w : Option ℕ}
    (h : Watched i phase r w) (hphase : ¬ phase.Unchecked i) : r.state = .none ↔ w = none := by
  cases w with
  | none => exact ⟨fun _ ↦ rfl, fun _ ↦ h.resolve_right fun hu ↦ hphase hu.1⟩
  | some v => exact ⟨fun hnone ↦ absurd hnone h.1, nofun⟩

theorem Watched.move {i : SlotId} {p p' : Phase} {r r' : Rru} {w : Option ℕ}
    (h : Watched i p r w) (hst : r'.state = r.state) (ht : r'.timeout = r.timeout)
    (hp : p'.Unchecked i ↔ p.Unchecked i) : Watched i p' r' w := by
  cases w with
  | none =>
    rw [Watched, hst, ht, hp]
    exact h
  | some v =>
    simp only [Watched, hst, ht, hp]
    exact h

theorem Watched.touched {i : SlotId} {p : Phase} {r : Rru} (hst : r.state ≠ .none)
    (ht : r.timeout = 0) (hp : ¬ p.Unchecked i) : Watched i p r (some 0) := by
  refine ⟨hst, Nat.zero_le _, ?_⟩
  rw [ht, if_neg hp]

theorem Watched.poll {i : SlotId} {s : Manager} {w : Option ℕ} (h : Watched i s.phase (s.rrus i) w)
    (hphase : s.phase = .top) (r : PollResult) :
    Watched i (s.doPoll r).phase ((s.doPoll r).rrus i) (watch i s w (.poll r)) := by
  have hp : ¬ s.phase.Unchecked i := by
    rw [hphase]
    exact id
  cases r with
  | error => exact h.move rfl rfl Iff.rfl
  | ready => exact h.move rfl rfl ⟨False.elim, hp⟩
  | timeout =>
    cases w with
    | none => exact .inl ((h.none_iff hp).2 rfl)
    | some v =>
      obtain ⟨hst, hle, hv⟩ := h
      rw [if_neg hp] at hv
      have hp' : (s.doPoll .timeout).phase.Unchecked i := trivial
      rw [watch_timeout, expire, Option.bind_some]
      split
      · next hlt =>
        refine ⟨hst, hlt, ?_⟩
        rw [if_pos hp', hv]
        rfl
      · next hlt => exact .inr ⟨hp', show _ < (s.rrus i).timeout by omega⟩

theorem unchecked_nextSlot_params (i j : SlotId) :
    (Manager.nextSlot j .params (.inactivity 0)).Unchecked i := by
  unfold Manager.nextSlot
  split
  · trivial
  · exact Fin.zero_le i

theorem unchecked_nextSlot_inactivity (i j : SlotId) :
    (Manager.nextSlot j .inactivity .top).Unchecked i ↔ j < i := by
  unfold Manager.nextSlot
  split
  · exact Nat.succ_le_iff
  · next h =>
    have := i.isLt
    exact ⟨False.elim, fun hlt ↦ h (by rw [Fin.lt_def] at hlt; omega)⟩

theorem not_unchecked_nextSlot_read (i j : SlotId) :
    ¬ (Manager.nextSlot j .read .top).Unchecked i := by
  unfold Manager.nextSlot
  split <;> exact id

theorem Watched.params {i j : SlotId} {s : Manager} {w : Option ℕ}
    (h : Watched i s.phase (s.rrus i) w) (hphase : s.phase = .params j) (env : Env) :
    Watched i (Manager.nextSlot j .params (.inactivity 0))
      ((s.setRru j (checkParams env (s.rrus j)).1).rrus i) (watch i s w .params) := by
  have hp : (Manager.nextSlot j .params (.inactivity 0)).Unchecked i ↔ s.phase.Unchecked i := by
    rw [hphase]
    exact iff_of_true (unchecked_nextSlot_params i j) trivial
  simp only [Manager.setRru, watch_params]
  by_cases hij : i = j
  · subst hij
    rw [Function.update_self, checkParams]
    by_cases hneed : (s.rrus i).state = .needParamsConfig ∧ 10 ≤ (s.rrus i).timer
    · rw [if_pos hneed.1, if_pos hneed.2, if_pos ⟨hphase, hneed⟩]
      refine ⟨fun hnone ↦ ?_, by decide, ?_⟩
      · cases hnone
      · rw [if_pos (unchecked_nextSlot_params i i)]
        rfl
    · have hno : ¬ (s.phase = .params i ∧ (s.rrus i).state = .needParamsConfig ∧
          10 ≤ (s.rrus i).timer) := fun h ↦ hneed h.2
      rw [if_neg hno]
      split_ifs with hst htimer
      · exact absurd ⟨hst, htimer⟩ hneed
      · exact h.move rfl rfl hp
      · exact h.move rfl rfl hp
  · rw [Function.update_of_ne hij, if_neg]
    · exact h.move rfl rfl hp
    · rintro ⟨hi, -⟩
      rw [hphase] at hi
      exact hij (Phase.params.inj hi).symm

theorem Watched.inactivity {i j : SlotId} {s : Manager} {w : Option ℕ}
    (h : Watched i s.phase (s.rrus i) w) (hphase : s.phase = .inactivity j)
    (peer : Option UInt32) :
    Watched i (Manager.nextSlot j .inactivity .top) ((s.checkInactivity j peer).rrus i) w := by
  rw [hphase] at h
  by_cases hij : i = j
  · subst hij
    have hp : ¬ (Manager.nextSlot i .inactivity .top).Unchecked i := fun hu ↦
      lt_irrefl i ((unchecked_nextSlot_inactivity i i).1 hu)
    have hu : (Phase.inactivity i).Unchecked i := le_refl i
    unfold Manager.checkInactivity
    dsimp only
    -- the check that the timeout stands for
    cases w with
    | none =>
      left
      split_ifs with hnone ht
      · exact hnone
      · simp [Manager.setRru]
      · rcases h with h | h
        · exact absurd h hnone
        · exact absurd h.2 ht
    | some v =>
      obtain ⟨hst, hle, hv⟩ := h
      rw [if_pos hu] at hv
      rw [if_neg hst, if_neg (by omega)]
      simp only [Manager.setRru, Function.update_self]
      exact ⟨hst, hle, by rw [if_neg hp]; exact hv⟩
  · have hr : (s.checkInactivity j peer).rrus i = s.rrus i := by
      unfold Manager.checkInactivity
      dsimp only
      split_ifs
      · rfl
      · exact Function.update_of_ne hij ..
      · exact Function.update_of_ne hij ..
    rw [hr]
    refine h.move rfl rfl ?_
    rw [unchecked_nextSlot_inactivity]
    exact ⟨le_of_lt, fun hle ↦ lt_of_le_of_ne hle (Ne.symm hij)⟩

theorem Watched.request {i j : SlotId} {s : Manager} {w : Option ℕ}
    (h : Watched i s.phase (s.rrus i) w) (hphase : s.phase = .cfg) (env : Env) {req : CfgReq}
    {r : Rru} (hslot : s.slotFor req.rruMac = some (j, r)) :
    Watched i .control ((s.register env req j r).1.rrus i) (watch i s w (.cfg (some req))) := by
  simp only [watch_cfg, hslot, Option.any_some, decide_eq_true_eq, Manager.register, Manager.setRru]
  by_cases hij : j = i
  · subst hij
    rw [if_pos rfl, Function.update_self]
    refine .touched (fun hnone ↦ ?_) rfl id
    cases hnone
  · rw [if_neg hij, Function.update_of_ne (Ne.symm hij)]
    exact h.move rfl rfl (by rw [hphase]; exact Iff.rfl)

theorem Watched.connection {i : SlotId} {s : Manager} {w : Option ℕ}
    (h : Watched i s.phase (s.rrus i) w) (hphase : s.phase = .control) (peer : Option UInt32) :
    Watched i .tap ((s.accept peer).1.rrus i) (watch i s w (.control (some peer))) := by
  rw [hphase] at h
  rw [watch_control]
  cases ht : s.target (peer.getD s.address) with
  | none =>
    rw [(accept_ignored peer ht).1, if_neg nofun]
    exact h.move rfl rfl Iff.rfl
  | some j =>
    rw [(accept_connected peer ht).1]
    by_cases hij : j = i
    · subst hij
      rw [if_pos rfl, Function.update_self]
      exact .touched nofun rfl id
    · rw [if_neg (fun heq ↦ hij (Option.some.inj heq)), Function.update_of_ne (Ne.symm hij)]
      exact h.move rfl rfl Iff.rfl

theorem receiveMessage_timeout {env : Env} {r : Rru} {m : Mem} {len : ℤ} {h : Handled}
    (hr : receiveMessage env r m len = some h) : h.1.timeout = 0 := by
  obtain ⟨h, -, rfl⟩ := Option.map_eq_some_iff.1 hr
  rfl

theorem Watched.read {i j : SlotId} {s : Manager} {w : Option ℕ}
    (h : Watched i s.phase (s.rrus i) w) (hphase : s.phase = .read j)
    (hne : (s.rrus j).state ≠ .none) {env : Env} {r : ReadResult} {x : Manager × List Obs}
    (hx : s.readSlot env j r = some x) :
    Watched i (Manager.nextSlot j .read .top) (x.1.rrus i) (watch i s w (.read (some r))) := by
  have hp := not_unchecked_nextSlot_read i j
  have hcases := (readSlot_cases hx).2
  by_cases hij : i = j
  · subst hij
    rcases hcases with ⟨peer, rfl, hr⟩ | ⟨hopen, m, len, hd, hh, hr⟩
    · rw [watch_closed, if_pos hphase, hr, Function.update_self]
      exact .inl rfl
    · have hw : watch i s w (.read (some r)) = some 0 := by
        cases r with
        | closed peer => exact absurd rfl (hopen peer)
        | error => exact if_pos hphase
        | bytes chunk => exact if_pos hphase
      rw [hw, hr, Function.update_self]
      exact .touched (receiveMessage_inUse hh hne).1 (receiveMessage_timeout hh) hp
  · have hsame : x.1.rrus i = s.rrus i := by
      rcases hcases with ⟨_, -, hr⟩ | ⟨-, _, _, _, -, hr⟩ <;> rw [hr, Function.update_of_ne hij]
    have hread : s.phase ≠ .read i := by
      rw [hphase]
      exact fun heq ↦ hij (Phase.read.inj heq).symm
    have hw : watch i s w (.read (some r)) = w := by
      cases r <;> exact if_neg hread
    rw [hsame, hw]
    exact h.move rfl rfl (iff_of_false hp (by rw [hphase]; exact id))

theorem Watched.step {i : SlotId} {s s' : Manager} {w : Option ℕ} {e : Env × Input}
    {o : List Obs} (h : Watched i s.phase (s.rrus i) w) (hs : s.step e = some (s', o)) :
    Watched i s'.phase (s'.rrus i) (watch i s w e.2) := by
  cases step_turn hs with
  | @poll env r hphase => exact h.poll hphase r
  | @params env j hphase => exact h.params hphase env
  | @inactivity env j peer hphase => exact h.inactivity hphase peer
  | noRequest hphase => exact h.move rfl rfl (by rw [hphase]; exact Iff.rfl)
  | @request env req j r hphase hslot => exact h.request hphase env hslot
  | noConnection hphase => exact h.move rfl rfl (by rw [hphase]; exact Iff.rfl)
  | @connection env peer hphase => exact h.connection hphase peer
  | tap hphase =>
    refine h.move rfl rfl (iff_of_false ?_ (by rw [hphase]; exact id))
    dsimp only
    split <;> exact id
  | @noRead env j hphase =>
    exact h.move rfl rfl (iff_of_false (not_unchecked_nextSlot_read i j) (by rw [hphase]; exact id))
  | read hphase hne _ hx => exact h.read hphase hne hx
  | @reconfigure env j hready =>
    change Watched i s.phase (Function.update s.rrus j _ i) w
    by_cases hij : i = j
    · subst hij
      rw [Function.update_self]
      cases w with
      | none =>
        rcases h with h | h
        · rw [hready] at h
          cases h
        · exact .inr h
      | some v => exact ⟨nofun, h.2⟩
    · rw [Function.update_of_ne hij]
      exact h
  | noReconfigure => exact h

theorem Watched.run {i : SlotId} {x x' : Manager × Option ℕ} {es : List (Env × Input)}
    {out : List Obs} (h : Watched i x.1.phase (x.1.rrus i) x.2)
    (hrun : exec (watchedStep i) x es = some (x', out)) :
    Watched i x'.1.phase (x'.1.rrus i) x'.2 := by
  refine exec_invariant (g := fun _ _ ↦ True)
    (p := fun x : Manager × Option ℕ ↦ Watched i x.1.phase (x.1.rrus i) x.2) ?_ h
    (Along.of_forall (fun _ _ _ ↦ trivial) _) hrun
  intro x e x' o hx _ hs
  obtain ⟨⟨s', o'⟩, hstep, heq⟩ := Option.map_eq_some_iff.1 hs
  cases heq
  exact hx.step hstep

theorem watched_of_reached {fds : List ℕ} {address : UInt32} {mem : Mem}
    {es : List (Env × Input)} {s : Manager} {out : List Obs}
    (hrun : exec Manager.step (.start fds address mem) es = some (s, out)) {i : SlotId}
    (htop : s.phase = .top) (hused : (s.rrus i).state ≠ .none) :
    Watched i s.phase (s.rrus i) (some (s.rrus i).timeout) := by
  have hw : ∃ w, Watched i s.phase (s.rrus i) w := by
    refine exec_invariant (g := fun _ _ ↦ True)
      (p := fun s : Manager ↦ ∃ w, Watched i s.phase (s.rrus i) w) ?_ ⟨none, .inl rfl⟩
      (Along.of_forall (fun _ _ _ ↦ trivial) _) hrun
    rintro s e s' o ⟨w, hw⟩ - hs
    exact ⟨_, hw.step hs⟩
  obtain ⟨w, hw⟩ := hw
  have hp : ¬ s.phase.Unchecked i := by
    rw [htop]
    exact id
  cases w with
  | none => exact absurd ((hw.none_iff hp).2 rfl) hused
  | some v =>
    have hv := hw.2.2
    rw [if_neg hp, Nat.add_zero] at hv
    rwa [hv] at hw

def Input.isTimeout : Input → Bool
  | .poll .timeout => true
  | _ => false

def timeouts (es : List (Env × Input)) : ℕ :=
  es.countP fun e ↦ e.2.isTimeout

def Untouched (i : SlotId) (s : Manager) (e : Env × Input) : Prop :=
  (∀ r, s.phase = .read i → e.2 ≠ .read (some r)) ∧
    (∀ req r, e.2 = .cfg (some req) → s.slotFor req.rruMac ≠ some (i, r)) ∧
    (∀ peer, e.2 = .control (some peer) → s.target (peer.getD s.address) ≠ some i) ∧
    (s.phase = .params i → (s.rrus i).state ≠ .needParamsConfig)

theorem watch_untouched {i : SlotId} {s : Manager} {e : Env × Input} (h : Untouched i s e)
    (w : Option ℕ) : watch i s w e.2 =
      if e.2.isTimeout then expire 1 w else w := by
  obtain ⟨hread, hcfg, hconn, hparams⟩ := h
  obtain ⟨env, input⟩ := e
  cases input with
  | poll r => cases r <;> rfl
  | params => exact if_neg fun hp ↦ hparams hp.1 hp.2.1
  | cfg req =>
    cases req with
    | none => rfl
    | some req =>
      refine if_neg fun hany ↦ ?_
      cases hslot : s.slotFor req.rruMac with
      | none =>
        rw [hslot] at hany
        cases hany
      | some y =>
        rw [hslot, Option.any_some, decide_eq_true_eq] at hany
        exact hcfg req y.2 rfl (by rw [hslot, ← hany])
  | control peer =>
    cases peer with
    | none => rfl
    | some peer => exact if_neg (hconn peer rfl)
  | read r =>
    cases r with
    | none => rfl
    | some r => cases r <;> exact if_neg fun hp ↦ hread _ hp rfl
  | inactivity | tap | reconfigure => rfl

theorem watched_untouched {i : SlotId} {s : Manager} {w : Option ℕ}
    {es : List (Env × Input)} (hun : Along (watchedStep i) (fun x e ↦ Untouched i x.1 e) (s, w) es)
    {x : Manager × Option ℕ} {out : List Obs}
    (hrun : exec (watchedStep i) (s, w) es = some (x, out))
    (hw : ∀ v ∈ w, v ≤ rruInactivityTimeout + 1) :
    x.2 = expire (timeouts es) w := by
  induction es generalizing s w out with
  | nil =>
    cases hrun
    cases w with
    | none => rfl
    | some v => exact (if_pos (hw v rfl)).symm
  | cons e es ih =>
    obtain ⟨⟨s', w'⟩, o, o', hs, he, rfl⟩ := exec_cons_some hrun
    obtain ⟨hi, ha⟩ := hun _ hs
    obtain ⟨⟨t, ot⟩, hstep, heq⟩ := Option.map_eq_some_iff.1 hs
    simp only [Prod.mk.injEq] at heq
    obtain ⟨⟨rfl, rfl⟩, rfl⟩ := heq
    have hcount : timeouts (e :: es) = timeouts es + if e.2.isTimeout then 1 else 0 :=
      List.countP_cons
    rw [watch_untouched hi] at ha he
    rw [hcount]
    by_cases ht : e.2.isTimeout = true
    · rw [if_pos ht] at ha he ⊢
      rw [ih ha he fun v hv ↦ le_of_mem_expire hv, expire_expire]
    · rw [if_neg ht] at ha he ⊢
      exact ih ha he hw

def Waits (ms : ℕ) : Input → Prop
  | .poll .timeout => ms = 1000
  | .poll _ => ms ≤ 1000
  | _ => ms = 0

theorem waits_eq_of_timeouts {waits : List ℕ} {es : List (Env × Input)}
    (h : List.Forall₂ (fun ms e ↦ Waits ms e.2) waits es)
    (hpoll : ∀ e ∈ es, ∀ r, e.2 = .poll r → r = .timeout) : waits.sum = 1000 * timeouts es := by
  induction h with
  | nil => rfl
  | @cons ms e waits es hms _ ih =>
    have htail := ih fun e he ↦ hpoll e (List.mem_cons_of_mem _ he)
    have hcount : timeouts (e :: es) = timeouts es + if e.2.isTimeout then 1 else 0 :=
      List.countP_cons
    have hhead : ms = 1000 * if e.2.isTimeout then 1 else 0 := by
      obtain ⟨env, input⟩ := e
      cases input with
      | poll r =>
        cases hpoll _ List.mem_cons_self r rfl
        exact hms
      | _ => exact hms
    rw [List.sum_cons, hcount, htail, hhead]
    omega

/-- A slot in use at the top of the loop is given up, some rounds later, exactly if its watchdog
has expired. If it has not been touched, that is after as many timeouts of `poll` as its counter
lacks to twelve, and if all polls have timed out these take twelve seconds at most. -/
theorem inactivity_iff {fds : List ℕ} {address : UInt32} {mem : Mem} {pre : List (Env × Input)}
    {s : Manager} {out : List Obs}
    (hpre : exec Manager.step (.start fds address mem) pre = some (s, out)) {i : SlotId}
    (htop : s.phase = .top) (hused : (s.rrus i).state ≠ .none) {es : List (Env × Input)}
    {t : Manager} {w : Option ℕ} {out' : List Obs}
    (hrun : exec (watchedStep i) (s, some (s.rrus i).timeout) es = some ((t, w), out'))
    (hend : t.phase = .top) :
    ((t.rrus i).state = .none ↔ w = none) ∧
      (Along (watchedStep i) (fun x e ↦ Untouched i x.1 e) (s, some (s.rrus i).timeout) es →
        ((t.rrus i).state = .none ↔
            rruInactivityTimeout + 2 ≤ (s.rrus i).timeout + timeouts es) ∧
          ∀ waits, List.Forall₂ (fun ms e ↦ Waits ms e.2) waits es →
            (∀ e ∈ es, ∀ r, e.2 = .poll r → r = .timeout) →
            1000 * (rruInactivityTimeout + 2) < waits.sum → (t.rrus i).state = .none) := by
  have hs := watched_of_reached hpre htop hused
  have hnone : (t.rrus i).state = .none ↔ w = none :=
    (hs.run (x := (s, some (s.rrus i).timeout)) hrun).none_iff (by
      dsimp only
      rw [hend]
      exact id)
  refine ⟨hnone, fun hun ↦ ?_⟩
  have hcount : (t.rrus i).state = .none ↔
      rruInactivityTimeout + 2 ≤ (s.rrus i).timeout + timeouts es := by
    have hw : w = expire (timeouts es) (some (s.rrus i).timeout) :=
      watched_untouched hun hrun fun v hv ↦ by
        cases hv
        exact hs.2.1
    rw [hnone, hw, expire_eq_none]
    exact Nat.succ_le_iff.symm
  refine ⟨hcount, fun waits hwaits hpoll hlong ↦ hcount.2 ?_⟩
  rw [waits_eq_of_timeouts hwaits hpoll] at hlong
  omega

def timeoutInputs (env : Env) : List (Env × Input) :=
  (env, .poll .timeout) :: List.replicate 10 (env, .params) ++
    List.replicate 10 (env, .inactivity none)

theorem inactivity_iff_twelve :
    ∃ (pre es : List (Env × Input)) (s t : Manager) (out out' : List Obs),
      exec Manager.step (.start [0, 1, 2] 0 fun _ ↦ 0) pre = some (s, out) ∧
        (s.rrus 0).state = .connected ∧ timeouts es = 12 ∧
        exec (watchedStep 0) (s, some (s.rrus 0).timeout) es = some ((t, none), out') ∧
        (t.rrus 0).state = .none := by
  let env : Env := ⟨false, [⟨some 0xc0a81e02, 0, 0, 0⟩], ⟨25, 1⟩, ⟨0, 0, 0, 1, 1, 2020⟩⟩
  let pre := roundInputs env (some ⟨0, 0, [2, 0, 0, 0, 0, 1]⟩) (some (some 0xc0a81e02))
    fun _ ↦ none
  let es := (List.replicate 12 (timeoutInputs env)).flatten
  have hrun : ((exec Manager.step (.start [0, 1, 2] 0 fun _ ↦ 0) pre).bind fun r ↦
      (exec (watchedStep 0) (r.1, some (r.1.rrus 0).timeout) es).map fun x ↦
        (r.1.phase, (r.1.rrus 0).state, x.1.1.phase, x.1.2)) =
          some (.top, .connected, .top, none) := by
    decide +kernel
  obtain ⟨⟨s, out⟩, hs, hmap⟩ := Option.bind_eq_some_iff.1 hrun
  obtain ⟨⟨⟨t, w⟩, out'⟩, ht, heq⟩ := Option.map_eq_some_iff.1 hmap
  simp only [Prod.mk.injEq] at heq
  obtain ⟨htop, hstate, hend, rfl⟩ := heq
  have hused : (s.rrus 0).state ≠ .none := by
    rw [hstate]
    exact nofun
  have hcount : timeouts es = 12 := by decide +kernel
  exact ⟨pre, es, s, t, out, out', hs, hstate, hcount, ht,
    (inactivity_iff hs htop hused ht hend).1.2 rfl⟩

def Silent (i : SlotId) (s : Manager) (e : Env × Input) : Prop :=
  match e.2 with
  | .read (some (.bytes _)) => s.phase ≠ .read i
  | .cfg (some req) => ∀ x ∈ s.slotFor req.rruMac, x.1 ≠ i
  | _ => True

instance (i : SlotId) (s : Manager) (e : Env × Input) : Decidable (Silent i s e) :=
  match e with
  | (_, .read (some (.bytes _))) => inferInstanceAs (Decidable (_ ≠ _))
  | (_, .cfg (some _)) => inferInstanceAs (Decidable (∀ x ∈ _, _))
  | (_, .read none) | (_, .read (some (.closed _))) | (_, .read (some .error)) => .isTrue trivial
  | (_, .cfg none) | (_, .poll _) | (_, .params) | (_, .inactivity _) | (_, .control _) |
    (_, .tap _) | (_, .reconfigure _) => .isTrue trivial

/-- The RRU of slot 1 sends a heartbeat every second, so that the silent one of slot 0 stays
connected for longer than twelve seconds. -/
theorem silent_slot_kept :
    ∃ (pre es : List (Env × Input)) (s t : Manager) (out out' : List Obs) (waits : List ℕ),
      exec Manager.step (.start [0, 1, 2] 0 fun _ ↦ 0) pre = some (s, out) ∧
        s.phase = .top ∧ (s.rrus 0).state ≠ .none ∧
        exec Manager.step s es = some (t, out') ∧ Along Manager.step (Silent 0) s es ∧
        List.Forall₂ (fun ms e ↦ Waits ms e.2) waits es ∧
        1000 * (rruInactivityTimeout + 2) < waits.sum ∧
        t.phase = .top ∧ (t.rrus 0).state ≠ .none := by
  let env : Env := ⟨false, [⟨some 0xc0a81e02, 0, 0, 0⟩, ⟨some 0xc0a81e03, 0, 0, 0⟩], ⟨25, 1⟩,
    ⟨0, 0, 0, 1, 1, 2020⟩⟩
  let pre :=
    roundInputs env (some ⟨0, 0, [2, 0, 0, 0, 0, 1]⟩) (some (some 0xc0a81e02)) (fun _ ↦ none) ++
    roundInputs env (some ⟨1, 0, [2, 0, 0, 0, 0, 2]⟩) (some (some 0xc0a81e03)) (fun _ ↦ none)
  let round := readRound env 1 [0, 0, 0, 171, 0, 0, 0, 15, 0, 0, 0, 0, 0, 0, 0]
  let es := (List.replicate 13 round).flatten
  have hrun : ((exec Manager.step (.start [0, 1, 2] 0 fun _ ↦ 0) pre).bind fun r ↦
      (exec (guarded (Silent 0) Manager.step) r.1 es).map fun x ↦
        (r.1.phase, (r.1.rrus 0).state, x.1.phase, (x.1.rrus 0).state)) =
          some (.top, .connected, .top, .connected) := by
    decide +kernel
  obtain ⟨⟨s, out⟩, hs, hmap⟩ := Option.bind_eq_some_iff.1 hrun
  obtain ⟨⟨t, out'⟩, ht, heq⟩ := Option.map_eq_some_iff.1 hmap
  simp only [Prod.mk.injEq] at heq
  obtain ⟨htop, hstate, hend, hstate'⟩ := heq
  obtain ⟨hexec, hsilent⟩ := along_of_guarded ht
  let wait : Env × Input → ℕ := fun e ↦
    match e.2 with
    | .poll .timeout => 1000
    | .poll _ => 999
    | _ => 0
  refine ⟨pre, es, s, t, out, out', es.map wait, hs, htop, ?_, hexec, hsilent, ?_,
    by decide +kernel, hend, ?_⟩
  · rw [hstate]
    exact nofun
  · rw [List.forall₂_map_left_iff, List.forall₂_same]
    rintro ⟨_, input⟩ -
    cases input with
    | poll r => cases r <;> simp [wait, Waits]
    | _ => rfl
  · rw [hstate']
    exact nofun

end EnbL1Ppc.CpriEth
