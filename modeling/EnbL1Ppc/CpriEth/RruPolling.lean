import EnbL1Ppc.CpriEth.RruDescriptors
import EnbL1Ppc.CpriEth.RruFraming
import EnbL1Ppc.CpriEth.RruTurns

namespace EnbL1Ppc.CpriEth

open Lib.Machine

/-!
Whether a socket that is read has been reported by `poll`. The entry of a slot is filled in at
the top of the loop, and the socket of the slot is taken again when the entry has been reported;
between the two a new connection may have replaced it.
-/

def noteOpen (s : Manager) (opened : List ℕ) : Input → List ℕ
  | .poll _ => s.fds
  | _ => opened

def polledStep : Step (Manager × List ℕ) (Env × Input) Obs :=
  fun x e ↦ (x.1.step e).map fun r ↦ ((r.1, noteOpen x.1 x.2 e.2), r.2)

def Reportable (x : Manager × List ℕ) (reported : SlotId → Prop) : Prop :=
  ∀ j, reported j → ∃ n ∈ x.2, x.1.pollfds j = (n : ℤ)

def ReadsReported (x : Manager × List ℕ) (reported : SlotId → Prop) (i : SlotId) : Prop :=
  ∃ j, reported j ∧ x.1.pollfds j = (x.1.rrus i).fd

/-- A slot that has an entry for a socket, and a socket, has the entry for its socket or has got
the socket since `poll`. -/
structure Polled (x : Manager × List ℕ) : Prop where
  nonzero : ∀ i, x.1.pollfds i ≠ 0
  unchanged : x.1.phase = .cfg ∨ x.1.phase = .control → x.1.fds = x.2
  entry : ∀ i, (x.1.rrus i).fd ≤ 0 ∨ x.1.pollfds i < 0 ∨ x.1.pollfds i = (x.1.rrus i).fd ∨
    ∀ n ∈ x.2, (x.1.rrus i).fd ≠ (n : ℤ)

theorem Polled.readsReported_iff {x : Manager × List ℕ} (h : Polled x)
    {reported : SlotId → Prop} (hrep : Reportable x reported) {i : SlotId} (hi : reported i) :
    ReadsReported x reported i ↔ (x.1.rrus i).fd = x.1.pollfds i := by
  constructor
  · rintro ⟨j, hj, hfd⟩
    obtain ⟨n, hn, hnj⟩ := hrep j hj
    obtain ⟨k, -, hk⟩ := hrep i hi
    rcases h.entry i with hle | hlt | heq | hnew
    · have := h.nonzero j
      omega
    · omega
    · exact heq.symm
    · exact absurd (hfd.symm.trans hnj) (hnew n hn)
  · exact fun hfd ↦ ⟨i, hi, hfd.symm⟩

theorem fd_update {rrus rrus' : SlotId → Rru} {i : SlotId} {r : Rru}
    (hr : rrus' = Function.update rrus i r) (h : r.fd = (rrus i).fd) (j : SlotId) :
    (rrus' j).fd = (rrus j).fd := by
  rw [hr]
  exact (Function.forall_update_iff rrus fun j r' ↦ r'.fd = (rrus j).fd).2 ⟨h, fun _ _ ↦ rfl⟩ j

theorem checkInactivity_fd (s : Manager) (i : SlotId) (peer : Option UInt32) :
    (s.checkInactivity i peer).pollfds = s.pollfds ∧
      ∀ j, ((s.checkInactivity i peer).rrus j).fd = (s.rrus j).fd := by
  unfold Manager.checkInactivity
  dsimp only
  split_ifs
  · exact ⟨rfl, fun _ ↦ rfl⟩
  · exact ⟨rfl, fd_update rfl rfl⟩
  · exact ⟨rfl, fd_update rfl rfl⟩

theorem accept_pollfds (s : Manager) (peer : Option UInt32) :
    (s.accept peer).1.pollfds = s.pollfds := by
  cases peer <;> simp only [Manager.accept, Manager.associate] <;> split <;> rfl

structure KeepsSockets (s s' : Manager) : Prop where
  pollfds : s'.pollfds = s.pollfds
  fd : ∀ j, (s'.rrus j).fd = (s.rrus j).fd
  fds : s'.phase = .cfg ∨ s'.phase = .control →
    (s.phase = .cfg ∨ s.phase = .control) ∧ s'.fds = s.fds

theorem nextSlot_ne {i : SlotId} {next : SlotId → Phase} {last phase : Phase}
    (hnext : ∀ j, next j ≠ phase) (hlast : last ≠ phase) :
    Manager.nextSlot i next last ≠ phase := by
  unfold Manager.nextSlot
  split
  · exact hnext _
  · exact hlast

theorem step_sockets {s s' : Manager} {e : Env × Input} {o : List Obs}
    (h : s.step e = some (s', o)) :
    (∃ env r, e = (env, .poll r) ∧ s' = s.doPoll r) ∨
      (∃ env peer, e = (env, .control (some peer)) ∧ s.phase = .control ∧
        s' = { (s.accept peer).1 with phase := .tap }) ∨
      (∀ r, e.2 ≠ .poll r) ∧ KeepsSockets s s' := by
  cases step_turn h with
  | @poll env r => exact .inl ⟨env, r, rfl, rfl⟩
  | @connection env peer hphase => exact .inr (.inl ⟨env, peer, rfl, hphase, rfl⟩)
  | @params env i =>
    refine .inr (.inr ⟨nofun, rfl, fd_update rfl (checkParams_kept env (s.rrus i)).fd, ?_⟩)
    rintro (h | h) <;> exact absurd h (nextSlot_ne nofun nofun)
  | @inactivity env i peer =>
    obtain ⟨hpoll, hfd⟩ := checkInactivity_fd s i peer
    refine .inr (.inr ⟨nofun, hpoll, hfd, ?_⟩)
    rintro (h | h) <;> exact absurd h (nextSlot_ne nofun nofun)
  | @request env req i r hphase hx =>
    have hfd : r.fd = (s.rrus i).fd := slotFor_fd hx
    exact .inr (.inr ⟨nofun, rfl, fd_update rfl hfd, fun _ ↦ ⟨.inl hphase, rfl⟩⟩)
  | noRequest hphase =>
    exact .inr (.inr ⟨nofun, rfl, fun _ ↦ rfl, fun _ ↦ ⟨.inl hphase, rfl⟩⟩)
  | noConnection hphase => exact .inr (.inr ⟨nofun, rfl, fun _ ↦ rfl, nofun⟩)
  | tap hphase =>
    refine .inr (.inr ⟨nofun, rfl, fun _ ↦ rfl, ?_⟩)
    dsimp only
    split <;> exact nofun
  | noRead hphase =>
    refine .inr (.inr ⟨nofun, rfl, fun _ ↦ rfl, ?_⟩)
    rintro (h | h) <;> exact absurd h (nextSlot_ne nofun nofun)
  | read hphase hne hpoll hx =>
    obtain ⟨hpoll', hcases⟩ := readSlot_cases hx
    refine .inr (.inr ⟨nofun, hpoll', ?_, ?_⟩)
    · rcases hcases with ⟨_, -, hr⟩ | ⟨-, _, _, hd, hh, hr⟩
      · exact fd_update hr rfl
      · exact fd_update hr (receiveMessage_inUse hh hne).2
    · rintro (h | h) <;> exact absurd h (nextSlot_ne nofun nofun)
  | reconfigure hready =>
    exact .inr (.inr ⟨nofun, rfl, fd_update rfl rfl, fun hphase ↦ ⟨hphase, rfl⟩⟩)
  | noReconfigure hready =>
    exact .inr (.inr ⟨nofun, rfl, fun _ ↦ rfl, fun hphase ↦ ⟨hphase, rfl⟩⟩)

@[simp] theorem doPoll_rrus (s : Manager) (r : PollResult) : (s.doPoll r).rrus = s.rrus := by
  cases r <;> rfl

@[simp] theorem doPoll_pollfds (s : Manager) (r : PollResult) :
    (s.doPoll r).pollfds = s.slotPollfds := by
  cases r <;> rfl

@[simp] theorem doPoll_fds (s : Manager) (r : PollResult) : (s.doPoll r).fds = s.fds := by
  cases r <;> rfl

theorem accept_fd (s : Manager) (peer : Option UInt32) (i : SlotId) :
    s.target (peer.getD s.address) = some i ∧
        ((s.accept peer).1.rrus i).fd = s.newSocket peer ∨
      ((s.accept peer).1.rrus i).fd = (s.rrus i).fd := by
  cases ht : s.target (peer.getD s.address) with
  | none =>
    rw [(accept_ignored peer ht).1]
    exact .inr rfl
  | some k =>
    rw [(accept_connected peer ht).1]
    by_cases hk : i = k
    · rw [hk, Function.update_self]
      exact .inl ⟨rfl, rfl⟩
    · rw [Function.update_of_ne hk]
      exact .inr rfl

theorem Polled.step {x x' : Manager × List ℕ} {e : Env × Input} {o : List Obs} (h : Polled x)
    (hs : polledStep x e = some (x', o)) : Polled x' := by
  obtain ⟨⟨s', o'⟩, hstep, heq⟩ := Option.map_eq_some_iff.1 hs
  cases heq
  rcases step_sockets hstep with ⟨env, r, rfl, rfl⟩ | ⟨env, peer, rfl, hphase, rfl⟩ | ⟨he, hk⟩
  · refine ⟨fun i ↦ ?_, fun _ ↦ doPoll_fds _ _, fun i ↦ ?_⟩
    · have := h.nonzero i
      simp only [doPoll_pollfds, Manager.slotPollfds]
      split_ifs <;> omega
    · simp only [doPoll_pollfds, doPoll_rrus, Manager.slotPollfds]
      split_ifs <;> omega
  · refine ⟨fun i ↦ ?_, fun hcfg ↦ ?_, fun i ↦ ?_⟩
    · dsimp only
      rw [accept_pollfds]
      exact h.nonzero i
    · rcases hcfg with hcfg | hcfg <;> cases hcfg
    · dsimp only
      rw [accept_pollfds]
      rcases accept_fd x.1 peer i with ⟨-, hfd⟩ | hfd
      · rw [hfd]
        cases peer with
        | none => exact .inl (show (-1 : ℤ) ≤ 0 by decide)
        | some ip =>
          -- the number of the new socket was free at the poll
          refine .inr (.inr (.inr fun n hn ↦ ?_))
          change n ∈ x.2 at hn
          rw [← h.unchanged (.inr hphase)] at hn
          intro hnew
          obtain rfl : lowestFree x.1.fds = n := Int.ofNat.inj hnew
          exact lowestFree_not_mem x.1.fds hn
      · rw [hfd]
        exact h.entry i
  · have hopen : noteOpen x.1 x.2 e.2 = x.2 := by
      unfold noteOpen
      split
      · next r heq => exact absurd heq (he r)
      · rfl
    rw [hopen]
    refine ⟨fun i ↦ ?_, fun hphase ↦ ?_, fun i ↦ ?_⟩
    · dsimp only
      rw [hk.pollfds]
      exact h.nonzero i
    · obtain ⟨hphase', hfds⟩ := hk.fds hphase
      exact hfds.trans (h.unchanged hphase')
    · dsimp only
      rw [hk.pollfds, hk.fd]
      exact h.entry i

theorem Polled.start (fds : List ℕ) (address : UInt32) (mem : Mem) :
    Polled (.start fds address mem, []) where
  nonzero _ := show (-1 : ℤ) ≠ 0 by decide
  unchanged := nofun
  entry _ := .inl le_rfl

def FreshEntry (x : Manager × List ℕ) (e : Env × Input) : Prop :=
  ∀ peer i, e.2 = .control (some peer) → x.1.target (peer.getD x.1.address) = some i →
    x.1.pollfds i < 0

def Current (x : Manager × List ℕ) : Prop :=
  ∀ i, x.1.pollfds i < 0 ∨ x.1.pollfds i = (x.1.rrus i).fd

theorem Current.step {x x' : Manager × List ℕ} {e : Env × Input} {o : List Obs} (h : Current x)
    (hfresh : FreshEntry x e) (hs : polledStep x e = some (x', o)) : Current x' := by
  obtain ⟨⟨s', o'⟩, hstep, heq⟩ := Option.map_eq_some_iff.1 hs
  cases heq
  intro i
  dsimp only
  have hi := h i
  rcases step_sockets hstep with ⟨env, r, rfl, rfl⟩ | ⟨env, peer, rfl, hphase, rfl⟩ | ⟨-, hk⟩
  · simp only [doPoll_pollfds, doPoll_rrus, Manager.slotPollfds]
    split_ifs <;> omega
  · dsimp only
    rw [accept_pollfds]
    rcases accept_fd x.1 peer i with ⟨ht, -⟩ | hfd
    · exact .inl (hfresh peer i rfl ht)
    · rw [hfd]
      exact hi
  · rw [hk.pollfds, hk.fd]
    exact hi

/-- In every state of a run, the socket of a slot whose entry has been reported has itself been
reported exactly if the entry is for it. That is so for all slots if connections are stored in
slots without an entry only. -/
theorem readsReported_run_iff {fds : List ℕ} {address : UInt32} {mem : Mem}
    {es : List (Env × Input)} {x : Manager × List ℕ} {out : List Obs}
    (hrun : exec polledStep (.start fds address mem, []) es = some (x, out)) {i : SlotId}
    {reported : SlotId → Prop} (hrep : Reportable x reported) (hi : reported i) :
    (ReadsReported x reported i ↔ (x.1.rrus i).fd = x.1.pollfds i) ∧
      (Along polledStep FreshEntry (.start fds address mem, []) es →
        ReadsReported x reported i) := by
  have hpolled : Polled x :=
    exec_invariant (g := fun _ _ ↦ True) (fun h _ hs ↦ h.step hs) (Polled.start fds address mem)
      (Along.of_forall (fun _ _ _ ↦ trivial) _) hrun
  refine ⟨hpolled.readsReported_iff hrep hi, fun hfresh ↦ ?_⟩
  have hcur : Current x :=
    exec_invariant (fun h hg hs ↦ h.step hg hs) (fun _ ↦ .inl (show (-1 : ℤ) < 0 by decide))
      hfresh hrun
  obtain ⟨n, -, hn⟩ := hrep i hi
  refine ⟨i, hi, (hcur i).resolve_left (by omega)⟩

theorem readsReported_run_iff_quiet :
    ∃ (es : List (Env × Input)) (x : Manager × List ℕ) (out : List Obs),
      exec polledStep (.start [0, 1, 2] 0 fun _ ↦ 0, []) es = some (x, out) ∧
        x.1.phase = .read 0 ∧ ReadsReported x (· = 0) 0 := by
  let env : Env := ⟨false, [⟨some 0xc0a81e02, 0, 0, 0⟩], ⟨25, 1⟩, ⟨0, 0, 0, 1, 1, 2020⟩⟩
  let es := roundInputs env (some ⟨0, 0, [2, 0, 0, 0, 0, 1]⟩) (some (some 0xc0a81e02))
    (fun _ ↦ none) ++ (roundInputs env none none fun _ ↦ none).take 4
  have hrun : (exec polledStep (.start [0, 1, 2] 0 fun _ ↦ 0, []) es).map
      (fun r ↦ (r.1.1.phase, (r.1.1.rrus 0).fd, r.1.1.pollfds 0, r.1.2)) =
        some (.read 0, 3, 3, [3, 0, 1, 2]) := by
    decide +kernel
  obtain ⟨⟨x, out⟩, hx, heq⟩ := Option.map_eq_some_iff.1 hrun
  simp only [Prod.mk.injEq] at heq
  obtain ⟨hphase, hfd, hpoll, hopen⟩ := heq
  have hrep : Reportable x (· = 0) := by
    rintro _ rfl
    exact ⟨3, by simp [hopen], hpoll⟩
  exact ⟨es, x, out, hx, hphase, (readsReported_run_iff hx hrep rfl).1.2 (hfd.trans hpoll.symm)⟩

/-- An RRU asks for a configuration and connects again while its old socket has data. -/
theorem reconnected_socket_not_reported :
    ∃ (es : List (Env × Input)) (x : Manager × List ℕ) (out : List Obs),
      exec polledStep (.start [0, 1, 2] 0 fun _ ↦ 0, []) es = some (x, out) ∧
        x.1.phase = .read 0 ∧ (x.1.rrus 0).state ≠ .none ∧ Reportable x (· = 0) ∧
        ¬ ReadsReported x (· = 0) 0 := by
  let env : Env := ⟨false, [⟨some 0xc0a81e02, 0, 0, 0⟩], ⟨25, 1⟩, ⟨0, 0, 0, 1, 1, 2020⟩⟩
  let round := roundInputs env (some ⟨0, 0, [2, 0, 0, 0, 0, 1]⟩) (some (some 0xc0a81e02))
    fun _ ↦ none
  have hrun : (exec polledStep (.start [0, 1, 2] 0 fun _ ↦ 0, []) (round ++ round.take 4)).map
      (fun r ↦ (r.1.1.phase, (r.1.1.rrus 0).state, (r.1.1.rrus 0).fd, r.1.1.pollfds 0, r.1.2)) =
        some (.read 0, .connected, 4, 3, [3, 0, 1, 2]) := by
    decide +kernel
  obtain ⟨⟨x, out⟩, hx, heq⟩ := Option.map_eq_some_iff.1 hrun
  simp only [Prod.mk.injEq] at heq
  obtain ⟨hphase, hstate, hfd, hpoll, hopen⟩ := heq
  refine ⟨_, x, out, hx, hphase, by rw [hstate]; exact nofun, ?_, ?_⟩
  · rintro _ rfl
    exact ⟨3, by simp [hopen], hpoll⟩
  · rintro ⟨_, rfl, h⟩
    rw [hpoll, hfd] at h
    exact absurd h (by decide)

end EnbL1Ppc.CpriEth
