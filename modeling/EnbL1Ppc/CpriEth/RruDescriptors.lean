import Mathlib.Data.List.Perm.Subperm
import EnbL1Ppc.CpriEth.RruAssociation

namespace EnbL1Ppc.CpriEth

open Lib.Machine

/-!
Which slot owns which socket. A slot keeps the number of a socket that has been closed, and a
connection that belongs to no waiting slot is neither stored nor closed.
-/

theorem lowestFree_not_mem (fds : List ℕ) : lowestFree fds ∉ fds := by
  unfold lowestFree
  cases h : (List.range (fds.length + 1)).find? (· ∉ fds) with
  | some n =>
    have hn := List.find?_some h
    simpa using hn
  | none =>
    -- otherwise the list would contain one number more than its length
    exfalso
    have hsub : List.range (fds.length + 1) ⊆ fds := by
      intro n hn
      have := List.find?_eq_none.1 h n hn
      simpa using this
    have hle := (List.nodup_range.subperm hsub).length_le
    rw [List.length_range] at hle
    omega

namespace Manager

def Holds (s : Manager) (i : SlotId) (fd : ℕ) : Prop :=
  (s.rrus i).state ≠ .none ∧ 0 < fd ∧ (s.rrus i).fd = fd

/-- The descriptors of slots in use are open sockets that were accepted for them, each is that
of one slot, and every accepted socket that is open has its slot. -/
structure Owned (s : Manager) : Prop where
  accepted : ∀ {i fd}, s.Holds i fd → fd ∈ s.fds ∧ (fd, some i) ∈ s.accepted
  injective : ∀ {i j fd}, s.Holds i fd → s.Holds j fd → i = j
  owner : ∀ a ∈ s.accepted, ∃ i, s.Holds i a.1

end Manager

/-- A request is for a slot that has no socket or is in use, a connection is for a slot that
waits and has no socket, and a failed `accept` does not cost a slot its socket. -/
def Orderly (s : Manager) (e : Env × Input) : Prop :=
  match e.2 with
  | .cfg (some req) => ∀ i r, s.slotFor req.rruMac = some (i, r) →
    (s.rrus i).fd ≤ 0 ∨ (s.rrus i).state ≠ .none
  | .control (some none) => ∀ i, s.target s.address = some i → (s.rrus i).fd ≤ 0
  | .control (some (some ip)) => 0 < lowestFree s.fds ∧
    ∃ i, s.target ip = some i ∧ (s.rrus i).fd ≤ 0
  | _ => True

theorem Manager.Owned.of_sameSockets {s s' : Manager} (h : s.Owned) (hs : SameSockets s s')
    (hholds : ∀ i fd, s'.Holds i fd ↔ s.Holds i fd) : s'.Owned where
  accepted hi := by
    rw [hs.fds, hs.accepted]
    exact h.accepted ((hholds _ _).1 hi)
  injective hi hj := h.injective ((hholds _ _).1 hi) ((hholds _ _).1 hj)
  owner a ha := by
    rw [hs.accepted] at ha
    obtain ⟨i, hi⟩ := h.owner a ha
    exact ⟨i, (hholds _ _).2 hi⟩

theorem holds_update {s s' : Manager} {i : SlotId} {r : Rru}
    (hr : s'.rrus = Function.update s.rrus i r) (j : SlotId) (fd : ℕ) :
    s'.Holds j fd ↔ if j = i then r.state ≠ .none ∧ 0 < fd ∧ r.fd = fd else s.Holds j fd := by
  unfold Manager.Holds
  rw [hr]
  split
  · next h => rw [h, Function.update_self]
  · next h => rw [Function.update_of_ne h]

theorem Manager.Owned.update {s s' : Manager} (h : s.Owned) (hs : SameSockets s s') {i : SlotId}
    {r : Rru} (hr : s'.rrus = Function.update s.rrus i r) (hfd : r.fd = (s.rrus i).fd)
    (hst : 0 < r.fd → (r.state ≠ .none ↔ (s.rrus i).state ≠ .none)) : s'.Owned := by
  refine h.of_sameSockets hs fun j fd ↦ ?_
  rw [holds_update hr]
  split
  · next hj =>
    subst hj
    unfold Manager.Holds
    rw [← hfd]
    constructor
    · rintro ⟨hne, hpos, heq⟩
      exact ⟨(hst (by omega)).1 hne, hpos, heq⟩
    · rintro ⟨hne, hpos, heq⟩
      exact ⟨(hst (by omega)).2 hne, hpos, heq⟩
  · exact Iff.rfl

theorem slotFor_fd {s : Manager} {mac : List UInt8} {i : SlotId} {r : Rru}
    (h : s.slotFor mac = some (i, r)) : r.fd = (s.rrus i).fd := by
  unfold Manager.slotFor at h
  split at h
  · cases h
    rfl
  · obtain ⟨j, -, heq⟩ := Option.map_eq_some_iff.1 h
    cases heq
    rfl

theorem step_control {s s' : Manager} {env : Env} {peer : Option UInt32} {o : List Obs}
    (h : s.step (env, .control (some peer)) = some (s', o)) :
    s'.rrus = (s.accept peer).1.rrus ∧ SameSockets (s.accept peer).1 s' := by
  unfold Manager.step at h
  cases hphase : s.phase with
  | control =>
    rw [hphase] at h
    cases h
    exact ⟨rfl, rfl, rfl⟩
  | _ =>
    rw [hphase] at h
    cases h

theorem accept_none_sockets (s : Manager) : SameSockets s (s.accept none).1 := by
  rw [Manager.accept, Manager.associate]
  split
  · exact ⟨rfl, rfl⟩
  · exact ⟨rfl, rfl⟩

theorem accept_some_sockets (s : Manager) (ip : UInt32) :
    (s.accept (some ip)).1.fds = lowestFree s.fds :: s.fds ∧
      (s.accept (some ip)).1.accepted = (lowestFree s.fds, s.target ip) :: s.accepted := by
  rw [Manager.accept, Manager.associate]
  split
  · exact ⟨rfl, rfl⟩
  · exact ⟨rfl, rfl⟩

section Steps

variable {s s' : Manager} (h : s.Owned)

include h

theorem Manager.Owned.close {i : SlotId} {r : Rru} (hi : (s.rrus i).state ≠ .none)
    (hr : s'.rrus = Function.update s.rrus i r) (hst : r.state = .none)
    (hs : SameSockets (s.close (s.rrus i).fd) s') : s'.Owned := by
  -- what is still held is held by another slot, and is another descriptor
  have hother : ∀ {j fd}, s'.Holds j fd → s.Holds j fd ∧ (fd : ℤ) ≠ (s.rrus i).fd := by
    intro j fd hj
    rw [holds_update hr] at hj
    split at hj
    · exact absurd hst hj.1
    · next hji =>
      refine ⟨hj, fun heq ↦ hji (h.injective hj ⟨hi, hj.2.1, heq.symm⟩)⟩
  constructor
  · intro j fd hj
    obtain ⟨hj, hne⟩ := hother hj
    obtain ⟨hmem, hacc⟩ := h.accepted hj
    rw [hs.fds, hs.accepted]
    exact ⟨List.mem_filter.2 ⟨hmem, by simpa using hne⟩,
      List.mem_filter.2 ⟨hacc, by simpa using hne⟩⟩
  · intro j k fd hj hk
    exact h.injective (hother hj).1 (hother hk).1
  · intro a ha
    rw [hs.accepted] at ha
    obtain ⟨hacc, hne⟩ := List.mem_filter.1 ha
    obtain ⟨j, hj⟩ := h.owner a hacc
    refine ⟨j, (holds_update hr j a.1).2 ?_⟩
    rw [if_neg]
    · exact hj
    · rintro rfl
      exact absurd hj.2.2.symm (by simpa using hne)

theorem Manager.Owned.register_iff {i : SlotId} {r : Rru}
    (hr : s'.rrus = Function.update s.rrus i r) (hfd : r.fd = (s.rrus i).fd)
    (hst : r.state ≠ .none) (hs : SameSockets s s') :
    s'.Owned ↔ (s.rrus i).fd ≤ 0 ∨ (s.rrus i).state ≠ .none := by
  constructor
  · intro h'
    by_contra hcon
    simp only [not_or, not_le, not_not] at hcon
    obtain ⟨hpos, hnone⟩ := hcon
    obtain ⟨n, hn⟩ := Int.eq_ofNat_of_zero_le hpos.le
    have hi : s'.Holds i n := by
      rw [holds_update hr, if_pos rfl]
      exact ⟨hst, by omega, by omega⟩
    -- the socket with this number belongs to another slot
    obtain ⟨-, hacc⟩ := h'.accepted hi
    rw [hs.accepted] at hacc
    obtain ⟨j, hj⟩ := h.owner _ hacc
    have hji : j ≠ i := by
      rintro rfl
      exact hj.1 hnone
    have hj' : s'.Holds j n := by
      rw [holds_update hr, if_neg hji]
      exact hj
    exact hji (h'.injective hj' hi)
  · intro hor
    refine h.update hs hr hfd fun hpos ↦ ?_
    rcases hor with hle | hne
    · omega
    · exact iff_of_true hst hne

theorem Manager.Owned.not_replaced {i : SlotId} {r : Rru} (hi : (s.rrus i).state ≠ .none)
    (hr : s'.rrus = Function.update s.rrus i r) (hne : 0 < (s.rrus i).fd → r.fd ≠ (s.rrus i).fd)
    (hacc : ∀ a ∈ s.accepted, a ∈ s'.accepted) (h' : s'.Owned) : (s.rrus i).fd ≤ 0 := by
  by_contra hpos
  obtain ⟨n, hn⟩ := Int.eq_ofNat_of_zero_le (not_le.1 hpos).le
  have hin : s.Holds i n := ⟨hi, by omega, by omega⟩
  obtain ⟨j, hj⟩ := h'.owner _ (hacc _ (h.accepted hin).2)
  rw [holds_update hr] at hj
  split at hj
  · exact hne (not_le.1 hpos) (hj.2.2.trans hn.symm)
  · next hji => exact hji (h.injective hj hin)

theorem Manager.Owned.accept_none_iff (hr : s'.rrus = (s.accept none).1.rrus)
    (hs : SameSockets (s.accept none).1 s') :
    s'.Owned ↔ ∀ i, s.target s.address = some i → (s.rrus i).fd ≤ 0 := by
  have hsock := accept_none_sockets s
  have hs' : SameSockets s s' :=
    ⟨hs.fds.trans hsock.fds, hs.accepted.trans hsock.accepted⟩
  cases ht : s.target s.address with
  | none =>
    rw [(accept_ignored none ht).1] at hr
    refine iff_of_true (h.of_sameSockets hs' fun i fd ↦ ?_) (fun i hi ↦ by cases hi)
    rw [Manager.Holds, hr]
    exact Iff.rfl
  | some i =>
    rw [(accept_connected none ht).1] at hr
    have hinit := (target_eq_some.1 ht).1
    constructor
    · rintro h' j hj
      cases hj
      refine h.not_replaced (by rw [hinit]; exact nofun) hr (fun hpos ↦ ?_)
        (by rw [hs'.accepted]; simp) h'
      simp only [Manager.newSocket, Option.elim_none]
      omega
    · intro hle
      refine h.of_sameSockets hs' fun j fd ↦ ?_
      rw [holds_update hr]
      split
      · next hj =>
        subst hj
        have := hle j rfl
        constructor
        · rintro ⟨-, hpos, heq⟩
          simp only [Manager.newSocket, Option.elim_none] at heq
          omega
        · rintro ⟨-, hpos, heq⟩
          omega
      · exact Iff.rfl

theorem Manager.Owned.not_holds_lowestFree (j : SlotId) : ¬ s.Holds j (lowestFree s.fds) :=
  fun hj ↦ lowestFree_not_mem s.fds (h.accepted hj).1

theorem Manager.Owned.connect {i : SlotId} {r : Rru} (hr : s'.rrus = Function.update s.rrus i r)
    (hstate : r.state ≠ .none) (hfd : r.fd = lowestFree s.fds) (hpos : 0 < lowestFree s.fds)
    (hfds : s'.fds = lowestFree s.fds :: s.fds)
    (hacc : s'.accepted = (lowestFree s.fds, some i) :: s.accepted) (hle : (s.rrus i).fd ≤ 0) :
    s'.Owned := by
  -- slot i has the new socket, and the others have what they had
  have hholds : ∀ {j fd}, s'.Holds j fd →
      (j = i ∧ fd = lowestFree s.fds) ∨ (j ≠ i ∧ s.Holds j fd) := by
    intro j fd hj
    rw [holds_update hr] at hj
    split at hj
    · next hji => exact .inl ⟨hji, Int.ofNat_inj.1 (hj.2.2.symm.trans hfd)⟩
    · next hji => exact .inr ⟨hji, hj⟩
  constructor
  · intro j fd hj
    rw [hfds, hacc]
    rcases hholds hj with ⟨rfl, rfl⟩ | ⟨-, hj⟩
    · exact ⟨List.mem_cons_self, List.mem_cons_self⟩
    · obtain ⟨hmem, hmem'⟩ := h.accepted hj
      exact ⟨List.mem_cons_of_mem _ hmem, List.mem_cons_of_mem _ hmem'⟩
  · intro j k fd hj hk
    rcases hholds hj with ⟨rfl, rfl⟩ | ⟨-, hj⟩ <;> rcases hholds hk with ⟨rfl, hk⟩ | ⟨-, hk⟩
    · rfl
    · exact absurd hk (h.not_holds_lowestFree k)
    · exact absurd (hk ▸ hj) (h.not_holds_lowestFree j)
    · exact h.injective hj hk
  · intro a ha
    rw [hacc] at ha
    rcases List.mem_cons.1 ha with rfl | ha
    · refine ⟨i, (holds_update hr _ _).2 ?_⟩
      rw [if_pos rfl]
      exact ⟨hstate, hpos, hfd⟩
    · obtain ⟨j, hj⟩ := h.owner a ha
      refine ⟨j, (holds_update hr _ _).2 ?_⟩
      rw [if_neg]
      · exact hj
      · rintro rfl
        have hfd := hj.2.2
        have := hj.2.1
        omega

theorem Manager.Owned.accept_some_iff {ip : UInt32} (hr : s'.rrus = (s.accept (some ip)).1.rrus)
    (hs : SameSockets (s.accept (some ip)).1 s') :
    s'.Owned ↔ 0 < lowestFree s.fds ∧ ∃ i, s.target ip = some i ∧ (s.rrus i).fd ≤ 0 := by
  obtain ⟨hfds, hacc⟩ := accept_some_sockets s ip
  rw [← hs.fds] at hfds
  rw [← hs.accepted] at hacc
  cases ht : s.target ip with
  | none =>
    rw [(accept_ignored (some ip) ht).1] at hr
    refine iff_of_false (fun h' ↦ ?_) (by simp)
    obtain ⟨j, hj⟩ := h'.owner (lowestFree s.fds, s.target ip) (by rw [hacc]; simp)
    rw [Manager.Holds, hr] at hj
    exact h.not_holds_lowestFree j hj
  | some i =>
    rw [(accept_connected (some ip) ht).1] at hr
    rw [ht] at hacc
    have hinit := (target_eq_some.1 ht).1
    constructor
    · intro h'
      obtain ⟨j, hj⟩ := h'.owner (lowestFree s.fds, some i) (by rw [hacc]; simp)
      refine ⟨hj.2.1, i, rfl, ?_⟩
      refine h.not_replaced (by rw [hinit]; exact nofun) hr (fun _ heq ↦ ?_)
        (fun a ha ↦ by rw [hacc]; exact List.mem_cons_of_mem _ ha) h'
      exact h.not_holds_lowestFree i ⟨by rw [hinit]; exact nofun, hj.2.1, heq.symm⟩
    · rintro ⟨hpos, k, hk, hle⟩
      cases hk
      exact h.connect hr nofun rfl hpos hfds hacc hle

end Steps

theorem step_owned_iff {s s' : Manager} {e : Env × Input} {o : List Obs} (h : s.Owned)
    (hs : s.step e = some (s', o)) : s'.Owned ↔ Orderly s e := by
  obtain ⟨env, input⟩ := e
  unfold Orderly
  split
  · next req hin =>
    obtain rfl : input = .cfg (some req) := hin
    obtain ⟨i, r, hslot, hrrus, hsock⟩ := step_cfg hs
    have hfd := slotFor_fd hslot
    rw [h.register_iff hrrus (by exact hfd) nofun hsock]
    constructor
    · intro hor j r' hslot'
      rw [hslot, Option.some.injEq, Prod.mk.injEq] at hslot'
      rwa [← hslot'.1]
    · intro hor
      exact hor i r hslot
  · next hin =>
    obtain rfl : input = .control (some none) := hin
    obtain ⟨hrrus, hsock⟩ := step_control hs
    exact h.accept_none_iff hrrus hsock
  · next ip hin =>
    obtain rfl : input = .control (some (some ip)) := hin
    obtain ⟨hrrus, hsock⟩ := step_control hs
    exact h.accept_some_iff hrrus hsock
  · next hcfg hnone hsome =>
    refine iff_of_true ?_ trivial
    cases step_effect hs with
    | quiet hrrus hsock =>
      exact h.of_sameSockets hsock fun i fd ↦ by rw [Manager.Holds, hrrus]; exact Iff.rfl
    | kept hrrus hsock hkept hnone' _ =>
      exact h.update hsock hrrus hkept.fd fun _ ↦
        ⟨fun hne hn ↦ hne (hnone' hn), hkept.ne_none⟩
    | confirmed _ hne _ hrrus hsock =>
      exact h.update hsock hrrus rfl fun _ ↦ iff_of_true nofun hne
    | closed hne hrrus hsock => exact h.close hne hrrus rfl hsock
    | registered => exact absurd rfl (hcfg _)
    | @ignored _ peer =>
      cases peer with
      | none => exact absurd rfl hnone
      | some ip => exact absurd rfl (hsome ip)
    | @connected _ peer =>
      cases peer with
      | none => exact absurd rfl hnone
      | some ip => exact absurd rfl (hsome ip)

theorem start_owned (fds : List ℕ) (address : UInt32) (mem : Mem) :
    (Manager.start fds address mem).Owned where
  accepted h := absurd rfl h.1
  injective h := absurd rfl h.1
  owner _ h := absurd h List.not_mem_nil

/-- Over a whole run, at the top of the loop and between its parts, the sockets have their
owners exactly if all steps are orderly. -/
theorem owned_always_iff (fds : List ℕ) (address : UInt32) (mem : Mem)
    (es : List (Env × Input)) :
    Always Manager.step Manager.Owned (Manager.start fds address mem) es ↔
      Along Manager.step Orderly (Manager.start fds address mem) es :=
  always_iff_along (J := fun _ ↦ True) (fun _ _ ↦ trivial) (fun _ h hs ↦ step_owned_iff h hs)
    trivial (start_owned fds address mem) es

def strangerConnects : List (Env × Input) :=
  let env : Env := ⟨false, [⟨some 0xc0a81e02, 0, 0, 0⟩], ⟨25, 1⟩, ⟨0, 0, 0, 1, 1, 2020⟩⟩
  roundInputs env none (some (some 0xc0a81e09)) fun _ ↦ none

theorem stranger_not_owned : ∃ s o,
    exec Manager.step (.start [0, 1, 2] 0 fun _ ↦ 0) strangerConnects = some (s, o) ∧
      s.phase = .top ∧ ¬ s.Owned := by
  have hrun : (exec Manager.step (.start [0, 1, 2] 0 fun _ ↦ 0) strangerConnects).map (fun r ↦
      (r.1.phase, r.1.accepted, (List.finRange maxRruClients).all fun i ↦
        (r.1.rrus i).state = .none)) = some (.top, [(3, none)], true) := by
    decide
  obtain ⟨⟨s, o⟩, hs, heq⟩ := Option.map_eq_some_iff.1 hrun
  simp only [Prod.mk.injEq, List.all_eq_true, decide_eq_true_eq] at heq
  obtain ⟨hphase, hacc, hnone⟩ := heq
  refine ⟨s, o, hs, hphase, fun h ↦ ?_⟩
  obtain ⟨i, hi⟩ := h.owner (3, none) (by rw [hacc]; exact List.mem_singleton_self _)
  exact hi.1 (hnone i (List.mem_finRange i))

end EnbL1Ppc.CpriEth
