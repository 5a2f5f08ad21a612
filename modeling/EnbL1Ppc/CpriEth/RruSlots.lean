import Mathlib.Data.Finset.Card
import Mathlib.Data.Fintype.Card
import EnbL1Ppc.CpriEth.RruTurns

namespace EnbL1Ppc.CpriEth

open Lib.Machine

/-!
Whether a configuration request finds a slot. A slot in use has the MAC address of a request,
and no slot in use shares it with a slot before it, so that ten addresses never fill the table
for one of them.
-/

theorem findSlot_eq_none {rrus : SlotId → Rru} {p : Rru → Bool} :
    findSlot rrus p = none ↔ ∀ i, p (rrus i) = false := by
  rw [findSlot, List.find?_eq_none]
  constructor
  · intro h i
    simpa using h i (List.mem_finRange i)
  · intro h i _
    simp [h i]

theorem slotFor_eq_none {s : Manager} {mac : List UInt8} :
    s.slotFor mac = none ↔ ∀ i, (s.rrus i).mac ≠ mac ∧ (s.rrus i).state ≠ .none := by
  rw [forall_and, Manager.slotFor]
  cases hfind : findRruByMac s.rrus mac with
  | some i =>
    have hi := (findSlot_eq_some.1 hfind).1
    rw [decide_eq_true_eq] at hi
    simp only [reduceCtorEq, false_iff, not_and]
    exact fun hne ↦ absurd hi (hne i)
  | none =>
    have hne : ∀ i, (s.rrus i).mac ≠ mac := fun i ↦ by
      simpa using findSlot_eq_none.1 hfind i
    rw [addRruByMac, Option.map_eq_none_iff, findSlot_eq_none]
    simp only [decide_eq_false_iff_not]
    exact ⟨fun h ↦ ⟨hne, h⟩, fun h ↦ h.2⟩

theorem slotFor_mac {s : Manager} {mac : List UInt8} {i : SlotId} {r : Rru}
    (h : s.slotFor mac = some (i, r)) :
    r.mac = mac ∧ (∀ j < i, (s.rrus j).mac ≠ mac) ∧
      ((s.rrus i).mac = mac ∨ ∀ j, (s.rrus j).mac ≠ mac) := by
  unfold Manager.slotFor at h
  cases hfind : findRruByMac s.rrus mac with
  | some k =>
    rw [hfind] at h
    cases h
    obtain ⟨hi, hlt⟩ := findSlot_eq_some.1 hfind
    rw [decide_eq_true_eq] at hi
    exact ⟨hi, fun j hj ↦ by simpa using hlt j hj, .inl hi⟩
  | none =>
    rw [hfind] at h
    have hne : ∀ j, (s.rrus j).mac ≠ mac := fun j ↦ by
      simpa using findSlot_eq_none.1 hfind j
    obtain ⟨k, -, heq⟩ := Option.map_eq_some_iff.1 h
    cases heq
    exact ⟨rfl, fun j _ ↦ hne j, .inr hne⟩

def ValidSlot (s : Manager) (e : Env × Input) : Prop :=
  ∀ req, s.phase = .cfg → e.2 = .cfg (some req) → s.slotFor req.rruMac ≠ none

/-- A slot has the address of the request, or is unused. -/
def HasRoom (s : Manager) (e : Env × Input) : Prop :=
  ∀ req, s.phase = .cfg → e.2 = .cfg (some req) →
    ∃ i, (s.rrus i).mac = req.rruMac ∨ (s.rrus i).state = .none

theorem validSlot_iff {s : Manager} {e : Env × Input} : ValidSlot s e ↔ HasRoom s e := by
  refine forall₃_congr fun req _ _ ↦ ?_
  rw [Ne, slotFor_eq_none]
  simp only [not_forall, not_and_or, not_not]

def Input.mac : Input → Option (List UInt8)
  | .cfg (some req) => some req.rruMac
  | _ => none

def requestedMacs (es : List (Env × Input)) : List (List UInt8) :=
  es.filterMap fun e ↦ e.2.mac

structure Tracked (seen : List (List UInt8)) (s : Manager) : Prop where
  mac : ∀ i, (s.rrus i).state ≠ .none → (s.rrus i).mac ∈ seen
  first : ∀ i j, i < j → (s.rrus i).mac = (s.rrus j).mac → (s.rrus j).state = .none

theorem Tracked.stays {seen : List (List UInt8)} {s s' : Manager} (h : Tracked seen s)
    (hstays : ∀ j, Stays (s.rrus j) (s'.rrus j)) : Tracked seen s' where
  mac i hi := by
    rw [(hstays i).mac]
    exact h.mac i fun hnone ↦ hi ((hstays i).unused hnone)
  first i j hij heq := by
    rw [(hstays i).mac, (hstays j).mac] at heq
    exact (hstays j).unused (h.first i j hij heq)

theorem Tracked.mono {seen seen' : List (List UInt8)} {s : Manager} (h : Tracked seen s)
    (hsub : seen ⊆ seen') : Tracked seen' s :=
  ⟨fun i hi ↦ hsub (h.mac i hi), h.first⟩

theorem Tracked.register {seen : List (List UInt8)} {s s' : Manager} {mac : List UInt8}
    (h : Tracked seen s) {i : SlotId} {r r' : Rru} (hslot : s.slotFor mac = some (i, r))
    (hr : s'.rrus = Function.update s.rrus i r') (hmac : r'.mac = r.mac) (hseen : mac ∈ seen) :
    Tracked seen s' := by
  obtain ⟨hrmac, hbefore, hown⟩ := slotFor_mac hslot
  have hi : (s'.rrus i).mac = mac := by
    rw [hr, Function.update_self, hmac, hrmac]
  have hother : ∀ j, j ≠ i → s'.rrus j = s.rrus j := fun j hj ↦ by
    rw [hr, Function.update_of_ne hj]
  constructor
  · intro j hj
    by_cases hji : j = i
    · rw [hji, hi]
      exact hseen
    · rw [hother j hji] at hj ⊢
      exact h.mac j hj
  · intro a b hab heq
    by_cases hb : b = i
    · subst hb
      rw [hi, hother a hab.ne] at heq
      exact absurd heq (hbefore a hab)
    rw [hother b hb] at heq ⊢
    by_cases ha : a = i
    · subst ha
      rw [hi] at heq
      rcases hown with hown | hnone
      · exact h.first a b hab (hown.trans heq)
      · exact absurd heq.symm (hnone b)
    · rw [hother a ha] at heq
      exact h.first a b hab heq

theorem Tracked.step {seen : List (List UInt8)} {s s' : Manager} (h : Tracked seen s)
    {e : Env × Input} {o : List Obs} (hs : s.step e = some (s', o)) :
    Tracked (seen ++ e.2.mac.toList) s' := by
  have hseen : Tracked (seen ++ e.2.mac.toList) s := h.mono (List.subset_append_left _ _)
  by_cases hreg : ∃ j env req r, e = (env, .cfg (some req)) ∧
      s.slotFor req.rruMac = some (j, r) ∧ s'.rrus = (s.register env req j r).1.rrus
  · obtain ⟨j, env, req, r, rfl, hslot, hr⟩ := hreg
    exact hseen.register hslot hr rfl (by simp [Input.mac])
  · refine hseen.stays fun j ↦ ?_
    rcases step_slot hs j with ⟨env, req, r, he⟩ | hj
    · exact absurd ⟨j, env, req, r, he⟩ hreg
    · exact hj

theorem Tracked.slotFor {seen : List (List UInt8)} {s : Manager} (h : Tracked seen s)
    {mac : List UInt8} (hmac : mac ∈ seen) (hcard : seen.toFinset.card ≤ maxRruClients) :
    s.slotFor mac ≠ none := by
  intro hnone
  have hall := slotFor_eq_none.1 hnone
  have hinj : Function.Injective fun i ↦ (s.rrus i).mac := by
    intro i j hij
    rcases lt_trichotomy i j with hlt | heq | hgt
    · exact absurd (h.first i j hlt hij) (hall j).2
    · exact heq
    · exact absurd (h.first j i hgt hij.symm) (hall i).2
  have hsub : insert mac (Finset.univ.image fun i ↦ (s.rrus i).mac) ⊆ seen.toFinset := by
    refine Finset.insert_subset (List.mem_toFinset.2 hmac) fun m hm ↦ ?_
    obtain ⟨i, -, rfl⟩ := Finset.mem_image.1 hm
    exact List.mem_toFinset.2 (h.mac i (hall i).2)
  have hnot : mac ∉ Finset.univ.image fun i ↦ (s.rrus i).mac := by
    intro hm
    obtain ⟨i, -, hi⟩ := Finset.mem_image.1 hm
    exact (hall i).1 hi
  have hle := Finset.card_le_card hsub
  rw [Finset.card_insert_of_notMem hnot, Finset.card_image_of_injective _ hinj,
    Finset.card_univ, Fintype.card_fin] at hle
  omega

theorem Tracked.whenever {seen : List (List UInt8)} {s : Manager} (h : Tracked seen s)
    {es : List (Env × Input)}
    (hcard : (seen ++ requestedMacs es).toFinset.card ≤ maxRruClients) :
    Whenever Manager.step ValidSlot s es := by
  induction es generalizing seen s with
  | nil => trivial
  | cons e es ih =>
    have hlist : seen ++ requestedMacs (e :: es) =
        (seen ++ e.2.mac.toList) ++ requestedMacs es := by
      rw [requestedMacs, List.filterMap_cons]
      cases e.2.mac <;> simp [requestedMacs]
    rw [hlist] at hcard
    refine ⟨fun req _ he ↦ ?_, fun r hr ↦ ih (h.step hr) hcard⟩
    have hmac : req.rruMac ∈ seen ++ e.2.mac.toList := by
      rw [he]
      simp [Input.mac]
    refine (h.mono (List.subset_append_left _ _)).slotFor hmac (le_trans ?_ hcard)
    refine Finset.card_le_card fun m hm ↦ ?_
    rw [List.mem_toFinset] at hm ⊢
    exact List.mem_append_left _ hm

theorem Tracked.start (fds : List ℕ) (address : UInt32) (mem : Mem) :
    Tracked [] (.start fds address mem) where
  mac _ h := absurd rfl h
  first _ _ _ _ := rfl

/-- The handler of the requests has a slot in exactly the runs in which, at each request, a slot
has its address or is unused. Ten addresses can be requested in any order, as often as one
likes. -/
theorem validSlot_whenever_iff (fds : List ℕ) (address : UInt32) (mem : Mem)
    (es : List (Env × Input)) :
    (Whenever Manager.step ValidSlot (.start fds address mem) es ↔
        Whenever Manager.step HasRoom (.start fds address mem) es) ∧
      ((requestedMacs es).toFinset.card ≤ maxRruClients →
        Whenever Manager.step ValidSlot (.start fds address mem) es) := by
  refine ⟨?_, fun hcard ↦ (Tracked.start fds address mem).whenever hcard⟩
  exact whenever_congr (J := fun _ ↦ True) (fun _ _ _ ↦ trivial) (fun _ ↦ validSlot_iff) trivial
    (Along.of_forall (g := fun _ _ ↦ True) (fun _ _ _ ↦ trivial) _)

/-- Eleven RRUs ask for a configuration, one in each round. -/
theorem eleventh_mac_without_slot :
    ∃ (env : Env) (reqs : List CfgReq), reqs.length = 11 ∧
      ¬ Whenever Manager.step ValidSlot (.start [0, 1, 2] 0 fun _ ↦ 0)
        (reqs.flatMap fun req ↦ roundInputs env (some req) none fun _ ↦ none) := by
  let env : Env := ⟨false, [⟨some 0xc0a81e02, 0, 0, 0⟩], ⟨25, 1⟩, ⟨0, 0, 0, 1, 1, 2020⟩⟩
  let req : ℕ → CfgReq := fun k ↦ ⟨0, 0, [2, 0, 0, 0, 0, UInt8.ofNat k]⟩
  let rounds := fun reqs : List CfgReq ↦
    reqs.flatMap fun req ↦ roundInputs env (some req) none fun _ ↦ none
  refine ⟨env, (List.range 10).map req ++ [req 10], rfl, fun h ↦ ?_⟩
  have hsplit : rounds ((List.range 10).map req ++ [req 10]) =
      (rounds ((List.range 10).map req) ++ [(env, .poll .ready)]) ++
        (env, .cfg (some (req 10))) :: (rounds [req 10]).drop 2 := by
    rw [← List.append_cons]
    exact List.flatMap_append
  have hrun : (exec Manager.step (.start [0, 1, 2] 0 fun _ ↦ 0)
      (rounds ((List.range 10).map req) ++ [(env, .poll .ready)])).map
      (fun r ↦ (r.1.phase, (r.1.slotFor (req 10).rruMac).isNone)) = some (.cfg, true) := by
    decide +kernel
  obtain ⟨⟨s, o⟩, hs, heq⟩ := Option.map_eq_some_iff.1 hrun
  rw [Prod.mk.injEq, Option.isNone_iff_eq_none] at heq
  change Whenever _ _ _ (rounds _) at h
  rw [hsplit] at h
  exact h.reached hs (req 10) heq.1 rfl heq.2

end EnbL1Ppc.CpriEth
