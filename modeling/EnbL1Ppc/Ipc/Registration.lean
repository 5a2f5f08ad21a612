import EnbL1Ppc.Ipc.Configure
import Mathlib.Data.Finset.Card
import Mathlib.Data.Fintype.Card

namespace EnbL1Ppc.Ipc.Registration

open Lib

inductive IpcInd
  | virtualInt
  | paMpic
  | dspMesh
  | dspMpicMsi
  | noInt
  deriving DecidableEq

structure IntChannel extends Channel where
  chType : ChType
  ipcInd : IpcInd
  indOffset : BitVec 32
  indValue : BitVec 32

structure UserIrq where
  used : BitVec 32
  chId : BitVec 32
  signo : BitVec 32

/-- `ipc_channel_us_t`; of the callback it matters only whether there is one. -/
structure ChannelUs where
  channelId : BitVec 32
  signal : BitVec 32
  cbfunc : Bool

def maxMsgIrq : ℕ := 4

/-- The channels in the shared memory, the first `num_channels` entries of `ipc_priv->channels`,
and the table of the kernel. -/
structure State where
  channels : BitVec 32 → IntChannel
  us : List ChannelUs
  uirq : Fin maxMsgIrq → UserIrq

namespace State

def numChannels (s : State) : ℕ := s.us.length

def setChannel (s : State) (id : BitVec 32) (ch : IntChannel) : State :=
  { s with channels := Function.update s.channels id ch }

@[simp] theorem setChannel_self (s : State) (id : BitVec 32) (ch : IntChannel) :
    (s.setChannel id ch).channels id = ch := Function.update_self ..

def freeIrq (s : State) : Option (Fin maxMsgIrq) :=
  (List.finRange maxMsgIrq).find? fun i ↦ (s.uirq i).used = 0

/-- `het_ipc_ioctl` for `IOCTL_IPC_REGISTER_SIGNAL`. It returns 0 also if the table is full. -/
def registerSignal (s : State) (id signal : BitVec 32) : State :=
  match s.freeIrq with
  | none => s
  | some i =>
    { s with
      channels := Function.update s.channels id
        { s.channels id with
          ipcInd := .paMpic, indOffset := 0x1400 + BitVec.ofNat 32 i * 16, indValue := 0x12345678 }
      uirq := Function.update s.uirq i
        ⟨1, id, if signal ≠ 0 then signal else (s.uirq i).signo⟩ }

end State

/-- The arguments of a call, with the answers it gets: `signal` is the free real-time signal and
`res` the result of the `ioctl`. -/
structure Call (u : ℕ) where
  id : BitVec 32
  locked : Bool
  allocated : Bool
  cb : Bool
  signal : BitVec 32
  res : ℤ
  p : Config u

variable {u : ℕ} {maxDepth : BitVec 32}

def IntChannel.setRing (maxDepth : BitVec 32) (p : Config u) (ch : IntChannel) :
    Option IntChannel :=
  if ch.Configured then some ch
  else (ch.toChannel.setRing maxDepth p).map fun c ↦
    { ch with toChannel := c, chType := p.channelType, ipcInd := .noInt }

/-- The new entry of `ipc_priv->channels` as `calloc` leaves it, with its channel. -/
def State.attach (s : State) (id : BitVec 32) : State :=
  { s with us := s.us ++ [⟨id, 0, false⟩] }

def State.complete (s : State) (c : Call u) : State :=
  let signal := if c.cb then c.signal else 0
  let s := s.registerSignal c.id signal
  { s.setChannel c.id { s.channels c.id with
      ipcInd := .paMpic, consumerInitialized := osHetInitialized } with
    us := s.us ++ [⟨c.id, signal, c.cb⟩] }

/-- `fsl_ipc_configure_channel_int`. The handler of the `ioctl` never fails, so it has not been
run if the result is not 0. -/
def State.configureChannelInt (maxDepth : BitVec 32) (s : State) (c : Call u) : State × ℤ :=
  let ret := lockRet c.locked
  if ret < 0 then (s, ret)
  else match (s.channels c.id).setRing maxDepth c.p with
    | none => (s, -errInvalidDepth)
    | some ch =>
      let s := s.setChannel c.id ch
      if !c.allocated then (s, -errCalloc)
      else if c.cb && c.signal == 0 then (s.attach c.id, ret)
      else if c.res ≠ 0 then (s.attach c.id, ret)
      else (s.complete c, ret)

def step (maxDepth : BitVec 32) : Machine.Step State (Call u) ℤ := fun s c ↦
  let r := s.configureChannelInt maxDepth c
  some (r.1, [r.2])

def Call.Enters (maxDepth : BitVec 32) (ch : IntChannel) (c : Call u) : Prop :=
  c.locked = true ∧ (ch.Configured ∨ ch.bdRingSize ≤ maxDepth)

def Call.Asks (c : Call u) : Prop :=
  ¬(c.cb = true ∧ c.signal = 0) ∧ c.res = 0

instance (ch : IntChannel) (c : Call u) : Decidable (c.Enters maxDepth ch) :=
  inferInstanceAs (Decidable (_ ∧ _))

instance (c : Call u) : Decidable c.Asks := inferInstanceAs (Decidable (_ ∧ _))

def Call.Reaches (maxDepth : BitVec 32) (ch : IntChannel) (c : Call u) : Prop :=
  c.Enters maxDepth ch ∧ c.allocated = true ∧ c.Asks

instance (ch : IntChannel) (c : Call u) : Decidable (c.Reaches maxDepth ch) :=
  inferInstanceAs (Decidable (_ ∧ _))

inductive Effect (maxDepth : BitVec 32) (s : State) (c : Call u) : State → ℤ → Prop
  | refused (ret : ℤ) (hret : ret ≠ 0) (henter : ¬c.Enters maxDepth (s.channels c.id)) :
      Effect maxDepth s c s ret
  | noMemory (ch : IntChannel) (henter : c.Enters maxDepth (s.channels c.id))
      (hset : (s.channels c.id).setRing maxDepth c.p = some ch) (halloc : c.allocated = false) :
      Effect maxDepth s c (s.setChannel c.id ch) (-errCalloc)
  | stopped (ch : IntChannel) (henter : c.Enters maxDepth (s.channels c.id))
      (halloc : c.allocated = true) (hasks : ¬c.Asks) :
      Effect maxDepth s c ((s.setChannel c.id ch).attach c.id) 0
  | completed (ch : IntChannel) (henter : c.Enters maxDepth (s.channels c.id))
      (halloc : c.allocated = true) (hasks : c.Asks) :
      Effect maxDepth s c ((s.setChannel c.id ch).complete c) 0

theorem setRing_isSome_iff (maxDepth : BitVec 32) (ch : IntChannel) (p : Config u) :
    (ch.setRing maxDepth p).isSome = true ↔ ch.Configured ∨ ch.bdRingSize ≤ maxDepth := by
  by_cases hcon : ch.Configured
  · simp [IntChannel.setRing, hcon]
  · rw [IntChannel.setRing, if_neg hcon, Option.isSome_map, Channel.setRing, if_neg hcon]
    by_cases hle : ch.bdRingSize ≤ maxDepth
    · rw [if_pos hle]
      cases p.channelType <;> simp [hle]
    · simp [hle, hcon]

theorem configureChannelInt_effect (maxDepth : BitVec 32) (s : State) (c : Call u) :
    Effect maxDepth s c (s.configureChannelInt maxDepth c).1
      (s.configureChannelInt maxDepth c).2 := by
  obtain ⟨id, locked, allocated, cb, signal, res, p⟩ := c
  cases locked with
  | false => exact .refused (-1) (by decide) fun henter ↦ Bool.false_ne_true henter.1
  | true =>
    have hiff := setRing_isSome_iff maxDepth (s.channels id) p
    simp only [State.configureChannelInt, show ¬lockRet true < 0 by decide, if_false]
    cases hset : (s.channels id).setRing maxDepth p with
    | none =>
      refine .refused (-errInvalidDepth) (by decide) fun henter ↦ ?_
      have hsome := hiff.2 henter.2
      rw [hset] at hsome
      cases hsome
    | some ch =>
      have henter := hiff.1 (Option.isSome_iff_exists.2 ⟨ch, hset⟩)
      cases allocated with
      | false => exact .noMemory ch ⟨rfl, henter⟩ hset rfl
      | true =>
        simp only [Bool.not_true, Bool.false_eq_true, if_false]
        split_ifs with hsignal hres
        · refine .stopped ch ⟨rfl, henter⟩ rfl fun hasks ↦ hasks.1 ?_
          simpa using hsignal
        · exact .stopped ch ⟨rfl, henter⟩ rfl fun hasks ↦ hres hasks.2
        · refine .completed ch ⟨rfl, henter⟩ rfl ⟨?_, not_not.1 hres⟩
          simpa using hsignal

section Table

def State.used (s : State) : ℕ := (Finset.univ.filter fun i ↦ (s.uirq i).used ≠ 0).card

theorem freeIrq_eq_none_iff {s : State} : s.freeIrq = none ↔ ∀ i, (s.uirq i).used ≠ 0 := by
  simp [State.freeIrq, List.find?_eq_none]

theorem used_of_freeIrq {s : State} {i : Fin maxMsgIrq} (h : s.freeIrq = some i) :
    (s.uirq i).used = 0 := by
  simpa using List.find?_some h

theorem State.used_lt_iff (s : State) : s.used < maxMsgIrq ↔ s.freeIrq ≠ none := by
  have hcard : s.used < maxMsgIrq ↔ s.used < Fintype.card (Fin maxMsgIrq) := by
    rw [Fintype.card_fin]
  rw [hcard, State.used, Finset.card_lt_iff_ne_univ, Ne, Ne, freeIrq_eq_none_iff,
    Finset.filter_eq_self]
  simp

theorem registerSignal_used (s : State) (id signal : BitVec 32) :
    (s.registerSignal id signal).used = min maxMsgIrq (s.used + 1) := by
  have hle : s.used ≤ maxMsgIrq := (Finset.card_le_univ _).trans_eq (Fintype.card_fin _)
  rw [State.registerSignal]
  cases h : s.freeIrq with
  | none =>
    have hfull := mt s.used_lt_iff.1 (not_not.2 h)
    dsimp only
    omega
  | some i =>
    have hlt := s.used_lt_iff.2 (by simp [h])
    have hinsert : (Finset.univ.filter fun j ↦ (Function.update s.uirq i
        ⟨1, id, if signal ≠ 0 then signal else (s.uirq i).signo⟩ j).used ≠ 0) =
        insert i (Finset.univ.filter fun j ↦ (s.uirq j).used ≠ 0) := by
      ext j
      by_cases hj : j = i
      · subst hj
        simp
      · simp [hj]
    have hnew : i ∉ Finset.univ.filter fun j ↦ (s.uirq j).used ≠ 0 := by
      simp [used_of_freeIrq h]
    rw [State.used, hinsert, Finset.card_insert_of_notMem hnew]
    exact (min_eq_right hlt).symm

def State.Registered (s : State) (id : BitVec 32) : Prop :=
  ∃ i, (s.uirq i).used = 1 ∧ (s.uirq i).chId = id

instance (s : State) (id : BitVec 32) : Decidable (s.Registered id) :=
  inferInstanceAs (Decidable (∃ _, _))

theorem registerSignal_registered_other {s : State} {id id' signal : BitVec 32} (hne : id' ≠ id)
    (h : (s.registerSignal id signal).Registered id') : s.Registered id' := by
  obtain ⟨j, hused, hid⟩ := h
  rw [State.registerSignal] at hused hid
  cases hfree : s.freeIrq with
  | none =>
    rw [hfree] at hused hid
    exact ⟨j, hused, hid⟩
  | some i =>
    rw [hfree] at hused hid
    by_cases hj : j = i
    · subst hj
      simp only [Function.update_self] at hid
      exact absurd hid.symm hne
    · simp only [Function.update_of_ne hj] at hused hid
      exact ⟨j, hused, hid⟩

theorem registerSignal_registered_iff {s : State} {id signal : BitVec 32} (h : ¬s.Registered id) :
    (s.registerSignal id signal).Registered id ↔ s.used < maxMsgIrq := by
  rw [s.used_lt_iff]
  cases hfree : s.freeIrq with
  | none => simpa [State.registerSignal, hfree] using h
  | some i =>
    simp only [ne_eq, reduceCtorEq, not_false_eq_true, iff_true]
    refine ⟨i, ?_, ?_⟩ <;> simp [State.registerSignal, hfree]

theorem registerSignal_channels_other {s : State} {id id' signal : BitVec 32} (hne : id' ≠ id) :
    (s.registerSignal id signal).channels id' = s.channels id' := by
  rw [State.registerSignal]
  cases s.freeIrq with
  | none => rfl
  | some i => exact Function.update_of_ne hne ..

end Table

theorem not_mem_ids_snoc {cs : List (Call u)} {c : Call u} {id : BitVec 32} :
    id ∉ (cs ++ [c]).map Call.id ↔ id ∉ cs.map Call.id ∧ id ≠ c.id := by
  rw [List.map_append, List.map_singleton, List.mem_append, List.mem_singleton, not_or]

theorem nodup_ids_snoc {cs : List (Call u)} {c : Call u} :
    ((cs ++ [c]).map Call.id).Nodup ↔ (cs.map Call.id).Nodup ∧ c.id ∉ cs.map Call.id := by
  rw [List.map_append, List.map_singleton, ← List.concat_eq_append, List.nodup_concat, and_comm]

/-- The state after the calls `cs`, from a state `s` in which the table is empty. -/
structure Ran (maxDepth : BitVec 32) (s : State) (cs : List (Call u)) (t : State) : Prop where
  channels : ∀ id ∉ cs.map Call.id, t.channels id = s.channels id
  registered : ∀ id ∉ cs.map Call.id, ¬t.Registered id
  used : t.used = min maxMsgIrq
    (cs.countP fun c ↦ c.Reaches maxDepth (s.channels c.id))

theorem complete_channels_other (s : State) {c : Call u} {id : BitVec 32} (hne : id ≠ c.id) :
    (s.complete c).channels id = s.channels id := by
  simp only [State.complete, State.setChannel, Function.update_of_ne hne]
  exact registerSignal_channels_other hne

section Effects

variable {s t t' : State} {cs : List (Call u)} {c : Call u} {ret : ℤ}

theorem Effect.channels_other (h : Effect maxDepth s c t ret) {id : BitVec 32} (hne : id ≠ c.id) :
    t.channels id = s.channels id := by
  cases h with
  | refused => rfl
  | noMemory ch => exact Function.update_of_ne hne ..
  | stopped ch => exact Function.update_of_ne hne ..
  | completed ch =>
    rw [complete_channels_other _ hne]
    exact Function.update_of_ne hne ..

theorem Effect.registered_other (h : Effect maxDepth s c t ret) {id : BitVec 32} (hne : id ≠ c.id)
    (ht : t.Registered id) : s.Registered id := by
  cases h with
  | refused => exact ht
  | noMemory ch => exact ht
  | stopped ch => exact ht
  | completed ch => exact registerSignal_registered_other (s := s.setChannel c.id ch) hne ht

theorem Effect.used_eq (h : Effect maxDepth s c t ret) :
    t.used = if c.Reaches maxDepth (s.channels c.id) then min maxMsgIrq (s.used + 1)
      else s.used := by
  cases h with
  | refused ret hret henter => rw [if_neg fun hc ↦ henter hc.1]
  | noMemory ch henter hset halloc =>
    rw [if_neg fun hc ↦ Bool.false_ne_true (halloc.symm.trans hc.2.1)]
    rfl
  | stopped ch henter halloc hasks =>
    rw [if_neg fun hc ↦ hasks hc.2.2]
    rfl
  | completed ch henter halloc hasks =>
    rw [if_pos ⟨henter, halloc, hasks⟩]
    exact registerSignal_used (s.setChannel c.id ch) ..

theorem Ran.next (h : Ran maxDepth s cs t) (hnew : c.id ∉ cs.map Call.id)
    (he : Effect maxDepth t c t' ret) : Ran maxDepth s (cs ++ [c]) t' where
  channels id hid := by
    rw [not_mem_ids_snoc] at hid
    rw [he.channels_other hid.2, h.channels id hid.1]
  registered id hid hreg := by
    rw [not_mem_ids_snoc] at hid
    exact h.registered id hid.1 (he.registered_other hid.2 hreg)
  used := by
    rw [he.used_eq, h.channels c.id hnew, h.used, List.countP_append, List.countP_singleton]
    simp only [decide_eq_true_eq]
    split_ifs <;> omega

end Effects

def State.Opened (s : State) : Prop := ∀ i, (s.uirq i).used = 0

theorem State.Opened.ran {s : State} (hs : s.Opened) : Ran maxDepth s ([] : List (Call u)) s where
  channels _ _ := rfl
  registered _ _ := by
    rintro ⟨i, hused, -⟩
    rw [hs i] at hused
    cases hused
  used := by simp [State.used, hs _]

theorem State.Opened.ran_exec {s t : State} {cs : List (Call u)} {rets : List ℤ} (hs : s.Opened)
    (hd : (cs.map Call.id).Nodup) (ht : Machine.exec (step maxDepth) s cs = some (t, rets)) :
    Ran maxDepth s cs t := by
  refine Machine.exec_inputs (R := fun js t ↦ (js.map Call.id).Nodup → Ran maxDepth s js t)
    ?_ [] (fun _ ↦ hs.ran) ht hd
  intro js t c t' o hran ht hd
  cases ht
  obtain ⟨hjs, hnew⟩ := nodup_ids_snoc.1 hd
  exact (hran hjs).next hnew (configureChannelInt_effect maxDepth t c)

@[mk_iff]
structure Reports (maxDepth : BitVec 32) (s : State) (c : Call u) : Prop where
  success : (s.configureChannelInt maxDepth c).2 = 0 →
    ((s.configureChannelInt maxDepth c).1.channels c.id).Configured ∧
      (s.configureChannelInt maxDepth c).1.Registered c.id
  failure : (s.configureChannelInt maxDepth c).2 ≠ 0 →
    (s.configureChannelInt maxDepth c).1.numChannels = s.numChannels ∧
      (s.configureChannelInt maxDepth c).1.channels c.id = s.channels c.id

/-- Success means that the channel is registered only if a callback got a signal, the `ioctl`
worked and at most three calls before got as far; and an allocation that fails has to find a
channel that already has its ring. -/
theorem configureChannelInt_reports_iff {s t : State} {cs : List (Call u)} {c : Call u}
    {rets : List ℤ} (hs : s.Opened) (hd : ((cs ++ [c]).map Call.id).Nodup)
    (ht : Machine.exec (step maxDepth) s cs = some (t, rets)) :
    Reports maxDepth t c ↔ (c.Enters maxDepth (s.channels c.id) →
      (c.allocated = true →
        c.Asks ∧ (cs.countP fun c ↦ c.Reaches maxDepth (s.channels c.id)) < maxMsgIrq) ∧
      (c.allocated = false →
        (s.channels c.id).setRing maxDepth c.p = some (s.channels c.id))) := by
  obtain ⟨hcs, hnew⟩ := nodup_ids_snoc.1 hd
  have hran := hs.ran_exec hcs ht
  have hreg := hran.registered c.id hnew
  have hused := hran.used
  have he := configureChannelInt_effect maxDepth t c
  rw [← hran.channels c.id hnew, reports_iff]
  generalize (t.configureChannelInt maxDepth c).1 = t' at he ⊢
  generalize (t.configureChannelInt maxDepth c).2 = ret at he ⊢
  cases he with
  | refused _ hret henter => simp [hret, henter]
  | noMemory ch henter hset halloc =>
    simp [henter, hset, halloc, errCalloc, State.setChannel, State.numChannels]
  | stopped ch henter halloc hasks =>
    have hout : ¬((t.setChannel c.id ch).attach c.id).Registered c.id := hreg
    simp [henter, halloc, hasks, hout]
  | completed ch henter halloc hasks =>
    have hcon : (((t.setChannel c.id ch).complete c).channels c.id).Configured := by
      simp [State.complete, State.setChannel, Channel.Configured]
    have hin : ((t.setChannel c.id ch).complete c).Registered c.id ↔ t.used < maxMsgIrq :=
      registerSignal_registered_iff (s := t.setChannel c.id ch) hreg
    rw [hused] at hin
    simp [henter, halloc, hasks, hcon, hin]

def fresh : State where
  channels _ :=
    { producerInitialized := 0
      consumerInitialized := 0
      producerNum := 0
      consumerNum := 0
      bdRingSize := 0
      maxMsgSize := 0
      localProducerNum := 0
      localConsumerNum := 0
      bd := fun _ ↦ ⟨0, 0⟩
      chType := .ptrCh
      ipcInd := .noInt
      indOffset := 0
      indValue := 0 }
  us := []
  uirq _ := ⟨0, -1, 0⟩

def served (id : BitVec 32) : Call 32 where
  id
  locked := true
  allocated := true
  cb := true
  signal := 38
  res := 0
  p := ⟨8, .ptrCh, 0, 0⟩

/-- The fourth of four channels is registered. -/
theorem configureChannelInt_reports_iff_fourth :
    ∃ t rets, Machine.exec (step 16) fresh [served 1, served 2, served 3] = some (t, rets) ∧
      Reports 16 t (served 4) := by
  refine ⟨_, _, rfl, ?_⟩
  have hd : (([served 1, served 2, served 3] ++ [served 4]).map Call.id).Nodup := by decide
  refine (configureChannelInt_reports_iff (s := fresh) (fun _ ↦ rfl) hd rfl).2 fun _ ↦ ?_
  exact ⟨fun _ ↦ by decide, fun halloc ↦ absurd halloc (by decide)⟩

def afterOnly (c : Call 32) : State × ℤ := fresh.configureChannelInt 16 c

/-- Calls that do not tell what happened: no signal is left for the callback; the `ioctl` fails;
four channels are registered already; there is no memory for the entry of the channel. -/
theorem configureChannelInt_misreports :
    ((afterOnly { served 1 with signal := 0 }).2 = 0 ∧
      ¬((afterOnly { served 1 with signal := 0 }).1.channels 1).Configured ∧
      ¬(afterOnly { served 1 with signal := 0 }).1.Registered 1) ∧
    ((afterOnly { served 1 with res := -1 }).2 = 0 ∧
      ¬((afterOnly { served 1 with res := -1 }).1.channels 1).Configured ∧
      ¬(afterOnly { served 1 with res := -1 }).1.Registered 1) ∧
    (∃ t rets, Machine.exec (step 16) fresh [served 1, served 2, served 3, served 4] =
        some (t, rets) ∧
      (t.configureChannelInt 16 (served 5)).2 = 0 ∧
      ¬(t.configureChannelInt 16 (served 5)).1.Registered 5) ∧
    (afterOnly { served 1 with allocated := false }).2 ≠ 0 ∧
      (afterOnly { served 1 with allocated := false }).1.channels 1 ≠ fresh.channels 1 := by
  refine ⟨by decide, by decide, ⟨_, _, rfl, by decide⟩, by decide, ?_⟩
  intro heq
  have hsize := congrArg (fun ch ↦ ch.bdRingSize) heq
  exact absurd hsize (by decide)

end EnbL1Ppc.Ipc.Registration
