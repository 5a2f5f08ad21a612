import EnbL1Ppc.Ipc.ChannelCalls
import EnbL1Ppc.Lib.Fifo
import EnbL1Ppc.Lib.Ring
import Mathlib.Tactic

namespace EnbL1Ppc.Ipc.ChannelFifo

open Lib Lib.Memory ChannelCalls

variable {u : ℕ}

theorem freeBds_eq (ch : Channel) :
    ch.freeBds = ch.bdRingSize - (ch.producerNum - ch.consumerNum) := by
  unfold Channel.freeBds
  split_ifs
  · rfl
  · bv_omega

structure Holds (n : BitVec 32) (ch : Channel) (ds : List Bd) : Prop where
  size : ch.bdRingSize = n
  count : ch.producerNum = ch.consumerNum + BitVec.ofNat 32 ds.length
  length_le : ds.length ≤ n.toNat
  consumer_lt : ch.localConsumerNum.toNat < n.toNat
  producer_eq : ch.localProducerNum.toNat = (ch.localConsumerNum.toNat + ds.length) % n.toNat
  window : ds = Ring.window ch.bd n.toNat ch.localConsumerNum.toNat ds.length

variable {n : BitVec 32} {ch ch' : Channel} {ds : List Bd}

theorem Holds.same (hs : Holds n ch ds) (hch : SameRing ch ch') : Holds n ch' ds := by
  obtain ⟨h₁, h₂, h₃, h₄, h₅, h₆⟩ := hs
  exact ⟨hch.bdRingSize ▸ h₁, by rw [hch.producerNum, hch.consumerNum, h₂], h₃,
    by rwa [hch.localConsumerNum], by rw [hch.localProducerNum, hch.localConsumerNum, h₅],
    by rw [hch.bd, hch.localConsumerNum]; exact h₆⟩

theorem Holds.full_iff (hs : Holds n ch ds) : ch.full = true ↔ ds.length = n.toNat := by
  have hle := hs.length_le
  have hlt := n.isLt
  have hsub : ch.producerNum - ch.consumerNum = BitVec.ofNat 32 ds.length := by
    rw [hs.count, add_sub_cancel_left]
  rw [Channel.full, decide_eq_true_iff, freeBds_eq, hs.size, hsub, sub_eq_zero]
  constructor
  · intro h
    rw [h, BitVec.toNat_ofNat, Nat.mod_eq_of_lt (by omega)]
  · intro h
    exact BitVec.eq_of_toNat_eq (by rw [BitVec.toNat_ofNat, Nat.mod_eq_of_lt (by omega), h])

theorem Holds.room (hs : Holds n ch ds) (hroom : ch.full = false) : ds.length < n.toNat := by
  refine lt_of_le_of_ne hs.length_le fun he ↦ ?_
  simp [hs.full_iff.2 he] at hroom

theorem Holds.empty_iff (hs : Holds n ch ds) : ch.empty = true ↔ ds = [] := by
  have hle := hs.length_le
  have hlt := n.isLt
  rw [Channel.empty, decide_eq_true_iff, hs.count, add_eq_left, ← List.length_eq_zero_iff]
  constructor
  · intro h
    have hz := congrArg BitVec.toNat h
    rwa [BitVec.toNat_ofNat, Nat.mod_eq_of_lt (by omega)] at hz
  · intro h
    rw [h]
    rfl

theorem toNat_succ_mod {i : BitVec 32} (hi : i.toNat < n.toNat) :
    ((i + 1) % n).toNat = (i.toNat + 1) % n.toNat := by
  have hn := n.isLt
  have hadd : (i + 1).toNat = i.toNat + 1 := by
    rw [BitVec.toNat_add]
    exact Nat.mod_eq_of_lt (by simp; omega)
  rw [BitVec.toNat_umod, hadd]

theorem Holds.produce (hs : Holds n ch ds) (hroom : ds.length < n.toNat) (d : Bd) :
    Holds n (ch.produce d) (ds ++ [d]) := by
  have hlt : ch.localProducerNum.toNat < n.toNat := by
    rw [hs.producer_eq]
    exact Nat.mod_lt _ (by omega)
  refine ⟨hs.size, ?_, ?_, hs.consumer_lt, ?_, ?_⟩
  · change ch.producerNum + 1 = ch.consumerNum + _
    rw [hs.count, List.length_append, List.length_singleton, BitVec.ofNat_add, add_assoc]
    rfl
  · simpa using hroom
  · change ((ch.localProducerNum + 1) % ch.bdRingSize).toNat = _
    rw [hs.size, toNat_succ_mod hlt, hs.producer_eq, Nat.mod_add_mod, Nat.add_assoc,
      List.length_append, List.length_singleton]
    rfl
  · change ds ++ [d] = Ring.window (Function.update ch.bd ch.localProducerNum.toNat d) n.toNat
      ch.localConsumerNum.toNat (ds ++ [d]).length
    rw [List.length_append, List.length_singleton, hs.producer_eq, Ring.window_push _ hroom,
      ← hs.window]

theorem Holds.consume {d : Bd} (hs : Holds n ch (d :: ds)) :
    ch.nextIn = d ∧ Holds n ch.consume ds := by
  have hw := hs.window
  have hlen := hs.length_le
  have hc := toNat_succ_mod hs.consumer_lt
  rw [List.length_cons] at hlen
  rw [List.length_cons, Ring.window_cons, Nat.mod_eq_of_lt hs.consumer_lt, List.cons.injEq] at hw
  refine ⟨hw.1.symm, hs.size, ?_, by omega, ?_, ?_, ?_⟩
  · change ch.producerNum = ch.consumerNum + 1 + _
    rw [hs.count, List.length_cons, Nat.add_comm, BitVec.ofNat_add, add_assoc]
    rfl
  · change ((ch.localConsumerNum + 1) % ch.bdRingSize).toNat < _
    rw [hs.size, hc]
    exact Nat.mod_lt _ (by omega)
  · change ch.localProducerNum.toNat = (((ch.localConsumerNum + 1) % ch.bdRingSize).toNat + _) % _
    rw [hs.size, hc, Nat.mod_add_mod, hs.producer_eq, List.length_cons, Nat.add_assoc,
      Nat.add_comm 1]
  · change ds = Ring.window ch.bd n.toNat ((ch.localConsumerNum + 1) % ch.bdRingSize).toNat ds.length
    rw [hs.size, hc]
    exact hw.2

theorem Holds.mem_slot (hs : Holds n ch ds) (hroom : ds.length < n.toNat) {d : Bd} (hd : d ∈ ds) :
    ∃ i < n.toNat, i ≠ ch.localProducerNum.toNat ∧ ch.bd i = d := by
  rw [hs.window] at hd
  obtain ⟨j, hj, rfl⟩ := List.mem_map.1 hd
  have hj := List.mem_range.1 hj
  refine ⟨_, Nat.mod_lt _ (by omega), ?_, rfl⟩
  rw [hs.producer_eq, Ne, Ring.add_mod_inj (by omega) hroom]
  omega

variable {h : Handle} {s s' : State} {c : Call u} {ret : ℤ} {e : Event u}

def observe : Event u → List (Fifo.Event (BitVec u × BitVec 32))
  | .sent addr len _ => [.put (addr, len)]
  | .received addr len _ => [.get (addr, len)]
  | .failed ret =>
    if ret = -errChannelFull then [.full] else if ret = -errChannelEmpty then [.empty] else []

def sent (out : List (Event u)) : List (BitVec u × BitVec 32) := Fifo.puts (out.flatMap observe)

def received (out : List (Event u)) : List (BitVec u × BitVec 32) :=
  Fifo.gets (out.flatMap observe)

def sentBodies (out : List (Event u)) : List (List UInt8) :=
  out.filterMap fun | .sent _ _ body => body | _ => none

def receivedBodies (out : List (Event u)) : List (List UInt8) :=
  out.filterMap fun | .received _ _ body => some body | _ => none

theorem narrow_widened (hu : u ≤ 64) (addr : BitVec u) (len : BitVec 32) :
    narrow u ⟨addr.setWidth 64, len⟩ = (addr, len) := by
  rw [narrow, BitVec.setWidth_setWidth_of_le _ hu, BitVec.setWidth_eq]

theorem Performed.fifo (hu : u ≤ 64) (hs : Holds n s.channel ds) (hp : Performed h s c s' ret e) :
    ∃ ds', Holds n s'.channel ds' ∧
      Fifo.run n.toNat (ds.map (narrow u)) (observe e) = some (ds'.map (narrow u)) := by
  cases hp with
  | sendPtr addr len hpass hroom =>
    have hlt := hs.room hroom
    refine ⟨_, hs.produce hlt _, ?_⟩
    simp [observe, Fifo.step, hlt, narrow_widened hu]
  | sendMsg src len ch hch hpass hroom hlen =>
    have hlt := hs.room hroom
    refine ⟨_, (hs.same hch).produce hlt _, ?_⟩
    simp [observe, Fifo.step, hlt, narrow]
  | receive c hc hpass hne =>
    cases ds with
    | nil => simp [hs.empty_iff.2 rfl] at hne
    | cons d ds =>
      obtain ⟨hd, hcons⟩ := hs.consume
      refine ⟨ds, hcons, ?_⟩
      simp [observe, Fifo.step, hd, narrow]
  | full c ch hch hc hpass hfull =>
    refine ⟨ds, hs.same hch, ?_⟩
    simp [observe, Fifo.step, hs.full_iff.1 hfull]
  | empty c hc hpass hempty =>
    refine ⟨ds, hs, ?_⟩
    simp [observe, Fifo.step, hs.empty_iff.1 hempty, errChannelFull, errChannelEmpty]
  | refused c ch hch ret hret hfull hempty hwhy =>
    refine ⟨ds, hs.same hch, ?_⟩
    simp [observe, hfull, hempty]

theorem Performed.ret_full_iff (hs : Holds n s.channel ds) (hp : Performed h s c s' ret e) :
    ret = -errChannelFull ↔
      c.isSend = true ∧ c.Passes h s.channel ∧ ds.length = n.toNat := by
  rw [← hs.full_iff]
  cases hp with
  | sendPtr addr len hpass hroom => simp [errChannelFull, hroom]
  | sendMsg src len ch hch hpass hroom hlen => simp [errChannelFull, hroom]
  | receive c hc hpass hne => simp [errChannelFull, hc]
  | full c ch hch hc hpass hfull => simp [hc, hpass, hfull]
  | empty c hc hpass hempty => simp [errChannelFull, errChannelEmpty, hc]
  | refused c ch hch ret hret hfull hempty hwhy =>
    refine iff_of_false hfull fun hc ↦ ?_
    have hroom := (hwhy hc.2.1).2
    simp [hc.2.2] at hroom

theorem Performed.ret_empty_iff (hs : Holds n s.channel ds) (hp : Performed h s c s' ret e) :
    ret = -errChannelEmpty ↔ c.isSend = false ∧ c.Passes h s.channel ∧ ds = [] := by
  rw [← hs.empty_iff]
  cases hp with
  | sendPtr addr len hpass hroom => simp [errChannelEmpty, Call.isSend]
  | sendMsg src len ch hch hpass hroom hlen => simp [errChannelEmpty, Call.isSend]
  | receive c hc hpass hne => simp [errChannelEmpty, hne]
  | full c ch hch hc hpass hfull => simp [errChannelFull, errChannelEmpty, hc]
  | empty c hc hpass hempty => simp [hc, hpass, hempty]
  | refused c ch hch ret hret hfull hempty hwhy =>
    refine iff_of_false hempty fun hc ↦ ?_
    have hsend := (hwhy hc.2.1).1
    simp [hc.1] at hsend

theorem Performed.same_of_failed (hp : Performed h s c s' ret e) (hret : ret < 0) :
    SameRing s.channel s'.channel ∧ s'.mem = s.mem := by
  cases hp with
  | sendPtr | sendMsg | receive => omega
  | full c ch hch => exact ⟨hch, rfl⟩
  | empty => exact ⟨.refl _, rfl⟩
  | refused c ch hch => exact ⟨hch, rfl⟩

section Bodies

/-- The buffers behind the descriptors, each `max_msg_size` bytes long, do not overlap. -/
def DisjointBuffers (h : Handle) (ch : Channel) : Prop :=
  ∀ i < ch.bdRingSize.toNat, ∀ j < ch.bdRingSize.toNat, i ≠ j →
    Disjoint (h.p2vcb (ch.bd i).msgPtr) ch.maxMsgSize.toNat
      (h.p2vcb (ch.bd j).msgPtr) ch.maxMsgSize.toNat

/-- The outstanding descriptors point into the buffers that the channel `ch₀` had, one buffer
each. -/
structure Intact (ch₀ ch : Channel) (ds : List Bd) : Prop where
  holds : Holds ch₀.bdRingSize ch ds
  maxMsgSize : ch.maxMsgSize = ch₀.maxMsgSize
  msgPtr : ∀ i, (ch.bd i).msgPtr = (ch₀.bd i).msgPtr
  len_le : ∀ d ∈ ds, d.msgLen ≤ ch₀.maxMsgSize

section Intact

variable {ch₀ : Channel}

theorem Intact.same (hi : Intact ch₀ ch ds) (hch : SameRing ch ch') : Intact ch₀ ch' ds :=
  ⟨hi.holds.same hch, hch.maxMsgSize.trans hi.maxMsgSize,
    fun i ↦ by rw [hch.bd, hi.msgPtr], hi.len_le⟩

theorem Intact.producer_lt (hi : Intact ch₀ ch ds) (hroom : ds.length < ch₀.bdRingSize.toNat) :
    ch.localProducerNum.toNat < ch₀.bdRingSize.toNat := by
  rw [hi.holds.producer_eq]
  exact Nat.mod_lt _ (by omega)

theorem Intact.slot (hi : Intact ch₀ ch ds) {d : Bd} (hd : d ∈ ds) :
    ∃ i < ch₀.bdRingSize.toNat, d.msgPtr = (ch₀.bd i).msgPtr := by
  have hlt := hi.holds.consumer_lt
  rw [hi.holds.window] at hd
  obtain ⟨j, -, rfl⟩ := List.mem_map.1 hd
  exact ⟨_, Nat.mod_lt _ (by omega), hi.msgPtr _⟩

theorem Intact.send (hi : Intact ch₀ ch ds) (hroom : ds.length < ch₀.bdRingSize.toNat)
    (hch : SameRing ch ch') {len : BitVec 32} (hlen : len ≤ ch.maxMsgSize) :
    Intact ch₀ (ch'.produce ⟨ch.nextOut.msgPtr, len⟩) (ds ++ [⟨ch.nextOut.msgPtr, len⟩]) := by
  refine ⟨(hi.holds.same hch).produce hroom _, hch.maxMsgSize.trans hi.maxMsgSize, ?_, ?_⟩
  · intro i
    change (Function.update ch'.bd ch'.localProducerNum.toNat _ i).msgPtr = _
    rw [hch.bd, hch.localProducerNum, ← hi.msgPtr]
    by_cases he : i = ch.localProducerNum.toNat
    · rw [he, Function.update_self]
      rfl
    · rw [Function.update_of_ne he]
  · intro d hd
    rcases List.mem_append.1 hd with hd | hd
    · exact hi.len_le d hd
    · rw [List.mem_singleton.1 hd, ← hi.maxMsgSize]
      exact hlen

theorem Intact.content_send (hdis : DisjointBuffers h ch₀) (hi : Intact ch₀ ch ds)
    (hroom : ds.length < ch₀.bdRingSize.toNat) (mem : Mem) (src : ℕ → UInt8) {len : BitVec 32}
    (hlen : len ≤ ch.maxMsgSize) {d : Bd} (hd : d ∈ ds) :
    content h (write mem (h.p2vcb ch.nextOut.msgPtr) src len.toNat) d = content h mem d := by
  obtain ⟨i, hlt, hne, rfl⟩ := hi.holds.mem_slot hroom hd
  have hdisj := hdis _ (hi.producer_lt hroom) i hlt hne.symm
  rw [← hi.msgPtr, ← hi.msgPtr, ← hi.maxMsgSize] at hdisj
  have hle := hi.len_le _ hd
  rw [← hi.maxMsgSize] at hle
  exact read_write_disjoint src (hdisj.mono (BitVec.le_def.1 hlen) (BitVec.le_def.1 hle))

theorem Intact.receive {d : Bd} (hi : Intact ch₀ ch (d :: ds)) :
    ch.nextIn = d ∧ Intact ch₀ ch.consume ds := by
  obtain ⟨hd, hcons⟩ := hi.holds.consume
  exact ⟨hd, hcons, hi.maxMsgSize, hi.msgPtr, fun d' hd' ↦ hi.len_le d' (.tail _ hd')⟩

end Intact

structure Carries (h : Handle) (s₀ s : State) (ds : List Bd) (out : List (Event u)) : Prop where
  intact : Intact s₀.channel s.channel ds
  bodies : sentBodies out = receivedBodies out ++ ds.map (content h s.mem)

variable {s₀ : State} {out : List (Event u)}

theorem Carries.same (hc : Carries h s₀ s ds out) (hch : SameRing s.channel ch) (ret : ℤ) :
    Carries h s₀ ⟨ch, s.mem⟩ ds (out ++ [.failed ret]) :=
  ⟨hc.intact.same hch, by simpa [sentBodies, receivedBodies] using hc.bodies⟩

theorem Carries.send (hdis : DisjointBuffers h s₀.channel) (hc : Carries h s₀ s ds out)
    (hroom : ds.length < s₀.channel.bdRingSize.toNat) (hch : SameRing s.channel ch)
    (src : ℕ → UInt8) {len : BitVec 32} (hlen : len ≤ s.channel.maxMsgSize) (addr : BitVec u) :
    Carries h s₀ ⟨ch.produce ⟨s.channel.nextOut.msgPtr, len⟩,
        write s.mem (h.p2vcb s.channel.nextOut.msgPtr) src len.toNat⟩
      (ds ++ [⟨s.channel.nextOut.msgPtr, len⟩])
      (out ++ [.sent addr len (some (bytes src len.toNat))]) := by
  have hkeep : ds.map (content h (write s.mem (h.p2vcb s.channel.nextOut.msgPtr) src len.toNat)) =
      ds.map (content h s.mem) :=
    List.map_congr_left fun d hd ↦ hc.intact.content_send hdis hroom s.mem src hlen hd
  refine ⟨hc.intact.send hroom hch hlen, ?_⟩
  have hb := hc.bodies
  simp only [sentBodies, receivedBodies] at hb
  simp only [sentBodies, receivedBodies, List.filterMap_append, hb, List.map_append, hkeep]
  simp [content, read_write_self]

theorem Carries.receive {d : Bd} (hc : Carries h s₀ s (d :: ds) out) (addr : BitVec u)
    (len : BitVec 32) : Carries h s₀ ⟨s.channel.consume, s.mem⟩ ds
      (out ++ [.received addr len (content h s.mem s.channel.nextIn)]) := by
  obtain ⟨hd, hcons⟩ := hc.intact.receive
  refine ⟨hcons, ?_⟩
  have hb := hc.bodies
  simp only [sentBodies, receivedBodies] at hb
  simp [sentBodies, receivedBodies, hb, hd]

def Call.isSendPtr : Call u → Bool
  | .sendPtr .. => true
  | _ => false

theorem Performed.carries (hdis : DisjointBuffers h s₀.channel) (hc : Carries h s₀ s ds out)
    (hcall : Call.isSendPtr c = false) (hp : Performed h s c s' ret e) :
    ∃ ds', Carries h s₀ s' ds' (out ++ [e]) := by
  have hholds := hc.intact.holds
  cases hp with
  | sendPtr => simp [Call.isSendPtr] at hcall
  | sendMsg src len ch hch hpass hroom hlen =>
    exact ⟨_, hc.send hdis (hholds.room hroom) hch src hlen _⟩
  | receive c _ hpass hne =>
    cases ds with
    | nil => simp [hholds.empty_iff.2 rfl] at hne
    | cons d ds => exact ⟨ds, hc.receive _ _⟩
  | full c ch hch => exact ⟨ds, hc.same hch _⟩
  | empty => exact ⟨ds, hc.same (.refl _) _⟩
  | refused c ch hch ret => exact ⟨ds, hc.same hch _⟩

end Bodies

section Runs

variable {s₀ : State} {out : List (Event u)} {calls : List (Call u)}

/-- An empty channel: the trackers agree on any common value and both local indices are 0. -/
structure Fresh (ch : Channel) : Prop where
  size : ch.bdRingSize ≠ 0
  trackers : ch.producerNum = ch.consumerNum
  localProducer : ch.localProducerNum = 0
  localConsumer : ch.localConsumerNum = 0

theorem Fresh.holds (hf : Fresh ch) : Holds ch.bdRingSize ch [] := by
  have hpos : 0 < ch.bdRingSize.toNat :=
    Nat.pos_of_ne_zero fun h0 ↦ hf.size (BitVec.eq_of_toNat_eq (by simpa using h0))
  refine ⟨rfl, ?_, Nat.zero_le _, ?_, ?_, rfl⟩
  · simp [hf.trackers]
  · simpa [hf.localConsumer] using hpos
  · simp [hf.localProducer, hf.localConsumer]

theorem exec_fifo (hu : u ≤ 64) (hf : Fresh s₀.channel)
    (hrun : Machine.exec (step h) s₀ calls = some (s, out)) :
    ∃ ds, Holds s₀.channel.bdRingSize s.channel ds ∧
      Fifo.run s₀.channel.bdRingSize.toNat [] (out.flatMap observe) = some (ds.map (narrow u)) := by
  refine Machine.exec_history (g := fun _ _ ↦ True) (R := fun out s ↦
    ∃ ds, Holds s₀.channel.bdRingSize s.channel ds ∧
      Fifo.run s₀.channel.bdRingSize.toNat [] (out.flatMap observe) = some (ds.map (narrow u)))
    ?_ [] ⟨[], hf.holds, rfl⟩ (.of_forall (fun _ _ _ ↦ trivial) _) hrun
  rintro out s c s' o ⟨ds, hs, hr⟩ - hstep
  cases hstep
  obtain ⟨ds', hs', hr'⟩ := Performed.fifo hu hs (perform_cases c)
  refine ⟨ds', hs', ?_⟩
  rw [List.flatMap_append, Fifo.run_append, hr, Option.bind_some, List.flatMap_singleton, hr']

theorem exec_bodies (hf : Fresh s₀.channel) (hdis : DisjointBuffers h s₀.channel)
    (hcalls : ∀ c ∈ calls, Call.isSendPtr c = false)
    (hrun : Machine.exec (step h) s₀ calls = some (s, out)) :
    receivedBodies out <+: sentBodies out := by
  have hc : ∃ ds, Carries h s₀ s ds out := by
    refine Machine.exec_history (g := fun _ c ↦ Call.isSendPtr c = false)
      (R := fun out s ↦ ∃ ds, Carries h s₀ s ds out)
      ?_ [] ⟨[], ⟨hf.holds, rfl, fun _ ↦ rfl, by simp⟩, rfl⟩
      (.of_forall (fun c hc _ ↦ hcalls c hc) _) hrun
    rintro out s c s' o ⟨ds, hc⟩ hcall hstep
    cases hstep
    exact Performed.carries hdis hc hcall (perform_cases c)
  obtain ⟨ds, hc⟩ := hc
  exact ⟨_, hc.bodies.symm⟩

/-- The channel is a bounded FIFO of descriptors over any sequence of calls, and of message
bodies when the buffers are disjoint and stay those the ring was filled with. -/
theorem channel_refinesFifo (hu : u ≤ 64) (hf : Fresh s₀.channel)
    (hrun : Machine.exec (step h) s₀ calls = some (s, out)) :
    received out <+: sent out ∧
    (sent out).length - (received out).length ≤ s₀.channel.bdRingSize.toNat ∧
    (∀ c : Call u,
      ((perform h s c).2.1 = -errChannelFull ↔ c.isSend = true ∧ c.Passes h s.channel ∧
        (sent out).length - (received out).length = s₀.channel.bdRingSize.toNat) ∧
      ((perform h s c).2.1 = -errChannelEmpty ↔ c.isSend = false ∧ c.Passes h s.channel ∧
        (sent out).length - (received out).length = 0) ∧
      ((perform h s c).2.1 < 0 → SameRing s.channel (perform h s c).1.channel ∧
        (perform h s c).1.mem = s.mem)) ∧
    (DisjointBuffers h s₀.channel → (∀ c ∈ calls, Call.isSendPtr c = false) →
      receivedBodies out <+: sentBodies out) := by
  obtain ⟨ds, hs, hr⟩ := exec_fifo hu hf hrun
  have hcons : sent out = received out ++ ds.map (narrow u) := by
    simpa [sent, received] using Fifo.run_conserves hr
  have hlen : (sent out).length - (received out).length = ds.length := by
    rw [hcons, List.length_append, List.length_map, Nat.add_sub_cancel_left]
  rw [hlen, List.length_eq_zero_iff]
  refine ⟨⟨_, hcons.symm⟩, hs.length_le, fun c ↦ ?_, fun hdis hc ↦ exec_bodies hf hdis hc hrun⟩
  have hp := perform_cases (h := h) (s := s) c
  exact ⟨Performed.ret_full_iff hs hp, Performed.ret_empty_iff hs hp, Performed.same_of_failed hp⟩

theorem attachMsgRing_disjoint {ch : Channel} {base : BitVec u} {v : ℕ}
    (hsize : ch.bdRingSize.toInt = ch.bdRingSize.toNat)
    (hlin : ∀ i < ch.bdRingSize.toNat,
      h.p2vcb ((base + BitVec.ofNat u i * ch.maxMsgSize.setWidth u).setWidth 64) =
        v + i * ch.maxMsgSize.toNat) :
    DisjointBuffers h (ch.attachMsgRing base ch.maxMsgSize) := by
  intro i hi j hj hij
  have hi' : (i : ℤ) < ch.bdRingSize.toInt := hsize ▸ Int.ofNat_lt.2 hi
  have hj' : (j : ℤ) < ch.bdRingSize.toInt := hsize ▸ Int.ofNat_lt.2 hj
  simp only [Channel.attachMsgRing, if_pos hi', if_pos hj', hlin i hi, hlin j hj]
  unfold Memory.Disjoint
  rcases Nat.lt_or_gt_of_ne hij with hlt | hlt
  · left
    nlinarith [Nat.mul_le_mul_right ch.maxMsgSize.toNat (Nat.succ_le_of_lt hlt)]
  · right
    nlinarith [Nat.mul_le_mul_right ch.maxMsgSize.toNat (Nat.succ_le_of_lt hlt)]

/-- A ring of two one-byte messages at `0x1000`, its counters about to wrap, opened only by
its consumer. -/
def twoSlots : State where
  channel := Channel.attachMsgRing
    { producerInitialized := 0
      consumerInitialized := osHetInitialized
      producerNum := 0xFFFFFFFF
      consumerNum := 0xFFFFFFFF
      bdRingSize := 2
      maxMsgSize := 1
      localProducerNum := 0
      localConsumerNum := 0
      bd := fun _ ↦ ⟨0, 0⟩ } (0x1000 : BitVec 64) 1
  mem := fun _ ↦ 0

def identityHandle : Handle := ⟨0, 1, BitVec.toNat⟩

theorem channel_refinesFifo_twoSlots :
    ∃ (s : State) (out : List (Event 64)),
      Machine.exec (step identityHandle) twoSlots
        [.sendMsg true (fun _ ↦ 65) 1, .sendMsg true (fun _ ↦ 66) 1, .recvMsg true] =
          some (s, out) ∧
      received out <+: sent out ∧ (sent out).length - (received out).length ≤ 2 ∧
      receivedBodies out <+: sentBodies out := by
  obtain ⟨⟨s, out⟩, h⟩ : ∃ r, Machine.exec (step identityHandle) twoSlots
    [(.sendMsg true (fun _ ↦ 65) 1 : Call 64), .sendMsg true (fun _ ↦ 66) 1, .recvMsg true] =
      some r := ⟨_, rfl⟩
  obtain ⟨h₁, h₂, -, h₄⟩ := channel_refinesFifo (by decide) ⟨by decide, rfl, rfl, rfl⟩ h
  refine ⟨s, out, h, h₁, h₂, h₄ (attachMsgRing_disjoint (v := 0x1000) (by decide) (by decide)) ?_⟩
  intro c hc
  fin_cases hc <;> rfl

/-- A channel that its producer has not opened answers `recv_ptr` with another error than
`ERR_CHANNEL_EMPTY`, and two `send_ptr` calls with one address make later messages share a
buffer, so that the second body arrives in place of the first. -/
theorem channel_literal_fails :
    (perform identityHandle twoSlots (.recvPtr true : Call 64)).2.1 = -errProducerNotInit ∧
    ∃ (s : State) (out : List (Event 64)),
      Machine.exec (step identityHandle) twoSlots
        [.sendPtr true 0x1000 1, .sendPtr true 0x1000 1, .recvMsg true, .recvMsg true,
          .sendMsg true (fun _ ↦ 65) 1, .sendMsg true (fun _ ↦ 66) 1, .recvMsg true] =
            some (s, out) ∧
      sentBodies out = [[65], [66]] ∧ receivedBodies out = [[0], [0], [66]] :=
  ⟨by decide, _, _, rfl, by decide, by decide⟩

end Runs

end EnbL1Ppc.Ipc.ChannelFifo
