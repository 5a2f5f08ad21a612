import EnbL1Ppc.Ipc.Channel
import Mathlib.Tactic

namespace EnbL1Ppc.Ipc.ChannelCalls

open Lib Lib.Memory

variable {u : ℕ}

structure State where
  channel : Channel
  mem : Mem

inductive Call (u : ℕ)
  | sendPtr (locked : Bool) (addr : BitVec u) (len : BitVec 32)
  | sendMsg (locked : Bool) (src : ℕ → UInt8) (len : BitVec 32)
  | recvPtr (locked : Bool)
  | recvMsg (locked : Bool)

/-- The outcome of a call. A receive records the bytes behind its descriptor at that moment:
`recv_msg` copies them, `recv_ptr` only passes the pointer on. -/
inductive Event (u : ℕ)
  | sent (addr : BitVec u) (len : BitVec 32) (body : Option (List UInt8))
  | received (addr : BitVec u) (len : BitVec 32) (body : List UInt8)
  | failed (ret : ℤ)

def narrow (u : ℕ) (d : Bd) : BitVec u × BitVec 32 := (d.msgPtr.setWidth u, d.msgLen)

def content (h : Handle) (mem : Mem) (d : Bd) : List UInt8 :=
  read mem (h.p2vcb d.msgPtr) d.msgLen.toNat

def perform (h : Handle) (s : State) : Call u → State × ℤ × Event u
  | .sendPtr locked addr len =>
    let r := s.channel.sendPtr locked addr len
    (⟨r.1, s.mem⟩, r.2, if r.2 < 0 then .failed r.2 else .sent addr len none)
  | .sendMsg locked src len =>
    let r := s.channel.sendMsg h s.mem locked src len
    (⟨r.1, r.2.1⟩, r.2.2, if r.2.2 < 0 then .failed r.2.2 else
      .sent (s.channel.nextOut.msgPtr.setWidth u) len (some (bytes src len.toNat)))
  | .recvPtr locked =>
    let r := s.channel.recvPtr (u := u) h locked
    (⟨r.1, s.mem⟩, r.2.2, match r.2.1 with
      | none => .failed r.2.2
      | some d => .received d.1 d.2 (content h s.mem s.channel.nextIn))
  | .recvMsg locked =>
    let r := s.channel.recvMsg h s.mem locked
    (⟨r.1, s.mem⟩, r.2.2, match r.2.1 with
      | none => .failed r.2.2
      | some body =>
        .received (s.channel.nextIn.msgPtr.setWidth u) s.channel.nextIn.msgLen body)

def step (h : Handle) : Machine.Step State (Call u) (Event u) := fun s c ↦
  some ((perform h s c).1, [(perform h s c).2.2])

def Call.isSend : Call u → Bool
  | .sendPtr .. | .sendMsg .. => true
  | _ => false

def Call.Passes (h : Handle) (ch : Channel) : Call u → Prop
  | .sendPtr locked _ _ | .sendMsg locked _ _ =>
    ch.consumerInitialized = osHetInitialized ∧ locked = true
  | .recvPtr locked =>
    h.channelId < h.maxChannels ∧ ch.producerInitialized = osHetInitialized ∧ locked = true
  | .recvMsg locked => locked = true

structure SameRing (ch ch' : Channel) : Prop where
  producerNum : ch'.producerNum = ch.producerNum
  consumerNum : ch'.consumerNum = ch.consumerNum
  localProducerNum : ch'.localProducerNum = ch.localProducerNum
  localConsumerNum : ch'.localConsumerNum = ch.localConsumerNum
  bdRingSize : ch'.bdRingSize = ch.bdRingSize
  maxMsgSize : ch'.maxMsgSize = ch.maxMsgSize
  bd : ch'.bd = ch.bd

inductive Performed (h : Handle) (s : State) : Call u → State → ℤ → Event u → Prop
  | sendPtr (addr : BitVec u) (len : BitVec 32)
      (hpass : s.channel.consumerInitialized = osHetInitialized) (hroom : s.channel.full = false) :
      Performed h s (.sendPtr true addr len)
        ⟨s.channel.produce ⟨addr.setWidth 64, len⟩, s.mem⟩ 0 (.sent addr len none)
  | sendMsg (src : ℕ → UInt8) (len : BitVec 32) (ch : Channel) (hch : SameRing s.channel ch)
      (hpass : s.channel.consumerInitialized = osHetInitialized) (hroom : s.channel.full = false)
      (hlen : len ≤ s.channel.maxMsgSize) :
      Performed h s (.sendMsg true src len)
        ⟨ch.produce ⟨s.channel.nextOut.msgPtr, len⟩,
          write s.mem (h.p2vcb s.channel.nextOut.msgPtr) src len.toNat⟩ 0
        (.sent (s.channel.nextOut.msgPtr.setWidth u) len (some (bytes src len.toNat)))
  | receive (c : Call u) (hc : c.isSend = false) (hpass : c.Passes h s.channel)
      (hne : s.channel.empty = false) :
      Performed h s c ⟨s.channel.consume, s.mem⟩ 0
        (.received (s.channel.nextIn.msgPtr.setWidth u) s.channel.nextIn.msgLen
          (content h s.mem s.channel.nextIn))
  | full (c : Call u) (ch : Channel) (hch : SameRing s.channel ch) (hc : c.isSend = true)
      (hpass : c.Passes h s.channel) (hfull : s.channel.full = true) :
      Performed h s c ⟨ch, s.mem⟩ (-errChannelFull) (.failed (-errChannelFull))
  | empty (c : Call u) (hc : c.isSend = false) (hpass : c.Passes h s.channel)
      (hempty : s.channel.empty = true) :
      Performed h s c s (-errChannelEmpty) (.failed (-errChannelEmpty))
  | refused (c : Call u) (ch : Channel) (hch : SameRing s.channel ch) (ret : ℤ) (hret : ret < 0)
      (hfull : ret ≠ -errChannelFull) (hempty : ret ≠ -errChannelEmpty)
      (hwhy : c.Passes h s.channel → c.isSend = true ∧ s.channel.full = false) :
      Performed h s c ⟨ch, s.mem⟩ ret (.failed ret)

section Inversion

variable {h : Handle} {s : State}

theorem SameRing.refl (ch : Channel) : SameRing ch ch := ⟨rfl, rfl, rfl, rfl, rfl, rfl, rfl⟩

theorem SameRing.opened (ch : Channel) : SameRing ch ch.openProdCh :=
  ⟨rfl, rfl, rfl, rfl, rfl, rfl, rfl⟩

def Listed (h : Handle) (s : State) (c : Call u) : Prop :=
  Performed h s c (perform h s c).1 (perform h s c).2.1 (perform h s c).2.2

theorem Performed.listed {c : Call u} {s' : State} {ret : ℤ} {e : Event u}
    (hp : Performed h s c s' ret e) (he : perform h s c = (s', ret, e)) : Listed h s c := by
  rwa [Listed, he]

theorem sendPtr_listed (locked : Bool) (addr : BitVec u) (len : BitVec 32) :
    Listed h s (.sendPtr locked addr len) := by
  by_cases hinit : s.channel.consumerInitialized = osHetInitialized
  · cases locked with
    | false =>
      refine Performed.listed (.refused _ s.channel (.refl _) (-1) (by decide) (by decide) (by decide) ?_) ?_
      · simp [Call.Passes]
      · simp [perform, Channel.sendPtr, hinit, lockRet]
    | true =>
      cases hfull : s.channel.full with
      | true =>
        refine Performed.listed (.full _ s.channel (.refl _) rfl ⟨hinit, rfl⟩ hfull) ?_
        simp [perform, Channel.sendPtr, hinit, lockRet, hfull, errChannelFull, errSuccess]
      | false =>
        refine Performed.listed (.sendPtr addr len hinit hfull) ?_
        simp [perform, Channel.sendPtr, hinit, lockRet, hfull, errSuccess]
  · refine Performed.listed (.refused _ s.channel (.refl _) (-errConsumerNotInit) (by decide) (by decide)
      (by decide) ?_) ?_
    · simp [Call.Passes, hinit]
    · simp [perform, Channel.sendPtr, hinit, errConsumerNotInit]

theorem sendMsg_listed (locked : Bool) (src : ℕ → UInt8) (len : BitVec 32) :
    Listed h s (.sendMsg locked src len : Call u) := by
  have hopen := SameRing.opened s.channel
  by_cases hinit : s.channel.consumerInitialized = osHetInitialized
  · cases locked with
    | false =>
      refine Performed.listed (.refused _ _ hopen (-1) (by decide) (by decide) (by decide) ?_) ?_
      · simp [Call.Passes]
      · simp [perform, Channel.sendMsg, hinit, lockRet]
    | true =>
      cases hfull : s.channel.full with
      | true =>
        refine Performed.listed (.full _ _ hopen rfl ⟨hinit, rfl⟩ hfull) ?_
        simp [perform, Channel.sendMsg, hinit, lockRet, hfull, errChannelFull, errSuccess]
      | false =>
        by_cases hnull : h.p2vcb s.channel.nextOut.msgPtr = 0
        · refine Performed.listed (.refused _ _ hopen (-1) (by decide) (by decide) (by decide)
            fun _ ↦ ⟨rfl, hfull⟩) ?_
          simp [perform, Channel.sendMsg, hinit, lockRet, hfull, hnull, errSuccess]
        · by_cases hlen : len ≤ s.channel.maxMsgSize
          · refine Performed.listed (.sendMsg src len _ hopen hinit hfull hlen) ?_
            simp [perform, Channel.sendMsg, hinit, lockRet, hfull, hnull, hlen,
              errSuccess]
          · refine Performed.listed (.refused _ _ hopen (-errMaxMsgSizeExcd) (by decide) (by decide)
              (by decide) fun _ ↦ ⟨rfl, hfull⟩) ?_
            simp [perform, Channel.sendMsg, hinit, lockRet, hfull, hnull, hlen,
              errSuccess, errMaxMsgSizeExcd]
  · refine Performed.listed (.refused _ _ hopen (-errConsumerNotInit) (by decide) (by decide)
      (by decide) ?_) ?_
    · simp [Call.Passes, hinit]
    · simp [perform, Channel.sendMsg, hinit, errConsumerNotInit]

theorem recvPtr_listed (locked : Bool) : Listed h s (.recvPtr locked : Call u) := by
  by_cases hid : h.channelId ≥ h.maxChannels
  · refine Performed.listed (.refused _ _ (.refl _) (-errChannelNotFound) (by decide) (by decide)
      (by decide) ?_) ?_
    · intro hp
      exact absurd hp.1 (BitVec.not_lt.2 hid)
    · simp [perform, Channel.recvPtr, hid]
  · by_cases hinit : s.channel.producerInitialized = osHetInitialized
    · cases locked with
      | false =>
        refine Performed.listed (.refused _ _ (.refl _) (-1) (by decide) (by decide) (by decide) ?_) ?_
        · simp [Call.Passes]
        · simp [perform, Channel.recvPtr, hid, hinit, lockRet]
      | true =>
        have hpass : (Call.recvPtr true : Call u).Passes h s.channel := ⟨BitVec.not_le.1 hid, hinit, rfl⟩
        cases hempty : s.channel.empty with
        | true =>
          refine Performed.listed (.empty _ rfl hpass hempty) ?_
          simp [perform, Channel.recvPtr, hid, hinit, lockRet, hempty, errSuccess]
        | false =>
          refine Performed.listed (.receive _ rfl hpass hempty) ?_
          simp [perform, Channel.recvPtr, hid, hinit, lockRet, hempty, errSuccess]
    · refine Performed.listed (.refused _ _ (.refl _) (-errProducerNotInit) (by decide) (by decide)
        (by decide) ?_) ?_
      · simp [Call.Passes, hinit]
      · simp [perform, Channel.recvPtr, hid, hinit]

theorem recvMsg_listed (locked : Bool) : Listed h s (.recvMsg locked : Call u) := by
  cases locked with
  | false =>
    refine Performed.listed (.refused _ _ (.refl _) (-1) (by decide) (by decide) (by decide) ?_) ?_
    · simp [Call.Passes]
    · simp [perform, Channel.recvMsg, lockRet]
  | true =>
    cases hempty : s.channel.empty with
    | true =>
      refine Performed.listed (.empty _ rfl rfl hempty) ?_
      simp [perform, Channel.recvMsg, lockRet, hempty, errSuccess]
    | false =>
      refine Performed.listed (.receive _ rfl rfl hempty) ?_
      simp [perform, Channel.recvMsg, lockRet, hempty, errSuccess, content]

theorem perform_cases (c : Call u) : Listed h s c := by
  cases c with
  | sendPtr locked addr len => exact sendPtr_listed locked addr len
  | sendMsg locked src len => exact sendMsg_listed locked src len
  | recvPtr locked => exact recvPtr_listed locked
  | recvMsg locked => exact recvMsg_listed locked

theorem sendMsg_cases (h : Handle) (ch : Channel) (mem : Mem) (locked : Bool) (src : ℕ → UInt8)
    (len : BitVec 32) :
    (∃ ch', SameRing ch ch' ∧ ch.full = false ∧ len ≤ ch.maxMsgSize ∧
      ch.sendMsg h mem locked src len = (ch'.produce ⟨ch.nextOut.msgPtr, len⟩,
        write mem (h.p2vcb ch.nextOut.msgPtr) src len.toNat, 0)) ∨
    ∃ ch' ret, SameRing ch ch' ∧ ret < 0 ∧ ch.sendMsg h mem locked src len = (ch', mem, ret) := by
  have hp := sendMsg_listed (u := 64) (h := h) (s := ⟨ch, mem⟩) locked src len
  simp only [Listed, perform] at hp
  generalize ch.sendMsg h mem locked src len = r at hp ⊢
  obtain ⟨ch', mem', ret⟩ := r
  generalize (if ret < 0 then Event.failed ret else
    .sent (ch.nextOut.msgPtr.setWidth 64) len (some (bytes src len.toNat))) = e at hp
  cases hp with
  | sendMsg _ _ ch₁ hch hpass hroom hlen => exact .inl ⟨ch₁, hch, hroom, hlen, rfl⟩
  | receive _ hc => simp [Call.isSend] at hc
  | full _ _ hch => exact .inr ⟨ch', _, hch, by decide, rfl⟩
  | empty _ hc => simp [Call.isSend] at hc
  | refused _ _ hch _ hret => exact .inr ⟨ch', ret, hch, hret, rfl⟩

end Inversion

end EnbL1Ppc.Ipc.ChannelCalls
