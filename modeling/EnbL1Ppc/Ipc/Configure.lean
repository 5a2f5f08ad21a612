import EnbL1Ppc.Ipc.ChannelCalls

namespace EnbL1Ppc.Ipc

open Lib Lib.Memory

def errInvalidDepth : ℤ := 9
def errCalloc : ℤ := 13

def maxChannels : ℕ := 64

inductive ChType
  | msgCh
  | ptrCh
  | txreqCh
  deriving DecidableEq

/-- The arguments the two configure functions have in common; `u` is the width of
`unsigned long`. -/
structure Config (u : ℕ) where
  depth : BitVec 32
  channelType : ChType
  msgRingPaddr : BitVec u
  msgSize : BitVec 32

namespace Channel

variable {u : ℕ}

def Configured (ch : Channel) : Prop := ch.consumerInitialized = osHetInitialized

instance (ch : Channel) : Decidable ch.Configured := inferInstanceAs (Decidable (_ = _))

/-- The part of the configure functions for a channel that is not configured yet, `none` standing
for `ERR_INVALID_DEPTH`. The size compared with the maximum is the one the channel had before. -/
def setRing (maxDepth : BitVec 32) (p : Config u) (ch : Channel) : Option Channel :=
  if ch.Configured then some ch
  else if ch.bdRingSize ≤ maxDepth then
    let ch := { ch with bdRingSize := p.depth }
    match p.channelType with
    | .msgCh => some { ch.attachMsgRing p.msgRingPaddr p.msgSize with maxMsgSize := p.msgSize }
    | .ptrCh | .txreqCh => some ch
  else none

/-- What the two configure functions do with the channel and `num_channels`, and what they return;
`finished` says whether the signal part of the second comes to its end. There is no result if the
new entry is written behind the end of `ipc_priv->channels`. -/
def configure (maxDepth : BitVec 32) (num : ℕ) (ch : Channel) (locked allocated finished : Bool)
    (p : Config u) : Option (Channel × ℕ × ℤ) :=
  if lockRet locked < 0 then some (ch, num, lockRet locked)
  else match ch.setRing maxDepth p with
    | none => some (ch, num, -errInvalidDepth)
    | some ch =>
      if !allocated then some (ch, num, -errCalloc)
      else if maxChannels ≤ num then none
      else if !finished then some (ch, num + 1, lockRet locked)
      else some ({ ch with consumerInitialized := osHetInitialized }, num + 1, lockRet locked)

def configureChannel (maxDepth : BitVec 32) (num : ℕ) (ch : Channel) (locked allocated : Bool)
    (p : Config u) : Option (Channel × ℕ × ℤ) :=
  ch.configure maxDepth num locked allocated true p

/-- `fsl_ipc_configure_channel_int`: `cb` says whether there is a callback, `signal` is the free
real-time signal found for it and `res` the answer of the `ioctl` that registers it. A call that
stops there returns success. -/
def configureChannelInt (maxDepth : BitVec 32) (num : ℕ) (ch : Channel)
    (locked allocated cb : Bool) (signal : BitVec 32) (res : ℤ) (p : Config u) :
    Option (Channel × ℕ × ℤ) :=
  ch.configure maxDepth num locked allocated (!(cb && signal == 0) && res == 0) p

end Channel

namespace Configure

open ChannelCalls (Call State)

variable {n u : ℕ}

inductive Op (u : ℕ)
  | configureChannel (locked allocated : Bool) (p : Config u)
  | configureChannelInt (locked allocated cb : Bool) (signal : BitVec 32) (res : ℤ) (p : Config u)
  | call (k : Call u)

def Op.sets (maxDepth : BitVec 32) (ch : Channel) : Op u → Option (Config u × Bool)
  | .configureChannel locked allocated p =>
    if locked ∧ ¬ch.Configured ∧ ch.bdRingSize ≤ maxDepth then some (p, allocated) else none
  | .configureChannelInt locked allocated cb signal res p =>
    if locked ∧ ¬ch.Configured ∧ ch.bdRingSize ≤ maxDepth then
      some (p, allocated && (!(cb && signal == 0) && res == 0))
    else none
  | .call _ => none

/-- A call comes to the new entry of `ipc_priv->channels`. -/
def Op.appends (maxDepth : BitVec 32) (ch : Channel) : Op u → Prop
  | .configureChannel locked allocated _ | .configureChannelInt locked allocated _ _ _ _ =>
    locked = true ∧ allocated = true ∧ (ch.Configured ∨ ch.bdRingSize ≤ maxDepth)
  | .call _ => False

def attached (p : Config u) : List ℕ :=
  if p.channelType = .msgCh then List.range p.depth.toInt.toNat else []

/-- The state and `num_channels` after a call on a channel. -/
def Op.perform (maxDepth : BitVec 32) (num : ℕ) (h : Handle) (s : State) :
    Op u → Option (State × ℕ)
  | .configureChannel locked allocated p =>
    (s.channel.configureChannel maxDepth num locked allocated p).map fun r ↦
      (⟨r.1, s.mem⟩, r.2.1)
  | .configureChannelInt locked allocated cb signal res p =>
    (s.channel.configureChannelInt maxDepth num locked allocated cb signal res p).map fun r ↦
      (⟨r.1, s.mem⟩, r.2.1)
  | .call k => some ((ChannelCalls.perform h s k).1, num)

def Op.written (maxDepth : BitVec 32) (h : Handle) (s : State) (o : Op u) : List ℕ :=
  match o with
  | .call k =>
    if k.isSend ∧ 0 ≤ (ChannelCalls.perform h s k).2.1 then [s.channel.localProducerNum.toNat]
    else []
  | _ => ((o.sets maxDepth s.channel).map fun q ↦ attached q.1).getD []

/-- Where the rings of `n` channels may lie, counted in descriptors: the areas that begin at
`bdBase` do not overlap. -/
structure Areas (n : ℕ) where
  maxDepth : BitVec 32
  bdBase : Fin n → ℕ
  apart : ∀ c c', c ≠ c' →
    bdBase c + maxDepth.toNat ≤ bdBase c' ∨ bdBase c' + maxDepth.toNat ≤ bdBase c

def Areas.Area (a : Areas n) (c : Fin n) (x : ℕ) : Prop :=
  a.bdBase c ≤ x ∧ x < a.bdBase c + a.maxDepth.toNat

instance (a : Areas n) (c : Fin n) (x : ℕ) : Decidable (a.Area c x) :=
  inferInstanceAs (Decidable (_ ∧ _))

/-- The channels share one memory of descriptors; the field `bd` of `channels` is not used. -/
structure Shared (n : ℕ) where
  channels : Fin n → Channel
  bds : ℕ → Bd
  mem : Mem
  numChannels : ℕ

/-- The channel with the descriptors found from its `bd_base` on. -/
def Shared.view (a : Areas n) (s : Shared n) (c : Fin n) : State :=
  ⟨{ s.channels c with bd := fun i ↦ s.bds (a.bdBase c + i) }, s.mem⟩

def Shared.put (a : Areas n) (s : Shared n) (c : Fin n) (t : State) (num : ℕ) : Shared n where
  channels := Function.update s.channels c t.channel
  bds x := if a.bdBase c ≤ x then t.channel.bd (x - a.bdBase c) else s.bds x
  mem := t.mem
  numChannels := num

def handle (p2vcb : BitVec 64 → ℕ) (c : Fin n) : Handle where
  channelId := BitVec.ofNat 32 c
  maxChannels := BitVec.ofNat 32 n
  p2vcb

/-- One call on one of the channels, refused if it writes behind `ipc_priv->channels`. The outputs
are the descriptors written, each with the channel that the call was made on. -/
def step (a : Areas n) (p2vcb : BitVec 64 → ℕ) :
    Machine.Step (Shared n) (Fin n × Op u) (Fin n × ℕ) := fun s i ↦
  let t := s.view a i.1
  let h := handle p2vcb i.1
  (i.2.perform a.maxDepth s.numChannels h t).map fun r ↦
    (s.put a i.1 r.1 r.2, (i.2.written a.maxDepth h t).map fun k ↦ (i.1, a.bdBase i.1 + k))

/-- What a call can do to its channel, as far as the size of the ring and the place of the next
send are concerned, and the descriptors it then writes. -/
inductive Effect (maxDepth : BitVec 32) (ch ch' : Channel) : Option (Config u × Bool) → List ℕ → Prop
  | kept (hinit : ch'.Configured ↔ ch.Configured) (hsize : ch'.bdRingSize = ch.bdRingSize)
      (hnext : ch'.localProducerNum = ch.localProducerNum) : Effect maxDepth ch ch' none []
  | sent (hcon : ch.Configured) (hinit : ch'.Configured) (hsize : ch'.bdRingSize = ch.bdRingSize)
      (hnext : ch'.localProducerNum = (ch.localProducerNum + 1) % ch.bdRingSize) :
      Effect maxDepth ch ch' none [ch.localProducerNum.toNat]
  | sized (p : Config u) (done : Bool) (hcon : ¬ch.Configured) (hinit : ch'.Configured ↔ done = true)
      (hsize : ch'.bdRingSize = p.depth) (hnext : ch'.localProducerNum = ch.localProducerNum) :
      Effect maxDepth ch ch' (some (p, done)) (attached p)

section Effects

variable {maxDepth : BitVec 32} {num : ℕ} {h : Handle} {s : State}

theorem call_configured (k : Call u) :
    (ChannelCalls.perform h s k).1.channel.consumerInitialized = s.channel.consumerInitialized := by
  cases k with
  | sendPtr locked addr len =>
    simp only [ChannelCalls.perform, Channel.sendPtr]
    split_ifs <;> rfl
  | sendMsg locked src len =>
    simp only [ChannelCalls.perform, Channel.sendMsg]
    split_ifs <;> rfl
  | recvPtr locked =>
    simp only [ChannelCalls.perform, Channel.recvPtr]
    split_ifs <;> rfl
  | recvMsg locked =>
    simp only [ChannelCalls.perform, Channel.recvMsg]
    split_ifs <;> rfl

theorem call_effect (k : Call u) :
    Effect maxDepth s.channel (ChannelCalls.perform h s k).1.channel
      ((Op.call k).sets maxDepth s.channel) ((Op.call k).written maxDepth h s) := by
  have hinit : (ChannelCalls.perform h s k).1.channel.Configured ↔ s.channel.Configured := by
    rw [Channel.Configured, call_configured, Channel.Configured]
  have hp := ChannelCalls.perform_cases (h := h) (s := s) k
  simp only [Op.sets, Op.written]
  rw [ChannelCalls.Listed] at hp
  generalize ChannelCalls.perform h s k = r at hinit hp ⊢
  obtain ⟨s', ret, e⟩ := r
  dsimp only at hinit hp ⊢
  cases hp with
  | sendPtr addr len hpass hroom =>
    exact .sent hpass (hinit.2 hpass) rfl rfl
  | sendMsg src len ch hch hpass hroom hlen =>
    refine .sent hpass (hinit.2 hpass) hch.bdRingSize ?_
    simp only [Channel.produce, hch.localProducerNum, hch.bdRingSize]
  | receive _ hc =>
    rw [if_neg (by simp [hc])]
    exact .kept hinit rfl rfl
  | full _ ch hch =>
    rw [if_neg fun hk ↦ absurd hk.2 (by decide)]
    exact .kept hinit hch.bdRingSize hch.localProducerNum
  | empty _ hc =>
    rw [if_neg (by simp [hc])]
    exact .kept hinit rfl rfl
  | refused _ ch hch ret hret =>
    rw [if_neg (by omega)]
    exact .kept hinit hch.bdRingSize hch.localProducerNum

theorem setRing_eq_some {ch ch' : Channel} {p : Config u} (hcon : ¬ch.Configured)
    (hle : ch.bdRingSize ≤ maxDepth) (hr : ch.setRing maxDepth p = some ch') :
    ¬ch'.Configured ∧ ch'.bdRingSize = p.depth ∧ ch'.localProducerNum = ch.localProducerNum := by
  rw [Channel.setRing, if_neg hcon, if_pos hle] at hr
  cases hty : p.channelType with
  | msgCh =>
    simp only [hty, Option.some.injEq] at hr
    subst hr
    exact ⟨hcon, rfl, rfl⟩
  | ptrCh | txreqCh =>
    simp only [hty, Option.some.injEq] at hr
    subst hr
    exact ⟨hcon, rfl, rfl⟩

theorem setRing_isSome {ch : Channel} {p : Config u} (hle : ch.bdRingSize ≤ maxDepth) :
    (ch.setRing maxDepth p).isSome := by
  rw [Channel.setRing]
  split_ifs
  · rfl
  · cases p.channelType <;> rfl

theorem setRing_eq_none_iff {ch : Channel} {p : Config u} :
    ch.setRing maxDepth p = none ↔ ¬(ch.Configured ∨ ch.bdRingSize ≤ maxDepth) := by
  by_cases hcon : ch.Configured
  · simp [Channel.setRing, hcon]
  · by_cases hle : ch.bdRingSize ≤ maxDepth
    · simpa [hle] using Option.isSome_iff_ne_none.1 (setRing_isSome (p := p) hle)
    · simp [Channel.setRing, hcon, hle]

theorem exists_configure_iff {ch : Channel} {locked allocated finished : Bool} {p : Config u} :
    (∃ r, ch.configure maxDepth num locked allocated finished p = some r) ↔
      (locked = true ∧ allocated = true ∧ (ch.Configured ∨ ch.bdRingSize ≤ maxDepth) →
        num < maxChannels) := by
  cases locked with
  | false => exact iff_of_true ⟨_, rfl⟩ fun h ↦ by cases h.1
  | true =>
    simp only [Channel.configure, show ¬lockRet true < 0 by decide, if_false]
    cases hset : ch.setRing maxDepth p with
    | none => exact iff_of_true ⟨_, rfl⟩ fun h ↦ absurd h.2.2 (setRing_eq_none_iff.1 hset)
    | some ch' =>
      have henter : ch.Configured ∨ ch.bdRingSize ≤ maxDepth := by
        by_contra hnot
        rw [setRing_eq_none_iff.2 hnot] at hset
        cases hset
      cases allocated with
      | false => exact iff_of_true ⟨_, rfl⟩ fun h ↦ by cases h.2.1
      | true =>
        rcases Nat.lt_or_ge num maxChannels with hlt | hge
        · have hnum := Nat.not_le_of_lt hlt
          cases finished <;> simp [hnum, hlt]
        · simp [hge, henter]

/-- The size of the ring, the place of the next send and the descriptors after a call that takes
the lock. -/
theorem configure_locked {ch : Channel} {allocated finished : Bool} {p : Config u}
    {r : Channel × ℕ × ℤ} (hr : ch.configure maxDepth num true allocated finished p = some r) :
    ch.setRing maxDepth p = none ∧ r.1 = ch ∨
      ∃ ch', ch.setRing maxDepth p = some ch' ∧
        r.1 = if allocated && finished then { ch' with consumerInitialized := osHetInitialized }
          else ch' := by
  simp only [Channel.configure, show ¬lockRet true < 0 by decide, if_false] at hr
  cases hset : ch.setRing maxDepth p with
  | none =>
    rw [hset] at hr
    exact .inl ⟨rfl, Option.some.inj hr ▸ rfl⟩
  | some ch' =>
    rw [hset] at hr
    refine .inr ⟨ch', rfl, ?_⟩
    cases allocated with
    | false => exact Option.some.inj hr ▸ rfl
    | true =>
      simp only [Bool.not_true, Bool.false_eq_true, if_false] at hr
      split_ifs at hr with hnum hfin
      · rw [show finished = false by simpa using hfin]
        exact Option.some.inj hr ▸ rfl
      · rw [show finished = true by simpa using hfin]
        exact Option.some.inj hr ▸ rfl

theorem configure_effect {ch : Channel} {locked allocated finished : Bool} {p : Config u}
    {r : Channel × ℕ × ℤ} (hr : ch.configure maxDepth num locked allocated finished p = some r) :
    Effect maxDepth ch r.1
      (if locked ∧ ¬ch.Configured ∧ ch.bdRingSize ≤ maxDepth then some (p, allocated && finished)
        else none)
      (if locked ∧ ¬ch.Configured ∧ ch.bdRingSize ≤ maxDepth then attached p else []) := by
  cases locked with
  | false => exact Option.some.inj hr ▸ .kept .rfl rfl rfl
  | true =>
    rcases configure_locked hr with ⟨hset, hch⟩ | ⟨ch', hset, hch⟩
    · have hnot := setRing_eq_none_iff.1 hset
      rw [if_neg fun h ↦ hnot (.inr h.2.2), if_neg fun h ↦ hnot (.inr h.2.2), hch]
      exact .kept .rfl rfl rfl
    · by_cases hcon : ch.Configured
      · obtain rfl : ch = ch' := by simpa [Channel.setRing, hcon] using hset
        rw [if_neg fun h ↦ h.2.1 hcon, if_neg fun h ↦ h.2.1 hcon, hch]
        split_ifs
        · exact .kept ⟨fun _ ↦ hcon, fun _ ↦ rfl⟩ rfl rfl
        · exact .kept .rfl rfl rfl
      · have hle : ch.bdRingSize ≤ maxDepth := by
          by_contra hle
          simp [Channel.setRing, hcon, hle] at hset
        obtain ⟨hcon', hsize, hnext⟩ := setRing_eq_some hcon hle hset
        rw [if_pos ⟨rfl, hcon, hle⟩, if_pos ⟨rfl, hcon, hle⟩, hch]
        split_ifs with hdone
        · exact .sized p _ hcon (by simp [Channel.Configured, hdone]) hsize hnext
        · exact .sized p _ hcon (by simpa [hdone] using hcon') hsize hnext

theorem perform_effect {o : Op u} {r : State × ℕ} (hr : o.perform maxDepth num h s = some r) :
    Effect maxDepth s.channel r.1.channel (o.sets maxDepth s.channel)
      (o.written maxDepth h s) := by
  cases o with
  | configureChannel locked allocated p =>
    obtain ⟨q, hq, rfl⟩ := Option.map_eq_some_iff.1 hr
    have he := configure_effect hq
    rw [Bool.and_true] at he
    simp only [Op.sets, Op.written]
    split_ifs at he ⊢ <;> exact he
  | configureChannelInt locked allocated cb signal res p =>
    obtain ⟨q, hq, rfl⟩ := Option.map_eq_some_iff.1 hr
    have he := configure_effect hq
    simp only [Op.sets, Op.written]
    split_ifs at he ⊢ <;> exact he
  | call k => exact Option.some.inj hr ▸ call_effect k

theorem exists_perform_iff (o : Op u) :
    (∃ r, o.perform maxDepth num h s = some r) ↔
      (o.appends maxDepth s.channel → num < maxChannels) := by
  cases o with
  | configureChannel locked allocated p =>
    rw [← Option.isSome_iff_exists, Op.perform, Option.isSome_map, Option.isSome_iff_exists]
    exact exists_configure_iff
  | configureChannelInt locked allocated cb signal res p =>
    rw [← Option.isSome_iff_exists, Op.perform, Option.isSome_map, Option.isSome_iff_exists]
    exact exists_configure_iff
  | call k => exact iff_of_true ⟨_, rfl⟩ False.elim

theorem setRing_bd {ch ch' : Channel} {p : Config u} (hr : ch.setRing maxDepth p = some ch') {k : ℕ}
    (hk : ¬ch.Configured → k ∉ attached p) : ch'.bd k = ch.bd k := by
  rw [Channel.setRing] at hr
  split_ifs at hr with hcon hle
  · cases hr
    rfl
  · replace hk := hk hcon
    cases hty : p.channelType with
    | msgCh =>
      simp only [attached, hty, if_true, List.mem_range] at hk
      simp only [hty, Option.some.injEq] at hr
      subst hr
      exact if_neg fun (hlt : (k : ℤ) < p.depth.toInt) ↦ hk (by omega)
    | ptrCh | txreqCh =>
      simp only [hty, Option.some.injEq] at hr
      subst hr
      rfl

theorem configure_bd {ch : Channel} {locked allocated finished : Bool} {p : Config u}
    {r : Channel × ℕ × ℤ} (hr : ch.configure maxDepth num locked allocated finished p = some r)
    {k : ℕ} (hk : locked = true → ¬ch.Configured → ch.bdRingSize ≤ maxDepth → k ∉ attached p) :
    r.1.bd k = ch.bd k := by
  cases locked with
  | false => exact Option.some.inj hr ▸ rfl
  | true =>
    rcases configure_locked hr with ⟨-, hch⟩ | ⟨ch', hset, hch⟩
    · rw [hch]
    · have hbd : ch'.bd k = ch.bd k := by
        refine setRing_bd hset fun hcon ↦ hk rfl hcon ?_
        by_contra hle
        simp [Channel.setRing, hcon, hle] at hset
      rw [hch]
      split_ifs <;> exact hbd

theorem perform_bd {o : Op u} {r : State × ℕ} (hr : o.perform maxDepth num h s = some r) {k : ℕ}
    (hk : k ∉ o.written maxDepth h s) : r.1.channel.bd k = s.channel.bd k := by
  cases o with
  | configureChannel locked allocated p =>
    obtain ⟨q, hq, rfl⟩ := Option.map_eq_some_iff.1 hr
    refine configure_bd hq fun hl hcon hle ↦ ?_
    simpa [Op.written, Op.sets, hl, hcon, hle] using hk
  | configureChannelInt locked allocated cb signal res p =>
    obtain ⟨q, hq, rfl⟩ := Option.map_eq_some_iff.1 hr
    refine configure_bd hq fun hl hcon hle ↦ ?_
    simpa [Op.written, Op.sets, hl, hcon, hle] using hk
  | call c =>
    obtain rfl := Option.some.inj hr
    have hp := ChannelCalls.perform_cases (h := h) (s := s) c
    simp only [Op.written] at hk
    rw [ChannelCalls.Listed] at hp
    generalize ChannelCalls.perform h s c = q at hp hk ⊢
    obtain ⟨s', ret, e⟩ := q
    dsimp only at hp hk ⊢
    cases hp with
    | sendPtr addr len hpass hroom =>
      exact Function.update_of_ne (by simpa [ChannelCalls.Call.isSend] using hk) ..
    | sendMsg src len ch hch hpass hroom hlen =>
      simp only [Channel.produce, hch.localProducerNum, hch.bd]
      exact Function.update_of_ne (by simpa [ChannelCalls.Call.isSend] using hk) ..
    | receive _ hc => rfl
    | full _ ch hch => exact congrFun hch.bd k
    | empty _ hc => rfl
    | refused _ ch hch ret hret => exact congrFun hch.bd k

end Effects

theorem Areas.Area.unique {a : Areas n} {c c' : Fin n} {x : ℕ} (h : a.Area c x) (h' : a.Area c' x) :
    c = c' := by
  by_contra hne
  obtain ⟨h₁, h₂⟩ := h
  obtain ⟨h₃, h₄⟩ := h'
  rcases a.apart c c' hne with hle | hle <;> omega

/-- The next send goes to the first descriptor as long as the channel is not configured, and into
the ring afterwards. -/
structure NextInRing (ch : Channel) : Prop where
  unused : ¬ch.Configured → ch.localProducerNum = 0
  lt : ch.Configured → ch.bdRingSize ≠ 0 → ch.localProducerNum < ch.bdRingSize

theorem Effect.nextInRing {maxDepth : BitVec 32} {ch ch' : Channel} {q : Option (Config u × Bool)}
    {ks : List ℕ} (he : Effect maxDepth ch ch' q ks) (h : NextInRing ch) : NextInRing ch' := by
  cases he with
  | kept hinit hsize hnext =>
    refine ⟨fun hc ↦ hnext.trans (h.unused fun hc' ↦ hc (hinit.2 hc')), fun hc hne ↦ ?_⟩
    rw [hnext, hsize]
    exact h.lt (hinit.1 hc) (hsize ▸ hne)
  | sent hcon hinit hsize hnext =>
    refine ⟨fun hc ↦ absurd hinit hc, fun _ hne ↦ ?_⟩
    rw [hnext, hsize]
    rw [hsize] at hne
    exact BitVec.umod_lt _ (by bv_omega)
  | sized p done hcon hinit hsize hnext =>
    have hzero : ch'.localProducerNum = 0 := hnext.trans (h.unused hcon)
    refine ⟨fun _ ↦ hzero, fun _ hne ↦ ?_⟩
    rw [hzero]
    bv_omega

/-- Every configured channel has between one and `max_depth` descriptors, and no call wrote a
descriptor in the area of another channel. -/
def Separate (a : Areas n) (s : Shared n × List (Fin n × ℕ)) : Prop :=
  (∀ c, (s.1.channels c).Configured →
    1 ≤ (s.1.channels c).bdRingSize ∧ (s.1.channels c).bdRingSize ≤ a.maxDepth) ∧
  ∀ w ∈ s.2, ∀ c, c ≠ w.1 → ¬a.Area c w.2

/-- A call that gives its channel a new ring asks for at most `max_depth` descriptors, and for at
least one. If it does not end with the channel configured, it only has to leave the other areas
alone. -/
def DepthFits (a : Areas n) (s : Shared n × List (Fin n × ℕ)) (i : Fin n × Op u) : Prop :=
  ∀ p done, i.2.sets a.maxDepth (s.1.view a i.1).channel = some (p, done) →
    (done = true → 1 ≤ p.depth ∧ p.depth ≤ a.maxDepth) ∧
    ∀ k ∈ attached p, ∀ c, c ≠ i.1 → ¬a.Area c (a.bdBase i.1 + k)

/-- The call is allowed: its depth fits, and it finds a free entry of `ipc_priv->channels`. -/
structure Fits (a : Areas n) (s : Shared n × List (Fin n × ℕ)) (i : Fin n × Op u) : Prop where
  depth : DepthFits a s i
  entry : i.2.appends a.maxDepth (s.1.view a i.1).channel → s.1.numChannels < maxChannels

structure Start (a : Areas n) (s : Shared n) : Prop where
  bdRingSize_le : ∀ c, (s.channels c).bdRingSize ≤ a.maxDepth
  unused : ∀ c, ¬(s.channels c).Configured → (s.channels c).localProducerNum = 0
  open_lt : ∀ c, (s.channels c).Configured →
    (s.channels c).localProducerNum < (s.channels c).bdRingSize

section Runs

variable {a : Areas n} {p2vcb : BitVec 64 → ℕ}

@[simp] theorem put_self (s : Shared n) (c : Fin n) (t : State) (num : ℕ) :
    (s.put a c t num).channels c = t.channel := Function.update_self ..

theorem put_other (s : Shared n) {c d : Fin n} (hd : d ≠ c) (t : State) (num : ℕ) :
    (s.put a c t num).channels d = s.channels d := Function.update_of_ne hd ..

theorem step_cases {s s' : Shared n} {i : Fin n × Op u} {o : List (Fin n × ℕ)}
    (hs : step a p2vcb s i = some (s', o)) :
    (∀ d, d ≠ i.1 → s'.channels d = s.channels d) ∧ ∃ ks,
      o = ks.map (fun k ↦ (i.1, a.bdBase i.1 + k)) ∧
      Effect a.maxDepth (s.view a i.1).channel (s'.channels i.1)
        (i.2.sets a.maxDepth (s.view a i.1).channel) ks := by
  obtain ⟨r, hr, hs⟩ := Option.map_eq_some_iff.1 hs
  obtain ⟨rfl, rfl⟩ := Prod.mk.inj hs
  refine ⟨fun d hd ↦ put_other s hd _ _, _, rfl, ?_⟩
  rw [put_self]
  exact perform_effect hr

theorem nextInRing_step {s s' : Shared n} {i : Fin n × Op u} {o : List (Fin n × ℕ)}
    (h : ∀ c, NextInRing (s.channels c)) (hs : step a p2vcb s i = some (s', o)) (c : Fin n) :
    NextInRing (s'.channels c) := by
  obtain ⟨hother, ks, -, he⟩ := step_cases hs
  by_cases hc : c = i.1
  · subst hc
    exact he.nextInRing ⟨(h _).unused, (h _).lt⟩
  · exact hother c hc ▸ h c

theorem Areas.area_of_lt {c : Fin n} {k : ℕ} (hk : k < a.maxDepth.toNat) :
    a.Area c (a.bdBase c + k) := ⟨Nat.le_add_right .., Nat.add_lt_add_left hk _⟩

theorem separate_step_iff {s s' : Shared n × List (Fin n × ℕ)} {i : Fin n × Op u}
    {o : List (Fin n × ℕ)} (hnext : ∀ c, NextInRing (s.1.channels c)) (hp : Separate a s)
    (hs : Machine.recorded (step a p2vcb) s i = some (s', o)) :
    Separate a s' ↔ DepthFits a s i := by
  obtain ⟨hs, hout⟩ := Machine.recorded_eq_some.1 hs
  obtain ⟨hother, ks, rfl, he⟩ := step_cases hs
  have hwrites : (∀ w ∈ s'.2, ∀ c, c ≠ w.1 → ¬a.Area c w.2) ↔
      ∀ k ∈ ks, ∀ c, c ≠ i.1 → ¬a.Area c (a.bdBase i.1 + k) := by
    simp only [hout, List.mem_append, List.mem_map]
    constructor
    · intro h k hk
      exact h _ (.inr ⟨k, hk, rfl⟩)
    · rintro h w (hw | ⟨k, hk, rfl⟩)
      · exact hp.2 w hw
      · exact h k hk
  have hsizes : (∀ c, (s'.1.channels c).Configured →
        1 ≤ (s'.1.channels c).bdRingSize ∧ (s'.1.channels c).bdRingSize ≤ a.maxDepth) ↔
      ((s'.1.channels i.1).Configured →
        1 ≤ (s'.1.channels i.1).bdRingSize ∧ (s'.1.channels i.1).bdRingSize ≤ a.maxDepth) := by
    refine ⟨fun h ↦ h i.1, fun h c ↦ ?_⟩
    by_cases hc : c = i.1
    · exact hc ▸ h
    · exact hother c hc ▸ hp.1 c
  rw [Separate, hsizes, hwrites, DepthFits]
  generalize i.2.sets a.maxDepth (s.1.view a i.1).channel = q at he
  cases he with
  | kept hinit hsize _ =>
    simp only [reduceCtorEq, IsEmpty.forall_iff, implies_true, iff_true, List.not_mem_nil, and_true]
    intro hc
    rw [hsize]
    exact hp.1 i.1 (hinit.1 hc)
  | sent hcon hinit hsize _ =>
    have hfit := hp.1 i.1 hcon
    have hlt := (hnext i.1).lt hcon (by bv_omega)
    simp only [reduceCtorEq, IsEmpty.forall_iff, implies_true, iff_true, List.mem_singleton]
    refine ⟨fun _ ↦ by rw [hsize]; exact hfit, ?_⟩
    rintro k rfl c hc harea
    refine hc (harea.unique (Areas.area_of_lt ?_))
    exact lt_of_lt_of_le (BitVec.lt_def.1 hlt) (BitVec.le_def.1 hfit.2)
  | sized p done hcon hinit hsize _ =>
    rw [hinit, hsize]
    constructor
    · rintro h _ _ ⟨⟩
      exact h
    · intro h
      exact h p done rfl

theorem step_bds {s s' : Shared n} {i : Fin n × Op u} {o : List (Fin n × ℕ)}
    (hs : step a p2vcb s i = some (s', o)) {x : ℕ} (hx : (i.1, x) ∉ o) : s'.bds x = s.bds x := by
  obtain ⟨r, hr, hs⟩ := Option.map_eq_some_iff.1 hs
  obtain ⟨rfl, rfl⟩ := Prod.mk.inj hs
  simp only [Shared.put]
  split_ifs with hle
  · have hk : x - a.bdBase i.1 ∉ i.2.written a.maxDepth (handle p2vcb i.1) (s.view a i.1) := by
      intro hk
      refine hx (List.mem_map.2 ⟨_, hk, ?_⟩)
      rw [Nat.add_sub_cancel' hle]
    rw [perform_bd hr hk]
    simp only [Shared.view, Nat.add_sub_cancel' hle]
  · rfl

/-- A descriptor that no call of a run has written is unchanged. -/
theorem exec_bds {s s' : Shared n} {is : List (Fin n × Op u)} {out : List (Fin n × ℕ)}
    (h : Machine.exec (step a p2vcb) s is = some (s', out)) {x : ℕ} (hx : ∀ c, (c, x) ∉ out) :
    s'.bds x = s.bds x := by
  refine Machine.exec_history (g := fun _ _ ↦ True)
    (R := fun out t ↦ (∀ c, (c, x) ∉ out) → t.bds x = s.bds x) ?_ [] (fun _ ↦ rfl)
    (.of_forall (fun _ _ _ ↦ trivial) s) h hx
  intro out t i t' o hR _ hstep hx
  rw [step_bds hstep fun hmem ↦ hx i.1 (List.mem_append_right _ hmem)]
  exact hR fun c hmem ↦ hx c (List.mem_append_left _ hmem)

theorem fits_iff {s : Shared n × List (Fin n × ℕ)} {i : Fin n × Op u}
    (hnext : ∀ c, NextInRing (s.1.channels c)) (hp : Separate a s) :
    (∃ r, Machine.recorded (step a p2vcb) s i = some r ∧ Separate a r.1) ↔ Fits a s i := by
  constructor
  · rintro ⟨⟨s', o⟩, hs, hsep⟩
    obtain ⟨r, hr, -⟩ := Option.map_eq_some_iff.1 (Machine.recorded_eq_some.1 hs).1
    exact ⟨(separate_step_iff hnext hp hs).1 hsep, (exists_perform_iff i.2).1 ⟨r, hr⟩⟩
  · rintro ⟨hdepth, hentry⟩
    obtain ⟨r, hr⟩ := (exists_perform_iff (h := handle p2vcb i.1) (s := s.1.view a i.1) i.2).2 hentry
    obtain ⟨q, hs⟩ : ∃ q, Machine.recorded (step a p2vcb) s i = some q :=
      Option.isSome_iff_exists.1 (by simp [Machine.recorded, step, hr])
    exact ⟨q, hs, (separate_step_iff hnext hp hs).2 hdepth⟩

/-- The depth is never compared with `max_depth`, nor `num_channels` with the entries of the list, so
the rings stay apart in exactly those runs whose calls ask for depths that fit and find an entry. The
descriptors recorded are all that change. -/
theorem separate_iff {s : Shared n} (hs : Start a s) (is : List (Fin n × Op u)) :
    ((∃ r, Machine.exec (Machine.recorded (step a p2vcb)) (s, []) is = some r) ∧
        Machine.Always (Machine.recorded (step a p2vcb)) (Separate a) (s, []) is ↔
      Machine.Whenever (Machine.recorded (step a p2vcb)) (Fits a) (s, []) is) ∧
    ∀ s' out, Machine.exec (step a p2vcb) s is = some (s', out) →
      ∀ x, (∀ c, (c, x) ∉ out) → s'.bds x = s.bds x := by
  refine ⟨Machine.exec_always_iff_whenever (J := fun t ↦ ∀ c, NextInRing (t.1.channels c)) ?_
    fits_iff ?_ ?_ is, fun s' out h x hx ↦ exec_bds h hx⟩
  · intro t i t' o hJ ht
    exact nextInRing_step hJ (Machine.recorded_eq_some.1 ht).1
  · exact fun c ↦ ⟨hs.unused c, fun hc _ ↦ hs.open_lt c hc⟩
  · refine ⟨fun c hc ↦ ⟨?_, hs.bdRingSize_le c⟩, by simp⟩
    have hlt := hs.open_lt c hc
    bv_omega

end Runs

def twoAreas : Areas 2 where
  maxDepth := 1
  bdBase c := c
  apart := by decide

def unopened : Shared 2 where
  channels _ :=
    { producerInitialized := 0
      consumerInitialized := 0
      producerNum := 0
      consumerNum := 0
      bdRingSize := 0
      maxMsgSize := 0
      localProducerNum := 0
      localConsumerNum := 0
      bd := fun _ ↦ ⟨0, 0⟩ }
  bds _ := ⟨0, 0⟩
  mem _ := 0
  numChannels := 0

theorem unopened_start : Start twoAreas unopened where
  bdRingSize_le _ := by decide +revert
  unused _ _ := rfl
  open_lt _ hc := absurd hc (by decide +revert)

def configureFirst (depth : BitVec 32) : Fin 2 × Op 32 :=
  (0, .configureChannel true true ⟨depth, .msgCh, 0x1000, 16⟩)

/-- With a depth of one the first channel keeps to its area. -/
theorem separate_iff_depthOne :
    Start twoAreas unopened ∧ Machine.Always (Machine.recorded (step twoAreas fun x ↦ x.toNat))
      (Separate twoAreas) (unopened, []) [configureFirst 1] := by
  refine ⟨unopened_start, ((separate_iff unopened_start [configureFirst 1]).1.2 ?_).2⟩
  refine ⟨⟨?_, fun _ ↦ by decide⟩, fun r _ ↦ trivial⟩
  intro p done hset
  obtain ⟨rfl, rfl⟩ : p = ⟨1, .msgCh, 0x1000, 16⟩ ∧ done = true := by
    simpa [configureFirst, Op.sets, Shared.view, unopened, twoAreas, Channel.Configured,
      osHetInitialized, eq_comm] using hset
  exact ⟨fun _ ↦ by decide, by decide⟩

/-- A depth of two is accepted although the maximum is one: the second descriptor is the first
one of the other channel. -/
theorem depthTwo_accepted :
    (Channel.configureChannel 1 0 (unopened.channels 0) true true
      (⟨2, .msgCh, 0x1000, 16⟩ : Config 32)).map (fun r ↦ r.2.2) = some errSuccess ∧
    ((step twoAreas (fun x ↦ x.toNat) unopened (configureFirst 2)).map fun r ↦
      ((r.1.channels 0).bdRingSize, r.2)) = some (2, [(0, 0), (0, 1)]) ∧
    ¬Machine.Always (Machine.recorded (step twoAreas fun x ↦ x.toNat))
      (Separate twoAreas) (unopened, []) [configureFirst 2] := by
  refine ⟨by decide, by decide, fun h ↦ ?_⟩
  have hlast := (h.2 _ rfl).1 0 rfl
  exact absurd hlast.2 (by decide)

end Configure

end EnbL1Ppc.Ipc
