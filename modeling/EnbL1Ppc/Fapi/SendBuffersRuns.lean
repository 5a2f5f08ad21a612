import EnbL1Ppc.Fapi.SendBuffersOwnership

namespace EnbL1Ppc.Fapi.SendBuffers

open Lib Lib.Memory Ipc Ipc.ChannelCalls Ipc.ChannelFifo

variable {T : Type} {L : Layout}

def Event.asEnqueued : Event → Option (Msg × List UInt8)
  | .enqueued m bytes => some (m, bytes)
  | _ => none

def Event.asDequeued : Event → Option (Msg × List UInt8)
  | .dequeued m bytes => some (m, bytes)
  | _ => none

def enqueued (out : List Event) : List (Msg × List UInt8) := out.filterMap Event.asEnqueued

def dequeued (out : List Event) : List (Msg × List UInt8) := out.filterMap Event.asDequeued

@[simp] theorem enqueued_snoc (out : List Event) (e : Event) :
    enqueued (out ++ [e]) = enqueued out ++ e.asEnqueued.toList := by
  cases h : e.asEnqueued <;> simp [enqueued, h]

@[simp] theorem dequeued_snoc (out : List Event) (e : Event) :
    dequeued (out ++ [e]) = dequeued out ++ e.asDequeued.toList := by
  cases h : e.asDequeued <;> simp [dequeued, h]

def Delivers (L : Layout) (out : List Event) (s : System T) : Prop :=
  ∃ q ds, Owned L s q ds ∧ enqueued out = dequeued out ++ q

variable {s s' : System T} {out o : List Event}

theorem ring_content_put (ho : ∃ q, Owned L s q ds) {b : Buffer} {a : ℕ} {bs : List UInt8}
    (ha : L.base b ≤ a) (hlen : a + bs.length ≤ L.base b + b.size) {d : Bd} (hd : d ∈ ds) :
    content L.handle (put s.mem a bs) d = content L.handle s.mem d := by
  obtain ⟨q, ho⟩ := ho
  obtain ⟨i, hi, hptr⟩ := ho.intact.slot hd
  have hdis := L.ring_buffers b i hi
  have hle := BitVec.le_def.1 (ho.intact.len_le d hd)
  rw [← hptr] at hdis
  apply read_put_disjoint
  change _ ∨ _ at hdis
  change a + bs.length ≤ _ ∨ _ ≤ a
  unfold Layout.base at *
  omega

theorem start_delivers (mem : Mem) : Delivers L [] (start L mem : System T) :=
  ⟨[], [], ⟨⟨L.fresh.holds, rfl, fun _ ↦ rfl, by simp⟩, rfl, by simp, by simp [start, Thread.view],
    by simp [start, Thread.view], fun _ ↦ trivial⟩, rfl⟩

variable [DecidableEq T]

theorem Delivers.alloc {t : T} {r : Request} (hd : Delivers L out s)
    (hu : Unused L s (.alloc t r)) (h : step L s (.alloc t r) = some (s', o)) :
    Delivers L (out ++ o) s' := by
  obtain ⟨q, ds, ho, hq⟩ := hd
  simp only [step] at h
  split at h
  · rename_i hidle
    cases h
    exact ⟨q, ds, ho.alloc hidle hu _, by simpa using hq⟩
  · cases h

theorem Delivers.store {t : T} (hd : Delivers L out s)
    (h : step L s (.store t) = some (s', o)) : Delivers L (out ++ o) s' := by
  obtain ⟨q, ds, ho, hq⟩ := hd
  simp only [step] at h
  split at h
  · rename_i r b k snap ht
    split at h
    · rename_i st hst
      cases h
      have hfits : r.Fits L b := by simpa [ht, Thread.Ok] using ho.thread t
      have hin := hfits.1 st (List.mem_of_getElem? hst)
      have hv : (s.thread t).view L = some (b, r.image L b k snap) := by rw [ht]; rfl
      refine ⟨q, ds, ho.store hv rfl hfits ?_ ?_ ?_, by simpa using hq⟩
      · rw [Request.image_succ hst]
        exact (ho.view t b _ hv).put _ _
      · exact fun b' hb' ↦ put_sameOn hin hb'.symm
      · exact fun d hd ↦ ring_content_put ⟨q, ho⟩ (b := b) (by omega) (by omega) hd
    · cases h
  · cases h

theorem Delivers.load {t : T} {reserved : BitVec 32} (hd : Delivers L out s)
    (h : step L s (.load t reserved) = some (s', o)) : Delivers L (out ++ o) s' := by
  obtain ⟨q, ds, ho, hq⟩ := hd
  simp only [step] at h
  split at h
  · rename_i r b k snap ht
    split at h
    · rename_i hk
      have hfits : r.Fits L b := by simpa [ht, Thread.Ok] using ho.thread t
      have hv : (s.thread t).view L = some (b, r.image L b (r.stores L b).length snap) := by
        rw [ht, hk]; rfl
      have hmsg := loadMsg_eq b.sixteen_le_size (ho.view t b _ hv) reserved
      split at h
      · cases h
        exact ⟨q, ds, ho.release t (.refl _),
          by simpa [Event.asEnqueued, Event.asDequeued] using hq⟩
      · cases h
        refine ⟨q, ds, ?_, by simpa using hq⟩
        exact ho.store hv rfl ⟨hfits, hmsg⟩ (ho.view t b _ hv) (fun _ _ ↦ .refl _ _ _)
          fun _ _ ↦ rfl
    · cases h
  · cases h

theorem Delivers.send {t : T} {locked : Bool} (hd : Delivers L out s)
    (h : step L s (.send t locked) = some (s', o)) : Delivers L (out ++ o) s' := by
  obtain ⟨q, ds, ho, hq⟩ := hd
  simp only [step] at h
  split at h
  · rename_i r b snap m ht
    rcases sendMsg_cases L.handle s.channel s.mem locked (fun i ↦ m.encode.getD i 0) 16 with
      ⟨ch, hch, hfull, hlen, hsend⟩ | ⟨ch, ret, hch, hret, hsend⟩
    · rw [hsend] at h
      cases h
      refine ⟨_, _, ho.enqueue ht (ho.intact.holds.room hfull) hch hlen, ?_⟩
      simp [hq, Event.asEnqueued, Event.asDequeued]
    · rw [hsend] at h
      cases h
      refine ⟨q, ds, ho.release t hch, ?_⟩
      simpa [Event.asEnqueued, Event.asDequeued, hret.ne] using hq
  · cases h

theorem Delivers.dequeue (hd : Delivers L out s) (h : step L s .dequeue = some (s', o)) :
    Delivers L (out ++ o) s' := by
  obtain ⟨q, ds, ho, hq⟩ := hd
  cases hempty : s.channel.empty with
  | true => simp [step, Channel.recvMsg, lockRet, errSuccess, hempty] at h
  | false =>
    simp only [step, Channel.recvMsg, lockRet, errSuccess, hempty, if_true, lt_self_iff_false,
      if_false, Bool.false_eq_true, Option.some.injEq, Prod.mk.injEq] at h
    obtain ⟨rfl, rfl⟩ := h
    have hlen := congrArg List.length ho.ring
    cases ds with
    | nil => simp [ho.intact.holds.empty_iff.2 rfl] at hempty
    | cons d ds =>
      cases q with
      | nil => simp at hlen
      | cons e q =>
        obtain ⟨hcont, hread, ho'⟩ := ho.dequeue
        have hm : Msg.decode (read s.mem (L.handle.p2vcb s.channel.nextIn.msgPtr)
            s.channel.nextIn.msgLen.toNat) = e.1 := by
          rw [← Msg.decode_encode e.1, ← hcont]
          rfl
        refine ⟨q, ds, ho', ?_⟩
        simp [hq, Event.asEnqueued, Event.asDequeued, hm, hread]

theorem step_delivers {i : Input T} (hd : Delivers L out s) (hu : Unused L s i)
    (h : step L s i = some (s', o)) : Delivers L (out ++ o) s' := by
  cases i with
  | alloc t r => exact hd.alloc hu h
  | store t => exact hd.store h
  | load t reserved => exact hd.load h
  | send t locked => exact hd.send h
  | dequeue => exact hd.dequeue h

/-- As long as every allocation hands out an unused buffer, each dequeued descriptor points to
exactly the bytes that the call that enqueued it wrote, in any interleaving of any number of
request calls, rejected ones included, with the DSP. -/
theorem dequeued_bytes {mem : Mem} {is : List (Input T)}
    (hu : Machine.Along (step L) (Unused L) (start L mem) is)
    (h : Machine.exec (step L) (start L mem) is = some (s, out)) :
    dequeued out <+: enqueued out := by
  obtain ⟨q, -, -, hq⟩ := Machine.exec_history (R := Delivers L) step_delivers []
    (start_delivers mem) hu h
  exact ⟨q, hq.symm⟩

section Example

/-- A memory map with the message ring at `0x1000`, the request buffers from `0x100000` and the
CPRI Ethernet buffers from `0x400000`. -/
def exampleAddr : Buffer → ℕ
  | ⟨.request, i⟩ => 0x100000 + i.val * 65536
  | ⟨.cpriEth, i⟩ => 0x400000 + i.val * 4096

def exampleChannel : Channel :=
  Channel.attachMsgRing
    { producerInitialized := 0
      consumerInitialized := osHetInitialized
      producerNum := 0
      consumerNum := 0
      bdRingSize := fapiIpcPa2scBdRingSize
      maxMsgSize := 1020
      localProducerNum := 0
      localConsumerNum := 0
      bd := fun _ ↦ ⟨0, 0⟩ } (0x1000 : BitVec 64) 1020

theorem exampleAddr_bounds (b : Buffer) : 0x100000 ≤ exampleAddr b ∧ exampleAddr b < 2 ^ 32 := by
  obtain ⟨_ | _, i, hi⟩ := b <;>
    simp only [Pool.bufNum, fapiTxReqBufNum, fapiCpriEthBufNum] at hi <;>
    simp only [exampleAddr] <;> omega

theorem exampleAddr_toNat (b : Buffer) :
    (BitVec.ofNat 32 (exampleAddr b)).toNat = exampleAddr b :=
  Nat.mod_eq_of_lt (exampleAddr_bounds b).2

theorem exampleAddr_disjoint {b b' : Buffer} (h : b ≠ b') :
    Memory.Disjoint (exampleAddr b) b.size (exampleAddr b') b'.size := by
  obtain ⟨p, i⟩ := b
  obtain ⟨p', j⟩ := b'
  have hi := i.isLt
  have hj := j.isLt
  cases p <;> cases p' <;>
    simp only [Pool.bufNum, fapiTxReqBufNum, fapiCpriEthBufNum] at hi hj <;>
    simp only [Memory.Disjoint, exampleAddr, Buffer.size, Pool.bufSize, fapiTxReqBufSize,
      fapiCpriEthBufSize]
  · have hij : i.val ≠ j.val := fun he ↦ h (by rw [Fin.ext he])
    omega
  · omega
  · omega
  · have hij : i.val ≠ j.val := fun he ↦ h (by rw [Fin.ext he])
    omega

theorem exampleRing_addr : ∀ i < 16,
    ((exampleChannel.bd i).msgPtr).toNat = 0x1000 + i * 1020 := by decide

def exampleLayout : Layout where
  handle := ⟨0, 1, BitVec.toNat⟩
  channel := exampleChannel
  phys b := BitVec.ofNat 32 (exampleAddr b)
  fresh := ⟨by decide, rfl, rfl, rfl⟩
  ringSize := rfl
  ring_disjoint := attachMsgRing_disjoint (v := 0x1000) (by decide) (by decide)
  buffers_disjoint b b' h := by
    rw [exampleAddr_toNat, exampleAddr_toNat]
    exact exampleAddr_disjoint h
  ring_buffers b i hi := by
    have hb := exampleAddr_bounds b
    have hi' : i < 16 := hi
    change Memory.Disjoint (exampleChannel.bd i).msgPtr.toNat 1020 _ _
    rw [exampleAddr_toNat, exampleRing_addr i hi']
    left
    omega

def oneByte (x : UInt8) : Request := ⟨.request, 1, [(0, [x])], 1⟩

def sendOneByte (x : UInt8) : List (Input ℕ) :=
  [.alloc 0 (oneByte x), .store 0, .store 0, .store 0, .store 0, .store 0, .store 0, .load 0 0,
    .send 0 true]

theorem dequeued_bytes_oneByte :
    ∃ (s : System ℕ) (out : List Event),
      Machine.exec (step exampleLayout) (start exampleLayout fun _ ↦ 0)
        (sendOneByte 7 ++ [.dequeue]) = some (s, out) ∧ dequeued out <+: enqueued out := by
  obtain ⟨⟨s, out⟩, h⟩ : ∃ r, Machine.exec (step exampleLayout)
    (start exampleLayout fun _ ↦ 0 : System ℕ) (sendOneByte 7 ++ [.dequeue]) = some r := ⟨_, rfl⟩
  refine ⟨s, out, h, dequeued_bytes ?_ h⟩
  intro r _
  refine ⟨⟨⟨by decide, by decide⟩, by simp [start, Thread.view], by decide⟩, ?_⟩
  refine .of_forall (fun i hi s ↦ ?_) _
  fin_cases hi <;> trivial

/-- Seventeen requests while the DSP takes none: the last is rejected with
`ERR_CHANNEL_FULL`, but only after it was written over the buffer of the first. -/
theorem seventeenth_request_overwrites :
    ∃ (s : System ℕ) (out : List Event),
      Machine.exec (step exampleLayout) (start exampleLayout fun _ ↦ 0)
        ((List.range 17).flatMap (fun i ↦ sendOneByte (.ofNat i)) ++ [.dequeue]) =
          some (s, out) ∧ ¬ dequeued out <+: enqueued out := by
  obtain ⟨⟨s, out⟩, h⟩ := Option.isSome_iff_exists.1 (show (Machine.exec (step exampleLayout)
    (start exampleLayout fun _ ↦ 0 : System ℕ)
    ((List.range 17).flatMap (fun i ↦ sendOneByte (.ofNat i)) ++ [.dequeue])).isSome = true by
      decide +kernel)
  refine ⟨s, out, h, ?_⟩
  have hlast : (Machine.exec (step exampleLayout) (start exampleLayout fun _ ↦ 0 : System ℕ)
      ((List.range 17).flatMap (fun i ↦ sendOneByte (.ofNat i)) ++ [.dequeue])).map
        (fun r ↦ decide (dequeued r.2 <+: enqueued r.2)) = some false := by decide +kernel
  rw [h] at hlast
  simpa using hlast

end Example

end EnbL1Ppc.Fapi.SendBuffers
