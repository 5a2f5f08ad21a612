import EnbL1Ppc.Core.BlockQueueContents
import EnbL1Ppc.Ipc.ChannelFifo
import EnbL1Ppc.Fapi.Pipeline

namespace EnbL1Ppc.Fapi.Pipeline

open Lib Lib.Memory EnbL1Ppc.Core EnbL1Ppc.Ipc
open Dispatch (QueueId Indication headerSize)
open ChannelFifo (Holds)

variable {w : ℕ} {p2v : BitVec 32 → BitVec 32} {n : BitVec 32} {h : Handle}

/-! What is stored -/

@[simp] theorem IpcMsg.length_bytes (m : IpcMsg) : m.bytes.length = 16 := rfl

section Stored

variable {mem mem' : Mem} {addr : ℕ} {bs : List UInt8}

def Stored (mem : Mem) (addr : ℕ) (bs : List UInt8) : Prop :=
  ∀ k < bs.length, mem (addr + k) = bs.getD k 0

theorem stored_put (mem : Mem) (addr : ℕ) (bs : List UInt8) : Stored (put mem addr bs) addr bs := by
  intro k hk
  rw [put, write, if_pos (by omega), Nat.add_sub_cancel_left]

theorem Stored.sameOn (hb : Stored mem addr bs) (hs : SameOn mem mem' addr bs.length) :
    Stored mem' addr bs :=
  fun k hk ↦ (hs k hk).trans (hb k hk)

theorem Stored.word (hb : Stored mem addr bs) {k : ℕ} (hk : k + 4 ≤ bs.length) :
    word mem (addr + k) = wordOf bs k := by
  rw [wordOf, Memory.word, Memory.word]
  refine congrArg ofBigEndian (List.map_congr_left fun i hi ↦ ?_)
  have hi := List.mem_range.1 hi
  rw [Nat.add_assoc]
  exact hb (k + i) (by omega)

theorem Stored.word_start (hb : Stored mem addr bs) (hk : 4 ≤ bs.length) :
    Memory.word mem addr = wordOf bs 0 :=
  hb.word (k := 0) ((Nat.zero_add 4).trans_le hk)

theorem sameOn_put {r : ℕ × ℕ} (hr : Apart (addr, bs.length) r) :
    SameOn mem (put mem addr bs) r.1 r.2 :=
  sameOn_write _ hr

theorem Stored.channelId {m : IpcMsg} (hb : Stored mem addr m.bytes) :
    Memory.word mem addr = m.channelId :=
  (hb.word_start (by rw [m.length_bytes]; decide)).trans (ofBigEndian_bigEndian m.channelId)

theorem Stored.bodyAddr {m : IpcMsg} (hb : Stored mem addr m.bytes) :
    Memory.word mem (addr + bodyAddrAt) = m.bodyAddr :=
  (hb.word (by rw [m.length_bytes]; decide)).trans (ofBigEndian_bigEndian m.bodyAddr)

end Stored

/-! The pointers of an RX indication -/

theorem translate_range (p2v : BitVec 32 → BitVec 32) (mem : Mem) (body k : ℕ) :
    let mem' := (List.range k).foldl
      (fun mem i ↦ putWord mem (body + dataPtrAt i) (p2v (word mem (body + dataPtrAt i)))) mem
    (∀ i < k, word mem' (body + dataPtrAt i) = p2v (word mem (body + dataPtrAt i))) ∧
      ∀ a, (∀ i < k, ¬(body + dataPtrAt i ≤ a ∧ a < body + dataPtrAt i + 4)) → mem' a = mem a := by
  induction k with
  | zero => exact ⟨fun i hi ↦ absurd hi (Nat.not_lt_zero i), fun _ _ ↦ rfl⟩
  | succ k ih =>
    obtain ⟨hptr, hrest⟩ := ih
    rw [List.range_succ, List.foldl_append, List.foldl_cons, List.foldl_nil]
    set mem' := (List.range k).foldl
      (fun mem i ↦ putWord mem (body + dataPtrAt i) (p2v (word mem (body + dataPtrAt i)))) mem
    -- The turns before have not touched this pointer.
    have hsame : SameOn mem mem' (body + dataPtrAt k) 4 := by
      refine fun j hj ↦ hrest _ fun i hi ↦ ?_
      unfold dataPtrAt
      omega
    refine ⟨fun i hi ↦ ?_, fun a ha ↦ ?_⟩
    · rcases Nat.lt_succ_iff_lt_or_eq.1 hi with hlt | rfl
      · rw [word_putWord_of_disjoint (.inr (by unfold dataPtrAt; omega)), hptr i hlt]
      · rw [word_putWord_self, hsame.word_start le_rfl]
    · rw [putWord, put, write, length_bigEndian, if_neg (ha k (Nat.lt_succ_self k))]
      exact hrest a fun i hi ↦ ha i (Nat.lt_succ_of_lt hi)

section Translate

variable {m : DspMessage} {mem : Mem}

theorem DspMessage.rx (hm : m.queue? = some (.p7 .rxUlsch)) :
    m.header.channelId = channelP7Ind ∧ indicationOf (wordOf m.body 0) = .rxUlsch := by
  rw [DspMessage.queue?] at hm
  split_ifs at hm with h₁ h₂
  · cases hm
  · exact ⟨h₂, by simpa using hm⟩

theorem DspMessage.dataPtr_le (hm : m.queue? = some (.p7 .rxUlsch)) {i : ℕ}
    (hi : i < (wordOf m.body numberOfPdusAt).toNat) : dataPtrAt i + 4 ≤ m.body.length := by
  have hle := m.pdus_le (rx hm).1 (rx hm).2
  unfold dataPtrAt
  omega

theorem Delivers.congr {ptr : BitVec 32} {c c' : ℕ → UInt8} (h : Delivers p2v (ptr, c) m)
    (hc : ∀ k < m.body.length, c' k = c k) : Delivers p2v (ptr, c') m where
  ptr := h.ptr
  dataPtr hm i hi := by
    rw [← h.dataPtr hm i hi]
    have hle := m.dataPtr_le hm hi
    have hsame : SameOn c c' (dataPtrAt i) 4 := fun j hj ↦ hc _ (by omega)
    exact hsame.word_start le_rfl
  rest k hk hout := (hc k hk).trans (h.rest k hk hout)

theorem word_offset (mem : Mem) (a k : ℕ) : word (fun j ↦ mem (a + j)) k = word mem (a + k) := by
  simp only [word, Memory.read, Nat.add_assoc]

theorem delivers_stored (hb : Stored mem (m.ptr p2v).toNat m.body)
    (hm : m.queue? ≠ some (.p7 .rxUlsch)) :
    Delivers p2v (m.ptr p2v, fun k ↦ mem ((m.ptr p2v).toNat + k)) m where
  ptr := rfl
  dataPtr hrx := absurd hrx hm
  rest k hk _ := hb k hk

theorem translatePdus_spec (hb : Stored mem (m.ptr p2v).toNat m.body)
    (hm : m.queue? = some (.p7 .rxUlsch)) :
    (∀ r, Apart (m.bodyRegion p2v) r →
      SameOn mem (translatePdus p2v mem (m.ptr p2v).toNat) r.1 r.2) ∧
    Delivers p2v (m.ptr p2v, fun k ↦
      translatePdus p2v mem (m.ptr p2v).toNat ((m.ptr p2v).toNat + k)) m := by
  have hle := m.pdus_le (m.rx hm).1 (m.rx hm).2
  have hnum : word mem ((m.ptr p2v).toNat + numberOfPdusAt) = wordOf m.body numberOfPdusAt :=
    hb.word (by unfold numberOfPdusAt; omega)
  obtain ⟨hptr, hrest⟩ := translate_range p2v mem (m.ptr p2v).toNat
    (wordOf m.body numberOfPdusAt).toNat
  rw [translatePdus, hnum]
  refine ⟨fun r hr j hj ↦ hrest _ fun i hi ↦ ?_, rfl, fun _ i hi ↦ ?_, fun k hk hout ↦ ?_⟩
  · have := m.dataPtr_le hm hi
    simp only [Apart, Memory.Disjoint, DspMessage.bodyRegion] at hr
    omega
  · rw [word_offset, hptr i hi, hb.word (m.dataPtr_le hm hi)]
  · refine (hrest _ fun i hi hin ↦ hout ⟨hm, i, hi, ?_⟩).trans (hb k hk)
    omega

end Translate

/-! Where the messages are -/

theorem outstanding_eq {ch : Channel} {ds : List Bd} (hs : Holds n ch ds) : outstanding ch = ds := by
  have hn := n.isLt
  have hle := hs.length_le
  have hcount : (ch.producerNum - ch.consumerNum).toNat = ds.length := by
    rw [hs.count, add_sub_cancel_left, BitVec.toNat_ofNat, Nat.mod_eq_of_lt (by omega)]
  rw [outstanding, hcount, hs.size]
  exact hs.window.symm

theorem puts_append (out o : List Event) : puts (out ++ o) = puts out ++ puts o := by
  simp [puts]

@[simp] theorem puts_put (m : DspMessage) : puts [.put m] = [m] := rfl

@[simp] theorem puts_popped (q : QueueId) (ptr : BitVec 32) (content : ℕ → UInt8) :
    puts [.popped q ptr content] = [] := rfl

theorem sentTo_append (q : QueueId) (out o : List Event) :
    sentTo q (out ++ o) = sentTo q out ++ sentTo q o := by
  simp [sentTo, puts_append]

theorem poppedFrom_append (q : QueueId) (out o : List Event) :
    poppedFrom q (out ++ o) = poppedFrom q out ++ poppedFrom q o := by
  simp [poppedFrom]

/-- Where the messages of the DSP are: popped, held in a queue or waiting for room in it, in the
hand of `fapi_thread`, or on the ring. The memory of those on the ring is apart from all others. -/
structure Tracks (p2v : BitVec 32 → BitVec 32) (n : BitVec 32) (out : List Event) (s : System w)
    (held : QueueId → List DspMessage) (hand ring : List DspMessage) : Prop where
  holds : ∃ ds, Holds n s.channel ds ∧ ds.map Bd.msgPtr = ring.map fun m ↦ m.addr.setWidth 64
  addr_ne : ∀ m ∈ ring, m.addr ≠ 0 ∧ p2v m.addr ≠ 0
  puts : ∃ old, puts out = old ++ (hand ++ ring)
  header : ∀ m ∈ ring, Stored s.mem (p2v m.addr).toNat m.header.bytes
  body : ∀ m ∈ ring, Stored s.mem (m.ptr p2v).toNat m.body
  apart : (ring.flatMap (DspMessage.regions p2v)).Pairwise Apart
  held_apart : ∀ q, Tracked q → ∀ m ∈ held q, ∀ r ∈ ring.flatMap (DspMessage.regions p2v),
    Apart (m.bodyRegion p2v) r
  queue : ∀ q, Tracked q → ∃ items, (s.queues q).Contains items ∧
    items ++ pendingIn s q = (held q).map (DspMessage.ptr p2v)
  held_body : ∀ q, Tracked q → ∀ m ∈ held q,
    Delivers p2v (m.ptr p2v, fun k ↦ s.mem ((m.ptr p2v).toNat + k)) m
  history : ∀ q, Tracked q → ∃ read, List.Forall₂ (Delivers p2v) (poppedFrom q out) read ∧
    sentTo q out = read ++ (held q ++ (hand ++ ring).filter (·.queue? = some q))

theorem start_tracks {ch : Channel} (hch : Holds n ch []) (mem : Mem) :
    Tracks p2v n [] (start ch mem : System w) (fun _ ↦ []) [] [] where
  holds := ⟨[], hch, rfl⟩
  addr_ne := by simp
  puts := ⟨[], rfl⟩
  header := by simp
  body := by simp
  apart := List.Pairwise.nil
  held_apart := by simp
  queue _ _ := ⟨[], BlockQueue.init_contains (by decide) (by decide), rfl⟩
  held_body := by simp
  history _ _ := ⟨[], .nil, rfl⟩

section Tracks

variable {out : List Event} {s : System w} {held : QueueId → List DspMessage}
  {hand ring : List DspMessage} {m : DspMessage}

theorem Tracks.onRing_eq (ht : Tracks p2v n out s held [] ring) : onRing (s, out) = ring := by
  obtain ⟨ds, hh, hds⟩ := ht.holds
  obtain ⟨old, hputs⟩ := ht.puts
  have hlen : ds.length = ring.length := by simpa using congrArg List.length hds
  rw [onRing, outstanding_eq hh, hlen, hputs, List.nil_append, List.length_append,
    Nat.add_sub_cancel, List.drop_left]

theorem Tracks.unread_eq (ht : Tracks p2v n out s held hand ring) {q : QueueId} (hq : Tracked q) :
    unread q out = held q ++ (hand ++ ring).filter (·.queue? = some q) := by
  obtain ⟨read, hread, hsent⟩ := ht.history q hq
  rw [unread, hsent, hread.length_eq, List.drop_left]

theorem Tracks.apart_of_fresh (ht : Tracks p2v n out s held [] ring) {r : ℕ × ℕ}
    (hr : ∀ r' ∈ regionsInUse p2v (s, out), Apart r r') :
    (∀ r' ∈ ring.flatMap (DspMessage.regions p2v), Apart r r') ∧
      ∀ q, Tracked q → ∀ m ∈ held q, Apart r (m.bodyRegion p2v) := by
  refine ⟨fun r' hr' ↦ hr r' (.inl ?_), fun q hq m hm ↦ hr _ (.inr ⟨q, hq, m, ?_, rfl⟩)⟩
  · rw [ht.onRing_eq]
    exact List.mem_flatMap.1 hr'
  · rw [ht.unread_eq hq]
    exact List.mem_append_left _ hm

theorem Tracks.setMem (ht : Tracks p2v n out s held hand ring) {mem : Mem}
    (hring : ∀ r ∈ ring.flatMap (DspMessage.regions p2v), SameOn s.mem mem r.1 r.2)
    (hheld : ∀ q, Tracked q → ∀ m ∈ held q,
      SameOn s.mem mem (m.bodyRegion p2v).1 (m.bodyRegion p2v).2) :
    Tracks p2v n out { s with mem := mem } held hand ring := by
  refine ⟨ht.holds, ht.addr_ne, ht.puts, fun m hm ↦ ?_, fun m hm ↦ ?_, ht.apart, ht.held_apart,
    ht.queue, fun q hq m hm ↦ ?_, ht.history⟩
  · refine (ht.header m hm).sameOn (hring (m.headerRegion p2v) (List.mem_flatMap.2 ⟨m, hm, ?_⟩))
    exact List.mem_cons_self
  · refine (ht.body m hm).sameOn (hring (m.bodyRegion p2v) (List.mem_flatMap.2 ⟨m, hm, ?_⟩))
    exact List.mem_cons_of_mem _ List.mem_cons_self
  · exact (ht.held_body q hq m hm).congr (hheld q hq m hm)

theorem dspStep_eq_some {len : BitVec 32} {s' : System w} {o : List Event}
    (hs : dspStep p2v s m len = some (s', o)) :
    s.channel.full = false ∧ o = [.put m] ∧
      s' = { s with
        channel := s.channel.produce ⟨m.addr.setWidth 64, len⟩
        mem := put (put s.mem (m.ptr p2v).toNat m.body) (p2v m.addr).toNat m.header.bytes } := by
  unfold dspStep Channel.sendPtr at hs
  by_cases hinit : s.channel.consumerInitialized = osHetInitialized
  · cases hfull : s.channel.full with
    | true => simp [hinit, hfull, lockRet, errSuccess, errChannelFull] at hs
    | false =>
      simp only [hinit, hfull, lockRet, errSuccess] at hs
      cases hs
      exact ⟨rfl, rfl, rfl⟩
  · simp [hinit, errConsumerNotInit] at hs

theorem Tracks.put (ht : Tracks p2v n out s held [] ring) {len : BitVec 32} {s' : System w}
    {o : List Event} (hfresh : Fresh p2v (s, out) (.dsp m len))
    (hs : dspStep p2v s m len = some (s', o)) :
    Tracks p2v n (out ++ o) s' held [] (ring ++ [m]) := by
  obtain ⟨hm0, hm, hown, hregions⟩ := hfresh
  obtain ⟨hhring, hhheld⟩ := ht.apart_of_fresh (hregions _ List.mem_cons_self).2
  obtain ⟨hbring, hbheld⟩ :=
    ht.apart_of_fresh (hregions _ (List.mem_cons_of_mem _ List.mem_cons_self)).2
  obtain ⟨hroom, rfl, rfl⟩ := dspStep_eq_some hs
  -- What was there stays as it is, whatever the DSP writes.
  have hsame {r : ℕ × ℕ} (hh : Apart (m.headerRegion p2v) r) (hb : Apart (m.bodyRegion p2v) r) :
      SameOn s.mem (Memory.put (Memory.put s.mem (m.ptr p2v).toNat m.body) (p2v m.addr).toNat
        m.header.bytes) r.1 r.2 :=
    (sameOn_put hb).trans (sameOn_put hh)
  have hw := ht.setMem (fun r hr ↦ hsame (hhring r hr) (hbring r hr))
    fun q hq m' hm' ↦ hsame (hhheld q hq m' hm') (hbheld q hq m' hm')
  obtain ⟨ds, hh, hds⟩ := ht.holds
  obtain ⟨old, hputs⟩ := ht.puts
  have hnew : [m].flatMap (DspMessage.regions p2v) = m.regions p2v := List.flatMap_singleton _ _
  refine ⟨⟨_, hh.produce (hh.room hroom) _, by simp [hds]⟩, ?_, ?_, ?_, ?_, ?_, ?_, ht.queue,
    hw.held_body, fun q hq ↦ ?_⟩
  · exact List.forall_mem_append.2 ⟨ht.addr_ne, List.forall_mem_singleton.2 ⟨hm0, hm⟩⟩
  · exact ⟨old, by simp [puts_append, hputs]⟩
  · exact List.forall_mem_append.2 ⟨hw.header, List.forall_mem_singleton.2 (stored_put _ _ _)⟩
  · refine List.forall_mem_append.2 ⟨hw.body, List.forall_mem_singleton.2 ?_⟩
    exact (stored_put _ _ _).sameOn (sameOn_put (r := m.bodyRegion p2v) hown)
  · rw [List.flatMap_append, List.pairwise_append, hnew]
    refine ⟨ht.apart, List.pairwise_pair.2 hown, fun r hr r' hr' ↦ ?_⟩
    rcases List.mem_pair.1 hr' with rfl | rfl
    · exact (hhring r hr).symm
    · exact (hbring r hr).symm
  · intro q hq m' hm'
    rw [List.flatMap_append, hnew]
    refine List.forall_mem_append.2 ⟨ht.held_apart q hq m' hm', fun r hr ↦ ?_⟩
    rcases List.mem_pair.1 hr with rfl | rfl
    · exact (hhheld q hq m' hm').symm
    · exact (hbheld q hq m' hm').symm
  · obtain ⟨read, hread, hsent⟩ := ht.history q hq
    refine ⟨read, by simpa [poppedFrom_append, poppedFrom] using hread, ?_⟩
    rw [sentTo_append, hsent]
    by_cases hmq : m.queue? = some q <;> simp [sentTo, hmq]

theorem Tracks.receive (ht : Tracks p2v n out s held [] (m :: ring)) :
    s.channel.nextIn.msgPtr = m.addr.setWidth 64 ∧
      Tracks p2v n out { s with channel := s.channel.consume } held [m] ring := by
  obtain ⟨ds, hh, hds⟩ := ht.holds
  cases ds with
  | nil => simp at hds
  | cons d ds =>
    rw [List.map_cons, List.map_cons, List.cons.injEq] at hds
    obtain ⟨hnext, hh'⟩ := hh.consume
    refine ⟨by rw [hnext, hds.1], ⟨ds, hh', hds.2⟩, ?_, ht.puts, ?_, ?_, ?_, ?_, ht.queue,
      ht.held_body, ht.history⟩
    · exact (List.forall_mem_cons.1 ht.addr_ne).2
    · exact (List.forall_mem_cons.1 ht.header).2
    · exact (List.forall_mem_cons.1 ht.body).2
    · exact (List.pairwise_append.1 ht.apart).2.1
    · exact fun q hq m' hm' r hr ↦ ht.held_apart q hq m' hm' r (List.mem_append_right _ hr)

theorem Tracks.drop (ht : Tracks p2v n out s held [m] ring)
    (hm : ∀ q, Tracked q → m.queue? ≠ some q) : Tracks p2v n out s held [] ring := by
  obtain ⟨old, hputs⟩ := ht.puts
  refine ⟨ht.holds, ht.addr_ne, ⟨old ++ [m], by simp [hputs]⟩, ht.header, ht.body, ht.apart,
    ht.held_apart, ht.queue, ht.held_body, fun q hq ↦ ?_⟩
  obtain ⟨read, hread, hsent⟩ := ht.history q hq
  exact ⟨read, hread, by simp [hsent, hm q hq]⟩

theorem Tracks.setQueue (ht : Tracks p2v n out s held hand ring) {q : QueueId}
    (hq : ¬ Tracked q) (bq : BlockQueue (BitVec 32) w) :
    Tracks p2v n out (setQueue s q bq) held hand ring := by
  refine ⟨ht.holds, ht.addr_ne, ht.puts, ht.header, ht.body, ht.apart, ht.held_apart,
    fun q' hq' ↦ ?_, ht.held_body, ht.history⟩
  have hne : q' ≠ q := fun he ↦ hq (he ▸ hq')
  obtain ⟨items, hc, hi⟩ := ht.queue q' hq'
  refine ⟨items, ?_, hi⟩
  simpa [Pipeline.setQueue, hne] using hc

theorem pushed_memory (s : System w) (q : QueueId) (b : BitVec 32)
    (r : Option (BlockQueue (BitVec 32) w × Bool)) :
    (pushed s q b r).channel = s.channel ∧ (pushed s q b r).mem = s.mem := by
  cases r <;> exact ⟨rfl, rfl⟩

theorem pushed_other (s : System w) {q q' : QueueId} (hq : q' ≠ q) (b : BitVec 32)
    (r : Option (BlockQueue (BitVec 32) w × Bool)) :
    (pushed s q b r).queues q' = s.queues q' ∧ pendingIn (pushed s q b r) q' = [] := by
  cases r with
  | none => exact ⟨rfl, if_neg hq.symm⟩
  | some r => exact ⟨Function.update_of_ne hq _ _, rfl⟩

theorem pushed_self {q : QueueId} {items : List (BitVec 32)} (hc : (s.queues q).Contains items)
    (b : BitVec 32) :
    ∃ items', ((pushed s q b ((s.queues q).push b headerSize)).queues q).Contains items' ∧
      items' ++ pendingIn (pushed s q b ((s.queues q).push b headerSize)) q = items ++ [b] := by
  rw [hc.push_eq]
  split
  · exact ⟨items, hc, by simp [pushed, pendingIn]⟩
  · next hn =>
    refine ⟨items ++ [b], ?_, by simp [pushed, pendingIn]⟩
    simpa [pushed, Pipeline.setQueue] using hc.store hn headerSize

theorem Tracks.push (ht : Tracks p2v n out s held [m] ring) (hf : s.fapi = .receiving)
    {q : QueueId} (hm : m.queue? = some q)
    (hbody : Delivers p2v (m.ptr p2v, fun k ↦ s.mem ((m.ptr p2v).toNat + k)) m)
    (hring : ∀ r ∈ ring.flatMap (DspMessage.regions p2v), Apart (m.bodyRegion p2v) r) :
    Tracks p2v n out (push s q (m.ptr p2v)) (Function.update held q (held q ++ [m])) [] ring := by
  obtain ⟨hch, hmem⟩ := pushed_memory s q (m.ptr p2v) ((s.queues q).push (m.ptr p2v) headerSize)
  obtain ⟨old, hputs⟩ := ht.puts
  have hheld {p : DspMessage → Prop} {q' : QueueId} (hq' : ∀ m' ∈ held q', p m') (hpm : p m) :
      ∀ m' ∈ Function.update held q (held q ++ [m]) q', p m' := by
    rcases eq_or_ne q' q with rfl | hne
    · rw [Function.update_self]
      exact List.forall_mem_append.2 ⟨hq', List.forall_mem_singleton.2 hpm⟩
    · rwa [Function.update_of_ne hne]
  refine ⟨hch ▸ ht.holds, ht.addr_ne, ⟨old ++ [m], by simp [hputs]⟩, hmem ▸ ht.header,
    hmem ▸ ht.body, ht.apart, fun q' hq' ↦ hheld (ht.held_apart q' hq') hring, fun q' hq' ↦ ?_,
    fun q' hq' ↦ ?_, fun q' hq' ↦ ?_⟩
  · obtain ⟨items, hc, hi⟩ := ht.queue q' hq'
    have hpend : pendingIn s q' = [] := by simp [pendingIn, hf]
    rw [hpend, List.append_nil] at hi
    rcases eq_or_ne q' q with rfl | hne
    · rw [Function.update_self, List.map_append, ← hi]
      exact pushed_self hc _
    · obtain ⟨hqueue, hpend'⟩ := pushed_other s hne (m.ptr p2v)
        ((s.queues q).push (m.ptr p2v) headerSize)
      rw [Function.update_of_ne hne, ← hi]
      exact ⟨items, by rwa [Pipeline.push, hqueue], by rw [Pipeline.push, hpend', List.append_nil]⟩
  · rw [Pipeline.push, hmem]
    exact hheld (ht.held_body q' hq') hbody
  · obtain ⟨read, hread, hsent⟩ := ht.history q' hq'
    refine ⟨read, hread, ?_⟩
    rw [hsent]
    rcases eq_or_ne q' q with rfl | hne
    · simp [hm]
    · have hmq : m.queue? ≠ some q' := fun he ↦ hne (Option.some.inj (he.symm.trans hm))
      simp [hne, hmq]

theorem Tracks.resume (ht : Tracks p2v n out s held hand ring) {q : QueueId} {b : BitVec 32}
    (hf : s.fapi = .awaitingRoom q b) :
    Tracks p2v n out (pushed s q b ((s.queues q).pushWake b headerSize)) held hand ring := by
  rw [BlockQueue.pushWake_eq]
  obtain ⟨hch, hmem⟩ := pushed_memory s q b ((s.queues q).push b headerSize)
  refine ⟨hch ▸ ht.holds, ht.addr_ne, ht.puts, hmem ▸ ht.header, hmem ▸ ht.body, ht.apart,
    ht.held_apart, fun q' hq' ↦ ?_, hmem ▸ ht.held_body, ht.history⟩
  obtain ⟨items, hc, hi⟩ := ht.queue q' hq'
  rcases eq_or_ne q' q with rfl | hne
  · have hpend : pendingIn s q' = [b] := by simp [pendingIn, hf]
    rw [← hi, hpend]
    exact pushed_self hc b
  · have hpend : pendingIn s q' = [] := by simp [pendingIn, hf, hne.symm]
    obtain ⟨hqueue, hpend'⟩ := pushed_other s hne b ((s.queues q).push b headerSize)
    rw [← hi, hpend]
    exact ⟨items, by rwa [hqueue], by rw [hpend']⟩

theorem Tracks.popUntracked (ht : Tracks p2v n out s held hand ring) {q : QueueId}
    (hq : ¬ Tracked q) (r : Option (BlockQueue (BitVec 32) w × BitVec 32)) :
    Tracks p2v n (out ++ (popped s q r).2) (popped s q r).1 held hand ring := by
  cases r with
  | none => simpa [popped] using ht
  | some r =>
    have hs := ht.setQueue hq r.1
    obtain ⟨old, hputs⟩ := ht.puts
    refine ⟨hs.holds, hs.addr_ne, ⟨old, by simp [puts_append, hputs, popped]⟩,
      hs.header, hs.body, hs.apart, hs.held_apart, hs.queue, hs.held_body, fun q' hq' ↦ ?_⟩
    have hne : q ≠ q' := fun he ↦ hq (he ▸ hq')
    rw [sentTo_append, poppedFrom_append]
    simpa [popped, sentTo, poppedFrom, hne] using ht.history q' hq'

theorem Tracks.popTracked (ht : Tracks p2v n out s held hand ring) {q : QueueId} (hq : Tracked q)
    {b : BitVec 32} {items : List (BitVec 32)} (hc : (s.queues q).Contains (b :: items)) :
    ∃ held', Tracks p2v n (out ++ [.popped q b fun k ↦ s.mem (b.toNat + k)])
      (Pipeline.setQueue s q (s.queues q).remove) held' hand ring := by
  obtain ⟨items', hc', hi⟩ := ht.queue q hq
  obtain rfl : items' = b :: items := hc'.items_eq.symm.trans hc.items_eq
  obtain ⟨m, rest, hheld⟩ : ∃ m rest, held q = m :: rest := by
    cases hh : held q with
    | nil => simp [hh] at hi
    | cons m rest => exact ⟨m, rest, rfl⟩
  rw [hheld, List.map_cons, List.cons_append, List.cons.injEq] at hi
  have hbody := ht.held_body q hq m (by simp [hheld])
  rw [← hi.1] at hbody
  have hsub (q') : Function.update held q rest q' ⊆ held q' := by
    rcases eq_or_ne q' q with rfl | hne
    · rw [Function.update_self, hheld]
      exact List.subset_cons_self m rest
    · rw [Function.update_of_ne hne]
      exact List.Subset.refl _
  obtain ⟨old, hputs⟩ := ht.puts
  refine ⟨Function.update held q rest, ht.holds, ht.addr_ne,
    ⟨old, by simp [puts_append, hputs]⟩, ht.header, ht.body, ht.apart,
    fun q' hq' m' hm' ↦ ht.held_apart q' hq' m' (hsub q' hm'), fun q' hq' ↦ ?_,
    fun q' hq' m' hm' ↦ ht.held_body q' hq' m' (hsub q' hm'), fun q' hq' ↦ ?_⟩
  · rcases eq_or_ne q' q with rfl | hne
    · refine ⟨items, ?_, ?_⟩
      · simpa [Pipeline.setQueue] using hc.remove.2
      · rw [Function.update_self]
        exact hi.2
    · rw [Function.update_of_ne hne]
      obtain ⟨items', hc', hi'⟩ := ht.queue q' hq'
      exact ⟨items', by simpa [Pipeline.setQueue, hne] using hc', hi'⟩
  · obtain ⟨read, hread, hsent⟩ := ht.history q' hq'
    rw [sentTo_append, poppedFrom_append, hsent]
    rcases eq_or_ne q' q with rfl | hne
    · refine ⟨read ++ [m], List.rel_append hread ?_, ?_⟩
      · simpa [poppedFrom] using hbody
      · simp [sentTo, hheld]
    · refine ⟨read, by simpa [poppedFrom, hne.symm] using hread, ?_⟩
      simp [sentTo, hne]

structure InHand (p2v : BitVec 32 → BitVec 32) (s : System w) (held : QueueId → List DspMessage)
    (ring : List DspMessage) (m : DspMessage) : Prop where
  header : Stored s.mem (p2v m.addr).toNat m.header.bytes
  body : Stored s.mem (m.ptr p2v).toNat m.body
  ring : ∀ r ∈ m.regions p2v, ∀ r' ∈ ring.flatMap (DspMessage.regions p2v), Apart r r'
  held : ∀ r ∈ m.regions p2v, ∀ q, Tracked q → ∀ m' ∈ held q, Apart r (m'.bodyRegion p2v)

theorem InHand.bodyRegion (hm : InHand p2v s held ring m) :
    (∀ r ∈ ring.flatMap (DspMessage.regions p2v), Apart (m.bodyRegion p2v) r) ∧
      ∀ q, Tracked q → ∀ m' ∈ held q, Apart (m.bodyRegion p2v) (m'.bodyRegion p2v) :=
  ⟨hm.ring _ (List.mem_cons_of_mem _ List.mem_cons_self),
    hm.held _ (List.mem_cons_of_mem _ List.mem_cons_self)⟩

theorem Tracks.processP7 (ht : Tracks p2v n out s held [m] ring) (hf : s.fapi = .receiving)
    (hch : m.header.channelId = channelP7Ind) (hm : InHand p2v s held ring m) :
    ∃ held', Tracks p2v n out (processP7Message p2v s (m.ptr p2v)) held' [] ring := by
  obtain ⟨hring, hheld⟩ := hm.bodyRegion
  have hle := m.header_le hch
  have hid : word s.mem (m.ptr p2v).toNat = wordOf m.body 0 := hm.body.word_start (by omega)
  have hq : m.queue? = some (.p7 (indicationOf (wordOf m.body 0))) := by
    rw [DspMessage.queue?, hch, if_neg (by decide), if_pos rfl]
  simp only [processP7Message, hid]
  split_ifs with hi
  · rw [hi] at hq ⊢
    obtain ⟨hsame, hdelivers⟩ := translatePdus_spec hm.body hq
    have htr := ht.setMem (fun r hr ↦ hsame r (hring r hr))
      fun q hq m' hm' ↦ hsame _ (hheld q hq m' hm')
    exact ⟨_, htr.push hf hq hdelivers hring⟩
  · have hne : m.queue? ≠ some (.p7 .rxUlsch) := by
      rw [hq]
      simpa using hi
    exact ⟨_, ht.push hf hq (delivers_stored hm.body hne) hring⟩

theorem Tracks.processChannel (ht : Tracks p2v n out s held [m] ring) (hf : s.fapi = .receiving)
    (hm : InHand p2v s held ring m) :
    ∃ held', Tracks p2v n out (processChannel p2v s (p2v m.addr)) held' [] ring := by
  have hptr : p2v (word s.mem ((p2v m.addr).toNat + bodyAddrAt)) = m.ptr p2v :=
    congrArg p2v hm.header.bodyAddr
  simp only [Pipeline.processChannel, hm.header.channelId, hptr]
  split_ifs with h₁ h₂ h₃ h₄
  · have hq : m.queue? = none := by
      simp [DspMessage.queue?, h₁, channelCpriEth, channelP5Ind, channelP7Ind]
    -- Only the header of the message itself is written.
    have hsame {r : ℕ × ℕ} (hr : Apart (m.headerRegion p2v) r) :
        SameOn s.mem (putWord s.mem ((p2v m.addr).toNat + bodyAddrAt) (m.ptr p2v)) r.1 r.2 := by
      refine sameOn_putWord _ ?_
      simp only [Apart, Memory.Disjoint, DspMessage.headerRegion, IpcMsg.length_bytes,
        bodyAddrAt] at hr ⊢
      omega
    have hhead := hm.ring _ List.mem_cons_self
    have hhead' := hm.held _ List.mem_cons_self
    have hw := ht.setMem (fun r hr ↦ hsame (hhead r hr)) fun q hq m' hm' ↦ hsame (hhead' q hq m' hm')
    exact ⟨held, hw.drop fun q _ ↦ by simp [hq]⟩
  · have hq : m.queue? = some .p5 := by simp [DspMessage.queue?, h₂]
    exact ⟨_, ht.push hf hq (delivers_stored hm.body (by simp [hq])) hm.bodyRegion.1⟩
  · exact ht.processP7 hf h₃ hm
  · have hq : m.queue? = none := by simp [DspMessage.queue?, h₂, h₃]
    exact ⟨held, (ht.drop fun q _ ↦ by simp [hq]).setQueue (by simp [Tracked]) _⟩
  · have hq : m.queue? = none := by simp [DspMessage.queue?, h₂, h₃]
    exact ⟨held, ht.drop fun q _ ↦ by simp [hq]⟩

theorem Tracks.inHand (ht : Tracks p2v n out s held [] (m :: ring)) :
    InHand p2v s held ring m where
  header := ht.header m List.mem_cons_self
  body := ht.body m List.mem_cons_self
  ring := (List.pairwise_append.1 ht.apart).2.2
  held r hr q hq m' hm' := (ht.held_apart q hq m' hm' r (List.mem_append_left _ hr)).symm

theorem Tracks.receiveNext (ht : Tracks p2v n out s held [] (m :: ring))
    (hf : s.fapi = .receiving) :
    ∃ held', Tracks p2v n out
      (process p2v { s with channel := s.channel.consume } (s.channel.nextIn.msgPtr.setWidth 32))
      held' [] ring := by
  obtain ⟨hnext, hr⟩ := ht.receive
  have hne := ht.addr_ne m List.mem_cons_self
  have hm := ht.inHand
  have haddr : s.channel.nextIn.msgPtr.setWidth 32 = m.addr := by
    rw [hnext, BitVec.setWidth_setWidth_of_le _ (by decide), BitVec.setWidth_eq]
  rw [haddr, process, if_neg hne.1, if_neg hne.2]
  split
  · next hch =>
    rw [hm.header.channelId] at hch
    have hq : m.queue? = none := by
      have h₁ : m.header.channelId ≠ channelP5Ind := fun he ↦ absurd (he ▸ hch) (by decide)
      have h₂ : m.header.channelId ≠ channelP7Ind := fun he ↦ absurd (he ▸ hch) (by decide)
      simp [DspMessage.queue?, h₁, h₂]
    exact ⟨held, hr.drop fun q _ ↦ by simp [hq]⟩
  · exact hr.processChannel hf ⟨hm.header, hm.body, hm.ring, hm.held⟩

theorem Tracks.fapiStep (ht : Tracks p2v n out s held [] ring) (locked : Bool) :
    ∃ held' ring', Tracks p2v n out (fapiStep p2v h s locked) held' [] ring' := by
  unfold Pipeline.fapiStep
  split
  · next q b hf => exact ⟨held, ring, ht.resume hf⟩
  · next hf =>
    obtain ⟨ds, hh, hds⟩ := ht.holds
    simp only [Channel.recvPtr]
    split_ifs with h₁ h₂ h₃ hempty
    · exact ⟨held, ring, ht⟩
    · exact ⟨held, ring, ht⟩
    · exact ⟨held, ring, ht⟩
    · exact ⟨held, ring, ht⟩
    · cases ring with
      | nil =>
        have hnil : ds = [] := List.map_eq_nil_iff.1 hds
        exact absurd (hh.empty_iff.2 hnil) hempty
      | cons m ring =>
        obtain ⟨held', ht'⟩ := ht.receiveNext hf
        exact ⟨held', ring, ht'⟩

theorem Tracks.step (ht : Tracks p2v n out s held [] ring) {i : Input} {s' : System w}
    {o : List Event} (hi : Fresh p2v (s, out) i) (hs : step p2v h s i = some (s', o)) :
    ∃ held' ring', Tracks p2v n (out ++ o) s' held' [] ring' := by
  cases i with
  | dsp m len => exact ⟨held, _, ht.put hi hs⟩
  | fapi locked =>
    cases hs
    rw [List.append_nil]
    exact ht.fapiStep locked
  | pop q =>
    obtain ⟨rfl, rfl⟩ := Prod.ext_iff.1 (Option.some.inj hs)
    by_cases hq : Tracked q
    · obtain ⟨items, hc, -⟩ := ht.queue q hq
      cases items with
      | nil =>
        rw [hc.pop_nil]
        exact ⟨held, ring, by simpa [popped] using ht⟩
      | cons b items =>
        rw [hc.pop_cons]
        obtain ⟨held', ht'⟩ := ht.popTracked hq hc
        exact ⟨held', ring, ht'⟩
    · exact ⟨held, ring, ht.popUntracked hq _⟩
  | tryPop q =>
    simp only [Pipeline.step] at hs
    by_cases hq : Tracked q
    · obtain ⟨items, hc, -⟩ := ht.queue q hq
      cases items with
      | nil =>
        rw [hc.tryPop_nil] at hs
        cases hs
        exact ⟨held, ring, by simpa using ht⟩
      | cons b items =>
        rw [hc.tryPop_cons] at hs
        cases hs
        obtain ⟨held', ht'⟩ := ht.popTracked hq hc
        exact ⟨held', ring, ht'⟩
    · split at hs
      · cases hs
        exact ⟨held, ring, by simpa using ht⟩
      · obtain ⟨rfl, rfl⟩ := Prod.ext_iff.1 (Option.some.inj hs)
        exact ⟨held, ring, ht.popUntracked hq _⟩
  | popLastSubframe =>
    obtain ⟨rfl, rfl⟩ := Prod.ext_iff.1 (Option.some.inj hs)
    exact ⟨held, ring, ht.popUntracked (by simp [Tracked]) _⟩

end Tracks

def twoSlots : Channel where
  producerInitialized := osHetInitialized
  consumerInitialized := osHetInitialized
  producerNum := 0
  consumerNum := 0
  bdRingSize := 2
  maxMsgSize := 0
  localProducerNum := 0
  localConsumerNum := 0
  bd _ := ⟨0, 0⟩

def sc2pa : Handle := ⟨5, 6, fun _ ↦ 0⟩

end EnbL1Ppc.Fapi.Pipeline
