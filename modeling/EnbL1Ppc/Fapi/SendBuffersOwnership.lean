import EnbL1Ppc.Fapi.SendBuffers

namespace EnbL1Ppc.Fapi.SendBuffers

open Lib Lib.Memory Ipc Ipc.ChannelCalls Ipc.ChannelFifo

variable {T : Type} {L : Layout}

def Request.Fits (L : Layout) (r : Request) (b : Buffer) : Prop :=
  (∀ st ∈ r.stores L b, st.1 + st.2.length ≤ b.size) ∧ (16 + r.bodyLength).toNat ≤ b.size

def Thread.view (L : Layout) : Thread → Option (Buffer × Mem)
  | .idle => none
  | .filling r b k snap => some (b, r.image L b k snap)
  | .sending r b snap _ => some (b, r.image L b (r.stores L b).length snap)

def queued (L : Layout) (s : System T) : List Msg :=
  (Ring.window s.channel.bd s.channel.bdRingSize.toNat s.channel.localConsumerNum.toNat
    (s.channel.producerNum - s.channel.consumerNum).toNat).map
      fun d ↦ Msg.decode (content L.handle s.mem d)

/-- An allocation hands out a buffer that nobody uses: no call in progress works on it and no
queued descriptor points to it. The call that gets it stays inside it. -/
def Unused (L : Layout) (s : System T) : Input T → Prop
  | .alloc _ r =>
    r.Fits L (nextBuffer s r.pool) ∧
    (∀ t img, (s.thread t).view L ≠ some (nextBuffer s r.pool, img)) ∧
    ∀ m ∈ queued L s, m.bodyAddr ≠ L.phys (nextBuffer s r.pool)
  | _ => True

def Thread.Ok (L : Layout) : Thread → Prop
  | .idle => True
  | .filling r b _ _ => r.Fits L b
  | .sending r b _ m => r.Fits L b ∧ m.bodyAddr = L.phys b ∧ m.length = 16 + r.bodyLength

/-- Each queued descriptor still points to the bytes of its call, and each call in progress
has its buffer for itself. -/
structure Owned (L : Layout) (s : System T) (q : List (Msg × List UInt8)) (ds : List Bd) :
    Prop where
  intact : Intact L.channel s.channel ds
  ring : ds.map (content L.handle s.mem) = q.map fun e ↦ e.1.encode
  queue : ∀ e ∈ q, ∃ b, e.1.bodyAddr = L.phys b ∧ e.1.length.toNat ≤ b.size ∧
    read s.mem (L.base b) e.1.length.toNat = e.2 ∧ ∀ t img, (s.thread t).view L ≠ some (b, img)
  view : ∀ t b img, (s.thread t).view L = some (b, img) → SameOn img s.mem (L.base b) b.size
  alone : ∀ t u b img img', (s.thread t).view L = some (b, img) →
    (s.thread u).view L = some (b, img') → t = u
  thread : ∀ t, (s.thread t).Ok L

theorem Layout.base_disjoint (L : Layout) {b b' : Buffer} (h : b ≠ b') :
    Memory.Disjoint (L.base b) b.size (L.base b') b'.size := L.buffers_disjoint b b' h

theorem put_sameOn {mem : Mem} {b b' : Buffer} {o : ℕ} {bs : List UInt8}
    (ho : o + bs.length ≤ b.size) (h : b ≠ b') :
    SameOn mem (put mem (L.base b + o) bs) (L.base b') b'.size := by
  apply sameOn_write
  have hd := L.base_disjoint h
  unfold Memory.Disjoint at *
  omega

theorem Request.image_succ {r : Request} {b : Buffer} {k : ℕ} {snap : Mem} {st : ℕ × List UInt8}
    (h : (r.stores L b)[k]? = some st) :
    r.image L b (k + 1) snap = put (r.image L b k snap) (L.base b + st.1) st.2 := by
  rw [image, image, applyStores, applyStores, List.take_add_one, h, Option.toList_some,
    List.foldl_append]
  rfl

theorem applyStores_body (base : ℕ) (body : List (ℕ × List UInt8)) (m : Mem) :
    SameOn m (applyStores base (body.map fun st ↦ (16 + st.1, st.2)) m) base 16 := by
  induction body generalizing m with
  | nil => exact .refl _ _ _
  | cons st body ih =>
    refine SameOn.trans ?_ (ih _)
    apply sameOn_write
    change base + (16 + st.1) + st.2.length ≤ base ∨ base + 16 ≤ base + (16 + st.1)
    omega

theorem Request.image_header (r : Request) (b : Buffer) (snap : Mem) :
    read (r.image L b (r.stores L b).length snap) (L.base b + 12) 4 = bigEndian (L.phys b) ∧
    read (r.image L b (r.stores L b).length snap) (L.base b + 4) 4 =
      bigEndian (16 + r.bodyLength) := by
  rw [image, List.take_length, stores]
  simp only [applyStores, List.foldl_append, List.foldl_cons, List.foldl_nil]
  constructor
  · rw [read_put_disjoint (by simp [Memory.Disjoint]), read_put_disjoint (by simp [Memory.Disjoint])]
    have hb := applyStores_body (L.base b) r.body (put (put (put snap (L.base b + 0)
      (bigEndian r.channelId)) (L.base b + 12) (bigEndian (L.phys b))) (L.base b + 4) (bigEndian 0))
    exact (hb.read (by decide)).trans ((read_put_disjoint (by simp [Memory.Disjoint])).trans
      (read_put_self _ _ (bigEndian (L.phys b))))
  · rw [read_put_disjoint (by simp [Memory.Disjoint])]
    exact read_put_self _ _ (bigEndian (16 + r.bodyLength))

theorem loadMsg_eq {r : Request} {b : Buffer} {snap mem : Mem} (hb : 16 ≤ b.size)
    (hm : SameOn (r.image L b (r.stores L b).length snap) mem (L.base b) b.size)
    (reserved : BitVec 32) :
    (loadMsg mem (L.base b) reserved).bodyAddr = L.phys b ∧
      (loadMsg mem (L.base b) reserved).length = 16 + r.bodyLength := by
  have hh := r.image_header (L := L) b snap
  constructor
  · rw [loadMsg, hm.read (o := 12) (by omega), hh.1, ofBigEndian_bigEndian]
  · rw [loadMsg, hm.read (o := 4) (by omega), hh.2, ofBigEndian_bigEndian]

theorem Buffer.sixteen_le_size (b : Buffer) : 16 ≤ b.size := by
  change 16 ≤ b.1.bufSize
  cases b.1 <;> decide

section Steps

variable {s : System T} {q : List (Msg × List UInt8)} {ds : List Bd}

theorem queued_eq (ho : Owned L s q ds) : queued L s = q.map Prod.fst := by
  have hh := ho.intact.holds
  have hlt := L.channel.bdRingSize.isLt
  have hle := hh.length_le
  have hcount : (s.channel.producerNum - s.channel.consumerNum).toNat = ds.length := by
    rw [hh.count, add_sub_cancel_left, BitVec.toNat_ofNat, Nat.mod_eq_of_lt (by omega)]
  have hring := congrArg (List.map Msg.decode) ho.ring
  simp only [List.map_map] at hring
  rw [queued, hcount, hh.size, ← hh.window]
  refine hring.trans (List.map_congr_left fun e _ ↦ ?_)
  exact Msg.decode_encode e.1

theorem ring_write_sameOn (ho : Owned L s q ds)
    (hroom : ds.length < L.channel.bdRingSize.toNat) (src : ℕ → UInt8) {len : BitVec 32}
    (hlen : len ≤ s.channel.maxMsgSize) (b : Buffer) :
    SameOn s.mem (write s.mem (L.handle.p2vcb s.channel.nextOut.msgPtr) src len.toNat)
      (L.base b) b.size := by
  apply sameOn_write
  have hd := L.ring_buffers b _ (ho.intact.producer_lt hroom)
  rw [← ho.intact.msgPtr, ← ho.intact.maxMsgSize] at hd
  exact hd.mono (BitVec.le_def.1 hlen) le_rfl

theorem Owned.dequeue {e : Msg × List UInt8} {d : Bd} (ho : Owned L s (e :: q) (d :: ds)) :
    content L.handle s.mem s.channel.nextIn = e.1.encode ∧
    read s.mem e.1.bodyAddr.toNat e.1.length.toNat = e.2 ∧
    Owned L { s with channel := s.channel.consume } q ds := by
  obtain ⟨hd, hcons⟩ := ho.intact.receive
  have hring := ho.ring
  simp only [List.map_cons, List.cons.injEq] at hring
  obtain ⟨b, haddr, -, hread, -⟩ := ho.queue e (by simp)
  refine ⟨by rw [hd, hring.1], by rw [haddr]; exact hread, hcons, hring.2, ?_, ho.view, ho.alone,
    ho.thread⟩
  exact fun e' he' ↦ ho.queue e' (by simp [he'])

variable [DecidableEq T]

theorem Owned.store (ho : Owned L s q ds) {t : T} {b : Buffer} {img mem' img' : Mem} {th : Thread}
    (hv : (s.thread t).view L = some (b, img)) (hv' : th.view L = some (b, img')) (hok : th.Ok L)
    (hsame : SameOn img' mem' (L.base b) b.size)
    (hout : ∀ b', b' ≠ b → SameOn s.mem mem' (L.base b') b'.size)
    (hring : ∀ d ∈ ds, content L.handle mem' d = content L.handle s.mem d) :
    Owned L { s with mem := mem', thread := Function.update s.thread t th } q ds := by
  have hview : ∀ u b' i, (Function.update s.thread t th u).view L = some (b', i) →
      (u = t ∧ b' = b ∧ i = img') ∨ (u ≠ t ∧ (s.thread u).view L = some (b', i)) := by
    intro u b' i hu
    by_cases hut : u = t
    · rw [hut, Function.update_self, hv', Option.some.injEq, Prod.mk.injEq] at hu
      exact .inl ⟨hut, hu.1.symm, hu.2.symm⟩
    · rw [Function.update_of_ne hut] at hu
      exact .inr ⟨hut, hu⟩
  refine ⟨ho.intact, ?_, ?_, ?_, ?_, ?_⟩
  · rw [← ho.ring]
    exact List.map_congr_left hring
  · intro e he
    obtain ⟨b', haddr, hlen, hread, hfree⟩ := ho.queue e he
    have hne : b' ≠ b := fun h ↦ hfree t img (h ▸ hv)
    refine ⟨b', haddr, hlen, ?_, ?_⟩
    · rw [← hread]
      exact (hout b' hne).read_start hlen
    · intro u i hu
      rcases hview u b' i hu with ⟨-, h, -⟩ | ⟨-, h⟩
      · exact hne h
      · exact hfree u i h
  · intro u b' i hu
    rcases hview u b' i hu with ⟨-, rfl, rfl⟩ | ⟨hut, h⟩
    · exact hsame
    · have hne : b' ≠ b := fun hb ↦ hut (ho.alone u t b i img (hb ▸ h) hv)
      exact (ho.view u b' i h).trans (hout b' hne)
  · intro u u' b' i i' hu hu'
    rcases hview u b' i hu with ⟨rfl, hb, -⟩ | ⟨hut, h⟩ <;>
      rcases hview u' b' i' hu' with ⟨rfl, hb', -⟩ | ⟨hut', h'⟩
    · rfl
    · exact ho.alone _ _ b img i' hv (hb ▸ h')
    · exact ho.alone _ _ b i img (hb' ▸ h) hv
    · exact ho.alone u u' b' i i' h h'
  · intro u
    by_cases hut : u = t
    · rw [hut]
      simpa using hok
    · simpa [Function.update_of_ne hut] using ho.thread u

theorem Owned.alloc (ho : Owned L s q ds) {t : T} {r : Request} (hidle : s.thread t = .idle)
    (hu : Unused L s (.alloc t r)) (ptr : (p : Pool) → Fin p.bufNum) :
    Owned L { s with
      ptr := ptr
      thread := Function.update s.thread t (.filling r (nextBuffer s r.pool) 0 s.mem) } q ds := by
  obtain ⟨hfits, hfree, hqueue⟩ := hu
  rw [queued_eq ho] at hqueue
  have hview : ∀ u b i, (Function.update s.thread t
      (.filling r (nextBuffer s r.pool) 0 s.mem) u).view L = some (b, i) →
      (u = t ∧ b = nextBuffer s r.pool ∧ i = s.mem) ∨
        (u ≠ t ∧ (s.thread u).view L = some (b, i)) := by
    intro u b i hu
    by_cases hut : u = t
    · rw [hut, Function.update_self, Thread.view, Option.some.injEq, Prod.mk.injEq] at hu
      exact .inl ⟨hut, hu.1.symm, hu.2.symm⟩
    · rw [Function.update_of_ne hut] at hu
      exact .inr ⟨hut, hu⟩
  refine ⟨ho.intact, ho.ring, ?_, ?_, ?_, ?_⟩
  · intro e he
    obtain ⟨b, haddr, hlen, hread, hb⟩ := ho.queue e he
    refine ⟨b, haddr, hlen, hread, fun u i hv ↦ ?_⟩
    rcases hview u b i hv with ⟨-, hbn, -⟩ | ⟨-, h⟩
    · exact hqueue e.1 (List.mem_map_of_mem he) (haddr.trans (by rw [hbn]))
    · exact hb u i h
  · intro u b i hv
    rcases hview u b i hv with ⟨-, -, rfl⟩ | ⟨-, h⟩
    · exact .refl _ _ _
    · exact ho.view u b i h
  · intro u u' b i i' hv hv'
    rcases hview u b i hv with ⟨rfl, hb, -⟩ | ⟨-, h⟩ <;>
      rcases hview u' b i' hv' with ⟨rfl, hb', -⟩ | ⟨-, h'⟩
    · rfl
    · exact absurd (hb ▸ h') (hfree u' i')
    · exact absurd (hb' ▸ h) (hfree u i)
    · exact ho.alone u u' b i i' h h'
  · intro u
    by_cases hut : u = t
    · rw [hut]
      simpa [Thread.Ok] using hfits
    · simpa [Function.update_of_ne hut] using ho.thread u

theorem Owned.release (ho : Owned L s q ds) (t : T) {ch : Channel}
    (hch : SameRing s.channel ch) :
    Owned L { s with channel := ch, thread := Function.update s.thread t .idle } q ds := by
  have hview : ∀ u b i, (Function.update s.thread t .idle u).view L = some (b, i) →
      (s.thread u).view L = some (b, i) := by
    intro u b i hu
    by_cases hut : u = t
    · simp [hut, Thread.view] at hu
    · rwa [Function.update_of_ne hut] at hu
  refine ⟨ho.intact.same hch, ho.ring, ?_, fun u b i hv ↦ ho.view u b i (hview u b i hv),
    fun u u' b i i' hv hv' ↦ ho.alone u u' b i i' (hview u b i hv) (hview u' b i' hv'), ?_⟩
  · intro e he
    obtain ⟨b, haddr, hlen, hread, hb⟩ := ho.queue e he
    exact ⟨b, haddr, hlen, hread, fun u i hv ↦ hb u i (hview u b i hv)⟩
  · intro u
    by_cases hut : u = t
    · simp [hut, Thread.Ok]
    · simpa [Function.update_of_ne hut] using ho.thread u

theorem Owned.enqueue (ho : Owned L s q ds) {t : T} {r : Request} {b : Buffer} {snap : Mem}
    {m : Msg} (ht : s.thread t = .sending r b snap m)
    (hroom : ds.length < L.channel.bdRingSize.toNat) {ch : Channel}
    (hch : SameRing s.channel ch) (hlen : 16#32 ≤ s.channel.maxMsgSize) :
    Owned L
      { s with
        channel := ch.produce ⟨s.channel.nextOut.msgPtr, 16⟩
        mem := write s.mem (L.handle.p2vcb s.channel.nextOut.msgPtr)
          (fun i ↦ m.encode.getD i 0) (16#32).toNat
        thread := Function.update s.thread t .idle }
      (q ++ [(m, read (r.image L b (r.stores L b).length snap) (L.base b) m.length.toNat)])
      (ds ++ [⟨s.channel.nextOut.msgPtr, 16⟩]) := by
  have hview : (s.thread t).view L = some (b, r.image L b (r.stores L b).length snap) := by
    rw [ht]
    rfl
  obtain ⟨⟨-, hfit⟩, haddr, hmlen⟩ : r.Fits L b ∧ m.bodyAddr = L.phys b ∧
    m.length = 16 + r.bodyLength := by simpa [ht, Thread.Ok] using ho.thread t
  have hwrite := ring_write_sameOn ho hroom (fun i ↦ m.encode.getD i 0) hlen
  have hrel := ho.release t (.refl s.channel)
  refine ⟨ho.intact.send hroom hch hlen, ?_, ?_, ?_, hrel.alone, hrel.thread⟩
  · rw [List.map_append, List.map_append, ← ho.ring]
    refine congrArg₂ _ (List.map_congr_left fun d hd ↦ ?_) ?_
    · exact ho.intact.content_send L.ring_disjoint hroom s.mem (fun i ↦ m.encode.getD i 0) hlen hd
    · simp only [List.map_cons, List.map_nil, List.cons.injEq, and_true]
      exact read_put_self s.mem _ m.encode
  · intro e he
    rcases List.mem_append.1 he with he | he
    · obtain ⟨b', haddr', hlen', hread, hfree⟩ := hrel.queue e he
      refine ⟨b', haddr', hlen', ?_, hfree⟩
      rw [← hread]
      exact (hwrite b').read_start hlen'
    · obtain rfl := List.mem_singleton.1 he
      have hsz : m.length.toNat ≤ b.size := by rw [hmlen]; exact hfit
      refine ⟨b, haddr, hsz, ?_, fun u i hv ↦ ?_⟩
      · have hv := (ho.view t b _ hview).trans (hwrite b)
        exact hv.read_start hsz
      · change (Function.update s.thread t .idle u).view L = some (b, i) at hv
        by_cases hut : u = t
        · simp [hut, Thread.view] at hv
        · rw [Function.update_of_ne hut] at hv
          exact hut (ho.alone u t b i _ hv hview)
  · intro u b' i hv
    exact (hrel.view u b' i hv).trans (hwrite b')

end Steps

end EnbL1Ppc.Fapi.SendBuffers
