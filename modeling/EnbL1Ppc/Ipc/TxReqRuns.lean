import EnbL1Ppc.Ipc.ChannelFifo
import EnbL1Ppc.Ipc.TxReqSend

namespace EnbL1Ppc.Ipc.TxReq

open Lib Memory Transfers UserDma Machine

variable {c : Config} {mem mem' : Mem}

structure Request where
  body : List UInt8
  payload : List UInt8
  deriving DecidableEq

structure Filed (c : Config) (mem : Mem) (i : ℕ) (r : Request) : Prop where
  body_le : r.body.length ≤ maxTxReqMsgSize
  payload_le : r.payload.length ≤ c.lbuffSize
  msgLen : (word mem (c.msgLen i)).toNat = r.body.length
  body : read mem (c.message i) r.body.length = r.body
  lbuff : (word mem (c.message i + maxTxReqMsgSize)).toNat = c.lbuff i

/-- Of the data of the request, `done` has been copied and the pieces `ps` are still to come. -/
structure Slot (c : Config) (mem : Mem) (i : ℕ) (r : Request) (done : List UInt8)
    (ps : List (ℕ × ℕ)) : Prop extends Filed c mem i r where
  copied : read mem (c.lbuff i) done.length = done
  payload : r.payload = done ++ contents mem ps
  sources : ∀ p ∈ ps, Outside c p.1 p.2

abbrev Complete (c : Config) (mem : Mem) (i : ℕ) (r : Request) : Prop :=
  Slot c mem i r r.payload []

section Slot

variable {i : ℕ} {r : Request} {done : List UInt8} {ps : List (ℕ × ℕ)} {p : ℕ × ℕ}

theorem Slot.done_le (h : Slot c mem i r done ps) :
    done.length + (ps.map Prod.snd).sum ≤ c.lbuffSize := by
  have hle := h.payload_le
  rw [h.payload, List.length_append, length_contents] at hle
  exact hle

theorem Filed.same (h : Filed c mem i r) (hlen : Kept c mem mem' (.msgLen i))
    (hmsg : Kept c mem mem' (.message i)) : Filed c mem' i r where
  body_le := h.body_le
  payload_le := h.payload_le
  msgLen := (congrArg BitVec.toNat (SameOn.word_start hlen le_rfl)).trans h.msgLen
  body := (hmsg.read_start (h.body_le.trans (Nat.le_add_right _ _))).trans h.body
  lbuff := (congrArg BitVec.toNat (hmsg.word le_rfl)).trans h.lbuff

theorem Slot.same (h : Slot c mem i r done ps) (hlen : Kept c mem mem' (.msgLen i))
    (hmsg : Kept c mem mem' (.message i)) (hlbuff : Kept c mem mem' (.lbuff i))
    (hps : ∀ p ∈ ps, SameOn mem mem' p.1 p.2) : Slot c mem' i r done ps where
  toFiled := h.toFiled.same hlen hmsg
  copied := by
    have hle := h.done_le
    exact (hlbuff.read_start (by change _ ≤ c.lbuffSize; omega)).trans h.copied
  payload := by rw [contents_congr hps, h.payload]
  sources := h.sources

theorem Slot.only {parts : List Part} (h : Slot c mem i r done ps) (hi : i < c.slots)
    (honly : Only c parts mem mem') (hlen : .msgLen i ∉ parts) (hmsg : .message i ∉ parts)
    (hlbuff : .lbuff i ∉ parts) : Slot c mem' i r done ps :=
  h.same (honly.kept _ hi hlen) (honly.kept _ hi hmsg) (honly.kept _ hi hlbuff)
    fun p hp ↦ honly.outside _ _ (h.sources p hp)

theorem Slot.copy (hl : Layout c) (hi : i < c.slots) (h : Slot c mem i r done (p :: ps)) :
    let t : Transfer := ⟨p.1, c.lbuff i + done.length, p.2⟩
    Only c [.lbuff i] mem (t.apply mem) ∧
      Slot c (t.apply mem) i r (done ++ read mem p.1 p.2) ps := by
  intro t
  have hle := h.done_le
  rw [List.map_cons, List.sum_cons] at hle
  have honly : Only c [.lbuff i] mem (t.apply mem) :=
    hl.only_apply (p := .lbuff i) hi (Nat.le_add_right _ _)
      (by change c.lbuff i + done.length + p.2 ≤ c.lbuff i + c.lbuffSize; omega) mem
  have hsame : ∀ q ∈ ps, SameOn mem (t.apply mem) q.1 q.2 := fun q hq ↦
    honly.outside _ _ (h.sources q (List.mem_cons_of_mem _ hq))
  refine ⟨honly, h.toFiled.same (honly.kept _ hi (by simp)) (honly.kept _ hi (by simp)), ?_, ?_,
    fun q hq ↦ h.sources q (List.mem_cons_of_mem _ hq)⟩
  · rw [List.length_append, length_read, read_apply_append rfl, h.copied]
  · rw [h.payload, contents_congr hsame, List.append_assoc]
    rfl

end Slot

/-- How far the last request has come, of those that have been accepted: `P` are published and
`L` counted by the local index; `rest` is left for the controller. -/
inductive Flight (c : Config) (mem : Mem) (base : BitVec 32) (sent : List Request) :
    ℕ → ℕ → List Transfer → Prop
  | idle : Flight c mem base sent sent.length sent.length []
  | filling {front : List Request} {r : Request} {done : List UInt8} {ps : List (ℕ × ℕ)}
      (hsent : sent = front ++ [r]) (hslot : Slot c mem (front.length % c.slots) r done ps)
      (hproducer : word mem (c.lbuff c.slots) = base + BitVec.ofNat 32 (front.length + 1))
      (hlocal : word mem (c.lbuff c.slots + 4) =
        BitVec.ofNat 32 ((front.length + 1) % c.slots)) :
      Flight c mem base sent front.length front.length
        (gather (c.lbuff (front.length % c.slots) + done.length) ps ++
          producerTransfer c :: localTransfer c :: interruptTransfers c)
  | advancing {k : ℕ} (hsent : sent.length = k + 1)
      (hlocal : word mem (c.lbuff c.slots + 4) = BitVec.ofNat 32 ((k + 1) % c.slots)) :
      Flight c mem base sent (k + 1) k (localTransfer c :: interruptTransfers c)
  | signalling (hint : c.interrupt.isSome) :
      Flight c mem base sent sent.length sent.length (interruptTransfers c)

/-- The requests `sent` have been accepted, counting from `base`; `R` of them have been taken. -/
structure Carries (c : Config) (base : BitVec 32) (s : State) (sent : List Request) (R P L : ℕ)
    (rest : List Transfer) : Prop where
  producer : word s.mem c.producerNum = base + BitVec.ofNat 32 P
  consumer : word s.mem c.consumerNum = base + BitVec.ofNat 32 R
  localProducer : word s.mem c.localProducerNum = BitVec.ofNat 32 (L % c.slots)
  dspIndex : s.dspIndex.toNat = R % c.slots
  le : R ≤ P
  room : sent.length ≤ R + c.slots
  slot : ∀ k r, R ≤ k → k < P → sent[k]? = some r → Complete c s.mem (k % c.slots) r
  list : s.udma.dmaList = c.dmaList
  chain : controller.Chain c.dmaList.toNat Udma.listSize s.mem s.udma.cursor rest
  flight : Flight c s.mem base sent P L rest

variable {base : BitVec 32} {s s' : State} {sent : List Request} {R P L : ℕ} {rest : List Transfer}

theorem Flight.le_length (h : Flight c mem base sent P L rest) : P ≤ sent.length := by
  cases h with
  | idle | signalling => exact le_rfl
  | filling hsent => simp [hsent]
  | advancing hsent => exact hsent.ge

theorem Carries.of_idle (hc : Carries c base s sent R P L rest) (hidle : s.udma.cursor = none) :
    rest = [] ∧ P = sent.length ∧ L = sent.length := by
  have hrest : rest = [] := (hidle ▸ hc.chain).eq_nil
  have hflight := hc.flight
  rw [hrest] at hflight
  refine ⟨hrest, ?_⟩
  generalize hnil : ([] : List Transfer) = nothing at hflight
  cases hflight with
  | idle => exact ⟨rfl, rfl⟩
  | filling => simp at hnil
  | advancing => simp at hnil
  | signalling => exact ⟨rfl, rfl⟩

theorem mod_ne {n R k k' : ℕ} (hk : R ≤ k) (hlt : k < k') (hk' : k' < R + n) :
    k % n ≠ k' % n := by
  intro he
  have hi : k - R < n := by omega
  have hj : k' - R < n := by omega
  have hshift : (R + (k - R)) % n = (R + (k' - R)) % n := by
    rw [Nat.add_sub_cancel' hk, Nat.add_sub_cancel' (by omega), he]
  have hinj := (Ring.add_mod_inj hi hj).1 hshift
  omega

theorem toNat_ofNat_mod (c : Config) (k : ℕ) (hpos : 0 < c.slots) :
    (BitVec.ofNat 32 (k % c.slots)).toNat = k % c.slots := by
  have hlt := Nat.mod_lt k hpos
  have hn : c.slots < 2 ^ 32 := c.channel.bdRingSize.isLt
  rw [BitVec.toNat_ofNat, Nat.mod_eq_of_lt (by omega)]

theorem Carries.count (hc : Carries c base s sent R P L rest) :
    ((c.view s.mem).producerNum - (c.view s.mem).consumerNum).toNat = P - R := by
  have hn : c.slots < 2 ^ 32 := c.channel.bdRingSize.isLt
  have hle := hc.flight.le_length
  have hroom := hc.room
  have hP : BitVec.ofNat 32 P = BitVec.ofNat 32 R + BitVec.ofNat 32 (P - R) := by
    rw [← BitVec.ofNat_add, Nat.add_sub_cancel' hc.le]
  rw [c.view_producerNum, c.view_consumerNum, hc.producer, hc.consumer, hP, ← add_assoc,
    add_sub_cancel_left, BitVec.toNat_ofNat, Nat.mod_eq_of_lt (by omega)]

theorem Carries.full_iff (hc : Carries c base s sent R P L rest) :
    (c.view s.mem).full = true ↔ P = R + c.slots := by
  have hRP := hc.le
  rw [Channel.full, decide_eq_true_iff, ChannelFifo.freeBds_eq, sub_eq_zero, ← BitVec.toNat_inj,
    hc.count, c.view_bdRingSize]
  change c.slots = _ ↔ _
  omega

theorem Carries.empty_iff (hc : Carries c base s sent R P L rest) :
    (c.view s.mem).empty = true ↔ P = R := by
  have hRP := hc.le
  rw [Channel.empty, decide_eq_true_iff, ← sub_eq_zero, ← BitVec.toNat_inj, hc.count]
  change P - R = 0 ↔ _
  omega

theorem Carries.slots_only (hl : Layout c) (hc : Carries c base s sent R P L rest)
    {parts : List Part} (honly : Only c parts s.mem mem')
    (hfree : ∀ k, R ≤ k → k < P → .msgLen (k % c.slots) ∉ parts ∧
      .message (k % c.slots) ∉ parts ∧ .lbuff (k % c.slots) ∉ parts) (k : ℕ) (r : Request)
    (hk : R ≤ k) (hkP : k < P) (hr : sent[k]? = some r) : Complete c mem' (k % c.slots) r :=
  (hc.slot k r hk hkP hr).only (Nat.mod_lt _ hl.slots_pos) honly (hfree k hk hkP).1
    (hfree k hk hkP).2.1 (hfree k hk hkP).2.2

theorem Carries.local_eq (hl : Layout c) (hc : Carries c base s sent R P L rest) :
    (c.view s.mem).localProducerNum.toNat = L % c.slots := by
  have hlocal : (c.view s.mem).localProducerNum = _ := hc.localProducer
  rw [hlocal, toNat_ofNat_mod c L hl.slots_pos]

theorem Carries.send (hl : Layout c) (hc : Carries c base s sent R P L rest)
    (hidle : s.udma.cursor = none) {sgl : List SgEntry} {body : List UInt8}
    (hsrc : ∀ p ∈ pieces sgl, Outside c p.1 p.2)
    (hfits : ((pieces sgl).map Prod.snd).sum ≤ c.lbuffSize)
    (hs : Sent c s s' sgl body (L % c.slots)) :
    ∃ rest', Carries c base s' (sent ++ [⟨body, contents s.mem (pieces sgl)⟩]) R P L rest' := by
  obtain ⟨-, hP, hL⟩ := hc.of_idle hidle
  subst hP hL
  have hi : sent.length % c.slots < c.slots := Nat.mod_lt _ hl.slots_pos
  have hlt : sent.length < R + c.slots := by
    refine lt_of_le_of_ne hc.room fun he ↦ ?_
    have hroom := hs.room
    rw [hc.full_iff.2 he] at hroom
    cases hroom
  have hsame : ∀ p ∈ pieces sgl, SameOn s.mem s'.mem p.1 p.2 := fun p hp ↦
    hs.only.outside _ _ (hsrc p hp)
  have hslot : Slot c s'.mem (sent.length % c.slots) ⟨body, contents s.mem (pieces sgl)⟩ []
      (pieces sgl) :=
    ⟨⟨hs.length_le, by simpa using hfits, hs.msgLen, hs.body, hs.lbuff⟩, rfl,
      by rw [contents_congr hsame, List.nil_append], hsrc⟩
  refine ⟨_, ?_, ?_, ?_, ?_, hc.le, ?_, ?_, hs.list, hs.chain, ?_⟩
  · exact hs.only.producerNum.trans hc.producer
  · exact hs.only.consumerNum.trans hc.consumer
  · exact hs.only.localProducerNum.trans hc.localProducer
  · rw [hs.dspIndex, hc.dspIndex]
  · simpa using hlt
  · intro k r hk hkP hr
    rw [List.getElem?_append_left hkP] at hr
    exact hc.slots_only hl hs.only (fun k hk hkP ↦ by simp [mod_ne hk hkP hlt]) k r hk hkP hr
  · have hproducer : word s'.mem (c.lbuff c.slots) =
        base + BitVec.ofNat 32 (sent.length + 1) := by
      rw [hs.producerNum, hc.producer, BitVec.ofNat_add, add_assoc]
      rfl
    have hlocal : word s'.mem (c.lbuff c.slots + 4) =
        BitVec.ofNat 32 ((sent.length + 1) % c.slots) := by
      apply BitVec.eq_of_toNat_eq
      have hmod := toNat_ofNat_mod c sent.length hl.slots_pos
      rw [hs.localProducerNum, hc.localProducer, toNat_ofNat_mod c _ hl.slots_pos,
        ChannelFifo.toNat_succ_mod (hmod.trans_lt hi), hmod, Config.slots, Nat.mod_add_mod]
    exact .filling rfl hslot hproducer hlocal

theorem Carries.kept (hl : Layout c) (hc : Carries c base s sent R P L rest)
    (hidle : s.udma.cursor = none) (hcursor : s'.udma.cursor = none)
    (hlist : s'.udma.dmaList = s.udma.dmaList) (hdsp : s'.dspIndex = s.dspIndex)
    (hk : ∀ p, c.Valid p → (p = .msgLen (P % c.slots) → P = R + c.slots) →
      Kept c s.mem s'.mem p) : Carries c base s' sent R P L rest := by
  obtain ⟨rfl, rfl, rfl⟩ := hc.of_idle hidle
  have hword : ∀ p, c.Valid p → (∀ i, p ≠ .msgLen i) → 4 ≤ c.size p →
      word s'.mem (c.addr p) = word s.mem (c.addr p) := fun p hp hne hsize ↦
    SameOn.word_start (hk p hp fun he ↦ absurd he (hne _)) hsize
  refine ⟨?_, ?_, ?_, by rw [hdsp, hc.dspIndex], hc.le, hc.room, ?_, hlist.trans hc.list,
    hcursor, .idle⟩
  · exact (hword .producerNum trivial (by simp) le_rfl).trans hc.producer
  · exact (hword .consumerNum trivial (by simp) le_rfl).trans hc.consumer
  · exact (hword .localProducerNum trivial (by simp) le_rfl).trans hc.localProducer
  · intro k r hR hP hr
    have hi : k % c.slots < c.slots := Nat.mod_lt _ hl.slots_pos
    refine (hc.slot k r hR hP hr).same (hk _ hi fun he ↦ ?_) (hk _ hi (by simp))
      (hk _ hi (by simp)) (by simp)
    have hmod : k % c.slots = sent.length % c.slots := Part.msgLen.inj he
    have hroom := hc.room
    by_contra hlt
    exact mod_ne hR hP (by omega) hmod

theorem Carries.refuse (hl : Layout c) (hc : Carries c base s sent R P L rest)
    (hidle : s.udma.cursor = none) (hs : Refused c s s' (L % c.slots)) :
    Carries c base s' sent R P L rest := by
  refine hc.kept hl hidle (hs.cursor.trans hidle) hs.list hs.dspIndex fun p hp hfull ↦ ?_
  rcases hs.mem with hmem | ⟨hroom, honly⟩
  · rw [hmem]
    exact .refl _ _ _
  · refine honly.kept p hp fun hmem ↦ ?_
    obtain ⟨-, hP, hL⟩ := hc.of_idle hidle
    have he := hfull (by rw [List.mem_singleton.1 hmem, hP, hL])
    rw [hc.full_iff.2 he] at hroom
    cases hroom

theorem Layout.chain_step (hl : Layout c) {p : Part} (hp : c.Valid p) (hne : p ≠ .dmaList)
    {t : Transfer} {ts : List Transfer} {a : ℕ}
    (hchain : controller.Chain c.dmaList.toNat Udma.listSize mem (some a) (t :: ts))
    (hlo : c.addr p ≤ t.dest) (hhi : t.dest + t.len ≤ c.addr p + c.size p) :
    (controller.step mem a).1 = t.apply mem ∧
      controller.Chain c.dmaList.toNat Udma.listSize (t.apply mem) (controller.step mem a).2 ts ∧
      Only c [p] mem (t.apply mem) := by
  have hapart : Disjoint (c.addr p) (c.size p) c.dmaList.toNat Udma.listSize :=
    hl.apart_parts (q := .dmaList) hp trivial hne
  have hdest : Disjoint t.dest t.len c.dmaList.toNat Udma.listSize := by
    unfold Memory.Disjoint at *
    omega
  obtain ⟨hmem, hrest⟩ := hchain.step hdest
  exact ⟨hmem, hrest, hl.only_apply hp hlo hhi mem⟩

theorem Carries.moved (hl : Layout c) (hc : Carries c base s sent R P L rest) {p : Part}
    {cursor : Option ℕ} {P' L' : ℕ} {rest' : List Transfer} (honly : Only c [p] s.mem mem')
    (hproducer : word mem' c.producerNum = base + BitVec.ofNat 32 P')
    (hlocal : word mem' c.localProducerNum = BitVec.ofNat 32 (L' % c.slots))
    (hchain : controller.Chain c.dmaList.toNat Udma.listSize mem' cursor rest')
    (hflight : Flight c mem' base sent P' L' rest') (hle : P ≤ P' := by omega)
    (hnew : ∀ k r, P ≤ k → k < P' → sent[k]? = some r → Complete c mem' (k % c.slots) r := by
      intros; omega)
    (hcount : p ≠ .consumerNum ∧ ∀ i, p ≠ .msgLen i ∧ p ≠ .message i := by simp)
    (hfree : ∀ k, R ≤ k → k < P → p ≠ .lbuff (k % c.slots) := by simp) :
    Carries c base (s.moved mem' cursor) sent R P' L' rest' := by
  obtain ⟨hcons, hother⟩ := hcount
  refine ⟨hproducer, (honly.consumerNum (by simpa using hcons.symm)).trans hc.consumer, hlocal,
    hc.dspIndex, hc.le.trans hle, hc.room, ?_, hc.list, hchain, hflight⟩
  intro k r hR hP hr
  rcases Nat.lt_or_ge k P with hkP | hkP
  · refine hc.slots_only hl honly (fun k hk hkP ↦ ⟨?_, ?_, ?_⟩) k r hR hkP hr
    · simpa using (hother _).1.symm
    · simpa using (hother _).2.symm
    · simpa using (hfree k hk hkP).symm
  · exact hnew k r hkP hP hr

theorem Carries.dma (hl : Layout c) (hc : Carries c base s sent R P L rest) {a : ℕ}
    (ha : s.udma.cursor = some a) :
    ∃ P' L' rest', Carries c base
      (s.moved (controller.step s.mem a).1 (controller.step s.mem a).2) sent R P' L' rest' := by
  have hchain := hc.chain
  have hroom := hc.room
  rw [ha] at hchain
  cases hc.flight with
  | idle => cases hchain
  | @filling front r done ps hsent hslot hproducer hlocal =>
    have hi : front.length % c.slots < c.slots := Nat.mod_lt _ hl.slots_pos
    have hlt : front.length < R + c.slots := by
      rw [hsent, List.length_append, List.length_singleton] at hroom
      omega
    cases ps with
    | cons p ps =>
      obtain ⟨honly, hslot'⟩ := hslot.copy hl hi
      have hle := hslot.done_le
      rw [List.map_cons, List.sum_cons] at hle
      obtain ⟨hmem, hchain', -⟩ := hl.chain_step (p := .lbuff (front.length % c.slots)) hi (by simp)
        hchain (Nat.le_add_right _ _) (by
          change c.lbuff (front.length % c.slots) + done.length + p.2 ≤
            c.lbuff (front.length % c.slots) + c.lbuffSize
          omega)
      rw [hmem]
      have hspare : SameOn s.mem _ (c.lbuff c.slots) 12 := honly.kept .spare trivial (by simp)
      have hproducer' := (hspare.word_start (by omega)).trans hproducer
      have hlocal' := (hspare.word (by omega)).trans hlocal
      have hfill := Flight.filling hsent hslot' hproducer' hlocal'
      rw [List.length_append, length_read, ← Nat.add_assoc] at hfill
      exact ⟨_, _, _, hc.moved hl honly (honly.producerNum.trans hc.producer)
        (honly.localProducerNum.trans hc.localProducer) hchain' hfill le_rfl
        (by intros; omega) (by simp) fun k hk hkP ↦ by simpa using (mod_ne hk hkP hlt).symm⟩
    | nil =>
      have hdone : r.payload = done := by simpa [contents] using hslot.payload
      obtain ⟨hmem, hchain', honly⟩ := hl.chain_step (p := .producerNum) trivial (by simp)
        hchain le_rfl le_rfl
      rw [hmem]
      have hspare : SameOn s.mem _ (c.lbuff c.slots) 12 := honly.kept .spare trivial (by simp)
      refine ⟨front.length + 1, front.length, _, hc.moved hl honly
        ((Transfer.word_apply (t := producerTransfer c) rfl s.mem).trans hproducer)
        (honly.localProducerNum.trans hc.localProducer) hchain' (.advancing (by simp [hsent])
          ((hspare.word (by omega)).trans hlocal)) (Nat.le_succ _) ?_⟩
      intro k r' hk hkP hr'
      obtain rfl : k = front.length := by omega
      rw [hsent, List.getElem?_concat_length] at hr'
      cases hr'
      rw [Complete, hdone]
      exact hslot.only hi honly (by simp) (by simp) (by simp)
  | advancing hsent hlocal =>
    obtain ⟨hmem, hchain', honly⟩ := hl.chain_step (p := .localProducerNum) trivial (by simp)
      hchain le_rfl le_rfl
    rw [hmem]
    refine ⟨L + 1, L + 1, _, hc.moved hl honly (honly.producerNum.trans hc.producer)
      ((Transfer.word_apply (t := localTransfer c) rfl s.mem).trans hlocal) hchain' ?_⟩
    rw [← hsent]
    by_cases hint : c.interrupt.isSome
    · exact .signalling hint
    · rw [interruptTransfers, if_neg hint]
      exact .idle
  | signalling hint =>
    rw [interruptTransfers, if_pos hint] at hchain
    obtain ⟨hmem, hchain', honly⟩ := hl.chain_step (p := .interrupt) hint (by simp)
      hchain le_rfl le_rfl
    rw [hmem]
    exact ⟨_, _, _, hc.moved hl honly (honly.producerNum.trans hc.producer)
      (honly.localProducerNum.trans hc.localProducer) hchain' .idle⟩

theorem Flight.only (hl : Layout c) {parts : List Part} (h : Flight c mem base sent P L rest)
    (honly : Only c parts mem mem') (hspare : .spare ∉ parts)
    (hslots : ∀ i, .msgLen i ∉ parts ∧ .message i ∉ parts ∧ .lbuff i ∉ parts) :
    Flight c mem' base sent P L rest := by
  have hsame : SameOn mem mem' (c.lbuff c.slots) 12 := honly.kept .spare trivial hspare
  cases h with
  | idle => exact .idle
  | @filling front r done ps hsent hslot hproducer hlocal =>
    obtain ⟨hlen, hmsg, hlbuff⟩ := hslots (front.length % c.slots)
    exact .filling hsent (hslot.only (Nat.mod_lt _ hl.slots_pos) honly hlen hmsg hlbuff)
      ((hsame.word_start (by omega)).trans hproducer) ((hsame.word (by omega)).trans hlocal)
  | advancing hsent hlocal => exact .advancing hsent ((hsame.word (by omega)).trans hlocal)
  | signalling hint => exact .signalling hint

theorem Slot.received {i : ℕ} {r : Request} (h : Complete c mem i r) :
    read mem (c.message i) ((c.view mem).bd i).msgLen.toNat = r.body ∧
      r.payload <+: read mem (word mem (c.message i + maxTxReqMsgSize)).toNat c.lbuffSize := by
  have hlen : ((c.view mem).bd i).msgLen.toNat = r.body.length := h.msgLen
  refine ⟨by rw [hlen, h.body], read mem (c.lbuff i + r.payload.length)
    (c.lbuffSize - r.payload.length), ?_⟩
  have hall := read_add mem (c.lbuff i) r.payload.length (c.lbuffSize - r.payload.length)
  rw [h.copied, Nat.add_sub_cancel' h.payload_le] at hall
  rw [h.lbuff, hall]

theorem Carries.consume (hl : Layout c) (hc : Carries c base s sent R P L rest) {o : List Event}
    (hr : consume c s = some (s', o)) :
    ∃ r lbuff, sent[R]? = some r ∧ o = [.received r.body lbuff] ∧ r.payload <+: lbuff ∧
      Carries c base s' sent (R + 1) P L rest := by
  have hroom := hc.room
  have hlength := hc.flight.le_length
  unfold TxReq.consume at hr
  dsimp only at hr
  split_ifs at hr with hempty
  have hlt : R < P := lt_of_le_of_ne hc.le fun he ↦ hempty (hc.empty_iff.2 he.symm)
  obtain ⟨r, hrR⟩ : ∃ r, sent[R]? = some r := ⟨_, List.getElem?_eq_getElem (by omega)⟩
  have hi : R % c.slots < c.slots := Nat.mod_lt _ hl.slots_pos
  obtain ⟨hbody, hprefix⟩ := (hc.slot R r le_rfl hlt hrR).received
  have honly : Only c [.consumerNum] s.mem
      (putWord s.mem c.consumerNum ((c.view s.mem).consumerNum + 1)) :=
    hl.only_putWord (p := .consumerNum) trivial le_rfl le_rfl _ _
  rw [c.msgPtr_bd_view, hc.dspIndex] at hr
  cases hr
  refine ⟨r, _, hrR, ?_, hprefix, ?_⟩
  · rw [← hbody]
    rfl
  refine ⟨?_, ?_, ?_, ?_, hlt, by omega, ?_, hc.list, ?_, ?_⟩
  · exact honly.producerNum.trans hc.producer
  · rw [word_putWord_self, c.view_consumerNum, hc.consumer, BitVec.ofNat_add, add_assoc]
    rfl
  · exact honly.localProducerNum.trans hc.localProducer
  · rw [c.view_bdRingSize, ChannelFifo.toNat_succ_mod (by rw [hc.dspIndex]; exact hi), hc.dspIndex,
      Config.slots, Nat.mod_add_mod]
  · intro k r' hk hkP hr'
    exact hc.slots_only hl honly (by simp) k r' (by omega) hkP hr'
  · exact hc.chain.same (honly.kept .dmaList trivial (by simp))
  · exact hc.flight.only hl honly (by simp) (by simp)

def accepted (out : List Event) : List Request :=
  out.filterMap fun | .sent body payload => some ⟨body, payload⟩ | _ => none

def taken (out : List Event) : List (List UInt8 × List UInt8) :=
  out.filterMap fun | .received body lbuff => some (body, lbuff) | _ => none

/-- The application waits for the controller, before it sends again and before it changes memory;
it sends no more than a buffer holds, and keeps away from the memory of the channel. -/
def Allowed (c : Config) (s : State) : Input → Prop
  | .send _ sgl _ _ => s.udma.cursor = none ∧
      ((pieces sgl.toList).map Prod.snd).sum ≤ c.lbuffSize ∧
      ∀ p ∈ pieces sgl.toList, Outside c p.1 p.2
  | .store addr data => s.udma.cursor = none ∧ Outside c addr data.length
  | _ => True

instance (s : State) (i : Input) : Decidable (Allowed c s i) := by
  cases i <;> unfold Allowed Outside <;> infer_instance

def Matches (r : Request) (found : List UInt8 × List UInt8) : Prop :=
  found.1 = r.body ∧ r.payload <+: found.2

structure Delivered (c : Config) (base : BitVec 32) (out : List Event) (s : State) : Prop where
  carries : ∃ P L rest, Carries c base s (accepted out) (taken out).length P L rest
  matched : List.Forall₂ Matches ((accepted out).take (taken out).length) (taken out)

theorem Delivered.length_le {out : List Event} (h : Delivered c base out s) :
    (taken out).length ≤ (accepted out).length := by
  obtain ⟨P, L, rest, hc⟩ := h.carries
  exact hc.le.trans hc.flight.le_length

theorem Delivered.quiet {out o : List Event} (h : Delivered c base out s)
    (ha : accepted (out ++ o) = accepted out) (ht : taken (out ++ o) = taken out)
    (hc : ∃ P L rest, Carries c base s' (accepted out) (taken out).length P L rest) :
    Delivered c base (out ++ o) s' := by
  refine ⟨?_, ?_⟩
  · rw [ha, ht]
    exact hc
  · rw [ha, ht]
    exact h.matched

theorem step_delivered (hl : Layout c) {out o : List Event} {i : Input}
    (h : Delivered c base out s) (hi : Allowed c s i) (hr : step c s i = some (s', o)) :
    Delivered c base (out ++ o) s' := by
  obtain ⟨P, L, rest, hc⟩ := h.carries
  cases i with
  | send locked sgl txReq txReqLen =>
    obtain ⟨hidle, hfits, hsrc⟩ := hi
    simp only [step, Option.map_eq_some_iff, Prod.mk.injEq] at hr
    obtain ⟨⟨s₁, ret⟩, hsend, rfl, rfl⟩ := hr
    rcases sendTxReq_cases hl hidle hc.list (Nat.mod_lt _ hl.slots_pos) (hc.local_eq hl).symm hfits
      hsend with ⟨rfl, hsent⟩ | ⟨hret, href⟩
    · have hle := h.length_le
      obtain ⟨rest', hc'⟩ := hc.send hl hidle hsrc hfits hsent
      rw [if_pos rfl]
      refine ⟨⟨P, L, rest', ?_⟩, ?_⟩
      · simpa [accepted, taken] using hc'
      · have hmatched := h.matched
        unfold accepted taken at hle hmatched ⊢
        simpa [List.take_append_of_le_length hle] using hmatched
    · rw [if_neg hret]
      exact h.quiet (by simp) (by simp) ⟨P, L, rest, hc.refuse hl hidle href⟩
  | status =>
    cases hr
    refine h.quiet (by simp [accepted]) (by simp [taken]) ⟨P, L, rest, ?_⟩
    unfold getLastTxReqStatus
    split_ifs
    · exact hc
    · exact ⟨hc.producer, hc.consumer, hc.localProducer, hc.dspIndex, hc.le, hc.room, hc.slot,
        hc.list, hc.chain, hc.flight⟩
    · exact hc
  | store addr data =>
    cases hr
    refine h.quiet (by simp) (by simp) ⟨P, L, rest, ?_⟩
    exact hc.kept hl hi.1 hi.1 rfl rfl fun p hp _ ↦ hl.kept_put_outside hi.2 s.mem hp
  | dma =>
    simp only [step, Option.map_eq_some_iff, Prod.mk.injEq] at hr
    obtain ⟨a, ha, rfl, rfl⟩ := hr
    exact h.quiet (by simp) (by simp) (hc.dma hl ha)
  | consume =>
    obtain ⟨r, lbuff, hr', rfl, hprefix, hc'⟩ := hc.consume hl hr
    refine ⟨⟨P, L, rest, ?_⟩, ?_⟩
    · simpa [accepted, taken] using hc'
    · have hmatched : List.Forall₂ Matches ((accepted out).take (taken out).length ++ [r])
          (taken out ++ [(r.body, lbuff)]) := List.rel_append h.matched
        (List.Forall₂.cons (R := Matches) (a := r) (b := (r.body, lbuff)) ⟨rfl, hprefix⟩ .nil)
      have htake : (accepted out).take ((taken out).length + 1) =
          (accepted out).take (taken out).length ++ [r] := by
        rw [List.take_add_one, hr']
        rfl
      rw [← htake] at hmatched
      simpa [accepted, taken] using hmatched

structure Fresh (c : Config) (s : State) : Prop where
  consumer : word s.mem c.consumerNum = word s.mem c.producerNum
  localProducer : word s.mem c.localProducerNum = 0
  dspIndex : s.dspIndex = 0

theorem configureTxreq_udma {h : Handle} {c₀ : Config} {locked : Bool} {physAddr size : BitVec 32}
    {d : Udma} {ret : ℤ} (hconf : configureTxreq h c₀ locked physAddr size = (some (c, d), ret)) :
    d = ⟨0, c.dmaList, none⟩ := by
  unfold configureTxreq at hconf
  split_ifs at hconf
  · cases hconf
  · cases hconf
  · cases hconf
  · obtain ⟨rfl, rfl⟩ := Prod.mk.inj (Option.some.inj (Prod.mk.inj hconf).1)
    rfl

theorem Fresh.delivered (hf : Fresh c s) (hd : s.udma = ⟨0, c.dmaList, none⟩) :
    Delivered c (word s.mem c.producerNum) [] s := by
  refine ⟨⟨0, 0, [], ?_, ?_, ?_, ?_, le_rfl, Nat.zero_le _, ?_, by rw [hd], by rw [hd]; rfl, .idle⟩,
    .nil⟩
  · simp
  · simpa [taken] using hf.consumer
  · rw [hf.localProducer, Nat.zero_mod]
    rfl
  · rw [hf.dspIndex]
    exact (Nat.zero_mod _).symm
  · intro k r _ hk
    omega

/-- After `fsl_ipc_configure_txreq`, in whichever order the application, the controller and the
consumer take their steps, as long as the application waits for the controller: the consumer finds
the accepted requests in their order and each one whole, no more are on the way than the ring has
slots, and when the controller has stopped all have been published. -/
theorem exec_delivered {h : Handle} {c₀ : Config} {locked : Bool} {physAddr size : BitVec 32}
    {ret : ℤ} {s₀ : State} {is : List Input} {out : List Event}
    (hconf : configureTxreq h c₀ locked physAddr size = (some (c, s₀.udma), ret)) (hl : Layout c)
    (hf : Fresh c s₀) (hg : Along (step c) (Allowed c) s₀ is)
    (hrun : exec (step c) s₀ is = some (s, out)) :
    List.Forall₂ Matches ((accepted out).take (taken out).length) (taken out) ∧
      (taken out).length ≤ (accepted out).length ∧
      (accepted out).length ≤ (taken out).length + c.slots ∧
      (s.udma.cursor = none → word s.mem c.producerNum =
        word s₀.mem c.producerNum + BitVec.ofNat 32 (accepted out).length) := by
  have hd : Delivered c (word s₀.mem c.producerNum) ([] ++ out) s :=
    exec_history (R := Delivered c (word s₀.mem c.producerNum)) (step_delivered hl) []
      (hf.delivered (configureTxreq_udma hconf)) hg hrun
  rw [List.nil_append] at hd
  obtain ⟨P, L, rest, hc⟩ := hd.carries
  refine ⟨hd.matched, hd.length_le, hc.room, fun hidle ↦ ?_⟩
  obtain ⟨-, hP, -⟩ := hc.of_idle hidle
  rw [hc.producer, hP]

def twoSlots : Config where
  channel :=
    { producerInitialized := osHetInitialized
      consumerInitialized := osHetInitialized
      producerNum := 0
      consumerNum := 0
      bdRingSize := 2
      maxMsgSize := 1020
      localProducerNum := 0
      localConsumerNum := 0
      bd := fun i ↦ ⟨BitVec.ofNat 64 (0x2000 + 0x400 * i), 0⟩ }
  channelPaddr := 0x1000
  bdBase := 0x1100
  interrupt := some (0x10, 7)
  txreqTbLbuffPaddr := 0x4000
  maxTxreqLbuffSize := 8
  dspCcsr := 0xE00000000
  p2v _ := true

theorem layout_twoSlots : Layout twoSlots :=
  ⟨by decide, by decide, by decide, by decide, by decide, by decide⟩

def twoSlotsStart : State := ⟨fun _ ↦ 0, ⟨0, twoSlots.dmaList, none⟩, false, 0⟩

def twoSlotsPlain : Config := { twoSlots with txreqTbLbuffPaddr := 0, maxTxreqLbuffSize := 0 }

def twoPieces : SgList :=
  ⟨⟨[⟨0x8000, 2, true⟩, ⟨0x8003, 2, true⟩] ++ List.replicate 126 ⟨0, 0, false⟩⟩, by simp [maxSgEntries]⟩

theorem exec_delivered_twoSlots : ∃ s out,
    exec (step twoSlots) twoSlotsStart [.store 0x8000 [1, 2, 3, 4, 5], .send true twoPieces
      (fun _ ↦ 9) 1, .dma, .dma, .dma, .status, .consume, .dma, .dma, .status] = some (s, out) ∧
    accepted out = [⟨[9], [1, 2, 4, 5]⟩] ∧ taken out = [([9], [1, 2, 4, 5, 0, 0, 0, 0])] ∧
    List.Forall₂ Matches ((accepted out).take (taken out).length) (taken out) := by
  have hrun : (exec (guarded (Allowed twoSlots) (step twoSlots)) twoSlotsStart
      [.store 0x8000 [1, 2, 3, 4, 5], .send true twoPieces (fun _ ↦ 9) 1, .dma, .dma, .dma, .status,
        .consume, .dma, .dma, .status]).map Prod.snd =
      some [.sent [9] [1, 2, 4, 5], .status 7, .received [9] [1, 2, 4, 5, 0, 0, 0, 0],
        .status 6] := by
    decide +kernel
  obtain ⟨⟨s, out⟩, hexec, rfl⟩ := Option.map_eq_some_iff.1 hrun
  obtain ⟨h, hg⟩ := along_of_guarded hexec
  have hconf : configureTxreq ⟨5, 6, fun _ ↦ 0⟩ twoSlotsPlain true 0x4000 8 =
      (some (twoSlots, twoSlotsStart.udma), 0) := rfl
  exact ⟨s, _, h, rfl, rfl,
    (exec_delivered hconf layout_twoSlots ⟨by decide, by decide, rfl⟩ hg h).1⟩

end EnbL1Ppc.Ipc.TxReq
