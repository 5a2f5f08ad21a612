import EnbL1Ppc.Ipc.TxReqLayout

namespace EnbL1Ppc.Ipc.TxReq

open Lib Memory Transfers UserDma

variable {c : Config} {d d' : Udma} {mem mem' : Mem} {es : List Entry}

/-- The entries `es` are in the list of the channel, which the controller may be at work on. -/
structure Listed (c : Config) (d d' : Udma) (mem : Mem) (es : List Entry) : Prop where
  built : d'.Built mem es
  list : d'.dmaList = c.dmaList
  cursor : d'.cursor = d.cursor

theorem Listed.length (h : Listed c d d' mem es) : d'.listIndex = es.length := h.built.index

theorem Layout.only_addEntry (hl : Layout c) (h : Listed c d d' mem es)
    (hlt : es.length < maxDmaEntries) (e : Entry) :
    Only c [.dmaList] mem (d'.addEntry mem e).2.1 := by
  refine hl.only_of_apart (p := .dmaList) trivial fun hapart ↦ ?_
  rw [Config.addr, ← h.list] at hapart
  exact Udma.sameOn_addEntry (by rw [h.length]; omega) mem e hapart

theorem Listed.addEntry (h : Listed c d d' mem es) (hlt : es.length < maxDmaEntries) (e : Entry) :
    Listed c d (d'.addEntry mem e).1 (d'.addEntry mem e).2.1 (es ++ [e]) := by
  refine ⟨h.built.addEntry hlt e, ?_, ?_⟩
  · rw [Udma.addEntry, if_neg (by rw [h.length]; omega)]
    exact h.list
  · rw [Udma.addEntry, if_neg (by rw [h.length]; omega)]
    exact h.cursor

theorem Listed.same (h : Listed c d d' mem es) (hle : es.length ≤ maxDmaEntries)
    (hk : Kept c mem mem' .dmaList) : Listed c d d' mem' es :=
  ⟨h.built.same hle (by rw [h.list]; exact hk), h.list, h.cursor⟩

def segments (physAddr : BitVec 32) : List SgEntry → List Entry
  | [] => []
  | e :: es =>
    if e.isValid then ⟨e.srcAddr, physAddr.setWidth 64, e.len⟩ :: segments (physAddr + e.len) es
    else []

theorem length_segments_le (physAddr : BitVec 32) (sgl : List SgEntry) :
    (segments physAddr sgl).length ≤ sgl.length := by
  induction sgl generalizing physAddr with
  | nil => exact le_rfl
  | cons e sgl ih =>
    rw [segments]
    split_ifs
    · simpa using ih _
    · simp

theorem segments_transfers {sgl : List SgEntry} {physAddr : BitVec 32}
    (hfits : physAddr.toNat + ((pieces sgl).map Prod.snd).sum < 2 ^ 32) :
    (segments physAddr sgl).map Entry.transfer = gather physAddr.toNat (pieces sgl) := by
  induction sgl generalizing physAddr with
  | nil => rfl
  | cons e sgl ih =>
    rw [segments]
    cases hv : e.isValid with
    | false => simp [pieces, hv, gather]
    | true =>
      have hpieces : pieces (e :: sgl) = (e.srcAddr.toNat, e.len.toNat) :: pieces sgl := by
        simp [pieces, hv]
      rw [hpieces] at hfits ⊢
      simp only [if_true, List.map_cons, List.sum_cons, gather] at hfits ⊢
      have hnext : (physAddr + e.len).toNat = physAddr.toNat + e.len.toNat := by
        rw [BitVec.toNat_add]
        omega
      have hfits' : (physAddr + e.len).toNat + ((pieces sgl).map Prod.snd).sum < 2 ^ 32 := by
        rw [hnext]
        omega
      have hrest := ih hfits'
      rw [hnext] at hrest
      rw [hrest, Entry.transfer, BitVec.toNat_setWidth]
      congr 2
      omega

theorem addSegments_spec (hl : Layout c) {sgl : List SgEntry} {physAddr : BitVec 32}
    {r : Udma × Mem} (h : Listed c d d' mem es) (hroom : es.length + sgl.length ≤ maxDmaEntries)
    (hr : addSegments d' mem physAddr sgl = some r) :
    Listed c d r.1 r.2 (es ++ segments physAddr sgl) ∧ Only c [.dmaList] mem r.2 := by
  induction sgl generalizing d' mem physAddr es with
  | nil => cases hr
  | cons e sgl ih =>
    rw [List.length_cons] at hroom
    rw [addSegments] at hr
    rw [segments]
    split_ifs at hr with hv
    · have hadd := h.addEntry (by omega) ⟨e.srcAddr, physAddr.setWidth 64, e.len⟩
      obtain ⟨hlist, honly⟩ := ih hadd (by rw [List.length_append, List.length_singleton]; omega) hr
      have hfirst := hl.only_addEntry h (by omega) ⟨e.srcAddr, physAddr.setWidth 64, e.len⟩
      rw [if_pos hv]
      exact ⟨by simpa using hlist, (hfirst.trans honly).mono (by simp)⟩
    · cases hr
      rw [if_neg hv, List.append_nil]
      exact ⟨h, .refl _ _⟩

theorem Listed.publish (hl : Layout c) (h : Listed c d d' mem es)
    (hlt : es.length < maxDmaEntries) (o : ℕ) (ho : o + 4 ≤ 12) (x : BitVec 32) (e : Entry) :
    let r := d'.addEntry (putWord mem (c.spare.toNat + o) x) e
    Listed c d r.1 r.2.1 (es ++ [e]) ∧ Only c [.spare, .dmaList] mem r.2.1 ∧
      word r.2.1 (c.lbuff c.slots + o) = x ∧
      ∀ o', o' + 4 ≤ 12 → Disjoint o 4 o' 4 →
        word r.2.1 (c.lbuff c.slots + o') = word mem (c.lbuff c.slots + o') := by
  have hput : Only c [.spare] mem (putWord mem (c.lbuff c.slots + o) x) :=
    hl.only_putWord (p := .spare) trivial (Nat.le_add_right _ _)
      (by simp only [Config.addr, Config.size]; omega) mem x
  rw [hl.toNat_spare]
  have hlisted := h.same (by omega) (hput.kept .dmaList trivial (by simp))
  have hadd := hl.only_addEntry hlisted hlt e
  have hspare : SameOn (putWord mem (c.lbuff c.slots + o) x) _ (c.lbuff c.slots) 12 :=
    hadd.kept .spare trivial (by simp)
  refine ⟨hlisted.addEntry hlt e, (hput.trans hadd).mono (by simp), ?_, fun o' ho' hapart ↦ ?_⟩
  · rw [hspare.word ho, word_putWord_self]
  · rw [hspare.word ho', word_putWord_of_disjoint]
    unfold Memory.Disjoint at *
    omega

/-- The entries that `addPublication` adds, and the transfers that they stand for. -/
def publication (c : Config) : List Entry :=
  [⟨c.spare, (c.channelPaddr + 16).setWidth 64, 4⟩,
    ⟨c.spare + 4, (c.channelPaddr + 60).setWidth 64, 4⟩] ++
  c.interrupt.toList.map fun i ↦ ⟨c.spare + 8, c.indAddr i.1, 4⟩

def producerTransfer (c : Config) : Transfer := ⟨c.lbuff c.slots, c.producerNum, 4⟩

def localTransfer (c : Config) : Transfer := ⟨c.lbuff c.slots + 4, c.localProducerNum, 4⟩

def interruptTransfers (c : Config) : List Transfer :=
  if c.interrupt.isSome then [⟨c.lbuff c.slots + 8, c.addr .interrupt, 4⟩] else []

theorem Layout.publication_transfers (hl : Layout c) : (publication c).map Entry.transfer =
    producerTransfer c :: localTransfer c :: interruptTransfers c := by
  have hspare := hl.toNat_spare
  have hpool := hl.pool_fits
  have hch := hl.channel_fits
  have hint := hl.interrupt_fits
  have hsrc : ∀ o ≤ 8, (c.spare + BitVec.ofNat 32 o).toNat = c.lbuff c.slots + o := by
    intro o ho
    rw [BitVec.toNat_add, BitVec.toNat_ofNat, hspare]
    omega
  have hdest : ∀ o ≤ 60, ((c.channelPaddr + BitVec.ofNat 32 o).setWidth 64).toNat % 2 ^ 36 =
      c.channelPaddr.toNat + o := by
    intro o ho
    rw [BitVec.toNat_setWidth, BitVec.toNat_add, BitVec.toNat_ofNat]
    omega
  have hproducer : Entry.transfer ⟨c.spare, (c.channelPaddr + 16).setWidth 64, 4⟩ =
      producerTransfer c := congrArg₂ (Transfer.mk · · 4) hspare (hdest 16 (by omega))
  have hlocal : Entry.transfer ⟨c.spare + 4, (c.channelPaddr + 60).setWidth 64, 4⟩ =
      localTransfer c := congrArg₂ (Transfer.mk · · 4) (hsrc 4 (by omega)) (hdest 60 (by omega))
  rw [publication, interruptTransfers, List.map_append, List.map_cons, List.map_cons, hproducer,
    hlocal]
  cases hi : c.interrupt with
  | none => rfl
  | some i =>
    rw [hi] at hint
    have haddr : c.addr .interrupt = (c.indAddr i.1).toNat := by
      rw [Config.addr, Config.areaAddr, hi, Option.getD_some]
    rw [haddr]
    exact congrArg (fun t ↦ [_, _, t]) (congrArg₂ (Transfer.mk · · 4) (hsrc 8 le_rfl)
      (Nat.mod_eq_of_lt (by simpa using Nat.lt_of_lt_of_le (Nat.lt_add_of_pos_right (by decide)) hint)))

theorem addPublication_spec (hl : Layout c) (h : Listed c d d' mem es)
    (hroom : es.length + 3 ≤ maxDmaEntries) :
    Listed c d (addPublication c d' mem).1 (addPublication c d' mem).2 (es ++ publication c) ∧
      Only c [.spare, .dmaList] mem (addPublication c d' mem).2 ∧
      word (addPublication c d' mem).2 (c.lbuff c.slots) = word mem c.producerNum + 1 ∧
      word (addPublication c d' mem).2 (c.lbuff c.slots + 4) =
        (word mem c.localProducerNum + 1) % c.channel.bdRingSize := by
  obtain ⟨h₁, ho₁, hw₁, -⟩ := h.publish hl (by omega) 0 (by omega) ((c.view mem).producerNum + 1)
    ⟨c.spare, (c.channelPaddr + 16).setWidth 64, 4⟩
  obtain ⟨h₂, ho₂, hw₂, hk₂⟩ := h₁.publish hl
    (by rw [List.length_append, List.length_singleton]; omega) 4 (by omega)
    (((c.view mem).localProducerNum + 1) % c.channel.bdRingSize)
    ⟨c.spare + 4, (c.channelPaddr + 60).setWidth 64, 4⟩
  have hw₁' := (hk₂ 0 (by omega) (.inr (by omega))).trans hw₁
  rw [Nat.add_zero] at h₁ hw₁' h₂ ho₂ hw₂
  unfold addPublication publication
  cases hi : c.interrupt with
  | none => exact ⟨by simpa using h₂, (ho₁.trans ho₂).mono (by simp), hw₁', hw₂⟩
  | some i =>
    obtain ⟨h₃, ho₃, -, hk₃⟩ := h₂.publish hl
      (by simp only [List.length_append, List.length_singleton]; omega) 8 (by omega) i.2 ⟨c.spare + 8, c.indAddr i.1, 4⟩
    refine ⟨by simpa using h₃, ((ho₁.trans ho₂).trans ho₃).mono (by simp), ?_, ?_⟩
    · have hkeep := hk₃ 0 (by omega) (.inr (by omega))
      rw [Nat.add_zero] at hkeep
      exact hkeep.trans hw₁'
    · exact (hk₃ 4 (by omega) (.inr (by omega))).trans hw₂

/-- A request has been accepted: it is in slot `i`, and the controller is going to copy its data
and then to publish it. -/
structure Sent (c : Config) (s s' : State) (sgl : List SgEntry) (body : List UInt8) (i : ℕ) :
    Prop where
  room : (c.view s.mem).full = false
  length_le : body.length ≤ maxTxReqMsgSize
  only : Only c [.msgLen i, .message i, .spare, .dmaList] s.mem s'.mem
  msgLen : (word s'.mem (c.msgLen i)).toNat = body.length
  body : read s'.mem (c.message i) body.length = body
  lbuff : (word s'.mem (c.message i + maxTxReqMsgSize)).toNat = c.lbuff i
  producerNum : word s'.mem (c.lbuff c.slots) = word s.mem c.producerNum + 1
  localProducerNum : word s'.mem (c.lbuff c.slots + 4) =
    (word s.mem c.localProducerNum + 1) % c.channel.bdRingSize
  list : s'.udma.dmaList = c.dmaList
  chain : controller.Chain c.dmaList.toNat Udma.listSize s'.mem s'.udma.cursor
    (gather (c.lbuff i) (pieces sgl) ++
      producerTransfer c :: localTransfer c :: interruptTransfers c)
  dspIndex : s'.dspIndex = s.dspIndex

structure Refused (c : Config) (s s' : State) (i : ℕ) : Prop where
  mem : s'.mem = s.mem ∨ (c.view s.mem).full = false ∧ Only c [.msgLen i] s.mem s'.mem
  list : s'.udma.dmaList = s.udma.dmaList
  cursor : s'.udma.cursor = s.udma.cursor
  dspIndex : s'.dspIndex = s.dspIndex

theorem Layout.toNat_lbuff (hl : Layout c) {x : BitVec 32} (hx : x.toNat < c.slots) :
    (c.txreqTbLbuffPaddr + x * c.maxTxreqLbuffSize).toNat = c.lbuff x.toNat := by
  have hfits := hl.pool_fits
  have hle := c.lbuff_mono hx
  unfold Config.lbuff Config.lbuffSize at *
  rw [BitVec.toNat_add, BitVec.toNat_mul, Nat.mod_eq_of_lt (by omega : x.toNat * _ < 2 ^ 32),
    Nat.mod_eq_of_lt (by omega)]

theorem Layout.placed (hl : Layout c) (hlist : d.dmaList = c.dmaList) : d.Placed := by
  obtain ⟨haligned, -, hhigh⟩ := hl.toNat_dmaList
  have hfits := hl.pool_fits
  exact ⟨by rw [hlist]; exact haligned, by rw [hlist]; omega⟩

theorem Layout.fillSlot (hl : Layout c) {i : ℕ} (hi : i < c.slots) (mem : Mem) (txReq : ℕ → UInt8)
    {txReqLen : BitVec 32} (hlen : txReqLen.toNat ≤ maxTxReqMsgSize) (lbuff : BitVec 32) :
    let mem₁ := write (putWord mem (c.msgLen i) txReqLen) (c.message i) txReq txReqLen.toNat
    let mem₂ := putWord mem₁ (c.message i + maxTxReqMsgSize) lbuff
    Only c [.msgLen i, .message i] mem mem₁ ∧ Only c [.msgLen i, .message i] mem mem₂ ∧
      word mem₂ (c.msgLen i) = txReqLen ∧
      read mem₂ (c.message i) txReqLen.toNat = bytes txReq txReqLen.toNat ∧
      word mem₂ (c.message i + maxTxReqMsgSize) = lbuff := by
  intro mem₁ mem₂
  have h₀ : Only c [.msgLen i] mem (putWord mem (c.msgLen i) txReqLen) :=
    hl.only_putWord (p := .msgLen i) hi le_rfl le_rfl mem txReqLen
  have h₁ : Only c [.message i] (putWord mem (c.msgLen i) txReqLen) mem₁ :=
    hl.only_write (p := .message i) hi le_rfl
      (by simp only [Config.addr, Config.size]; omega) _ txReq
  have h₂ : Only c [.message i] mem₁ mem₂ :=
    hl.only_putWord (p := .message i) hi (Nat.le_add_right _ _)
      (by simp only [Config.addr, Config.size]; omega) _ lbuff
  have hkept : SameOn (putWord mem (c.msgLen i) txReqLen) mem₂ (c.msgLen i) 4 :=
    (h₁.trans h₂).kept (.msgLen i) hi (by simp)
  have hbody : SameOn mem₁ mem₂ (c.message i) txReqLen.toNat :=
    sameOn_putWord lbuff (.inr (by omega))
  refine ⟨h₀.trans h₁, ((h₀.trans h₁).trans h₂).mono (by simp), ?_, ?_, word_putWord_self _ _ _⟩
  · exact (hkept.word_start le_rfl).trans (word_putWord_self _ _ _)
  · rw [hbody.read_start le_rfl]
    exact read_write_self _ _ txReq _

variable {s s' : State} {locked : Bool} {sgl : SgList} {txReq : ℕ → UInt8} {txReqLen : BitVec 32}
  {ret : ℤ}

theorem Sent.of_start (hl : Layout c) (hidle : s.udma.cursor = none)
    (hlist : s.udma.dmaList = c.dmaList) {i : ℕ} (hi : i < c.slots)
    (hidx : i = (c.view s.mem).localProducerNum.toNat)
    (hfits : ((pieces sgl.toList).map Prod.snd).sum ≤ c.lbuffSize)
    (hroom : (c.view s.mem).full = false) (hlen : txReqLen.toNat ≤ maxTxReqMsgSize) {mem₁ : Mem}
    (hmem₁ : mem₁ = write (putWord s.mem (c.msgLen i) txReqLen) (c.message i) txReq txReqLen.toNat)
    {lbuff : BitVec 32} (hlbuff : lbuff =
      c.txreqTbLbuffPaddr + (c.view mem₁).localProducerNum * c.maxTxreqLbuffSize)
    {r : Udma × Mem} (hseg : addSegments s.udma.listClear
      (putWord mem₁ (c.message i + maxTxReqMsgSize) lbuff) lbuff sgl.toList = some r)
    {r' : Udma × Mem × ℤ} (hstart :
      (addPublication c r.1 r.2).1.start (addPublication c r.1 r.2).2 = some r') :
    Sent c s { s with mem := r'.2.1, udma := r'.1, txreqInprocess := true } sgl.toList
      (bytes txReq txReqLen.toNat) i := by
  obtain ⟨honly₁, honly₂, hml, hbody, hlb⟩ := hl.fillSlot hi s.mem txReq hlen lbuff
  rw [← hmem₁] at honly₁ honly₂ hml hbody hlb
  -- The index that is read again is still that of the slot.
  have hsame : (c.view mem₁).localProducerNum = (c.view s.mem).localProducerNum :=
    honly₁.localProducerNum
  have hlb_eq : lbuff.toNat = c.lbuff i := by
    rw [hlbuff, hsame, hl.toNat_lbuff (by rwa [← hidx]), ← hidx]
  have hempty : Listed c s.udma s.udma.listClear
      (putWord mem₁ (c.message i + maxTxReqMsgSize) lbuff) [] :=
    ⟨Udma.built_listClear _ _, hlist, rfl⟩
  have hcap : maxSgEntries + 3 ≤ maxDmaEntries := by decide
  have hsgl : sgl.toList.length = maxSgEntries := sgl.length_toList
  have hsegs := length_segments_le lbuff sgl.toList
  obtain ⟨hseglist, honly₃⟩ := addSegments_spec hl hempty
    (by rw [List.length_nil]; omega) hseg
  rw [List.nil_append] at hseglist
  obtain ⟨hpublist, honly₄, hprod, hlocal⟩ := addPublication_spec hl hseglist (by omega)
  have hlen_pub : (segments lbuff sgl.toList ++ publication c).length ≤ maxDmaEntries := by
    have hpub : (publication c).length ≤ 3 := by
      cases hc : c.interrupt <;> simp [publication, hc]
    rw [List.length_append]
    omega
  obtain ⟨mem', hstarted, hchain⟩ := hpublist.built.start (hl.placed hpublist.list) hlen_pub
    (by simp [publication]) (hpublist.cursor.trans hidle)
  obtain rfl := Option.some.inj (hstarted.symm.trans hstart)
  have honly₅ : Only c [.dmaList] (addPublication c r.1 r.2).2 mem' := by
    refine hl.only_of_apart (p := .dmaList) trivial fun hapart ↦ ?_
    rw [Config.addr, ← hpublist.list] at hapart
    exact Udma.sameOn_start (by rw [hpublist.length]; exact hlen_pub) hstarted hapart
  have hafter : Only c [.spare, .dmaList] (putWord mem₁ (c.message i + maxTxReqMsgSize) lbuff)
      mem' := ((honly₃.trans honly₄).trans honly₅).mono (by simp)
  have hbefore : Only c [.msgLen i, .message i, .dmaList] s.mem r.2 :=
    (honly₂.trans honly₃).mono (by simp)
  have hkmsg : SameOn _ mem' (c.message i) (maxTxReqMsgSize + 4) :=
    hafter.kept (.message i) hi (by simp)
  have hkspare : SameOn (addPublication c r.1 r.2).2 mem' (c.lbuff c.slots) 12 :=
    honly₅.kept .spare trivial (by simp)
  have hlength : (bytes txReq txReqLen.toNat).length = txReqLen.toNat := by simp [bytes]
  refine ⟨hroom, by rw [hlength]; exact hlen, (honly₂.trans hafter).mono (by simp), ?_, ?_, ?_, ?_,
    ?_, hpublist.list, ?_, rfl⟩
  · have hk : SameOn _ mem' (c.msgLen i) 4 := hafter.kept (.msgLen i) hi (by simp)
    rw [hlength]
    exact congrArg BitVec.toNat ((hk.word_start le_rfl).trans hml)
  · rw [hlength, hkmsg.read_start (by omega), hbody]
  · rw [hkmsg.word le_rfl, hlb, hlb_eq]
  · rw [← hbefore.producerNum, ← hprod, hkspare.word_start (by omega)]
  · rw [← hbefore.localProducerNum, ← hlocal, hkspare.word (by omega)]
  · rw [List.map_append, hl.publication_transfers, segments_transfers, hlb_eq, hpublist.list]
      at hchain
    · rw [hpublist.list]
      exact hchain
    · have hpool := hl.pool_fits
      have hmono := c.lbuff_mono hi
      rw [hlb_eq]
      omega

theorem sendTxReq_cases (hl : Layout c) (hidle : s.udma.cursor = none)
    (hlist : s.udma.dmaList = c.dmaList) {i : ℕ} (hi : i < c.slots)
    (hidx : i = (c.view s.mem).localProducerNum.toNat)
    (hfits : ((pieces sgl.toList).map Prod.snd).sum ≤ c.lbuffSize)
    (hr : sendTxReq c s locked sgl txReq txReqLen = some (s', ret)) :
    (ret = 0 ∧ Sent c s s' sgl.toList (bytes txReq txReqLen.toNat) i) ∨
      (ret ≠ 0 ∧ Refused c s s' i) := by
  have hmsg : ((c.view s.mem).nextOut.msgPtr.setWidth 32).toNat = c.message i := by
    have hmf := hl.message_fits i hi
    rw [BitVec.toNat_setWidth, Channel.nextOut, c.msgPtr_bd_view, ← hidx]
    exact Nat.mod_eq_of_lt (by unfold Config.message at hmf; omega)
  have hput : Only c [.msgLen i] s.mem (putWord s.mem (c.msgLen i) txReqLen) :=
    hl.only_putWord (p := .msgLen i) hi le_rfl le_rfl _ _
  unfold sendTxReq at hr
  simp only [hmsg, ← hidx] at hr
  split_ifs at hr with hinit hlock hfull hmap hlen hspare
  · cases hr
    exact .inr ⟨by decide, .inl rfl, rfl, rfl, rfl⟩
  · cases hr
    exact .inr ⟨ne_of_lt hlock, .inl rfl, rfl, rfl, rfl⟩
  · cases hr
    exact .inr ⟨by decide, .inl rfl, rfl, rfl, rfl⟩
  · cases hr
    exact .inr ⟨by decide, .inr ⟨by simpa using hfull, hput⟩, rfl, rfl, rfl⟩
  · cases hr
    exact .inr ⟨by decide, .inr ⟨by simpa using hfull, hput⟩, rfl, rfl, rfl⟩
  · simp at hr
  · simp only [Option.bind_eq_some_iff, Option.map_eq_some_iff, Prod.mk.injEq] at hr
    obtain ⟨r, hseg, r', hstart, rfl, rfl⟩ := hr
    refine .inl ⟨?_, Sent.of_start hl hidle hlist hi hidx hfits (by simpa using hfull)
      (not_lt.1 hlen) rfl rfl hseg hstart⟩
    cases locked with
    | true => rfl
    | false => exact absurd (show lockRet false < 0 by decide) hlock

end EnbL1Ppc.Ipc.TxReq
