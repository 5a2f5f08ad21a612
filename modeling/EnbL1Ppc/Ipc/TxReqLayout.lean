import EnbL1Ppc.Ipc.TxReq

namespace EnbL1Ppc.Ipc.TxReq

open Lib Memory Transfers UserDma

/-- The memory that the calls, the controller and the consumer write to: the channel, its
descriptors, everything from the data buffers to the end of the DMA list, the message buffers and
the interrupt register. -/
inductive Area
  | channel
  | bds
  | pool
  | message (i : ℕ)
  | interrupt
  deriving DecidableEq

namespace Config

variable (c : Config)

def slots : ℕ := c.channel.bdRingSize.toNat

def message (i : ℕ) : ℕ := (c.channel.bd i).msgPtr.toNat

def lbuffSize : ℕ := c.maxTxreqLbuffSize.toNat

def lbuff (i : ℕ) : ℕ := c.txreqTbLbuffPaddr.toNat + i * c.lbuffSize

def areas : List Area :=
  [.channel, .bds, .pool] ++ (if c.interrupt.isSome then [.interrupt] else []) ++
    (List.range c.slots).map .message

def areaAddr : Area → ℕ
  | .channel => c.channelPaddr.toNat
  | .bds => c.bdBase
  | .pool => c.lbuff 0
  | .message i => c.message i
  | .interrupt => (c.indAddr (c.interrupt.getD (0, 0)).1).toNat

/-- `os_het_ipc_channel_t` has 88 bytes, and the address of the data buffer is behind the longest
request. -/
def areaSize : Area → ℕ
  | .channel => 88
  | .bds => 16 * c.slots
  | .pool => c.dmaList.toNat + Udma.listSize - c.lbuff 0
  | .message _ => maxTxReqMsgSize + 4
  | .interrupt => 4

end Config

instance (a l a' l' : ℕ) : Decidable (Disjoint a l a' l') :=
  inferInstanceAs (Decidable (_ ∨ _))

/-- The areas do not overlap, and they can be addressed: all but the register with 32 bits. -/
structure Layout (c : Config) : Prop where
  slots_pos : 0 < c.slots
  apart : ∀ x ∈ c.areas, ∀ y ∈ c.areas, x ≠ y →
    Disjoint (c.areaAddr x) (c.areaSize x) (c.areaAddr y) (c.areaSize y)
  channel_fits : c.channelPaddr.toNat + 88 ≤ 2 ^ 32
  message_fits : ∀ i < c.slots, c.message i + (maxTxReqMsgSize + 4) ≤ 2 ^ 32
  pool_fits : c.lbuff c.slots + 160 + Udma.listSize < 2 ^ 32
  interrupt_fits : (c.indAddr (c.interrupt.getD (0, 0)).1).toNat + 4 ≤ 2 ^ 36

def Outside (c : Config) (addr len : ℕ) : Prop :=
  ∀ x ∈ c.areas, Disjoint addr len (c.areaAddr x) (c.areaSize x)

inductive Part
  | producerNum
  | consumerNum
  | localProducerNum
  | msgLen (i : ℕ)
  | message (i : ℕ)
  | lbuff (i : ℕ)
  | spare
  | dmaList
  | interrupt
  deriving DecidableEq

namespace Config

variable (c : Config)

def addr : Part → ℕ
  | .producerNum => c.producerNum
  | .consumerNum => c.consumerNum
  | .localProducerNum => c.localProducerNum
  | .msgLen i => c.msgLen i
  | .message i => c.message i
  | .lbuff i => c.lbuff i
  | .spare => c.lbuff c.slots
  | .dmaList => c.dmaList.toNat
  | .interrupt => c.areaAddr .interrupt

def size : Part → ℕ
  | .producerNum | .consumerNum | .localProducerNum | .msgLen _ | .interrupt => 4
  | .message _ => maxTxReqMsgSize + 4
  | .lbuff _ => c.lbuffSize
  | .spare => 12
  | .dmaList => Udma.listSize

/-- The slot of a part is one of the ring, and there is a register only for an interrupt. -/
def Valid : Part → Prop
  | .msgLen i | .message i | .lbuff i => i < c.slots
  | .interrupt => c.interrupt.isSome
  | _ => True

end Config

def Part.area : Part → Area
  | .producerNum | .consumerNum | .localProducerNum => .channel
  | .msgLen _ => .bds
  | .message i => .message i
  | .lbuff _ | .spare | .dmaList => .pool
  | .interrupt => .interrupt

variable {c : Config}

theorem Config.lbuff_mono (c : Config) {i j : ℕ} (h : i < j) :
    c.lbuff i + c.lbuffSize ≤ c.lbuff j := by
  have hmul := Nat.mul_le_mul_right c.lbuffSize (Nat.succ_le_of_lt h)
  rw [Nat.succ_mul] at hmul
  unfold Config.lbuff
  omega

theorem Config.lbuff_le (c : Config) {i j : ℕ} (h : i ≤ j) : c.lbuff i ≤ c.lbuff j := by
  have hmul := Nat.mul_le_mul_right c.lbuffSize h
  unfold Config.lbuff
  omega

theorem Layout.toNat_spare (hl : Layout c) : c.spare.toNat = c.lbuff c.slots := by
  have hfits := hl.pool_fits
  have hsmall : c.channel.bdRingSize.toNat * c.maxTxreqLbuffSize.toNat < 2 ^ 32 := by
    unfold Config.lbuff Config.slots Config.lbuffSize at hfits
    omega
  unfold Config.lbuff Config.slots Config.lbuffSize at hfits ⊢
  rw [Config.spare, BitVec.toNat_add, BitVec.toNat_mul, Nat.mod_eq_of_lt hsmall,
    Nat.mod_eq_of_lt (by omega)]

theorem Layout.toNat_dmaList (hl : Layout c) :
    c.dmaList.toNat % 32 = 0 ∧ c.lbuff c.slots + 128 ≤ c.dmaList.toNat ∧
      c.dmaList.toNat < c.lbuff c.slots + 160 := by
  have hfits := hl.pool_fits
  have hsum : (c.spare + 32 * 4).toNat = c.lbuff c.slots + 128 := by
    rw [BitVec.toNat_add, hl.toNat_spare]
    change (_ + 128) % _ = _
    omega
  have hmod : ((c.spare + 32 * 4) % 32).toNat = (c.lbuff c.slots + 128) % 32 := by
    rw [BitVec.toNat_umod, hsum]
    rfl
  unfold Config.dmaList
  dsimp only
  split_ifs with h
  · have hpad : (32 - (c.spare + 32 * 4) % 32).toNat = 32 - (c.lbuff c.slots + 128) % 32 := by
      rw [BitVec.toNat_sub, hmod]
      change (2 ^ 32 - _ + 32) % _ = _
      omega
    have hne : (c.lbuff c.slots + 128) % 32 ≠ 0 := by
      rw [← hmod]
      exact fun h0 ↦ h (BitVec.eq_of_toNat_eq h0)
    rw [BitVec.toNat_add, hsum, hpad]
    omega
  · have hzero : (c.lbuff c.slots + 128) % 32 = 0 := by
      rw [← hmod, not_not.1 h]
      rfl
    rw [hsum]
    omega

theorem Config.area_mem {p : Part} (hp : c.Valid p) : p.area ∈ c.areas := by
  cases p <;> simp_all [Part.area, Config.areas, Config.Valid]

theorem Layout.part_within (hl : Layout c) {p : Part} (hp : c.Valid p) :
    c.areaAddr p.area ≤ c.addr p ∧
      c.addr p + c.size p ≤ c.areaAddr p.area + c.areaSize p.area := by
  have hspare := hl.toNat_spare
  obtain ⟨-, hlow, -⟩ := hl.toNat_dmaList
  have h0 := c.lbuff_le (Nat.zero_le c.slots)
  cases p with
  | message i | interrupt => exact ⟨le_rfl, le_rfl⟩
  | lbuff i =>
    have hi := c.lbuff_mono hp
    have hi0 := c.lbuff_le (Nat.zero_le i)
    simp only [Part.area, Config.areaAddr, Config.areaSize, Config.addr, Config.size]
    omega
  | _ =>
    simp only [Part.area, Config.areaAddr, Config.areaSize, Config.addr, Config.size,
      Config.producerNum, Config.consumerNum, Config.localProducerNum, Config.msgLen,
      Config.Valid] at hp ⊢
    omega

theorem Layout.apart_of_area_eq (hl : Layout c) {p q : Part} (hp : c.Valid p) (hq : c.Valid q)
    (hne : p ≠ q) (harea : p.area = q.area) :
    Disjoint (c.addr p) (c.size p) (c.addr q) (c.size q) := by
  obtain ⟨-, hlow, -⟩ := hl.toNat_dmaList
  unfold Memory.Disjoint
  cases p <;> cases q <;> simp only [Part.area, reduceCtorEq, Area.message.injEq] at harea
  all_goals simp only [ne_eq, not_true_eq_false, Part.msgLen.injEq, Part.lbuff.injEq,
    harea] at hne
  all_goals simp only [Config.addr, Config.size, Config.producerNum, Config.consumerNum,
    Config.localProducerNum, Config.msgLen, Config.Valid] at hp hq ⊢
  case lbuff.lbuff i j =>
    rcases Nat.lt_or_gt_of_ne hne with hij | hij
    · exact .inl (c.lbuff_mono hij)
    · exact .inr (c.lbuff_mono hij)
  case lbuff.spare i => exact .inl (c.lbuff_mono hp)
  case spare.lbuff i => exact .inr (c.lbuff_mono hq)
  case lbuff.dmaList i =>
    have hi := c.lbuff_mono hp
    omega
  case dmaList.lbuff i =>
    have hi := c.lbuff_mono hq
    omega
  all_goals omega

theorem Layout.apart_parts (hl : Layout c) {p q : Part} (hp : c.Valid p) (hq : c.Valid q)
    (hne : p ≠ q) : Disjoint (c.addr p) (c.size p) (c.addr q) (c.size q) := by
  by_cases harea : p.area = q.area
  · exact hl.apart_of_area_eq hp hq hne harea
  · have hareas := hl.apart _ (c.area_mem hp) _ (c.area_mem hq) harea
    have hwp := hl.part_within hp
    have hwq := hl.part_within hq
    unfold Memory.Disjoint at *
    omega

theorem Layout.apart_outside (hl : Layout c) {a l : ℕ} (ho : Outside c a l) {p : Part}
    (hp : c.Valid p) : Disjoint a l (c.addr p) (c.size p) := by
  have harea := ho _ (c.area_mem hp)
  have hw := hl.part_within hp
  unfold Memory.Disjoint at *
  omega

def Kept (c : Config) (mem mem' : Mem) (p : Part) : Prop :=
  SameOn mem mem' (c.addr p) (c.size p)

structure Only (c : Config) (ps : List Part) (mem mem' : Mem) : Prop where
  kept : ∀ q, c.Valid q → q ∉ ps → Kept c mem mem' q
  outside : ∀ a l, Outside c a l → SameOn mem mem' a l

theorem Only.refl (ps : List Part) (mem : Mem) : Only c ps mem mem :=
  ⟨fun _ _ _ ↦ .refl _ _ _, fun _ _ _ ↦ .refl _ _ _⟩

theorem Only.trans {ps ps' : List Part} {mem mem' mem'' : Mem} (h : Only c ps mem mem')
    (h' : Only c ps' mem' mem'') : Only c (ps ++ ps') mem mem'' where
  kept q hq hn := by
    rw [List.mem_append, not_or] at hn
    exact (h.kept q hq hn.1).trans (h'.kept q hq hn.2)
  outside a l ho := (h.outside a l ho).trans (h'.outside a l ho)

theorem Only.mono {ps ps' : List Part} {mem mem' : Mem} (h : Only c ps mem mem')
    (hsub : ∀ p ∈ ps, p ∈ ps') : Only c ps' mem mem' :=
  ⟨fun q hq hn ↦ h.kept q hq fun hm ↦ hn (hsub q hm), h.outside⟩

theorem Only.producerNum {ps : List Part} {mem mem' : Mem} (h : Only c ps mem mem')
    (hn : .producerNum ∉ ps := by simp) : word mem' c.producerNum = word mem c.producerNum :=
  SameOn.word_start (h.kept .producerNum trivial hn) le_rfl

theorem Only.consumerNum {ps : List Part} {mem mem' : Mem} (h : Only c ps mem mem')
    (hn : .consumerNum ∉ ps := by simp) : word mem' c.consumerNum = word mem c.consumerNum :=
  SameOn.word_start (h.kept .consumerNum trivial hn) le_rfl

theorem Only.localProducerNum {ps : List Part} {mem mem' : Mem} (h : Only c ps mem mem')
    (hn : .localProducerNum ∉ ps := by simp) :
    word mem' c.localProducerNum = word mem c.localProducerNum :=
  SameOn.word_start (h.kept .localProducerNum trivial hn) le_rfl

theorem Layout.only_of_apart (hl : Layout c) {p : Part} (hp : c.Valid p) {mem mem' : Mem}
    (h : ∀ {a l}, Disjoint (c.addr p) (c.size p) a l → SameOn mem mem' a l) :
    Only c [p] mem mem' where
  kept _ hq hn := h (hl.apart_parts hp hq fun he ↦ hn (List.mem_singleton.2 he.symm))
  outside _ _ ho := h ((hl.apart_outside ho hp).symm)

theorem Layout.only_write (hl : Layout c) {p : Part} (hp : c.Valid p) {a len : ℕ}
    (hlo : c.addr p ≤ a) (hhi : a + len ≤ c.addr p + c.size p) (mem : Mem) (src : ℕ → UInt8) :
    Only c [p] mem (write mem a src len) := by
  refine hl.only_of_apart hp fun hapart ↦ sameOn_write src ?_
  unfold Memory.Disjoint at *
  omega

theorem Layout.only_putWord (hl : Layout c) {p : Part} (hp : c.Valid p) {a : ℕ}
    (hlo : c.addr p ≤ a) (hhi : a + 4 ≤ c.addr p + c.size p) (mem : Mem) (x : BitVec 32) :
    Only c [p] mem (putWord mem a x) := by
  rw [putWord, put]
  exact hl.only_write hp hlo hhi mem _

theorem Layout.only_apply (hl : Layout c) {p : Part} (hp : c.Valid p) {t : Transfer}
    (hlo : c.addr p ≤ t.dest) (hhi : t.dest + t.len ≤ c.addr p + c.size p) (mem : Mem) :
    Only c [p] mem (t.apply mem) :=
  hl.only_write hp hlo hhi mem _

theorem Layout.kept_put_outside (hl : Layout c) {a : ℕ} {bs : List UInt8}
    (ho : Outside c a bs.length) (mem : Mem) {p : Part} (hp : c.Valid p) :
    Kept c mem (put mem a bs) p :=
  sameOn_write _ (hl.apart_outside ho hp)

end EnbL1Ppc.Ipc.TxReq
