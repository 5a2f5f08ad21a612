import Mathlib.Data.BitVec
import EnbL1Ppc.Lib.Transfers

namespace EnbL1Ppc.Ipc.UserDma

open Lib Memory Transfers

def maxDmaEntries : ℕ := 144
def dmaAttr : BitVec 32 := 0x00050000
def errDmaListFull : ℤ := 20
def errDmaBusy : ℤ := 21

structure DmaList where
  sattr : BitVec 32
  src : BitVec 32
  dattr : BitVec 32
  dest : BitVec 32
  enlndar : BitVec 32
  nlndar : BitVec 32
  length : BitVec 32
  reserved : BitVec 32
  deriving DecidableEq

/-- The fields in the order in which `fsl_uspace_dma_add_entry` fills them. -/
def DmaList.store (d : DmaList) (mem : Mem) (a : ℕ) : Mem :=
  let mem := putWord mem a d.sattr
  let mem := putWord mem (a + 8) d.dattr
  let mem := putWord mem (a + 16) d.enlndar
  let mem := putWord mem (a + 28) d.reserved
  let mem := putWord mem (a + 4) d.src
  let mem := putWord mem (a + 12) d.dest
  let mem := putWord mem (a + 24) d.length
  putWord mem (a + 20) d.nlndar

def descriptorAt (mem : Mem) (a : ℕ) : DmaList where
  sattr := word mem a
  src := word mem (a + 4)
  dattr := word mem (a + 8)
  dest := word mem (a + 12)
  enlndar := word mem (a + 16)
  nlndar := word mem (a + 20)
  length := word mem (a + 24)
  reserved := word mem (a + 28)

/-- An address of 36 bits, the upper four in the lowest bits of another word. -/
def extended (hi lo : BitVec 32) : ℕ := (hi &&& 0xF).toNat * 2 ^ 32 + lo.toNat

/-- What the controller makes of a descriptor: the lowest bit of `nlndar` ends the list, and the
next descriptor is at a multiple of 32. -/
def DmaList.decode (d : DmaList) : Transfer × Option ℕ :=
  (⟨extended d.sattr d.src, extended d.dattr d.dest, d.length.toNat⟩,
    if d.nlndar &&& 1 = 1 then none else some (extended d.enlndar (d.nlndar &&& ~~~0x1F)))

theorem descriptorAt_congr {mem mem' : Mem} {a : ℕ} (h : SameOn mem mem' a 32) :
    descriptorAt mem' a = descriptorAt mem a := by
  simp only [descriptorAt, h.word_start (by omega), h.word (o := 4) (by omega), h.word (o := 8) (by omega),
    h.word (o := 12) (by omega), h.word (o := 16) (by omega), h.word (o := 20) (by omega),
    h.word (o := 24) (by omega), h.word (o := 28) (by omega)]

def controller : Controller where
  fetch mem a := (descriptorAt mem a).decode
  width := 32
  reads h := by rw [descriptorAt_congr h]

theorem descriptorAt_store (d : DmaList) (mem : Mem) (a : ℕ) :
    descriptorAt (d.store mem a) a = d := by
  cases d
  simp (disch := unfold Memory.Disjoint; omega) only [descriptorAt, DmaList.store,
    word_putWord_of_disjoint, word_putWord_self]

theorem descriptorAt_putWord_nlndar (mem : Mem) (a : ℕ) (x : BitVec 32) :
    descriptorAt (putWord mem (a + 20) x) a = { descriptorAt mem a with nlndar := x } := by
  simp (disch := unfold Memory.Disjoint; omega) only [descriptorAt,
    word_putWord_of_disjoint, word_putWord_self]

theorem DmaList.sameOn_store (d : DmaList) (mem : Mem) {a addr len : ℕ}
    (h : Disjoint a 32 addr len) : SameOn mem (d.store mem a) addr len := by
  have hpart : ∀ {o}, o + 4 ≤ 32 → Disjoint (a + o) 4 addr len := by
    intro o ho
    unfold Memory.Disjoint at *
    omega
  have h0 := hpart (o := 0) (by omega)
  rw [Nat.add_zero] at h0
  exact (sameOn_putWord _ h0).trans <| (sameOn_putWord _ (hpart (by omega))).trans <|
    (sameOn_putWord _ (hpart (by omega))).trans <| (sameOn_putWord _ (hpart (by omega))).trans <|
    (sameOn_putWord _ (hpart (by omega))).trans <| (sameOn_putWord _ (hpart (by omega))).trans <|
    (sameOn_putWord _ (hpart (by omega))).trans <| sameOn_putWord _ (hpart (by omega))

structure Entry where
  src : BitVec 32
  dest : BitVec 64
  length : BitVec 32
  deriving DecidableEq

def Entry.transfer (e : Entry) : Transfer :=
  ⟨e.src.toNat, e.dest.toNat % 2 ^ 36, e.length.toNat⟩

def Entry.descriptor (e : Entry) (dmaList : BitVec 32) (i : ℕ) : DmaList where
  sattr := dmaAttr
  src := e.src
  dattr := dmaAttr ||| ((e.dest >>> 32) &&& 0xF).setWidth 32
  dest := e.dest.setWidth 32
  enlndar := 0
  nlndar := dmaList + BitVec.ofNat 32 ((i + 1) * 32)
  length := e.length
  reserved := 0

theorem extended_dattr (dest : BitVec 64) :
    extended (dmaAttr ||| ((dest >>> 32) &&& 0xF).setWidth 32) (dest.setWidth 32) =
      dest.toNat % 2 ^ 36 := by
  have hnibble : ∀ y : BitVec 4, ((dmaAttr ||| y.setWidth 32) &&& 0xF).toNat = y.toNat := by
    decide
  have hedad : ((dest >>> 32) &&& 0xF).setWidth 32 =
      ((dest >>> 32).setWidth 4).setWidth 32 := by
    apply BitVec.eq_of_toNat_eq
    have hand := Nat.and_two_pow_sub_one_eq_mod (dest.toNat >>> 32) 4
    simp only [BitVec.toNat_setWidth, BitVec.toNat_and, BitVec.toNat_ushiftRight] at hand ⊢
    change (dest.toNat >>> 32 &&& 2 ^ 4 - 1) % 2 ^ 32 = _
    rw [hand]
  rw [extended, hedad, hnibble]
  simp only [BitVec.toNat_setWidth, BitVec.toNat_ushiftRight, Nat.shiftRight_eq_div_pow]
  omega

theorem and_not_31 {x : BitVec 32} (h : x.toNat % 32 = 0) : x &&& ~~~0x1F = x := by
  apply BitVec.eq_of_toNat_eq
  rw [toNat_and_high (k := 5) (by decide)]
  omega

theorem decode_descriptor (e : Entry) {dmaList : BitVec 32} {i : ℕ}
    (haligned : dmaList.toNat % 32 = 0) (hfits : dmaList.toNat + 32 * (i + 1) < 2 ^ 32) :
    (e.descriptor dmaList i).decode = (e.transfer, some (dmaList.toNat + 32 * (i + 1))) := by
  have hnext : (dmaList + BitVec.ofNat 32 ((i + 1) * 32)).toNat =
      dmaList.toNat + 32 * (i + 1) := by
    rw [BitVec.toNat_add, BitVec.toNat_ofNat]
    omega
  have heven : ¬(e.descriptor dmaList i).nlndar &&& 1 = 1 := by
    intro hone
    have hbit := congrArg BitVec.toNat hone
    rw [BitVec.toNat_and, Entry.descriptor, hnext] at hbit
    change _ &&& 1 = 1 at hbit
    rw [Nat.and_one_is_mod] at hbit
    omega
  rw [DmaList.decode, if_neg heven]
  simp only [Entry.descriptor, extended_dattr]
  rw [and_not_31 (by rw [hnext]; omega)]
  simp [Entry.transfer, extended, dmaAttr, hnext]

theorem decode_last (e : Entry) (dmaList : BitVec 32) (i : ℕ) :
    DmaList.decode { e.descriptor dmaList i with nlndar := 1 } = (e.transfer, none) := by
  simp only [DmaList.decode, Entry.descriptor, extended_dattr]
  simp [Entry.transfer, extended, dmaAttr]

/-- `uspace_dma_t`: the list is at `dma_list_mem`, and `cursor` stands for the registers, with the
address of the descriptor that the controller, when busy, goes to next. -/
structure Udma where
  listIndex : ℕ
  dmaList : BitVec 32
  cursor : Option ℕ
  deriving DecidableEq

namespace Udma

def slot (d : Udma) (i : ℕ) : ℕ := d.dmaList.toNat + 32 * i

def listClear (d : Udma) : Udma := { d with listIndex := 0 }

def addEntry (d : Udma) (mem : Mem) (e : Entry) : Udma × Mem × ℤ :=
  if d.listIndex = maxDmaEntries then (d, mem, -errDmaListFull)
  else ({ d with listIndex := d.listIndex + 1 },
    (e.descriptor d.dmaList d.listIndex).store mem (d.slot d.listIndex), 0)

def busy (d : Udma) : Bool := d.cursor.isSome

/-- `fsl_uspace_dma_start`; the end of an empty list would be marked in front of it. -/
def start (d : Udma) (mem : Mem) : Option (Udma × Mem × ℤ) :=
  if d.busy then some (d, mem, -errDmaBusy)
  else if d.listIndex = 0 then none
  else
    some ({ d with listIndex := d.listIndex - 1, cursor := some d.dmaList.toNat },
      putWord mem (d.slot (d.listIndex - 1) + 20) 1, 0)

structure Built (d : Udma) (mem : Mem) (es : List Entry) : Prop where
  index : d.listIndex = es.length
  stored : ∀ j e, es[j]? = some e →
    descriptorAt mem (d.slot j) = e.descriptor d.dmaList j

variable {d : Udma} {mem mem' : Mem} {es : List Entry}

theorem built_listClear (d : Udma) (mem : Mem) : Built d.listClear mem [] :=
  ⟨rfl, by simp⟩

abbrev listSize : ℕ := 32 * maxDmaEntries

theorem sameOn_slot (hm : SameOn mem mem' d.dmaList.toNat listSize) {j : ℕ}
    (hj : j < maxDmaEntries) : SameOn mem mem' (d.slot j) 32 := by
  intro i hi
  have h := hm (32 * j + i) (by unfold listSize; omega)
  rwa [← Nat.add_assoc] at h

theorem Built.same (h : Built d mem es) (hle : es.length ≤ maxDmaEntries)
    (hm : SameOn mem mem' d.dmaList.toNat listSize) : Built d mem' es := by
  refine ⟨h.index, fun j e hj ↦ ?_⟩
  have hlt : j < es.length := (List.getElem?_eq_some_iff.1 hj).1
  rw [descriptorAt_congr (sameOn_slot hm (by omega)), h.stored j e hj]

theorem Built.addEntry (h : Built d mem es) (hlt : es.length < maxDmaEntries) (e : Entry) :
    Built (d.addEntry mem e).1 (d.addEntry mem e).2.1 (es ++ [e]) := by
  have hidx := h.index
  rw [Udma.addEntry, if_neg (by omega)]
  refine ⟨by simp [hidx], fun j e' hj ↦ ?_⟩
  change descriptorAt ((e.descriptor d.dmaList d.listIndex).store mem (d.slot d.listIndex))
    (d.slot j) = e'.descriptor d.dmaList j
  rw [List.getElem?_append] at hj
  split_ifs at hj with hjl
  · have happart : Disjoint (d.slot d.listIndex) 32 (d.slot j) 32 := by
      unfold Memory.Disjoint slot
      omega
    rw [descriptorAt_congr (DmaList.sameOn_store _ mem happart), h.stored j e' hj]
  · obtain ⟨hj0, rfl⟩ : j - es.length = 0 ∧ e = e' := by
      rw [List.getElem?_singleton] at hj
      split_ifs at hj with h0
      exact ⟨h0, Option.some.inj hj⟩
    rw [show j = d.listIndex by omega, descriptorAt_store]

theorem sameOn_addEntry (hidx : d.listIndex ≤ maxDmaEntries) (mem : Mem) (e : Entry)
    {addr len : ℕ} (h : Disjoint d.dmaList.toNat listSize addr len) :
    SameOn mem (d.addEntry mem e).2.1 addr len := by
  unfold Udma.addEntry
  split_ifs with hfull
  · exact .refl _ _ _
  · refine DmaList.sameOn_store _ mem ?_
    unfold Memory.Disjoint slot listSize at *
    omega

theorem sameOn_start {r : Udma × Mem × ℤ} (hidx : d.listIndex ≤ maxDmaEntries)
    (hr : d.start mem = some r) {addr len : ℕ} (h : Disjoint d.dmaList.toNat listSize addr len) :
    SameOn mem r.2.1 addr len := by
  unfold Udma.start at hr
  split_ifs at hr with hbusy hempty
  · cases hr
    exact .refl _ _ _
  · cases hr
    refine sameOn_putWord _ ?_
    unfold Memory.Disjoint slot listSize at *
    omega

structure Placed (d : Udma) : Prop where
  aligned : d.dmaList.toNat % 32 = 0
  fits : d.dmaList.toNat + listSize < 2 ^ 32

theorem Built.start (h : Built d mem es) (hd : d.Placed) (hle : es.length ≤ maxDmaEntries)
    (hne : es ≠ []) (hidle : d.cursor = none) :
    ∃ mem', d.start mem =
        some ({ d with listIndex := es.length - 1, cursor := some d.dmaList.toNat }, mem', 0) ∧
      controller.Chain d.dmaList.toNat listSize mem' (some d.dmaList.toNat)
        (es.map Entry.transfer) := by
  have hidx := h.index
  have hpos : 0 < es.length := List.length_pos_of_ne_nil hne
  have hfits := hd.fits
  refine ⟨putWord mem (d.slot (d.listIndex - 1) + 20) 1, ?_, ?_⟩
  · rw [Udma.start, if_neg (by simp [busy, hidle]), if_neg (by omega), hidx]
  · have hstart : Controller.start d.dmaList.toNat (es.map Entry.transfer) =
        some d.dmaList.toNat := by
      rw [Controller.start, if_neg (by simpa using hne)]
    have hroom : d.dmaList.toNat + controller.width * (es.map Entry.transfer).length ≤
        d.dmaList.toNat + listSize := by
      simp only [controller, List.length_map, listSize]
      omega
    rw [← hstart]
    refine Controller.chain_of_table le_rfl hroom fun j t hj ↦ ?_
    obtain ⟨e, he, rfl⟩ : ∃ e, es[j]? = some e ∧ e.transfer = t := by
      simpa [List.getElem?_map, Option.map_eq_some_iff] using hj
    have hjl : j < es.length := (List.getElem?_eq_some_iff.1 he).1
    have hstored := h.stored j e he
    change (descriptorAt _ (d.slot j)).decode = _
    rw [List.length_map]
    split_ifs with hlast
    · rw [show d.listIndex - 1 = j by omega, descriptorAt_putWord_nlndar, hstored]
      exact decode_last e d.dmaList j
    · have happart : Disjoint (d.slot (d.listIndex - 1) + 20) 4 (d.slot j) 32 := by
        unfold Memory.Disjoint slot
        omega
      rw [descriptorAt_congr (sameOn_putWord _ happart), hstored]
      exact decode_descriptor e hd.aligned (by unfold listSize at hfits; omega)

end Udma

end EnbL1Ppc.Ipc.UserDma
