import Mathlib.Data.List.Range
import Mathlib.Order.Basic
import Mathlib.Tactic

namespace EnbL1Ppc.Lib.Memory

abbrev Mem := ℕ → UInt8

def read (mem : Mem) (addr len : ℕ) : List UInt8 :=
  (List.range len).map fun i ↦ mem (addr + i)

def write (mem : Mem) (addr : ℕ) (src : ℕ → UInt8) (len : ℕ) : Mem := fun a ↦
  if addr ≤ a ∧ a < addr + len then src (a - addr) else mem a

def bytes (src : ℕ → UInt8) (len : ℕ) : List UInt8 :=
  (List.range len).map src

def Disjoint (a len a' len' : ℕ) : Prop := a + len ≤ a' ∨ a' + len' ≤ a

theorem Disjoint.symm {a len a' len' : ℕ} (h : Disjoint a len a' len') :
    Disjoint a' len' a len := Or.symm h

theorem Disjoint.mono {a len a' len' m m' : ℕ} (h : Disjoint a len a' len') (hm : m ≤ len)
    (hm' : m' ≤ len') : Disjoint a m a' m' := by
  unfold Disjoint at *
  omega

@[simp] theorem length_read (mem : Mem) (addr len : ℕ) : (read mem addr len).length = len := by
  simp [read]

theorem read_add (mem : Mem) (a m n : ℕ) :
    read mem a (m + n) = read mem a m ++ read mem (a + m) n := by
  simp [read, List.range_add, Nat.add_assoc]

theorem read_write_self (mem : Mem) (addr : ℕ) (src : ℕ → UInt8) (len : ℕ) :
    read (write mem addr src len) addr len = bytes src len := by
  refine List.map_congr_left fun i hi ↦ ?_
  have hi := List.mem_range.1 hi
  rw [write, if_pos (by omega), Nat.add_sub_cancel_left]

theorem read_write_disjoint {mem : Mem} {addr len addr' len' : ℕ} (src : ℕ → UInt8)
    (h : Disjoint addr len addr' len') :
    read (write mem addr src len) addr' len' = read mem addr' len' := by
  refine List.map_congr_left fun i hi ↦ ?_
  have hi := List.mem_range.1 hi
  unfold Disjoint at h
  rw [write, if_neg (by omega)]

def SameOn (m m' : Mem) (addr len : ℕ) : Prop := ∀ i < len, m' (addr + i) = m (addr + i)

theorem SameOn.refl (m : Mem) (addr len : ℕ) : SameOn m m addr len := fun _ _ ↦ rfl

theorem SameOn.read {m m' : Mem} {addr len : ℕ} (h : SameOn m m' addr len) {o l : ℕ}
    (hl : o + l ≤ len) : read m' (addr + o) l = read m (addr + o) l := by
  refine List.map_congr_left fun i hi ↦ ?_
  have hi := List.mem_range.1 hi
  rw [Nat.add_assoc, h (o + i) (by omega)]

theorem SameOn.read_start {m m' : Mem} {addr len l : ℕ} (h : SameOn m m' addr len)
    (hl : l ≤ len) : Memory.read m' addr l = Memory.read m addr l :=
  h.read (o := 0) (by omega)

theorem SameOn.trans {m m' m'' : Mem} {addr len : ℕ} (h : SameOn m m' addr len)
    (h' : SameOn m' m'' addr len) : SameOn m m'' addr len :=
  fun i hi ↦ (h' i hi).trans (h i hi)

theorem SameOn.write {m m' : Mem} {addr len : ℕ} (h : SameOn m m' addr len) (a : ℕ)
    (src : ℕ → UInt8) (l : ℕ) : SameOn (write m a src l) (write m' a src l) addr len := by
  intro i hi
  unfold Memory.write
  split
  · rfl
  · exact h i hi

theorem sameOn_write {mem : Mem} {a l addr len : ℕ} (src : ℕ → UInt8)
    (h : Disjoint a l addr len) : SameOn mem (write mem a src l) addr len := by
  intro i hi
  unfold Disjoint at h
  rw [Memory.write, if_neg (by omega)]

def put (mem : Mem) (addr : ℕ) (bs : List UInt8) : Mem :=
  write mem addr (fun i ↦ bs.getD i 0) bs.length

theorem read_put_self (mem : Mem) (addr : ℕ) (bs : List UInt8) :
    read (put mem addr bs) addr bs.length = bs := by
  rw [put, read_write_self, bytes]
  refine List.ext_getElem (by simp) fun i h₁ h₂ ↦ ?_
  simp [List.getElem?_eq_getElem h₂]

theorem read_put_disjoint {mem : Mem} {addr addr' len : ℕ} {bs : List UInt8}
    (h : Disjoint addr bs.length addr' len) :
    read (put mem addr bs) addr' len = read mem addr' len := read_write_disjoint _ h

theorem SameOn.put {m m' : Mem} {addr len : ℕ} (h : SameOn m m' addr len) (a : ℕ)
    (bs : List UInt8) : SameOn (put m a bs) (put m' a bs) addr len :=
  h.write a _ _

def bigEndian (x : BitVec 32) : List UInt8 :=
  [.ofNat (x.toNat / 2 ^ 24), .ofNat (x.toNat / 2 ^ 16), .ofNat (x.toNat / 2 ^ 8), .ofNat x.toNat]

def ofBigEndian : List UInt8 → BitVec 32
  | [a, b, c, d] =>
    BitVec.ofNat 32 (a.toNat * 2 ^ 24 + b.toNat * 2 ^ 16 + c.toNat * 2 ^ 8 + d.toNat)
  | _ => 0

@[simp] theorem length_bigEndian (x : BitVec 32) : (bigEndian x).length = 4 := rfl

@[simp] theorem ofBigEndian_bigEndian (x : BitVec 32) : ofBigEndian (bigEndian x) = x := by
  have hx := x.isLt
  apply BitVec.eq_of_toNat_eq
  simp only [bigEndian, ofBigEndian, UInt8.toNat_ofNat', BitVec.toNat_ofNat]
  omega

def word (mem : Mem) (addr : ℕ) : BitVec 32 := ofBigEndian (read mem addr 4)

def putWord (mem : Mem) (addr : ℕ) (x : BitVec 32) : Mem := put mem addr (bigEndian x)

@[simp] theorem word_putWord_self (mem : Mem) (addr : ℕ) (x : BitVec 32) :
    word (putWord mem addr x) addr = x := by
  have h := read_put_self mem addr (bigEndian x)
  rw [length_bigEndian] at h
  rw [word, putWord, h, ofBigEndian_bigEndian]

theorem word_putWord_of_disjoint {a b : ℕ} (h : Disjoint a 4 b 4) (mem : Mem) (x : BitVec 32) :
    word (putWord mem a x) b = word mem b := by
  rw [word, word, putWord, read_put_disjoint (by simpa using h)]

theorem SameOn.word {m m' : Mem} {addr len o : ℕ} (h : SameOn m m' addr len) (ho : o + 4 ≤ len) :
    word m' (addr + o) = word m (addr + o) := by
  rw [Memory.word, Memory.word, h.read ho]

theorem SameOn.word_start {m m' : Mem} {addr len : ℕ} (h : SameOn m m' addr len) (hl : 4 ≤ len) :
    Memory.word m' addr = Memory.word m addr :=
  h.word (o := 0) (by omega)

theorem sameOn_putWord {mem : Mem} {a addr len : ℕ} (x : BitVec 32) (h : Disjoint a 4 addr len) :
    SameOn mem (putWord mem a x) addr len := by
  rw [putWord, put]
  exact sameOn_write _ h

theorem toNat_and_high {w k : ℕ} {mask : BitVec w}
    (hmask : ∀ i : Fin w, mask[i] = decide (k ≤ i.val)) (x : BitVec w) :
    (x &&& mask).toNat = x.toNat / 2 ^ k * 2 ^ k := by
  have hshift : x &&& mask = (x >>> k) <<< k := by
    ext i hi
    have hbit := hmask ⟨i, hi⟩
    rw [Fin.getElem_fin] at hbit
    rw [BitVec.getElem_and, hbit, BitVec.getElem_shiftLeft, BitVec.getElem_ushiftRight]
    rcases Nat.lt_or_ge i k with hlt | hge
    · simp [hlt, Nat.not_le.2 hlt]
    · simp [hge, Nat.not_lt.2 hge, Nat.add_sub_cancel' hge, BitVec.getLsbD_eq_getElem hi]
  have hle := Nat.div_mul_le_self x.toNat (2 ^ k)
  rw [hshift, BitVec.toNat_shiftLeft, BitVec.toNat_ushiftRight, Nat.shiftLeft_eq,
    Nat.shiftRight_eq_div_pow, Nat.mod_eq_of_lt (hle.trans_lt x.isLt)]

end EnbL1Ppc.Lib.Memory
