import Mathlib.Data.BitVec
import EnbL1Ppc.Lib.Memory

namespace EnbL1Ppc.DspBoot

open Lib Memory

def be64 (x : BitVec 64) : List UInt8 :=
  bigEndian (x.extractLsb' 32 32) ++ bigEndian (x.extractLsb' 0 32)

def ofBe64 (bs : List UInt8) : BitVec 64 :=
  ofBigEndian (bs.take 4) ++ ofBigEndian (bs.drop 4)

@[simp] theorem length_be64 (x : BitVec 64) : (be64 x).length = 8 := rfl

@[simp] theorem ofBe64_be64 (x : BitVec 64) : ofBe64 (be64 x) = x := by
  have h₁ : (be64 x).take 4 = bigEndian (x.extractLsb' 32 32) := rfl
  have h₂ : (be64 x).drop 4 = bigEndian (x.extractLsb' 0 32) := rfl
  rw [ofBe64, h₁, h₂, ofBigEndian_bigEndian, ofBigEndian_bigEndian]
  apply BitVec.eq_of_toNat_eq
  have hx := x.isLt
  simp only [BitVec.toNat_append, BitVec.extractLsb'_toNat, Nat.shiftRight_eq_div_pow]
  rw [← Nat.shiftLeft_add_eq_or_of_lt (Nat.mod_lt _ (by decide)), Nat.shiftLeft_eq]
  omega

def overwrite (old data : List UInt8) : List UInt8 := data ++ old.drop data.length

structure Area where
  physAddr : BitVec 64
  size : BitVec 32

/-- What `load_dsp_image` reads of `dsp_bt_t`: the areas that may be mapped, and the address of
the registers. -/
structure Boot where
  mapD : List Area
  paCcsrbar : BitVec 64

/-- Memory, `intvec_addr`, and the variable that register values are read into. -/
structure Load where
  mem : Mem
  intvecAddr : BitVec 64
  regVal32 : BitVec 32

def mapAreaMask : BitVec 64 := 0xFFFFFFFFFFFFF000

def mapSize (physAddr sz : BitVec 64) : BitVec 32 :=
  let size : BitVec 32 := sz.setWidth 32
  let nphysAddr := physAddr &&& mapAreaMask
  let size :=
    if nphysAddr + 0x1000 < physAddr + size.signExtend 64 then
      ((size + 0x1000).signExtend 64 &&& mapAreaMask).setWidth 32
    else size
  size + (0x1000 - size.srem 0x1000)

def Boot.mapped (b : Boot) (physAddr : BitVec 64) : Bool :=
  b.mapD.any fun m ↦ m.physAddr ≤ physAddr && physAddr < m.physAddr + m.size.setWidth 64

/-- `map_area64` and `map_area64_cache`, which map the page of the address and those behind it. -/
def mapArea64 (b : Boot) (physAddr sz : BitVec 64) : Option ℕ :=
  if b.mapped physAddr then some (mapSize physAddr sz).toNat else none

def Load.store (s : Load) (physAddr : BitVec 64) (len : ℕ) (bs : List UInt8) : Option Load :=
  if physAddr.toNat % 0x1000 + bs.length ≤ len then
    some { s with mem := put s.mem physAddr.toNat bs }
  else none

def freadAddr (file : List UInt8) : Option (BitVec 64 × List UInt8) :=
  if 8 ≤ file.length then some (ofBe64 (file.take 8), file.drop 8) else none

abbrev Outcome := ℤ ⊕ List UInt8

/-- A register: the value is read, whatever its size, into a variable of four bytes. -/
def loadRegister (b : Boot) (s : Load) (addr size : BitVec 64) (file : List UInt8) :
    Option (Load × Outcome) :=
  match mapArea64 b addr size with
  | none => some (s, .inl (-1))
  | some len =>
    let data := file.take size.toNat
    if 4 < data.length then none
    else
      let s := { s with regVal32 := ofBigEndian (overwrite (bigEndian s.regVal32) data) }
      if file.length < size.toNat then some (s, .inl 0)
      else (s.store addr len (bigEndian s.regVal32)).map (·, .inr (file.drop size.toNat))

def loadPart (b : Boot) (s : Load) (addr size : BitVec 64) (file : List UInt8) :
    Option (Load × Outcome) :=
  match mapArea64 b addr size with
  | none => some (s, .inl (-1))
  | some len =>
    let n := size.toNat % 2 ^ 32
    (s.store addr len (file.take n)).map
      (·, if file.length < n then .inl (-1) else .inr (file.drop n))

/-- A round of the loop of `load_dsp_image` behind its reads of `addr` and `size`. -/
def loadSection (b : Boot) (s : Load) (addr size : BitVec 64) (file : List UInt8) :
    Option (Load × Outcome) :=
  if size = 0 then some (s, .inr file)
  else if addr = 0xFFFFFFFFFFFFFFFF ∧ size = 8 then
    match freadAddr file with
    | none => some ({ s with intvecAddr := ofBe64 (overwrite (be64 s.intvecAddr) file) }, .inl 0)
    | some (intvecAddr, file) => some ({ s with intvecAddr := intvecAddr }, .inr file)
  else if addr &&& b.paCcsrbar = b.paCcsrbar then loadRegister b s addr size file
  else loadPart b s addr size file

def loadRound (b : Boot) (s : Load) (file : List UInt8) : Option (Load × Outcome) :=
  match freadAddr file with
  | none => some (s, .inl 0)
  | some (addr, file) =>
    match freadAddr file with
    | none => some (s, .inl 0)
    | some (size, file) => loadSection b s addr size file

theorem freadAddr_shortens {file rest : List UInt8} {x : BitVec 64}
    (h : freadAddr file = some (x, rest)) : rest.length < file.length := by
  unfold freadAddr at h
  split_ifs at h
  cases h
  rw [List.length_drop]
  omega

theorem loadSection_length_le {b : Boot} {s s' : Load} {addr size : BitVec 64}
    {file rest : List UInt8} (h : loadSection b s addr size file = some (s', .inr rest)) :
    rest.length ≤ file.length := by
  unfold loadSection at h
  split_ifs at h with hsize hint hccsr
  · cases h
    exact le_rfl
  · split at h
    · cases h
    next hread =>
      cases h
      exact (freadAddr_shortens hread).le
  · unfold loadRegister at h
    split at h
    · cases h
    · dsimp only at h
      split_ifs at h
      · cases h
      · obtain ⟨_, _, he⟩ := Option.map_eq_some_iff.1 h
        cases he
        simp
  · unfold loadPart at h
    split at h
    · cases h
    · obtain ⟨_, _, he⟩ := Option.map_eq_some_iff.1 h
      split_ifs at he
      · cases he
      · cases he
        simp

theorem loadRound_shortens {b : Boot} {s s' : Load} {file rest : List UInt8}
    (h : loadRound b s file = some (s', .inr rest)) : rest.length < file.length := by
  unfold loadRound at h
  split at h
  · cases h
  next addr file₁ h₁ =>
    have hlt₁ := freadAddr_shortens h₁
    split at h
    · cases h
    next size file₂ h₂ =>
      have hlt₂ := freadAddr_shortens h₂
      have hle := loadSection_length_le h
      omega

def loadLoop (b : Boot) (s : Load) (file : List UInt8) : Option (Load × ℤ) :=
  match _h : loadRound b s file with
  | none => none
  | some (s', .inl ret) => some (s', ret)
  | some (s', .inr rest) => loadLoop b s' rest
termination_by file.length
decreasing_by exact loadRound_shortens _h

/-- `load_dsp_image` of a file that can be opened: the first byte is skipped, and the end of the
file ends the loop before the first round only if not even that byte can be read. -/
def loadDspImage (b : Boot) (s : Load) : List UInt8 → Option (Load × ℤ)
  | [] => some (s, 0)
  | _ :: file => loadLoop b s file

theorem loadLoop_stop {b : Boot} {s s' : Load} {file : List UInt8} {ret : ℤ}
    (h : loadRound b s file = some (s', .inl ret)) : loadLoop b s file = some (s', ret) := by
  rw [loadLoop]
  split <;> simp_all

theorem loadLoop_next {b : Boot} {s s' : Load} {file rest : List UInt8}
    (h : loadRound b s file = some (s', .inr rest)) : loadLoop b s file = loadLoop b s' rest := by
  rw [loadLoop]
  split <;> simp_all

end EnbL1Ppc.DspBoot
