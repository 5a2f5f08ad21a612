import EnbL1Ppc.DspBoot.Image

namespace EnbL1Ppc.DspBoot

open Lib Memory

theorem toNat_and_mapAreaMask (x : BitVec 64) :
    (x &&& mapAreaMask).toNat = x.toNat / 0x1000 * 0x1000 :=
  toNat_and_high (k := 12) (by decide) x

theorem toNat_signExtend_of_lt {x : BitVec 32} (h : x.toNat < 2 ^ 31) :
    (x.signExtend 64).toNat = x.toNat := by
  have hmsb : x.msb = false := BitVec.msb_eq_false_iff_two_mul_lt.2 (by omega)
  rw [BitVec.signExtend_eq_setWidth_of_msb_false hmsb, BitVec.toNat_setWidth]
  omega

theorem toNat_srem_page {x : BitVec 32} (h : x.toNat < 2 ^ 31) :
    (x.srem 0x1000).toNat = x.toNat % 0x1000 := by
  have hmsb : x.msb = false := BitVec.msb_eq_false_iff_two_mul_lt.2 (by omega)
  have hpage : (0x1000 : BitVec 32).msb = false := by decide
  rw [BitVec.srem, hmsb, hpage]
  exact BitVec.toNat_umod

theorem mapSize_covers {physAddr sz : BitVec 64} (hsz : sz.toNat + 0x2000 ≤ 2 ^ 31)
    (hphys : physAddr.toNat + sz.toNat + 0x1000 < 2 ^ 64) :
    physAddr.toNat % 0x1000 + sz.toNat ≤ (mapSize physAddr sz).toNat := by
  have hsize : (sz.setWidth 32).toNat = sz.toNat := by
    rw [BitVec.toNat_setWidth]
    omega
  have hext := toNat_signExtend_of_lt (x := sz.setWidth 32) (by omega)
  have hbase := toNat_and_mapAreaMask physAddr
  have hpage : (physAddr &&& mapAreaMask) + 0x1000 < physAddr + (sz.setWidth 32).signExtend 64 ↔
      physAddr.toNat / 0x1000 * 0x1000 + 0x1000 < physAddr.toNat + sz.toNat := by
    rw [BitVec.lt_def, BitVec.toNat_add, BitVec.toNat_add, hbase, hext, hsize]
    change (_ + 0x1000) % _ < _ ↔ _
    rw [Nat.mod_eq_of_lt (by omega), Nat.mod_eq_of_lt (by omega)]
  have hround : ∀ y : BitVec 32, y.toNat < 2 ^ 31 →
      (y + (0x1000 - y.srem 0x1000)).toNat = y.toNat + (0x1000 - y.toNat % 0x1000) := by
    intro y hy
    rw [BitVec.toNat_add, BitVec.toNat_sub, toNat_srem_page hy]
    change (_ + (2 ^ 32 - _ + 0x1000) % _) % _ = _
    omega
  unfold mapSize
  dsimp only
  split_ifs with hif
  · have hsum : (sz.setWidth 32 + 0x1000).toNat = sz.toNat + 0x1000 := by
      rw [BitVec.toNat_add, hsize]
      change (_ + 0x1000) % _ = _
      omega
    have hpages : (((sz.setWidth 32 + 0x1000).signExtend 64 &&& mapAreaMask).setWidth 32).toNat =
        (sz.toNat + 0x1000) / 0x1000 * 0x1000 := by
      rw [BitVec.toNat_setWidth, toNat_and_mapAreaMask, toNat_signExtend_of_lt (by omega), hsum]
      omega
    rw [hround _ (by omega), hpages]
    omega
  · rw [hpage] at hif
    rw [hround _ (by omega), hsize]
    omega

inductive Section
  | skipped (addr : BitVec 64)
  | intvec (addr : BitVec 64)
  | register (addr : BitVec 64) (value : BitVec 32)
  | part (addr : BitVec 64) (data : List UInt8)

namespace Section

def addr : Section → BitVec 64
  | skipped addr => addr
  | intvec _ => 0xFFFFFFFFFFFFFFFF
  | register addr _ => addr
  | part addr _ => addr

def data : Section → List UInt8
  | skipped _ => []
  | intvec addr => be64 addr
  | register _ value => bigEndian value
  | part _ data => data

def encode (x : Section) : List UInt8 :=
  be64 x.addr ++ be64 (BitVec.ofNat 64 x.data.length) ++ x.data

def WellFormed (b : Boot) : Section → Prop
  | skipped _ | intvec _ => True
  | register addr _ => b.mapped addr ∧ addr &&& b.paCcsrbar = b.paCcsrbar ∧
      addr.toNat + 0x2000 < 2 ^ 64
  | part addr data => b.mapped addr ∧ addr &&& b.paCcsrbar ≠ b.paCcsrbar ∧ data ≠ [] ∧
      data.length + 0x2000 ≤ 2 ^ 31 ∧ addr.toNat + data.length + 0x1000 < 2 ^ 64

def load (x : Section) (k : ℕ) (s : Load) : Load :=
  match x with
  | skipped _ => s
  | intvec addr =>
    { s with intvecAddr := ofBe64 (overwrite (be64 s.intvecAddr) ((be64 addr).take k)) }
  | register addr value =>
    { s with
      regVal32 := ofBigEndian (overwrite (bigEndian s.regVal32) ((bigEndian value).take k))
      mem := if k < 4 then s.mem else put s.mem addr.toNat (bigEndian value) }
  | part addr data => { s with mem := put s.mem addr.toNat (data.take k) }

def ret : Section → ℤ
  | part _ _ => -1
  | _ => 0

def cut (x : Section) (k : ℕ) (s : Load) : Load × ℤ :=
  if k < 16 then (s, 0) else (x.load (k - 16) s, x.ret)

theorem length_encode (x : Section) : x.encode.length = 16 + x.data.length := by
  simp [encode]
  omega

end Section

theorem freadAddr_be64 (x : BitVec 64) (file : List UInt8) :
    freadAddr (be64 x ++ file) = some (x, file) := by
  have hlen := length_be64 x
  rw [freadAddr, if_pos (by simp), List.take_left' hlen, List.drop_left' hlen, ofBe64_be64]

theorem freadAddr_short {file : List UInt8} (h : file.length < 8) : freadAddr file = none := by
  rw [freadAddr, if_neg (by omega)]

theorem loadRound_header (b : Boot) (s : Load) (addr size : BitVec 64) (file : List UInt8) :
    loadRound b s (be64 addr ++ be64 size ++ file) = loadSection b s addr size file := by
  rw [List.append_assoc, loadRound, freadAddr_be64]
  dsimp only
  rw [freadAddr_be64]

theorem loadRound_short {b : Boot} {s : Load} {file : List UInt8} (h : file.length < 16) :
    loadRound b s file = some (s, .inl 0) := by
  unfold loadRound
  rcases Nat.lt_or_ge file.length 8 with h8 | h8
  · rw [freadAddr_short h8]
  · have hrest : (file.drop 8).length < 8 := by
      rw [List.length_drop]
      omega
    rw [freadAddr, if_pos h8]
    dsimp only
    rw [freadAddr_short hrest]

theorem overwrite_of_length_le {old data : List UInt8} (h : old.length ≤ data.length) :
    overwrite old data = data := by
  rw [overwrite, List.drop_eq_nil_of_le h, List.append_nil]

namespace Section

variable {b : Boot} {s : Load} {x : Section}

theorem loadPart_eq {addr : BitVec 64} {data : List UInt8}
    (hwf : (part addr data).WellFormed b) {file : List UInt8}
    (hfile : file.take data.length = data.take file.length) :
    loadSection b s addr (BitVec.ofNat 64 data.length) file =
      some ((part addr data).load file.length s,
        if file.length < data.length then .inl (-1) else .inr (file.drop data.length)) := by
  obtain ⟨hmap, hccsr, hne, hlen, haddr⟩ := hwf
  have hsize : (BitVec.ofNat 64 data.length).toNat = data.length := by
    rw [BitVec.toNat_ofNat]
    omega
  have hpos : 0 < data.length := List.length_pos_of_ne_nil hne
  have hzero : BitVec.ofNat 64 data.length ≠ 0 := by
    intro h
    have hnat := congrArg BitVec.toNat h
    rw [hsize] at hnat
    change data.length = 0 at hnat
    omega
  have hint : ¬(addr = 0xFFFFFFFFFFFFFFFF ∧ BitVec.ofNat 64 data.length = 8) := by
    rintro ⟨rfl, -⟩
    change 0xFFFFFFFFFFFFFFFF + _ + _ < _ at haddr
    omega
  have hcover : addr.toNat % 0x1000 + (BitVec.ofNat 64 data.length).toNat ≤
      (mapSize addr (BitVec.ofNat 64 data.length)).toNat :=
    mapSize_covers (by omega) (by omega)
  have hstore : addr.toNat % 0x1000 + (file.take data.length).length ≤
      (mapSize addr (BitVec.ofNat 64 data.length)).toNat := by
    rw [List.length_take]
    omega
  rw [loadSection, if_neg hzero, if_neg hint, if_neg hccsr, loadPart, mapArea64, if_pos hmap]
  dsimp only
  rw [hsize, Nat.mod_eq_of_lt (by omega), Load.store, if_pos hstore, Option.map_some, hfile]
  rfl

theorem loadRegister_eq {addr : BitVec 64} {value : BitVec 32}
    (hwf : (register addr value).WellFormed b) {file : List UInt8}
    (hfile : file.take 4 = (bigEndian value).take file.length) :
    loadSection b s addr 4 file =
      some ((register addr value).load file.length s,
        if file.length < 4 then .inl 0 else .inr (file.drop 4)) := by
  obtain ⟨hmap, hccsr, haddr⟩ := hwf
  have hend : addr.toNat + (4 : BitVec 64).toNat + 0x1000 < 2 ^ 64 := by
    change addr.toNat + 4 + 0x1000 < _
    omega
  have hcover := mapSize_covers (by decide) hend
  change _ + 4 ≤ _ at hcover
  have hsize : (4 : BitVec 64).toNat = 4 := rfl
  rw [loadSection, if_neg (by decide), if_neg (fun h ↦ absurd h.2 (by decide)), if_pos hccsr,
    loadRegister, mapArea64, if_pos hmap]
  dsimp only
  rw [hsize, if_neg (by simp), hfile]
  rcases Nat.lt_or_ge file.length 4 with hlt | hge
  · rw [if_pos hlt, if_pos hlt, load, if_pos hlt]
  · have hall : (bigEndian value).take file.length = bigEndian value :=
      List.take_of_length_le (by simpa using hge)
    rw [if_neg (by omega), if_neg (by omega), Load.store, if_pos (by simpa using hcover), load,
      if_neg (by omega), hall, overwrite_of_length_le (by simp), ofBigEndian_bigEndian]
    rfl

theorem loadIntvec_eq (addr : BitVec 64) {file : List UInt8}
    (hfile : file.take 8 = (be64 addr).take file.length) :
    loadSection b s 0xFFFFFFFFFFFFFFFF 8 file =
      some ((intvec addr).load file.length s,
        if file.length < 8 then .inl 0 else .inr (file.drop 8)) := by
  rw [loadSection, if_neg (by decide), if_pos ⟨rfl, rfl⟩]
  rcases Nat.lt_or_ge file.length 8 with hlt | hge
  · have hall : file = (be64 addr).take file.length := by
      rw [← hfile, List.take_of_length_le hlt.le]
    rw [freadAddr_short hlt, if_pos hlt, load, ← hall]
  · have hall : (be64 addr).take file.length = be64 addr :=
      List.take_of_length_le (by simpa using hge)
    have hover : overwrite (be64 s.intvecAddr) (be64 addr) = be64 addr :=
      overwrite_of_length_le (by simp)
    rw [freadAddr, if_pos hge, if_neg (by omega), load, hfile, hall, hover, ofBe64_be64]

theorem loadSection_eq (hwf : x.WellFormed b) {file : List UInt8}
    (hfile : file.take x.data.length = x.data.take file.length) :
    loadSection b s x.addr (BitVec.ofNat 64 x.data.length) file =
      some (x.load file.length s,
        if file.length < x.data.length then .inl x.ret else .inr (file.drop x.data.length)) := by
  cases x with
  | skipped addr => simp [loadSection, data, load]
  | intvec addr => exact loadIntvec_eq addr hfile
  | register addr value => exact loadRegister_eq hwf hfile
  | part addr data => exact loadPart_eq hwf hfile

theorem load_of_le {k : ℕ} (h : x.data.length ≤ k) (s : Load) :
    x.load k s = x.load x.data.length s := by
  have htake : x.data.take k = x.data.take x.data.length := by
    rw [List.take_of_length_le h, List.take_length]
  cases x with
  | skipped addr => rfl
  | intvec addr | part addr bytes =>
    simp only [load, data] at htake ⊢
    rw [htake]
  | register addr value =>
    have hk : ¬k < 4 := Nat.not_lt.2 h
    simp only [load, data, length_bigEndian, lt_irrefl, hk] at htake ⊢
    rw [htake]

theorem loadRound_encode (hwf : x.WellFormed b) (s : Load) (rest : List UInt8) :
    loadRound b s (x.encode ++ rest) = some (x.load x.data.length s, .inr rest) := by
  have hle : x.data.length ≤ (x.data ++ rest).length := by simp
  rw [encode, List.append_assoc, loadRound_header, loadSection_eq hwf (by simp), load_of_le hle,
    if_neg (by omega), List.drop_left]

theorem loadRound_take (hwf : x.WellFormed b) (s : Load) {k : ℕ} (hk : k < x.encode.length) :
    loadRound b s (x.encode.take k) = some ((x.cut k s).1, .inl (x.cut k s).2) := by
  have hlen := x.length_encode
  rcases Nat.lt_or_ge k 16 with hshort | hlong
  · rw [loadRound_short (by rw [List.length_take]; omega), cut, if_pos hshort]
  · have hheader : (be64 x.addr ++ be64 (BitVec.ofNat 64 x.data.length)).length = 16 := rfl
    have hdata : (x.data.take (k - 16)).length = k - 16 := by
      rw [List.length_take]
      omega
    rw [encode, List.take_append, hheader, List.take_of_length_le (by rw [hheader]; exact hlong),
      loadRound_header, loadSection_eq hwf, hdata, if_pos (by omega), cut, if_neg (by omega)]
    rw [hdata, List.take_of_length_le (by rw [hdata]; omega)]

end Section

structure Image (b : Boot) where
  endian : UInt8
  sections : List Section
  wellFormed : ∀ x ∈ sections, x.WellFormed b

def encodeAll (xs : List Section) : List UInt8 := xs.flatMap Section.encode

def Image.encode {b : Boot} (i : Image b) : List UInt8 := i.endian :: encodeAll i.sections

def loadAll (xs : List Section) (s : Load) : Load :=
  xs.foldl (fun s x ↦ x.load x.data.length s) s

def cutAll (front back : List Section) (k : ℕ) (s : Load) : Load × ℤ :=
  match back with
  | [] => (loadAll front s, 0)
  | x :: _ => x.cut k (loadAll front s)

theorem loadLoop_take {b : Boot} {xs : List Section} (hwf : ∀ x ∈ xs, x.WellFormed b) (s : Load)
    (k : ℕ) : ∃ front back, xs = front ++ back ∧ (encodeAll front).length ≤ k ∧
      (∀ x ∈ back.head?, k < (encodeAll front).length + x.encode.length) ∧
      loadLoop b s ((encodeAll xs).take k) =
        some (cutAll front back (k - (encodeAll front).length) s) := by
  induction xs generalizing s k with
  | nil =>
    refine ⟨[], [], rfl, by simp [encodeAll], by simp, ?_⟩
    exact loadLoop_stop (loadRound_short (by simp [encodeAll]))
  | cons x xs ih =>
    have hx : x.WellFormed b := hwf x (by simp)
    have hcons : encodeAll (x :: xs) = x.encode ++ encodeAll xs := List.flatMap_cons
    rcases Nat.lt_or_ge k x.encode.length with hlt | hge
    · refine ⟨[], x :: xs, rfl, by simp [encodeAll], by simpa [encodeAll] using hlt, ?_⟩
      rw [hcons, List.take_append_of_le_length hlt.le]
      exact loadLoop_stop (Section.loadRound_take hx s hlt)
    · obtain ⟨front, back, rfl, hfront, hback, hload⟩ := ih (fun y hy ↦ hwf y (by simp [hy]))
        (x.load x.data.length s) (k - x.encode.length)
      have hcons' : encodeAll (x :: front) = x.encode ++ encodeAll front := List.flatMap_cons
      refine ⟨x :: front, back, rfl, ?_, fun y hy ↦ ?_, ?_⟩
      · rw [hcons', List.length_append]
        omega
      · have hy := hback y hy
        rw [hcons', List.length_append]
        omega
      · rw [hcons, List.take_append, List.take_of_length_le hge,
          loadLoop_next (Section.loadRound_encode hx s _), hload, hcons', List.length_append,
          Nat.sub_add_eq]
        rfl

theorem eq_nil_of_length_le {front back : List Section} {k : ℕ}
    (hk : (encodeAll (front ++ back)).length ≤ k)
    (hback : ∀ x ∈ back.head?, k < (encodeAll front).length + x.encode.length) : back = [] := by
  cases back with
  | nil => rfl
  | cons x back =>
    have hx := hback x rfl
    simp only [encodeAll, List.flatMap_append, List.flatMap_cons, List.length_append] at hk hx
    omega

/-- An image whose file ends after `k` bytes, anywhere: the sections that are whole have been loaded
in their order and nothing of those behind, and the end of the file goes unnoticed unless it is
inside the data of a part. -/
theorem loadDspImage_take {b : Boot} (i : Image b) (s : Load) (k : ℕ) :
    ∃ front back, i.sections = front ++ back ∧
      (encodeAll front).length ≤ k - 1 ∧
      (∀ x ∈ back.head?, k - 1 < (encodeAll front).length + x.encode.length) ∧
      (i.encode.length ≤ k → back = []) ∧
      loadDspImage b s (i.encode.take k) =
        some (cutAll front back (k - 1 - (encodeAll front).length) s) := by
  cases k with
  | zero =>
    refine ⟨[], i.sections, rfl, by simp [encodeAll], fun x _ ↦ ?_, by simp [Image.encode], ?_⟩
    · have hlen := x.length_encode
      simp only [encodeAll, List.flatMap_nil, List.length_nil]
      omega
    · cases i.sections with
      | nil => rfl
      | cons x xs => rfl
  | succ k =>
    obtain ⟨front, back, hsplit, hfront, hback, hload⟩ := loadLoop_take i.wellFormed s k
    refine ⟨front, back, hsplit, hfront, hback, fun hk ↦ ?_, hload⟩
    rw [Image.encode, hsplit, List.length_cons] at hk
    exact eq_nil_of_length_le (by omega) hback

def smallBoot : Boot := ⟨[⟨0x80000000, 0x1000⟩], 0xFFE000000⟩

def smallImage : Image smallBoot where
  endian := 0
  sections := [.intvec 0x80000000, .part 0x80000010 [1, 2, 3]]
  wellFormed := by
    simp only [List.forall_mem_cons, List.not_mem_nil, IsEmpty.forall_iff, implies_true, and_true]
    exact ⟨trivial, by decide, by decide, by decide, by decide, by decide⟩

-- The part lacks its last byte; then it lacks its size, which nobody notices.
example (s : Load) : ∃ s', loadDspImage smallBoot s (smallImage.encode.take 43) = some (s', -1) :=
  ⟨_, (loadLoop_next rfl).trans (loadLoop_stop rfl)⟩

example (s : Load) : loadDspImage smallBoot s (smallImage.encode.take 38) =
    some ({ s with intvecAddr := 0x80000000 }, 0) :=
  (loadLoop_next rfl).trans (loadLoop_stop rfl)

end EnbL1Ppc.DspBoot
