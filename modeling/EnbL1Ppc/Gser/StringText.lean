import EnbL1Ppc.Gser.Grammar
import EnbL1Ppc.Gser.Primitives

namespace EnbL1Ppc.Gser

theorem booleanType_writes (b : Bool) :
    booleanType.Writes (.boolean b) (if b then ascii "TRUE" else ascii "FALSE") where
  lexeme := by
    have hid : IsIdentifier (if b then ascii "TRUE" else ascii "FALSE") := by
      cases b <;> decide
    exact ⟨.text, rfl, fun _ hr ↦ hid.lexeme hr⟩
  received := by
    refine ⟨.boolean b, rfl, fun _ _ _ ↦ ?_⟩
    cases b <;> rfl

theorem nullType_writes : nullType.Writes .null (ascii "NULL") where
  lexeme := by
    have hid : IsIdentifier (ascii "NULL") := by decide
    exact ⟨.text, rfl, fun _ hr ↦ hid.lexeme hr⟩
  received := ⟨.null, rfl, fun _ _ _ ↦ rfl⟩

section Quoted

def quoted (body : Text) (k : UInt8) : Text :=
  charSquote :: (body ++ [charSquote, k])

theorem formatSpecifier_quoted {body : Text} {k next : UInt8} (hnext : ¬ InText next)
    (hk : k = 0x42 ∨ k = 0x48) : formatSpecifier (quoted body k) next = some k := by
  have hnext' : (next = 0x42 || next = 0x62 || next = 0x48 || next = 0x68) = false := by
    by_contra h
    simp only [Bool.not_eq_false, Bool.or_eq_true, decide_eq_true_eq] at h
    rcases h with ((rfl | rfl) | rfl) | rfl <;> exact hnext (by decide)
  have hrev : ((quoted body k).tail ++ [next]).reverse =
      next :: k :: charSquote :: body.reverse := by simp [quoted]
  rw [formatSpecifier, if_neg (by simp [quoted]), hrev, List.find?_cons_of_neg (by simp [hnext']),
    List.find?_cons_of_pos]
  rcases hk with rfl | rfl <;> rfl

end Quoted

section Hexadecimal

theorem nibbles (b : UInt8) : (b >>> 4) &&& 0x0f = UInt8.ofNat (b.toNat / 16) ∧
    b &&& 0x0f = UInt8.ofNat (b.toNat % 16) := by
  have hb := b.toNat_lt
  have hmod : ∀ n : ℕ, n &&& 15 = n % 16 := fun n ↦ Nat.and_two_pow_sub_one_eq_mod n 4
  constructor <;> rw [← UInt8.toNat_inj, UInt8.toNat_and, UInt8.toNat_ofNat'] <;>
    simp [hmod, Nat.shiftRight_eq_div_pow] <;> omega

theorem hexDigit_h2c : ∀ n < 16, hexIgnored (h2c (UInt8.ofNat n)) = false ∧
    hexDigit? (h2c (UInt8.ofNat n)) = some (UInt8.ofNat n) ∧ h2c (UInt8.ofNat n) ≠ charSquote := by
  decide

theorem join_nibbles (x b : UInt8) :
    (x <<< 4 + UInt8.ofNat (b.toNat / 16)) <<< 4 + UInt8.ofNat (b.toNat % 16) = b := by
  have hb := b.toNat_lt
  rw [← UInt8.toNat_inj]
  simp [Nat.shiftLeft_eq]
  omega

structure HexText (text : Text) (bytes : List UInt8) : Prop where
  no_quote : ∀ c ∈ text, c ≠ charSquote
  loop : ∀ (i : ℕ) (s : HexScan) (rest : Text), s.half = false →
    ∃ (j : ℕ) (s' : HexScan), hexLoop i s (text ++ rest) = hexLoop j s' rest ∧ s'.half = false ∧
      s'.out = s.out ++ bytes

theorem HexText.append {text text' : Text} {bytes bytes' : List UInt8} (h : HexText text bytes)
    (h' : HexText text' bytes') : HexText (text ++ text') (bytes ++ bytes') where
  no_quote := by
    intro c hc
    rcases List.mem_append.1 hc with hc | hc
    · exact h.no_quote c hc
    · exact h'.no_quote c hc
  loop := by
    intro i s rest hs
    obtain ⟨j, s₁, he, hs₁, ho⟩ := h.loop i s (text' ++ rest) hs
    obtain ⟨k, s₂, he', hs₂, ho'⟩ := h'.loop j s₁ rest hs₁
    exact ⟨k, s₂, by rw [List.append_assoc, he, he'], hs₂, by rw [ho', ho, List.append_assoc]⟩

theorem hexText_blank {ws : Text} (h : Blank ws) : HexText ws [] where
  no_quote := by
    rintro c hc rfl
    exact absurd (h _ hc) (by decide)
  loop := by
    induction ws with
    | nil => exact fun i s rest hs ↦ ⟨i, s, rfl, hs, by simp⟩
    | cons w ws ih =>
      intro i s rest hs
      have hw : hexIgnored w = true := by simp [hexIgnored, h w (by simp)]
      rw [List.cons_append, hexLoop, if_pos hw]
      exact ih (fun c hc ↦ h c (by simp [hc])) (i + 1) s rest hs

theorem hexText_hexByte (b : UInt8) : HexText (hexByte b) [b] := by
  have hb := b.toNat_lt
  obtain ⟨hhi, hlo⟩ := nibbles b
  obtain ⟨hi₁, hi₂, hi₃⟩ := hexDigit_h2c (b.toNat / 16) (by omega)
  obtain ⟨lo₁, lo₂, lo₃⟩ := hexDigit_h2c (b.toNat % 16) (by omega)
  unfold hexByte
  rw [hhi, hlo]
  refine ⟨by simp [hi₃, lo₃], fun i s rest hs ↦ ⟨i + 2, ⟨b, false, s.out ++ [b], i + 2⟩, ?_⟩⟩
  simp [hexLoop, hi₁, hi₂, lo₁, lo₂, hs, join_nibbles]

theorem hexText_flatMap (bytes : List UInt8) : HexText (bytes.flatMap hexByte) bytes := by
  induction bytes with
  | nil => exact hexText_blank (by simp [Blank])
  | cons b bytes ih =>
    rw [List.flatMap_cons]
    exact (hexText_hexByte b).append ih

theorem blank_textIndent (newline : Bool) (level : ℕ) : Blank (textIndent newline level) := by
  intro c hc
  rcases List.mem_append.1 hc with hc | hc
  · cases newline
    · cases hc
    · rw [List.mem_singleton.1 hc]
      decide
  · rw [List.eq_of_mem_replicate hc]
    decide

theorem hexText_dumpLines (ilevel size i : ℕ) (bytes : List UInt8) :
    HexText (dumpLines ilevel size i bytes).dropLast bytes := by
  induction bytes generalizing i with
  | nil => exact hexText_blank (by simp [Blank, dumpLines])
  | cons b bytes ih =>
    have hsep : HexText
        (if i % 16 = 0 ∧ (i ≠ 0 ∨ 16 < size) then textIndent true ilevel else []) [] := by
      split
      · exact hexText_blank (blank_textIndent _ _)
      · exact hexText_blank (by simp [Blank])
    rw [dumpLines, List.dropLast_append_of_ne_nil (by simp),
      List.dropLast_append_of_ne_nil (by simp)]
    refine hsep.append ((hexText_hexByte b).append ?_)
    cases bytes with
    | nil => exact hexText_blank (by simp [Blank, dumpLines])
    | cons b' bytes =>
      have hne : dumpLines ilevel size (i + 1) (b' :: bytes) ≠ [] := by simp [dumpLines]
      have hspace : HexText [0x20] [] := hexText_blank (by decide)
      rw [List.dropLast_cons_of_ne_nil hne]
      exact hspace.append (ih (i + 1))

theorem convertHexadecimal_quoted {body : Text} {bytes : List UInt8} (h : HexText body bytes)
    (more : Bool) : convertHexadecimal (quoted body 0x48) more =
      some ((quoted body 0x48).length, bytes) := by
  obtain ⟨j, s, he, hs, ho⟩ := h.loop 1 ⟨0, false, [], 0⟩ [charSquote, 0x48] rfl
  have hopen : hexLoop 0 ⟨0, false, [], 0⟩ (quoted body 0x48) =
      hexLoop 1 ⟨0, false, [], 0⟩ (body ++ [charSquote, 0x48]) := rfl
  have hclose : hexLoop j s [charSquote, 0x48] = some s := rfl
  rw [convertHexadecimal, hopen, he, hclose]
  simp [hs, ho]

theorem octetString_writes {body : Text} {bytes : List UInt8} (h : HexText body bytes) :
    octetString.Writes (.octets bytes) (quoted body 0x48) where
  lexeme := ⟨.hstring, rfl, fun rest _ ↦ lexeme_string rest h.no_quote (.inr ⟨rfl, rfl⟩)⟩
  received := by
    refine ⟨.octets bytes, rfl, fun next more hnext ↦ ?_⟩
    simp [octetString, stringDecoder, gserConvert, isHexFormat,
      formatSpecifier_quoted hnext (.inr rfl), convertHexadecimal_quoted h, BodyResult.ofOption]

theorem octetStringEncode_eq (flags : EncoderFlags) (ilevel : ℕ) (bytes : List UInt8) :
    ∃ body, HexText body bytes ∧ octetStringEncode flags ilevel bytes = quoted body 0x48 := by
  cases flags with
  | canonical => exact ⟨_, hexText_flatMap bytes, rfl⟩
  | basic =>
    have hend : HexText (if 16 < bytes.length then textIndent true (ilevel - 1) else []) [] := by
      split
      · exact hexText_blank (blank_textIndent _ _)
      · exact hexText_blank (by simp [Blank])
    have h := (hexText_dumpLines ilevel bytes.length 0 bytes).append hend
    rw [List.append_nil] at h
    exact ⟨_, h, rfl⟩

end Hexadecimal

section Binary

def BitScan.At (s : BitScan) (bytes : List UInt8) : Prop :=
  s = ⟨bytes, 0, 8⟩ ∨ s.unused = 0 ∧ s.full ++ [s.cell] = bytes

theorem BitScan.At.push {s : BitScan} {bytes : List UInt8} (h : s.At bytes) (bit : UInt8) :
    s.push bit = BitScan.push ⟨bytes, 0, 8⟩ bit := by
  rcases h with rfl | ⟨h0, rfl⟩
  · rfl
  · simp [BitScan.push, h0]

def highBits (b : UInt8) (n : ℕ) : UInt8 :=
  UInt8.ofNat (b.toNat / 2 ^ (8 - n) * 2 ^ (8 - n))

theorem toNat_highBits (b : UInt8) (n : ℕ) :
    (highBits b n).toNat = b.toNat / 2 ^ (8 - n) * 2 ^ (8 - n) := by
  have hb := b.toNat_lt
  have hle := Nat.div_mul_le_self b.toNat (2 ^ (8 - n))
  rw [highBits, UInt8.toNat_ofNat', Nat.mod_eq_of_lt (by omega)]

theorem highBits_eq {b : UInt8} {n : ℕ} (h : b.toNat % 2 ^ (8 - n) = 0) : highBits b n = b := by
  have hb := b.toNat_lt
  rw [highBits, Nat.div_mul_cancel (Nat.dvd_of_mod_eq_zero h), UInt8.ofNat_toNat]

theorem bitChar_cases (b : UInt8) (i : ℕ) :
    bitChar b i = 0x30 ∧ b.toNat / 2 ^ i % 2 = 0 ∨ bitChar b i = 0x31 ∧ b.toNat / 2 ^ i % 2 = 1 := by
  unfold bitChar
  rw [Nat.testBit_eq_decide_div_mod_eq]
  rcases Nat.mod_two_eq_zero_or_one (b.toNat / 2 ^ i) with h | h <;> simp [h]

theorem bitChar_and (b : UInt8) (i : ℕ) :
    (bitChar b i &&& 1).toNat = b.toNat / 2 ^ i % 2 := by
  rcases bitChar_cases b i with ⟨h, h'⟩ | ⟨h, h'⟩ <;> rw [h, h'] <;> rfl

theorem binaryLoop_bitChar (s : BitScan) (b : UInt8) (i : ℕ) (rest : Text) :
    binaryLoop s (bitChar b i :: rest) = binaryLoop (s.push (bitChar b i &&& 1)) rest := by
  rcases bitChar_cases b i with ⟨h, -⟩ | ⟨h, -⟩ <;> rw [h] <;> rfl

theorem push_highBits (bytes : List UInt8) (b : UInt8) {n : ℕ} (hn : n < 8) :
    BitScan.push ⟨bytes, highBits b n, 8 - n⟩ (bitChar b (7 - n) &&& 1) =
      ⟨bytes, highBits b (n + 1), 8 - (n + 1)⟩ := by
  obtain ⟨k, hk⟩ : ∃ k, 8 - n = k + 1 := ⟨7 - n, by omega⟩
  have hk7 : 7 - n = k := by omega
  have hk8 : 8 - (n + 1) = k := by omega
  have hbit : ((bitChar b k &&& 1) <<< UInt8.ofNat k).toNat = b.toNat / 2 ^ k % 2 * 2 ^ k := by
    have hpow : 2 ^ k ≤ 2 ^ 7 := Nat.pow_le_pow_right (by omega) (by omega)
    have hle : b.toNat / 2 ^ k % 2 * 2 ^ k ≤ 1 * 2 ^ k := Nat.mul_le_mul_right _ (by omega)
    rw [UInt8.toNat_shiftLeft, bitChar_and, UInt8.toNat_ofNat', Nat.shiftLeft_eq,
      show k % 2 ^ 8 % 8 = k by omega, Nat.mod_eq_of_lt (by omega)]
  have hcell : highBits b n ||| (bitChar b k &&& 1) <<< UInt8.ofNat k = highBits b (n + 1) := by
    have hlt : b.toNat / 2 ^ k % 2 * 2 ^ k < 2 ^ (k + 1) := by
      rw [Nat.pow_succ']
      exact Nat.mul_lt_mul_of_pos_right (Nat.mod_lt _ (by omega)) (Nat.two_pow_pos k)
    rw [← UInt8.toNat_inj, UInt8.toNat_or, hbit, toNat_highBits, toNat_highBits, hk, hk8,
      ← Nat.shiftLeft_eq, ← Nat.shiftLeft_add_eq_or_of_lt hlt, Nat.shiftLeft_eq, Nat.pow_succ,
      ← Nat.div_div_eq_div_mul, Nat.mul_comm (2 ^ k) 2, ← Nat.mul_assoc, ← Nat.add_mul]
    congr 1
    omega
  rw [hk7, hk8, hk, BitScan.push, if_neg (by simp)]
  simp [hcell]

theorem binaryLoop_dumpBits {s : BitScan} {bytes : List UInt8} (h : s.At bytes) (b : UInt8) {n : ℕ}
    (h1 : 1 ≤ n) (h8 : n ≤ 8) (rest : Text) :
    binaryLoop s (dumpBits b n ++ rest) = binaryLoop ⟨bytes, highBits b n, 8 - n⟩ rest := by
  induction n generalizing rest with
  | zero => omega
  | succ n ih =>
    have hsplit : dumpBits b (n + 1) = dumpBits b n ++ [bitChar b (7 - n)] := by
      simp [dumpBits, List.range_succ]
    rw [hsplit, List.append_assoc, List.singleton_append]
    cases n with
    | zero =>
      have hzero : highBits b 0 = 0 := by
        have hb := b.toNat_lt
        rw [highBits, Nat.div_eq_of_lt (by omega)]
        rfl
      rw [show dumpBits b 0 = [] from rfl, List.nil_append, binaryLoop_bitChar, h.push]
      have hpush := push_highBits bytes b (n := 0) (by omega)
      rw [hzero] at hpush
      rw [← hpush]
    | succ n => rw [ih (by omega) (by omega), binaryLoop_bitChar, push_highBits bytes b (by omega)]

theorem binaryLoop_flatMap {s : BitScan} {bytes : List UInt8} (h : s.At bytes) (l : List UInt8) :
    ∃ s', s'.At (bytes ++ l) ∧
      ∀ rest, binaryLoop s (l.flatMap (dumpBits · 8) ++ rest) = binaryLoop s' rest := by
  induction l generalizing s bytes with
  | nil => exact ⟨s, by rwa [List.append_nil], fun _ ↦ rfl⟩
  | cons b l ih =>
    have hall : highBits b 8 = b := highBits_eq (Nat.mod_one _)
    have hstep := binaryLoop_dumpBits h b (by omega) (Nat.le_refl 8)
    rw [hall] at hstep
    have hat : BitScan.At ⟨bytes, b, 0⟩ (bytes ++ [b]) := .inr ⟨rfl, rfl⟩
    obtain ⟨s', hs', hl⟩ := ih hat
    refine ⟨s', by rwa [List.append_assoc] at hs', fun rest ↦ ?_⟩
    rw [List.flatMap_cons, List.append_assoc, hstep, ← hl rest]

def bitText (bytes : List UInt8) (unused : ℕ) : Text :=
  bytes.dropLast.flatMap (dumpBits · 8) ++
    bytes.getLast?.elim [] fun b ↦ dumpBits b (8 - unused)

structure CleanBits (bytes : List UInt8) (unused : ℕ) : Prop where
  lt : unused < 8
  nil : bytes = [] → unused = 0
  clean : ∀ b, bytes.getLast? = some b → b.toNat % 2 ^ unused = 0

theorem convertBinary_quoted {bytes : List UInt8} {unused : ℕ} (h : CleanBits bytes unused) :
    convertBinary (quoted (bitText bytes unused) 0x42) = some (bytes, unused) := by
  have hopen : binaryLoop ⟨[], 0, 8⟩ (quoted (bitText bytes unused) 0x42) =
      binaryLoop ⟨[], 0, 8⟩ (bitText bytes unused ++ [charSquote, 0x42]) := rfl
  have hclose : ∀ s, binaryLoop s [charSquote, 0x42] = some s := fun _ ↦ rfl
  have hlen : ¬ (quoted (bitText bytes unused) 0x42).length < 3 := by
    simp [quoted]
  rw [convertBinary, if_neg hlen, hopen]
  rcases List.eq_nil_or_concat bytes with rfl | ⟨l, b, rfl⟩
  · simp [bitText, hclose, h.nil rfl]
  · have hlt := h.lt
    have htop : highBits b (8 - unused) = b := by
      apply highBits_eq
      rw [show 8 - (8 - unused) = unused by omega]
      exact h.clean b (by simp)
    obtain ⟨s, hs, hl⟩ := binaryLoop_flatMap (s := ⟨[], 0, 8⟩) (.inl rfl) l
    have htext : bitText (l ++ [b]) unused ++ [charSquote, 0x42] =
        l.flatMap (dumpBits · 8) ++ (dumpBits b (8 - unused) ++ [charSquote, 0x42]) := by
      simp [bitText]
    rw [List.concat_eq_append] at *
    rw [htext, hl, binaryLoop_dumpBits hs b (by omega) (by omega), hclose, htop,
      show 8 - (8 - unused) = unused by omega, Option.map_some, if_neg (by simp only; omega)]
    rfl

theorem length_le_binaryNewSize (bytes : List UInt8) {unused : ℕ} (h : unused < 8) :
    bytes.length ≤ binaryNewSize (quoted (bitText bytes unused) 0x42) := by
  rcases List.eq_nil_or_concat bytes with rfl | ⟨l, b, rfl⟩
  · exact Nat.zero_le _
  · have hlen : (quoted (bitText (l ++ [b]) unused) 0x42).length = l.length * 8 + (8 - unused) + 3 := by
      simp [quoted, bitText, dumpBits, List.length_flatMap, List.map_const', Nat.add_assoc]
    rw [List.concat_eq_append, binaryNewSize, hlen, List.length_append, List.length_singleton]
    omega

theorem dumpBits_no_quote (b : UInt8) (n : ℕ) : ∀ c ∈ dumpBits b n, c ≠ charSquote := by
  rintro c hc rfl
  obtain ⟨k, -, he⟩ := List.mem_map.1 hc
  rcases bitChar_cases b (7 - k) with ⟨h, -⟩ | ⟨h, -⟩ <;> rw [h] at he <;>
    exact absurd he (by decide)

theorem bitString_writes {bytes : List UInt8} {unused : ℕ} (h : CleanBits bytes unused) :
    bitString.Writes (.bits bytes unused) (quoted (bitText bytes unused) 0x42) where
  lexeme := by
    refine ⟨.bstring, rfl, fun rest _ ↦ lexeme_string rest ?_ (.inl ⟨rfl, rfl⟩)⟩
    intro c hc
    rcases List.mem_append.1 hc with hc | hc
    · obtain ⟨b, -, hc⟩ := List.mem_flatMap.1 hc
      exact dumpBits_no_quote b 8 c hc
    · cases hlast : bytes.getLast? with
      | none => simp [hlast] at hc
      | some b =>
        rw [hlast] at hc
        exact dumpBits_no_quote b _ c hc
  received := by
    refine ⟨.bits bytes unused, rfl, fun next more hnext ↦ ?_⟩
    simp [bitString, stringDecoder, gserConvert, isHexFormat,
      formatSpecifier_quoted hnext (.inl rfl), convertBinary_quoted h,
      length_le_binaryNewSize bytes h.lt]

theorem bitStringEncode_eq (bytes : List UInt8) (unused : ℕ) :
    bitStringEncode bytes unused = quoted (bitText bytes unused) 0x42 := by
  simp [bitStringEncode, quoted, bitText, charSquote]
  rfl

end Binary

end EnbL1Ppc.Gser
