import EnbL1Ppc.Gser.Primitives

namespace EnbL1Ppc.Gser

open Lib Logged

/-!
Where the converters of OCTET STRING and BIT STRING write. The events are the indices into
`st->buf`, which has been reallocated to `new_size + 1` bytes; the result is `st->size` as the
assertion finds it, or `none` where the converter returns -1. The byte behind the string is
written after the assertion, at the index `st->size`.
-/

/-- The loop of `OCTET_STRING__convert_hexadecimal`, with `buf` at `pos`. -/
def hexStores : ℕ → Bool → Text → Logged ℕ (Option (ℕ × Bool))
  | pos, half, [] => pure (some (pos, half))
  | pos, half, c :: rest =>
    if hexIgnored c then hexStores pos half rest
    else
      match hexDigit? c with
      | none => do
        Logged.tell pos
        pure none
      | some _ =>
        if half then do
          Logged.tell pos
          hexStores (pos + 1) false rest
        else hexStores pos true rest

def hexNewSize (chunk : Text) : ℕ :=
  (chunk.length + 1) / 2

def hexConversion (chunk : Text) (haveMore : Bool) : Logged ℕ (Option ℕ) := do
  let r ← hexStores 0 false chunk
  match r with
  | none => pure none
  | some (pos, half) =>
    if half && haveMore then do
      Logged.tell pos
      pure (some (pos + 1))
    else pure (some pos)

/-- The loop of `OCTET_STRING__gser_convert_binary`, with `buf` at `pos`. -/
def binaryStores : ℕ → ℕ → Text → Logged ℕ (Option (ℕ × ℕ))
  | pos, unused, [] => pure (some (pos, unused))
  | pos, unused, c :: rest =>
    if binaryIgnored c then binaryStores pos unused rest
    else if c = 0x30 ∨ c = 0x31 then
      if unused = 0 then do
        Logged.tell (pos + 1)
        Logged.tell (pos + 1)
        binaryStores (pos + 1) 7 rest
      else do
        Logged.tell pos
        binaryStores pos (unused - 1) rest
    else pure none

def binaryConversion (chunk : Text) : Logged ℕ (Option ℕ) :=
  if chunk.length < 3 then pure none
  else do
    let r ← binaryStores 0 8 chunk
    match r with
    | none => pure none
    | some (pos, unused) => pure (some (if unused = 8 then pos else pos + 1))

def conversion (chunk : Text) (next : UInt8) (haveMore : Bool) : Logged ℕ (Option ℕ) :=
  if isHexFormat chunk next then hexConversion chunk haveMore else binaryConversion chunk

def newSize (chunk : Text) (next : UInt8) : ℕ :=
  if isHexFormat chunk next then hexNewSize chunk else binaryNewSize chunk

/-- All writes are inside the buffer, and the assertion holds if it is reached. -/
def SafeConversion (chunk : Text) (next : UInt8) (haveMore : Bool) : Prop :=
  Records (· < newSize chunk next + 1) (fun r ↦ ∀ size, r = some size → size ≤ newSize chunk next)
    (conversion chunk next haveMore)

/-! The indices are those of the octets in the converted string. -/

theorem binaryStores_res (s : BitScan) (chunk : Text) :
    (binaryStores s.full.length s.unused chunk).res =
      some ((binaryLoop s chunk).map fun s' ↦ (s'.full.length, s'.unused)) := by
  induction chunk generalizing s with
  | nil => rfl
  | cons c rest ih =>
    rw [binaryStores, binaryLoop]
    split
    · exact ih s
    · split
      · have hpush := ih (s.push (c &&& 1))
        unfold BitScan.push at hpush ⊢
        split
        · next hu => simpa [hu] using hpush
        · next hu => simpa [hu] using hpush
      · rfl

def bitCount (chunk : Text) : ℕ :=
  chunk.countP fun c ↦ c = 0x30 ∨ c = 0x31

theorem bitCount_cons (c : UInt8) (rest : Text) :
    bitCount (c :: rest) = bitCount rest + if c = 0x30 ∨ c = 0x31 then 1 else 0 := by
  simp [bitCount, List.countP_cons]

theorem not_bit_of_binaryIgnored {c : UInt8} (h : binaryIgnored c = true) :
    ¬ (c = 0x30 ∨ c = 0x31) := by
  rintro (rfl | rfl) <;> exact absurd h (by decide)

def BitScan.stored (s : BitScan) : ℕ :=
  8 * s.full.length + (8 - s.unused)

structure BitScan.Sound (s : BitScan) : Prop where
  unused_le : s.unused ≤ 8
  full_of_unused : s.unused = 8 → s.full = []

theorem BitScan.push_sound {s : BitScan} (h : s.unused ≤ 8) (bit : UInt8) :
    (s.push bit).Sound ∧ (s.push bit).stored = s.stored + 1 := by
  unfold BitScan.push BitScan.stored
  split
  · next hu =>
    simp only [hu, List.length_append, List.length_singleton]
    exact ⟨⟨by simp, by simp⟩, by omega⟩
  · next hu =>
    refine ⟨⟨by dsimp only; omega, fun h' ↦ ?_⟩, ?_⟩
    · dsimp only at h'
      omega
    · dsimp only
      omega

theorem binaryLoop_sound {s s' : BitScan} {chunk : Text} (hs : s.Sound)
    (h : binaryLoop s chunk = some s') : s'.Sound ∧ s'.stored = s.stored + bitCount chunk := by
  induction chunk generalizing s with
  | nil =>
    cases h
    exact ⟨hs, rfl⟩
  | cons c rest ih =>
    rw [binaryLoop] at h
    rw [bitCount_cons]
    split at h
    · next hc =>
      rw [if_neg (not_bit_of_binaryIgnored hc)]
      exact ih hs h
    · split at h
      · next hc =>
        obtain ⟨hpush, hstored⟩ := BitScan.push_sound hs.unused_le (c &&& 1)
        obtain ⟨hs', heq⟩ := ih hpush h
        rw [if_pos hc]
        exact ⟨hs', by omega⟩
      · cases h

theorem convertBinary_length {chunk : Text} {r : List UInt8 × ℕ}
    (h : convertBinary chunk = some r) : r.1.length = (bitCount chunk + 7) / 8 := by
  unfold convertBinary at h
  split at h
  · cases h
  · obtain ⟨s, hs, rfl⟩ := Option.map_eq_some_iff.1 h
    obtain ⟨hsound, hcount⟩ := binaryLoop_sound ⟨Nat.le_refl 8, fun _ ↦ rfl⟩ hs
    have hle := hsound.unused_le
    simp only [BitScan.stored, List.length_nil] at hcount
    split
    · next hu =>
      rw [hu, hsound.full_of_unused hu, List.length_nil] at hcount
      rw [← Nat.zero_add (bitCount chunk), ← hcount]
      rfl
    · next hu =>
      rw [List.length_append, List.length_singleton]
      omega

theorem binaryConversion_res (chunk : Text) :
    (binaryConversion chunk).res = some ((convertBinary chunk).map fun r ↦ r.1.length) := by
  have hres : (binaryStores 0 8 chunk).res = _ := binaryStores_res ⟨[], 0, 8⟩ chunk
  rw [binaryConversion, convertBinary]
  split
  · rfl
  · rw [bind_res hres]
    cases hloop : binaryLoop ⟨[], 0, 8⟩ chunk with
    | none => rfl
    | some s =>
      have hsound := (binaryLoop_sound ⟨Nat.le_refl 8, fun _ ↦ rfl⟩ hloop).1
      by_cases hu : s.unused = 8
      · simp [hu, hsound.full_of_unused hu]
      · simp [hu]

/-! The writes of the two loops. -/

theorem hexStores_records (pos : ℕ) (half : Bool) (chunk : Text) :
    Records (fun k ↦ 2 * k ≤ 2 * pos + half.toNat + chunk.length)
      (fun r ↦ ∀ pos' half', r = some (pos', half') →
        2 * pos' + half'.toNat ≤ 2 * pos + half.toNat + chunk.length)
      (hexStores pos half chunk) := by
  induction chunk generalizing pos half with
  | nil =>
    refine .pure fun pos' half' h ↦ ?_
    cases h
    exact Nat.le_refl _
  | cons c rest ih =>
    have hrest : ∀ {pos₁ half₁}, 2 * pos₁ + half₁.toNat ≤ 2 * pos + half.toNat + 1 →
        Records (fun k ↦ 2 * k ≤ 2 * pos + half.toNat + (c :: rest).length)
          (fun r ↦ ∀ pos' half', r = some (pos', half') →
            2 * pos' + half'.toNat ≤ 2 * pos + half.toNat + (c :: rest).length)
          (hexStores pos₁ half₁ rest) := by
      intro pos₁ half₁ hle
      rw [List.length_cons]
      refine ⟨fun k hk ↦ ?_, fun r hr pos' half' h ↦ ?_⟩
      · have := (ih pos₁ half₁).1 k hk
        omega
      · have := (ih pos₁ half₁).2 r hr pos' half' h
        omega
    rw [hexStores]
    split
    · exact hrest (by omega)
    · split
      · exact .tell_bind (by omega) (.pure nofun)
      · split
        · next hh =>
          refine .tell_bind (by omega) (hrest ?_)
          simp [hh]
          omega
        · next hh => exact hrest (by simp [hh])

theorem binaryStores_writes (pos unused : ℕ) (hu : unused ≤ 8) (chunk : Text) :
    ∀ k ∈ (binaryStores pos unused chunk).log, 8 * k < 8 * pos + (8 - unused) + chunk.length := by
  induction chunk generalizing pos unused with
  | nil => exact fun k hk ↦ absurd hk List.not_mem_nil
  | cons c rest ih =>
    intro k hk
    rw [List.length_cons]
    rw [binaryStores] at hk
    split at hk
    · have := ih pos unused hu k hk
      omega
    · split at hk
      · split at hk
        · rw [tell_bind_log, tell_bind_log] at hk
          rcases List.mem_cons.1 hk with rfl | hk
          · omega
          · rcases List.mem_cons.1 hk with rfl | hk
            · omega
            · have := ih (pos + 1) 7 (by omega) k hk
              omega
        · rw [tell_bind_log] at hk
          rcases List.mem_cons.1 hk with rfl | hk
          · omega
          · have := ih pos (unused - 1) (by omega) k hk
            omega
      · exact absurd hk List.not_mem_nil

theorem hexConversion_safe (chunk : Text) (haveMore : Bool) :
    Records (· < hexNewSize chunk + 1) (fun r ↦ ∀ size, r = some size → size ≤ hexNewSize chunk)
      (hexConversion chunk haveMore) := by
  have hstores := hexStores_records 0 false chunk
  unfold hexNewSize
  refine Records.bind (P := fun r ↦ ∀ pos' half', r = some (pos', half') →
    2 * pos' + half'.toNat ≤ chunk.length) ⟨fun k hk ↦ ?_, fun r hr pos' half' h ↦ ?_⟩ fun r hr ↦ ?_
  · have := hstores.1 k hk
    simp only [Bool.toNat_false] at this
    omega
  · have := hstores.2 r hr pos' half' h
    simp only [Bool.toNat_false] at this
    omega
  · split
    · exact .pure nofun
    · next pos half =>
      have hle := hr pos half rfl
      split
      · next hh =>
        rw [Bool.and_eq_true] at hh
        rw [hh.1, Bool.toNat_true] at hle
        refine .tell_bind (by omega) (.pure fun size h ↦ ?_)
        cases h
        omega
      · refine .pure fun size h ↦ ?_
        cases h
        omega

theorem binaryConversion_writes (chunk : Text) :
    ∀ k ∈ (binaryConversion chunk).log, k < binaryNewSize chunk + 1 := by
  intro k hk
  unfold binaryConversion at hk
  split at hk
  · exact absurd hk List.not_mem_nil
  · rcases mem_bind_log.1 hk with hk | ⟨r, -, hk⟩
    · have := binaryStores_writes 0 8 (Nat.le_refl 8) chunk k hk
      unfold binaryNewSize
      omega
    · split at hk <;> exact absurd hk List.not_mem_nil

theorem binaryLoop_ne_none_iff (s : BitScan) (chunk : Text) :
    binaryLoop s chunk ≠ none ↔ ∀ c ∈ chunk, binaryIgnored c = true ∨ c = 0x30 ∨ c = 0x31 := by
  induction chunk generalizing s with
  | nil => simp [binaryLoop]
  | cons c rest ih =>
    rw [binaryLoop, List.forall_mem_cons]
    split
    · next hc => simp [ih, hc]
    · next hc =>
      split
      · next hbit => simp [ih, hbit]
      · next hbit => simp [hc, hbit]

theorem convertBinary_ne_none_iff (chunk : Text) : convertBinary chunk ≠ none ↔
    3 ≤ chunk.length ∧ ∀ c ∈ chunk, binaryIgnored c = true ∨ c = 0x30 ∨ c = 0x31 := by
  unfold convertBinary
  split
  · next hlt => exact iff_of_false (fun h ↦ h rfl) fun h ↦ absurd h.1 (Nat.not_le_of_lt hlt)
  · next hle =>
    rw [ne_eq, Option.map_eq_none_iff, ← ne_eq, binaryLoop_ne_none_iff]
    exact (and_iff_right (Nat.le_of_not_lt hle)).symm

theorem safeConversion_iff (chunk : Text) (next : UInt8) (haveMore : Bool) :
    SafeConversion chunk next haveMore ↔
      (isHexFormat chunk next = false → 3 ≤ chunk.length →
        (∀ c ∈ chunk, binaryIgnored c = true ∨ c = 0x30 ∨ c = 0x31) →
        (bitCount chunk + 7) / 8 ≤ (chunk.length + 4) / 8) := by
  unfold SafeConversion conversion newSize
  cases hx : isHexFormat chunk next with
  | true => exact iff_of_true (hexConversion_safe chunk haveMore) nofun
  | false =>
    simp only [Bool.false_eq_true, if_false, forall_const]
    constructor
    · rintro ⟨-, hres⟩ hlen hall
      obtain ⟨r, hr⟩ := Option.ne_none_iff_exists'.1 ((convertBinary_ne_none_iff chunk).2 ⟨hlen, hall⟩)
      have hsize := hres _ (binaryConversion_res chunk) r.1.length (by rw [hr]; rfl)
      rw [convertBinary_length hr, binaryNewSize] at hsize
      omega
    · intro hle
      refine ⟨binaryConversion_writes chunk, fun r hr size hsize ↦ ?_⟩
      rw [binaryConversion_res, hsize] at hr
      obtain ⟨octets, hoctets, rfl⟩ := Option.map_eq_some_iff.1 (Option.some.inj hr)
      obtain ⟨hlen, hall⟩ := (convertBinary_ne_none_iff chunk).1 (by simp [hoctets])
      have := hle hlen hall
      rw [convertBinary_length hoctets, binaryNewSize]
      omega

theorem gserConvert_aborted_iff (fill : List UInt8 → ℕ → Value) (chunk : Text) (next : UInt8)
    (haveMore : Bool) :
    gserConvert fill chunk next haveMore = .aborted ↔ ¬ SafeConversion chunk next haveMore := by
  rw [safeConversion_iff, gserConvert]
  cases hx : isHexFormat chunk next with
  | true =>
    refine iff_of_false ?_ (not_not_intro nofun)
    rw [if_pos rfl]
    cases convertHexadecimal chunk haveMore <;> simp [BodyResult.ofOption]
  | false =>
    rw [if_neg (by simp), forall_prop_of_true rfl, ← and_imp, ← convertBinary_ne_none_iff]
    cases hr : convertBinary chunk with
    | none => simp
    | some r =>
      have hlen : 3 ≤ chunk.length := ((convertBinary_ne_none_iff chunk).1 (by simp [hr])).1
      have hsize : r.1.length ≤ binaryNewSize chunk ↔
          (bitCount chunk + 7) / 8 ≤ (chunk.length + 4) / 8 := by
        rw [convertBinary_length hr, binaryNewSize, show chunk.length - 3 + 7 = chunk.length + 4 by omega]
      rw [forall_prop_of_true (Option.some_ne_none r), ← hsize]
      simp only [ite_eq_right_iff, reduceCtorEq, imp_false]

theorem safeConversion_of_letter {q k : UInt8} (hq : q = charSquote ∨ q = cQuote)
    (hk : k = 0x42 ∨ k = 0x48) (body : Text) (next : UInt8) (haveMore : Bool) :
    SafeConversion (q :: (body ++ [q, k])) next haveMore := by
  have hbody : bitCount body ≤ body.length := List.countP_le_length
  have hcount : bitCount (q :: (body ++ [q, k])) = bitCount body := by
    have hq' : ¬ (q = 0x30 ∨ q = 0x31) := by
      rcases hq with rfl | rfl <;> decide
    have hk' : ¬ (k = 0x30 ∨ k = 0x31) := by
      rcases hk with rfl | rfl <;> decide
    simp [bitCount, List.countP_append, hq', hk']
  refine (safeConversion_iff _ next haveMore).2 fun _ _ _ ↦ ?_
  rw [hcount, List.length_cons, List.length_append]
  simp only [List.length_cons, List.length_nil]
  omega

/-- Tokens with their letter are converted safely. The others are if they are read as
hexadecimal, are refused, or do not have too many bits. Where a conversion is not safe the decoder
aborts. -/
theorem gserConvert_safe_iff (next : UInt8) (haveMore : Bool) :
    (∀ (q k : UInt8) (body : Text), q = charSquote ∨ q = cQuote → k = 0x42 ∨ k = 0x48 →
      SafeConversion (q :: (body ++ [q, k])) next haveMore) ∧
    (∀ chunk : Text, SafeConversion chunk next haveMore ↔
      (isHexFormat chunk next = false → 3 ≤ chunk.length →
        (∀ c ∈ chunk, binaryIgnored c = true ∨ c = 0x30 ∨ c = 0x31) →
        (bitCount chunk + 7) / 8 ≤ (chunk.length + 4) / 8)) ∧
    ∀ fill chunk, gserConvert fill chunk next haveMore = .aborted ↔
      ¬ SafeConversion chunk next haveMore :=
  ⟨fun _ _ body hq hk ↦ safeConversion_of_letter hq hk body next haveMore,
    fun chunk ↦ safeConversion_iff chunk next haveMore,
    fun fill chunk ↦ gserConvert_aborted_iff fill chunk next haveMore⟩

theorem gserConvert_safe_iff_oneBit : SafeConversion (ascii "'1'B") 0x20 true :=
  (gserConvert_safe_iff 0x20 true).1 charSquote 0x42 (ascii "1") (.inl rfl) (.inl rfl)

/-- The text `101`, without quotes and letter, as the lexer reads it in front of a space. -/
theorem unquoted_bits_unsafe :
    gserParse 0 .initial (ascii "101 ") = ⟨.initial, some .text, 3⟩ ∧
      ¬ SafeConversion (ascii "101") 0x20 true := by
  refine ⟨by decide, ?_⟩
  rw [safeConversion_iff]
  have hbits : ∀ c ∈ ascii "101", binaryIgnored c = true ∨ c = 0x30 ∨ c = 0x31 := by
    decide +kernel
  exact fun h ↦ absurd (h (by decide) (by decide) hbits) (by decide)

end EnbL1Ppc.Gser
