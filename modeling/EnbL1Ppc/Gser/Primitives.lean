import EnbL1Ppc.Gser.Integer

namespace EnbL1Ppc.Gser

def ascii (s : String) : Text :=
  s.toList.map fun c ↦ UInt8.ofNat c.toNat

def toLower (c : UInt8) : UInt8 :=
  if 0x41 ≤ c ∧ c ≤ 0x5a then c + 0x20 else c

/-- Equal up to the case of letters, as `strncasecmp` tests after the lengths agree. -/
def equalsIgnoringCase (a b : Text) : Bool :=
  a.map toLower = b.map toLower

def booleanBodyDecode (chunk : Text) : Option Value :=
  if equalsIgnoringCase chunk (ascii "TRUE") then some (.boolean true)
  else if equalsIgnoringCase chunk (ascii "FALSE") then some (.boolean false)
  else none

def nullBodyDecode (chunk : Text) : Option Value :=
  if chunk = ascii "NULL" then some .null else none

/-- A type that `gser_decode_primitive` decodes with the given body decoder. -/
def plainDecoder (decode : Text → Option Value) (zero : Value) (encode : Value → Option Text) :
    Primitive where
  wrapped := true
  xmlTag := none
  receive chunk _ _ := primitiveBody decode chunk
  receive_le := primitiveBody_le
  convert := some
  zero := zero
  encode _ _ := encode

def booleanType : Primitive :=
  plainDecoder booleanBodyDecode (.boolean false) fun
    | .boolean b => some (if b then ascii "TRUE" else ascii "FALSE")
    | _ => none

def nullType : Primitive :=
  plainDecoder nullBodyDecode .null fun
    | .null => some (ascii "NULL")
    | _ => none

/-- The variables of the loop in `OCTET_STRING__convert_hexadecimal`. Only the low byte of
`clv` is ever stored. -/
structure HexScan where
  clv : UInt8
  half : Bool
  out : List UInt8
  stop : ℕ

def hexDigit? (c : UInt8) : Option UInt8 :=
  if isDigit c then some (c - 0x30)
  else if 0x41 ≤ c ∧ c ≤ 0x46 then some (c - 0x41 + 10)
  else if 0x61 ≤ c ∧ c ≤ 0x66 then some (c - 0x61 + 10)
  else none

def hexIgnored (c : UInt8) : Bool :=
  isWhitespace c || c = 0x27 || c = 0x48

def hexLoop : ℕ → HexScan → Text → Option HexScan
  | _, s, [] => some s
  | i, s, c :: rest =>
    if hexIgnored c then hexLoop (i + 1) s rest
    else
      match hexDigit? c with
      | none => none
      | some d =>
        let clv := s.clv <<< 4 + d
        if s.half then hexLoop (i + 1) ⟨clv, false, s.out ++ [clv], i + 1⟩ rest
        else hexLoop (i + 1) ⟨clv, true, s.out, s.stop⟩ rest

def convertHexadecimal (chunk : Text) (haveMore : Bool) : Option (ℕ × List UInt8) :=
  (hexLoop 0 ⟨0, false, [], 0⟩ chunk).map fun s ↦
    if s.half then
      if haveMore then (chunk.length, s.out ++ [s.clv <<< 4]) else (s.stop, s.out)
    else (chunk.length, s.out)

/-- The variables of the loop in `OCTET_STRING__gser_convert_binary`: the full octets, the
octet `*buf` and `bits_unused`. -/
structure BitScan where
  full : List UInt8
  cell : UInt8
  unused : ℕ

def binaryIgnored (c : UInt8) : Bool :=
  isWhitespace c || c = 0x27 || c = 0x42

/-- Append one bit. A full octet has `unused = 0`, and `unused = 8` only before the first. -/
def BitScan.push (s : BitScan) (bit : UInt8) : BitScan :=
  if s.unused = 0 then ⟨s.full ++ [s.cell], bit <<< 7, 7⟩
  else ⟨s.full, s.cell ||| bit <<< UInt8.ofNat (s.unused - 1), s.unused - 1⟩

def binaryLoop : BitScan → Text → Option BitScan
  | s, [] => some s
  | s, c :: rest =>
    if binaryIgnored c then binaryLoop s rest
    else if c = 0x30 ∨ c = 0x31 then binaryLoop (s.push (c &&& 1)) rest
    else none

def convertBinary (chunk : Text) : Option (List UInt8 × ℕ) :=
  if chunk.length < 3 then none
  else
    (binaryLoop ⟨[], 0, 8⟩ chunk).map fun s ↦
      if s.unused = 8 then ([], 0) else (s.full ++ [s.cell], s.unused)

/-- The byte that decides between binary and hexadecimal: the search runs backwards from the
byte behind the token and stops in front of its first byte. -/
def formatSpecifier (chunk : Text) (next : UInt8) : Option UInt8 :=
  if chunk = [] then none
  else (chunk.tail ++ [next]).reverse.find? fun c ↦ c = 0x42 || c = 0x62 || c = 0x48 || c = 0x68

def isHexFormat (chunk : Text) (next : UInt8) : Bool :=
  formatSpecifier chunk next = some 0x48 || formatSpecifier chunk next = some 0x68

/-- `new_size` of `OCTET_STRING__gser_convert_binary`, where two quotes and the letter B are
not counted. -/
def binaryNewSize (chunk : Text) : ℕ :=
  (chunk.length - 3 + 7) / 8

/-- `OCTET_STRING__gser_convert`, which fills in an OCTET STRING or a BIT STRING. The binary
converter asserts that it has stored no more octets than it has estimated. -/
def gserConvert (fill : List UInt8 → ℕ → Value) (chunk : Text) (next : UInt8)
    (haveMore : Bool) : BodyResult :=
  if isHexFormat chunk next then
    .ofOption ((convertHexadecimal chunk haveMore).map fun r ↦ (r.1, fill r.2 0))
  else
    match convertBinary chunk with
    | some r =>
      if r.1.length ≤ binaryNewSize chunk then .converted chunk.length (fill r.1 r.2) else .aborted
    | none => .refused

theorem hexLoop_stop_le {i : ℕ} {s s' : HexScan} {chunk : Text} (hs : s.stop ≤ i + chunk.length)
    (h : hexLoop i s chunk = some s') : s'.stop ≤ i + chunk.length := by
  induction chunk generalizing i s with
  | nil =>
    cases h
    exact hs
  | cons c rest ih =>
    rw [List.length_cons] at hs ⊢
    rw [hexLoop] at h
    split at h
    · have := ih (by omega) h
      omega
    · split at h
      · cases h
      · split at h
        · have := ih (by simp only; omega) h
          omega
        · have := ih (by simp only; omega) h
          omega

theorem gserConvert_le {fill : List UInt8 → ℕ → Value} {chunk : Text} {next : UInt8}
    {haveMore : Bool} {n : ℕ} {v : Value}
    (h : gserConvert fill chunk next haveMore = .converted n v) : n ≤ chunk.length := by
  unfold gserConvert at h
  split at h
  · simp only [BodyResult.ofOption_eq_converted, convertHexadecimal, Option.map_map,
      Option.map_eq_some_iff, Function.comp_apply, Prod.mk.injEq] at h
    obtain ⟨s, hs, hn, -⟩ := h
    have hstop := hexLoop_stop_le (Nat.zero_le _) hs
    rw [← hn]
    split
    · split
      · exact Nat.le_refl _
      · simpa using hstop
    · exact Nat.le_refl _
  · split at h
    · split at h
      · cases h
        exact Nat.le_refl _
      · cases h
    · cases h

def stringDecoder (fill : List UInt8 → ℕ → Value)
    (encode : EncoderFlags → ℕ → Value → Option Text) : Primitive where
  wrapped := false
  xmlTag := none
  receive := gserConvert fill
  receive_le := gserConvert_le
  convert := some
  zero := fill [] 0
  encode := encode

def textIndent (newline : Bool) (level : ℕ) : Text :=
  (if newline then [0x0a] else []) ++ List.replicate (4 * level) 0x20

def h2c (d : UInt8) : UInt8 :=
  if d < 10 then 0x30 + d else 0x41 + (d - 10)

def hexByte (b : UInt8) : Text :=
  [h2c ((b >>> 4) &&& 0x0f), h2c (b &&& 0x0f)]

/-- The octets from number `i` on, each with a space behind it, in lines of 16 if there are
more than that. -/
def dumpLines (ilevel size : ℕ) : ℕ → List UInt8 → Text
  | _, [] => []
  | i, b :: rest =>
    (if i % 16 = 0 ∧ (i ≠ 0 ∨ 16 < size) then textIndent true ilevel else []) ++
      (hexByte b ++ 0x20 :: dumpLines ilevel size (i + 1) rest)

def octetStringEncode (flags : EncoderFlags) (ilevel : ℕ) (bytes : List UInt8) : Text :=
  0x27 :: (match flags with
    | .canonical => bytes.flatMap hexByte
    | .basic => (dumpLines ilevel bytes.length 0 bytes).dropLast ++
        if 16 < bytes.length then textIndent true (ilevel - 1) else []) ++ ascii "'H"

def bitChar (b : UInt8) (i : ℕ) : UInt8 :=
  if b.toNat.testBit i then 0x31 else 0x30

def dumpBits (b : UInt8) (n : ℕ) : Text :=
  (List.range n).map fun k ↦ bitChar b (7 - k)

def bitStringEncode (bytes : List UInt8) (unused : ℕ) : Text :=
  0x27 :: bytes.dropLast.flatMap (dumpBits · 8) ++
    (bytes.getLast?.elim [] fun b ↦ dumpBits b (8 - unused)) ++ ascii "'B"

def octetString : Primitive :=
  stringDecoder (fun bytes _ ↦ .octets bytes) fun flags ilevel v ↦
    match v with
    | .octets bytes => some (octetStringEncode flags ilevel bytes)
    | _ => none

def bitString : Primitive :=
  stringDecoder .bits fun _ _ v ↦
    match v with
    | .bits bytes unused => some (bitStringEncode bytes unused)
    | _ => none

end EnbL1Ppc.Gser
