import Mathlib.Data.Nat.Digits.Defs
import EnbL1Ppc.Gser.Types
import EnbL1Ppc.Lib.Search
import EnbL1Ppc.Lib.TwosComplement

namespace EnbL1Ppc.Gser

open Lib

def intmax (v : ℤ) : ℤ :=
  v.bmod (2 ^ 64)

inductive Strtox
  | ok (v : ℤ) | errorRange | errorInval | expectMore | extraData (v : ℤ)
  deriving DecidableEq

def isDigit (c : UInt8) : Bool :=
  0x30 ≤ c ∧ c ≤ 0x39

def upperBoundary : ℤ := (2 ^ 63 - 1) / 10

def strtoimaxLoop (lastDigitMax : ℤ) : ℤ → ℤ → Text → Strtox
  | sign, value, [] => .ok (intmax (sign * value))
  | sign, value, c :: rest =>
    if isDigit c then
      let d : ℤ := c.toNat - 0x30
      if value < upperBoundary then strtoimaxLoop lastDigitMax sign (intmax (value * 10 + d)) rest
      else if value = upperBoundary then
        if d ≤ lastDigitMax then
          if 0 < sign then strtoimaxLoop lastDigitMax sign (intmax (value * 10 + d)) rest
          else strtoimaxLoop lastDigitMax 1 (intmax (-value * 10 - d)) rest
        else .errorRange
      else .errorRange
    else .extraData (intmax (sign * value))

def asnStrtoimaxLim : Text → Strtox
  | [] => .errorInval
  | c :: rest =>
    if c = 0x2d then if rest = [] then .expectMore else strtoimaxLoop 8 (-1) 0 rest
    else if c = 0x2b then if rest = [] then .expectMore else strtoimaxLoop 7 1 0 rest
    else strtoimaxLoop 7 1 0 (c :: rest)

def asnImax2Integer (v : ℤ) : List UInt8 :=
  TwosComplement.trim (TwosComplement.toBytes 8 v)

def asnInteger2imax (bytes : List UInt8) : Option ℤ :=
  let b := if 8 < bytes.length then TwosComplement.trim bytes else bytes
  if 8 < b.length then none else some (TwosComplement.fromBytes (TwosComplement.sign b) b)

/-- `LONG_MIN <= v && v <= LONG_MAX` for a `long` of the given width. -/
def inLong (bits : ℕ) (v : ℤ) : Bool :=
  -2 ^ (bits - 1) ≤ v ∧ v < 2 ^ (bits - 1)

/-- `asn_INTEGER2long`, to which a buffer that is `NULL` is given as `Value.null`. -/
def asnInteger2long (bits : ℕ) : Value → Option Value
  | .octets bytes => ((asnInteger2imax bytes).filter (inLong bits)).map .integer
  | _ => none

inductive IntState
  | leadSpace | skipSpHex | waitDigits | digits | digitsTrailSpace | hexDigit1 | hexDigit2
  | hexDigitsTrailSpace | hexColon | unexpected
  deriving DecidableEq

/-- The variables of the loop in `INTEGER__gser_body_decode`; the positions are offsets in
the chunk. -/
structure IntScan where
  state : IntState
  decStart : ℕ
  decEnd : ℕ
  hexValue : ℕ
  bytes : List UInt8
  deriving DecidableEq

/-- How a round of that loop ends: with the next character, from the start of the chunk
again, out of the loop, or out of the function. -/
inductive IntStep
  | next (s : IntScan) | restart (s : IntScan) | leave (s : IntScan) | broken
  deriving DecidableEq

def IntScan.unexpected (s : IntScan) : IntStep :=
  .leave { s with state := .unexpected }

def isHexLetter (c : UInt8) : Bool :=
  0x41 ≤ c ∧ c ≤ 0x46 ∨ 0x61 ≤ c ∧ c ≤ 0x66

def hexLetterValue (c : UInt8) : ℕ :=
  c.toNat - (if c < 0x61 then 0x41 else 0x61) + 10

def IntScan.secondHex (s : IntScan) (d : ℕ) : IntScan :=
  { s with
    hexValue := s.hexValue + d
    bytes := s.bytes ++ [UInt8.ofNat (s.hexValue + d)]
    state := .hexColon }

def intChar (i : ℕ) (s : IntScan) (c : UInt8) : IntStep :=
  if c = 0x09 ∨ c = 0x0a ∨ c = 0x0d ∨ c = 0x20 then
    match s.state with
    | .leadSpace | .digitsTrailSpace | .hexDigitsTrailSpace | .skipSpHex => .next s
    | .digits => .next { s with decEnd := i, state := .digitsTrailSpace }
    | .hexColon => .next { s with state := .hexDigitsTrailSpace }
    | _ => s.unexpected
  else if c = 0x2d ∨ c = 0x2b then
    if s.state = .leadSpace then .next { s with decStart := i, state := .waitDigits }
    else s.unexpected
  else if isDigit c then
    match s.state with
    | .digits => .next s
    | .skipSpHex | .hexDigit1 =>
      .next { s with hexValue := (c.toNat - 0x30) * 16, state := .hexDigit2 }
    | .hexDigit2 => .next (s.secondHex (c.toNat - 0x30))
    | .hexColon => .broken
    | .leadSpace => .next { s with decStart := i, state := .digits }
    | .waitDigits => .next { s with state := .digits }
    | _ => s.unexpected
  else if c = 0x3a then
    match s.state with
    | .hexColon => .next { s with state := .hexDigit1 }
    | .digits => .restart { s with state := .skipSpHex }
    | _ => s.unexpected
  else if isHexLetter c then
    match s.state with
    | .skipSpHex | .leadSpace | .hexDigit1 =>
      .next { s with hexValue := hexLetterValue c * 16, state := .hexDigit2 }
    | .hexDigit2 => .next (s.secondHex (hexLetterValue c))
    | .digits => .restart { s with state := .skipSpHex }
    | _ => s.unexpected
  else s.unexpected

def intLoop : ℕ → IntScan → Text → IntStep
  | _, s, [] => .leave s
  | i, s, c :: rest =>
    match intChar i s c with
    | .next s' => intLoop (i + 1) s' rest
    | r => r

/-- The loop with its one possible restart: from `skipSpHex` it never gets to `digits`. -/
def intParse (chunk : Text) : IntStep :=
  match intLoop 0 ⟨.leadSpace, 0, 0, 0, []⟩ chunk with
  | .restart s => intLoop 0 s chunk
  | r => r

def decimalOctets (bits : ℕ) (chunk : Text) (start stop : ℕ) : Option Value :=
  match asnStrtoimaxLim ((chunk.take stop).drop start) with
  | .ok v => if inLong bits v then some (.octets (asnImax2Integer v)) else none
  | _ => none

def intResult (bits : ℕ) (chunk : Text) : IntStep → Option Value
  | .leave s =>
    match s.state with
    | .digits => decimalOctets bits chunk s.decStart chunk.length
    | .digitsTrailSpace => decimalOctets bits chunk s.decStart s.decEnd
    | .hexColon | .hexDigitsTrailSpace => some (.octets s.bytes)
    | .leadSpace => some (.octets [])
    | .hexDigit1 | .hexDigit2 | .skipSpHex | .waitDigits | .unexpected => none
  | .next _ | .restart _ | .broken => none

def compareName : Text → Text → ℤ
  | [], [] => 0
  | [], d :: _ => if d = 0 then 0 else -1
  | c :: _, [] => c.toNat
  | c :: k, d :: n => if c ≠ d ∨ d = 0 then (c.toNat : ℤ) - d.toNat else compareName k n

def compareLong (a b : ℤ) : ℤ :=
  if a < b then -1 else if a = b then 0 else 1

def IsIdentifier : Text → Prop
  | [] => False
  | c :: rest => isAlnum c = true ∧ ∀ x ∈ rest, isAlnum x = true ∨ x = cDash

instance : DecidablePred IsIdentifier
  | [] => inferInstanceAs (Decidable False)
  | c :: rest =>
    have : Decidable (∀ x ∈ rest, isAlnum x = true ∨ x = cDash) := List.decidableBAll _ rest
    inferInstanceAs (Decidable (isAlnum c = true ∧ ∀ x ∈ rest, isAlnum x = true ∨ x = cDash))

/-- The tables of an ENUMERATED type: `value2enum` in the order of the values, `enum2value`
in the order of the names. -/
structure EnumMap where
  value2enum : List (ℤ × Text)
  enum2value : List ℕ
  values_sorted : value2enum.Pairwise fun a b ↦ a.1 < b.1
  names : ∀ e ∈ value2enum, IsIdentifier e.2
  enum2value_perm : enum2value.Perm (List.range value2enum.length)
  names_sorted : enum2value.Pairwise fun i j ↦
    compareName (value2enum.getD i (0, [])).2 (value2enum.getD j (0, [])).2 < 0

namespace EnumMap

variable (m : EnumMap)

def entry (i : ℕ) : ℤ × Text :=
  m.value2enum.getD i (0, [])

def byName (i : ℕ) : ℤ × Text :=
  m.entry (m.enum2value.getD i 0)

def mapValue2enum (v : ℤ) : Option (ℤ × Text) :=
  (Search.bsearch (fun i ↦ compareLong v (m.entry i).1) m.value2enum.length).map m.entry

def mapEnum2value (key : Text) : Option (ℤ × Text) :=
  (Search.bsearch (fun i ↦ compareName key (m.byName i).2) m.value2enum.length).map m.byName

end EnumMap

/-- `INTEGER__gser_body_decode` for an INTEGER without named numbers, or with the given
table. -/
def integerBodyDecode (bits : ℕ) (enums : Option EnumMap) (chunk : Text) : Option Value :=
  if chunk = [] then some .null
  else
    match enums with
    | some m => (m.mapEnum2value chunk).map fun e ↦ .octets (asnImax2Integer e.1)
    | none => intResult bits chunk (intParse chunk)

def decimal (n : ℕ) : Text :=
  if n = 0 then [0x30] else (Nat.digits 10 n).reverse.map fun d ↦ UInt8.ofNat (0x30 + d)

def formatLong (v : ℤ) : Text :=
  if v < 0 then 0x2d :: decimal v.natAbs else decimal v.natAbs

def primitiveBody (decode : Text → Option Value) (chunk : Text) : BodyResult :=
  .ofOption ((decode chunk).map fun v ↦ (chunk.length, v))

theorem primitiveBody_le {decode : Text → Option Value} {chunk : Text} {n : ℕ} {v : Value}
    (h : primitiveBody decode chunk = .converted n v) : n ≤ chunk.length := by
  simp only [primitiveBody, BodyResult.ofOption_eq_converted, Option.map_eq_some_iff,
    Prod.mk.injEq] at h
  obtain ⟨-, -, rfl, -⟩ := h
  rfl

def nativeDecoder (bits : ℕ) (xmlTag : Text) (enums : Option EnumMap)
    (encode : Value → Option Text) : Primitive where
  wrapped := true
  xmlTag := some xmlTag
  receive chunk _ _ := primitiveBody (integerBodyDecode bits enums) chunk
  receive_le := primitiveBody_le
  convert := asnInteger2long bits
  zero := .integer 0
  encode _ _ := encode

def nativeInteger (bits : ℕ) (xmlTag : Text) : Primitive :=
  nativeDecoder bits xmlTag none fun
    | .integer v => some (formatLong v)
    | _ => none

def nativeEnumerated (bits : ℕ) (xmlTag : Text) (m : EnumMap) : Primitive :=
  nativeDecoder bits xmlTag (some m) fun
    | .integer v => (m.mapValue2enum v).map (·.2)
    | _ => none

end EnbL1Ppc.Gser
