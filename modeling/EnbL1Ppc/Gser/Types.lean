import Mathlib.Data.Int.Notation
import EnbL1Ppc.Gser.Lexer
import EnbL1Ppc.Lib.Logged

namespace EnbL1Ppc.Gser

open Lib

abbrev Text := List UInt8

/-- The decoded structures. An INTEGER or ENUMERATED held in a `long` is an `integer`; the
members of a `sequence` are `none` where the member pointer is `NULL`. -/
inductive Value
  | boolean (b : Bool)
  | null
  | integer (n : ℤ)
  | octets (bytes : List UInt8)
  | bits (bytes : List UInt8) (unused : ℕ)
  | choice (present : ℕ) (v : Value)
  | sequence (members : List (Option Value))
  | list (items : List Value)

inductive EncoderFlags
  | basic | canonical
  deriving DecidableEq

/-- What a body receiver does: it converts the first `n` bytes, returns -1, or fails one of its
assertions. -/
inductive BodyResult
  | converted (n : ℕ) (v : Value)
  | refused
  | aborted

def BodyResult.ofOption : Option (ℕ × Value) → BodyResult
  | some (n, v) => .converted n v
  | none => .refused

theorem BodyResult.ofOption_eq_converted {o : Option (ℕ × Value)} {n : ℕ} {v : Value} :
    ofOption o = .converted n v ↔ o = some (n, v) := by
  rcases o with - | ⟨n', v'⟩ <;> simp [ofOption]

/-- The operations of a primitive type. `receive` is the body receiver of
`gser_decode_general`: it gets the token, the byte behind it and `have_more`. `wrapped` types go
through `gser_decode_primitive`; `xmlTag` is the name that `INTEGER_decode_gser` reports. -/
structure Primitive where
  wrapped : Bool
  xmlTag : Option Text
  receive : Text → UInt8 → Bool → BodyResult
  receive_le : ∀ {chunk next more n v}, receive chunk next more = .converted n v → n ≤ chunk.length
  /-- The conversion of a received body to the native representation. -/
  convert : Value → Option Value
  /-- The contents of a freshly allocated structure. -/
  zero : Value
  encode : EncoderFlags → ℕ → Value → Option Text

/-- How `optional` and `default_value_set` of a member are filled in. -/
inductive Presence
  | mandatory | optional | default (v : Value)

def Presence.isOptional : Presence → Bool
  | .mandatory => false
  | .optional | .default _ => true

def Presence.absent : Presence → Option Value
  | .default v => some v
  | .mandatory | .optional => none

mutual
inductive Ty
  | prim (p : Primitive)
  | sequence (elements : Elements)
  | sequenceOf (element : Ty)
  | choice (elements : Elements)
inductive Elements
  | nil
  | cons (name : Text) (presence : Presence) (ty : Ty) (rest : Elements)
end

inductive Rval
  | ok (consumed : ℕ) (v : Value)
  | empty (consumed : ℕ) (v : Value)
  | wmore (consumed : ℕ)
  | fail (consumed : ℕ)

def Rval.consumed : Rval → ℕ
  | .ok n _ | .empty n _ | .wmore n | .fail n => n

/-- The reports written to `gser_decoder_error_str`. `pos` is the text from the reported
position on. -/
inductive Report
  | absentMandatory (name : Text) (pos : Text)
  | unexpectedToken (token : Option Token) (pos : Text)
  | unknownField (pos : Text)
  | invalidChoice (name : Text) (first : Option Text) (pos : Text)
  | invalidValue (xmlTag : Text) (pos : Text)

inductive Event
  /-- A call of `gser_next_token`. -/
  | lex (state : PState) (buf : Text)
  /-- The token variable is read though the last call has not assigned it. -/
  | stale
  /-- A SEQUENCE takes a member that returned `RC_EMPTY`. -/
  | emptyMember (ty : Ty)
  /-- A SEQUENCE OF returns `RC_EMPTY` because its element did. -/
  | emptyElement (count : ℕ)
  /-- A SEQUENCE OF goes on at a token. -/
  | round (token : Option Token) (braces : ℤ) (count : ℕ)
  /-- A SEQUENCE takes a member or ends at `here`, and the notation has `tokens`
  between there and `start`, where it began or its last member ended. -/
  | marks (path : List ℕ) (start here : Text) (tokens : List Token)
  /-- A SEQUENCE ends without braces. -/
  | unbraced (path : List ℕ)
  /-- A closing bracket is counted although no bracket is open. -/
  | closeBelow
  /-- A SEQUENCE goes round its loop on a stale token without consuming anything. -/
  | stuck
  /-- A SEQUENCE OF adds an element that consumed nothing; `again` says that the lexer will
  return the same token once more. -/
  | idle (again : Bool)
  /-- An assertion of a body receiver fails. -/
  | abort
  | report (r : Report)

/-- What a run depends on besides the input: the bound on the rounds of each loop, the byte
behind the buffer, and what the uninitialised token variables hold (`none` for a number that
is no token). The list of member indices tells the calls apart. -/
structure Env where
  bound : ℕ
  after : UInt8
  junk : List ℕ → Option Token

end EnbL1Ppc.Gser
