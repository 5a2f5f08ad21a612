import EnbL1Ppc.Gser.Decoder
import EnbL1Ppc.Gser.Primitives

namespace EnbL1Ppc.Gser

def braced (ilevel : ℕ) (body : Text) : Text :=
  charOpenBracket :: 0x0a :: (body ++ (textIndent true (ilevel - 1) ++ [charCloseBracket]))

def encodeItems (encode : Value → Option Text) (ilevel : ℕ) : List Value → Option Text
  | [] => some []
  | v :: vs => do
    let text ← encode v
    let rest ← encodeItems encode ilevel vs
    some (textIndent false ilevel ++ (text ++ ((if vs = [] then [] else [charComma, 0x0a]) ++ rest)))

mutual
def encodeTy (flags : EncoderFlags) : Ty → ℕ → Value → Option Text
  | .prim p, ilevel, v => p.encode flags ilevel v
  | .sequence elements, ilevel, .sequence vs => do
    let body ← encodeMembers flags elements ilevel true vs
    some (if elements.isNil then body else braced ilevel body)
  | .sequenceOf element, ilevel, .list vs => do
    let body ← encodeItems (encodeTy flags element (ilevel + 1)) ilevel vs
    some (braced ilevel body)
  | .choice elements, ilevel, .choice present v => encodeAlternative flags elements ilevel present v
  | _, _, _ => none

/-- The loop of `SEQUENCE_encode_gser`; `first` says that no member has been printed yet. -/
def encodeMembers (flags : EncoderFlags) :
    Elements → ℕ → Bool → List (Option Value) → Option Text
  | .nil, _, _, _ => some []
  | .cons .., _, _, [] => none
  | .cons name presence ty rest, ilevel, first, v :: vs =>
    match v.or presence.absent with
    | some v => do
      let text ← encodeTy flags ty (ilevel + 1) v
      let tail ← encodeMembers flags rest ilevel false vs
      some ((if first then [] else [charComma, 0x0a]) ++
        (textIndent false ilevel ++ (name ++ 0x20 :: (text ++ tail))))
    | none => if presence.isOptional then encodeMembers flags rest ilevel first vs else none

/-- `CHOICE_encode_gser`, which prints the alternative number `present`. -/
def encodeAlternative (flags : EncoderFlags) : Elements → ℕ → ℕ → Value → Option Text
  | .nil, _, _, _ => none
  | .cons name _ ty rest, ilevel, present, v =>
    if present = 0 then none
    else if present = 1 then do
      let text ← encodeTy flags ty ilevel v
      some (name ++ (0x20 :: charColon :: 0x20 :: text))
    else encodeAlternative flags rest ilevel (present - 1) v
end

def gserEncode (flags : EncoderFlags) (ty : Ty) (v : Value) : Option Text :=
  (encodeTy flags ty 1 v).map (· ++ [0])

end EnbL1Ppc.Gser
