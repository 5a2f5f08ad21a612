import EnbL1Ppc.Gser.Types

namespace EnbL1Ppc.Gser

open Lib

/-- The variables of a decoder: the lexer state of its context, the token variable, the
remaining input and `consumed_myself`. -/
structure Cursor where
  state : PState
  token : Option Token
  buf : Text
  consumed : ℕ

def Cursor.advance (c : Cursor) (n : ℕ) : Cursor :=
  { c with buf := c.buf.drop n, consumed := c.consumed + n }

def Cursor.start (env : Env) (path : List ℕ) (buf : Text) : Cursor :=
  ⟨.initial, env.junk path, buf, 0⟩

/-- The end of a loop that skips spaces: `size` is `token_size`, and `delivered` says whether
the last call has assigned the token. -/
structure Skipped where
  cursor : Cursor
  size : ℕ
  delivered : Bool

def Skipped.advanced (r : Skipped) : Cursor :=
  r.cursor.advance r.size

/-- `do { ADVANCE(token_size); token_size = gser_next_token(…); } while(token_size > 0 &&
token == GSER_TOKEN_SPACE)`. -/
def skipSpaces (env : Env) : ℕ → Cursor → Logged Event Skipped
  | 0, _ => Logged.timeout
  | n + 1, c => do
    Logged.tell (.lex c.state c.buf)
    let r := gserParse env.after c.state c.buf
    let c' : Cursor := { c with state := r.state, token := r.token.or c.token }
    Logged.tellIf (0 < r.size ∧ r.token = none) .stale
    if 0 < r.size ∧ c'.token = some .space then skipSpaces env n (c'.advance r.size)
    else pure ⟨c', r.size, r.token.isSome⟩

def readToken (r : Skipped) : Logged Event (Option Token) := do
  Logged.tellIf (r.size = 0 ∧ r.delivered = false) .stale
  pure r.cursor.token

def Token.isBody : Token → Bool
  | .text | .bstring | .hstring | .printableString => true
  | _ => false

def gserDecodeGeneral (env : Env) (p : Primitive) (path : List ℕ) (buf : Text) :
    Logged Event Rval := do
  let r ← skipSpaces env env.bound (.start env path buf)
  let token ← readToken r
  if token.any Token.isBody then
    match p.receive (r.cursor.buf.take r.size) ((r.cursor.buf.drop r.size).headD env.after)
        (r.size < r.cursor.buf.length) with
    | .refused => pure (.fail r.cursor.consumed)
    | .aborted => do
      Logged.tell .abort
      Logged.timeout
    | .converted n v =>
      if n = 0 ∧ r.cursor.buf.length = r.size then pure (.wmore r.cursor.consumed)
      else pure (.ok (r.cursor.consumed + n) v)
  else if token = some .closeBracket then pure (.empty (r.cursor.consumed + r.size) p.zero)
  else pure (.fail r.cursor.consumed)

def Primitive.wrap (p : Primitive) : Rval → Rval
  | .wmore n => .wmore (if p.wrapped then 0 else n)
  | .fail n => .fail (if p.wrapped then 0 else n)
  | r => r

def decodePrimitive (env : Env) (p : Primitive) (path : List ℕ) (buf : Text) :
    Logged Event Rval := do
  let r ← gserDecodeGeneral env p path buf
  match p.wrap r with
  | .ok n v =>
    match p.convert v with
    | some v' => pure (.ok n v')
    | none => pure (.fail 0)
  | r' =>
    match p.xmlTag with
    | some tag => do
      Logged.tell (.report (.invalidValue tag buf))
      pure r'
    | none => pure r'

/-- How the search for the next member of a SEQUENCE ends: with a text token, or with the
end of the decoder. -/
inductive Sought
  | text (cursor : Cursor) (size : ℕ) (braces : ℤ)
  | done (r : Rval)

def absentMandatory (name : Text) (c : Cursor) : Logged Event Sought := do
  Logged.tell (.report (.absentMandatory name c.buf))
  pure (.done (.fail c.consumed))

/-- The loop of `SEQUENCE_decode_gser` while `i` stays on the member `name`. -/
def seekMember (env : Env) (name : Text) (optional : Bool) :
    ℕ → Cursor → ℤ → Logged Event Sought
  | 0, _, _ => Logged.timeout
  | n + 1, c, braces => do
    let r ← skipSpaces env env.bound c
    if r.size = 0 then
      if optional then pure (.text { r.cursor with token := some .text } 0 braces)
      else absentMandatory name r.cursor
    else
      match r.cursor.token with
      | some .openBracket => seekMember env name optional n r.advanced (braces + 1)
      | some .comma => seekMember env name optional n r.advanced braces
      | some .closeBracket =>
        if optional then pure (.text { r.cursor with token := some .text } r.size braces)
        else absentMandatory name r.cursor
      | some .text => pure (.text r.cursor r.size braces)
      | token => do
        Logged.tell (.report (.unexpectedToken token r.cursor.buf))
        pure (.done (.fail r.cursor.consumed))

def closeSequence (env : Env) (v : Value) : ℕ → Cursor → ℤ → Logged Event Rval
  | 0, _, _ => Logged.timeout
  | n + 1, c, braces => do
    let r ← skipSpaces env env.bound c
    let token ← readToken r
    match token with
    | some .openBracket => do
      Logged.tellIf (r.size = 0) .stuck
      closeSequence env v n r.advanced (braces + 1)
    | some .comma => do
      Logged.tellIf (r.size = 0) .stuck
      closeSequence env v n r.advanced braces
    | some .closeBracket => do
      Logged.tellIf (braces ≤ 0) .closeBelow
      Logged.tellIf (r.size = 0 ∧ braces ≤ 0) .stuck
      if braces - 1 = 0 then pure (.ok r.advanced.consumed v)
      else closeSequence env v n r.advanced (braces - 1)
    | some .text => do
      Logged.tell (.report (.unknownField r.cursor.buf))
      pure (.fail r.cursor.consumed)
    | token => do
      Logged.tell (.report (.unexpectedToken token r.cursor.buf))
      pure (.fail r.cursor.consumed)

/-- The lexer returns the token once more if it is not advanced over. -/
def Skipped.again (env : Env) (r : Skipped) : Bool :=
  r.cursor.token ≠ none ∧
    gserParse env.after r.cursor.state r.cursor.buf = ⟨r.cursor.state, r.cursor.token, r.size⟩

/-- What `SET_OF_decode_gser` does with the result of an element, decoded at `c`. `moved` says
whether this round has consumed a token. -/
def addElement (c : Cursor) (braces : ℤ) (items : List Value) (moved again : Bool)
    (loop : Cursor → ℤ → List Value → Logged Event Rval) : Rval → Logged Event Rval
  | .ok k v => do
    Logged.tellIf (moved = false ∧ k = 0) (.idle again)
    loop (c.advance k) braces (items ++ [v])
  | .empty k _ => do
    Logged.tell (.emptyElement items.length)
    pure (.empty (c.consumed + k) (.list items))
  | .wmore k => pure (.wmore (c.consumed + k))
  | .fail k => pure (.fail (c.consumed + k))

def setOfLoop (env : Env) (element : List ℕ → Text → Logged Event Rval) (path : List ℕ) :
    ℕ → Cursor → ℤ → List Value → Logged Event Rval
  | 0, _, _, _ => Logged.timeout
  | n + 1, c, braces, items => do
    let r ← skipSpaces env env.bound c
    if r.size = 0 then pure (.fail r.cursor.consumed)
    else do
      Logged.tell (.round r.cursor.token braces items.length)
      match r.cursor.token with
      | some .openBracket => do
        let x ← element (items.length :: path) r.advanced.buf
        addElement r.advanced (braces + 1) items true (r.again env)
          (setOfLoop env element path n) x
      | some .comma => do
        let x ← element (items.length :: path) r.advanced.buf
        addElement r.advanced braces items true (r.again env) (setOfLoop env element path n) x
      | some .closeBracket => do
        Logged.tellIf (braces ≤ 0) .closeBelow
        if braces - 1 = 0 then pure (.ok r.advanced.consumed (.list items))
        else setOfLoop env element path n r.advanced (braces - 1) items
      | _ => do
        let x ← element (items.length :: path) r.cursor.buf
        addElement r.cursor braces items false (r.again env) (setOfLoop env element path n) x

def Elements.isNil : Elements → Bool
  | .nil => true
  | .cons .. => false

def Elements.firstName : Elements → Option Text
  | .nil => none
  | .cons name .. => some name

/-- The end of a round of `SEQUENCE_decode_gser` that has incremented `i`. Without an open
brace the loop ends with the last member. -/
def nextElement (path : List ℕ) (c : Cursor) (braces : ℤ) (isLast : Bool)
    (vs : List (Option Value)) (loop : Cursor → ℤ → List (Option Value) → Logged Event Rval) :
    Logged Event Rval :=
  if braces = 0 ∧ isLast then do
    Logged.tell (.unbraced path)
    pure (.ok c.consumed (.sequence vs))
  else loop c braces vs

/-- `CHOICE_decode_gser` up to the colon: the name it has read, or the end of the decoder. -/
def choiceName (env : Env) (first : Option Text) (path : List ℕ) (buf : Text) :
    Logged Event (Cursor × (Text ⊕ Rval)) := do
  let r ← skipSpaces env env.bound (.start env path buf)
  if r.size = 0 then pure (r.cursor, .inr (.fail r.cursor.consumed))
  else if r.cursor.token = some .text then do
    let name := r.cursor.buf.take r.size
    let r' ← skipSpaces env env.bound r.advanced
    if r'.size = 0 then pure (r'.cursor, .inr (.fail r'.cursor.consumed))
    else if r'.cursor.token = some .colon then pure (r'.advanced, .inl name)
    else do
      Logged.tell (.report (.invalidChoice name first r'.cursor.buf))
      pure (r'.cursor, .inr (.fail r'.cursor.consumed))
  else pure (r.cursor, .inr (.fail r.cursor.consumed))

/-- The marks that end a SEQUENCE in which `mark` would stand in front of the next member. -/
def Token.closing : Token → List Token
  | .openBracket => [.openBracket, .closeBracket]
  | _ => [.closeBracket]

mutual
def decodeTy (env : Env) : Ty → List ℕ → Text → Logged Event Rval
  | .prim p, path, buf => decodePrimitive env p path buf
  | .sequence elements, path, buf =>
    decodeElements env elements path .openBracket buf 0 (.start env path buf) 0 []
  | .sequenceOf element, path, buf =>
    setOfLoop env (decodeTy env element) path env.bound (.start env path buf) 0 []
  | .choice elements, path, buf => do
    let x ← choiceName env elements.firstName path buf
    match x.2 with
    | .inl name => decodeAlternative env elements elements.firstName path 0 name x.1
    | .inr r => pure r

/-- `SEQUENCE_decode_gser` from the member `i` on, with the members `vs` before. The mark that
the notation has in front of the next member and the text behind the last one that was taken are
kept for the record only. -/
def decodeElements (env : Env) :
    Elements → List ℕ → Token → Text → ℕ → Cursor → ℤ → List (Option Value) → Logged Event Rval
  | .nil, path, mark, start, _, c, braces, vs => do
    let x ← closeSequence env (.sequence vs) env.bound c braces
    Logged.tell (.marks path start (c.buf.drop (x.consumed - c.consumed)) mark.closing)
    pure x
  | .cons name presence ty rest, path, mark, start, i, c, braces, vs => do
    let x ← seekMember env name presence.isOptional env.bound c braces
    match x with
    | .done r => pure r
    | .text c size braces =>
      if size = name.length ∧ c.buf.take size = name then do
        Logged.tell (.marks path start c.buf [mark])
        let y ← decodeTy env ty (i :: path) (c.advance size).buf
        match y with
        | .ok k v =>
          nextElement path ((c.advance size).advance k) braces rest.isNil (vs ++ [some v])
            (decodeElements env rest path .comma ((c.advance size).advance k).buf (i + 1))
        | .empty k v => do
          Logged.tell (.emptyMember ty)
          nextElement path ((c.advance size).advance k) braces rest.isNil (vs ++ [some v])
            (decodeElements env rest path .comma ((c.advance size).advance k).buf (i + 1))
        | .wmore _ => pure (.wmore (c.advance size).consumed)
        | .fail _ => pure (.fail (c.advance size).consumed)
      else if presence.isOptional then
        nextElement path c braces rest.isNil (vs ++ [presence.absent])
          (decodeElements env rest path mark start (i + 1))
      else do
        Logged.tell (.report (.absentMandatory name c.buf))
        pure (.fail c.consumed)

def decodeAlternative (env : Env) :
    Elements → Option Text → List ℕ → ℕ → Text → Cursor → Logged Event Rval
  | .nil, first, _, _, choice, c => do
    Logged.tell (.report (.invalidChoice choice first c.buf))
    pure (.fail c.consumed)
  | .cons name _ ty rest, first, path, i, choice, c =>
    if choice = name then do
      let y ← decodeTy env ty (0 :: path) c.buf
      match y with
      | .ok k v => pure (.ok (c.consumed + k) (.choice (i + 1) v))
      | .empty k v => pure (.empty (c.consumed + k) (.choice (i + 1) v))
      | .wmore k => pure (.wmore (c.consumed + k))
      | .fail k => pure (.fail (c.consumed + k))
    else decodeAlternative env rest first path (i + 1) choice c
end

def gserWhitespaceSpan (buf : Text) : ℕ :=
  (buf.takeWhile fun c ↦ c = 0x09 ∨ c = 0x0a ∨ c = 0x0d ∨ c = 0x20).length

def gserDecode (env : Env) (ty : Ty) (buf : Text) : Logged Event Rval := do
  let n := gserWhitespaceSpan buf
  let r ← decodeTy env ty [] (buf.drop n)
  match r with
  | .ok k v => pure (.ok (k + n) v)
  | _ => pure (.fail n)

end EnbL1Ppc.Gser
