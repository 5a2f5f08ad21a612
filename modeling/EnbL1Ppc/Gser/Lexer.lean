import Mathlib.Tactic.Common

namespace EnbL1Ppc.Gser

inductive Token
  | openBracket | closeBracket | space | text | colon | comma | bstring | hstring
  | printableString
  deriving DecidableEq

inductive PState
  | initial | text | whitespace | string | stringEnd | comment
  deriving DecidableEq

/-- The table `_charclass`: 1 for white space, 2 for digits, 3 for letters and the dot. -/
def charClass (c : UInt8) : ℕ :=
  if c = 0x09 ∨ c = 0x0a ∨ c = 0x0c ∨ c = 0x0d ∨ c = 0x20 then 1
  else if 0x30 ≤ c ∧ c ≤ 0x39 then 2
  else if c = 0x2e ∨ 0x41 ≤ c ∧ c ≤ 0x5a ∨ 0x61 ≤ c ∧ c ≤ 0x7a then 3
  else 0

def isWhitespace (c : UInt8) : Bool :=
  charClass c = 1

def isAlnum (c : UInt8) : Bool :=
  2 ≤ charClass c

def cQuote : UInt8 := 0x22
def cDash : UInt8 := 0x2d
def charSquote : UInt8 := 0x27
def charOpenBracket : UInt8 := 0x7b
def charCloseBracket : UInt8 := 0x7d
def charColon : UInt8 := 0x3a
def charComma : UInt8 := 0x2c

/-- The local variables of `gser_parse` that its loop changes; `token` is `none` as long as
`*token` has not been assigned. -/
structure Scan where
  state : PState
  startQuote : UInt8
  token : Option Token
  last : Bool
  found : Bool
  deriving DecidableEq

def Scan.accept (s : Scan) (t : Token) (last : Bool) : Scan :=
  { s with state := .initial, token := some t, last := last, found := true }

/-- The case `STATE_WHITESPACE`, into which `STATE_INITIAL` falls through. -/
def lexWhitespace (next : UInt8) (s : Scan) (c : UInt8) : Scan :=
  if isWhitespace c then { s with last := true }
  else if c = cDash ∧ next = cDash then { s with state := .comment }
  else s.accept .space false

/-- One round of the loop on the character `c`; `next` is the character behind it. -/
def lexChar (next : UInt8) (s : Scan) (c : UInt8) : Scan :=
  match s.state with
  | .initial =>
    if isWhitespace c then { s with state := .whitespace, token := some .space, last := true }
    else if c = cDash ∧ next = cDash then { s with state := .comment }
    else if isAlnum c ∨ c = cDash then { s with state := .text }
    else if c = charSquote ∨ c = cQuote then { s with state := .string, startQuote := c }
    else if c = charOpenBracket then s.accept .openBracket true
    else if c = charCloseBracket then s.accept .closeBracket true
    else if c = charColon then s.accept .colon true
    else if c = charComma then s.accept .comma true
    else lexWhitespace next s c
  | .whitespace => lexWhitespace next s c
  | .text => if ¬ (isAlnum c ∨ c = cDash) then s.accept .text false else s
  | .string => if c = s.startQuote then { s with state := .stringEnd } else s
  | .stringEnd =>
    if c = 0x42 then s.accept .bstring true
    else if c = 0x48 then s.accept .hstring true
    else s.accept .printableString false
  | .comment => if c = 0x0a ∨ c = 0x0d then s.accept .space true else s

/-- The loop, with the number of characters it has passed. `after` is the byte in memory
behind the buffer, which the look-ahead at the last character reads. -/
def scan (after : UInt8) : List UInt8 → Scan → ℕ → Scan × ℕ
  | [], s, n => (s, n)
  | c :: rest, s, n =>
    let s' := lexChar (rest.headD after) s c
    if s'.found then (s', n + 1) else scan after rest s' (n + 1)

/-- The state that `gser_parse` leaves in the context, the token if it has assigned one, and
its return value. -/
structure Lexed where
  state : PState
  token : Option Token
  size : ℕ
  deriving DecidableEq

def gserParse (after : UInt8) (state : PState) (buf : List UInt8) : Lexed :=
  if buf.headD 0 = 0 then ⟨state, none, 0⟩
  else
    let r := scan after buf ⟨state, 0, none, false, false⟩ 0
    ⟨r.1.state, r.1.token, if r.1.last then r.2 else r.2 - 1⟩

def Token.isMark : Token → Bool
  | .openBracket | .closeBracket | .colon | .comma => true
  | _ => false

/-- What one round of the loop can do: pass white space between tokens, go on inside a token
or a comment, or end the loop. -/
inductive Round (s : Scan) (c : UInt8) : Scan → Prop
  | space (hs : s.state = .initial) (hc : isWhitespace c = true) :
      Round s c { s with state := .whitespace, token := some .space, last := true }
  | blank (hs : s.state = .whitespace) (hc : isWhitespace c = true) :
      Round s c { s with last := true }
  | inside {state : PState} {quote : UInt8}
      (hc : s.state = .initial ∨ s.state = .whitespace → isWhitespace c = false)
      (hstate : state ≠ .initial ∧ state ≠ .whitespace) :
      Round s c { s with state := state, startQuote := quote }
  | accept {t : Token} {last : Bool}
      (hmark : t.isMark = true → s.state = .initial ∧ last = true) :
      Round s c (s.accept t last)

theorem Round.stay {s : Scan} {c : UInt8} (h : s.state ≠ .initial ∧ s.state ≠ .whitespace) :
    Round s c s :=
  .inside (fun hs ↦ absurd hs (not_or.2 h)) h

theorem Round.found {s : Scan} {c : UInt8} {t : Token} {last : Bool} (h : t.isMark = false) :
    Round s c (s.accept t last) := by
  refine .accept fun h' ↦ ?_
  rw [h] at h'
  cases h'

theorem lexWhitespace_round (next : UInt8) {s : Scan} {c : UInt8}
    (hs : s.state = .whitespace ∨ isWhitespace c = false) :
    Round s c (lexWhitespace next s c) := by
  unfold lexWhitespace
  split_ifs with hc hdash
  · rcases hs with hs | hc'
    · exact .blank hs hc
    · rw [hc'] at hc
      cases hc
  · exact .inside (fun _ ↦ by simpa using hc) (by decide)
  · exact .found rfl

theorem lexChar_round (next : UInt8) (s : Scan) (c : UInt8) : Round s c (lexChar next s c) := by
  unfold lexChar
  cases hs : s.state with
  | initial =>
    simp only
    split_ifs with hc
    · exact .space hs hc
    all_goals have hc' : isWhitespace c = false := by simpa using hc
    · exact .inside (fun _ ↦ hc') (by decide)
    · exact .inside (fun _ ↦ hc') (by decide)
    · exact .inside (fun _ ↦ hc') (by decide)
    · exact .accept (fun _ ↦ ⟨hs, rfl⟩)
    · exact .accept (fun _ ↦ ⟨hs, rfl⟩)
    · exact .accept (fun _ ↦ ⟨hs, rfl⟩)
    · exact .accept (fun _ ↦ ⟨hs, rfl⟩)
    · exact lexWhitespace_round next (.inr hc')
  | whitespace => exact lexWhitespace_round next (.inl hs)
  | text =>
    simp only
    split
    · exact .found rfl
    · exact .stay (by simp [hs])
  | string =>
    simp only
    split_ifs
    · exact .inside (by simp [hs]) (by decide)
    · exact .stay (by simp [hs])
  | stringEnd =>
    simp only
    split_ifs <;> exact .found rfl
  | comment =>
    simp only
    split_ifs
    · exact .found rfl
    · exact .stay (by simp [hs])

theorem scan_cons (after c : UInt8) (rest : List UInt8) (s : Scan) (n : ℕ) :
    scan after (c :: rest) s n =
      if (lexChar (rest.headD after) s c).found then (lexChar (rest.headD after) s c, n + 1)
      else scan after rest (lexChar (rest.headD after) s c) (n + 1) := rfl

theorem scan_stay {after : UInt8} {s : Scan} {l : List UInt8} (hf : s.found = false)
    (h : ∀ c ∈ l, ∀ next, lexChar next s c = s) (rest : List UInt8) (n : ℕ) :
    scan after (l ++ rest) s n = scan after rest s (n + l.length) := by
  induction l generalizing n with
  | nil => simp
  | cons c l ih =>
    rw [List.cons_append, scan_cons, h c (by simp)]
    simp only [hf, Bool.false_eq_true, if_false]
    rw [ih (fun c' hc' ↦ h c' (by simp [hc'])), List.length_cons]
    congr 1
    omega

theorem scan_snd_bounds (after : UInt8) (buf : List UInt8) (s : Scan) (n : ℕ) :
    n ≤ (scan after buf s n).2 ∧ (scan after buf s n).2 ≤ n + buf.length := by
  induction buf generalizing s n with
  | nil => simp [scan]
  | cons c rest ih =>
    rw [scan_cons, List.length_cons]
    split
    · simp
    · have h := ih (lexChar (rest.headD after) s c) (n + 1)
      omega

theorem gserParse_size_le (after : UInt8) (state : PState) (buf : List UInt8) :
    (gserParse after state buf).size ≤ buf.length := by
  unfold gserParse
  split
  · simp
  · have h := (scan_snd_bounds after buf ⟨state, 0, none, false, false⟩ 0).2
    dsimp only
    split <;> omega

end EnbL1Ppc.Gser
