import EnbL1Ppc.Gser.StringText

namespace EnbL1Ppc.Gser

/-- `OS__strtoent`: -1, or the number of characters read, with the value if a semicolon ends
them. Letters count as digits in both bases. -/
def strtoent (base : ℕ) : ℕ → Text → Option (ℕ × Option ℕ)
  | _, [] => some (0, none)
  | val, ch :: rest =>
    if ch = 0x3b then some (1, some val)
    else
      match hexDigit? ch with
      | none => none
      | some d =>
        if val * base + d.toNat > 0x10ffff then none
        else (strtoent base (val * base + d.toNat) rest).map fun r ↦ (r.1 + 1, r.2)

/-- A code point of at most `0x10ffff`, for which the five- and six-byte forms are not used. -/
def utf8 (val : ℕ) : List UInt8 :=
  if val < 0x80 then [.ofNat val]
  else if val < 0x800 then [0xc0 ||| .ofNat (val / 2 ^ 6), 0x80 ||| .ofNat (val % 2 ^ 6)]
  else if val < 0x10000 then
    [0xe0 ||| .ofNat (val / 2 ^ 12), 0x80 ||| .ofNat (val / 2 ^ 6 % 2 ^ 6),
      0x80 ||| .ofNat (val % 2 ^ 6)]
  else
    [0xf0 ||| .ofNat (val / 2 ^ 18), 0x80 ||| .ofNat (val / 2 ^ 12 % 2 ^ 6),
      0x80 ||| .ofNat (val / 2 ^ 6 % 2 ^ 6), 0x80 ||| .ofNat (val % 2 ^ 6)]

/-- What `OCTET_STRING__convert_entrefs` does at an ampersand: it wants more data, copies the
ampersand, replaces the first `size` characters, or fails the assertion `val > 0`. -/
inductive Entref
  | wantMore
  | verbatim
  | expand (bytes : List UInt8) (size : ℕ)
  | abort

def entrefAt (text : Text) : Entref :=
  if text.length = 1 then .wantMore
  else if text.getD 1 0 = 0x23 then
    if text.length = 2 then .wantMore
    else
      let skip := if text.getD 2 0 = 0x78 then 3 else 2
      match strtoent (if text.getD 2 0 = 0x78 then 16 else 10) 0 (text.drop skip) with
      | none => .verbatim
      | some (_, none) => .wantMore
      | some (_, some 0) => .abort
      | some (n, some val) => .expand (utf8 val) (skip + n)
  else
    match (text.take 5).idxOf? 0x3b with
    | none => .wantMore
    | some 4 => if (text.drop 1).take 3 = ascii "amp" then .expand [0x26] 5 else .verbatim
    | some 3 =>
      if (text.drop 1).take 2 = ascii "lt" then .expand [0x3c] 4
      else if (text.drop 1).take 2 = ascii "gt" then .expand [0x3e] 4
      else .verbatim
    | some _ => .verbatim

/-- The loop from position `i` on, with `skip` characters still to be passed over. It ends with
the characters stored and the position at which it wants more data, if it does; `none` is a failed
assertion. -/
def entrefLoop (quoter : UInt8) (haveMore : Bool) :
    ℕ → ℕ → Text → List UInt8 → Option (Option ℕ × List UInt8)
  | _, _, [], out => some (none, out)
  | i, skip + 1, _ :: rest, out => entrefLoop quoter haveMore (i + 1) skip rest out
  | i, 0, ch :: rest, out =>
    if ch ≠ 0x26 then
      if ch = quoter then some (none, out)
      else entrefLoop quoter haveMore (i + 1) 0 rest (out ++ [ch])
    else
      match entrefAt (ch :: rest) with
      | .wantMore =>
        if haveMore then entrefLoop quoter haveMore (i + 1) 0 rest (out ++ [ch])
        else some (some i, out)
      | .verbatim => entrefLoop quoter haveMore (i + 1) 0 rest (out ++ [ch])
      | .expand bytes size => entrefLoop quoter haveMore (i + 1) (size - 1) rest (out ++ bytes)
      | .abort => none

/-- `OCTET_STRING__convert_entrefs`: the first character is the quote, and everything behind its
next occurrence is dropped. -/
def convertEntrefs (chunk : Text) (next : UInt8) (haveMore : Bool) : Option (ℕ × List UInt8) :=
  (entrefLoop (chunk.headD next) haveMore 1 0 chunk.tail []).map fun r ↦
    (r.1.getD chunk.length, r.2)

theorem entrefLoop_stop_lt {quoter : UInt8} {haveMore : Bool} {i skip j : ℕ} {text : Text}
    {out out' : List UInt8} (h : entrefLoop quoter haveMore i skip text out = some (some j, out')) :
    j < i + text.length := by
  induction text generalizing i skip out with
  | nil => cases skip <;> cases h
  | cons ch rest ih =>
    have step {skip' : ℕ} {o : List UInt8}
        (h : entrefLoop quoter haveMore (i + 1) skip' rest o = some (some j, out')) :
        j < i + (ch :: rest).length := by
      have := ih h
      rw [List.length_cons]
      omega
    cases skip with
    | succ skip => exact step h
    | zero =>
      rw [entrefLoop] at h
      split at h
      · split at h
        · cases h
        · exact step h
      · split at h
        · split at h
          · exact step h
          · cases h
            rw [List.length_cons]
            omega
        · exact step h
        · exact step h
        · cases h

theorem convertEntrefs_le {chunk : Text} {next : UInt8} {haveMore : Bool} {n : ℕ}
    {bytes : List UInt8} (h : convertEntrefs chunk next haveMore = some (n, bytes)) :
    n ≤ chunk.length := by
  obtain ⟨⟨stop, out⟩, hloop, hr⟩ := Option.map_eq_some_iff.1 h
  cases hr
  cases stop with
  | none => exact Nat.le_refl _
  | some j =>
    have hj := entrefLoop_stop_lt hloop
    rw [List.length_tail] at hj
    change j ≤ chunk.length
    cases chunk with
    | nil => cases hloop
    | cons c chunk =>
      simp only [List.length_cons, Nat.add_sub_cancel] at hj ⊢
      omega

/-- PrintableString and VisibleString: `OCTET_STRING_decode_gser_utf8` and
`OCTET_STRING_encode_gser`. -/
def charString : Primitive where
  wrapped := false
  xmlTag := none
  receive chunk next more :=
    match convertEntrefs chunk next more with
    | some r => .converted r.1 (.octets r.2)
    | none => .aborted
  receive_le := by
    intro chunk next more n v h
    split at h
    · next hr =>
      cases h
      exact convertEntrefs_le hr
    · cases h
  convert := some
  zero := .octets []
  encode := octetString.encode

theorem entrefLoop_body (quoter : UInt8) (haveMore : Bool) (rest : Text) {body : Text}
    (hamp : ∀ c ∈ body, c ≠ 0x26) (hquote : ∀ c ∈ body, c ≠ quoter) (hq : quoter ≠ 0x26) (i : ℕ)
    (out : List UInt8) :
    entrefLoop quoter haveMore i 0 (body ++ quoter :: rest) out = some (none, out ++ body) := by
  induction body generalizing i out with
  | nil => simp [entrefLoop, hq]
  | cons c body ih =>
    rw [List.forall_mem_cons] at hamp hquote
    rw [List.cons_append, entrefLoop, if_pos hamp.1, if_neg hquote.1, ih hamp.2 hquote.2]
    simp

theorem hexLoop_chars {i : ℕ} {s s' : HexScan} {text : Text} (h : hexLoop i s text = some s') :
    ∀ c ∈ text, c ≠ 0x26 := by
  induction text generalizing i s with
  | nil => simp
  | cons c rest ih =>
    have hc : hexLoop i s (0x26 :: rest) = none := rfl
    rw [List.forall_mem_cons]
    refine ⟨?_, ?_⟩
    · rintro rfl
      rw [hc] at h
      cases h
    · rw [hexLoop] at h
      split at h
      · exact ih h
      · split at h
        · cases h
        · split at h
          · exact ih h
          · exact ih h

theorem hexLoop_length {i : ℕ} {s s' : HexScan} {text : Text} (h : hexLoop i s text = some s') :
    2 * s'.out.length + s'.half.toNat ≤ 2 * s.out.length + s.half.toNat + text.length := by
  induction text generalizing i s with
  | nil =>
    cases h
    exact Nat.le_refl _
  | cons c rest ih =>
    rw [List.length_cons]
    rw [hexLoop] at h
    split at h
    · have := ih h
      omega
    · split at h
      · cases h
      · split at h
        · next hhalf =>
          have := ih h
          simp only [List.length_append, List.length_singleton, Bool.toNat_false] at this
          rw [hhalf, Bool.toNat_true]
          omega
        · have := ih h
          simp only [Bool.toNat_true] at this
          omega

theorem HexText.hexLoop {body : Text} {bytes : List UInt8} (h : HexText body bytes) :
    ∃ s : HexScan, hexLoop 0 ⟨0, false, [], 0⟩ body = some s ∧ s.out = bytes := by
  obtain ⟨j, s, he, -, ho⟩ := h.loop 0 ⟨0, false, [], 0⟩ [] rfl
  rw [List.append_nil] at he
  exact ⟨s, he, ho⟩

theorem HexText.length_le {body : Text} {bytes : List UInt8} (h : HexText body bytes) :
    2 * bytes.length ≤ body.length := by
  obtain ⟨s, hs, rfl⟩ := h.hexLoop
  have := hexLoop_length hs
  simp only [List.length_nil, Bool.toNat_false] at this
  omega

theorem charString_writes {body : Text} {bytes : List UInt8} (h : HexText body bytes) :
    charString.Writes (.octets body) (quoted body 0x48) where
  lexeme := ⟨.hstring, rfl, fun rest _ ↦ lexeme_string rest h.no_quote (.inr ⟨rfl, rfl⟩)⟩
  received := by
    obtain ⟨s, hs, -⟩ := h.hexLoop
    have hloop (more : Bool) :=
      entrefLoop_body charSquote more [0x48] (hexLoop_chars hs) h.no_quote (by decide) 1 []
    refine ⟨.octets body, rfl, fun next more _ ↦ ?_⟩
    simp [charString, convertEntrefs, quoted, hloop]

theorem octetStringEncode_body_eq_iff {flags : EncoderFlags} {ilevel : ℕ} {bytes : List UInt8}
    {body : Text} (h : octetStringEncode flags ilevel bytes = quoted body 0x48) :
    body = bytes ↔ bytes = [] := by
  obtain ⟨body', hbody, he⟩ := octetStringEncode_eq flags ilevel bytes
  obtain rfl : body' = body := by simpa [quoted] using he.symm.trans h
  constructor
  · rintro rfl
    have := hbody.length_le
    exact List.length_eq_zero_iff.1 (by omega)
  · rintro rfl
    have hnil : octetStringEncode flags ilevel [] = quoted [] 0x48 := by
      cases flags <;> rfl
    simpa [quoted] using he.symm.trans hnil

end EnbL1Ppc.Gser
