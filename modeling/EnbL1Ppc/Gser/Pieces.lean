import Mathlib.Data.List.Chain
import EnbL1Ppc.Gser.Lexemes
import EnbL1Ppc.Gser.Primitives

namespace EnbL1Ppc.Gser

/-!
A text in pieces, and how the lexer reads it from its first byte to its last.
-/

/-- Letters, digits, dots and dashes as they stand in identifiers and numbers: no two dashes in
a row, and no dash at the end. -/
structure IsWord (w : Text) : Prop where
  ne_nil : w ≠ []
  inText : ∀ c ∈ w, InText c
  no_comment : w.IsChain fun a b ↦ ¬ (a = cDash ∧ b = cDash)
  last : w.getLast? ≠ some cDash

theorem isWord_iff (w : Text) : IsWord w ↔ w ≠ [] ∧ (∀ c ∈ w, InText c) ∧
    (w.IsChain fun a b ↦ ¬ (a = cDash ∧ b = cDash)) ∧ w.getLast? ≠ some cDash :=
  ⟨fun h ↦ ⟨h.ne_nil, h.inText, h.no_comment, h.last⟩, fun h ↦ ⟨h.1, h.2.1, h.2.2.1, h.2.2.2⟩⟩

instance (w : Text) : Decidable (IsWord w) :=
  have : Decidable (∀ c ∈ w, InText c) := List.decidableBAll _ w
  decidable_of_iff' _ (isWord_iff w)

inductive Piece
  | blank (ws : Text)
  | comment (body : Text) (newline : UInt8)
  | word (w : Text)
  | quoted (quote : UInt8) (body : Text) (letter : Option UInt8)
  | mark (c : UInt8)

namespace Piece

def text : Piece → Text
  | .blank ws => ws
  | .comment body newline => cDash :: cDash :: (body ++ [newline])
  | .word w => w
  | .quoted q body letter => q :: (body ++ q :: letter.toList)
  | .mark c => [c]

def IsLetter (c : UInt8) : Prop :=
  c = 0x42 ∨ c = 0x48

instance (c : UInt8) : Decidable (IsLetter c) :=
  inferInstanceAs (Decidable (_ ∨ _))

def Proper : Piece → Prop
  | .blank ws => ws ≠ [] ∧ Blank ws
  | .comment body newline => (∀ c ∈ body, c ≠ 0 ∧ c ≠ 0x0a ∧ c ≠ 0x0d) ∧
    (newline = 0x0a ∨ newline = 0x0d)
  | .word w => IsWord w
  | .quoted q body letter => IsQuote q ∧ (∀ c ∈ body, c ≠ 0 ∧ c ≠ q) ∧
    ∀ c ∈ letter, IsLetter c
  | .mark c => c = charOpenBracket ∨ c = charCloseBracket ∨ c = charColon ∨ c = charComma

instance : (p : Piece) → Decidable p.Proper
  | .blank _ => inferInstanceAs (Decidable (_ ∧ _))
  | .comment body _ =>
    have : Decidable (∀ c ∈ body, c ≠ 0 ∧ c ≠ 0x0a ∧ c ≠ 0x0d) := List.decidableBAll _ body
    inferInstanceAs (Decidable (_ ∧ _))
  | .word w => inferInstanceAs (Decidable (IsWord w))
  | .quoted q body letter =>
    have : Decidable (∀ c ∈ body, c ≠ 0 ∧ c ≠ q) := List.decidableBAll _ body
    have : Decidable (∀ c ∈ letter, IsLetter c) := Option.decidableForallMem letter
    inferInstanceAs (Decidable (_ ∧ _ ∧ _))
  | .mark _ => inferInstanceAs (Decidable (_ ∨ _))

def token : Piece → Token
  | .blank _ | .comment .. => .space
  | .word _ => .text
  | .quoted _ _ none => .printableString
  | .quoted _ _ (some c) => if c = 0x42 then .bstring else .hstring
  | .mark c =>
    if c = charOpenBracket then .openBracket
    else if c = charCloseBracket then .closeBracket
    else if c = charColon then .colon
    else .comma

end Piece

def textOf (ps : List Piece) : Text :=
  ps.flatMap Piece.text

theorem textOf_cons (p : Piece) (ps : List Piece) : textOf (p :: ps) = p.text ++ textOf ps :=
  List.flatMap_cons

/-- The bytes are a piece of the kind `t`. White space in front of a comment belongs to it. -/
def HasKind (t : Token) (chunk : Text) : Prop :=
  ∃ (ws : Text) (p : Piece), Blank ws ∧ (ws ≠ [] → t = .space) ∧ p.Proper ∧ p.token = t ∧
    chunk = ws ++ p.text

/-- The calls of `gser_parse` on a text, each on what the one before has left and in the state
that it has left: the tokens they set with the bytes they consume, and the state at the end. -/
inductive Reads (after : UInt8) : PState → Text → List (Token × Text) → PState → Prop
  | nil (state : PState) : Reads after state [] [] state
  | cons {state state' last : PState} {buf : Text} {t : Token} {n : ℕ}
      {toks : List (Token × Text)} :
    gserParse after state buf = ⟨state', some t, n⟩ → 0 < n →
    Reads after state' (buf.drop n) toks last →
    Reads after state buf ((t, buf.take n) :: toks) last

def Lossless (after : UInt8) (buf : Text) : Prop :=
  ∃ toks last, Reads after .initial buf toks last ∧ (∀ x ∈ toks, HasKind x.1 x.2) ∧
    (toks.map fun x ↦ x.2.length).sum = buf.length ∧ (last = .initial ∨ last = .whitespace)

theorem Reads.sum_length {after : UInt8} {state last : PState} {buf : Text}
    {toks : List (Token × Text)} (h : Reads after state buf toks last) :
    (toks.map fun x ↦ x.2.length).sum = buf.length := by
  induction h with
  | nil => rfl
  | @cons state _ _ buf _ n _ hp _ _ ih =>
    have hle := gserParse_size_le after state buf
    rw [hp] at hle
    rw [List.map_cons, List.sum_cons, ih, List.length_take, List.length_drop]
    simp only at hle
    omega

theorem Lossless.nil (after : UInt8) : Lossless after [] :=
  ⟨[], .initial, .nil _, nofun, rfl, .inl rfl⟩

theorem lossless_append_iff {after : UInt8} {chunk rest : Text} {t : Token}
    (hp : gserParse after .initial (chunk ++ rest) = ⟨.initial, some t, chunk.length⟩)
    (hne : chunk ≠ []) : Lossless after (chunk ++ rest) ↔ HasKind t chunk ∧ Lossless after rest := by
  have hpos := List.length_pos_iff.2 hne
  constructor
  · rintro ⟨toks, last, hr, hk, -, hlast⟩
    generalize hbuf : chunk ++ rest = buf at hr
    cases hr with
    | nil => exact absurd (List.append_eq_nil_iff.1 hbuf).1 hne
    | cons hp' _ hr =>
      subst hbuf
      rw [hp, Lexed.mk.injEq, Option.some.injEq] at hp'
      obtain ⟨rfl, rfl, rfl⟩ := hp'
      rw [List.drop_left] at hr
      rw [List.take_left] at hk
      exact ⟨hk (t, chunk) List.mem_cons_self, _, last, hr,
        fun x hx ↦ hk x (List.mem_cons_of_mem _ hx), hr.sum_length, hlast⟩
  · rintro ⟨hkind, toks, last, hr, hk, -, hlast⟩
    have hcons : Reads after .initial (chunk ++ rest) ((t, chunk) :: toks) last := by
      have h := Reads.cons hp hpos (by rwa [List.drop_left])
      rwa [List.take_left] at h
    exact ⟨_, last, hcons, List.forall_mem_cons.2 ⟨hkind, hk⟩, hcons.sum_length, hlast⟩

theorem not_lossless_of_none {after : UInt8} {buf : Text} (hne : buf ≠ [])
    (hp : (gserParse after .initial buf).token = none) : ¬ Lossless after buf := by
  rintro ⟨toks, last, hr, -⟩
  cases hr with
  | nil => exact hne rfl
  | cons hp' => simp [hp'] at hp

/-! How a piece at the front of a text is read. -/

theorem scan_comment {s : Scan} (hs : s.state = .initial ∨ s.state = .whitespace)
    (hf : s.found = false) {body : Text} {newline : UInt8}
    (hp : (Piece.comment body newline).Proper) (after : UInt8) (rest : Text) (n : ℕ) :
    scan after (cDash :: cDash :: (body ++ newline :: rest)) s n =
      (s.accept .space true, n + body.length + 3) := by
  have hopen : lexChar ((cDash :: (body ++ newline :: rest)).headD after) s cDash =
      { s with state := .comment } := by
    unfold lexChar lexWhitespace
    rcases hs with hs | hs
    · simp only [hs]
      rfl
    · simp only [hs]
      rfl
  have hstay : ∀ c ∈ cDash :: body, ∀ next, lexChar next { s with state := .comment } c =
      { s with state := .comment } := by
    intro c hc next
    refine if_neg ?_
    rcases List.mem_cons.1 hc with rfl | hc
    · decide
    · exact not_or.2 (hp.1 c hc).2
  have hclose : lexChar (rest.headD after) { s with state := .comment } newline =
      s.accept .space true := if_pos hp.2
  have hf' : Scan.found { s with state := .comment } = false := hf
  rw [scan_next hopen hf, ← List.cons_append, scan_stay hf' hstay, scan_found hclose rfl,
    List.length_cons]
  congr 1
  omega

theorem gserParse_comment {ws body : Text} {newline : UInt8} (hw : Blank ws)
    (hp : (Piece.comment body newline).Proper) (after : UInt8) (rest : Text) :
    gserParse after .initial (ws ++ ((Piece.comment body newline).text ++ rest)) =
      ⟨.initial, some .space, (ws ++ (Piece.comment body newline).text).length⟩ := by
  have htext : (Piece.comment body newline).text ++ rest =
      cDash :: cDash :: (body ++ newline :: rest) := by simp [Piece.text]
  have hlen : (Piece.comment body newline).text.length = body.length + 3 := by simp [Piece.text]
  rw [htext, List.length_append, hlen]
  cases ws with
  | nil =>
    rw [List.nil_append, gserParse_of_scan (by decide)
      (scan_comment (.inl rfl) rfl hp after rest 0)]
    simp [Scan.accept]
  | cons w ws =>
    have hscan := scan_blank hw after (cDash :: cDash :: (body ++ newline :: rest))
    rw [scan_comment (.inr rfl) rfl hp after rest] at hscan
    rw [List.cons_append, gserParse_of_scan (ne_zero_of_isWhitespace (hw w (by simp))) hscan,
      List.length_cons]
    simp only [Scan.accept, if_true, Lexed.mk.injEq, true_and]
    omega

theorem gserParse_blank_end {ws : Text} (hw : Blank ws) (hne : ws ≠ []) (after : UInt8) :
    gserParse after .initial ws = ⟨.whitespace, some .space, ws.length⟩ := by
  obtain ⟨w, ws, rfl⟩ := List.exists_cons_of_ne_nil hne
  have hscan := scan_blank hw after []
  rw [List.append_nil] at hscan
  rw [gserParse_of_scan (ne_zero_of_isWhitespace (hw w (by simp))) hscan]
  rfl

theorem IsWord.cons {w : Text} (hw : IsWord w) : ∃ c l, w = c :: l ∧ InText c ∧
    (∀ x ∈ l, InText x) ∧
    ∀ (rest : Text) (after : UInt8), ¬ (c = cDash ∧ (l ++ rest).headD after = cDash) := by
  obtain ⟨c, l, rfl⟩ := List.exists_cons_of_ne_nil hw.ne_nil
  refine ⟨c, l, rfl, hw.inText c (by simp), fun x hx ↦ hw.inText x (by simp [hx]), ?_⟩
  rintro rest after ⟨rfl, hd⟩
  cases l with
  | nil => exact hw.last rfl
  | cons d l =>
    exact (List.isChain_cons_cons.1 hw.no_comment).1 ⟨rfl, hd⟩

theorem IsWord.lexeme {w rest : Text} (hw : IsWord w) (hr : Delimited rest) :
    Lexeme .text w rest := by
  obtain ⟨c, l, rfl, hc, hl, hdash⟩ := hw.cons
  exact lexeme_text hc hl (hdash rest) hr

theorem gserParse_word_end {w : Text} (hw : IsWord w) (after : UInt8) :
    (gserParse after .initial w).token = none := by
  obtain ⟨c, l, rfl, hc, hl, hdash⟩ := hw.cons
  have hscan := scan_word hc hl after [] (hdash [] after)
  rw [List.append_nil] at hscan
  rw [gserParse_of_scan hc.ne_zero hscan]

theorem gserParse_quoted_end {q : UInt8} {body : Text} (hq : IsQuote q) (hb : ∀ x ∈ body, x ≠ q)
    (after : UInt8) : (gserParse after .initial (q :: (body ++ [q]))).token = none := by
  rw [gserParse_of_scan hq.ne_zero (scan_quoted hq hb after [])]

theorem gserParse_unlettered {q d : UInt8} {body : Text} (hq : IsQuote q)
    (hb : ∀ x ∈ body, x ≠ q) (hd : ¬ Piece.IsLetter d) (after : UInt8) (rest : Text) :
    gserParse after .initial (q :: (body ++ q :: d :: rest)) =
      ⟨.initial, some .printableString, body.length + 2⟩ := by
  have hend : lexChar (rest.headD after) ⟨.stringEnd, q, none, false, false⟩ d =
      ⟨.initial, q, some .printableString, false, true⟩ := by
    obtain ⟨hB, hH⟩ := not_or.1 hd
    unfold lexChar
    simp only [if_neg hB, if_neg hH, Scan.accept]
  have hscan := scan_quoted hq hb after (d :: rest)
  rw [scan_found hend rfl] at hscan
  rw [gserParse_of_scan hq.ne_zero hscan]
  rfl

def Piece.Found (after : UInt8) (p : Piece) (rest : Text) : Prop :=
  gserParse after .initial (p.text ++ rest) = ⟨.initial, some p.token, p.text.length⟩

theorem found_mark {after c : UInt8} (h : (Piece.mark c).Proper) (rest : Text) :
    (Piece.mark c).Found after rest := by
  rcases h with rfl | rfl | rfl | rfl
  · exact (lexeme_openBracket rest).parse after
  · exact (lexeme_closeBracket rest).parse after
  · exact (lexeme_colon rest).parse after
  · exact (lexeme_comma rest).parse after

theorem found_comment {after newline : UInt8} {body : Text}
    (h : (Piece.comment body newline).Proper) (rest : Text) :
    (Piece.comment body newline).Found after rest :=
  gserParse_comment (show Blank [] from nofun) h after rest

theorem found_lettered {after q k : UInt8} {body : Text}
    (h : (Piece.quoted q body (some k)).Proper) (rest : Text) :
    (Piece.quoted q body (some k)).Found after rest := by
  obtain ⟨hq, hb, hk⟩ := h
  have htoken : k = 0x42 ∧ (Piece.quoted q body (some k)).token = .bstring ∨
      k = 0x48 ∧ (Piece.quoted q body (some k)).token = .hstring := by
    rcases hk k rfl with rfl | rfl
    · exact .inl ⟨rfl, rfl⟩
    · exact .inr ⟨rfl, rfl⟩
  have hparse := gserParse_lettered hq (fun x hx ↦ (hb x hx).2) htoken after rest
  simpa [Piece.Found, Piece.text] using hparse

theorem found_unlettered {after q d : UInt8} {body rest : Text}
    (h : (Piece.quoted q body none).Proper) (hd : ¬ Piece.IsLetter d) :
    (Piece.quoted q body none).Found after (d :: rest) := by
  have hparse := gserParse_unlettered h.1 (fun x hx ↦ (h.2.1 x hx).2) hd after rest
  simpa [Piece.Found, Piece.text, Piece.token] using hparse

theorem lossless_cons_iff {after : UInt8} {p : Piece} {ps : List Piece} (hp : p.Proper)
    (hf : p.Found after (textOf ps)) (hne : p.text ≠ []) :
    Lossless after (textOf (p :: ps)) ↔ Lossless after (textOf ps) := by
  have hkind : HasKind p.token p.text := ⟨[], p, nofun, nofun, hp, rfl, rfl⟩
  rw [textOf_cons, lossless_append_iff hf hne]
  exact and_iff_right hkind

def Piece.Apart : Piece → Piece → Prop
  | .blank _, .blank _ => False
  | .word _, .word _ => False
  | .quoted _ _ none, .word w => ∀ c ∈ w.head?, ¬ IsLetter c
  | _, _ => True

/-- The lexer sees where the piece ends: a word must not be the end of the text, nor stand in
front of a comment, whose dashes it would take; and the end of a string without a letter is
seen only at the byte behind it. -/
def Piece.EndsBefore : Piece → List Piece → Prop
  | .word _, [] => False
  | .word _, .comment .. :: _ => False
  | .quoted _ _ none, [] => False
  | _, _ => True

def Terminated : List Piece → Prop
  | [] => True
  | p :: ps => p.EndsBefore ps ∧ Terminated ps

theorem Piece.Proper.text_ne_nil {p : Piece} (hp : p.Proper) : p.text ≠ [] := by
  cases p with
  | blank ws => exact hp.1
  | comment body newline => exact List.cons_ne_nil _ _
  | word w => exact hp.ne_nil
  | quoted q body letter => exact List.cons_ne_nil _ _
  | mark c => exact List.cons_ne_nil _ _

theorem IsQuote.not_inText {q : UInt8} (hq : IsQuote q) : ¬ InText q := by
  rcases hq with rfl | rfl <;> decide

theorem delimited_of_apart {w : Text} {p : Piece} (hp : p.Proper) (ha : (Piece.word w).Apart p)
    (ps : List Piece) (he : (Piece.word w).EndsBefore (p :: ps)) (rest : Text) :
    Delimited (p.text ++ rest) := by
  cases p with
  | blank ws =>
    obtain ⟨c, ws, rfl⟩ := List.exists_cons_of_ne_nil hp.1
    intro hc
    have := hp.2 c (by simp)
    rw [hc.not_isWhitespace] at this
    cases this
  | comment body newline => exact he.elim
  | word w' => exact ha.elim
  | quoted q body letter => exact hp.1.not_inText
  | mark c =>
    change ¬ InText c
    rcases hp with rfl | rfl | rfl | rfl <;> decide

theorem not_isLetter_of_apart {q : UInt8} {body : Text} {p : Piece} (hp : p.Proper)
    (ha : (Piece.quoted q body none).Apart p) : ∃ d l, p.text = d :: l ∧ ¬ Piece.IsLetter d := by
  obtain ⟨d, l, hd⟩ := List.exists_cons_of_ne_nil hp.text_ne_nil
  refine ⟨d, l, hd, ?_⟩
  cases p with
  | blank ws =>
    obtain rfl : ws = d :: l := hd
    have hw := hp.2 d (by simp)
    rintro (rfl | rfl) <;> exact absurd hw (by decide)
  | comment body newline =>
    obtain ⟨rfl, -⟩ := List.cons.inj hd
    decide
  | word w =>
    obtain rfl : w = d :: l := hd
    exact ha d rfl
  | quoted q' body letter =>
    obtain ⟨rfl, -⟩ := List.cons.inj hd
    rcases hp.1 with rfl | rfl <;> decide
  | mark c =>
    obtain ⟨rfl, -⟩ := List.cons.inj hd
    rcases hp with rfl | rfl | rfl | rfl <;> decide

theorem found_blank {after : UInt8} {ws : Text} (hw : (Piece.blank ws).Proper) {p : Piece}
    (hp : p.Proper) (hspace : p.token ≠ .space) (rest : Text) :
    (Piece.blank ws).Found after (p.text ++ rest) := by
  have hcons : ∃ c l, p.text = c :: l ∧ isWhitespace c = false ∧
      ¬ (c = cDash ∧ (l ++ rest).headD after = cDash) := by
    cases p with
    | blank ws' => exact absurd rfl hspace
    | comment body newline => exact absurd rfl hspace
    | word w =>
      obtain ⟨c, l, rfl, hc, -, hdash⟩ := IsWord.cons hp
      exact ⟨c, l, rfl, hc.not_isWhitespace, hdash rest after⟩
    | quoted q body letter =>
      refine ⟨q, _, rfl, ?_, fun h ↦ ?_⟩
      · rcases hp.1 with rfl | rfl <;> decide
      · rcases hp.1 with rfl | rfl <;> exact absurd h.1 (by decide)
    | mark c =>
      refine ⟨c, [], rfl, ?_, fun h ↦ ?_⟩
      · rcases hp with rfl | rfl | rfl | rfl <;> decide
      · rcases hp with rfl | rfl | rfl | rfl <;> exact absurd h.1 (by decide)
  obtain ⟨c, l, heq, hc, hdash⟩ := hcons
  rw [heq, List.cons_append]
  exact gserParse_blank_cons hw.2 hw.1 hc hdash

theorem exists_delimited {t : Text} {c : UInt8} (hmem : c ∈ t) (hc : ¬ InText c) :
    ∃ l rest, t = l ++ rest ∧ (∀ x ∈ l, InText x) ∧ Delimited rest := by
  induction t with
  | nil => cases hmem
  | cons x t ih =>
    by_cases hx : InText x
    · have hmem' : c ∈ t := by
        rcases List.mem_cons.1 hmem with rfl | h
        · exact absurd hx hc
        · exact h
      obtain ⟨l, rest, rfl, hl, hr⟩ := ih hmem'
      exact ⟨x :: l, rest, rfl, List.forall_mem_cons.2 ⟨hx, hl⟩, hr⟩
    · exact ⟨[], x :: t, rfl, nofun, hx⟩

theorem HasKind.isWord {chunk : Text} (h : HasKind .text chunk) : IsWord chunk := by
  obtain ⟨ws, p, -, hspace, hp, htoken, rfl⟩ := h
  obtain rfl : ws = [] := by
    by_contra hne
    cases hspace hne
  cases p with
  | word w => exact hp
  | blank ws => cases htoken
  | comment body newline => cases htoken
  | quoted q body letter =>
    cases letter with
    | none => cases htoken
    | some k =>
      simp only [Piece.token] at htoken
      split at htoken <;> cases htoken
  | mark c =>
    simp only [Piece.token] at htoken
    split_ifs at htoken

theorem not_lossless_word_comment {after newline : UInt8} {w body rest : Text} (hw : IsWord w)
    (hp : (Piece.comment body newline).Proper) :
    ¬ Lossless after (w ++ ((Piece.comment body newline).text ++ rest)) := by
  obtain ⟨c, l, rfl, hc, hl, hdash⟩ := hw.cons
  -- the text goes on behind the dashes, up to the end of the line at most
  have hnewline : ¬ InText newline := by
    rcases hp.2 with rfl | rfl <;> decide
  obtain ⟨more, rest', htail, hmore, hrest'⟩ :=
    exists_delimited (t := body ++ newline :: rest) (by simp) hnewline
  have htext : c :: l ++ ((Piece.comment body newline).text ++ rest) =
      c :: (l ++ cDash :: cDash :: more) ++ rest' := by
    simp [Piece.text, htail]
  have hlong : ∀ x ∈ l ++ cDash :: cDash :: more, InText x := by
    intro x hx
    rcases List.mem_append.1 hx with hx | hx
    · exact hl x hx
    · rcases List.mem_cons.1 hx with rfl | hx
      · exact .inr rfl
      · rcases List.mem_cons.1 hx with rfl | hx
        · exact .inr rfl
        · exact hmore x hx
  have hlexeme : Lexeme .text (c :: (l ++ cDash :: cDash :: more)) rest' := by
    refine lexeme_text hc hlong (fun after' ↦ ?_) hrest'
    have := hdash (cDash :: cDash :: more ++ rest') after'
    simpa using this
  rw [htext, lossless_append_iff (hlexeme.parse after) (List.cons_ne_nil _ _)]
  rintro ⟨hkind, -⟩
  have hchain := hkind.isWord.no_comment
  rw [← List.cons_append] at hchain
  exact (List.isChain_cons_cons.1 (List.isChain_append.1 hchain).2.1).1 ⟨rfl, rfl⟩

def Piece.Fits (p : Piece) (ps : List Piece) : Prop :=
  ∀ q ∈ ps.head?, q.Proper ∧ p.Apart q

theorem lossless_blank_iff (after : UInt8) {ws : Text} {ps : List Piece}
    (hw : (Piece.blank ws).Proper) (hps : (Piece.blank ws).Fits ps) :
    Lossless after (textOf (.blank ws :: ps)) ↔ Lossless after (textOf ps) := by
  cases ps with
  | nil =>
    refine iff_of_true ?_ (.nil after)
    have hr : Reads after .initial ws [(.space, ws)] .whitespace := by
      have h := Reads.cons (gserParse_blank_end hw.2 hw.1 after) (List.length_pos_iff.2 hw.1)
        (by rw [List.drop_length]; exact .nil _)
      rwa [List.take_length] at h
    rw [textOf_cons, textOf, List.flatMap_nil, List.append_nil]
    refine ⟨_, _, hr, ?_, hr.sum_length, .inr rfl⟩
    exact List.forall_mem_singleton.2 ⟨[], .blank ws, nofun, nofun, hw, rfl, rfl⟩
  | cons q ps =>
    obtain ⟨hq, ha⟩ := hps q rfl
    by_cases hspace : q.token = .space
    · -- white space and a comment are one token
      cases q with
      | blank ws' => exact ha.elim
      | comment body newline =>
        have hkind : HasKind .space (ws ++ (Piece.comment body newline).text) :=
          ⟨ws, _, hw.2, fun _ ↦ rfl, hq, rfl, rfl⟩
        have hparse := gserParse_comment hw.2 hq after (textOf ps)
        rw [← List.append_assoc] at hparse
        rw [lossless_cons_iff hq (found_comment hq _) hq.text_ne_nil, textOf_cons, textOf_cons,
          Piece.text, ← List.append_assoc, lossless_append_iff hparse (by simp [Piece.text])]
        exact and_iff_right hkind
      | word w => cases hspace
      | quoted q body letter =>
        cases letter with
        | none => cases hspace
        | some k =>
          simp only [Piece.token] at hspace
          split at hspace <;> cases hspace
      | mark c =>
        simp only [Piece.token] at hspace
        split_ifs at hspace
    · refine lossless_cons_iff hw ?_ hw.1
      rw [textOf_cons]
      exact found_blank hw hq hspace _

theorem lossless_word_iff (after : UInt8) {w : Text} {ps : List Piece}
    (hw : (Piece.word w).Proper) (hps : (Piece.word w).Fits ps) :
    Lossless after (textOf (.word w :: ps)) ↔
      (Piece.word w).EndsBefore ps ∧ Lossless after (textOf ps) := by
  by_cases he : (Piece.word w).EndsBefore ps
  · rw [and_iff_right he]
    cases ps with
    | nil => exact he.elim
    | cons q ps =>
      obtain ⟨hq, ha⟩ := hps q rfl
      refine lossless_cons_iff hw ?_ hw.text_ne_nil
      rw [textOf_cons]
      exact (IsWord.lexeme hw (delimited_of_apart hq ha ps he _)).parse after
  · refine iff_of_false ?_ fun h ↦ he h.1
    unfold Piece.EndsBefore at he
    split at he
    · next heq =>
      cases heq
      rw [textOf_cons, textOf, List.flatMap_nil, List.append_nil]
      exact not_lossless_of_none hw.text_ne_nil (gserParse_word_end hw after)
    · next heq =>
      cases heq
      rw [textOf_cons, textOf_cons]
      exact not_lossless_word_comment hw (hps _ rfl).1
    · next heq => cases heq
    · exact absurd trivial he

theorem lossless_quoted_iff (after : UInt8) {q : UInt8} {body : Text} {ps : List Piece}
    (hq : (Piece.quoted q body none).Proper) (hps : (Piece.quoted q body none).Fits ps) :
    Lossless after (textOf (.quoted q body none :: ps)) ↔
      (Piece.quoted q body none).EndsBefore ps ∧ Lossless after (textOf ps) := by
  cases ps with
  | nil =>
    refine iff_of_false ?_ fun h ↦ h.1
    rw [textOf_cons, textOf, List.flatMap_nil, List.append_nil]
    exact not_lossless_of_none hq.text_ne_nil
      (gserParse_quoted_end hq.1 (fun x hx ↦ (hq.2.1 x hx).2) after)
  | cons p ps =>
    obtain ⟨hp, ha⟩ := hps p rfl
    obtain ⟨d, l, hd, hletter⟩ := not_isLetter_of_apart hp ha
    rw [and_iff_right (by trivial)]
    refine lossless_cons_iff hq ?_ hq.text_ne_nil
    rw [textOf_cons, hd]
    exact found_unlettered hq hletter

theorem lossless_piece_iff (after : UInt8) {p : Piece} {ps : List Piece} (hp : p.Proper)
    (hps : p.Fits ps) :
    Lossless after (textOf (p :: ps)) ↔ p.EndsBefore ps ∧ Lossless after (textOf ps) := by
  cases p with
  | blank ws => exact (lossless_blank_iff after hp hps).trans (and_iff_right trivial).symm
  | comment body newline =>
    exact (lossless_cons_iff hp (found_comment hp _) hp.text_ne_nil).trans
      (and_iff_right trivial).symm
  | word w => exact lossless_word_iff after hp hps
  | quoted q body letter =>
    cases letter with
    | none => exact lossless_quoted_iff after hp hps
    | some k =>
      exact (lossless_cons_iff hp (found_lettered hp _) hp.text_ne_nil).trans
        (and_iff_right trivial).symm
  | mark c =>
    exact (lossless_cons_iff hp (found_mark hp _) hp.text_ne_nil).trans
      (and_iff_right trivial).symm

theorem lossless_iff_terminated (after : UInt8) {ps : List Piece} (hp : ∀ p ∈ ps, p.Proper)
    (hc : ps.IsChain Piece.Apart) : Lossless after (textOf ps) ↔ Terminated ps := by
  induction ps with
  | nil => exact iff_of_true (.nil after) trivial
  | cons p ps ih =>
    have hfits : p.Fits ps :=
      fun q hq ↦ ⟨hp q (List.mem_cons_of_mem _ (List.mem_of_mem_head? hq)), hc.rel_head? hq⟩
    rw [lossless_piece_iff after (hp p (by simp)) hfits,
      ih (fun q hq ↦ hp q (by simp [hq])) hc.tail, Terminated]

/-! Pieces that merge: white space and white space, words and words, and a string with a B or an
H behind it. -/

def Piece.join : Piece → List Piece → List Piece
  | .blank ws, .blank ws' :: ps => .blank (ws ++ ws') :: ps
  | .word w, .word w' :: ps => .word (w ++ w') :: ps
  | .quoted q body none, .word (c :: w) :: ps =>
    if IsLetter c then .quoted q body (some c) :: if w = [] then ps else .word w :: ps
    else .quoted q body none :: .word (c :: w) :: ps
  | p, ps => p :: ps

def merge (ps : List Piece) : List Piece :=
  ps.foldr Piece.join []

theorem IsWord.append {w w' : Text} (hw : IsWord w) (hw' : IsWord w') : IsWord (w ++ w') where
  ne_nil h := hw.ne_nil (List.append_eq_nil_iff.1 h).1
  inText c hc := (List.mem_append.1 hc).elim (hw.inText c) (hw'.inText c)
  no_comment := by
    refine List.isChain_append.2 ⟨hw.no_comment, hw'.no_comment, ?_⟩
    rintro a ha b - ⟨rfl, -⟩
    exact hw.last ha
  last := by
    rw [List.getLast?_append_of_ne_nil _ hw'.ne_nil]
    exact hw'.last

theorem IsWord.tail {c : UInt8} {w : Text} (h : IsWord (c :: w)) (hne : w ≠ []) : IsWord w where
  ne_nil := hne
  inText x hx := h.inText x (List.mem_cons_of_mem _ hx)
  no_comment := h.no_comment.tail
  last := by
    have := h.last
    rwa [← List.singleton_append, List.getLast?_append_of_ne_nil _ hne] at this

structure Separate (ps : List Piece) : Prop where
  proper : ∀ p ∈ ps, p.Proper
  apart : ps.IsChain Piece.Apart

theorem Separate.cons {p : Piece} {ps : List Piece} (hp : p.Proper) (hps : Separate ps)
    (ha : ∀ q ∈ ps.head?, p.Apart q) : Separate (p :: ps) where
  proper := List.forall_mem_cons.2 ⟨hp, hps.proper⟩
  apart := List.isChain_cons.2 ⟨ha, hps.apart⟩

theorem Separate.of_cons {p : Piece} {ps : List Piece} (h : Separate (p :: ps)) :
    p.Proper ∧ Separate ps ∧ ∀ q ∈ ps.head?, p.Apart q :=
  ⟨h.proper p (by simp), ⟨fun q hq ↦ h.proper q (by simp [hq]), h.apart.tail⟩,
    (List.isChain_cons.1 h.apart).1⟩

theorem Piece.Apart.blank {ws : Text} {q : Piece} (ws' : Text) (h : (Piece.blank ws).Apart q) :
    (Piece.blank ws').Apart q := by
  cases q <;> exact h

theorem Piece.Apart.word {w : Text} {q : Piece} (w' : Text) (h : (Piece.word w).Apart q) :
    (Piece.word w').Apart q := by
  cases q <;> exact h

theorem separate_join {p : Piece} {ps : List Piece} (hp : p.Proper) (hps : Separate ps) :
    Separate (p.join ps) ∧ textOf (p.join ps) = p.text ++ textOf ps := by
  unfold Piece.join
  split
  · next ws ws' ps =>
    obtain ⟨hws, hps, ha⟩ := hps.of_cons
    have hblank : Blank (ws ++ ws') :=
      fun c hc ↦ (List.mem_append.1 hc).elim (hp.2 c) (hws.2 c)
    exact ⟨.cons ⟨by simp [hp.1], hblank⟩ hps fun q hq ↦ (ha q hq).blank _,
      by simp [textOf_cons, Piece.text]⟩
  · next w w' ps =>
    obtain ⟨hw, hps, ha⟩ := hps.of_cons
    exact ⟨.cons (IsWord.append hp hw) hps fun q hq ↦ (ha q hq).word _,
      by simp [textOf_cons, Piece.text]⟩
  · next q body c w ps =>
    split
    · next hletter =>
      obtain ⟨hw, hrest, ha⟩ := hps.of_cons
      have hquoted : (Piece.quoted q body (some c)).Proper :=
        ⟨hp.1, hp.2.1, fun x hx ↦ (Option.some.inj hx) ▸ hletter⟩
      split
      · next hnil =>
        subst hnil
        exact ⟨.cons hquoted hrest fun _ _ ↦ trivial, by simp [textOf_cons, Piece.text]⟩
      · next hne =>
        exact ⟨.cons hquoted (.cons (IsWord.tail hw hne) hrest fun q hq ↦ (ha q hq).word _)
          fun _ _ ↦ trivial, by simp [textOf_cons, Piece.text]⟩
    · next hletter =>
      refine ⟨.cons hp hps fun x hx ↦ ?_, textOf_cons _ _⟩
      cases hx
      rintro x ⟨⟩
      exact hletter
  · next hblank hword hquoted =>
    refine ⟨.cons hp hps fun q hq ↦ ?_, textOf_cons _ _⟩
    obtain ⟨ps, rfl⟩ : ∃ ps', ps = q :: ps' := by
      cases ps with
      | nil => cases hq
      | cons q' ps' =>
        cases hq
        exact ⟨ps', rfl⟩
    unfold Piece.Apart
    split
    · exact hblank _ _ _ rfl rfl
    · exact hword _ _ _ rfl rfl
    · next w =>
      rintro c hc
      cases w with
      | nil => cases hc
      | cons d w =>
        exact absurd rfl (hquoted _ _ _ _ _ rfl)
    · trivial

theorem separate_merge {ps : List Piece} (hp : ∀ p ∈ ps, p.Proper) :
    Separate (merge ps) ∧ textOf (merge ps) = textOf ps := by
  induction ps with
  | nil => exact ⟨⟨nofun, .nil⟩, rfl⟩
  | cons p ps ih =>
    obtain ⟨hsep, htext⟩ := ih fun q hq ↦ hp q (by simp [hq])
    obtain ⟨hsep', htext'⟩ := separate_join (hp p (by simp)) hsep
    exact ⟨hsep', by rw [textOf_cons, ← htext]; exact htext'⟩

/-- A text made of proper pieces is read without loss exactly if, in as few pieces as possible,
no word stands in front of a comment, and the last piece is neither a word nor a string without
a letter. -/
theorem lossless_iff (after : UInt8) (ps : List Piece) (hp : ∀ p ∈ ps, p.Proper) :
    Lossless after (textOf ps) ↔ Terminated (merge ps) := by
  obtain ⟨hsep, htext⟩ := separate_merge hp
  rw [← htext]
  exact lossless_iff_terminated after hsep.proper hsep.apart

theorem lossless_iff_braces : Lossless 0 (textOf
    [.mark charOpenBracket, .word (ascii "a"), .blank [0x20], .quoted charSquote (ascii "01") none,
      .word (ascii "B"), .mark charCloseBracket]) :=
  (lossless_iff 0 _ (by decide)).2 ⟨trivial, trivial, trivial, trivial, trivial, trivial⟩

/-- An identifier at the end of the text: one byte is left over, and no token is set. -/
theorem last_word_lost : (Piece.word (ascii "abc")).Proper ∧
    gserParse 0 .initial (textOf [.word (ascii "abc")]) = ⟨.text, none, 2⟩ ∧
    ¬ Lossless 0 (textOf [.word (ascii "abc")]) := by
  refine ⟨by decide, by decide, ?_⟩
  rw [lossless_iff_terminated 0 (by decide) (.singleton _)]
  exact fun h ↦ h.1

end EnbL1Ppc.Gser
