import EnbL1Ppc.Gser.Decoder

namespace EnbL1Ppc.Gser

open Lib

def Blank (ws : Text) : Prop :=
  ∀ c ∈ ws, isWhitespace c = true

instance (ws : Text) : Decidable (Blank ws) :=
  List.decidableBAll _ ws

def InText (c : UInt8) : Prop :=
  isAlnum c = true ∨ c = cDash

instance (c : UInt8) : Decidable (InText c) :=
  inferInstanceAs (Decidable (_ ∨ _))

def Delimited : Text → Prop
  | [] => False
  | d :: _ => ¬ InText d

structure Lexeme (t : Token) (tok rest : Text) : Prop where
  parse : ∀ after, gserParse after .initial (tok ++ rest) = ⟨.initial, some t, tok.length⟩
  ne_space : t ≠ .space
  head : ∃ c l, tok = c :: l ∧ isWhitespace c = false ∧
    ∀ after, ¬ (c = cDash ∧ (l ++ rest).headD after = cDash)

theorem gserParse_cons {after c : UInt8} {l : Text} {state : PState} (hc : c ≠ 0) :
    gserParse after state (c :: l) =
      ⟨(scan after (c :: l) ⟨state, 0, none, false, false⟩ 0).1.state,
        (scan after (c :: l) ⟨state, 0, none, false, false⟩ 0).1.token,
        if (scan after (c :: l) ⟨state, 0, none, false, false⟩ 0).1.last
        then (scan after (c :: l) ⟨state, 0, none, false, false⟩ 0).2
        else (scan after (c :: l) ⟨state, 0, none, false, false⟩ 0).2 - 1⟩ := by
  simp [gserParse, hc]

theorem not_isWhitespace_of_isAlnum {c : UInt8} (h : isAlnum c = true) :
    isWhitespace c = false := by
  simp only [isAlnum, decide_eq_true_eq, isWhitespace, decide_eq_false_iff_not] at *
  omega

theorem InText.not_isWhitespace {c : UInt8} (h : InText c) : isWhitespace c = false := by
  rcases h with h | rfl
  · exact not_isWhitespace_of_isAlnum h
  · decide

theorem InText.ne_zero {c : UInt8} (h : InText c) : c ≠ 0 := by
  rintro rfl
  exact absurd h (by simp [InText, isAlnum, charClass, cDash])

theorem lexChar_text {next c : UInt8} {s : Scan} (hs : s.state = .text) (hc : InText c) :
    lexChar next s c = s := by
  unfold lexChar
  simp only [hs, show isAlnum c = true ∨ c = cDash from hc, not_true, if_false]

theorem scan_found {after c : UInt8} {rest : Text} {s s' : Scan} {n : ℕ}
    (h : lexChar (rest.headD after) s c = s') (hf : s'.found = true) :
    scan after (c :: rest) s n = (s', n + 1) := by
  rw [scan_cons, h, if_pos hf]

theorem scan_next {after c : UInt8} {rest : Text} {s s' : Scan} {n : ℕ}
    (h : lexChar (rest.headD after) s c = s') (hf : s'.found = false) :
    scan after (c :: rest) s n = scan after rest s' (n + 1) := by
  rw [scan_cons, h, if_neg (by simp [hf])]

abbrev Scan.start : Scan := ⟨.initial, 0, none, false, false⟩

theorem gserParse_of_scan {after c : UInt8} {l : Text} {s : Scan} {n : ℕ} (hc : c ≠ 0)
    (h : scan after (c :: l) .start 0 = (s, n)) :
    gserParse after .initial (c :: l) = ⟨s.state, s.token, if s.last then n else n - 1⟩ := by
  rw [gserParse_cons hc, h]

theorem scan_word {c : UInt8} {l : Text} (hc : InText c) (hl : ∀ x ∈ l, InText x) (after : UInt8)
    (rest : Text) (hdash : ¬ (c = cDash ∧ (l ++ rest).headD after = cDash)) :
    scan after (c :: (l ++ rest)) .start 0 =
      scan after rest ⟨.text, 0, none, false, false⟩ (l.length + 1) := by
  have hfirst : lexChar ((l ++ rest).headD after) .start c = ⟨.text, 0, none, false, false⟩ := by
    unfold lexChar
    simp only [hc.not_isWhitespace, Bool.false_eq_true, if_false, if_neg hdash,
      if_pos (show isAlnum c = true ∨ c = cDash from hc)]
  rw [scan_next hfirst rfl, scan_stay rfl (fun x hx _ ↦ lexChar_text rfl (hl x hx))]
  congr 1
  omega

theorem lexeme_text {c : UInt8} {l rest : Text} (hc : InText c) (hl : ∀ x ∈ l, InText x)
    (hdash : ∀ after, ¬ (c = cDash ∧ (l ++ rest).headD after = cDash)) (hr : Delimited rest) :
    Lexeme .text (c :: l) rest where
  parse after := by
    cases rest with
    | nil => exact hr.elim
    | cons d tail =>
      have hlast : lexChar (tail.headD after) ⟨.text, 0, none, false, false⟩ d =
          ⟨.initial, 0, some .text, false, true⟩ := by
        unfold lexChar
        simp only [if_pos (show ¬ (isAlnum d = true ∨ d = cDash) from hr), Scan.accept]
      have hscan := scan_word hc hl after (d :: tail) (hdash after)
      rw [scan_found hlast rfl] at hscan
      rw [List.cons_append, gserParse_of_scan hc.ne_zero hscan]
      rfl
  ne_space := by decide
  head := ⟨c, l, rfl, hc.not_isWhitespace, hdash⟩

theorem lexeme_openBracket (rest : Text) : Lexeme .openBracket [charOpenBracket] rest where
  parse _ := rfl
  ne_space := by decide
  head := ⟨_, [], rfl, by decide, fun _ h ↦ absurd h.1 (by decide)⟩

theorem lexeme_closeBracket (rest : Text) : Lexeme .closeBracket [charCloseBracket] rest where
  parse _ := rfl
  ne_space := by decide
  head := ⟨_, [], rfl, by decide, fun _ h ↦ absurd h.1 (by decide)⟩

theorem lexeme_colon (rest : Text) : Lexeme .colon [charColon] rest where
  parse _ := rfl
  ne_space := by decide
  head := ⟨_, [], rfl, by decide, fun _ h ↦ absurd h.1 (by decide)⟩

theorem lexeme_comma (rest : Text) : Lexeme .comma [charComma] rest where
  parse _ := rfl
  ne_space := by decide
  head := ⟨_, [], rfl, by decide, fun _ h ↦ absurd h.1 (by decide)⟩

def IsQuote (q : UInt8) : Prop :=
  q = charSquote ∨ q = cQuote

instance (q : UInt8) : Decidable (IsQuote q) :=
  inferInstanceAs (Decidable (_ ∨ _))

theorem scan_quoted {q : UInt8} {body : Text} (hq : IsQuote q) (hb : ∀ x ∈ body, x ≠ q)
    (after : UInt8) (rest : Text) :
    scan after (q :: (body ++ q :: rest)) .start 0 =
      scan after rest ⟨.stringEnd, q, none, false, false⟩ (body.length + 2) := by
  have hstart : ∀ next, lexChar next .start q = ⟨.string, q, none, false, false⟩ := by
    intro next
    rcases hq with rfl | rfl <;> rfl
  have hclose : ∀ next, lexChar next ⟨.string, q, none, false, false⟩ q =
      ⟨.stringEnd, q, none, false, false⟩ := by
    intro next
    unfold lexChar
    simp only [if_true]
  have hstay : ∀ c ∈ body, ∀ next, lexChar next ⟨.string, q, none, false, false⟩ c =
      ⟨.string, q, none, false, false⟩ := by
    intro c hc next
    unfold lexChar
    simp only [if_neg (hb c hc)]
  rw [scan_next (hstart _) rfl, scan_stay rfl hstay, scan_next (hclose _) rfl]
  congr 1
  omega

theorem IsQuote.ne_zero {q : UInt8} (hq : IsQuote q) : q ≠ 0 := by
  rcases hq with rfl | rfl <;> decide

theorem gserParse_lettered {t : Token} {q k : UInt8} {body : Text} (hq : IsQuote q)
    (hb : ∀ x ∈ body, x ≠ q) (hk : k = 0x42 ∧ t = .bstring ∨ k = 0x48 ∧ t = .hstring)
    (after : UInt8) (rest : Text) :
    gserParse after .initial (q :: (body ++ q :: k :: rest)) =
      ⟨.initial, some t, body.length + 3⟩ := by
  have hend : lexChar (rest.headD after) ⟨.stringEnd, q, none, false, false⟩ k =
      ⟨.initial, q, some t, true, true⟩ := by
    rcases hk with ⟨rfl, rfl⟩ | ⟨rfl, rfl⟩ <;> rfl
  have hscan := scan_quoted hq hb after (k :: rest)
  rw [scan_found hend rfl] at hscan
  rw [gserParse_of_scan hq.ne_zero hscan]
  rfl

theorem lexeme_string {t : Token} {k : UInt8} {body : Text} (rest : Text)
    (hb : ∀ x ∈ body, x ≠ charSquote) (hk : k = 0x42 ∧ t = .bstring ∨ k = 0x48 ∧ t = .hstring) :
    Lexeme t (charSquote :: (body ++ [charSquote, k])) rest where
  parse after := by
    have happ : charSquote :: (body ++ [charSquote, k]) ++ rest =
        charSquote :: (body ++ charSquote :: k :: rest) := by simp
    rw [happ, gserParse_lettered (.inl rfl) hb hk]
    simp
  ne_space := by rcases hk with ⟨-, rfl⟩ | ⟨-, rfl⟩ <;> decide
  head := ⟨_, _, rfl, by decide, fun _ h ↦ absurd h.1 (by decide)⟩

theorem ne_zero_of_isWhitespace {c : UInt8} (hc : isWhitespace c = true) : c ≠ 0 := by
  rintro rfl
  exact absurd hc (by decide)

theorem scan_blank {w : UInt8} {ws : Text} (hw : Blank (w :: ws)) (after : UInt8) (rest : Text) :
    scan after (w :: (ws ++ rest)) .start 0 =
      scan after rest ⟨.whitespace, 0, some .space, true, false⟩ (ws.length + 1) := by
  have hfirst : ∀ next, lexChar next .start w = ⟨.whitespace, 0, some .space, true, false⟩ := by
    intro next
    unfold lexChar
    simp only [if_pos (hw w (by simp))]
  have hstay : ∀ x ∈ ws, ∀ next, lexChar next ⟨.whitespace, 0, some .space, true, false⟩ x =
      ⟨.whitespace, 0, some .space, true, false⟩ := by
    intro x hx next
    unfold lexChar lexWhitespace
    simp only [if_pos (hw x (by simp [hx]))]
  rw [scan_next (hfirst _) rfl, scan_stay rfl hstay]
  congr 1
  omega

theorem gserParse_blank_cons {ws l : Text} {c : UInt8} (hw : Blank ws) (hne : ws ≠ [])
    (hc : isWhitespace c = false) {after : UInt8} (hdash : ¬ (c = cDash ∧ l.headD after = cDash)) :
    gserParse after .initial (ws ++ c :: l) = ⟨.initial, some .space, ws.length⟩ := by
  obtain ⟨w, ws, rfl⟩ := List.exists_cons_of_ne_nil hne
  have hlast : lexChar (l.headD after) ⟨.whitespace, 0, some .space, true, false⟩ c =
      ⟨.initial, 0, some .space, false, true⟩ := by
    unfold lexChar lexWhitespace
    simp only [hc, Bool.false_eq_true, if_false, if_neg hdash, Scan.accept]
  have hscan := scan_blank hw after (c :: l)
  rw [scan_found hlast rfl] at hscan
  rw [List.cons_append, gserParse_of_scan (ne_zero_of_isWhitespace (hw w (by simp))) hscan]
  rfl

theorem gserParse_blank {t : Token} {ws tok rest : Text} (hw : Blank ws) (hne : ws ≠ [])
    (ht : Lexeme t tok rest) (after : UInt8) :
    gserParse after .initial (ws ++ (tok ++ rest)) = ⟨.initial, some .space, ws.length⟩ := by
  obtain ⟨c, l, rfl, hc, hdash⟩ := ht.head
  exact gserParse_blank_cons hw hne hc (hdash after)

theorem skipSpaces_lexeme (env : Env) {n : ℕ} (hn : 2 ≤ n) {c : Cursor} {t : Token}
    {ws tok rest : Text} (hs : c.state = .initial) (hbuf : c.buf = ws ++ (tok ++ rest))
    (hw : Blank ws) (ht : Lexeme t tok rest) :
    (skipSpaces env n c).res =
      some ⟨⟨.initial, some t, tok ++ rest, c.consumed + ws.length⟩, tok.length, true⟩ := by
  have hread : ∀ (m : ℕ) (c : Cursor), c.state = .initial → c.buf = tok ++ rest →
      (skipSpaces env (m + 1) c).res =
        some ⟨⟨.initial, some t, tok ++ rest, c.consumed⟩, tok.length, true⟩ := by
    intro m c hs hbuf
    rw [skipSpaces, hs, hbuf, ht.parse]
    simp [ht.ne_space, Logged.tellIf]
  obtain ⟨m, rfl⟩ := Nat.exists_eq_add_of_le' hn
  cases ws with
  | nil => exact hread _ c hs hbuf
  | cons w ws =>
    rw [skipSpaces, hs, hbuf, gserParse_blank hw (by simp) ht]
    simp only [Logged.tell_bind_res, List.length_cons, Nat.zero_lt_succ, reduceCtorEq, and_false,
      Logged.tellIf, if_false, Logged.pure_bind', Option.some_or, true_and, if_true]
    rw [hread m _ rfl (by simp [Cursor.advance])]
    rfl

theorem readToken_res (r : Skipped) : (readToken r).res = some r.cursor.token := by
  simp [readToken]

end EnbL1Ppc.Gser
