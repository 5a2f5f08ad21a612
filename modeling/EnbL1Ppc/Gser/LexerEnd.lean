import EnbL1Ppc.Gser.Lexemes

namespace EnbL1Ppc.Gser

/-!
What a call of the lexer leaves behind when it does not find a token.
-/

structure Scan.Sound (s : Scan) : Prop where
  state_of_found : s.found = true → s.state = .initial
  token_of_found : s.found = true → s.token ≠ none
  token_of_not_found : s.found = false → s.token = none ∨ s.token = some .space
  last_of_mark : s.token = some .openBracket ∨ s.token = some .closeBracket ∨
    s.token = some .comma → s.last = true

theorem Scan.Sound.accept {s : Scan} {t : Token} {last : Bool}
    (h : t = .openBracket ∨ t = .closeBracket ∨ t = .comma → last = true) :
    (s.accept t last).Sound where
  state_of_found _ := rfl
  token_of_found _ := Option.some_ne_none t
  token_of_not_found hf := by cases hf
  last_of_mark ht := h (by simpa [Scan.accept] using ht)

theorem Scan.Sound.of_not_found {s : Scan} (hf : s.found = false)
    (ht : s.token = none ∨ s.token = some .space) : s.Sound where
  state_of_found h := by simp [hf] at h
  token_of_found h := by simp [hf] at h
  token_of_not_found _ := ht
  last_of_mark h := by rcases ht with ht | ht <;> simp [ht] at h

theorem lexChar_sound {next c : UInt8} {s : Scan} (h : s.Sound) (hf : s.found = false) :
    (lexChar next s c).Sound := by
  have htok := h.token_of_not_found hf
  have hround := lexChar_round next s c
  generalize lexChar next s c = s' at hround ⊢
  cases hround with
  | space => exact .of_not_found hf (.inr rfl)
  | blank | inside => exact .of_not_found hf htok
  | accept hmark =>
    refine .accept fun ht ↦ (hmark ?_).2
    rcases ht with rfl | rfl | rfl <;> rfl

theorem scan_sound {after : UInt8} {buf : Text} {s : Scan} (n : ℕ) (h : s.Sound)
    (hf : s.found = false) : (scan after buf s n).1.Sound := by
  induction buf generalizing s n with
  | nil => exact h
  | cons c rest ih =>
    rw [scan_cons]
    split
    · exact lexChar_sound h hf
    · next hf' => exact ih _ (lexChar_sound h hf) (by simpa using hf')

theorem scan_not_found {after : UInt8} {buf : Text} {s : Scan} {n : ℕ}
    (hf : (scan after buf s n).1.found = false) : (scan after buf s n).2 = n + buf.length := by
  induction buf generalizing s n with
  | nil => rfl
  | cons c rest ih =>
    rw [scan_cons] at hf ⊢
    split at hf
    · next h =>
      rw [h] at hf
      cases hf
    · next h =>
      rw [if_neg h, ih hf, List.length_cons]
      omega

theorem scan_pos {after c : UInt8} {rest : Text} {s : Scan} :
    0 < (scan after (c :: rest) s 0).2 := by
  rw [scan_cons]
  split
  · exact Nat.one_pos
  · exact Nat.lt_of_lt_of_le Nat.one_pos (scan_snd_bounds after rest _ 1).1

theorem scan_start_sound (after : UInt8) (state : PState) (buf : Text) :
    (scan after buf ⟨state, 0, none, false, false⟩ 0).1.Sound :=
  scan_sound 0 (.of_not_found rfl (.inl rfl)) rfl

theorem gserParse_null {after : UInt8} {state : PState} {buf : Text} (h : buf.headD 0 = 0) :
    gserParse after state buf = ⟨state, none, 0⟩ :=
  if_pos h

theorem gserParse_some {after : UInt8} {state : PState} {buf : Text} {t : Token}
    (h : (gserParse after state buf).token = some t) : ∃ c rest, buf = c :: rest ∧ c ≠ 0 := by
  by_cases h0 : buf.headD 0 = 0
  · rw [gserParse_null h0] at h
    cases h
  · cases buf with
    | nil => exact absurd rfl h0
    | cons c rest => exact ⟨c, rest, rfl, h0⟩

theorem gserParse_state {after : UInt8} {state state' : PState} {buf : Text} {t : Token} {n : ℕ}
    (h : gserParse after state buf = ⟨state', some t, n⟩) (ht : t ≠ .space) :
    state' = .initial := by
  obtain ⟨c, rest, rfl, hc⟩ := gserParse_some (by rw [h])
  have hsound := scan_start_sound after state (c :: rest)
  rw [gserParse_cons hc, Lexed.mk.injEq] at h
  rw [← h.1]
  apply hsound.state_of_found
  by_contra hf
  rcases hsound.token_of_not_found (by simpa using hf) with hn | hn
  · rw [hn] at h
    cases h.2.1
  · rw [hn] at h
    exact ht (Option.some.inj h.2.1).symm

theorem gserParse_mark_pos {after : UInt8} {state state' : PState} {buf : Text} {t : Token} {n : ℕ}
    (h : gserParse after state buf = ⟨state', some t, n⟩)
    (ht : t = .openBracket ∨ t = .closeBracket ∨ t = .comma) : 0 < n := by
  obtain ⟨c, rest, rfl, hc⟩ := gserParse_some (by rw [h])
  have hsound := scan_start_sound after state (c :: rest)
  rw [gserParse_cons hc, Lexed.mk.injEq] at h
  rw [if_pos (hsound.last_of_mark (by rw [h.2.1]; simpa using ht))] at h
  rw [← h.2.2]
  exact scan_pos

def Holds (c : UInt8) : PState → Prop
  | .text => InText c
  | .string => c ≠ 0
  | .comment => ¬ (c = 0x0a ∨ c = 0x0d)
  | _ => False

theorem lexChar_of_holds {next c : UInt8} {state : PState} (h : Holds c state) :
    lexChar next ⟨state, 0, none, false, false⟩ c = ⟨state, 0, none, false, false⟩ := by
  cases state with
  | text => exact lexChar_text rfl h
  | string => exact if_neg h
  | comment => exact if_neg h
  | _ => exact h.elim

theorem holds_of_lexChar {next c : UInt8} {state : PState} (hc : c ≠ 0) :
    (lexChar next ⟨state, 0, none, false, false⟩ c).token = none →
    (lexChar next ⟨state, 0, none, false, false⟩ c).last = false →
    Holds c (lexChar next ⟨state, 0, none, false, false⟩ c).state := by
  have hdash : c = cDash ∧ next = cDash → Holds c .comment := by
    rintro ⟨rfl, -⟩
    exact show ¬ (cDash = 0x0a ∨ cDash = 0x0d) by decide
  unfold lexChar lexWhitespace
  cases state <;> simp only <;> split_ifs <;> intro ht hl <;>
    first
    | exact hdash ‹_›
    | exact hc
    | exact not_not.1 ‹_›
    | assumption
    | exact absurd ‹c = 0› hc
    | exact absurd ht (Option.some_ne_none _)

theorem scan_single (after c : UInt8) (s : Scan) : scan after [c] s 0 = (lexChar after s c, 1) := by
  rw [scan_cons]
  split <;> rfl

theorem gserParse_single {after c : UInt8} {state : PState} (hc : c ≠ 0) :
    gserParse after state [c] =
      ⟨(lexChar after ⟨state, 0, none, false, false⟩ c).state,
        (lexChar after ⟨state, 0, none, false, false⟩ c).token,
        if (lexChar after ⟨state, 0, none, false, false⟩ c).last then 1 else 0⟩ := by
  rw [gserParse_cons hc, scan_single]
  rfl

theorem gserParse_nothing {after : UInt8} {state state' : PState} {buf : Text}
    (h : gserParse after state buf = ⟨state', none, 0⟩) :
    buf.headD 0 = 0 ∨ ∃ c, buf = [c] ∧ c ≠ 0 := by
  cases buf with
  | nil => exact .inl rfl
  | cons c rest =>
    by_cases hc : c = 0
    · exact .inl hc
    refine .inr ⟨c, ?_, hc⟩
    have hsound := scan_start_sound after state (c :: rest)
    rw [gserParse_cons hc, Lexed.mk.injEq] at h
    obtain ⟨-, ht, hs⟩ := h
    have hf : (scan after (c :: rest) ⟨state, 0, none, false, false⟩ 0).1.found = false := by
      by_contra hf
      exact hsound.token_of_found (by simpa using hf) ht
    rw [scan_not_found hf, List.length_cons] at hs
    have hrest : rest.length = 0 := by
      split at hs <;> omega
    rw [List.eq_nil_of_length_eq_zero hrest]

theorem gserParse_again {after : UInt8} {state state' : PState} {buf : Text}
    (h : gserParse after state buf = ⟨state', none, 0⟩) :
    gserParse after state' buf = ⟨state', none, 0⟩ := by
  rcases gserParse_nothing h with h0 | ⟨c, rfl, hc⟩
  · exact gserParse_null h0
  · rw [gserParse_single hc, Lexed.mk.injEq] at h
    obtain ⟨rfl, ht, hs⟩ := h
    have hl : (lexChar after ⟨state, 0, none, false, false⟩ c).last = false := by
      by_contra hl
      rw [if_pos (by simpa using hl)] at hs
      cases hs
    rw [gserParse_single hc, lexChar_of_holds (holds_of_lexChar hc ht hl)]
    rfl

end EnbL1Ppc.Gser
