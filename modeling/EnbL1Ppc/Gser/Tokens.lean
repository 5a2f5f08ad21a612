import EnbL1Ppc.Gser.LexerEnd
import EnbL1Ppc.Lib.Nesting

namespace EnbL1Ppc.Gser

open Lib Logged

/-!
The text as a sequence of tokens, and what the loops that skip spaces read of it.
-/

/-- The tokens from `buf` on up to `rest`, each read from between tokens, with their bytes. -/
inductive Tokens (after : UInt8) : Text → List (Token × Text) → Text → Prop
  | nil (buf : Text) : Tokens after buf [] buf
  | cons {buf rest : Text} {state : PState} {t : Token} {n : ℕ} {toks : List (Token × Text)} :
    gserParse after .initial buf = ⟨state, some t, n⟩ → 0 < n →
    Tokens after (buf.drop n) toks rest → Tokens after buf ((t, buf.take n) :: toks) rest

section Tokens

variable {after : UInt8} {buf mid rest : Text} {toks toks' : List (Token × Text)}

theorem Tokens.append (h : Tokens after buf toks mid) (h' : Tokens after mid toks' rest) :
    Tokens after buf (toks ++ toks') rest := by
  induction h with
  | nil => exact h'
  | cons hp hn _ ih => exact .cons hp hn (ih h')

theorem Tokens.single {state : PState} {t : Token} {n : ℕ}
    (hp : gserParse after .initial buf = ⟨state, some t, n⟩) (hn : 0 < n) :
    Tokens after buf [(t, buf.take n)] (buf.drop n) :=
  .cons hp hn (.nil _)

theorem Tokens.suffix (h : Tokens after buf toks rest) : rest <:+ buf := by
  induction h with
  | nil => exact List.suffix_refl _
  | cons _ _ _ ih => exact ih.trans (List.drop_suffix _ _)

theorem Tokens.length_lt {t : Token × Text} (h : Tokens after buf (t :: toks) rest) :
    rest.length < buf.length := by
  cases h with
  | cons hp hn h =>
    have hle := h.suffix.length_le
    have hsize := gserParse_size_le after .initial buf
    rw [hp] at hsize
    rw [List.length_drop] at hle
    simp only at hsize
    omega

theorem Tokens.unique (h : Tokens after buf toks rest) (h' : Tokens after buf toks' rest) :
    toks = toks' := by
  induction h generalizing toks' with
  | nil =>
    cases toks' with
    | nil => rfl
    | cons t toks' => exact absurd h'.length_lt (Nat.lt_irrefl _)
  | cons hp hn h ih =>
    cases h' with
    | nil => exact absurd (Tokens.cons hp hn h).length_lt (Nat.lt_irrefl _)
    | cons hp' hn' h' =>
      rw [hp, Lexed.mk.injEq] at hp'
      obtain ⟨-, ht, rfl⟩ := hp'
      rw [Option.some.inj ht, ih h']

end Tokens

def lexTokens (after : UInt8) : ℕ → Text → List (Token × Text) × Text
  | 0, buf => ([], buf)
  | n + 1, buf =>
    match gserParse after .initial buf with
    | ⟨_, some t, k + 1⟩ =>
      ((t, buf.take (k + 1)) :: (lexTokens after n (buf.drop (k + 1))).1,
        (lexTokens after n (buf.drop (k + 1))).2)
    | _ => ([], buf)

theorem lexTokens_tokens (after : UInt8) (n : ℕ) (buf : Text) :
    Tokens after buf (lexTokens after n buf).1 (lexTokens after n buf).2 := by
  induction n generalizing buf with
  | zero => exact .nil buf
  | succ n ih =>
    rw [lexTokens]
    split
    · next hp => exact .cons hp (Nat.succ_pos _) (ih _)
    · exact .nil buf

def significant (t : Token × Text) : Bool :=
  t.1 ≠ .space

def StandBetween (after : UInt8) (start here : Text) (marks : List Token) : Prop :=
  ∃ n ≤ start.length, (lexTokens after n start).2 = here ∧
    ((lexTokens after n start).1.filter significant).map Prod.fst = marks

instance (after : UInt8) (start here : Text) (marks : List Token) :
    Decidable (StandBetween after start here marks) :=
  inferInstanceAs (Decidable (∃ n, n ≤ start.length ∧ _))

theorem StandBetween.map_fst {after : UInt8} {start here : Text} {marks : List Token}
    (h : StandBetween after start here marks) {toks : List (Token × Text)}
    (ht : Tokens after start toks here) : (toks.filter significant).map Prod.fst = marks := by
  obtain ⟨n, -, rfl, hmarks⟩ := h
  rw [ht.unique (lexTokens_tokens after n start), hmarks]

def Token.bracket : Token → Bracket
  | .openBracket => .opening
  | .closeBracket => .closing
  | _ => .other

abbrev depth (d : ℕ) (toks : List (Token × Text)) : Option ℕ :=
  nest (fun t ↦ t.1.bracket) d toks

theorem depth_significant (d : ℕ) (toks : List (Token × Text)) :
    depth d (toks.filter significant) = depth d toks := by
  refine nest_filter (fun t ht ↦ ?_) d toks
  rw [show t.1 = .space by simpa [significant] using ht]
  rfl

theorem scan_space_last {after : UInt8} {buf : Text} {s : Scan} (n : ℕ)
    (h : s.token = some .space → s.last = true) (hf : (scan after buf s n).1.found = false)
    (ht : (scan after buf s n).1.token = some .space) : (scan after buf s n).1.last = true := by
  induction buf generalizing s n with
  | nil => exact h ht
  | cons c rest ih =>
    rw [scan_cons] at hf ht ⊢
    split at hf
    · next hf' =>
      rw [hf'] at hf
      cases hf
    · next hf' =>
      rw [if_neg hf'] at ht ⊢
      refine ih _ ?_ hf ht
      have hround := lexChar_round (rest.headD after) s c
      generalize lexChar (rest.headD after) s c = s' at hf' hround
      cases hround with
      | space | blank => exact fun _ ↦ rfl
      | inside => exact h
      | accept => exact absurd rfl hf'

theorem gserParse_space {after : UInt8} {state state' : PState} {buf : Text} {n : ℕ}
    (h : gserParse after state buf = ⟨state', some .space, n⟩) :
    state' = .initial ∨ n = buf.length := by
  obtain ⟨c, rest, rfl, hc⟩ := gserParse_some (by rw [h])
  have hsound := scan_start_sound after state (c :: rest)
  rw [gserParse_cons hc, Lexed.mk.injEq] at h
  obtain ⟨rfl, ht, hn⟩ := h
  cases hf : (scan after (c :: rest) ⟨state, 0, none, false, false⟩ 0).1.found with
  | true => exact .inl (hsound.state_of_found hf)
  | false =>
    right
    rw [if_pos (scan_space_last 0 (by simp) hf ht), scan_not_found hf] at hn
    rw [← hn, Nat.zero_add]

theorem lexChar_noMark (next c : UInt8) {s : Scan} (hs : s.state ≠ .initial)
    (h : s.token.all (!·.isMark)) :
    (lexChar next s c).token.all (!·.isMark) ∧
      ((lexChar next s c).found = false → (lexChar next s c).state ≠ .initial) := by
  have hround := lexChar_round next s c
  generalize lexChar next s c = s' at hround ⊢
  cases hround with
  | space hs' => exact absurd hs' hs
  | blank => exact ⟨h, fun _ ↦ hs⟩
  | inside _ hstate => exact ⟨h, fun _ ↦ hstate.1⟩
  | @accept t _ hmark =>
    have ht : t.isMark = false := by
      by_contra ht
      exact hs (hmark (by simpa using ht)).1
    refine ⟨?_, fun hf' ↦ by cases hf'⟩
    simp [Scan.accept, ht]

theorem scan_noMark {after : UInt8} {buf : Text} {s : Scan} (n : ℕ) (hs : s.state ≠ .initial)
    (h : s.token.all (!·.isMark)) :
    (scan after buf s n).1.token.all (!·.isMark) := by
  induction buf generalizing s n with
  | nil => exact h
  | cons c rest ih =>
    have hc := lexChar_noMark (rest.headD after) c hs h
    rw [scan_cons]
    split
    · exact hc.1
    · next hf' =>
      rw [Bool.not_eq_true] at hf'
      exact ih _ (hc.2 hf') hc.1

structure FirstChar (c : UInt8) (s : Scan) : Prop where
  found : s.found = true → ∃ t, s.token = some t ∧ t.isBody = false ∧
    (t = .closeBracket → c = charCloseBracket)
  not_found : s.found = false → s.state ≠ .initial ∧ (s.token = none ∨ s.token = some .space)

theorem lexChar_firstChar (next c : UInt8) :
    FirstChar c (lexChar next ⟨.initial, 0, none, false, false⟩ c) := by
  unfold lexChar lexWhitespace
  simp only
  split_ifs <;> constructor <;> simp_all [Scan.accept, Token.isBody]

theorem scan_first (after c : UInt8) (rest : Text) :
    (∃ s, FirstChar c s ∧ s.found = true ∧
      scan after (c :: rest) ⟨.initial, 0, none, false, false⟩ 0 = (s, 1)) ∨
    ∃ s, FirstChar c s ∧ s.found = false ∧
      scan after (c :: rest) ⟨.initial, 0, none, false, false⟩ 0 = scan after rest s 1 := by
  have hfirst := lexChar_firstChar (rest.headD after) c
  rw [scan_cons]
  split
  · next hf => exact .inl ⟨_, hfirst, hf, rfl⟩
  · next hf => exact .inr ⟨_, hfirst, by simpa using hf, rfl⟩

theorem gserParse_close {after : UInt8} {state : PState} {buf : Text} {n : ℕ}
    (h : gserParse after .initial buf = ⟨state, some .closeBracket, n⟩) :
    buf.head? = some charCloseBracket := by
  obtain ⟨c, rest, rfl, hc⟩ := gserParse_some (by rw [h])
  rw [gserParse_cons hc, Lexed.mk.injEq] at h
  obtain ⟨-, ht, -⟩ := h
  rcases scan_first after c rest with ⟨s, hs, hf, heq⟩ | ⟨s, hs, hf, heq⟩
  · obtain ⟨t, hst, -, hclose⟩ := hs.found hf
    rw [heq, hst] at ht
    rw [List.head?_cons, hclose (Option.some.inj ht)]
  · have hmark : (scan after rest s 1).1.token.all (!·.isMark) := by
      refine scan_noMark 1 (hs.not_found hf).1 ?_
      rcases (hs.not_found hf).2 with h | h <;> rw [h] <;> rfl
    rw [← heq, ht] at hmark
    cases hmark

theorem gserParse_body_pos {after : UInt8} {state : PState} {buf : Text} {t : Token} {n : ℕ}
    (h : gserParse after .initial buf = ⟨state, some t, n⟩) (ht : t.isBody = true) : 0 < n := by
  obtain ⟨c, rest, rfl, hc⟩ := gserParse_some (by rw [h])
  rw [gserParse_cons hc, Lexed.mk.injEq] at h
  obtain ⟨-, htok, hn⟩ := h
  rcases scan_first after c rest with ⟨s, hs, hf, heq⟩ | ⟨s, hs, hf, heq⟩
  · obtain ⟨t', hst, hbody, -⟩ := hs.found hf
    rw [heq, hst, Option.some.injEq] at htok
    rw [htok, ht] at hbody
    cases hbody
  · rw [heq] at hn htok
    cases rest with
    | nil =>
      have hnone : s.token ≠ some t := by
        rcases (hs.not_found hf).2 with h | h <;> rw [h]
        · exact Option.some_ne_none t ∘ Eq.symm
        · rintro ⟨⟩
          cases ht
      exact absurd htok hnone
    | cons d rest =>
      have hlen : 2 ≤ (scan after (d :: rest) s 1).2 := by
        rw [scan_cons]
        split
        · exact Nat.le_refl _
        · exact (scan_snd_bounds after rest _ 2).1
      rw [← hn]
      split <;> omega

end EnbL1Ppc.Gser
