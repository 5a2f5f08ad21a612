import Mathlib.Data.List.Defs
import EnbL1Ppc.Gser.Consumption
import EnbL1Ppc.Gser.Lexemes
import EnbL1Ppc.Gser.Primitives

namespace EnbL1Ppc.Gser

open Lib

def Scan.looksAhead (s : Scan) (c : UInt8) : Bool :=
  (s.state = .initial ∨ s.state = .whitespace) ∧ c = cDash

/-- The offsets that the loop of `gser_parse` reads, from offset `n` on. -/
def scanReads (after : UInt8) : Text → Scan → ℕ → List ℕ
  | [], _, _ => []
  | c :: rest, s, n =>
    let s' := lexChar (rest.headD after) s c
    n :: (if s.looksAhead c then [n + 1] else []) ++
      if s'.found then [] else scanReads after rest s' (n + 1)

/-- The offsets that `gser_parse` reads: the test for a terminator, then the loop. -/
def parseReads (after : UInt8) (state : PState) (buf : Text) : List ℕ :=
  if buf = [] then []
  else if buf.headD 0 = 0 then [0]
  else 0 :: scanReads after buf ⟨state, 0, none, false, false⟩ 0

/-- The offsets of the bytes that `debug_token` copies from the buffer to `b`. -/
def debugCopies (after : UInt8) (state : PState) (buf : Text) : List ℕ :=
  if buf = [] then [] else List.range (gserParse after state buf).size

def scratchSize : ℕ := 1024

/-- A call of `gser_next_token` stays inside its buffer and inside `b`. -/
def SafeCall (after : UInt8) (state : PState) (buf : Text) : Prop :=
  (∀ k ∈ parseReads after state buf ++ debugCopies after state buf, k < buf.length) ∧
    ∀ k ∈ debugCopies after state buf, k < scratchSize

def DashAtEnd (state : PState) (buf : Text) : Prop :=
  (state = .initial ∨ state = .whitespace) ∧
    ∃ spaces, (∀ c ∈ spaces, isWhitespace c = true) ∧ buf = spaces ++ [cDash]

theorem lexChar_blank {next c : UInt8} {s : Scan} (hf : (lexChar next s c).found = false) :
    ((lexChar next s c).state = .initial ∨ (lexChar next s c).state = .whitespace) ↔
      (s.state = .initial ∨ s.state = .whitespace) ∧ isWhitespace c = true := by
  have hround := lexChar_round next s c
  generalize lexChar next s c = s' at hf hround ⊢
  cases hround with
  | space hs hc => simp [hs, hc]
  | blank hs hc => simp [hs, hc]
  | inside hc hstate =>
    constructor
    · exact fun h ↦ absurd h (not_or.2 hstate)
    · rintro ⟨hs, hc'⟩
      rw [hc hs] at hc'
      cases hc'
  | accept => cases hf

theorem dashAtEnd_cons_cons {state : PState} {c d : UInt8} {rest : Text} :
    DashAtEnd state (c :: d :: rest) ↔
      ((state = .initial ∨ state = .whitespace) ∧ isWhitespace c = true) ∧
        ∃ spaces, (∀ x ∈ spaces, isWhitespace x = true) ∧ d :: rest = spaces ++ [cDash] := by
  constructor
  · rintro ⟨hs, spaces, hw, he⟩
    cases spaces with
    | nil => simp at he
    | cons x spaces =>
      rw [List.cons_append] at he
      obtain ⟨rfl, he'⟩ := List.cons.inj he
      exact ⟨⟨hs, hw c (by simp)⟩, spaces, fun y hy ↦ hw y (by simp [hy]), he'⟩
  · rintro ⟨⟨hs, hc⟩, spaces, hw, he⟩
    refine ⟨hs, c :: spaces, ?_, by rw [he]; rfl⟩
    intro x hx
    rcases List.mem_cons.1 hx with rfl | hx
    · exact hc
    · exact hw x hx

theorem dashAtEnd_singleton {state : PState} {c : UInt8} :
    DashAtEnd state [c] ↔ (state = .initial ∨ state = .whitespace) ∧ c = cDash := by
  constructor
  · rintro ⟨hs, spaces, -, he⟩
    cases spaces with
    | nil => exact ⟨hs, by simpa using he⟩
    | cons x spaces => simp at he
  · rintro ⟨hs, rfl⟩
    exact ⟨hs, [], by simp, rfl⟩

theorem looksAhead_iff {s : Scan} {c : UInt8} :
    s.looksAhead c = true ↔ (s.state = .initial ∨ s.state = .whitespace) ∧ c = cDash := by
  simp [Scan.looksAhead]

theorem mem_scanReads_cons {after c : UInt8} {rest : Text} {s : Scan} {n k : ℕ} :
    k ∈ scanReads after (c :: rest) s n ↔ k = n ∨ s.looksAhead c = true ∧ k = n + 1 ∨
      (lexChar (rest.headD after) s c).found = false ∧
        k ∈ scanReads after rest (lexChar (rest.headD after) s c) (n + 1) := by
  rw [scanReads]
  cases s.looksAhead c <;> cases (lexChar (rest.headD after) s c).found <;> simp

theorem lexChar_whitespace_found {next c : UInt8} {s : Scan}
    (hs : s.state = .initial ∨ s.state = .whitespace) (hc : isWhitespace c = true) :
    (lexChar next s c).found = s.found := by
  rcases hs with hs | hs <;> simp [lexChar, lexWhitespace, hs, hc]

theorem scanReads_lt_iff {after : UInt8} {buf : Text} {s : Scan} {n : ℕ} (hf : s.found = false) :
    (∀ k ∈ scanReads after buf s n, k < n + buf.length) ↔ ¬ DashAtEnd s.state buf := by
  induction buf generalizing s n with
  | nil => simp [scanReads, DashAtEnd]
  | cons c rest ih =>
    cases rest with
    | nil =>
      rw [dashAtEnd_singleton, ← looksAhead_iff]
      cases hl : s.looksAhead c <;> simp [scanReads, hl]
    | cons d rest =>
      have hlen : n + (c :: d :: rest).length = n + 1 + (d :: rest).length := by
        rw [List.length_cons]
        omega
      have hreads : (∀ k ∈ scanReads after (c :: d :: rest) s n,
            k < n + (c :: d :: rest).length) ↔
          ((lexChar d s c).found = false → ∀ k ∈ scanReads after (d :: rest) (lexChar d s c) (n + 1),
            k < n + 1 + (d :: rest).length) := by
        rw [hlen]
        constructor
        · intro h hf' k hk
          exact h k (mem_scanReads_cons.2 (.inr (.inr ⟨hf', hk⟩)))
        · intro h k hk
          rcases mem_scanReads_cons.1 hk with rfl | ⟨-, rfl⟩ | ⟨hf', hk⟩
          · simp only [List.length_cons]
            omega
          · simp
          · exact h hf' k hk
      rw [hreads, dashAtEnd_cons_cons]
      cases hf' : (lexChar d s c).found with
      | true =>
        have hw : ¬ ((s.state = .initial ∨ s.state = .whitespace) ∧ isWhitespace c = true) := by
          rintro ⟨hs, hc⟩
          rw [lexChar_whitespace_found hs hc, hf] at hf'
          cases hf'
        simp [hw]
      | false =>
        rw [← lexChar_blank hf', ih hf']
        simp [DashAtEnd]

theorem debugCopies_eq (after : UInt8) (state : PState) (buf : Text) :
    debugCopies after state buf = List.range (gserParse after state buf).size := by
  unfold debugCopies
  split
  · next h =>
    subst h
    rfl
  · rfl

theorem safeCall_iff {after : UInt8} {state : PState} {buf : Text} :
    SafeCall after state buf ↔
      ¬ DashAtEnd state buf ∧ (gserParse after state buf).size ≤ scratchSize := by
  have hcopies : ∀ k ∈ debugCopies after state buf, k < buf.length := by
    intro k hk
    rw [debugCopies_eq, List.mem_range] at hk
    exact Nat.lt_of_lt_of_le hk (gserParse_size_le after state buf)
  have hwrites : (∀ k ∈ debugCopies after state buf, k < scratchSize) ↔
      (gserParse after state buf).size ≤ scratchSize := by
    rw [debugCopies_eq]
    constructor
    · intro h
      by_contra hlt
      exact Nat.lt_irrefl _ (h scratchSize (List.mem_range.2 (Nat.not_le.1 hlt)))
    · intro h k hk
      exact Nat.lt_of_lt_of_le (List.mem_range.1 hk) h
  have hreads : (∀ k ∈ parseReads after state buf, k < buf.length) ↔ ¬ DashAtEnd state buf := by
    unfold parseReads
    split
    · next h =>
      subst h
      simp [DashAtEnd]
    · next h =>
      obtain ⟨c, rest, rfl⟩ := List.exists_cons_of_ne_nil h
      split
      · next h0 =>
        have hd : ¬ DashAtEnd state (c :: rest) := by
          rintro ⟨-, spaces, hw, he⟩
          rw [he] at h0
          cases spaces with
          | nil => exact absurd h0 (by decide)
          | cons x spaces =>
            obtain rfl : x = 0 := h0
            exact absurd (hw 0 (by simp)) (by decide)
        simp [hd]
      · have hs : (∀ k ∈ scanReads after (c :: rest) ⟨state, 0, none, false, false⟩ 0,
            k < 0 + (c :: rest).length) ↔ ¬ DashAtEnd state (c :: rest) := scanReads_lt_iff rfl
        simpa using hs
  unfold SafeCall
  rw [hwrites, ← hreads]
  simp only [List.mem_append]
  constructor
  · rintro ⟨h, hb⟩
    exact ⟨fun k hk ↦ h k (.inl hk), hb⟩
  · rintro ⟨h, hb⟩
    exact ⟨fun k hk ↦ hk.elim (h k) (hcopies k), hb⟩

/-- Every lexer call of a run works on a final part of the buffer. All of them are safe
exactly when none finds nothing but white space in front of a dash in the last byte, and none
finds a token of more than 1024 bytes. -/
theorem gserDecode_safe_iff (env : Env) (ty : Ty) (buf : Text) :
    (∀ state b, .lex state b ∈ (gserDecode env ty buf).log → b <:+ buf) ∧
      ((∀ state b, .lex state b ∈ (gserDecode env ty buf).log → SafeCall env.after state b) ↔
        ∀ state b, .lex state b ∈ (gserDecode env ty buf).log →
          ¬ DashAtEnd state b ∧ (gserParse env.after state b).size ≤ scratchSize) := by
  refine ⟨fun state b h ↦ (gserDecode_inside env ty buf).1 _ h, ?_⟩
  simp only [safeCall_iff]

theorem lex_mem_gserDecode {env : Env} (hbound : 0 < env.bound) {name : Text}
    {presence : Presence} {ty : Ty} {rest : Elements} {buf : Text}
    (hspan : gserWhitespaceSpan buf = 0) :
    .lex .initial buf ∈ (gserDecode env (.sequence (.cons name presence ty rest)) buf).log := by
  obtain ⟨n, hn⟩ := Nat.exists_eq_succ_of_ne_zero (Nat.pos_iff_ne_zero.1 hbound)
  have hskip : .lex .initial buf ∈ (skipSpaces env (n + 1) (.start env [] buf)).log := by
    rw [skipSpaces, Logged.tell_bind_log]
    exact List.mem_cons_self
  unfold gserDecode
  simp only [hspan, List.drop_zero]
  refine Logged.mem_bind_log.2 (.inl ?_)
  rw [decodeTy, decodeElements]
  refine Logged.mem_bind_log.2 (.inl ?_)
  rw [hn, seekMember, hn]
  exact Logged.mem_bind_log.2 (.inl hskip)

/-- A buffer that is a single dash, and one that starts with an identifier of 1025 letters. -/
theorem gserDecode_unsafe : [[cDash], List.replicate 1025 0x61 ++ [0x20]].Forall fun buf ↦
    ∃ state b, .lex state b ∈ (gserDecode ⟨1, 0, fun _ ↦ none⟩ (.sequence (.cons (ascii "a")
      .mandatory (.prim booleanType) .nil)) buf).log ∧ ¬ SafeCall 0 state b := by
  constructor
  · refine ⟨.initial, [cDash], lex_mem_gserDecode Nat.one_pos (by decide), ?_⟩
    rw [safeCall_iff]
    exact fun h ↦ h.1 ⟨.inl rfl, [], by simp, rfl⟩
  · refine ⟨.initial, List.replicate 1025 0x61 ++ [0x20],
      lex_mem_gserDecode Nat.one_pos (by decide), ?_⟩
    have hletter : InText 0x61 := by decide
    have ht : Lexeme .text (0x61 :: List.replicate 1024 0x61) [0x20] := by
      apply lexeme_text hletter
      · intro x hx
        rw [List.eq_of_mem_replicate hx]
        exact hletter
      · exact fun _ h ↦ absurd h.1 (by decide)
      · exact show ¬ InText 0x20 by decide
    intro h
    have hsize := (safeCall_iff.1 h).2
    rw [List.replicate_succ, ht.parse, List.length_cons, List.length_replicate] at hsize
    exact absurd hsize (by decide)

end EnbL1Ppc.Gser
