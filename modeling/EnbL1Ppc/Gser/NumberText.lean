import Mathlib.Data.List.GetD
import Mathlib.Data.Nat.Digits.Lemmas
import EnbL1Ppc.Gser.Grammar

namespace EnbL1Ppc.Gser

open Lib

section Decimal

def digitsOf (n : ℕ) : List ℕ :=
  if n = 0 then [0] else (Nat.digits 10 n).reverse

def digitChar (d : ℕ) : UInt8 :=
  UInt8.ofNat (0x30 + d)

def fromDigits (m : ℕ) (ds : List ℕ) : ℕ :=
  ds.foldl (fun a d ↦ a * 10 + d) m

theorem decimal_eq (n : ℕ) : decimal n = (digitsOf n).map digitChar := by
  unfold decimal digitsOf
  split <;> rfl

theorem digitsOf_ne_nil (n : ℕ) : digitsOf n ≠ [] := by
  unfold digitsOf
  split
  · simp
  · next h => simpa [Nat.digits_eq_nil_iff_eq_zero] using h

theorem lt_of_mem_digitsOf {n d : ℕ} (h : d ∈ digitsOf n) : d < 10 := by
  unfold digitsOf at h
  split at h
  · rw [List.mem_singleton.1 h]
    omega
  · exact Nat.digits_lt_base (by omega) (List.mem_reverse.1 h)

theorem fromDigits_digitsOf (n : ℕ) : fromDigits 0 (digitsOf n) = n := by
  unfold fromDigits digitsOf
  split
  · next h => simp [h]
  · have h := Nat.ofDigits_digits 10 n
    rw [Nat.ofDigits_eq_foldr] at h
    rw [List.foldl_reverse]
    simpa [Nat.add_comm, Nat.mul_comm] using h

theorem le_fromDigits (m : ℕ) (ds : List ℕ) : m ≤ fromDigits m ds := by
  induction ds generalizing m with
  | nil => exact Nat.le_refl m
  | cons d ds ih =>
    have h := ih (m * 10 + d)
    exact Nat.le_trans (by omega) h

theorem toNat_digitChar {d : ℕ} (h : d < 10) : (digitChar d).toNat = 0x30 + d := by
  rw [digitChar, UInt8.toNat_ofNat']
  omega

theorem isDigit_digitChar {d : ℕ} (h : d < 10) : isDigit (digitChar d) = true := by
  have hd := toNat_digitChar h
  simp only [isDigit, UInt8.le_iff_toNat_le, UInt8.reduceToNat, hd, decide_eq_true_eq]
  omega

theorem isAlnum_of_isDigit {c : UInt8} (h : isDigit c = true) : isAlnum c = true := by
  simp only [isDigit, decide_eq_true_eq] at h
  unfold isAlnum charClass
  rw [if_neg, if_pos h]
  · rfl
  · simp only [UInt8.le_iff_toNat_le, ← UInt8.toNat_inj, UInt8.reduceToNat] at h ⊢
    omega

end Decimal

theorem intmax_eq {v : ℤ} (hlo : -2 ^ 63 ≤ v) (hhi : v < 2 ^ 63) : intmax v = v := by
  unfold intmax
  exact Int.bmod_eq_of_le (by omega) (by omega)

section Strtoimax

def magnitude (neg : Bool) : ℕ :=
  if neg then 2 ^ 63 else 2 ^ 63 - 1

def lastDigitMax (neg : Bool) : ℤ :=
  if neg then 8 else 7

def signOf (neg : Bool) : ℤ :=
  if neg then -1 else 1

theorem magnitude_eq (neg : Bool) : (magnitude neg : ℤ) = upperBoundary * 10 + lastDigitMax neg := by
  cases neg <;> rfl

theorem lastDigitMax_le (neg : Bool) : 7 ≤ lastDigitMax neg ∧ lastDigitMax neg ≤ 8 := by
  cases neg <;> decide

theorem strtoimaxLoop_digit {last sign value : ℤ} {d : ℕ} (hd : d < 10) (rest : Text) :
    strtoimaxLoop last sign value (digitChar d :: rest) =
      if value < upperBoundary then strtoimaxLoop last sign (intmax (value * 10 + d)) rest
      else if value = upperBoundary then
        if d ≤ last then
          if 0 < sign then strtoimaxLoop last sign (intmax (value * 10 + d)) rest
          else strtoimaxLoop last 1 (intmax (-value * 10 - d)) rest
        else .errorRange
      else .errorRange := by
  have hval : ((digitChar d).toNat : ℤ) - 0x30 = d := by
    rw [toNat_digitChar hd]
    push_cast
    ring
  rw [strtoimaxLoop, if_pos (isDigit_digitChar hd)]
  simp only [hval]

theorem strtoimaxLoop_boundary (neg : Bool) {d : ℕ} (hd : d < 10) (hlast : d ≤ lastDigitMax neg) :
    strtoimaxLoop (lastDigitMax neg) (signOf neg) upperBoundary [digitChar d] =
      .ok (signOf neg * (upperBoundary * 10 + d)) := by
  have hu : upperBoundary = 922337203685477580 := by decide
  rw [strtoimaxLoop_digit hd, if_neg (by omega), if_pos rfl, if_pos hlast]
  cases neg
  · simp only [lastDigitMax, signOf, Bool.false_eq_true, if_false] at hlast ⊢
    have hin : intmax (upperBoundary * 10 + d) = upperBoundary * 10 + d :=
      intmax_eq (by omega) (by omega)
    rw [if_pos (by omega), strtoimaxLoop, hin, one_mul, hin]
  · simp only [lastDigitMax, signOf, if_true] at hlast ⊢
    have hin : intmax (-upperBoundary * 10 - d) = -upperBoundary * 10 - d :=
      intmax_eq (by omega) (by omega)
    rw [if_neg (by omega), strtoimaxLoop, hin, one_mul, hin]
    congr 1
    ring

theorem strtoimaxLoop_eq (neg : Bool) {ds : List ℕ} (hds : ∀ d ∈ ds, d < 10) {m : ℕ}
    (hle : fromDigits m ds ≤ magnitude neg) (hm : m < 2 ^ 63) :
    strtoimaxLoop (lastDigitMax neg) (signOf neg) m (ds.map digitChar) =
      .ok (signOf neg * fromDigits m ds) := by
  have hu : upperBoundary = 922337203685477580 := by decide
  induction ds generalizing m with
  | nil =>
    rw [List.map_nil, strtoimaxLoop, fromDigits, List.foldl_nil]
    cases neg <;> simp only [signOf, Bool.false_eq_true, if_false, if_true] <;>
      rw [intmax_eq (by omega) (by omega)]
  | cons d ds ih =>
    have hd := hds d (by simp)
    have hmag := magnitude_eq neg
    have hlast := lastDigitMax_le neg
    have hle' : fromDigits (m * 10 + d) ds ≤ magnitude neg := hle
    have hnext := le_fromDigits (m * 10 + d) ds
    rcases Int.lt_trichotomy m upperBoundary with hlt | heq | hgt
    · rw [List.map_cons, strtoimaxLoop_digit hd, if_pos hlt, intmax_eq (by omega) (by omega)]
      exact_mod_cast ih (fun x hx ↦ hds x (by simp [hx])) hle' (by omega)
    · cases ds with
      | nil =>
        rw [List.map_cons, List.map_nil, heq, strtoimaxLoop_boundary neg hd (by omega), ← heq]
        simp [fromDigits]
      | cons e ds =>
        have := le_fromDigits ((m * 10 + d) * 10 + e) ds
        have : fromDigits ((m * 10 + d) * 10 + e) ds ≤ magnitude neg := hle
        omega
    · omega

end Strtoimax

section Integer

theorem isDigit_ne {c : UInt8} (h : isDigit c = true) :
    ¬ (c = 0x09 ∨ c = 0x0a ∨ c = 0x0d ∨ c = 0x20) ∧ ¬ (c = 0x2d ∨ c = 0x2b) := by
  simp only [isDigit, decide_eq_true_eq] at h
  simp only [UInt8.le_iff_toNat_le, ← UInt8.toNat_inj, UInt8.reduceToNat] at h ⊢
  omega

theorem intLoop_digits {s : IntScan} {ds : List ℕ} (hds : ∀ d ∈ ds, d < 10)
    (hs : s.state = .digits) (i : ℕ) : intLoop i s (ds.map digitChar) = .leave s := by
  induction ds generalizing i with
  | nil => rfl
  | cons d ds ih =>
    have hd := isDigit_digitChar (hds d (by simp))
    have hne := isDigit_ne hd
    have hc : intChar i s (digitChar d) = .next s := by
      rw [intChar, if_neg hne.1, if_neg hne.2, if_pos hd]
      simp only [hs]
    rw [List.map_cons, intLoop, hc]
    exact ih (fun x hx ↦ hds x (by simp [hx])) (i + 1)

theorem intLoop_first {s : IntScan} {d : ℕ} {ds : List ℕ} (hds : ∀ x ∈ d :: ds, x < 10) {i : ℕ}
    (hs : s.state = .waitDigits ∨ s.state = .leadSpace ∧ i = s.decStart) :
    intLoop i s ((d :: ds).map digitChar) = .leave { s with state := .digits } := by
  have hd := isDigit_digitChar (hds d (by simp))
  have hne := isDigit_ne hd
  have hc : intChar i s (digitChar d) = .next { s with state := .digits } := by
    rw [intChar, if_neg hne.1, if_neg hne.2, if_pos hd]
    rcases hs with hs | ⟨hs, rfl⟩ <;> simp only [hs]
  rw [List.map_cons, intLoop, hc]
  exact intLoop_digits (fun x hx ↦ hds x (by simp [hx])) rfl (i + 1)

theorem formatLong_eq (v : ℤ) : formatLong v =
    (if v < 0 then [cDash] else []) ++ (digitsOf v.natAbs).map digitChar := by
  unfold formatLong
  rw [decimal_eq]
  split <;> rfl

theorem intParse_formatLong (v : ℤ) : intParse (formatLong v) = .leave ⟨.digits, 0, 0, 0, []⟩ := by
  have hds : ∀ d ∈ digitsOf v.natAbs, d < 10 := fun d hd ↦ lt_of_mem_digitsOf hd
  obtain ⟨d, ds, he⟩ := List.exists_cons_of_ne_nil (digitsOf_ne_nil v.natAbs)
  rw [he] at hds
  rw [formatLong_eq, he, intParse]
  split_ifs
  · have hminus : intLoop 0 ⟨.leadSpace, 0, 0, 0, []⟩ ([cDash] ++ (d :: ds).map digitChar) =
        intLoop 1 ⟨.waitDigits, 0, 0, 0, []⟩ ((d :: ds).map digitChar) := rfl
    rw [hminus, intLoop_first hds (.inl rfl)]
  · have hfirst : intLoop 0 ⟨.leadSpace, 0, 0, 0, []⟩ ((d :: ds).map digitChar) =
        .leave ⟨.digits, 0, 0, 0, []⟩ := intLoop_first hds (.inr ⟨rfl, rfl⟩)
    rw [List.nil_append, hfirst]

theorem asnStrtoimaxLim_formatLong {v : ℤ} (hlo : -2 ^ 63 ≤ v) (hhi : v < 2 ^ 63) :
    asnStrtoimaxLim (formatLong v) = .ok v := by
  have hds : ∀ d ∈ digitsOf v.natAbs, d < 10 := fun d hd ↦ lt_of_mem_digitsOf hd
  have hval := fromDigits_digitsOf v.natAbs
  have hloop := strtoimaxLoop_eq (m := 0) (decide (v < 0)) hds (by
    rw [hval, magnitude]
    split <;> simp_all <;> omega) (by omega)
  rw [hval] at hloop
  obtain ⟨d, ds, he⟩ := List.exists_cons_of_ne_nil (digitsOf_ne_nil v.natAbs)
  rw [formatLong_eq]
  by_cases hv : v < 0
  · simp only [hv, decide_true, lastDigitMax, signOf, if_true, Nat.cast_zero] at hloop
    rw [if_pos hv, List.singleton_append, asnStrtoimaxLim, if_pos (by rfl),
      if_neg (by simp [digitsOf_ne_nil]), hloop]
    congr 1
    omega
  · simp only [hv, decide_false, lastDigitMax, signOf, Bool.false_eq_true, if_false,
      Nat.cast_zero] at hloop
    have hne := (isDigit_ne (isDigit_digitChar (hds d (by simp [he])))).2
    rw [not_or] at hne
    rw [if_neg hv, List.nil_append, he, List.map_cons, asnStrtoimaxLim, if_neg hne.1,
      if_neg hne.2, ← List.map_cons, ← he, hloop]
    congr 1
    omega

theorem asnInteger2imax_asnImax2Integer {v : ℤ} (hlo : -2 ^ 63 ≤ v) (hhi : v < 2 ^ 63) :
    asnInteger2imax (asnImax2Integer v) = some v := by
  have hlen : (asnImax2Integer v).length ≤ 8 :=
    (TwosComplement.length_trim_le _).trans (TwosComplement.length_toBytes 8 v).le
  unfold asnInteger2imax
  rw [if_neg (Nat.not_lt.2 hlen)]
  dsimp only
  rw [if_neg (Nat.not_lt.2 hlen), asnImax2Integer,
    TwosComplement.fromBytes_trim_toBytes (by omega) (by omega)]

theorem inLong.bounds {bits : ℕ} (hb : bits ≤ 64) {v : ℤ} (h : inLong bits v = true) :
    -2 ^ 63 ≤ v ∧ v < 2 ^ 63 := by
  have hpow : (2 : ℤ) ^ (bits - 1) ≤ 2 ^ 63 := pow_le_pow_right₀ (by norm_num) (by omega)
  simp only [inLong, decide_eq_true_eq] at h
  omega

theorem asnInteger2long_asnImax2Integer {bits : ℕ} (hb : bits ≤ 64) {v : ℤ}
    (h : inLong bits v = true) :
    asnInteger2long bits (.octets (asnImax2Integer v)) = some (.integer v) := by
  obtain ⟨hlo, hhi⟩ := inLong.bounds hb h
  simp [asnInteger2long, asnInteger2imax_asnImax2Integer hlo hhi, Option.filter, h]

end Integer

theorem lexeme_formatLong (v : ℤ) {rest : Text} (hr : Delimited rest) :
    Lexeme .text (formatLong v) rest := by
  have hds : ∀ d ∈ digitsOf v.natAbs, isAlnum (digitChar d) = true :=
    fun d hd ↦ isAlnum_of_isDigit (isDigit_digitChar (lt_of_mem_digitsOf hd))
  have hdash : ∀ {c : UInt8}, isAlnum c = true → c ≠ cDash := by
    rintro c hc rfl
    exact absurd hc (by decide)
  obtain ⟨d, ds, he⟩ := List.exists_cons_of_ne_nil (digitsOf_ne_nil v.natAbs)
  rw [formatLong_eq]
  rw [he] at hds ⊢
  have htail : ∀ x ∈ ds.map digitChar, InText x := by
    intro x hx
    obtain ⟨e, he, rfl⟩ := List.mem_map.1 hx
    exact .inl (hds e (by simp [he]))
  split_ifs
  · refine lexeme_text (.inr rfl) ?_ ?_ hr
    · exact List.forall_mem_cons.2 ⟨.inl (hds d (by simp)), htail⟩
    · exact fun _ h ↦ hdash (hds d (by simp)) h.2
  · exact lexeme_text (.inl (hds d (by simp))) htail
      (fun _ h ↦ hdash (hds d (by simp)) h.1) hr

theorem integerBodyDecode_formatLong {bits : ℕ} (hb : bits ≤ 64) {v : ℤ}
    (h : inLong bits v = true) :
    integerBodyDecode bits none (formatLong v) = some (.octets (asnImax2Integer v)) := by
  obtain ⟨hlo, hhi⟩ := inLong.bounds hb h
  obtain ⟨c, l, he, -⟩ := (lexeme_formatLong v (delimited_comma [])).head
  rw [integerBodyDecode, if_neg (by simp [he]), intParse_formatLong]
  simp [intResult, decimalOctets, asnStrtoimaxLim_formatLong hlo hhi, h]

theorem nativeDecoder_writes {bits : ℕ} (hb : bits ≤ 64) {xmlTag : Text} {enums : Option EnumMap}
    {encode : Value → Option Text} {v : ℤ} {text : Text} (h : inLong bits v = true)
    (hlex : ∀ rest, Delimited rest → Lexeme .text text rest)
    (hbody : integerBodyDecode bits enums text = some (.octets (asnImax2Integer v))) :
    (nativeDecoder bits xmlTag enums encode).Writes (.integer v) text where
  lexeme := ⟨.text, rfl, hlex⟩
  received := by
    have hlong := asnInteger2long_asnImax2Integer hb h
    simp only [nativeDecoder, primitiveBody, hbody]
    exact ⟨_, hlong, fun _ _ _ ↦ rfl⟩

theorem nativeInteger_writes {bits : ℕ} (hb : bits ≤ 64) {xmlTag : Text} {v : ℤ}
    (h : inLong bits v = true) : (nativeInteger bits xmlTag).Writes (.integer v) (formatLong v) :=
  nativeDecoder_writes hb h (fun _ hr ↦ lexeme_formatLong v hr)
    (integerBodyDecode_formatLong hb h)

section Enumerated

theorem IsIdentifier.ne_zero {name : Text} (h : IsIdentifier name) : ∀ c ∈ name, c ≠ 0 := by
  cases name with
  | nil => exact h.elim
  | cons c l =>
    intro x hx
    rcases List.mem_cons.1 hx with rfl | hx
    · exact InText.ne_zero (.inl h.1)
    · exact InText.ne_zero (h.2 x hx)

theorem compareName_self {a : Text} (ha : ∀ c ∈ a, c ≠ 0) : compareName a a = 0 := by
  induction a with
  | nil => rfl
  | cons c a ih =>
    rw [compareName, if_neg (by simp [ha c (by simp)])]
    exact ih fun x hx ↦ ha x (by simp [hx])

theorem compareName_swap {a b : Text} (ha : ∀ c ∈ a, c ≠ 0) (hb : ∀ c ∈ b, c ≠ 0)
    (h : compareName a b < 0) : 0 < compareName b a := by
  induction a generalizing b with
  | nil =>
    cases b with
    | nil => simp [compareName] at h
    | cons d b =>
      have hd : d.toNat ≠ 0 := fun h0 ↦ hb d (by simp) (UInt8.toNat_inj.1 h0)
      rw [compareName]
      omega
  | cons c a ih =>
    cases b with
    | nil =>
      rw [compareName] at h
      omega
    | cons d b =>
      rw [compareName] at h ⊢
      split at h
      · next hcd =>
        rw [if_pos (by
          rcases hcd with hcd | hcd
          · exact .inl (Ne.symm hcd)
          · exact absurd hcd (hb d (by simp)))]
        omega
      · next hcd =>
        simp only [not_or, not_not] at hcd
        rw [if_neg (by simp [hcd.1, hb d (by simp)])]
        exact ih (fun x hx ↦ ha x (by simp [hx])) (fun x hx ↦ hb x (by simp [hx])) h

namespace EnumMap

variable (m : EnumMap)

theorem length_enum2value : m.enum2value.length = m.value2enum.length := by
  rw [m.enum2value_perm.length_eq, List.length_range]

theorem entry_eq {i : ℕ} (hi : i < m.value2enum.length) : m.entry i = m.value2enum[i] :=
  List.getD_eq_getElem _ _ hi

theorem entry_mem {i : ℕ} (hi : i < m.value2enum.length) : m.entry i ∈ m.value2enum := by
  rw [m.entry_eq hi]
  exact List.getElem_mem hi

theorem entry_lt {i j : ℕ} (hij : i < j) (hj : j < m.value2enum.length) :
    (m.entry i).1 < (m.entry j).1 := by
  rw [m.entry_eq hj, m.entry_eq (Nat.lt_trans hij hj)]
  exact List.pairwise_iff_getElem.1 m.values_sorted i j _ _ hij

theorem enum2value_lt {j : ℕ} (hj : j < m.value2enum.length) :
    m.enum2value.getD j 0 < m.value2enum.length := by
  rw [← m.length_enum2value] at hj
  rw [List.getD_eq_getElem _ _ hj, ← List.mem_range]
  exact m.enum2value_perm.mem_iff.1 (List.getElem_mem hj)

theorem isIdentifier_byName {j : ℕ} (hj : j < m.value2enum.length) :
    IsIdentifier (m.byName j).2 :=
  m.names _ (m.entry_mem (m.enum2value_lt hj))

theorem byName_lt {i j : ℕ} (hij : i < j) (hj : j < m.value2enum.length) :
    compareName (m.byName i).2 (m.byName j).2 < 0 := by
  have hj' : j < m.enum2value.length := by rwa [m.length_enum2value]
  have h := List.pairwise_iff_getElem.1 m.names_sorted i j (Nat.lt_trans hij hj') hj' hij
  unfold byName entry
  rwa [List.getD_eq_getElem _ _ hj', List.getD_eq_getElem _ _ (Nat.lt_trans hij hj')]

theorem mapValue2enum_eq {e : ℤ × Text} (he : e ∈ m.value2enum) :
    m.mapValue2enum e.1 = some e := by
  obtain ⟨i, hi, rfl⟩ := List.mem_iff_getElem.1 he
  rw [← m.entry_eq hi]
  have hfound : Search.FoundAt (fun j ↦ compareLong (m.entry i).1 (m.entry j).1)
      m.value2enum.length i := by
    refine ⟨hi, by simp [compareLong], fun j hj ↦ ?_, fun j hj hn ↦ ?_⟩
    · have hlt := m.entry_lt hj hi
      unfold compareLong
      split_ifs <;> omega
    · have hlt := m.entry_lt hj hn
      unfold compareLong
      split_ifs
      omega
  rw [mapValue2enum, Search.bsearch_eq hfound]
  rfl

theorem mapEnum2value_eq {e : ℤ × Text} (he : e ∈ m.value2enum) :
    m.mapEnum2value e.2 = some e := by
  obtain ⟨i, hi, rfl⟩ := List.mem_iff_getElem.1 he
  have hmem : i ∈ m.enum2value := m.enum2value_perm.mem_iff.2 (List.mem_range.2 hi)
  obtain ⟨k, hk, hki⟩ := List.mem_iff_getElem.1 hmem
  have hname : m.byName k = m.value2enum[i] := by
    rw [byName, List.getD_eq_getElem _ _ hk, hki, m.entry_eq hi]
  rw [m.length_enum2value] at hk
  rw [← hname]
  have hfound : Search.FoundAt (fun j ↦ compareName (m.byName k).2 (m.byName j).2)
      m.value2enum.length k := by
    refine ⟨hk, compareName_self (m.isIdentifier_byName hk).ne_zero, fun j hj ↦ ?_,
      fun j hj hn ↦ m.byName_lt hj hn⟩
    exact compareName_swap (m.isIdentifier_byName (Nat.lt_trans hj hk)).ne_zero
      (m.isIdentifier_byName hk).ne_zero (m.byName_lt hj hk)
  rw [mapEnum2value, Search.bsearch_eq hfound]
  rfl

end EnumMap

theorem nativeEnumerated_writes {bits : ℕ} (hb : bits ≤ 64) {xmlTag : Text} {m : EnumMap}
    {e : ℤ × Text} (he : e ∈ m.value2enum) (h : inLong bits e.1 = true) :
    (nativeEnumerated bits xmlTag m).Writes (.integer e.1) e.2 := by
  have hid := m.names e he
  have hbody : integerBodyDecode bits (some m) e.2 = some (.octets (asnImax2Integer e.1)) := by
    rw [integerBodyDecode, if_neg (by
      rintro h0
      rw [h0] at hid
      exact hid)]
    simp [m.mapEnum2value_eq he]
  exact nativeDecoder_writes hb h (fun _ hr ↦ hid.lexeme hr) hbody

end Enumerated

end EnbL1Ppc.Gser
