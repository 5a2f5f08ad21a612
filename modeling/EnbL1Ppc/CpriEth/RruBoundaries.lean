import Mathlib.Data.List.SplitLengths
import EnbL1Ppc.CpriEth.RruFraming

namespace EnbL1Ppc.CpriEth

open Lib.Machine

/-!
Read results that do not end where the messages end. For every way of cutting the stream that
misses a boundary there are messages, of the same lengths, with which it shows in the slot: the
identity and the IE 1 of an RRU are taken from channel establishment requests only.
-/

def stamp (w : ℕ → UInt8) (l k : ℕ) : UInt8 :=
  if k = 4 ∨ k = 5 then 0
  else if k = 6 then UInt8.ofNat (l / 256)
  else if k = 7 then UInt8.ofNat (l % 256)
  else w k

theorem stamp_of_lt {w : ℕ → UInt8} {l k : ℕ} (hk : k < 4) : stamp w l k = w k := by
  simp only [stamp]
  rw [if_neg (by omega), if_neg (by omega), if_neg (by omega)]

theorem stamp_of_le {w : ℕ → UInt8} {l k : ℕ} (hk : 8 ≤ k) : stamp w l k = w k := by
  simp only [stamp]
  rw [if_neg (by omega), if_neg (by omega), if_neg (by omega)]

def msgOf (w : ℕ → UInt8) (l : ℕ) : List UInt8 :=
  (List.range l).map (stamp w l)

@[simp] theorem length_msgOf (w : ℕ → UInt8) (l : ℕ) : (msgOf w l).length = l := by
  simp [msgOf]

theorem getElem?_msgOf_append (w : ℕ → UInt8) {l k : ℕ} (B : List UInt8) (hk : k < l) :
    (msgOf w l ++ B)[k]? = some (stamp w l k) := by
  rw [List.getElem?_append_left (by simpa using hk), msgOf, List.getElem?_map,
    List.getElem?_range hk]
  rfl

theorem write_msgOf (m : Mem) (w : ℕ → UInt8) (l k : ℕ) :
    m.write (msgOf w l) k = if k < l then stamp w l k else m k := by
  rw [Mem.write, List.getD_eq_getElem?_getD]
  split
  · next hk => rw [← List.append_nil (msgOf w l), getElem?_msgOf_append w [] hk, Option.getD_some]
  · next hk => rw [List.getElem?_eq_none (by simpa using hk), Option.getD_none]

theorem write_take_msgOf (m : Mem) (w : ℕ → UInt8) {l c : ℕ} (hc : c ≤ l) (k : ℕ) :
    m.write ((msgOf w l).take c) k = if k < c then stamp w l k else m k := by
  rw [Mem.write, List.getD_eq_getElem?_getD, List.getElem?_take]
  split
  · next hk => rw [← List.append_nil (msgOf w l), getElem?_msgOf_append w [] (by omega), Option.getD_some]
  · rfl

theorem wellFormed_msgOf (w : ℕ → UInt8) {l : ℕ} (hl : 15 ≤ l) (hl' : l ≤ 4096) :
    WellFormed (msgOf w l) := by
  refine ⟨by simpa [msgHeaderSize] using hl, ?_⟩
  have h4 : (4 : ℕ) < l := by omega
  have h5 : (4 + 1 : ℕ) < l := by omega
  have h6 : (4 + 2 : ℕ) < l := by omega
  have h7 : (4 + 2 + 1 : ℕ) < l := by omega
  simp only [Mem.u32, Mem.u16, write_msgOf, h4, h5, h6, h7, if_true, length_msgOf]
  simp [stamp]
  omega

theorem rruMsg_eq_establishmentReq {n : ℕ} :
    rruMsg n = .channelEstablishmentReq ↔ n = 1 := by
  unfold rruMsg
  constructor
  · intro h
    by_contra hn
    rw [if_neg (by simpa [msgChannelEstablishmentReq] using hn)] at h
    split_ifs at h
  · rintro rfl
    rfl

theorem rruMsg_unknown {n : ℕ} (h : 256 ≤ n) : rruMsg n = .unknown := by
  have hne : ∀ k < 256, n ≠ k := fun k hk ↦ by omega
  unfold rruMsg
  rw [if_neg (hne _ (by decide)), if_neg (hne _ (by decide)), if_neg (hne _ (by decide)),
    if_neg (hne _ (by decide)), if_neg (hne _ (by decide)), if_neg (hne _ (by decide)),
    if_neg (hne _ (by decide)), if_neg (hne _ (by decide)),
    if_neg (not_or.2 ⟨hne _ (by decide), hne _ (by decide)⟩)]

theorem processRruMessage_unknown {env : Env} {r : Rru} {m : Mem} (len : ℤ)
    (hmsg : rruMsg (m.u32 0) = .unknown) : processRruMessage env r m len = some (r, []) := by
  unfold processRruMessage
  split
  · rfl
  · rw [hmsg]

theorem receiveMessage_identity {env : Env} {r : Rru} {m : Mem} {len : ℤ} {h : Handled}
    (hr : receiveMessage env r m len = some h)
    (hreq : longEnough len = true → m.u32 0 ≠ 1) : h.1.id = r.id ∧ h.1.ie1 = r.ie1 := by
  obtain ⟨h, hp, rfl⟩ := Option.map_eq_some_iff.1 hr
  cases processRruMessage_reaction hp with
  | quiet => exact ⟨rfl, rfl⟩
  | established hlen hmsg => exact absurd (rruMsg_eq_establishmentReq.1 hmsg) (hreq hlen)
  | cleared => exact ⟨rfl, rfl⟩
  | confirmed => exact ⟨rfl, rfl⟩
  | asked => exact ⟨rfl, rfl⟩

theorem receiveMessage_request (env : Env) (r : Rru) {m : Mem} {len : ℤ} {ie1 : List UInt8}
    (hlen : longEnough len = true) (hreq : m.u32 0 = 1)
    (hloop : establishmentLoop m len msgHeaderSize r.ie1 = some ie1) :
    ∃ h, receiveMessage env r m len = some h ∧ h.1.id = m 8 ∧ h.1.ie1 = ie1 := by
  let x := sendChannelEstablishmentConfig env
    { r with id := m 8, bbuId := m 9, port := m 10, ie1 := ie1 }
  refine ⟨({ x.1 with timeout := 0 }, x.2), ?_, rfl, rfl⟩
  have hmsg : rruMsg (m.u32 0) = .channelEstablishmentReq := rruMsg_eq_establishmentReq.2 hreq
  simp [receiveMessage, processRruMessage, hlen, hmsg, processChannelEstablishmentReq, hloop, x]

theorem establishmentLoop_of_le {m : Mem} {len : ℤ} {off : ℕ} (ie1 : List UInt8)
    (h : len ≤ off) : establishmentLoop m len off ie1 = some ie1 := by
  rw [establishmentLoop, dif_neg (by omega), if_neg (by omega)]

theorem establishmentLoop_of_lt (m : Mem) (len : ℤ) (off : ℕ) (ie1 : List UInt8)
    (h : (off : ℤ) < len) (hne : m.u16 (off + 2) ≠ 0) :
    establishmentLoop m len off ie1 = establishmentLoop m len (off + m.u16 (off + 2))
      (if m.u16 off = 1 ∧ m.u16 (off + 2) = 100 then m.bytes off 100 else ie1) := by
  rw [establishmentLoop, dif_pos ⟨h, hne⟩]

theorem u32_eq_one {m : Mem} {k : ℕ} :
    m.u32 k = 1 ↔ m k = 0 ∧ m (k + 1) = 0 ∧ m (k + 2) = 0 ∧ m (k + 3) = 1 := by
  have h0 := (m k).toNat_lt
  have h1 := (m (k + 1)).toNat_lt
  have h2 := (m (k + 2)).toNat_lt
  have h3 := (m (k + 3)).toNat_lt
  have e0 : (0 : UInt8).toNat = 0 := rfl
  have e1 : (1 : UInt8).toNat = 1 := rfl
  have e3 : k + 2 + 1 = k + 3 := rfl
  simp only [Mem.u32, Mem.u16, ← UInt8.toNat_inj, e0, e1, e3]
  omega

def RequestAt (B : List UInt8) (k : ℕ) : Prop :=
  B[k]? = some 0 ∧ B[k + 1]? = some 0 ∧ B[k + 2]? = some 0 ∧ B[k + 3]? = some 1

def Clean (B : List UInt8) : Prop :=
  ∀ k, ¬ RequestAt B k

theorem Clean.append_right {A B : List UInt8} (h : Clean (A ++ B)) : Clean B := by
  have hget : ∀ j, (A ++ B)[A.length + j]? = B[j]? := by
    intro j
    rw [List.getElem?_append_right (by omega), Nat.add_sub_cancel_left]
  rintro k ⟨h0, h1, h2, h3⟩
  exact h (A.length + k) ⟨(hget k).trans h0, (hget (k + 1)).trans h1, (hget (k + 2)).trans h2,
    (hget (k + 3)).trans h3⟩

theorem requestAt_of_u32 {m : Mem} {chunk : List UInt8} (hlen : 15 ≤ chunk.length)
    (h : (m.write chunk).u32 0 = 1) : RequestAt chunk 0 := by
  have hget : ∀ k < 15, chunk[k]? = some (m.write chunk k) := by
    intro k hk
    rw [Mem.write, List.getD_eq_getElem?_getD, List.getElem?_eq_getElem (by omega),
      Option.getD_some]
  obtain ⟨h0, h1, h2, h3⟩ := u32_eq_one.1 h
  exact ⟨by rw [hget 0 (by omega), h0], by rw [hget 1 (by omega), h1],
    by rw [hget 2 (by omega), h2], by rw [hget 3 (by omega), h3]⟩

theorem readStep_identity {env : Env} {r r' : Rru} {m m' : Mem} {chunk : List UInt8}
    {o : List IrMsg} (h : readStep env (r, m) chunk = some ((r', m'), o))
    (hreq : 15 ≤ chunk.length → ¬ RequestAt chunk 0) : r'.id = r.id ∧ r'.ie1 = r.ie1 := by
  rw [readStep] at h
  split at h
  · obtain ⟨x, hx, heq⟩ := Option.map_eq_some_iff.1 h
    cases heq
    refine receiveMessage_identity hx fun hlong h1 ↦ ?_
    have hlen : 15 ≤ chunk.length := by
      have hlong := of_decide_eq_true hlong
      simp only [msgHeaderSize] at hlong
      omega
    exact hreq hlen (requestAt_of_u32 hlen h1)
  · cases h

theorem exec_clean {env : Env} {chunks : List (List UInt8)} {r r' : Rru} {m m' : Mem}
    {o : List IrMsg} (hclean : Clean chunks.flatten)
    (h : exec (readStep env) (r, m) chunks = some ((r', m'), o)) :
    r'.id = r.id ∧ r'.ie1 = r.ie1 := by
  induction chunks generalizing r m o with
  | nil =>
    cases h
    exact ⟨rfl, rfl⟩
  | cons chunk chunks ih =>
    obtain ⟨⟨r₁, m₁⟩, o₁, o₂, hstep, hrun, rfl⟩ := exec_cons_some h
    rw [List.flatten_cons] at hclean
    obtain ⟨hid, hie⟩ := ih hclean.append_right hrun
    have hfirst := readStep_identity hstep fun hlen hreq ↦ by
      refine hclean 0 ?_
      simp only [RequestAt] at hreq ⊢
      rw [List.getElem?_append_left (by omega), List.getElem?_append_left (by omega),
        List.getElem?_append_left (by omega), List.getElem?_append_left (by omega)]
      exact hreq
    exact ⟨hid.trans hfirst.1, hie.trans hfirst.2⟩

theorem write_msgOf_of_lt (m : Mem) (w : ℕ → UInt8) {l k : ℕ} (hl : 15 ≤ l) (hk : k < 4) :
    m.write (msgOf w l) k = w k := by
  rw [write_msgOf, if_pos (by omega), stamp_of_lt hk]

theorem write_msgOf_of_le (m : Mem) (w : ℕ → UInt8) {l k : ℕ} (hk : 8 ≤ k) :
    m.write (msgOf w l) k = if k < l then w k else m k := by
  rw [write_msgOf, stamp_of_le hk]

theorem readStep_request (env : Env) (r : Rru) (m : Mem) (chunk : List UInt8)
    (hlen : 15 ≤ chunk.length ∧ chunk.length ≤ 4096) (hreq : (m.write chunk).u32 0 = 1)
    {ie1 : List UInt8}
    (hloop : establishmentLoop (m.write chunk) chunk.length msgHeaderSize r.ie1 = some ie1) :
    ∃ x, readStep env (r, m) chunk = some x ∧ x.1.1.id = m.write chunk 8 ∧ x.1.1.ie1 = ie1 := by
  have hlong : longEnough chunk.length = true := by
    refine decide_eq_true ?_
    simp only [msgHeaderSize]
    omega
  obtain ⟨h, hr, hid, hie⟩ := receiveMessage_request env r hlong hreq hloop
  have hne : chunk ≠ [] := List.ne_nil_of_length_pos (by omega)
  refine ⟨((h.1, m.write chunk), h.2), ?_, hid, hie⟩
  rw [readStep, if_pos ⟨hne, hlen.2⟩, hr]
  rfl

theorem exec_no_request {env : Env} {r : Rru} {m : Mem} {chunk : List UInt8}
    {chunks : List (List UInt8)} {x : (Rru × Mem) × List IrMsg}
    (hchunk : 15 ≤ chunk.length → ¬ RequestAt chunk 0) (hclean : Clean chunks.flatten)
    (h : exec (readStep env) (r, m) (chunk :: chunks) = some x) : x.1.1.id = r.id := by
  obtain ⟨⟨r', m'⟩, o⟩ := x
  obtain ⟨⟨r₁, m₁⟩, o₁, o₂, hstep, hrun, -⟩ := exec_cons_some h
  exact (exec_clean hclean hrun).1.trans (readStep_identity hstep hchunk).1

theorem exec_cut_request {env : Env} {r : Rru} {m : Mem} {chunk : List UInt8}
    {chunks : List (List UInt8)} {x : (Rru × Mem) × List IrMsg}
    (hlen : 15 ≤ chunk.length ∧ chunk.length ≤ 4096) (hreq : (m.write chunk).u32 0 = 1)
    (hloop : establishmentLoop (m.write chunk) chunk.length msgHeaderSize r.ie1 = some r.ie1)
    (hclean : Clean chunks.flatten)
    (h : exec (readStep env) (r, m) (chunk :: chunks) = some x) : x.1.1.ie1 = r.ie1 := by
  obtain ⟨⟨r', m'⟩, o⟩ := x
  obtain ⟨⟨r₁, m₁⟩, o₁, o₂, hstep, hrun, -⟩ := exec_cons_some h
  obtain ⟨y, hy, -, hie⟩ := readStep_request env r m chunk hlen hreq hloop
  rw [hstep] at hy
  cases hy
  exact (exec_clean hclean hrun).2.trans hie

def readResult (env : Env) (r : Rru) (m : Mem) (chunks : List (List UInt8)) :
    Option (Rru × List IrMsg) :=
  (exec (readStep env) (r, m) chunks).map fun x ↦ (x.1.1, x.2)

/-- The lengths `ls` of messages and `cs` of read results can be told apart. -/
def Distinguished (env : Env) (r : Rru) (ls cs : List ℕ) : Prop :=
  ∃ m ms chunks, ms.map List.length = ls ∧ (∀ msg ∈ ms, WellFormed msg) ∧
    chunks.map List.length = cs ∧ chunks.flatten = ms.flatten ∧
    readResult env r m chunks ≠ readResult env r m ms

def request (f : UInt8) (k : ℕ) : UInt8 :=
  if k < 3 then 0 else if k = 3 then 1 else f

theorem request_of_le (f : UInt8) {k : ℕ} (hk : 4 ≤ k) : request f k = f := by
  rw [request, if_neg (by omega), if_neg (by omega)]

theorem u32_request {m : Mem} {f : UInt8} (h : ∀ k < 4, m k = request f k) : m.u32 0 = 1 := by
  rw [u32_eq_one, h 0 (by omega), h (0 + 1) (by omega), h (0 + 2) (by omega), h (0 + 3) (by omega)]
  exact ⟨rfl, rfl, rfl, rfl⟩

/-- A request with an information element that reaches to `c`, and the head of an IE 1 there. -/
def chained (f : UInt8) (c k : ℕ) : UInt8 :=
  if k = 17 then UInt8.ofNat ((c - 15) / 256)
  else if k = 18 then UInt8.ofNat ((c - 15) % 256)
  else if k = c ∨ k = c + 2 then 0
  else if k = c + 1 then 1
  else if k = c + 3 then 100
  else request f k

theorem chained_front (f : UInt8) {c k : ℕ} (hc : 19 ≤ c) (hk : k < 17) :
    chained f c k = request f k := by
  rw [chained, if_neg (by omega), if_neg (by omega), if_neg (by omega), if_neg (by omega),
    if_neg (by omega)]

theorem chained_back (f : UInt8) {c k : ℕ} (hc : 19 ≤ c) (hk : c ≤ k) :
    chained f c k = if k = c ∨ k = c + 2 then 0 else if k = c + 1 then 1
      else if k = c + 3 then 100 else f := by
  rw [chained, if_neg (by omega), if_neg (by omega), request_of_le f (by omega)]

def direct (f : UInt8) (k : ℕ) : UInt8 :=
  if k = 15 ∨ k = 17 then 0 else if k = 16 then 1 else if k = 18 then 100 else request f k

theorem direct_front (f : UInt8) {k : ℕ} (hk : k < 4) : direct f k = request f k := by
  rw [direct, if_neg (by omega), if_neg (by omega), if_neg (by omega)]

theorem direct_back (f : UInt8) {k : ℕ} (hk : 19 ≤ k) : direct f k = f := by
  rw [direct, if_neg (by omega), if_neg (by omega), if_neg (by omega), request_of_le f (by omega)]

section Fill

/-! The bytes that do not matter are all equal, and large. -/

variable {f : UInt8} (hf : 253 ≤ f.toNat)

include hf

theorem fill_ne_zero : f ≠ 0 := by
  rintro rfl
  exact absurd hf (by decide)

theorem u16_fill {m : Mem} {k : ℕ} (h : m k = f) (h' : m (k + 1) = f) : 4096 < m.u16 k := by
  simp only [Mem.u16, h, h']
  omega

theorem readStep_unknown {env : Env} (r : Rru) (m : Mem) {M : ℕ → UInt8}
    (hM : ∀ k < 4, M k = f) {l : ℕ} (hl : 15 ≤ l ∧ l ≤ 4096) :
    readStep env (r, m) (msgOf M l) =
      some (({ r with timeout := 0 }, m.write (msgOf M l)), []) := by
  have hmsg : rruMsg ((m.write (msgOf M l)).u32 0) = .unknown := by
    refine rruMsg_unknown ?_
    have h := u16_fill hf (m := m.write (msgOf M l)) (k := 0)
      (by rw [write_msgOf_of_lt m M hl.1 (by omega), hM 0 (by omega)])
      (by rw [write_msgOf_of_lt m M hl.1 (by omega), hM 1 (by omega)])
    rw [Mem.u32]
    omega
  have hne : msgOf M l ≠ [] := by
    intro h
    have := congrArg List.length h
    simp at this
    omega
  rw [readStep, if_pos ⟨hne, by simpa using hl.2⟩, receiveMessage,
    processRruMessage_unknown _ hmsg]
  rfl

theorem exec_unknown (env : Env) {M : ℕ → UInt8} (hM : ∀ k < 4, M k = f) {ls : List ℕ}
    (hls : ∀ l ∈ ls, 15 ≤ l ∧ l ≤ 4096) (r : Rru) (m : Mem) :
    ∃ r' m', exec (readStep env) (r, m) (ls.map (msgOf M)) = some ((r', m'), []) ∧
      r'.id = r.id ∧ r'.ie1 = r.ie1 ∧
      ((∀ k, 8 ≤ k → m k = M k) → ∀ k, 8 ≤ k → m' k = M k) := by
  induction ls generalizing r m with
  | nil => exact ⟨r, m, rfl, rfl, rfl, id⟩
  | cons l ls ih =>
    obtain ⟨r', m', hrun, hid, hie, habove⟩ :=
      ih (fun k hk ↦ hls k (List.mem_cons_of_mem _ hk)) { r with timeout := 0 }
        (m.write (msgOf M l))
    refine ⟨r', m', ?_, hid, hie, fun h ↦ habove fun k hk ↦ ?_⟩
    · rw [List.map_cons, exec, readStep_unknown hf r m hM (hls l List.mem_cons_self),
        Option.bind_some, hrun]
      rfl
    · rw [write_msgOf_of_le m M hk, h k hk, ite_self]

theorem establishmentLoop_fill {m : Mem} {l off : ℕ} (ie1 : List UInt8) (hl : l ≤ 4096)
    (h : ∀ k, off ≤ k → m k = f) : establishmentLoop m l off ie1 = some ie1 := by
  by_cases hoff : off < l
  · have htype := u16_fill hf (h off le_rfl) (h (off + 1) (by omega))
    have hlen := u16_fill hf (h (off + 2) (by omega)) (h (off + 2 + 1) (by omega))
    rw [establishmentLoop_of_lt m l off ie1 (by omega) (by omega), if_neg (by omega),
      establishmentLoop_of_le ie1 (by omega)]
  · exact establishmentLoop_of_le ie1 (by omega)

theorem not_requestAt_header {w : ℕ → UInt8} {l : ℕ} (hl : 15 ≤ l ∧ l ≤ 4096) (hw : w 8 = f)
    (B : List UInt8) {k : ℕ} (hk : 4 ≤ k) (hk' : k ≤ 7) : ¬ RequestAt (msgOf w l ++ B) k := by
  rintro ⟨h0, h1, h2, h3⟩
  rw [getElem?_msgOf_append w B (by omega), Option.some.injEq] at h0 h1 h2 h3
  have h8 : stamp w l 8 = f := by rw [stamp_of_le le_rfl, hw]
  have hne := fill_ne_zero hf
  obtain rfl | rfl | rfl | rfl : k = 4 ∨ k = 5 ∨ k = 6 ∨ k = 7 := by omega
  · -- the number would be the length
    have e6 : (UInt8.ofNat (l / 256)).toNat = 0 := congrArg UInt8.toNat h2
    have e7 : (UInt8.ofNat (l % 256)).toNat = 1 := congrArg UInt8.toNat h3
    rw [UInt8.toNat_ofNat'] at e6 e7
    omega
  · have e6 : (UInt8.ofNat (l / 256)).toNat = 0 := congrArg UInt8.toNat h1
    have e7 : (UInt8.ofNat (l % 256)).toNat = 0 := congrArg UInt8.toNat h2
    rw [UInt8.toNat_ofNat'] at e6 e7
    omega
  · exact hne (h8.symm.trans h2)
  · exact hne (h8.symm.trans h1)

omit hf in
theorem clean_drop {w : ℕ → UInt8} {l j : ℕ} {B : List UInt8} (hB : Clean B)
    (h : ∀ k, j ≤ k → k < l → ¬ RequestAt (msgOf w l ++ B) k) :
    Clean ((msgOf w l ++ B).drop j) := by
  intro k hk
  simp only [RequestAt, List.getElem?_drop] at hk
  by_cases hkl : j + k < l
  · exact h (j + k) (by omega) hkl hk
  · obtain ⟨h0, h1, h2, h3⟩ := hk
    have hget : ∀ i, (msgOf w l ++ B)[j + (k + i)]? = B[j + k - l + i]? := by
      intro i
      rw [List.getElem?_append_right (by simp; omega), length_msgOf]
      congr 1
      omega
    exact hB (j + k - l) ⟨(hget 0).symm.trans h0, (hget 1).symm.trans h1, (hget 2).symm.trans h2,
      (hget 3).symm.trans h3⟩

theorem clean_unknown {ls : List ℕ} (hls : ∀ l ∈ ls, 15 ≤ l ∧ l ≤ 4096) :
    Clean (ls.map (msgOf fun _ ↦ f)).flatten := by
  induction ls with
  | nil => exact fun k hk ↦ by simp [RequestAt] at hk
  | cons l ls ih =>
    have hl := hls l List.mem_cons_self
    rw [List.map_cons, List.flatten_cons, ← List.drop_zero (l := _ ++ _)]
    refine clean_drop (ih fun k hk ↦ hls k (List.mem_cons_of_mem _ hk)) fun k _ hkl ↦ ?_
    by_cases hk : 4 ≤ k ∧ k ≤ 7
    · exact not_requestAt_header hf hl rfl _ hk.1 hk.2
    · rintro ⟨h0, -⟩
      rw [getElem?_msgOf_append _ _ hkl, Option.some.injEq] at h0
      refine fill_ne_zero hf (Eq.trans ?_ h0)
      by_cases hk4 : k < 4
      · rw [stamp_of_lt hk4]
      · rw [stamp_of_le (by omega)]

theorem head_unknown_ne {ls : List ℕ} (hls : ∀ l ∈ ls, 15 ≤ l ∧ l ≤ 4096) :
    (ls.map (msgOf fun _ ↦ f)).flatten[0]? ≠ some 0 := by
  cases ls with
  | nil => simp
  | cons l ls =>
    have hl := hls l List.mem_cons_self
    rw [List.map_cons, List.flatten_cons, getElem?_msgOf_append _ _ (by omega),
      stamp_of_lt (by omega), ne_eq, Option.some.injEq]
    exact fill_ne_zero hf

theorem distinguished_of_tail {env : Env} {r : Rru} {M : ℕ → UInt8} (hM : ∀ k < 4, M k = f)
    {pre post : List ℕ} {l : ℕ} (hls : ∀ k ∈ pre, 15 ≤ k ∧ k ≤ 4096) (ts : List (List UInt8))
    (hlen : ts.map List.length = l :: post) (hwf : ∀ msg ∈ ts, WellFormed msg)
    {c : ℕ} {post' : List ℕ} (hsum : (c :: post').sum = (l :: post).sum) (P : Rru → Prop)
    (hfull : ∀ (r' : Rru) m', r'.id = r.id → r'.ie1 = r.ie1 → (∀ k, 8 ≤ k → m' k = M k) →
      ∃ x, exec (readStep env) (r', m') ts = some x ∧ P x.1.1)
    (hcut : ∀ (r' : Rru) m' chunks x, r'.id = r.id → r'.ie1 = r.ie1 →
      (∀ k, 8 ≤ k → m' k = M k) → chunks.flatten = ts.flatten.drop c →
      exec (readStep env) (r', m') (ts.flatten.take c :: chunks) = some x → ¬ P x.1.1) :
    Distinguished env r (pre ++ l :: post) (pre ++ c :: post') := by
  have htotal : ts.flatten.length = (c :: post').sum := by
    rw [List.length_flatten, hlen, hsum]
  refine ⟨M, pre.map (msgOf M) ++ ts,
    pre.map (msgOf M) ++ (c :: post').splitLengths ts.flatten, ?_, ?_, ?_, ?_, ?_⟩
  · simp [hlen, Function.comp_def]
  · intro msg hmsg
    rcases List.mem_append.1 hmsg with hmsg | hmsg
    · obtain ⟨k, hk, rfl⟩ := List.mem_map.1 hmsg
      exact wellFormed_msgOf M (hls k hk).1 (hls k hk).2
    · exact hwf msg hmsg
  · rw [List.map_append, List.map_splitLengths_length _ _ htotal.ge]
    simp [Function.comp_def]
  · rw [List.flatten_append, List.flatten_append, List.flatten_splitLengths _ _ htotal.le]
  · obtain ⟨r', m', hrun, hid, hie, habove⟩ := exec_unknown hf env hM hls r M
    have habove := habove fun k _ ↦ rfl
    obtain ⟨x, hx, hP⟩ := hfull r' m' hid hie habove
    rw [readResult, readResult, exec_append_eq, exec_append_eq, hrun, Option.bind_some,
      Option.bind_some, hx, List.splitLengths_cons]
    intro heq
    cases hy : exec (readStep env) (r', m')
        (ts.flatten.take c :: post'.splitLengths (ts.flatten.drop c)) with
    | none =>
      rw [hy] at heq
      cases heq
    | some y =>
      rw [hy] at heq
      refine hcut r' m' _ y hid hie habove (List.flatten_splitLengths _ _ ?_) hy ?_
      · rw [List.length_drop, htotal, List.sum_cons]
        omega
      · simp only [Option.map_some, Option.some.injEq, Prod.mk.injEq] at heq
        rwa [heq.1]

theorem exec_request_tail (env : Env) (r : Rru) (m : Mem) (chunk : List UInt8)
    (hlen : 15 ≤ chunk.length ∧ chunk.length ≤ 4096) (hreq : (m.write chunk).u32 0 = 1)
    {ie1 : List UInt8}
    (hloop : establishmentLoop (m.write chunk) chunk.length msgHeaderSize r.ie1 = some ie1)
    {post : List ℕ} (hpost : ∀ k ∈ post, 15 ≤ k ∧ k ≤ 4096) :
    ∃ x, exec (readStep env) (r, m) (chunk :: post.map (msgOf fun _ ↦ f)) = some x ∧
      x.1.1.id = m.write chunk 8 ∧ x.1.1.ie1 = ie1 := by
  obtain ⟨⟨⟨r₁, m₁⟩, o⟩, hstep, hid, hie⟩ := readStep_request env r m chunk hlen hreq hloop
  obtain ⟨r₂, m₂, hrun, hid₂, hie₂, -⟩ :=
    exec_unknown hf env (M := fun _ ↦ f) (fun _ _ ↦ rfl) hpost r₁ m₁
  refine ⟨((r₂, m₂), o ++ []), ?_, hid₂.trans hid, hie₂.trans hie⟩
  rw [exec, hstep, Option.bind_some, hrun]
  rfl

theorem exec_request (env : Env) (r : Rru) {m : Mem} (hm : ∀ k, 8 ≤ k → m k = f) {l : ℕ}
    (hl : 15 ≤ l ∧ l ≤ 4096) {post : List ℕ} (hpost : ∀ k ∈ post, 15 ≤ k ∧ k ≤ 4096) :
    ∃ x, exec (readStep env) (r, m) (msgOf (request f) l :: post.map (msgOf fun _ ↦ f)) = some x ∧
      x.1.1.id = f := by
  have hwrite : ∀ k, 8 ≤ k → m.write (msgOf (request f) l) k = f := by
    intro k hk
    rw [write_msgOf_of_le m _ hk, hm k hk, request_of_le f (by omega), ite_self]
  have hloop : establishmentLoop (m.write (msgOf (request f) l)) (msgOf (request f) l).length
      msgHeaderSize r.ie1 = some r.ie1 := by
    rw [length_msgOf]
    refine establishmentLoop_fill hf r.ie1 hl.2 fun k hk ↦ hwrite k ?_
    simp only [msgHeaderSize] at hk
    omega
  obtain ⟨x, hx, hid, -⟩ := exec_request_tail hf env r m (msgOf (request f) l)
    (by simpa using hl) (u32_request fun k hk ↦ write_msgOf_of_lt m _ hl.1 hk) hloop hpost
  exact ⟨x, hx, hid.trans (hwrite 8 le_rfl)⟩

theorem clean_drop_request {l : ℕ} (hl : 15 ≤ l ∧ l ≤ 4096) {post : List ℕ}
    (hpost : ∀ k ∈ post, 15 ≤ k ∧ k ≤ 4096) {j : ℕ} (hj : 0 < j) :
    Clean ((msgOf (request f) l ++ (post.map (msgOf fun _ ↦ f)).flatten).drop j) := by
  refine clean_drop (clean_unknown hf hpost) fun k hk hkl ↦ ?_
  by_cases hk4 : k < 4
  · rintro ⟨h0, h1, h2, h3⟩
    rw [getElem?_msgOf_append _ _ (by omega), Option.some.injEq] at h0 h1 h2
    have hthree : stamp (request f) l 3 = 1 := rfl
    obtain rfl | rfl | rfl : k = 1 ∨ k = 2 ∨ k = 3 := by omega
    · exact absurd (hthree.symm.trans h2) (by decide)
    · exact absurd (hthree.symm.trans h1) (by decide)
    · exact absurd (hthree.symm.trans h0) (by decide)
  · by_cases hk7 : k ≤ 7
    · exact not_requestAt_header hf hl (request_of_le f (by omega)) _ (by omega) hk7
    · rintro ⟨h0, -⟩
      rw [getElem?_msgOf_append _ _ hkl, stamp_of_le (by omega), request_of_le f (by omega),
        Option.some.injEq] at h0
      exact fill_ne_zero hf h0

omit hf in
theorem wellFormed_tail {w : ℕ → UInt8} {l : ℕ} (hl : 15 ≤ l ∧ l ≤ 4096) {post : List ℕ}
    (hpost : ∀ k ∈ post, 15 ≤ k ∧ k ≤ 4096) :
    ∀ msg ∈ msgOf w l :: post.map (msgOf fun _ ↦ f), WellFormed msg := by
  refine List.forall_mem_cons.2 ⟨wellFormed_msgOf w hl.1 hl.2, fun msg hmsg ↦ ?_⟩
  obtain ⟨k, hk, rfl⟩ := List.mem_map.1 hmsg
  exact wellFormed_msgOf _ (hpost k hk).1 (hpost k hk).2

theorem distinguished_of_gt (env : Env) {r : Rru} (hid : f ≠ r.id) {pre post post' : List ℕ}
    {l c : ℕ} (hls : ∀ k ∈ pre ++ l :: post, 15 ≤ k ∧ k ≤ 4096) (hc : l < c)
    (hsum : (c :: post').sum = (l :: post).sum) :
    Distinguished env r (pre ++ l :: post) (pre ++ c :: post') := by
  obtain ⟨l', post, rfl⟩ : ∃ l' post₁, post = l' :: post₁ := by
    cases post with
    | nil =>
      simp only [List.sum_cons, List.sum_nil] at hsum
      omega
    | cons l' post₁ => exact ⟨l', post₁, rfl⟩
  have hl := hls l (by simp)
  have hl' := hls l' (by simp)
  have hpost : ∀ k ∈ post, 15 ≤ k ∧ k ≤ 4096 := fun k hk ↦ hls k (by simp [hk])
  refine distinguished_of_tail hf (M := fun _ ↦ f) (fun _ _ ↦ rfl) (fun k hk ↦ hls k (by simp [hk]))
    (msgOf (fun _ ↦ f) l :: msgOf (request f) l' :: post.map (msgOf fun _ ↦ f))
    (by simp [Function.comp_def]) ?_ hsum (fun r' ↦ r'.id = f) ?_ ?_
  · exact List.forall_mem_cons.2 ⟨wellFormed_msgOf _ hl.1 hl.2, wellFormed_tail hl' hpost⟩
  · intro r' m' _ _ hm'
    obtain ⟨x, hx, hxid⟩ := exec_request hf env { r' with timeout := 0 }
      (m := m'.write (msgOf (fun _ ↦ f) l))
      (fun k hk ↦ by rw [write_msgOf_of_le m' _ hk, hm' k hk, ite_self]) hl' hpost
    refine ⟨(x.1, [] ++ x.2), ?_, hxid⟩
    rw [exec, readStep_unknown hf r' m' (fun _ _ ↦ rfl) hl, Option.bind_some, hx]
    rfl
  · intro r' m' chunks x hr' _ _ hchunks hx hP
    refine hid (hP.symm.trans ((exec_no_request ?_ ?_ hx).trans hr'))
    · rintro - ⟨h0, -⟩
      rw [List.getElem?_take_of_lt (by omega), List.flatten_cons,
        getElem?_msgOf_append _ _ (by omega), stamp_of_lt (by omega), Option.some.injEq] at h0
      exact fill_ne_zero hf h0
    · rw [hchunks, List.flatten_cons, List.drop_append,
        List.drop_of_length_le (by rw [length_msgOf]; omega), List.nil_append, length_msgOf]
      exact clean_drop_request hf hl' hpost (by omega)

theorem distinguished_of_lt_header (env : Env) {r : Rru} (hid : f ≠ r.id) {pre post post' : List ℕ}
    {l c : ℕ} (hls : ∀ k ∈ pre ++ l :: post, 15 ≤ k ∧ k ≤ 4096) (hc : 0 < c) (hc' : c < 15)
    (hsum : (c :: post').sum = (l :: post).sum) :
    Distinguished env r (pre ++ l :: post) (pre ++ c :: post') := by
  have hl := hls l (by simp)
  have hpost : ∀ k ∈ post, 15 ≤ k ∧ k ≤ 4096 := fun k hk ↦ hls k (by simp [hk])
  refine distinguished_of_tail hf (M := fun _ ↦ f) (fun _ _ ↦ rfl) (fun k hk ↦ hls k (by simp [hk]))
    (msgOf (request f) l :: post.map (msgOf fun _ ↦ f)) (by simp [Function.comp_def])
    (wellFormed_tail hl hpost) hsum (fun r' ↦ r'.id = f) ?_ ?_
  · intro r' m' _ _ hm'
    exact exec_request hf env r' hm' hl hpost
  · intro r' m' chunks x hr' _ _ hchunks hx hP
    refine hid (hP.symm.trans ((exec_no_request ?_ ?_ hx).trans hr'))
    · intro hlen
      rw [List.length_take] at hlen
      omega
    · rw [hchunks]
      exact clean_drop_request hf hl hpost hc

theorem distinguished_of_cut (env : Env) {r : Rru} (hie : r.ie1[4]? ≠ some f) {T M : ℕ → UInt8}
    (hM : ∀ k < 4, M k = f) (hT : ∀ k < 4, T k = request f k) {pre post post' : List ℕ}
    {l c : ℕ} (hls : ∀ k ∈ pre ++ l :: post, 15 ≤ k ∧ k ≤ 4096) (hc : 15 ≤ c) (hcl : c < l)
    (hsum : (c :: post').sum = (l :: post).sum)
    (hfull : ∀ b : Mem, (∀ k, 8 ≤ k → b k = if k < l then T k else M k) →
      ∃ ie1, establishmentLoop b l msgHeaderSize r.ie1 = some ie1 ∧ ie1[4]? = some f)
    (hcut : ∀ b : Mem, (∀ k, 8 ≤ k → b k = if k < c then T k else M k) →
      establishmentLoop b c msgHeaderSize r.ie1 = some r.ie1)
    (hclean : ∀ k, c ≤ k → k < l →
      ¬ RequestAt (msgOf T l ++ (post.map (msgOf fun _ ↦ f)).flatten) k) :
    Distinguished env r (pre ++ l :: post) (pre ++ c :: post') := by
  have hl := hls l (by simp)
  have hpost : ∀ k ∈ post, 15 ≤ k ∧ k ≤ 4096 := fun k hk ↦ hls k (by simp [hk])
  refine distinguished_of_tail hf hM (fun k hk ↦ hls k (by simp [hk]))
    (msgOf T l :: post.map (msgOf fun _ ↦ f)) (by simp [Function.comp_def])
    (wellFormed_tail hl hpost) hsum (fun r' ↦ r'.ie1[4]? = some f) ?_ ?_
  · intro r' m' _ hr' hm'
    obtain ⟨ie1, hloop, hget⟩ := hfull (m'.write (msgOf T l)) fun k hk ↦ by
      rw [write_msgOf_of_le m' T hk, hm' k hk]
    obtain ⟨x, hx, -, hxie⟩ := exec_request_tail hf env r' m' (msgOf T l) (by simpa using hl)
      (u32_request fun k hk ↦ (write_msgOf_of_lt m' T hl.1 hk).trans (hT k hk))
      (by rw [length_msgOf, hr', hloop]) hpost
    exact ⟨x, hx, by rwa [hxie]⟩
  · intro r' m' chunks x _ hr' hm' hchunks hx hP
    have htake : (msgOf T l :: post.map (msgOf fun _ ↦ f)).flatten.take c = (msgOf T l).take c := by
      rw [List.flatten_cons, List.take_append_of_le_length (by rw [length_msgOf]; omega)]
    have hlen : ((msgOf T l).take c).length = c := by
      rw [List.length_take, length_msgOf]
      omega
    rw [htake] at hx
    have hx' := exec_cut_request (by rw [hlen]; omega)
      (u32_request fun k hk ↦ by
        rw [write_take_msgOf m' T hcl.le, if_pos (by omega), stamp_of_lt hk, hT k hk])
      (by
        rw [hlen, hr']
        exact hcut _ fun k hk ↦ by rw [write_take_msgOf m' T hcl.le, stamp_of_le hk, hm' k hk])
      (by
        rw [hchunks, List.flatten_cons]
        exact clean_drop (clean_unknown hf hpost) hclean) hx
    rw [hx', hr'] at hP
    exact hie hP

theorem establishmentLoop_ie1 {b : Mem} {l off : ℕ} (ie1 : List UInt8) (hl : l ≤ 4096)
    (hoff : off < l) (htype : b.u16 off = 1) (hlen : b.u16 (off + 2) = 100)
    (h : ∀ k, off + 4 ≤ k → b k = f) :
    ∃ ie1', establishmentLoop b l off ie1 = some ie1' ∧ ie1'[4]? = some f := by
  refine ⟨b.bytes off 100, ?_, by simp [Mem.bytes, h (off + 4) le_rfl]⟩
  rw [establishmentLoop_of_lt b l off ie1 (by omega) (by omega), if_pos ⟨htype, hlen⟩]
  exact establishmentLoop_fill hf _ hl fun k hk ↦ h k (by omega)

theorem not_requestAt_body {T : ℕ → UInt8} {l c : ℕ} (hc : 8 ≤ c) {post : List ℕ}
    (hpost : ∀ k ∈ post, 15 ≤ k ∧ k ≤ 4096) (hT : ∀ k, c ≤ k → T k = 0 → T (k + 1) ≠ 0) (k : ℕ)
    (hk : c ≤ k) (hkl : k < l) :
    ¬ RequestAt (msgOf T l ++ (post.map (msgOf fun _ ↦ f)).flatten) k := by
  rintro ⟨h0, h1, -⟩
  rw [getElem?_msgOf_append _ _ hkl, stamp_of_le (by omega), Option.some.injEq] at h0
  by_cases hk1 : k + 1 < l
  · rw [getElem?_msgOf_append _ _ hk1, stamp_of_le (by omega), Option.some.injEq] at h1
    exact hT k hk h0 h1
  · obtain rfl : l = k + 1 := by omega
    rw [List.getElem?_append_right (by simp), length_msgOf, Nat.sub_self] at h1
    exact head_unknown_ne hf hpost h1

theorem chained_no_zeros {c k : ℕ} (hc : 19 ≤ c) (hk : c ≤ k) (h : chained f c k = 0) :
    chained f c (k + 1) ≠ 0 := by
  have hne := fill_ne_zero hf
  rw [chained_back f hc hk] at h
  rw [chained_back f hc (by omega)]
  split_ifs at h with h0 h1 h3
  · rcases h0 with rfl | rfl
    · rw [if_neg (by omega), if_pos rfl]
      decide
    · rw [if_neg (by omega), if_neg (by omega), if_pos rfl]
      decide
  · cases h
  · cases h
  · exact absurd h hne

theorem establishmentLoop_chained {b : Mem} {c n : ℕ} (hc : 19 ≤ c) (hc' : c ≤ 4096)
    (hb : ∀ k, 8 ≤ k → b k = chained f c k) (ie1 : List UInt8) (hn : 15 < n) :
    establishmentLoop b n msgHeaderSize ie1 = establishmentLoop b n c ie1 := by
  have htype := u16_fill hf (m := b) (k := 15)
    (by rw [hb 15 (by omega), chained_front f hc (by omega), request_of_le f (by omega)])
    (by rw [hb 16 (by omega), chained_front f hc (by omega), request_of_le f (by omega)])
  have hlen : b.u16 (15 + 2) = c - 15 := by
    have h17 : b 17 = UInt8.ofNat ((c - 15) / 256) := hb 17 (by omega)
    have h18 : b 18 = UInt8.ofNat ((c - 15) % 256) := hb 18 (by omega)
    simp only [Mem.u16, h17, h18, UInt8.toNat_ofNat']
    omega
  have hstep := establishmentLoop_of_lt b n 15 ie1 (by omega) (by omega)
  rw [if_neg (by omega), hlen, Nat.add_sub_cancel' (by omega)] at hstep
  exact hstep

theorem distinguished_of_cut_body (env : Env) {r : Rru} (hie : r.ie1[4]? ≠ some f)
    {pre post post' : List ℕ} {l c : ℕ} (hls : ∀ k ∈ pre ++ l :: post, 15 ≤ k ∧ k ≤ 4096)
    (hc : 19 ≤ c) (hcl : c < l) (hsum : (c :: post').sum = (l :: post).sum) :
    Distinguished env r (pre ++ l :: post) (pre ++ c :: post') := by
  have hl := hls l (by simp)
  have hpost : ∀ k ∈ post, 15 ≤ k ∧ k ≤ 4096 := fun k hk ↦ hls k (by simp [hk])
  refine distinguished_of_cut hf env hie (T := chained f c)
    (M := fun k ↦ if k < 4 then f else chained f c k) (fun k hk ↦ if_pos hk)
    (fun k hk ↦ chained_front f hc (by omega)) hls (by omega) hcl hsum ?_ ?_
    (not_requestAt_body hf (by omega) hpost fun k ↦ chained_no_zeros hf hc)
  · intro b hb
    have hb' : ∀ k, 8 ≤ k → b k = chained f c k := fun k hk ↦ by
      rw [hb k hk, if_neg (by omega : ¬ k < 4), ite_self]
    have hback : ∀ k, c ≤ k → b k = if k = c ∨ k = c + 2 then 0 else if k = c + 1 then 1
        else if k = c + 3 then 100 else f := fun k hk ↦ by
      rw [hb' k (by omega), chained_back f hc hk]
    rw [establishmentLoop_chained hf hc (by omega) hb' r.ie1 (by omega)]
    refine establishmentLoop_ie1 hf r.ie1 hl.2 hcl ?_ ?_ fun k hk ↦ ?_
    · simp [Mem.u16, hback c, hback (c + 1)]
    · simp [Mem.u16, hback (c + 2), show c + 2 + 1 = c + 3 from rfl, hback (c + 3)]
    · rw [hback k (by omega), if_neg (by omega), if_neg (by omega), if_neg (by omega)]
  · intro b hb
    rw [establishmentLoop_chained hf hc (by omega)
      (fun k hk ↦ by rw [hb k hk, if_neg (by omega : ¬ k < 4), ite_self]) r.ie1 (by omega)]
    exact establishmentLoop_of_le r.ie1 le_rfl

theorem direct_no_zeros {k : ℕ} (hk : 15 ≤ k) (h : direct f k = 0) : direct f (k + 1) ≠ 0 := by
  by_cases hk19 : 19 ≤ k
  · rw [direct_back f hk19] at h
    exact absurd h (fill_ne_zero hf)
  · obtain rfl | rfl | rfl | rfl : k = 15 ∨ k = 16 ∨ k = 17 ∨ k = 18 := by omega
    · change (1 : UInt8) ≠ 0
      decide
    · change (1 : UInt8) = 0 at h
      exact absurd h (by decide)
    · change (100 : UInt8) ≠ 0
      decide
    · change (100 : UInt8) = 0 at h
      exact absurd h (by decide)

theorem establishmentLoop_spoiled {b : Mem} {c : ℕ} (hc : 15 ≤ c) (hc' : c ≤ 18) (hbc : b c = f)
    (hb : ∀ k, 15 ≤ k → k ≠ c → b k = direct f k) (ie1 : List UInt8) :
    establishmentLoop b c msgHeaderSize ie1 = some ie1 := by
  obtain rfl | hc15 : c = 15 ∨ 15 < c := by omega
  · exact establishmentLoop_of_le ie1 le_rfl
  -- in all three cases the element is longer than what has been read, and not taken
  suffices h : 3 ≤ b.u16 (15 + 2) ∧ ¬ (b.u16 15 = 1 ∧ b.u16 (15 + 2) = 100) by
    refine (establishmentLoop_of_lt b c 15 ie1 (by omega) (by omega)).trans ?_
    rw [if_neg h.2]
    exact establishmentLoop_of_le ie1 (by omega)
  have hb' : ∀ k v, 15 ≤ k → k ≠ c → direct f k = v → (b k).toNat = v.toNat := fun k v hk hkc hv ↦ by
    rw [hb k hk hkc, hv]
  have hbc' : (b c).toNat = f.toNat := congrArg UInt8.toNat hbc
  have e0 : (0 : UInt8).toNat = 0 := rfl
  have e100 : (100 : UInt8).toNat = 100 := rfl
  simp only [Mem.u16, Nat.reduceAdd]
  obtain rfl | rfl | rfl : c = 16 ∨ c = 17 ∨ c = 18 := by omega
  · have h15 := hb' 15 0 (by omega) (by omega) rfl
    have h17 := hb' 17 0 (by omega) (by omega) rfl
    have h18 := hb' 18 100 (by omega) (by omega) rfl
    omega
  · omega
  · have h17 := hb' 17 0 (by omega) (by omega) rfl
    omega

theorem distinguished_of_cut_head (env : Env) {r : Rru} (hie : r.ie1[4]? ≠ some f)
    {pre post post' : List ℕ} {l c : ℕ} (hls : ∀ k ∈ pre ++ l :: post, 15 ≤ k ∧ k ≤ 4096)
    (hc : 15 ≤ c) (hc' : c ≤ 18) (hcl : c < l) (hsum : (c :: post').sum = (l :: post).sum) :
    Distinguished env r (pre ++ l :: post) (pre ++ c :: post') := by
  have hl := hls l (by simp)
  have hpost : ∀ k ∈ post, 15 ≤ k ∧ k ≤ 4096 := fun k hk ↦ hls k (by simp [hk])
  refine distinguished_of_cut hf env hie (T := direct f)
    (M := fun k ↦ if k < 4 ∨ k = c then f else direct f k) (fun k hk ↦ if_pos (.inl hk))
    (fun k hk ↦ direct_front f hk) hls hc hcl hsum ?_ ?_
    (not_requestAt_body hf (by omega) hpost fun k hk ↦ direct_no_zeros hf (by omega))
  · intro b hb
    have hb' : ∀ k, 15 ≤ k → b k = direct f k := fun k hk ↦ by
      rw [hb k (by omega)]
      split
      · rfl
      · rw [if_neg (by omega)]
    refine establishmentLoop_ie1 hf r.ie1 hl.2 (by simp only [msgHeaderSize]; omega) ?_ ?_
      fun k hk ↦ ?_
    · rw [msgHeaderSize, Mem.u16, hb' 15 (by omega), hb' (15 + 1) (by omega)]
      simp [direct]
    · rw [msgHeaderSize, Mem.u16, hb' (15 + 2) (by omega), hb' (15 + 2 + 1) (by omega)]
      simp [direct]
    · simp only [msgHeaderSize] at hk
      rw [hb' k (by omega), direct_back f (by omega)]
  · intro b hb
    refine establishmentLoop_spoiled hf hc hc' ?_ (fun k hk hkc ↦ ?_) r.ie1
    · rw [hb c (by omega), if_neg (lt_irrefl c), if_pos (.inr rfl)]
    · rw [hb k (by omega), if_neg (by omega : ¬ (k < 4 ∨ k = c)), ite_self]

end Fill

theorem exists_first_difference {ls cs : List ℕ} (hls : ∀ l ∈ ls, 0 < l) (hcs : ∀ c ∈ cs, 0 < c)
    (hsum : cs.sum = ls.sum) (hne : cs ≠ ls) :
    ∃ pre l post c post', ls = pre ++ l :: post ∧ cs = pre ++ c :: post' ∧ c ≠ l ∧
      (c :: post').sum = (l :: post).sum := by
  induction ls generalizing cs with
  | nil =>
    cases cs with
    | nil => exact absurd rfl hne
    | cons c cs =>
      have := hcs c List.mem_cons_self
      simp only [List.sum_cons, List.sum_nil] at hsum
      omega
  | cons l ls ih =>
    cases cs with
    | nil =>
      have := hls l List.mem_cons_self
      simp only [List.sum_cons, List.sum_nil] at hsum
      omega
    | cons c cs =>
      by_cases hc : c = l
      · subst hc
        obtain ⟨pre, l', post, c', post', rfl, rfl, hcl, hsum'⟩ :=
          ih (fun k hk ↦ hls k (List.mem_cons_of_mem _ hk))
            (fun k hk ↦ hcs k (List.mem_cons_of_mem _ hk))
            (by simpa using hsum) (fun h ↦ hne (by rw [h]))
        exact ⟨c :: pre, l', post, c', post', rfl, rfl, hcl, hsum'⟩
      · exact ⟨[], l, ls, c, cs, rfl, rfl, hc, hsum⟩

theorem exists_fill (r : Rru) : ∃ f : UInt8, 253 ≤ f.toNat ∧ f ≠ r.id ∧ r.ie1[4]? ≠ some f := by
  by_contra h
  push Not at h
  have h1 := h 253 (by decide)
  have h2 := h 254 (by decide)
  have h3 := h 255 (by decide)
  grind

theorem distinguished_of_ne (env : Env) (r : Rru) {ls cs : List ℕ}
    (hls : ∀ l ∈ ls, 15 ≤ l ∧ l ≤ 4096) (hcs : ∀ c ∈ cs, 0 < c) (hsum : cs.sum = ls.sum)
    (hne : cs ≠ ls) : Distinguished env r ls cs := by
  obtain ⟨f, hf, hid, hie⟩ := exists_fill r
  obtain ⟨pre, l, post, c, post', rfl, rfl, hcl, hsum'⟩ := exists_first_difference
    (fun l hl ↦ by have := hls l hl; omega) hcs hsum hne
  have hc := hcs c (by simp)
  rcases lt_or_gt_of_ne hcl with hlt | hgt
  · by_cases hc15 : c < 15
    · exact distinguished_of_lt_header hf env hid hls hc hc15 hsum'
    · by_cases hc18 : c ≤ 18
      · exact distinguished_of_cut_head hf env hie hls (by omega) hc18 hlt hsum'
      · exact distinguished_of_cut_body hf env hie hls (by omega) hlt hsum'
  · exact distinguished_of_gt hf env hid hls hgt hsum'

/-- Read results that are whole messages give the same, and they are the only ones: lengths of
read results that are not the lengths of the messages make a difference for some messages. -/
theorem framing_iff {s : Manager} {i : SlotId} (h : s.InUse i) (env : Env) :
    (∀ chunks chunks' : List (List UInt8), (∀ chunk ∈ chunks, WellFormed chunk) →
      (∀ chunk ∈ chunks', WellFormed chunk) → chunks.flatten = chunks'.flatten →
      s.outcome env i chunks = s.outcome env i chunks') ∧
    ∀ ls cs : List ℕ, (∀ l ∈ ls, 15 ≤ l ∧ l ≤ 4096) → (∀ c ∈ cs, 0 < c ∧ c ≤ 4096) →
      cs.sum = ls.sum →
      ((∀ m ms chunks, ms.map List.length = ls → (∀ msg ∈ ms, WellFormed msg) →
        chunks.map List.length = cs → chunks.flatten = ms.flatten →
        Manager.outcome { s with mem := m } env i chunks =
          Manager.outcome { s with mem := m } env i ms) ↔ cs = ls) := by
  refine ⟨fun chunks chunks' hchunks hchunks' heq ↦ ?_, fun ls cs hls hcs hsum ↦ ⟨?_, ?_⟩⟩
  · rw [wellFormed_uniquelyDecodable chunks chunks' hchunks hchunks' heq]
  · intro hall
    by_contra hne
    obtain ⟨m, ms, chunks, hms, hwf, hchunks, hflat, hdiff⟩ :=
      distinguished_of_ne env (s.rrus i) hls (fun c hc ↦ (hcs c hc).1) hsum hne
    have hs : Manager.InUse { s with mem := m } i := h
    have heq := hall m ms chunks hms hwf hchunks hflat
    rw [outcome_eq env chunks hs, outcome_eq env ms hs] at heq
    exact hdiff heq
  · rintro rfl m ms chunks hms - hchunks hflat
    rw [List.eq_iff_flatten_eq.2 ⟨hflat, hchunks.trans hms.symm⟩]

def oneConnection (env : Env) : List (Env × Input) :=
  roundInputs env (some ⟨0, 0, [1, 0, 0, 0, 0, 1]⟩) (some (some 0xc0a81e02)) fun _ ↦ none

def oneRru : Env :=
  ⟨false, [⟨some 0xc0a81e02, 0, 0, 0⟩], ⟨25, 1⟩, ⟨0, 0, 0, 1, 1, 2020⟩⟩

def heartbeat : List UInt8 :=
  [0, 0, 0, 171, 0, 0, 0, 15, 0, 0, 0, 0, 0, 0, 0]

theorem oneConnection_inUse : ∃ s o,
    exec Manager.step (.start [0, 1, 2] 0 fun _ ↦ 0) (oneConnection oneRru) = some (s, o) ∧
      s.InUse 0 := by
  have hrun : (exec Manager.step (.start [0, 1, 2] 0 fun _ ↦ 0) (oneConnection oneRru)).map
      (fun r ↦ (r.1.phase, (r.1.rrus 0).state, (r.1.rrus 0).fd)) =
        some (.top, .connected, 3) := by
    decide
  obtain ⟨⟨s, o⟩, hs, heq⟩ := Option.map_eq_some_iff.1 hrun
  simp only [Prod.mk.injEq] at heq
  obtain ⟨hphase, hstate, hfd⟩ := heq
  exact ⟨s, o, hs, hphase, by rw [hstate]; exact nofun, by rw [hfd]; decide⟩

theorem framing_iff_oneConnection : ∃ s o,
    exec Manager.step (.start [0, 1, 2] 0 fun _ ↦ 0) (oneConnection oneRru) = some (s, o) ∧
      s.InUse 0 ∧ ¬ ∀ m ms chunks, ms.map List.length = [15, 15] → (∀ msg ∈ ms, WellFormed msg) →
        chunks.map List.length = [30] → chunks.flatten = ms.flatten →
        Manager.outcome { s with mem := m } oneRru 0 chunks =
          Manager.outcome { s with mem := m } oneRru 0 ms := by
  obtain ⟨s, o, hs, huse⟩ := oneConnection_inUse
  refine ⟨s, o, hs, huse, fun h ↦ ?_⟩
  have := ((framing_iff huse oneRru).2 [15, 15] [30] (by simp) (by simp) (by simp)).1 h
  exact absurd this (by simp)

theorem heartbeats_in_one_read : ∃ s o,
    exec Manager.step (.start [0, 1, 2] 0 fun _ ↦ 0) (oneConnection oneRru) = some (s, o) ∧
      WellFormed heartbeat ∧ [heartbeat, heartbeat].flatten = [heartbeat ++ heartbeat].flatten ∧
      s.outcome oneRru 0 [heartbeat, heartbeat] ≠ s.outcome oneRru 0 [heartbeat ++ heartbeat] := by
  have hrun : (exec Manager.step (.start [0, 1, 2] 0 fun _ ↦ 0) (oneConnection oneRru)).map
      (fun r ↦ ((r.1.outcome oneRru 0 [heartbeat, heartbeat]).map (·.2.length),
        (r.1.outcome oneRru 0 [heartbeat ++ heartbeat]).map (·.2.length))) =
          some (some 2, some 1) := by
    decide
  obtain ⟨⟨s, o⟩, hs, heq⟩ := Option.map_eq_some_iff.1 hrun
  simp only [Prod.mk.injEq] at heq
  refine ⟨s, o, hs, ⟨by decide, by decide⟩, rfl, fun h ↦ ?_⟩
  rw [h, heq.2] at heq
  exact absurd heq.1 (by decide)

end EnbL1Ppc.CpriEth
