import Mathlib.Data.List.Range
import EnbL1Ppc.CpriEth.RruManager

namespace EnbL1Ppc.CpriEth

/-!
What the handlers read of the buffer. The elements of a channel establishment request are walked
along their own length fields, and the answers are read as one element of fixed layout behind the
header, whatever the length of the message.
-/

def ieOffset (m : Mem) : ℕ → ℕ
  | 0 => msgHeaderSize
  | k + 1 => ieOffset m k + m.u16 (ieOffset m k + 2)

def WalkEnds (m : Mem) (len : ℤ) : Prop :=
  ∃ k, len ≤ ieOffset m k

def Progresses (m : Mem) (len : ℤ) : Prop :=
  ∀ k, (ieOffset m k : ℤ) < len → m.u16 (ieOffset m k + 2) ≠ 0

theorem ieOffset_succ (m : Mem) (k : ℕ) :
    ieOffset m (k + 1) = ieOffset m k + m.u16 (ieOffset m k + 2) := rfl

theorem ieOffset_mono (m : Mem) : Monotone (ieOffset m) :=
  monotone_nat_of_le_succ fun k ↦ by rw [ieOffset_succ]; omega

theorem ieOffset_add_of_zero {m : Mem} {k : ℕ} (h : m.u16 (ieOffset m k + 2) = 0) (n : ℕ) :
    ieOffset m (k + n) = ieOffset m k := by
  induction n with
  | zero => rfl
  | succ n ih => rw [← Nat.add_assoc, ieOffset_succ, ih, h, Nat.add_zero]

theorem le_ieOffset {m : Mem} {len : ℤ} (h : Progresses m len) {k : ℕ}
    (hk : (ieOffset m k : ℤ) < len) : k ≤ ieOffset m k := by
  induction k with
  | zero => exact Nat.zero_le _
  | succ k ih =>
    rw [ieOffset_succ] at hk ⊢
    have hlt : (ieOffset m k : ℤ) < len := by omega
    have := ih hlt
    have := h k hlt
    omega

theorem walkEnds_iff_progresses (m : Mem) (len : ℤ) : WalkEnds m len ↔ Progresses m len := by
  constructor
  · rintro ⟨n, hn⟩ k hk hzero
    have hle : ieOffset m n ≤ ieOffset m (k + n) := ieOffset_mono m (Nat.le_add_left n k)
    rw [ieOffset_add_of_zero hzero] at hle
    omega
  · intro h
    by_contra hnot
    simp only [WalkEnds, not_exists, not_le] at hnot
    have := le_ieOffset h (hnot (len.toNat + 1))
    have := hnot (len.toNat + 1)
    omega

theorem establishmentLoop_ne_none_iff (m : Mem) (len : ℤ) (k : ℕ) (ie1 : List UInt8) :
    establishmentLoop m len (ieOffset m k) ie1 ≠ none ↔
      ∀ j, k ≤ j → (ieOffset m j : ℤ) < len → m.u16 (ieOffset m j + 2) ≠ 0 := by
  generalize hoff : ieOffset m k = off
  induction off, ie1 using establishmentLoop.induct m len generalizing k with
  | case1 off ie1 h ih =>
    rw [dite_eq_ite] at ih
    rw [establishmentLoop, dif_pos h, ih (k + 1) (by rw [ieOffset_succ, hoff])]
    constructor
    · intro hnext j hj
      rcases Nat.eq_or_lt_of_le hj with rfl | hlt
      · intro _
        rw [hoff]
        exact h.2
      · exact hnext j hlt
    · exact fun hall j hj ↦ hall j (by omega)
  | case2 off ie1 h hlt =>
    rw [establishmentLoop, dif_neg h, if_pos hlt]
    simp only [ne_eq, not_true_eq_false, false_iff]
    intro hall
    have := hall k le_rfl (by rw [hoff]; exact hlt)
    rw [hoff] at this
    exact h ⟨hlt, this⟩
  | case3 off ie1 h hge =>
    rw [establishmentLoop, dif_neg h, if_neg hge]
    simp only [ne_eq, reduceCtorEq, not_false_eq_true, true_iff]
    intro j hj hlt
    have := ieOffset_mono m hj
    omega

/-- The handler of a channel establishment request returns exactly if its walk ends, and the walk
ends exactly if no element that it comes to has length 0. -/
theorem establishment_walk_iff (env : Env) (rru : Rru) (m : Mem) (len : ℤ) :
    (WalkEnds m len ↔ Progresses m len) ∧
      (processChannelEstablishmentReq env rru m len ≠ none ↔ WalkEnds m len) := by
  refine ⟨walkEnds_iff_progresses m len, ?_⟩
  rw [walkEnds_iff_progresses, processChannelEstablishmentReq, Ne, Option.map_eq_none_iff, ← Ne]
  rw [show msgHeaderSize = ieOffset m 0 from rfl, establishmentLoop_ne_none_iff]
  exact forall_congr' fun j ↦ ⟨fun h ↦ h (Nat.zero_le j), fun h _ ↦ h⟩

/-- A request with one element, whose length is 0. -/
theorem zero_length_never_ends :
    ∃ chunk : List UInt8, chunk.length = 19 ∧
      ∀ m : Mem, ¬ WalkEnds (m.write chunk) chunk.length := by
  refine ⟨[0, 0, 0, 1, 0, 0, 0, 19, 0, 0, 0, 0, 0, 0, 0, 0, 2, 0, 0], rfl, fun m h ↦ ?_⟩
  rw [walkEnds_iff_progresses] at h
  refine h 0 ?_ ?_
  · simp [ieOffset, msgHeaderSize]
  · simp [ieOffset, msgHeaderSize, Mem.u16, Mem.write]

def CopiesIe1 (m : Mem) (off : ℕ) : Prop :=
  m.u16 off = 1 ∧ m.u16 (off + 2) = 100

instance (m : Mem) (off : ℕ) : Decidable (CopiesIe1 m off) :=
  inferInstanceAs (Decidable (_ ∧ _))

def ieReads (m : Mem) (off : ℕ) : List ℕ :=
  List.range' off 4 ++ if CopiesIe1 m off then List.range' off 100 else []

def walkReads (m : Mem) (len : ℤ) (off : ℕ) : List ℕ :=
  if _h : (off : ℤ) < len ∧ m.u16 (off + 2) ≠ 0 then
    ieReads m off ++ walkReads m len (off + m.u16 (off + 2))
  else if (off : ℤ) < len then ieReads m off
  else []
termination_by (len - off).toNat
decreasing_by omega

def elementReads (m : Mem) (ieNo : ℕ) (fields : List ℕ) : List ℕ :=
  List.range' msgHeaderSize 2 ++ if m.u16 msgHeaderSize = ieNo then fields else []

/-- The bytes of the buffer that `cpri_rru_manager_process_rru_message` and its handlers read. -/
def messageReads (m : Mem) (len : ℤ) : List ℕ :=
  if longEnough len = false then []
  else
    List.range' 0 4 ++
      match rruMsg (m.u32 0) with
      -- rru_id, bbu_id and port of the header
      | .channelEstablishmentReq => List.range' 8 3 ++ walkReads m len msgHeaderSize
      -- result of IE 21
      | .channelEstablishmentResp => elementReads m 21 (List.range' (msgHeaderSize + 4) 4)
      -- t_offset to N of IE 911
      | .delayMeasureResp => elementReads m 911 (List.range' (msgHeaderSize + 5) 24)
      -- port and result of IE 931
      | .delayConfigResp => elementReads m 931 (List.range' (msgHeaderSize + 4) 2)
      | _ => []

theorem u16_congr {m m' : Mem} {off : ℕ} (h : ∀ n ∈ List.range' off 2, m n = m' n) :
    m.u16 off = m'.u16 off := by
  rw [Mem.u16, Mem.u16, h off (by simp), h (off + 1) (by simp)]

theorem bytes_congr {m m' : Mem} {off k : ℕ} (h : ∀ n ∈ List.range' off k, m n = m' n) :
    m.bytes off k = m'.bytes off k := by
  refine List.map_congr_left fun n hn ↦ h _ ?_
  rw [List.mem_range'_1]
  have := List.mem_range.1 hn
  omega

theorem ieReads_congr {m m' : Mem} {off : ℕ} (h : ∀ n ∈ ieReads m off, m n = m' n) :
    m.u16 off = m'.u16 off ∧ m.u16 (off + 2) = m'.u16 (off + 2) ∧
      (CopiesIe1 m off → m.bytes off 100 = m'.bytes off 100) := by
  obtain ⟨hhead, hcopy⟩ := List.forall_mem_append.1 h
  refine ⟨u16_congr fun n hn ↦ hhead n ?_, u16_congr fun n hn ↦ hhead n ?_, fun hc ↦ ?_⟩
  · rw [List.mem_range'_1] at hn ⊢
    omega
  · rw [List.mem_range'_1] at hn ⊢
    omega
  · rw [if_pos hc] at hcopy
    exact bytes_congr hcopy

theorem establishmentLoop_congr {m m' : Mem} {len : ℤ} {off : ℕ}
    (h : ∀ n ∈ walkReads m len off, m n = m' n) (ie1 : List UInt8) :
    establishmentLoop m len off ie1 = establishmentLoop m' len off ie1 := by
  induction off using walkReads.induct m len generalizing ie1 with
  | case1 off hlt ih =>
    rw [walkReads, dif_pos hlt] at h
    obtain ⟨hhead, htail⟩ := List.forall_mem_append.1 h
    obtain ⟨hno, hlen, hcopy⟩ := ieReads_congr hhead
    rw [establishmentLoop, dif_pos hlt, ih htail]
    conv_rhs => rw [establishmentLoop, dif_pos (by rwa [← hlen])]
    rw [← hno, ← hlen]
    by_cases hc : m.u16 off = 1 ∧ m.u16 (off + 2) = 100
    · rw [hcopy hc]
    · rw [if_neg hc, if_neg hc]
  | case2 off hnot hlt =>
    rw [walkReads, dif_neg hnot, if_pos hlt] at h
    obtain ⟨-, hlen, -⟩ := ieReads_congr h
    rw [establishmentLoop, dif_neg hnot, if_pos hlt]
    rw [establishmentLoop, dif_neg (by rwa [← hlen]), if_pos hlt]
  | case3 off hnot hge =>
    rw [establishmentLoop, dif_neg hnot, if_neg hge]
    rw [establishmentLoop, dif_neg (fun h ↦ hge h.1), if_neg hge]

theorem elementReads_congr {m m' : Mem} {ieNo : ℕ} {fields : List ℕ}
    (h : ∀ n ∈ elementReads m ieNo fields, m n = m' n) :
    m.u16 msgHeaderSize = m'.u16 msgHeaderSize :=
  u16_congr (List.forall_mem_append.1 h).1

theorem processRruMessage_congr {m m' : Mem} {len : ℤ} (h : ∀ n ∈ messageReads m len, m n = m' n)
    (env : Env) (rru : Rru) : processRruMessage env rru m len = processRruMessage env rru m' len := by
  unfold processRruMessage
  unfold messageReads at h
  by_cases hlen : longEnough len = false
  · rw [if_pos hlen, if_pos hlen]
  rw [if_neg hlen] at h
  rw [if_neg hlen, if_neg hlen]
  obtain ⟨hhead, hbody⟩ := List.forall_mem_append.1 h
  have hno : m.u32 0 = m'.u32 0 := by
    rw [Mem.u32, Mem.u32, u16_congr fun n hn ↦ hhead n ?_, u16_congr fun n hn ↦ hhead n ?_]
    · rw [List.mem_range'_1] at hn ⊢
      omega
    · rw [List.mem_range'_1] at hn ⊢
      omega
  rw [← hno]
  cases hmsg : rruMsg (m.u32 0) with
  | channelEstablishmentReq =>
    simp only [hmsg] at hbody
    obtain ⟨hids, hwalk⟩ := List.forall_mem_append.1 hbody
    simp only [processChannelEstablishmentReq, establishmentLoop_congr hwalk, hids 8 (by simp),
      hids 9 (by simp), hids 10 (by simp)]
  | channelEstablishmentResp =>
    simp only [hmsg] at hbody
    simp only [processChannelEstablishmentResp, elementReads_congr hbody]
  | delayMeasureResp =>
    simp only [hmsg] at hbody
    simp only [processDelayMeasureResp, elementReads_congr hbody]
  | delayConfigResp =>
    simp only [hmsg] at hbody
    simp only [processDelayConfigurationResp, elementReads_congr hbody]
  | _ => rfl

def Within (len : ℤ) (reads : List ℕ) : Prop :=
  ∀ n ∈ reads, (n : ℤ) < len

theorem within_append {len : ℤ} {xs ys : List ℕ} :
    Within len (xs ++ ys) ↔ Within len xs ∧ Within len ys :=
  List.forall_mem_append

theorem within_range' {len : ℤ} {off n : ℕ} (hn : 0 < n) :
    Within len (List.range' off n) ↔ ((off + n : ℕ) : ℤ) ≤ len := by
  constructor
  · intro h
    have := h (off + n - 1) (by rw [List.mem_range'_1]; omega)
    omega
  · intro h k hk
    rw [List.mem_range'_1] at hk
    omega

def ieNeed (m : Mem) (off : ℕ) : ℕ :=
  if CopiesIe1 m off then 100 else 4

theorem within_ieReads {m : Mem} {len : ℤ} {off : ℕ} :
    Within len (ieReads m off) ↔ ((off + ieNeed m off : ℕ) : ℤ) ≤ len := by
  rw [ieReads, ieNeed, within_append, within_range' (by omega)]
  split_ifs
  · rw [within_range' (by omega)]
    omega
  · simp [Within]

theorem within_walkReads {m : Mem} {len : ℤ} (k : ℕ) :
    Within len (walkReads m len (ieOffset m k)) ↔
      ∀ j, k ≤ j → (ieOffset m j : ℤ) < len →
        ((ieOffset m j + ieNeed m (ieOffset m j) : ℕ) : ℤ) ≤ len := by
  generalize hoff : ieOffset m k = off
  induction off using walkReads.induct m len generalizing k with
  | case1 off hlt ih =>
    rw [walkReads, dif_pos hlt, within_append, within_ieReads,
      ih (k + 1) (by rw [ieOffset_succ, hoff])]
    constructor
    · rintro ⟨hhead, htail⟩ j hj
      rcases Nat.eq_or_lt_of_le hj with rfl | hj
      · intro _
        rw [hoff]
        exact hhead
      · exact htail j hj
    · intro h
      refine ⟨?_, fun j hj ↦ h j (by omega)⟩
      have := h k le_rfl
      rw [hoff] at this
      exact this hlt.1
  | case2 off hnot hlt =>
    rw [walkReads, dif_neg hnot, if_pos hlt, within_ieReads]
    -- the walk stands still from here on
    have hzero : m.u16 (ieOffset m k + 2) = 0 := by
      rw [hoff]
      by_contra hne
      exact hnot ⟨hlt, hne⟩
    constructor
    · intro h j hj _
      obtain ⟨d, rfl⟩ := Nat.exists_eq_add_of_le hj
      rw [ieOffset_add_of_zero hzero, hoff]
      exact h
    · intro h
      have := h k le_rfl
      rw [hoff] at this
      exact this hlt
  | case3 off hnot hge =>
    rw [walkReads, dif_neg hnot, if_neg hge]
    refine ⟨fun _ j hj hlt ↦ ?_, fun _ n hn ↦ absurd hn List.not_mem_nil⟩
    have := ieOffset_mono m hj
    omega

def answerNeed (m : Mem) (ieNo size : ℕ) : ℕ :=
  msgHeaderSize + if m.u16 msgHeaderSize = ieNo then size else 2

theorem within_elementReads {m : Mem} {len : ℤ} {ieNo first count : ℕ} (hcount : 0 < count)
    (hfirst : 2 ≤ first) :
    Within len (elementReads m ieNo (List.range' (msgHeaderSize + first) count)) ↔
      (answerNeed m ieNo (first + count) : ℤ) ≤ len := by
  rw [elementReads, answerNeed, within_append, within_range' (by omega)]
  split_ifs
  · rw [within_range' hcount]
    omega
  · simp [Within]

def Complete (m : Mem) (len : ℤ) : Prop :=
  match rruMsg (m.u32 0) with
  | .channelEstablishmentReq => ∀ k, (ieOffset m k : ℤ) < len →
    ((ieOffset m k + ieNeed m (ieOffset m k) : ℕ) : ℤ) ≤ len
  | .channelEstablishmentResp => (answerNeed m 21 8 : ℤ) ≤ len
  | .delayMeasureResp => (answerNeed m 911 29 : ℤ) ≤ len
  | .delayConfigResp => (answerNeed m 931 6 : ℤ) ≤ len
  | _ => True

theorem within_messageReads {m : Mem} {len : ℤ} (hlen : (msgHeaderSize : ℤ) ≤ len) :
    Within len (messageReads m len) ↔ Complete m len := by
  have hlong : longEnough len ≠ false := by simp [longEnough, hlen]
  rw [msgHeaderSize] at hlen
  have hhead : Within len (List.range' 0 4) := (within_range' (by omega)).2 (by omega)
  rw [messageReads, if_neg hlong, within_append, and_iff_right hhead, Complete]
  cases hmsg : rruMsg (m.u32 0) with
  | channelEstablishmentReq =>
    have hids : Within len (List.range' 8 3) := (within_range' (by omega)).2 (by omega)
    rw [within_append, and_iff_right hids, show msgHeaderSize = ieOffset m 0 from rfl,
      within_walkReads]
    exact forall_congr' fun j ↦ ⟨fun h ↦ h (Nat.zero_le j), fun h _ ↦ h⟩
  | channelEstablishmentResp => exact within_elementReads (by omega) (by omega)
  | delayMeasureResp => exact within_elementReads (by omega) (by omega)
  | delayConfigResp => exact within_elementReads (by omega) (by omega)
  | _ => exact ⟨fun _ ↦ trivial, fun _ n hn ↦ absurd hn List.not_mem_nil⟩

namespace ReadResult

def len : ReadResult → ℤ
  | bytes chunk => chunk.length
  | closed _ => 0
  | error => -1

/-- The bytes of the buffer that are read after the result of `read`; `m` is what the buffer
holds before. -/
def reads (m : Mem) : ReadResult → List ℕ
  | bytes chunk => messageReads (m.write chunk) chunk.length
  | closed _ => []
  | error => messageReads m (-1)

def Covered (m : Mem) : ReadResult → Prop
  | bytes chunk => msgHeaderSize ≤ chunk.length → Complete (m.write chunk) chunk.length
  | closed _ => True
  | error => False

end ReadResult

/-- Exactly with these results only bytes of the result are read. -/
theorem reads_within_iff (m : Mem) (r : ReadResult) :
    (∀ n ∈ r.reads m, (n : ℤ) < r.len) ↔ r.Covered m := by
  change Within _ _ ↔ _
  cases r with
  | bytes chunk =>
    simp only [ReadResult.reads, ReadResult.len, ReadResult.Covered]
    by_cases hlen : msgHeaderSize ≤ chunk.length
    · rw [within_messageReads (by omega)]
      exact ⟨fun h _ ↦ h, fun h ↦ h hlen⟩
    · have hshort : longEnough chunk.length = false := by simp [longEnough]; omega
      rw [messageReads, if_pos hshort]
      exact ⟨fun _ h ↦ absurd h hlen, fun _ n hn ↦ absurd hn List.not_mem_nil⟩
  | closed peer => exact ⟨fun _ ↦ trivial, fun _ n hn ↦ absurd hn List.not_mem_nil⟩
  | error =>
    refine ⟨fun h ↦ ?_, False.elim⟩
    have := h 0 (by simp [ReadResult.reads, messageReads, longEnough])
    exact absurd this (by decide)

/-- A failed read has the message in the buffer handled again, and an answer that consists of a
header only is read beyond its end. -/
theorem reads_beyond_length :
    (∃ m : Mem, (ReadResult.error).reads m ≠ []) ∧
      ∃ chunk : List UInt8, chunk.length = 15 ∧ ∀ m : Mem, 15 ∈ (ReadResult.bytes chunk).reads m := by
  constructor
  · refine ⟨fun _ ↦ 0, ?_⟩
    simp [ReadResult.reads, messageReads, longEnough]
  · refine ⟨[0, 0, 0, 3, 0, 0, 0, 15, 0, 0, 0, 0, 0, 0, 0], rfl, fun m ↦ ?_⟩
    have hno : (m.write [0, 0, 0, 3, 0, 0, 0, 15, 0, 0, 0, 0, 0, 0, 0]).u32 0 = 3 := by
      simp [Mem.u32, Mem.u16, Mem.write]
    rw [ReadResult.reads, messageReads, if_neg (by decide), hno]
    exact List.mem_append_right _ (List.mem_append_left _ (by decide))

end EnbL1Ppc.CpriEth
