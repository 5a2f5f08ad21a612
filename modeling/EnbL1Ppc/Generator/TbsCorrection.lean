import EnbL1Ppc.Generator.Linkage
import Mathlib.Order.Bounds.Basic

namespace EnbL1Ppc.Generator

open Lib

/-! The table -/

theorem tbsTable_dvd : ∀ row ∈ tbsTable, ∀ x ∈ row, 8 ∣ x := by
  decide +kernel

theorem tbsColumn_dvd {nprb x : ℕ} (h : x ∈ tbsColumn nprb) : 8 ∣ x := by
  obtain ⟨row, hrow, rfl⟩ := List.mem_map.1 h
  rw [List.getD_eq_getElem?_getD]
  cases hx : row[nprb - 1]? with
  | none => exact Nat.dvd_zero 8
  | some x => exact tbsTable_dvd row hrow x (List.mem_of_getElem? hx)

theorem tbsTable_rows :
    tbsTable.IsChain fun row row' ↦ List.Forall₂ (· ≤ ·) row.tail row'.tail := by
  decide +kernel

theorem getD_le_getD {xs ys : List ℕ} (h : List.Forall₂ (· ≤ ·) xs ys) (k : ℕ) :
    xs.getD k 0 ≤ ys.getD k 0 := by
  induction h generalizing k with
  | nil => exact le_rfl
  | cons hxy _ ih =>
    cases k with
    | zero => exact hxy
    | succ k => exact ih k

theorem tbsColumn_sorted {nprb : ℕ} (h : 2 ≤ nprb) : (tbsColumn nprb).Pairwise (· ≤ ·) := by
  obtain ⟨k, rfl⟩ := Nat.exists_eq_add_of_le' h
  have htail (row : List ℕ) : row.getD (k + 2 - 1) 0 = row.tail.getD k 0 := by
    cases row <;> rfl
  rw [← List.isChain_iff_pairwise, tbsColumn, List.isChain_map]
  refine tbsTable_rows.imp fun row row' hrows ↦ ?_
  rw [htail, htail]
  exact getD_le_getD hrows k

def valuesFrom (xs : List ℕ) (a : ℕ) : Set ℕ := {x | x ∈ xs ∧ a ≤ x}

theorem find?_isLeast {xs : List ℕ} {a x : ℕ} (hsorted : xs.Pairwise (· ≤ ·))
    (h : xs.find? (fun y ↦ a ≤ y) = some x) : IsLeast (valuesFrom xs a) x := by
  obtain ⟨hx, as, bs, rfl, has⟩ := List.find?_eq_some_iff_append.1 h
  refine ⟨⟨by simp, of_decide_eq_true hx⟩, ?_⟩
  rintro y ⟨hy, hay⟩
  rcases List.mem_append.1 hy with hy | hy
  · have := has y hy
    simp [hay] at this
  · rcases List.mem_cons.1 hy with rfl | hy
    · exact le_rfl
    · exact (List.pairwise_cons.1 (List.pairwise_append.1 hsorted).2.1).1 y hy

theorem tbsColumn_one (size : ℕ) (h : size < 90) :
    ∀ x ∈ (tbsColumn 1).find? (fun tbs ↦ 8 * size ≤ tbs),
      (∀ y ∈ tbsColumn 1, 8 * size ≤ y → x ≤ y) ↔ ¬(10 ≤ size ∧ size ≤ 35) := by
  decide +kernel +revert

theorem tbsColumn_one_last : 712 ∈ tbsColumn 1 ∧ ∀ x ∈ tbsColumn 1, x ≤ 712 := by
  decide +kernel

/-! The number of resource blocks -/

theorem countBits_le (x : BitVec 32) (a k : ℕ) : countBits x (List.range' a k) ≤ k :=
  List.countP_le_length.trans List.length_range'.le

theorem convNprb_le (raHeader rbAlloc nRbDl : BitVec 32) :
    convNprb raHeader rbAlloc nRbDl ≤ nRbDl.toNat ∧ convNprb raHeader rbAlloc nRbDl ≤ 100 := by
  have hlow := countBits_le rbAlloc 0 1
  change countBits rbAlloc [0] ≤ 1 at hlow
  unfold convNprb
  dsimp only
  split_ifs with h6 h25 h0 h2 hend h50 h0 h100 h0
  · have := countBits_le rbAlloc 0 6
    exact h6 ▸ ⟨show _ ≤ 6 by omega, by omega⟩
  · have := countBits_le rbAlloc 1 12
    exact h25 ▸ ⟨show _ ≤ 25 by omega, by omega⟩
  · exact h25 ▸ ⟨show _ ≤ 25 by omega, by omega⟩
  · exact h25 ▸ ⟨show _ ≤ 25 by omega, by omega⟩
  · have := countBits_le rbAlloc 2 11
    exact h25 ▸ ⟨show _ ≤ 25 by omega, by omega⟩
  · have := countBits_le rbAlloc 1 16
    exact h50 ▸ ⟨show _ ≤ 50 by omega, by omega⟩
  · have := countBits_le rbAlloc 2 17
    exact h50 ▸ ⟨show _ ≤ 50 by omega, by omega⟩
  · have := countBits_le rbAlloc 0 25
    exact h100 ▸ ⟨show _ ≤ 100 by omega, by omega⟩
  · have := countBits_le rbAlloc 2 25
    exact h100 ▸ ⟨show _ ≤ 100 by omega, by omega⟩
  · exact ⟨Nat.zero_le _, Nat.zero_le _⟩

/-! The block -/

def Dlsch.RoundsUp (cfg : Config) (d : Dlsch) : Prop :=
  if 1 ≤ d.nprb cfg ∧ ∃ x ∈ tbsColumn (d.nprb cfg), 8 * d.pdu.buf.length ≤ x then
    IsLeast (valuesFrom (tbsColumn (d.nprb cfg)) (8 * d.pdu.buf.length))
      (8 * (d.tbLength cfg).toNat)
  else (d.tbLength cfg).toNat = d.pdu.buf.length

variable {cfg : Config} {d : Dlsch}

theorem Dlsch.toNat_bits (h : d.pdu.buf.length < 2 ^ 29) :
    (d.pdu.size <<< 3).toNat = 8 * d.pdu.buf.length := by
  rw [toNat_shiftLeft_three, d.pdu.toNat_size]
  exact Nat.mod_eq_of_lt (by omega)

theorem Dlsch.find_eq (h : d.pdu.buf.length < 2 ^ 29) :
    (tbsColumn (d.nprb cfg)).find? (fun tbs ↦ (d.pdu.size <<< 3).toNat ≤ tbs) =
      (tbsColumn (d.nprb cfg)).find? (fun tbs ↦ 8 * d.pdu.buf.length ≤ tbs) := by
  rw [d.toNat_bits h]

theorem Dlsch.roundsUp_of_not_find (hsize : (d.tbLength cfg).toNat = d.pdu.buf.length)
    (h : ∀ x ∈ tbsColumn (d.nprb cfg), ¬8 * d.pdu.buf.length ≤ x) : d.RoundsUp cfg := by
  rw [RoundsUp, if_neg fun hex ↦ hex.2.elim fun x hx ↦ h x hx.1 hx.2]
  exact hsize

theorem Dlsch.roundsUp_iff (h : d.pdu.buf.length < 2 ^ 29) :
    d.RoundsUp cfg ↔
      ¬(d.nprb cfg = 1 ∧ 10 ≤ d.pdu.buf.length ∧ d.pdu.buf.length ≤ 35) := by
  have hle : d.nprb cfg ≤ 100 := (convNprb_le _ _ _).2
  have hsize := d.pdu.toNat_size
  rcases Nat.eq_zero_or_pos (d.nprb cfg) with hzero | hpos
  · refine iff_of_true ?_ fun hone ↦ ?_
    · rw [RoundsUp, if_neg fun hex ↦ absurd hex.1 (by omega), tbLength,
        correctTbs_of_not_find (.inl (by omega)), hsize]
    · omega
  · have hfind := @Dlsch.find_eq cfg d h
    cases hf : (tbsColumn (d.nprb cfg)).find? (fun tbs ↦ 8 * d.pdu.buf.length ≤ tbs) with
    | none =>
      have hnone := List.find?_eq_none.1 hf
      simp only [decide_eq_true_eq] at hnone
      refine iff_of_true (d.roundsUp_of_not_find ?_ hnone) fun hone ↦ ?_
      · rw [tbLength, correctTbs_of_not_find (.inr (hfind.trans hf)), hsize]
      · have := hnone 712 (hone.1 ▸ tbsColumn_one_last.1)
        omega
    | some x =>
      have hmem := List.mem_of_find?_eq_some hf
      have hx := List.find?_some hf
      rw [decide_eq_true_eq] at hx
      have hlen : 8 * (d.tbLength cfg).toNat = x := by
        rw [tbLength, (correctTbs_of_find hpos (by omega) (hfind.trans hf)).1]
        exact Nat.mul_div_cancel' (tbsColumn_dvd hmem)
      rw [RoundsUp, if_pos ⟨hpos, x, hmem, hx⟩, hlen]
      rcases Nat.lt_or_ge 1 (d.nprb cfg) with hlt | hge
      · exact iff_of_true (find?_isLeast (tbsColumn_sorted hlt) hf) fun hone ↦ by omega
      · have hone : d.nprb cfg = 1 := by omega
        rw [hone] at hf hmem ⊢
        have hlast := tbsColumn_one_last.2 x hmem
        have hcolumn := tbsColumn_one d.pdu.buf.length (by omega) x hf
        rw [eq_self_iff_true, true_and, ← hcolumn]
        constructor
        · exact fun hleast y hy hyx ↦ hleast.2 ⟨hy, hyx⟩
        · exact fun hleast ↦ ⟨⟨hmem, hx⟩, fun y hy ↦ hleast y hy.1 hy.2⟩

/-- The block holds the string and zeros behind it. Its size is the next one of the table except
for strings of 10 to 35 bytes in a single resource block. -/
theorem dlsch_block_iff (cfg : Config) (d : Dlsch) (h : d.pdu.buf.length < 2 ^ 29) :
    d.pdu.buf.length ≤ (d.tbLength cfg).toNat ∧
    (∃ tx, parseP7DlCfgDlschTx cfg d = some tx ∧ ∀ t, txData (tx t) =
      d.pdu.buf ++ List.replicate ((d.tbLength cfg).toNat - d.pdu.buf.length) 0) ∧
    d.nprb cfg ≤ cfg.dlChannelBandwidth.toNat ∧
    (d.RoundsUp cfg ↔
      ¬(d.nprb cfg = 1 ∧ 10 ≤ d.pdu.buf.length ∧ d.pdu.buf.length ≤ 35)) := by
  obtain ⟨tx, htx⟩ := exists_parseP7DlCfgDlschTx (@Dlsch.not_wraps cfg d h)
  obtain ⟨hle, hblock⟩ := parseP7DlCfgDlschTx_eq_some htx
  refine ⟨hle, ⟨tx, htx, fun t ↦ ?_⟩, (convNprb_le _ _ _).1, d.roundsUp_iff h⟩
  rw [(hblock t).txData_eq]
  exact bytes_getD d.pdu.buf hle

theorem dlsch_block_iff_shortString :
    (oneBlockDlsch shortString).pdu.buf.length < 2 ^ 29 ∧
      (oneBlockDlsch shortString).RoundsUp exampleConfig := by
  have h : (oneBlockDlsch shortString).pdu.buf.length < 2 ^ 29 := by decide
  refine ⟨h, (dlsch_block_iff exampleConfig _ h).2.2.2.2 ?_⟩
  exact fun hone ↦ absurd hone.2.1 (by decide)

def tenBytes : OctetString := ⟨List.replicate 10 0, by decide⟩

/-- A string of 10 bytes in one resource block gets 41 bytes, although the table has a size of 13
bytes. -/
theorem tenBytes_overrounded :
    (oneBlockDlsch tenBytes).nprb exampleConfig = 1 ∧
      ((oneBlockDlsch tenBytes).tbLength exampleConfig).toNat = 41 ∧ 8 * 13 ∈ tbsColumn 1 ∧
      ¬(oneBlockDlsch tenBytes).RoundsUp exampleConfig := by
  refine ⟨by decide, by decide, by decide, ?_⟩
  rw [Dlsch.roundsUp_iff (by decide)]
  exact not_not_intro ⟨by decide, by decide, by decide⟩

end EnbL1Ppc.Generator
