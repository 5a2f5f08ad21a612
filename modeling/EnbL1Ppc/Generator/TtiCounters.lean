import EnbL1Ppc.Generator.ListBounds
import Mathlib.Data.Nat.ModEq

namespace EnbL1Ppc.Generator

open Lib Fapi.Requests

/-! The counter of the generator -/

def Indication.number (ind : Indication) : ℕ := ind.frame.toNat * 10 + ind.subframe.toNat

structure Indication.Valid (ind : Indication) : Prop where
  frame_lt : ind.frame.toNat < 1024
  subframe_lt : ind.subframe.toNat < 10

def countTti (a : BitVec 32) (ind : Indication) : BitVec 32 :=
  if (a + 1) % 10 ≠ ind.subframe then ind.frame * 10 + ind.subframe else a + 1

def absTtis : BitVec 32 → List Indication → List (BitVec 32)
  | _, [] => []
  | a, ind :: inds => countTti a ind :: absTtis (countTti a ind) inds

def InStep (a : BitVec 32) (ind : Indication) : Prop := a.toNat ≡ ind.number [MOD 10240]

instance (a : BitVec 32) (ind : Indication) : Decidable (InStep a ind) :=
  inferInstanceAs (Decidable (_ ≡ _ [MOD _]))

def lost (prev ind : Indication) : ℕ := (ind.number + 10240 - (prev.number + 1)) % 10240

/-- The indication is for the next TTI, or its subframe shows that it is not. Where the counter
starts again from 0 its subframe is that of TTI 0. -/
def LossNoticed (a : BitVec 32) (prev ind : Indication) : Prop :=
  if a = BitVec.allOnes 32 then ind.subframe = 0 → ind.frame = 0
  else 10 ∣ lost prev ind → lost prev ind = 0

instance (a : BitVec 32) (prev ind : Indication) : Decidable (LossNoticed a prev ind) :=
  inferInstanceAs (Decidable (ite _ _ _))

def LossesNoticed : BitVec 32 → Indication → List Indication → Prop
  | _, _, [] => True
  | a, prev, ind :: inds => LossNoticed a prev ind ∧ LossesNoticed (countTti a ind) ind inds

variable {a : BitVec 32} {prev ind : Indication} {inds : List Indication}

theorem Indication.Valid.number_lt (h : ind.Valid) : ind.number < 10240 := by
  have hframe := h.frame_lt
  have hsf := h.subframe_lt
  rw [Indication.number]
  omega

theorem Indication.Valid.toNat_tti (h : ind.Valid) :
    (ind.frame * 10 + ind.subframe).toNat = ind.number := by
  have hlt := h.number_lt
  rw [Indication.number] at hlt ⊢
  rw [BitVec.toNat_add, BitVec.toNat_mul]
  change (ind.frame.toNat * 10 % 2 ^ 32 + ind.subframe.toNat) % 2 ^ 32 = _
  omega

theorem toNat_add_one (h : a ≠ BitVec.allOnes 32) : (a + 1).toNat = a.toNat + 1 := by
  have hne : a.toNat ≠ 2 ^ 32 - 1 := fun heq ↦ h (BitVec.eq_of_toNat_eq heq)
  have hlt := a.isLt
  rw [BitVec.toNat_add]
  change (a.toNat + 1) % 2 ^ 32 = _
  omega

theorem add_one_mod_ten_iff (x : BitVec 32) : x % 10 = ind.subframe ↔
    x.toNat % 10 = ind.subframe.toNat := by
  rw [← BitVec.toNat_inj, BitVec.toNat_umod]
  rfl

theorem inStep_countTti_iff (h : InStep a prev) (hprev : prev.Valid) (hind : ind.Valid) :
    InStep (countTti a ind) ind ↔ LossNoticed a prev ind := by
  have hnumber := hind.number_lt
  have hprev := hprev.number_lt
  have hsf := hind.subframe_lt
  have hmod : ind.number % 10 = ind.subframe.toNat := by
    rw [Indication.number]
    omega
  by_cases hcorrect : (a + 1) % 10 ≠ ind.subframe
  · -- the counter is set to the TTI of the indication
    rw [countTti, if_pos hcorrect, InStep, hind.toNat_tti]
    refine iff_of_true rfl ?_
    rw [ne_eq, add_one_mod_ten_iff] at hcorrect
    rw [LossNoticed]
    split_ifs with hmax
    · subst hmax
      intro hzero
      exact absurd (hzero ▸ rfl) hcorrect
    · rw [toNat_add_one hmax] at hcorrect
      intro hdvd
      rw [InStep, Nat.ModEq] at h
      rw [lost] at hdvd ⊢
      omega
  · rw [countTti, if_neg hcorrect, InStep, Nat.ModEq, LossNoticed]
    rw [not_not, add_one_mod_ten_iff] at hcorrect
    split_ifs with hmax
    · subst hmax
      have hzero : ind.subframe = 0 := BitVec.eq_of_toNat_eq hcorrect.symm
      rw [forall_prop_of_true hzero, ← BitVec.toNat_inj]
      change 0 % 10240 = _ ↔ ind.frame.toNat = 0
      rw [Indication.number, hzero] at hnumber ⊢
      change ind.frame.toNat * 10 + 0 < 10240 at hnumber
      change 0 % 10240 = (ind.frame.toNat * 10 + 0) % 10240 ↔ _
      omega
    · rw [toNat_add_one hmax] at hcorrect ⊢
      rw [InStep, Nat.ModEq] at h
      rw [lost]
      omega

theorem inStep_absTtis_iff (h : InStep a prev) (hprev : prev.Valid)
    (hinds : ∀ ind ∈ inds, ind.Valid) :
    List.Forall₂ InStep (absTtis a inds) inds ↔ LossesNoticed a prev inds := by
  induction inds generalizing a prev with
  | nil => exact iff_of_true .nil trivial
  | cons ind inds ih =>
    obtain ⟨hind, hinds⟩ := List.forall_mem_cons.1 hinds
    rw [absTtis, List.forall₂_cons, LossesNoticed, inStep_countTti_iff h hprev hind]
    refine and_congr_right fun hnoticed ↦ ?_
    exact ih ((inStep_countTti_iff h hprev hind).2 hnoticed) hind hinds

theorem exec_absTti {g g' : L2FapiGenerator} {outs : List Sent}
    (h : Machine.exec tti g inds = some (g', outs)) :
    g'.absTti = (absTtis g.absTti inds).getLastD g.absTti := by
  induction inds generalizing g outs with
  | nil =>
    cases h
    rfl
  | cons ind inds ih =>
    obtain ⟨g₁, o, o', h₁, h, -⟩ := Machine.exec_cons_some h
    obtain ⟨sf, item, s, t, -, -, -, rfl, -⟩ := tti_eq_some h₁
    rw [ih h, absTtis]
    exact (List.getLastD_cons ..).symm

/-- After every indication the counter agrees with its TTI exactly if no multiple of ten TTIs is
lost between two indications. -/
theorem absTti_inStep_iff (inds : List Indication) (hinds : ∀ ind ∈ inds, ind.Valid) :
    (∀ g g' outs, g.absTti = 0 → Machine.exec tti g inds = some (g', outs) →
      g'.absTti = (absTtis 0 inds).getLastD 0) ∧
    (List.Forall₂ InStep (absTtis 0 inds) inds ↔ LossesNoticed 0 ⟨0, 0⟩ inds) := by
  refine ⟨fun g g' outs hg h ↦ hg ▸ exec_absTti h, ?_⟩
  exact inStep_absTtis_iff rfl ⟨by decide, by decide⟩ hinds

theorem absTti_inStep_iff_consecutive :
    List.Forall₂ InStep (absTtis 0 [⟨0, 1⟩, ⟨0, 2⟩]) [⟨0, 1⟩, ⟨0, 2⟩] := by
  have hvalid : ∀ ind ∈ [(⟨0, 1⟩ : Indication), ⟨0, 2⟩], ind.Valid := by
    simp only [List.forall_mem_cons]
    exact ⟨⟨by decide, by decide⟩, ⟨by decide, by decide⟩, by simp⟩
  exact (absTti_inStep_iff _ hvalid).2.2 ⟨by decide, by decide, trivial⟩

/-- The ten indications between 0:1 and 1:2 are lost. -/
theorem lostFrame_unnoticed :
    ∃ g' outs, Machine.exec tti (.start exampleConfig [⟨0, zeroDl, zeroUl⟩]) [⟨0, 1⟩, ⟨1, 2⟩] =
      some (g', outs) ∧ ¬InStep g'.absTti ⟨1, 2⟩ :=
  ⟨_, _, rfl, by decide⟩

end EnbL1Ppc.Generator
