import EnbL1Ppc.Generator.SetTime
import EnbL1Ppc.Lib.Machine
import EnbL1Ppc.Lib.Mailbox

namespace EnbL1Ppc.Generator

open Lib Lib.Mailbox

inductive UlKind
  | rx
  | harq
  | sr
  | cqi
  | crc

def UlKind.all : List UlKind := [.rx, .harq, .sr, .cqi, .crc]

/-- An indication of one of the kinds; `number` is the count in its body. -/
structure UlInd where
  frame : BitVec 32
  subframe : BitVec 32
  number : BitVec 32

def UlKind.keeps : UlKind → UlInd → Bool
  | .rx, _ => true
  | .harq, x | .sr, x | .cqi, x | .crc, x => 0 < x.number

/-- What a TTI of `phy_dispatcher_thread` gets: the time of the subframe indication and, from each
of the five queues, the indications that have arrived. -/
structure UlInput where
  frame : BitVec 32
  subframe : BitVec 32
  arrived : UlKind → List UlInd

/-- The times, and the arrays `rx_ind_q`, `harq_ind_q`, `sr_ind_q`, `cqi_ind_q` and
`crc_ind_q`. -/
structure UlState where
  proc : PhyProc
  queue : UlKind → BitVec 32 → Option UlInd

structure Decoded where
  proc : PhyProc
  pusch : Option (UlInd × Option UlInd)
  pucch : Option (Option UlInd × Option UlInd × Option UlInd)

def UlInput.stored (t : UlInput) (kind : UlKind) : List UlInd :=
  (t.arrived kind).filter kind.keeps

def UlInput.Inside (t : UlInput) : Prop :=
  ∀ kind ∈ UlKind.all, ∀ x ∈ t.stored kind, x.subframe.toNat < 10

instance (t : UlInput) : Decidable t.Inside := inferInstanceAs (Decidable (∀ kind ∈ UlKind.all, _))

def pucchCalled (queue : UlKind → BitVec 32 → Option UlInd) (sf : BitVec 32) : Bool :=
  (queue .harq sf).isSome || (queue .sr sf).isSome || (queue .cqi sf).isSome

def cleared (queue : UlKind → BitVec 32 → Option UlInd) (sf : BitVec 32) : UlKind → Bool
  | .rx => (queue .rx sf).isSome
  | .crc => true
  | .harq | .sr | .cqi => pucchCalled queue sf

def ulTti : Machine.Step UlState UlInput Decoded := fun s t ↦
  if t.Inside then
    let proc := phyCommonSetTime s.proc t.frame t.subframe
    let sf := proc.sfRx
    let queue := fun kind ↦ putAll UlInd.subframe (s.queue kind) (t.stored kind)
    some (⟨proc, fun kind ↦
        if cleared queue sf kind then Function.update (queue kind) sf none else queue kind⟩,
      [⟨proc, (queue .rx sf).map fun rx ↦ (rx, queue .crc sf),
        if pucchCalled queue sf then some (queue .harq sf, queue .sr sf, queue .cqi sf)
        else none⟩])
  else none

def UlState.start (proc : PhyProc) : UlState := ⟨proc, fun _ _ ↦ none⟩

def Decoded.passed (o : Decoded) : List UlInd :=
  (o.pusch.elim [] fun c ↦ c.1 :: c.2.toList) ++
    o.pucch.elim [] fun c ↦ c.1.toList ++ c.2.1.toList ++ c.2.2.toList

def Decoded.Matches (o : Decoded) : Prop :=
  ∀ x ∈ o.passed, x.frame = o.proc.frameRx ∧ x.subframe = o.proc.sfRx

/-! The time of reception -/

def UlInput.frameRx (t : UlInput) : BitVec 32 :=
  (phyCommonSetTime startProc t.frame t.subframe).frameRx

def UlInput.sfRx (t : UlInput) : BitVec 32 :=
  (phyCommonSetTime startProc t.frame t.subframe).sfRx

def waiting (before : List UlInput) (t : UlInput) (kind : UlKind) : Option UlInd :=
  latest UlInd.subframe t.sfRx
    (since t.sfRx (before.map fun t ↦ (t.stored kind, t.sfRx)) ++ t.stored kind)

/-- What waits for the subframe is of the frame that is received. A CRC indication counts only
with an RX indication. -/
structure Timely (before : List UlInput) (t : UlInput) : Prop where
  rx : ∀ x ∈ waiting before t .rx, x.frame = t.frameRx
  crc : (waiting before t .rx).isSome → ∀ x ∈ waiting before t .crc, x.frame = t.frameRx
  harq : ∀ x ∈ waiting before t .harq, x.frame = t.frameRx
  sr : ∀ x ∈ waiting before t .sr, x.frame = t.frameRx
  cqi : ∀ x ∈ waiting before t .cqi, x.frame = t.frameRx

variable {before : List UlInput} {t : UlInput} {s : UlState} {kind : UlKind}

def Waits (before : List UlInput) (s : UlState) : Prop :=
  ∀ kind sf, s.queue kind sf = latest UlInd.subframe sf
    (since sf (before.map fun t ↦ (t.stored kind, t.sfRx)))

theorem putAll_eq_waiting (h : Waits before s) (kind : UlKind) :
    putAll UlInd.subframe (s.queue kind) (t.stored kind) t.sfRx = waiting before t kind := by
  rw [putAll_apply, h, waiting, latest_append]

theorem subframe_of_mem_waiting {x : UlInd} (h : x ∈ waiting before t kind) :
    x.subframe = t.sfRx :=
  key_of_mem_latest h

def passedNow (before : List UlInput) (t : UlInput) : List UlInd :=
  ((waiting before t .rx).elim [] fun rx ↦ rx :: (waiting before t .crc).toList) ++
    ((waiting before t .harq).toList ++ (waiting before t .sr).toList ++
      (waiting before t .cqi).toList)

variable {queue : UlKind → BitVec 32 → Option UlInd} {sf : BitVec 32}

theorem eq_none_of_not_cleared (h : ¬cleared queue sf kind = true) : queue kind sf = none := by
  cases kind with
  | crc => exact absurd rfl h
  | rx => simpa [cleared] using h
  | harq | sr | cqi =>
    simp only [cleared, pucchCalled, Bool.or_eq_true, not_or, Option.not_isSome_iff_eq_none] at h
    simp [h]

theorem ite_cleared (queue : UlKind → BitVec 32 → Option UlInd) (sf : BitVec 32) (kind : UlKind) :
    (if cleared queue sf kind then Function.update (queue kind) sf none else queue kind) =
      Function.update (queue kind) sf none := by
  split_ifs with h
  · rfl
  · rw [← eq_none_of_not_cleared h, Function.update_eq_self]

theorem elim_pucch (queue : UlKind → BitVec 32 → Option UlInd) (sf : BitVec 32) :
    ((if pucchCalled queue sf then some (queue .harq sf, queue .sr sf, queue .cqi sf)
        else none).elim [] fun c ↦ c.1.toList ++ c.2.1.toList ++ c.2.2.toList) =
      (queue .harq sf).toList ++ (queue .sr sf).toList ++ (queue .cqi sf).toList := by
  split_ifs with h
  · rfl
  · simp only [pucchCalled, Bool.or_eq_true, not_or, Option.not_isSome_iff_eq_none] at h
    simp [h]

theorem ulTti_eq (h : Waits before s) (ht : t.Inside) :
    ∃ s' o, ulTti s t = some (s', [o]) ∧ Waits (before ++ [t]) s' ∧
      o.proc.frameRx = t.frameRx ∧ o.proc.sfRx = t.sfRx ∧ o.passed = passedNow before t := by
  have hsf : (phyCommonSetTime s.proc t.frame t.subframe).sfRx = t.sfRx := rfl
  refine ⟨_, _, if_pos ht, fun kind sf ↦ ?_, rfl, rfl, ?_⟩
  · dsimp only
    rw [ite_cleared, hsf, List.map_append]
    exact update_putAll_apply (h kind) _ _ _
  · rw [Decoded.passed, elim_pucch, hsf]
    simp only [putAll_eq_waiting h, passedNow]
    cases waiting before t .rx <;> rfl

theorem matches_iff {o : Decoded} (hframe : o.proc.frameRx = t.frameRx)
    (hsf : o.proc.sfRx = t.sfRx) (hpassed : o.passed = passedNow before t) :
    o.Matches ↔ Timely before t := by
  have hkind (kind : UlKind) : (∀ x ∈ (waiting before t kind).toList,
      x.frame = t.frameRx ∧ x.subframe = t.sfRx) ↔
        ∀ x ∈ waiting before t kind, x.frame = t.frameRx := by
    simp only [Option.mem_toList]
    exact forall₂_congr fun x hx ↦ and_iff_left (subframe_of_mem_waiting hx)
  have hrx : (∀ x ∈ (waiting before t .rx).elim [] fun rx ↦ rx :: (waiting before t .crc).toList,
      x.frame = t.frameRx ∧ x.subframe = t.sfRx) ↔
        (∀ x ∈ waiting before t .rx, x.frame = t.frameRx) ∧
        ((waiting before t .rx).isSome → ∀ x ∈ waiting before t .crc, x.frame = t.frameRx) := by
    cases hw : waiting before t .rx with
    | none => simp
    | some rx =>
      rw [Option.elim_some, List.forall_mem_cons, hkind]
      have hsf := subframe_of_mem_waiting hw
      simp [hsf]
  rw [Decoded.Matches, hframe, hsf, hpassed, passedNow]
  simp only [List.forall_mem_append, hkind, hrx]
  constructor
  · rintro ⟨⟨h₁, h₂⟩, ⟨h₃, h₄⟩, h₅⟩
    exact ⟨h₁, h₂, h₃, h₄, h₅⟩
  · rintro ⟨h₁, h₂, h₃, h₄, h₅⟩
    exact ⟨⟨h₁, h₂⟩, ⟨h₃, h₄⟩, h₅⟩

/-! Runs -/

theorem exec_matches_iff {inputs : List UlInput} (h : Waits before s)
    (hinputs : ∀ t ∈ inputs, t.Inside) :
    ∃ s' outs, Machine.exec ulTti s inputs = some (s', outs) ∧ outs.length = inputs.length ∧
      ((∀ o ∈ outs, o.Matches) ↔ Machine.Throughout Timely before inputs) := by
  induction inputs generalizing before s with
  | nil => exact ⟨s, [], rfl, rfl, iff_of_true (by simp) trivial⟩
  | cons t inputs ih =>
    obtain ⟨ht, hinputs⟩ := List.forall_mem_cons.1 hinputs
    obtain ⟨s₁, o, hstep, hwaits, hframe, hsf, hpassed⟩ := ulTti_eq h ht
    obtain ⟨s', outs, hexec, hlen, hiff⟩ := ih hwaits hinputs
    refine ⟨s', o :: outs, ?_, congrArg Nat.succ hlen, ?_⟩
    · rw [Machine.exec, hstep, Option.bind_some, hexec]
      rfl
    · rw [List.forall_mem_cons, matches_iff hframe hsf hpassed, hiff, Machine.Throughout]

/-- All indications that are passed are of the subframe that is received exactly if, in every TTI,
the last ones that have arrived for its number since they were last taken are of its frame. -/
theorem passed_match_iff (proc : PhyProc) (inputs : List UlInput)
    (hinputs : ∀ t ∈ inputs, t.Inside) :
    ∃ s' outs, Machine.exec ulTti (.start proc) inputs = some (s', outs) ∧
      outs.length = inputs.length ∧
      ((∀ o ∈ outs, o.Matches) ↔ Machine.Throughout Timely [] inputs) :=
  exec_matches_iff (fun _ _ ↦ rfl) hinputs

section Example

def rxOnly (frame subframe : BitVec 32) (xs : List UlInd) : UlInput :=
  ⟨frame, subframe, fun
    | .rx => xs
    | .harq | .sr | .cqi | .crc => []⟩

/-- The indication of 0:6 arrives in the TTI in which it is taken. -/
theorem passed_match_iff_inTime :
    ∃ s' outs, Machine.exec ulTti (.start startProc) [rxOnly 1 0 [⟨0, 6, 1⟩]] = some (s', outs) ∧
      outs.length = 1 ∧ ∀ o ∈ outs, o.Matches := by
  have hinside : ∀ t ∈ [rxOnly 1 0 [⟨0, 6, 1⟩]], t.Inside :=
    List.forall_mem_singleton.2 (by decide)
  obtain ⟨s', outs, hexec, hlen, hiff⟩ := passed_match_iff startProc _ hinside
  refine ⟨s', outs, hexec, hlen, hiff.2 ⟨⟨?_, ?_, ?_, ?_, ?_⟩, trivial⟩⟩
  · rintro x hx
    cases hx
    rfl
  · rintro - x hx
    cases hx
  · rintro x hx
    cases hx
  · rintro x hx
    cases hx
  · rintro x hx
    cases hx

/-- An indication of frame 0 that comes one TTI late is passed in frame 1. -/
theorem late_rx_passed :
    ∃ s' o₁ o₂, Machine.exec ulTti (.start startProc) [rxOnly 1 1 [⟨0, 6, 1⟩], rxOnly 2 0 []] =
        some (s', [o₁, o₂]) ∧
      o₂.pusch = some (⟨0, 6, 1⟩, none) ∧ o₂.proc.frameRx = 1 ∧ o₂.proc.sfRx = 6 :=
  ⟨_, _, _, rfl, rfl, rfl, rfl⟩

end Example

end EnbL1Ppc.Generator
