import EnbL1Ppc.Ipc.ReceiveWait
import Mathlib.Tactic

namespace EnbL1Ppc.Ipc.ReceiveWait

open Lib

variable {h : Handle} {s s' : System} {o : List Message}

def Wakes (h : Handle) : Prop := 0 < h.channelId ∧ h.channelId < 32

instance : Decidable (Wakes h) := inferInstanceAs (Decidable (_ ∧ _))

structure Start (s : System) : Prop where
  mask : s.msgReadyMask = 0
  pending : s.pending = false
  dsp : s.dsp = .idle
  handler : s.handler = .idle
  reader : s.reader = .attempt

def Unmarked (h : Handle) (s : System) : Prop :=
  ¬Wakes h → s.msgReadyMask &&& channelBit h = 0 ∧ s.handler = .idle

theorem Start.unmarked (hs : Start s) : Unmarked h s := fun _ ↦
  ⟨by rw [hs.mask]; exact BitVec.zero_and, hs.handler⟩

theorem Reader.wake_ne_asleep (r : Reader) : r.wake ≠ .asleep := by
  cases r <;> simp [Reader.wake]

theorem not_lost_of_reader (hr : s.reader ≠ .asleep) : ¬Lost h s := fun hl ↦ hr hl.1

theorem not_lost_of_not_quiet (hq : ¬Quiet s) : ¬Lost h s := fun hl ↦ hq hl.2.2.2

/-! What each step does -/

inductive Advance (h : Handle) (s : System) (locked : Bool) : System → List Message → Prop
  | refused : s.reader = .attempt → h.channelId ≥ h.maxChannels → Advance h s locked s []
  | attempt : s.reader = .attempt → ¬ h.channelId ≥ h.maxChannels →
    Advance h s locked (receive h s locked .attempt .enter).1 (receive h s locked .attempt .enter).2
  | enter : s.reader = .enter → Advance h s locked { s with reader := .prepared false } []
  | sleep : s.reader = .prepared false → Advance h s locked { s with reader := .asleep } []
  | resume : s.reader = .prepared true → Advance h s locked { s with reader := .resumed } []
  | finish : s.reader = .resumed → Advance h s locked { s with reader := .finished } []
  | takeMask : s.reader = .finished →
    Advance h s locked { s with msgReadyMask := 0, reader := .retry s.msgReadyMask } []
  | retry {m : BitVec 32} : s.reader = .retry m → m &&& channelBit h ≠ 0 →
    Advance h s locked (receive h s locked .attempt .attempt).1
      (receive h s locked .attempt .attempt).2
  | passOver {m : BitVec 32} : s.reader = .retry m → m &&& channelBit h = 0 →
    Advance h s locked { s with reader := .attempt } []

theorem thread_advance {locked : Bool} (ht : thread h s locked = some (s', o)) :
    Advance h s locked s' o := by
  unfold thread at ht
  cases hr : s.reader with
  | attempt =>
    simp only [hr] at ht
    split_ifs at ht with hid
    · cases ht
      exact .refused hr hid
    · cases ht
      exact .attempt hr hid
  | enter =>
    simp only [hr] at ht
    cases ht
    exact .enter hr
  | prepared woken =>
    simp only [hr] at ht
    cases ht
    cases woken with
    | false => exact .sleep hr
    | true => exact .resume hr
  | asleep => simp [hr] at ht
  | resumed =>
    simp only [hr] at ht
    cases ht
    exact .finish hr
  | finished =>
    simp only [hr] at ht
    cases ht
    exact .takeMask hr
  | retry m =>
    simp only [hr] at ht
    split_ifs at ht with hm
    · cases ht
      exact .retry hr hm
    · cases ht
      exact .passOver hr (not_not.1 hm)

theorem receive_reader_ne_asleep {locked : Bool} {found failed : Reader} (hf : found ≠ .asleep)
    (hf' : failed ≠ .asleep) : (receive h s locked found failed).1.reader ≠ .asleep := by
  dsimp only [receive]
  split
  · exact hf
  · exact hf'

theorem thread_cases {locked : Bool} (ht : thread h s locked = some (s', o)) :
    (s.reader = .prepared false ∧ s' = { s with reader := .asleep }) ∨
      s.reader ≠ .prepared false ∧ s'.reader ≠ .asleep := by
  cases thread_advance ht with
  | sleep hr => exact .inl ⟨hr, rfl⟩
  | refused hr => exact .inr ⟨by simp [hr], by simp [hr]⟩
  | attempt hr => exact .inr ⟨by simp [hr], receive_reader_ne_asleep (by simp) (by simp)⟩
  | retry hr => exact .inr ⟨by simp [hr], receive_reader_ne_asleep (by simp) (by simp)⟩
  | enter hr | resume hr | finish hr | takeMask hr | passOver hr =>
    exact .inr ⟨by simp [hr], by simp⟩

theorem msgIntr_cases (hi : msgIntr h s = some s') :
    (s'.handler ≠ .idle ∧ s'.reader = s.reader ∧ (s.handler = .idle → Wakes h)) ∨
    (s.handler = .marked ∧ s' = { s with handler := .idle, reader := s.reader.wake }) ∨
    (¬Wakes h ∧ s.handler = .idle ∧ s' = { s with pending := false }) := by
  unfold msgIntr at hi
  cases hh : s.handler with
  | idle =>
    simp only [hh] at hi
    split_ifs at hi with hp hw
    · obtain rfl := Option.some.inj hi
      exact .inl ⟨by simp, rfl, fun _ ↦ hw⟩
    · obtain rfl := Option.some.inj hi
      exact .inr (.inr ⟨hw, rfl, by rw [← hh]⟩)
  | cleared =>
    simp only [hh] at hi
    obtain rfl := Option.some.inj hi
    exact .inl ⟨by simp, rfl, by simp⟩
  | read m =>
    simp only [hh] at hi
    split_ifs at hi
    · obtain rfl := Option.some.inj hi
      exact .inl ⟨by simp, rfl, by simp⟩
    · obtain rfl := Option.some.inj hi
      exact .inl ⟨by simp, rfl, by simp⟩
  | marked =>
    simp only [hh] at hi
    obtain rfl := Option.some.inj hi
    exact .inr (.inl ⟨rfl, rfl⟩)

theorem thread_handler {locked : Bool} (ht : thread h s locked = some (s', o)) :
    s'.handler = s.handler ∧ (s'.msgReadyMask = s.msgReadyMask ∨ s'.msgReadyMask = 0) := by
  cases thread_advance ht with
  | takeMask => exact ⟨rfl, .inr rfl⟩
  | refused | attempt | enter | sleep | resume | finish | retry | passOver =>
    exact ⟨rfl, .inl rfl⟩

theorem step_unmarked {i : Input} (hu : Unmarked h s) (hs : step h s i = some (s', o)) :
    Unmarked h s' := by
  intro hw
  obtain ⟨hmask, hidle⟩ := hu hw
  cases i with
  | thread locked =>
    obtain ⟨hh, hm | hm⟩ := thread_handler hs
    · exact ⟨hm ▸ hmask, hh.trans hidle⟩
    · exact ⟨by rw [hm]; exact BitVec.zero_and, hh.trans hidle⟩
  | enqueue d =>
    simp only [step] at hs
    split_ifs at hs
    obtain ⟨rfl, rfl⟩ := Prod.mk.inj (Option.some.inj hs)
    exact ⟨hmask, hidle⟩
  | raise =>
    simp only [step] at hs
    split_ifs at hs
    obtain ⟨rfl, rfl⟩ := Prod.mk.inj (Option.some.inj hs)
    exact ⟨hmask, hidle⟩
  | interrupt =>
    obtain ⟨t, ht, hs⟩ := Option.map_eq_some_iff.1 hs
    obtain ⟨rfl, rfl⟩ := Prod.mk.inj hs
    rcases msgIntr_cases ht with ⟨-, -, hwakes⟩ | ⟨hmarked, -⟩ | ⟨-, -, rfl⟩
    · exact absurd (hwakes hidle) hw
    · exact absurd (hidle.symm.trans hmarked) (by simp)
    · exact ⟨hmask, hidle⟩

theorem dsp_not_quiet {i : Input} (hi : (∃ d, i = .enqueue d) ∨ i = .raise)
    (hs : step h s i = some (s', o)) : ¬Quiet s' := by
  obtain ⟨d, rfl⟩ | rfl := hi
  · simp only [step] at hs
    split_ifs at hs
    obtain ⟨rfl, rfl⟩ := Prod.mk.inj (Option.some.inj hs)
    exact fun hq ↦ absurd hq.1 (by simp)
  · simp only [step] at hs
    split_ifs at hs
    obtain ⟨rfl, rfl⟩ := Prod.mk.inj (Option.some.inj hs)
    exact fun hq ↦ absurd hq.2.1 (by simp)

theorem step_lost_iff {i : Input} (hu : Unmarked h s)
    (hs : step h s i = some (s', o)) : ¬Lost h s' ↔ SleepsInTime h s i := by
  have hu' := step_unmarked hu hs
  cases i with
  | thread locked =>
    rcases thread_cases hs with ⟨hr, rfl⟩ | ⟨hr, hr'⟩
    · exact ⟨fun hn _ hm ↦ hn ⟨rfl, hm⟩, fun hin hlost ↦ hin hr hlost.2⟩
    · exact ⟨fun _ hr'' ↦ absurd hr'' hr, fun _ ↦ not_lost_of_reader hr'⟩
  | enqueue d =>
    exact iff_of_true (not_lost_of_not_quiet (dsp_not_quiet (.inl ⟨d, rfl⟩) hs)) trivial
  | raise => exact iff_of_true (not_lost_of_not_quiet (dsp_not_quiet (.inr rfl) hs)) trivial
  | interrupt =>
    refine iff_of_true ?_ trivial
    obtain ⟨t, ht, hs⟩ := Option.map_eq_some_iff.1 hs
    obtain ⟨rfl, rfl⟩ := Prod.mk.inj hs
    rcases msgIntr_cases ht with ⟨hbusy, -, -⟩ | ⟨-, rfl⟩ | ⟨hw, -, -⟩
    · exact not_lost_of_not_quiet fun hq ↦ hbusy hq.2.2
    · exact not_lost_of_reader s.reader.wake_ne_asleep
    · exact fun hlost ↦ hlost.2.2.1 (hu' hw).1

/-! Outside the window -/

def Reader.waiting : Reader → Bool
  | .enter | .prepared false | .asleep => true
  | _ => false

structure Announced (h : Handle) (s : System) : Prop where
  unmarked : Unmarked h s
  coming : Wakes h → s.reader.waiting = true → s.channel.empty = false → ¬Quiet s

theorem Announced.not_lost (hs : Announced h s) : ¬Lost h s := by
  intro hlost
  by_cases hw : Wakes h
  · exact hs.coming hw (by rw [hlost.1]; rfl) hlost.2.1 hlost.2.2.2
  · exact hlost.2.2.1 (hs.unmarked hw).1

theorem recvPtr_failed {ch : Channel} (hid : ¬h.channelId ≥ h.maxChannels)
    (hp : ch.producerInitialized = osHetInitialized)
    (hret : (ch.recvPtr (u := 32) h true).2.2 ≠ errSuccess) :
    (ch.recvPtr (u := 32) h true).1 = ch ∧ ch.empty = true := by
  unfold Channel.recvPtr at hret ⊢
  rw [if_neg hid, if_neg (not_not_intro hp), if_neg (by decide)] at hret ⊢
  split_ifs at hret ⊢ with he
  · exact ⟨rfl, he⟩
  · exact absurd rfl hret

theorem thread_waiting {locked : Bool} (ht : thread h s locked = some (s', o))
    (hg : OutsideWindow s (.thread locked)) (hw : s'.reader.waiting = true) :
    s'.channel.empty = true ∨
      s.reader.waiting = true ∧ s'.channel = s.channel ∧ s'.dsp = s.dsp ∧
        s'.pending = s.pending ∧ s'.handler = s.handler := by
  cases thread_advance ht with
  | refused hr =>
    rw [hr] at hw
    cases hw
  | attempt hr hid =>
    obtain ⟨rfl, hp⟩ := hg hr
    dsimp only [receive] at hw ⊢
    split_ifs at hw with hret
    · cases hw
    · obtain ⟨hch, he⟩ := recvPtr_failed hid hp hret
      exact .inl (by rw [hch, he])
  | enter hr => exact .inr ⟨by rw [hr]; rfl, rfl, rfl, rfl, rfl⟩
  | sleep hr => exact .inr ⟨by rw [hr]; rfl, rfl, rfl, rfl, rfl⟩
  | retry =>
    dsimp only [receive] at hw
    rw [ite_self] at hw
    cases hw
  | resume | finish | takeMask | passOver => cases hw

theorem step_announced {i : Input} (ha : Announced h s) (hg : OutsideWindow s i)
    (hs : step h s i = some (s', o)) : Announced h s' := by
  refine ⟨step_unmarked ha.unmarked hs, fun hwakes hw he ↦ ?_⟩
  cases i with
  | thread locked =>
    rcases thread_waiting hs hg hw with hempty | ⟨hw', hch, hdsp, hpend, hhand⟩
    · exact absurd (he.symm.trans hempty) (by simp)
    · have := ha.coming hwakes hw' (hch ▸ he)
      unfold Quiet at this ⊢
      rwa [hdsp, hpend, hhand]
  | enqueue d => exact dsp_not_quiet (.inl ⟨d, rfl⟩) hs
  | raise => exact dsp_not_quiet (.inr rfl) hs
  | interrupt =>
    obtain ⟨t, ht, hs⟩ := Option.map_eq_some_iff.1 hs
    obtain ⟨rfl, rfl⟩ := Prod.mk.inj hs
    rcases msgIntr_cases ht with ⟨hbusy, -, -⟩ | ⟨hmarked, rfl⟩ | ⟨hn, -, -⟩
    · exact fun hq ↦ hbusy hq.2.2
    · -- the handler has woken a thread that was waiting behind `swait_prepare`
      have hne := hg hmarked
      dsimp only at hw
      cases hr : s.reader with
      | enter => exact absurd hr hne
      | _ => rw [hr] at hw; exact absurd hw Bool.false_ne_true
    · exact absurd hwakes hn

theorem Start.announced (hs : Start s) : Announced h s :=
  ⟨hs.unmarked, fun _ hw ↦ absurd hw (by rw [hs.reader]; decide)⟩

/-- No wake-up is lost in a run exactly if the thread never goes to sleep on a message that it
missed, and none is lost in the runs in which no interrupt falls in the window. -/
theorem lost_iff (hs : Start s) (is : List Input) :
    (Machine.Always (step h) (fun s ↦ ¬Lost h s) s is ↔
      Machine.Along (step h) (SleepsInTime h) s is) ∧
    (Machine.Along (step h) OutsideWindow s is →
      Machine.Always (step h) (fun s ↦ ¬Lost h s) s is) := by
  constructor
  · refine Machine.always_iff_along (J := Unmarked h) step_unmarked
      (fun hu _ hstep ↦ step_lost_iff hu hstep) hs.unmarked ?_ is
    exact not_lost_of_reader (by rw [hs.reader]; simp)
  · exact fun hg ↦ hg.always Announced.not_lost step_announced hs.announced

section Example

def openChannel : Channel where
  producerInitialized := osHetInitialized
  consumerInitialized := osHetInitialized
  producerNum := 0
  consumerNum := 0
  bdRingSize := 2
  maxMsgSize := 0
  localProducerNum := 0
  localConsumerNum := 0
  bd _ := ⟨0, 0⟩

def sc2pa : Handle := ⟨7, 8, BitVec.toNat⟩

def afterOpen : System := ⟨openChannel, 0, false, .idle, .idle, .attempt⟩

theorem afterOpen_start : Start afterOpen := ⟨rfl, rfl, rfl, rfl, rfl⟩

def inTime : List Input :=
  [.thread true, .thread true, .thread true, .enqueue ⟨0x1000, 16⟩, .raise, .interrupt, .interrupt,
    .interrupt, .interrupt, .thread true, .thread true, .thread true]

theorem lost_iff_inTime :
    Machine.Always (step sc2pa) (fun s ↦ ¬Lost sc2pa s) afterOpen inTime := by
  refine (lost_iff afterOpen_start inTime).2 ?_
  iterate 12 refine .cons rfl (by decide) ?_
  trivial

/-- The message and its interrupt come between the attempt and `swait_prepare`. -/
theorem wakeup_lost :
    ∃ s, Machine.exec (step sc2pa) afterOpen
      [.thread true, .enqueue ⟨0x1000, 16⟩, .raise, .interrupt, .interrupt, .interrupt, .interrupt,
        .thread true, .thread true] = some (s, []) ∧ Lost sc2pa s :=
  ⟨_, rfl, by decide⟩

end Example

end EnbL1Ppc.Ipc.ReceiveWait
