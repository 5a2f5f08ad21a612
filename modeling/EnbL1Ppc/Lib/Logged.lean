import Mathlib.Tactic.Common

namespace EnbL1Ppc.Lib

/-- The outcome of a computation whose loops are bounded: the events it recorded, in order,
and its result, or `none` if a loop reached the bound or the computation broke off. -/
structure Logged (ω α : Type) where
  log : List ω
  res : Option α

namespace Logged

variable {ω α β : Type}

def bind (m : Logged ω α) (f : α → Logged ω β) : Logged ω β :=
  match m.res with
  | none => ⟨m.log, none⟩
  | some a => ⟨m.log ++ (f a).log, (f a).res⟩

instance : Monad (Logged ω) where
  pure a := ⟨[], some a⟩
  bind := Logged.bind

def tell (e : ω) : Logged ω Unit :=
  ⟨[e], some ()⟩

def tellIf (p : Prop) [Decidable p] (e : ω) : Logged ω Unit :=
  if p then tell e else pure ()

def timeout : Logged ω α :=
  ⟨[], none⟩

@[simp] theorem pure_log (a : α) : (pure a : Logged ω α).log = [] := rfl

@[simp] theorem pure_res (a : α) : (pure a : Logged ω α).res = some a := rfl

@[simp] theorem tell_log (e : ω) : (tell e).log = [e] := rfl

@[simp] theorem tell_res (e : ω) : (tell e).res = some () := rfl

@[simp] theorem tellIf_res (p : Prop) [Decidable p] (e : ω) : (tellIf p e).res = some () := by
  unfold tellIf
  split <;> rfl

@[simp] theorem tellIf_log (p : Prop) [Decidable p] (e : ω) :
    (tellIf p e).log = if p then [e] else [] := by
  unfold tellIf
  split <;> rfl

@[simp] theorem timeout_res : (timeout : Logged ω α).res = none := rfl

theorem bind_of_res {m : Logged ω α} {a : α} (h : m.res = some a) (f : α → Logged ω β) :
    m >>= f = ⟨m.log ++ (f a).log, (f a).res⟩ := by
  change Logged.bind m f = _
  simp [Logged.bind, h]

theorem bind_res {m : Logged ω α} {a : α} (h : m.res = some a) (f : α → Logged ω β) :
    (m >>= f).res = (f a).res := by
  rw [bind_of_res h]

theorem bind_of_none {m : Logged ω α} (h : m.res = none) (f : α → Logged ω β) :
    m >>= f = ⟨m.log, none⟩ := by
  change Logged.bind m f = _
  simp [Logged.bind, h]

theorem bind_res_eq_some {m : Logged ω α} {f : α → Logged ω β} {b : β} :
    (m >>= f).res = some b ↔ ∃ a, m.res = some a ∧ (f a).res = some b := by
  cases h : m.res with
  | none => simp [bind_of_none h]
  | some a => simp [bind_of_res h]

theorem mem_bind_log {m : Logged ω α} {f : α → Logged ω β} {e : ω} :
    e ∈ (m >>= f).log ↔ e ∈ m.log ∨ ∃ a, m.res = some a ∧ e ∈ (f a).log := by
  cases h : m.res with
  | none => simp [bind_of_none h]
  | some a => simp [bind_of_res h]

@[simp] theorem tell_bind_res (e : ω) (f : Unit → Logged ω β) :
    (tell e >>= f).res = (f ()).res := by
  simp [bind_of_res (tell_res e)]

@[simp] theorem tell_bind_log (e : ω) (f : Unit → Logged ω β) :
    (tell e >>= f).log = e :: (f ()).log := by
  simp [bind_of_res (tell_res e)]

@[simp] theorem tellIf_bind_res (p : Prop) [Decidable p] (e : ω) (f : Unit → Logged ω β) :
    (tellIf p e >>= f).res = (f ()).res := by
  simp [bind_of_res (tellIf_res p e)]

@[simp] theorem pure_bind' (a : α) (f : α → Logged ω β) : (pure a : Logged ω α) >>= f = f a := by
  simp [bind_of_res (pure_res a)]

/-- If all recorded events are allowed by `E`, a result satisfies `Q`. -/
def Ensures (E : ω → Prop) (Q : α → Prop) (m : Logged ω α) : Prop :=
  (∀ e ∈ m.log, E e) → ∀ a, m.res = some a → Q a

/-- If all recorded events are allowed by `E`, there is a result and it satisfies `Q`. -/
def Halts (E : ω → Prop) (Q : α → Prop) (m : Logged ω α) : Prop :=
  (∀ e ∈ m.log, E e) → ∃ a, m.res = some a ∧ Q a

/-- All recorded events are in `E`, and a result satisfies `Q`. -/
def Records (E : ω → Prop) (Q : α → Prop) (m : Logged ω α) : Prop :=
  (∀ e ∈ m.log, E e) ∧ ∀ a, m.res = some a → Q a

section Rules

variable {E : ω → Prop} {P Q : α → Prop} {R : β → Prop} {m : Logged ω α} {f : α → Logged ω β}

theorem log_left (h : ∀ e ∈ (m >>= f).log, E e) : ∀ e ∈ m.log, E e :=
  fun e he ↦ h e (mem_bind_log.2 (.inl he))

theorem log_right (h : ∀ e ∈ (m >>= f).log, E e) {a : α} (ha : m.res = some a) :
    ∀ e ∈ (f a).log, E e :=
  fun e he ↦ h e (mem_bind_log.2 (.inr ⟨a, ha, he⟩))

theorem Records.bind (hm : Records E P m) (hf : ∀ a, P a → Records E R (f a)) :
    Records E R (m >>= f) := by
  constructor
  · intro e he
    rcases mem_bind_log.1 he with he | ⟨a, ha, he⟩
    · exact hm.1 e he
    · exact (hf a (hm.2 a ha)).1 e he
  · intro b hb
    obtain ⟨a, ha, hb⟩ := bind_res_eq_some.1 hb
    exact (hf a (hm.2 a ha)).2 b hb

theorem Records.pure {a : α} (h : Q a) : Records E Q (Pure.pure a) := by
  refine ⟨by simp, fun b hb ↦ ?_⟩
  cases hb
  exact h

theorem Records.timeout : Records E Q (timeout : Logged ω α) :=
  ⟨by simp [Logged.timeout], by simp⟩

theorem Records.tell_bind {e : ω} {f : Unit → Logged ω β} (h : E e) (hf : Records E R (f ())) :
    Records E R (tell e >>= f) := by
  refine ⟨?_, ?_⟩
  · rw [tell_bind_log]
    exact List.forall_mem_cons.2 ⟨h, hf.1⟩
  · rw [tell_bind_res]
    exact hf.2

theorem Records.tellIf_bind {p : Prop} [Decidable p] {e : ω} {f : Unit → Logged ω β}
    (h : p → E e) (hf : Records E R (f ())) : Records E R (tellIf p e >>= f) := by
  unfold tellIf
  split
  · next hp => exact .tell_bind (h hp) hf
  · rwa [pure_bind']

theorem Records.any (m : Logged ω α) : Records (fun _ ↦ True) (fun _ ↦ True) m :=
  ⟨fun _ _ ↦ trivial, fun _ _ ↦ trivial⟩

theorem Records.mono (h : Records E P m) (hPQ : ∀ a, P a → Q a) : Records E Q m :=
  ⟨h.1, fun a ha ↦ hPQ a (h.2 a ha)⟩

theorem Ensures.bind (hm : Ensures E P m) (hf : ∀ a, P a → Ensures E R (f a)) :
    Ensures E R (m >>= f) := by
  intro he b hb
  obtain ⟨a, ha, hb⟩ := bind_res_eq_some.1 hb
  exact hf a (hm (log_left he) a ha) (log_right he ha) b hb

theorem Ensures.pure {a : α} (h : Q a) : Ensures E Q (Pure.pure a) := by
  intro _ b hb
  cases hb
  exact h

theorem Ensures.timeout : Ensures E Q (timeout : Logged ω α) := by
  intro _ b hb
  cases hb

theorem Ensures.tell_bind {e : ω} {f : Unit → Logged ω β} (h : E e → Ensures E R (f ())) :
    Ensures E R (tell e >>= f) := by
  intro he b hb
  rw [tell_bind_log] at he
  rw [tell_bind_res] at hb
  exact h (he e (by simp)) (fun e' he' ↦ he e' (by simp [he'])) b hb

theorem Ensures.tellIf_bind {p : Prop} [Decidable p] {e : ω} {f : Unit → Logged ω β}
    (h : (p → E e) → Ensures E R (f ())) : Ensures E R (tellIf p e >>= f) := by
  unfold Logged.tellIf
  split
  · next hp => exact .tell_bind fun he ↦ h fun _ ↦ he
  · next hp =>
    rw [pure_bind']
    exact h fun hp' ↦ absurd hp' hp

theorem Ensures.mono (h : Ensures E P m) (hPQ : ∀ a, P a → Q a) : Ensures E Q m :=
  fun he a ha ↦ hPQ a (h he a ha)

theorem Ensures.of_records {E' : ω → Prop} (h : Ensures E P m) (hr : Records E' Q m) :
    Ensures E (fun a ↦ P a ∧ Q a) m :=
  fun he a ha ↦ ⟨h he a ha, hr.2 a ha⟩

theorem Halts.bind (hm : Halts E P m) (hf : ∀ a, P a → Halts E R (f a)) :
    Halts E R (m >>= f) := by
  intro he
  obtain ⟨a, ha, hP⟩ := hm (log_left he)
  obtain ⟨b, hb, hR⟩ := hf a hP (log_right he ha)
  exact ⟨b, bind_res_eq_some.2 ⟨a, ha, hb⟩, hR⟩

theorem Halts.pure {a : α} (h : Q a) : Halts E Q (Pure.pure a) :=
  fun _ ↦ ⟨a, rfl, h⟩

theorem Halts.tell_bind {e : ω} {f : Unit → Logged ω β} (h : E e → Halts E R (f ())) :
    Halts E R (tell e >>= f) := by
  intro he
  rw [tell_bind_log] at he
  rw [tell_bind_res]
  exact h (he e (by simp)) fun e' he' ↦ he e' (by simp [he'])

theorem Halts.tellIf_bind {p : Prop} [Decidable p] {e : ω} {f : Unit → Logged ω β}
    (h : (p → E e) → Halts E R (f ())) : Halts E R (tellIf p e >>= f) := by
  unfold Logged.tellIf
  split
  · next hp => exact .tell_bind fun he ↦ h fun _ ↦ he
  · next hp =>
    rw [pure_bind']
    exact h fun hp' ↦ absurd hp' hp

theorem Halts.of_records {E' : ω → Prop} (h : Halts E P m) (hr : Records E' Q m) :
    Halts E (fun a ↦ P a ∧ Q a) m := by
  intro he
  obtain ⟨a, ha, hP⟩ := h he
  exact ⟨a, ha, hP, hr.2 a ha⟩

end Rules

/-- `m` is `m'`, or it was cut short by a bound. -/
def Cut (m m' : Logged ω α) : Prop :=
  m = m' ∨ m.res = none ∧ m.log <+: m'.log

theorem Cut.refl (m : Logged ω α) : Cut m m :=
  .inl rfl

theorem Cut.timeout (m : Logged ω α) : Cut timeout m :=
  .inr ⟨rfl, List.nil_prefix⟩

theorem Cut.eq_of_res {m m' : Logged ω α} (h : Cut m m') {a : α} (ha : m.res = some a) :
    m = m' := by
  rcases h with h | ⟨h, -⟩
  · exact h
  · rw [h] at ha
    cases ha

theorem Cut.mem_log {m m' : Logged ω α} (h : Cut m m') {e : ω} (he : e ∈ m.log) :
    e ∈ m'.log := by
  rcases h with rfl | ⟨-, h⟩
  · exact he
  · exact h.subset he

theorem log_prefix_bind (m : Logged ω α) (f : α → Logged ω β) : m.log <+: (m >>= f).log := by
  cases h : m.res with
  | none => simp [bind_of_none h]
  | some a => simp [bind_of_res h]

theorem Cut.bind {m m' : Logged ω α} {f f' : α → Logged ω β} (h : Cut m m')
    (hf : ∀ a, Cut (f a) (f' a)) : Cut (m >>= f) (m' >>= f') := by
  rcases h with rfl | ⟨hnone, hpre⟩
  · cases hm : m.res with
    | none =>
      rw [bind_of_none hm, bind_of_none hm]
      exact .refl _
    | some a =>
      rw [bind_of_res hm, bind_of_res hm]
      rcases hf a with he | ⟨hnone, hpre⟩
      · rw [he]
        exact .refl _
      · exact .inr ⟨hnone, (List.prefix_append_right_inj _).2 hpre⟩
  · rw [bind_of_none hnone]
    exact .inr ⟨rfl, hpre.trans (log_prefix_bind m' f')⟩

theorem Cut.ite {p : Prop} {i i' : Decidable p} {m₁ m₂ m₁' m₂' : Logged ω α}
    (h₁ : p → Cut m₁ m₁') (h₂ : ¬ p → Cut m₂ m₂') :
    Cut (@ite _ p i m₁ m₂) (@ite _ p i' m₁' m₂') := by
  by_cases hp : p
  · rw [if_pos hp, if_pos hp]
    exact h₁ hp
  · rw [if_neg hp, if_neg hp]
    exact h₂ hp

/-- A computation that records an event in `E` does not return. -/
def Doomed (E : ω → Prop) (m : Logged ω α) : Prop :=
  (∃ e ∈ m.log, E e) → m.res = none

section Doomed

variable {E : ω → Prop} {m : Logged ω α} {f : α → Logged ω β}

theorem Doomed.bind (hm : Doomed E m) (hf : ∀ a, m.res = some a → Doomed E (f a)) :
    Doomed E (m >>= f) := by
  rintro ⟨e, he, hE⟩
  cases h : m.res with
  | none => rw [bind_of_none h]
  | some a =>
    rcases mem_bind_log.1 he with he | ⟨a', ha', he⟩
    · rw [hm ⟨e, he, hE⟩] at h
      cases h
    · rw [bind_of_res h]
      rw [h] at ha'
      cases ha'
      exact hf a h ⟨e, he, hE⟩

theorem Doomed.of_records {Q : α → Prop} (h : Records (fun e ↦ ¬ E e) Q m) : Doomed E m := by
  rintro ⟨e, he, hE⟩
  exact absurd hE (h.1 e he)

theorem Doomed.records_bind {Q : α → Prop} (h : Records (fun e ↦ ¬ E e) Q m)
    (hf : ∀ a, Q a → Doomed E (f a)) : Doomed E (m >>= f) :=
  (Doomed.of_records h).bind fun a ha ↦ hf a (h.2 a ha)

theorem Doomed.timeout : Doomed E (timeout : Logged ω α) :=
  fun _ ↦ rfl

theorem Doomed.pure (a : α) : Doomed E (Pure.pure a : Logged ω α) := by
  rintro ⟨e, he, -⟩
  cases he

theorem Doomed.tell_bind {e : ω} {f : Unit → Logged ω β} (h : E e → (f ()).res = none)
    (hf : Doomed E (f ())) : Doomed E (tell e >>= f) := by
  rintro ⟨e', he', hE⟩
  rw [tell_bind_res]
  rw [tell_bind_log] at he'
  rcases List.mem_cons.1 he' with rfl | he'
  · exact h hE
  · exact hf ⟨e', he', hE⟩

theorem Doomed.tellIf_bind {p : Prop} [Decidable p] {e : ω} {f : Unit → Logged ω β}
    (h : p → E e → (f ()).res = none) (hf : Doomed E (f ())) : Doomed E (tellIf p e >>= f) := by
  unfold tellIf
  split
  · next hp => exact .tell_bind (h hp) hf
  · rwa [pure_bind']

end Doomed

/-- `m'` is `m`, unless `m` records an event in `E` and ends with a result in `Q`. -/
def SameUnless (E : ω → Prop) (Q : α → Prop) (m m' : Logged ω α) : Prop :=
  m' = m ∨ (∃ e ∈ m.log, E e) ∧ ∃ a, m.res = some a ∧ Q a

section SameUnless

variable {E : ω → Prop} {P : α → Prop} {R : β → Prop}

theorem SameUnless.refl (m : Logged ω α) : SameUnless E P m m :=
  .inl rfl

/-- What follows is the same too, unless it departs; and from `P` it leads to `R`. -/
theorem SameUnless.bind {m m' : Logged ω α} {f f' : α → Logged ω β} (h : SameUnless E P m m')
    (hP : ∀ a, P a → ∃ b, (f a).res = some b ∧ R b)
    (hf : ∀ a, SameUnless E R (f a) (f' a)) : SameUnless E R (m >>= f) (m' >>= f') := by
  rcases h with rfl | ⟨⟨e, he, hE⟩, a, ha, hPa⟩
  · cases hm : m'.res with
    | none =>
      rw [bind_of_none hm, bind_of_none hm]
      exact .refl _
    | some a =>
      rcases hf a with heq | ⟨⟨e, he, hE⟩, b, hb, hR⟩
      · rw [bind_of_res hm, bind_of_res hm, heq]
        exact .refl _
      · exact .inr ⟨⟨e, mem_bind_log.2 (.inr ⟨a, hm, he⟩), hE⟩, b,
          by rw [bind_res hm, hb], hR⟩
  · obtain ⟨b, hb, hR⟩ := hP a hPa
    exact .inr ⟨⟨e, mem_bind_log.2 (.inl he), hE⟩, b, by rw [bind_res ha, hb], hR⟩

theorem SameUnless.bind_same (m : Logged ω α) {f f' : α → Logged ω β}
    (hf : ∀ a, SameUnless E R (f a) (f' a)) : SameUnless E R (m >>= f) (m >>= f') :=
  (SameUnless.refl m).bind (P := fun _ ↦ False) (fun _ h ↦ h.elim) hf

end SameUnless

end Logged

end EnbL1Ppc.Lib
