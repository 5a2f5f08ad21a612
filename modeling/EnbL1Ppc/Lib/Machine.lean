import Mathlib.Data.List.Infix

namespace EnbL1Ppc.Lib.Machine

variable {σ ι ω : Type}

/-- One atomic step of a system: the input names the actor and resolves every choice,
a refused input gives `none`, and an accepted one gives the next state and its outputs. -/
abbrev Step (σ ι ω : Type) := σ → ι → Option (σ × List ω)

def exec (step : Step σ ι ω) : σ → List ι → Option (σ × List ω)
  | s, [] => some (s, [])
  | s, i :: is => (step s i).bind fun r ↦ (exec step r.1 is).map fun r' ↦ (r'.1, r.2 ++ r'.2)

/-- Every step of the run from `s` is taken from a state and on an input related by `g`. -/
def Along (step : Step σ ι ω) (g : σ → ι → Prop) : σ → List ι → Prop
  | _, [] => True
  | s, i :: is => ∀ r, step s i = some r → g s i ∧ Along step g r.1 is

/-- Every state of the run from `s`, the first and the last included, satisfies `p`. -/
def Always (step : Step σ ι ω) (p : σ → Prop) : σ → List ι → Prop
  | s, [] => p s
  | s, i :: is => p s ∧ ∀ r, step s i = some r → Always step p r.1 is

/-- At every step that the run from `s` comes to, whether it is taken or refused, state and input
are related by `p`. -/
def Whenever (step : Step σ ι ω) (p : σ → ι → Prop) : σ → List ι → Prop
  | _, [] => True
  | s, i :: is => p s i ∧ ∀ r, step s i = some r → Whenever step p r.1 is

/-- Each of the inputs is related by `p` to those before it, which begin with `js`. -/
def Throughout (p : List ι → ι → Prop) : List ι → List ι → Prop
  | _, [] => True
  | js, i :: is => p js i ∧ Throughout p (js ++ [i]) is

theorem throughout_concat {p : List ι → ι → Prop} {js is : List ι} {i : ι} :
    Throughout p js (is ++ [i]) ↔ Throughout p js is ∧ p (js ++ is) i := by
  induction is generalizing js with
  | nil => simp [Throughout]
  | cons j is ih => simp [Throughout, ih, and_assoc]

variable {step : Step σ ι ω}

@[simp] theorem exec_nil (s : σ) : exec step s [] = some (s, []) := rfl

theorem exec_cons_some {s t : σ} {i : ι} {is : List ι} {out : List ω}
    (h : exec step s (i :: is) = some (t, out)) :
    ∃ s' o o', step s i = some (s', o) ∧ exec step s' is = some (t, o') ∧ out = o ++ o' := by
  simp only [exec, Option.bind_eq_some_iff, Option.map_eq_some_iff, Prod.mk.injEq] at h
  obtain ⟨⟨s', o⟩, hs, ⟨t', o'⟩, he, rfl, rfl⟩ := h
  exact ⟨s', o, o', hs, he, rfl⟩

theorem Along.of_forall {g : σ → ι → Prop} {is : List ι} (h : ∀ i ∈ is, ∀ s, g s i) (s : σ) :
    Along step g s is := by
  induction is generalizing s with
  | nil => trivial
  | cons i is ih =>
    intro r _
    exact ⟨h i (by simp) s, ih (fun j hj ↦ h j (by simp [hj])) r.1⟩

theorem Along.cons {g : σ → ι → Prop} {s : σ} {i : ι} {is : List ι} {r : σ × List ω}
    (hr : step s i = some r) (hi : g s i) (h : Along step g r.1 is) :
    Along step g s (i :: is) := by
  intro r' hr'
  obtain rfl := Option.some.inj (hr.symm.trans hr')
  exact ⟨hi, h⟩

theorem Along.and {g g' : σ → ι → Prop} {s : σ} {is : List ι} (h : Along step g s is)
    (h' : Along step g' s is) : Along step (fun s i ↦ g s i ∧ g' s i) s is := by
  induction is generalizing s with
  | nil => trivial
  | cons i is ih =>
    intro r hr
    exact ⟨⟨(h r hr).1, (h' r hr).1⟩, ih (h r hr).2 (h' r hr).2⟩

theorem Along.mono {g g' : σ → ι → Prop} (hg : ∀ s i, g s i → g' s i) {s : σ} {is : List ι}
    (h : Along step g s is) : Along step g' s is := by
  induction is generalizing s with
  | nil => trivial
  | cons i is ih =>
    intro r hr
    obtain ⟨hi, ha⟩ := h r hr
    exact ⟨hg s i hi, ih ha⟩

/-- The induction on runs: a relation between the outputs so far and the state that every
allowed step keeps holds at the end of every allowed run. -/
theorem exec_history {g : σ → ι → Prop} {R : List ω → σ → Prop}
    (hstep : ∀ {out s i s' o}, R out s → g s i → step s i = some (s', o) → R (out ++ o) s')
    {is : List ι} {s t : σ} (out : List ω) {out' : List ω} (hR : R out s) (hg : Along step g s is)
    (h : exec step s is = some (t, out')) : R (out ++ out') t := by
  induction is generalizing s out out' with
  | nil =>
    simp only [exec_nil, Option.some.injEq, Prod.mk.injEq] at h
    obtain ⟨rfl, rfl⟩ := h
    simpa using hR
  | cons i is ih =>
    obtain ⟨s', o, o', hs, he, rfl⟩ := exec_cons_some h
    obtain ⟨hi, ha⟩ := hg _ hs
    rw [← List.append_assoc]
    exact ih _ (hstep hR hi hs) ha he

theorem exec_invariant {g : σ → ι → Prop} {p : σ → Prop}
    (hstep : ∀ {s i s' o}, p s → g s i → step s i = some (s', o) → p s')
    {is : List ι} {s t : σ} {out : List ω} (hp : p s) (hg : Along step g s is)
    (h : exec step s is = some (t, out)) : p t :=
  exec_history (R := fun _ s ↦ p s) (fun hp hg hs ↦ hstep hp hg hs) [] hp hg h

theorem exec_keeps {p : σ → Prop} (hstep : ∀ {s i s' o}, p s → step s i = some (s', o) → p s')
    {is : List ι} {s t : σ} {out : List ω} (hp : p s) (h : exec step s is = some (t, out)) : p t :=
  exec_invariant (g := fun _ _ ↦ True) (fun hp _ hs ↦ hstep hp hs) hp
    (.of_forall (fun _ _ _ ↦ trivial) s) h

/-- The same induction for a relation between the inputs so far and the state. -/
theorem exec_inputs {R : List ι → σ → Prop}
    (hstep : ∀ {js s i s' o}, R js s → step s i = some (s', o) → R (js ++ [i]) s')
    {is : List ι} {s t : σ} (js : List ι) {out : List ω} (hR : R js s)
    (h : exec step s is = some (t, out)) : R (js ++ is) t := by
  induction is generalizing s js out with
  | nil =>
    cases h
    simpa using hR
  | cons i is ih =>
    obtain ⟨s', o, o', hs, he, -⟩ := exec_cons_some h
    rw [List.append_cons]
    exact ih _ (hstep hR hs) he

/-- Two runs on the same inputs, whose states stay related and whose outputs correspond. -/
theorem exec_related {g : σ → ι → Prop} {R : σ → σ → Prop} {f : ω → ω}
    (hstep : ∀ {s t i s' t' o o'}, R s t → g s i → step s i = some (s', o) →
      step t i = some (t', o') → R s' t' ∧ o' = o.map f)
    {is : List ι} {s t s' t' : σ} {out out' : List ω} (hR : R s t) (hg : Along step g s is)
    (h : exec step s is = some (s', out)) (h' : exec step t is = some (t', out')) :
    R s' t' ∧ out' = out.map f := by
  induction is generalizing s t out out' with
  | nil =>
    cases h
    cases h'
    exact ⟨hR, rfl⟩
  | cons i is ih =>
    obtain ⟨u, o₁, o₂, hu, he, rfl⟩ := exec_cons_some h
    obtain ⟨v, o₁', o₂', hv, he', rfl⟩ := exec_cons_some h'
    obtain ⟨hi, ha⟩ := hg _ hu
    obtain ⟨hR', rfl⟩ := hstep hR hi hu hv
    obtain ⟨hR'', rfl⟩ := ih hR' ha he he'
    exact ⟨hR'', List.map_append.symm⟩

theorem exec_append_eq (s : σ) (is js : List ι) :
    exec step s (is ++ js) =
      (exec step s is).bind fun r ↦ (exec step r.1 js).map fun r' ↦ (r'.1, r.2 ++ r'.2) := by
  induction is generalizing s with
  | nil => simp
  | cons i is ih =>
    rw [List.cons_append, exec, exec]
    cases step s i with
    | none => rfl
    | some r =>
      rw [Option.bind_some, Option.bind_some, ih]
      cases exec step r.1 is with
      | none => rfl
      | some r' => simp [List.append_assoc, Function.comp_def]

theorem exec_append {s t u : σ} {is js : List ι} {out out' : List ω}
    (h : exec step s is = some (t, out)) (h' : exec step t js = some (u, out')) :
    exec step s (is ++ js) = some (u, out ++ out') := by
  rw [exec_append_eq, h, Option.bind_some, h']
  rfl

theorem Always.first {p : σ → Prop} {s : σ} {is : List ι} (h : Always step p s is) : p s := by
  cases is with
  | nil => exact h
  | cons i is => exact h.1

/-- If the steps allowed by `g` keep the invariant `I`, and the other steps lead out of `p`, then
the runs that stay in `p` are exactly the runs that stay in `g`. -/
theorem always_iff_along_of_invariant {g : σ → ι → Prop} {I p : σ → Prop}
    (hp : ∀ {s}, I s → p s)
    (hstep : ∀ {s i s' o}, I s → step s i = some (s', o) → (p s' → g s i) ∧ (g s i → I s'))
    {s : σ} (hs : I s) (is : List ι) : Always step p s is ↔ Along step g s is := by
  induction is generalizing s with
  | nil => simpa [Always, Along] using hp hs
  | cons i is ih =>
    simp only [Always, Along]
    constructor
    · rintro ⟨_, h⟩ ⟨s', o⟩ hr
      have hi := (hstep hs hr).1 (h _ hr).first
      exact ⟨hi, (ih ((hstep hs hr).2 hi)).1 (h _ hr)⟩
    · refine fun h ↦ ⟨hp hs, ?_⟩
      rintro ⟨s', o⟩ hr
      obtain ⟨hi, ha⟩ := h _ hr
      exact (ih ((hstep hs hr).2 hi)).2 ha

/-- If, from states with `p`, the steps that keep `p` are exactly the steps allowed by `g`,
then the runs that stay in `p` are exactly the runs that stay in `g`. The invariant `J` holds
throughout in any case. -/
theorem always_iff_along {g : σ → ι → Prop} {J p : σ → Prop}
    (hJ : ∀ {s i s' o}, J s → step s i = some (s', o) → J s')
    (hstep : ∀ {s i s' o}, J s → p s → step s i = some (s', o) → (p s' ↔ g s i))
    {s : σ} (hs : J s) (hp : p s) (is : List ι) : Always step p s is ↔ Along step g s is := by
  refine always_iff_along_of_invariant (I := fun s ↦ J s ∧ p s) And.right ?_ ⟨hs, hp⟩ is
  intro s i s' o hI hr
  have hiff := hstep hI.1 hI.2 hr
  exact ⟨hiff.1, fun hi ↦ ⟨hJ hI.1 hr, hiff.2 hi⟩⟩

/-- The same where an input is refused because the step goes wrong: the runs that come to their end
and stay in `p` are exactly those that meet only steps allowed by `g`. -/
theorem exec_always_iff_whenever {g : σ → ι → Prop} {J p : σ → Prop}
    (hJ : ∀ {s i s' o}, J s → step s i = some (s', o) → J s')
    (hstep : ∀ {s i}, J s → p s → ((∃ r, step s i = some r ∧ p r.1) ↔ g s i))
    {s : σ} (hs : J s) (hp : p s) (is : List ι) :
    (∃ r, exec step s is = some r) ∧ Always step p s is ↔ Whenever step g s is := by
  induction is generalizing s with
  | nil => exact iff_of_true ⟨⟨_, rfl⟩, hp⟩ trivial
  | cons i is ih =>
    constructor
    · rintro ⟨⟨⟨t, out⟩, h⟩, -, ha⟩
      obtain ⟨s', o, o', hr, he, -⟩ := exec_cons_some h
      have ha' := ha _ hr
      refine ⟨(hstep hs hp).1 ⟨_, hr, ha'.first⟩, fun r hr' ↦ ?_⟩
      obtain rfl := Option.some.inj (hr.symm.trans hr')
      exact (ih (hJ hs hr) ha'.first).1 ⟨⟨_, he⟩, ha'⟩
    · rintro ⟨hi, hw⟩
      obtain ⟨r, hr, hpr⟩ := (hstep hs hp).2 hi
      obtain ⟨⟨r', he⟩, ha⟩ := (ih (hJ hs hr) hpr).2 (hw r hr)
      refine ⟨⟨_, by rw [exec, hr, Option.bind_some, he]; rfl⟩, hp, fun r'' hr' ↦ ?_⟩
      obtain rfl := Option.some.inj (hr.symm.trans hr')
      exact ha

/-- What an invariant of the allowed steps implies holds throughout an allowed run. -/
theorem Along.always {g : σ → ι → Prop} {J p : σ → Prop} (hp : ∀ {s}, J s → p s)
    (hstep : ∀ {s i s' o}, J s → g s i → step s i = some (s', o) → J s') {s : σ} (hs : J s)
    {is : List ι} (h : Along step g s is) : Always step p s is := by
  induction is generalizing s with
  | nil => exact hp hs
  | cons i is ih =>
    refine ⟨hp hs, fun r hr ↦ ?_⟩
    obtain ⟨hi, ha⟩ := h r hr
    exact ih (hstep hs hi hr) ha

theorem Whenever.reached {p : σ → ι → Prop} {s t : σ} {is js : List ι} {i : ι} {out : List ω}
    (h : Whenever step p s (is ++ i :: js)) (ht : exec step s is = some (t, out)) : p t i := by
  induction is generalizing s out with
  | nil =>
    cases ht
    exact h.1
  | cons j is ih =>
    obtain ⟨s', o, o', hs, he, rfl⟩ := exec_cons_some ht
    exact ih (h.2 _ hs) he

/-- Two relations that agree in the states with the invariant `J` of the allowed steps hold
throughout the same allowed runs. -/
theorem whenever_congr {g p q : σ → ι → Prop} {J : σ → Prop}
    (hJ : ∀ {s i s' o}, J s → g s i → step s i = some (s', o) → J s')
    (hpq : ∀ {s i}, J s → (p s i ↔ q s i)) {s : σ} (hs : J s) {is : List ι}
    (hg : Along step g s is) : Whenever step p s is ↔ Whenever step q s is := by
  induction is generalizing s with
  | nil => exact Iff.rfl
  | cons i is ih =>
    refine and_congr (hpq hs) (forall₂_congr fun r hr ↦ ?_)
    obtain ⟨hi, ha⟩ := hg r hr
    exact ih (hJ hs hi hr) ha

/-- The system that refuses the steps not allowed by `g`. -/
def guarded (g : σ → ι → Prop) [∀ s i, Decidable (g s i)] (step : Step σ ι ω) : Step σ ι ω :=
  fun s i ↦ if g s i then step s i else none

/-- A run of the guarded system is an allowed run, so that whether a run is allowed can be
evaluated. -/
theorem along_of_guarded {g : σ → ι → Prop} [∀ s i, Decidable (g s i)] {s : σ} {is : List ι}
    {r : σ × List ω} (h : exec (guarded g step) s is = some r) :
    exec step s is = some r ∧ Along step g s is := by
  obtain ⟨t, out⟩ := r
  induction is generalizing s out with
  | nil => exact ⟨h, trivial⟩
  | cons i is ih =>
    obtain ⟨s', o, o', hs, he, hr⟩ := exec_cons_some h
    rw [guarded] at hs
    split at hs
    · next hi =>
      obtain ⟨he, ha⟩ := ih o' he
      refine ⟨?_, Along.cons hs hi ha⟩
      rw [exec, hs, Option.bind_some, he, Option.map_some, hr]
    · cases hs

/-- The system with its outputs so far kept beside the state. -/
def recorded (step : Step σ ι ω) : Step (σ × List ω) ι ω :=
  fun s i ↦ (step s.1 i).map fun r ↦ ((r.1, s.2 ++ r.2), r.2)

theorem recorded_eq_some {s s' : σ × List ω} {i : ι} {o : List ω} :
    recorded step s i = some (s', o) ↔ step s.1 i = some (s'.1, o) ∧ s'.2 = s.2 ++ o := by
  simp only [recorded, Option.map_eq_some_iff, Prod.ext_iff]
  constructor
  · rintro ⟨⟨t, o'⟩, hs, ⟨rfl, h2⟩, rfl⟩
    exact ⟨hs, h2.symm⟩
  · rintro ⟨hs, h2⟩
    exact ⟨_, hs, ⟨rfl, h2.symm⟩, rfl⟩

end EnbL1Ppc.Lib.Machine
