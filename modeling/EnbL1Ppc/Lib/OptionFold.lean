import Mathlib.Data.List.Basic

namespace EnbL1Ppc.Lib.OptionFold

variable {α β : Type} {f : β → α → Option β} {R : List α → β → Prop}

/-- The induction on loops that may stop: a relation between the elements so far and the
accumulator that every turn keeps holds at the end. -/
theorem foldlM_invariant (hstep : ∀ {xs b x b'}, R xs b → f b x = some b' → R (xs ++ [x]) b')
    {xs ys : List α} {b b' : β} (hR : R xs b) (h : ys.foldlM f b = some b') :
    R (xs ++ ys) b' := by
  induction ys generalizing xs b with
  | nil =>
    obtain rfl : b = b' := by simpa using h
    simpa using hR
  | cons y ys ih =>
    rw [List.foldlM_cons] at h
    obtain ⟨c, hc, h⟩ := Option.bind_eq_some_iff.1 h
    simpa using ih (hstep hR hc) h

theorem exists_foldlM (hstep : ∀ {xs b x b'}, R xs b → f b x = some b' → R (xs ++ [x]) b')
    {ys : List α} (hsome : ∀ xs x zs b, ys = xs ++ x :: zs → R xs b → ∃ b', f b x = some b')
    {b : β} (hR : R [] b) : ∃ b', ys.foldlM f b = some b' := by
  suffices h : ∀ zs xs b, ys = xs ++ zs → R xs b → ∃ b', zs.foldlM f b = some b' from
    h ys [] b rfl hR
  intro zs
  induction zs with
  | nil => exact fun _ b _ _ ↦ ⟨b, rfl⟩
  | cons z zs ih =>
    intro xs b hys hR
    obtain ⟨c, hc⟩ := hsome xs z zs b hys hR
    obtain ⟨b', hb'⟩ := ih (xs ++ [z]) c (by simpa using hys) (hstep hR hc)
    exact ⟨b', by rw [List.foldlM_cons, hc]; exact hb'⟩

end EnbL1Ppc.Lib.OptionFold
