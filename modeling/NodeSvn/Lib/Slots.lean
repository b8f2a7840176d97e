import Mathlib.Logic.Function.Basic

/-!
# A family of optional entries, one of which changes

`Function.update f i x` is the family `f` after the entry of `i` became `x`: an entry of it is
the new one, or an old one of another index.
-/

namespace NodeSvn

variable {ι α : Type} [DecidableEq ι] {f : ι → Option α} {i j : ι} {x : Option α} {a : α}

theorem update_eq_some_iff :
    Function.update f i x j = some a ↔ (j = i ∧ x = some a) ∨ (j ≠ i ∧ f j = some a) := by
  by_cases hj : j = i
  · subst hj
    rw [Function.update_self]
    simp
  · rw [Function.update_of_ne hj]
    simp [hj]

/-- A law of each entry is a law of the new one and of the others. -/
theorem forall_update_iff {P : ι → α → Prop} :
    (∀ j a, Function.update f i x j = some a → P j a) ↔
      (∀ a, x = some a → P i a) ∧ ∀ j a, j ≠ i → f j = some a → P j a := by
  constructor
  · intro h
    exact ⟨fun a ha => h i a (update_eq_some_iff.mpr (.inl ⟨rfl, ha⟩)),
      fun j a hj ha => h j a (update_eq_some_iff.mpr (.inr ⟨hj, ha⟩))⟩
  · rintro ⟨hnew, hold⟩ j a ha
    rcases update_eq_some_iff.mp ha with ⟨rfl, hx⟩ | ⟨hj, hf⟩
    · exact hnew a hx
    · exact hold j a hj hf

end NodeSvn
