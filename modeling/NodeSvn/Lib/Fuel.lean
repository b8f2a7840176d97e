/-!
# Computations that need not end

    step s = .inl t    goes on from t
    step s = .inr r    is over, with the result r

`runFor` takes a number of steps at most, so it is total; `Diverges` says that no number of
steps is enough.
-/

namespace NodeSvn

variable {σ ρ : Type} {step : σ → σ ⊕ ρ} {s t : σ} {r : ρ} {n : Nat}

def runFor (step : σ → σ ⊕ ρ) : Nat → σ → Option ρ
  | 0, _ => none
  | n + 1, s =>
    match step s with
    | .inl t => runFor step n t
    | .inr r => some r

def Diverges (step : σ → σ ⊕ ρ) (s : σ) : Prop := ∀ n, runFor step n s = none

theorem runFor_next (h : step s = .inl t) : runFor step (n + 1) s = runFor step n t := by
  simp only [runFor, h]

theorem runFor_done (h : step s = .inr r) : runFor step (n + 1) s = some r := by
  simp only [runFor, h]

/-- More steps than it takes change nothing. -/
theorem runFor_mono {m : Nat} (h : runFor step n s = some r) (hle : n ≤ m) :
    runFor step m s = some r := by
  induction n generalizing s m with
  | zero => cases h
  | succ n ih =>
    obtain ⟨m, rfl⟩ : ∃ k, m = k + 1 := ⟨m - 1, by omega⟩
    cases hstep : step s with
    | inl t =>
      rw [runFor_next hstep] at h ⊢
      exact ih h (by omega)
    | inr r' =>
      rw [runFor_done hstep] at h ⊢
      exact h

theorem diverges_next (h : step s = .inl t) : Diverges step s ↔ Diverges step t := by
  constructor
  · intro hs n
    have hn := hs (n + 1)
    rwa [runFor_next h] at hn
  · intro ht n
    cases n with
    | zero => rfl
    | succ n => rw [runFor_next h, ht n]

theorem not_diverges_done (h : step s = .inr r) : ¬ Diverges step s := by
  intro hs
  have hn := hs 1
  rw [runFor_done h] at hn
  cases hn

/-- What stays in a set of states that all go on never ends. -/
theorem diverges_of_invariant (I : σ → Prop) (hI : ∀ s, I s → ∃ t, step s = .inl t ∧ I t)
    (hs : I s) : Diverges step s := by
  intro n
  induction n generalizing s with
  | zero => rfl
  | succ n ih =>
    obtain ⟨t, ht, hIt⟩ := hI s hs
    rw [runFor_next ht]
    exact ih hIt

end NodeSvn
