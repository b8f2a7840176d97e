import Mathlib.Data.List.Induction

/-!
# Machines: partial step functions and their runs

A machine has one initial state and a partial step function; every choice (of a
thread, of the environment, of a callback's outcome) is in the label.  So a run
is a list of labels, and it can be evaluated.

    Reachable s     some run ends in s
    Meets c s ls    every step of the run `ls` from `s` meets the condition `c`
    Always P s ls   `P` holds in every state the run passes through

`Reachable.invariant` is the invariant rule, `Meets.invariant` the same rule for
the runs whose steps all meet a condition, `always_iff_meets` its converse where a step
that does not meet it breaks `P`, `run_length_le` bounds a run by a measure, `exists_run` finds
one by a measure, and `Refinement.reachable` carries reachability to an abstract machine
(stuttering allowed).
`Simulation.run` does so for whole runs, where the two states are only related, and counts
the steps of the run by those of the other machine and a rank.  `exists_path` compares what a
run shows, step by step, with the paths of a specification.
-/

structure Machine (σ ℓ : Type) where
  init : σ
  step : σ → ℓ → Option σ

namespace Machine

variable {σ ℓ τ κ : Type}

/-- The state after the labels `ls`; `none` if one of them is not enabled. -/
def run (M : Machine σ ℓ) : σ → List ℓ → Option σ
  | s, [] => some s
  | s, l :: ls => (M.step s l).bind fun s' => M.run s' ls

def Reachable (M : Machine σ ℓ) (s : σ) : Prop := ∃ ls, M.run M.init ls = some s

def Enabled (M : Machine σ ℓ) (s : σ) (l : ℓ) : Prop := (M.step s l).isSome = true

instance (M : Machine σ ℓ) (s : σ) (l : ℓ) : Decidable (M.Enabled s l) :=
  inferInstanceAs (Decidable (_ = true))

def Meets (M : Machine σ ℓ) (c : σ → ℓ → Prop) : σ → List ℓ → Prop
  | _, [] => True
  | s, l :: ls => c s l ∧ ∀ s', M.step s l = some s' → M.Meets c s' ls

instance instDecidableMeets (M : Machine σ ℓ) (c : σ → ℓ → Prop) [∀ s l, Decidable (c s l)] :
    ∀ (ls : List ℓ) (s : σ), Decidable (M.Meets c s ls)
  | [], _ => isTrue trivial
  | l :: ls, s =>
    match h : M.step s l with
    | none => decidable_of_iff (c s l) (by simp [Meets, h])
    | some s' =>
      have : Decidable (M.Meets c s' ls) := instDecidableMeets M c ls s'
      decidable_of_iff (c s l ∧ M.Meets c s' ls) (by simp [Meets, h])

def Always (M : Machine σ ℓ) (P : σ → Prop) : σ → List ℓ → Prop
  | s, [] => P s
  | s, l :: ls => P s ∧ ∀ s', M.step s l = some s' → M.Always P s' ls

variable {M : Machine σ ℓ} {s t u : σ} {l : ℓ} {ls ms : List ℓ}

@[simp] theorem run_nil : M.run s [] = some s := rfl

theorem run_cons : M.run s (l :: ls) = (M.step s l).bind fun s' => M.run s' ls := rfl

theorem run_of_step (h : M.step s l = some t) : M.run s (l :: ls) = M.run t ls := by
  rw [run_cons, h]
  rfl

theorem run_append : M.run s (ls ++ ms) = (M.run s ls).bind fun s' => M.run s' ms := by
  induction ls generalizing s with
  | nil => rfl
  | cons l ls ih =>
    rw [List.cons_append, run_cons, run_cons]
    cases M.step s l with
    | none => rfl
    | some s' => exact ih

theorem run_snoc :
    M.run s (ls ++ [l]) = some u ↔ ∃ t, M.run s ls = some t ∧ M.step t l = some u := by
  rw [run_append, Option.bind_eq_some_iff]
  constructor
  · rintro ⟨t, ht, hu⟩
    refine ⟨t, ht, ?_⟩
    rw [run_cons] at hu
    obtain ⟨v, hv, hvu⟩ := Option.bind_eq_some_iff.mp hu
    rw [hv, ← hvu, run_nil]
  · rintro ⟨t, ht, hu⟩
    exact ⟨t, ht, by rw [run_cons, hu]; rfl⟩

/-! ## Reachability and invariants -/

theorem Reachable.refl : M.Reachable M.init := ⟨[], rfl⟩

theorem Reachable.step (hs : M.Reachable s) (h : M.step s l = some t) : M.Reachable t := by
  obtain ⟨ls, hls⟩ := hs
  exact ⟨ls ++ [l], run_snoc.mpr ⟨s, hls, h⟩⟩

theorem Reachable.run (hs : M.Reachable s) (h : M.run s ls = some t) : M.Reachable t := by
  obtain ⟨ms, hms⟩ := hs
  exact ⟨ms ++ ls, by rw [run_append, hms]; exact h⟩

/-- Induction on a run, one step at its end. -/
theorem run_induction {P : List ℓ → σ → Prop} (h0 : P [] s)
    (hstep : ∀ ls t l u, M.run s ls = some t → P ls t → M.step t l = some u → P (ls ++ [l]) u) :
    ∀ ls t, M.run s ls = some t → P ls t := by
  intro ls
  induction ls using List.reverseRecOn with
  | nil =>
    intro t h
    rw [run_nil, Option.some.injEq] at h
    exact h ▸ h0
  | append_singleton ls l ih =>
    intro u h
    obtain ⟨t, ht, hu⟩ := run_snoc.mp h
    exact hstep ls t l u ht (ih t ht) hu

theorem run_invariant {I : σ → Prop} (hs : I s)
    (hstep : ∀ s l s', I s → M.step s l = some s' → I s') (h : M.run s ls = some t) : I t :=
  run_induction (P := fun _ t => I t) hs (fun _ t l u _ ht hu => hstep t l u ht hu) ls t h

/-- **The invariant rule.** -/
theorem Reachable.invariant {I : σ → Prop} (h0 : I M.init)
    (hstep : ∀ s l s', I s → M.step s l = some s' → I s') (hs : M.Reachable s) : I s := by
  obtain ⟨ls, hls⟩ := hs
  exact run_invariant h0 hstep hls

/-- The invariant rule where a step may use that its source is reachable. -/
theorem Reachable.strongInvariant {I : σ → Prop} (h0 : I M.init)
    (hstep : ∀ s l s', M.Reachable s → I s → M.step s l = some s' → I s')
    (hs : M.Reachable s) : I s :=
  (hs.invariant (I := fun s => M.Reachable s ∧ I s) ⟨.refl, h0⟩
    fun s l s' h hs' => ⟨h.1.step hs', hstep s l s' h.1 h.2 hs'⟩).2

/-! ## Runs under a condition -/

theorem meets_snoc {c : σ → ℓ → Prop} (h : M.run s ls = some t) :
    M.Meets c s (ls ++ [l]) ↔ M.Meets c s ls ∧ c t l := by
  induction ls generalizing s with
  | nil =>
    rw [run_nil, Option.some.injEq] at h
    subst h
    simp [Meets]
  | cons k ls ih =>
    rw [run_cons] at h
    obtain ⟨v, hv, hvt⟩ := Option.bind_eq_some_iff.mp h
    simp only [List.cons_append, Meets, hv, Option.some.injEq, forall_eq', ih hvt, and_assoc]

theorem always_snoc {P : σ → Prop} (h : M.run s ls = some t) (hu : M.step t l = some u) :
    M.Always P s (ls ++ [l]) ↔ M.Always P s ls ∧ P u := by
  induction ls generalizing s with
  | nil =>
    rw [run_nil, Option.some.injEq] at h
    subst h
    simp [Always, hu]
  | cons k ls ih =>
    rw [run_cons] at h
    obtain ⟨v, hv, hvt⟩ := Option.bind_eq_some_iff.mp h
    simp only [List.cons_append, Always, hv, Option.some.injEq, forall_eq', ih hvt, and_assoc]

theorem Meets.of_forall {c : σ → ℓ → Prop} (h : ∀ l ∈ ls, ∀ s, c s l) : M.Meets c s ls := by
  induction ls generalizing s with
  | nil => trivial
  | cons l ls ih =>
    rw [List.forall_mem_cons] at h
    exact ⟨h.1 s, fun s' _ => ih h.2⟩

/-- **The invariant rule under a condition.**  `I` need only survive the steps that
meet `c`. -/
theorem Meets.invariant {c : σ → ℓ → Prop} {I : σ → Prop} (hs : I s)
    (hstep : ∀ s l s', I s → c s l → M.step s l = some s' → I s')
    (hc : M.Meets c s ls) (h : M.run s ls = some t) : I t := by
  refine run_induction (P := fun ls t => M.Meets c s ls → I t) (fun _ => hs) ?_ ls t h hc
  intro ls t l u hr ih hu hm
  rw [meets_snoc hr] at hm
  exact hstep t l u (ih hm.1) hm.2 hu

/-- If, under `I`, a step keeps `P` exactly if it meets `c`, then `P` holds all along a run
exactly if each of its steps meets `c`. -/
theorem always_iff_meets {P I : σ → Prop} {c : σ → ℓ → Prop} (hI : I s) (hP : P s)
    (hstep : ∀ s l t, I s → P s → M.step s l = some t → (P t ↔ c s l) ∧ (P t → I t))
    (h : M.run s ls = some t) : M.Always P s ls ↔ M.Meets c s ls := by
  refine (run_induction (P := fun ls t => (M.Always P s ls ↔ M.Meets c s ls) ∧
    (M.Always P s ls → I t ∧ P t)) ⟨by simp [Always, Meets, hP], fun _ => ⟨hI, hP⟩⟩ ?_ ls t h).1
  rintro ls t l u hr ⟨ih, hend⟩ hu
  rw [always_snoc hr hu, meets_snoc hr, ← ih]
  refine ⟨and_congr_right fun ha => ?_, fun ⟨ha, hPu⟩ => ?_⟩
  · obtain ⟨hIt, hPt⟩ := hend ha
    exact (hstep t l u hIt hPt hu).1
  · obtain ⟨hIt, hPt⟩ := hend ha
    exact ⟨(hstep t l u hIt hPt hu).2 hPu, hPu⟩

/-! ## Bounded runs -/

/-- If every step lowers the measure, a run is no longer than the measure of its start. -/
theorem run_length_le {I : σ → Prop} (μ : σ → Nat)
    (hstep : ∀ s l s', I s → M.step s l = some s' → I s' ∧ μ s' < μ s)
    (hs : I s) (h : M.run s ls = some t) : ls.length + μ t ≤ μ s := by
  refine (run_induction (P := fun ls t => I t ∧ ls.length + μ t ≤ μ s) ⟨hs, by simp⟩ ?_ ls t h).2
  rintro ls t l u - ⟨ht, hle⟩ hu
  obtain ⟨hI, hlt⟩ := hstep t l u ht hu
  refine ⟨hI, ?_⟩
  rw [List.length_append, List.length_singleton]
  omega

/-- If the steps with a label of `p` lower the measure and the others do not raise it, a run has
no more labels of `p` than the measure of its start. -/
theorem run_countP_le {I : σ → Prop} (μ : σ → Nat) (p : ℓ → Bool)
    (hstep : ∀ s l s', I s → M.step s l = some s' →
      I s' ∧ μ s' + (if p l then 1 else 0) ≤ μ s)
    (hs : I s) (h : M.run s ls = some t) : ls.countP p + μ t ≤ μ s := by
  refine (run_induction (P := fun ls t => I t ∧ ls.countP p + μ t ≤ μ s) ⟨hs, by simp⟩ ?_ ls t
    h).2
  rintro ls t l u - ⟨ht, hle⟩ hu
  obtain ⟨hI, hlt⟩ := hstep t l u ht hu
  refine ⟨hI, ?_⟩
  rw [List.countP_append, List.countP_singleton]
  omega

/-- If a step gets closer wherever `P` does not hold, then a run gets to where it holds. -/
theorem exists_run {I P : σ → Prop} (μ : σ → Nat)
    (hstep : ∀ s, I s → P s ∨ ∃ l t, M.step s l = some t ∧ I t ∧ μ t < μ s) (hs : I s) :
    ∃ ls t, M.run s ls = some t ∧ P t := by
  induction hn : μ s using Nat.strongRecOn generalizing s with
  | ind n ih =>
    rcases hstep s hs with hP | ⟨l, t, ht, hI, hlt⟩
    · exact ⟨[], s, rfl, hP⟩
    · obtain ⟨ls, u, hu, hPu⟩ := ih (μ t) (hn ▸ hlt) hI rfl
      exact ⟨l :: ls, u, (run_of_step ht).trans hu, hPu⟩

/-! ## Refinement -/

/-- `M` refines `A`: under `I`, a step of `M` is a step of `A` or leaves the abstract
state as it is. -/
structure Refinement (M : Machine σ ℓ) (A : Machine τ κ) (I : σ → Prop) where
  abs : σ → τ
  init : abs M.init = A.init
  step : ∀ s l s', I s → M.step s l = some s' →
    abs s' = abs s ∨ ∃ k, A.step (abs s) k = some (abs s')

theorem Refinement.reachable {A : Machine τ κ} {I : σ → Prop} (R : Refinement M A I)
    (hI : ∀ s, M.Reachable s → I s) (hs : M.Reachable s) : A.Reachable (R.abs s) := by
  refine hs.strongInvariant (I := fun s => A.Reachable (R.abs s)) ?_ ?_
  · rw [R.init]
    exact .refl
  · intro s l s' hr ha h
    rcases R.step s l s' (hI s hr) h with he | ⟨k, hk⟩
    · rw [he]
      exact ha
    · exact ha.step hk

/-! ## Simulation -/

/-- `A` simulates `M` along `R`: it follows each step of `M`, or stays where it is, and then
`rank` falls. -/
structure Simulation (M : Machine σ ℓ) (A : Machine τ κ) (R : σ → τ → Prop) (rank : σ → Nat) :
    Prop where
  init : R M.init A.init
  step : ∀ s t l s', A.Reachable t → R s t → M.step s l = some s' →
    (R s' t ∧ rank s' < rank s) ∨ ∃ k t', A.step t k = some t' ∧ R s' t' ∧ rank s' ≤ rank s

theorem Simulation.run {A : Machine τ κ} {R : σ → τ → Prop} {rank : σ → Nat}
    (S : Simulation M A R rank) (h : M.run M.init ls = some s) :
    ∃ ks t, A.run A.init ks = some t ∧ R s t ∧
      ls.length + rank s ≤ ks.length + rank M.init := by
  refine run_induction (P := fun ls s => ∃ ks t, A.run A.init ks = some t ∧ R s t ∧
    ls.length + rank s ≤ ks.length + rank M.init) ⟨[], A.init, rfl, S.init, by simp⟩ ?_ ls s h
  rintro ls s l s' - ⟨ks, t, ht, hR, hlen⟩ hs
  rw [List.length_append, List.length_singleton]
  rcases S.step s t l s' ⟨ks, ht⟩ hR hs with ⟨hR', hrank⟩ | ⟨k, t', hk, hR', hrank⟩
  · exact ⟨ks, t, ht, hR', by omega⟩
  · refine ⟨ks ++ [k], t', run_snoc.mpr ⟨t, ht, hk⟩, hR', ?_⟩
    rw [List.length_append, List.length_singleton]
    omega

/-! ## What a run shows -/

/-- The events of a run; a step has one or none. -/
def shows (M : Machine σ ℓ) (event : σ → ℓ → Option κ) : σ → List ℓ → List κ
  | _, [] => []
  | s, l :: ls => (event s l).toList ++ ((M.step s l).map fun t => M.shows event t ls).getD []

theorem shows_snoc {event : σ → ℓ → Option κ} (h : M.run s ls = some t) :
    M.shows event s (ls ++ [l]) = M.shows event s ls ++ (event t l).toList := by
  induction ls generalizing s with
  | nil =>
    rw [run_nil, Option.some.injEq] at h
    subst h
    cases hs : M.step s l <;> simp [shows, hs]
  | cons k ls ih =>
    rw [run_cons] at h
    obtain ⟨v, hv, hvt⟩ := Option.bind_eq_some_iff.mp h
    simp only [List.cons_append, shows, hv, Option.map_some, Option.getD_some, ih hvt,
      List.append_assoc]

/-- A path of a specification. -/
inductive Path (next : τ → κ → τ → Prop) (a : τ) : List κ → τ → Prop
  | nil : Path next a [] a
  | snoc {ks : List κ} {b c : τ} {k : κ} (h : Path next a ks b) (hk : next b k c) :
    Path next a (ks ++ [k]) c

/-- **Trace inclusion.**  If each step shows nothing, or what the specification can do next, then
a run shows a path of the specification. -/
theorem exists_path {event : σ → ℓ → Option κ} {next : τ → κ → τ → Prop} {R : σ → τ → Prop}
    {a : τ} (h0 : R s a)
    (hstep : ∀ t b l u, R t b → M.step t l = some u →
      (event t l = none ∧ R u b) ∨ ∃ k c, event t l = some k ∧ next b k c ∧ R u c)
    (h : M.run s ls = some t) : ∃ b, Path next a (M.shows event s ls) b ∧ R t b := by
  refine run_induction (P := fun ls t => ∃ b, Path next a (M.shows event s ls) b ∧ R t b)
    ⟨a, .nil, h0⟩ ?_ ls t h
  rintro ls t l u hr ⟨b, hb, hR⟩ hu
  rw [shows_snoc hr]
  rcases hstep t b l u hR hu with ⟨hnone, hR'⟩ | ⟨k, c, hsome, hk, hR'⟩
  · rw [hnone, Option.toList_none, List.append_nil]
    exact ⟨b, hb, hR'⟩
  · rw [hsome, Option.toList_some]
    exact ⟨c, hb.snoc hk, hR'⟩

end Machine
