import Mathlib.Data.List.Infix
import Mathlib.Logic.Function.Basic

/-!
# Regions within regions

A region is named by the way to it: `p ++ [k]` is the one that was made in `p` after `k`
others.  What is allocated in a region goes when the region is destroyed, or one around it.

    create p s      a new region in `p`
    alloc n p s     `n` blocks in `p`
    destroy p s     `p` is gone, and each region in it

`Made s` says that only regions that were made live, so a new one is none of them, and
`Held s holds` that those live which somebody holds, each held once.
-/

namespace NodeSvn

abbrev Region := List Nat

structure Regions where
  live : Region → Bool
  /-- how many regions were made in a region -/
  made : Region → Nat
  /-- how many blocks a region has -/
  blocks : Region → Nat

namespace Regions

def empty : Regions := ⟨fun _ => false, fun _ => 0, fun _ => 0⟩

/-- The region that `create` makes. -/
def fresh (p : Region) (s : Regions) : Region := p ++ [s.made p]

def create (p : Region) (s : Regions) : Regions where
  live := Function.update s.live (s.fresh p) true
  made := Function.update s.made p (s.made p + 1)
  blocks := Function.update s.blocks (s.fresh p) 0

def alloc (n : Nat) (p : Region) (s : Regions) : Regions :=
  { s with blocks := Function.update s.blocks p (s.blocks p + n) }

def destroy (p : Region) (s : Regions) : Regions where
  live := fun q => s.live q && !p.isPrefixOf q
  made := s.made
  blocks := fun q => if p.isPrefixOf q then 0 else s.blocks q

def destroyAll (ps : List Region) (s : Regions) : Regions := ps.foldl (fun s p => s.destroy p) s

structure Made (s : Regions) : Prop where
  made : ∀ p k, s.live (p ++ [k]) = true → k < s.made p
  /-- no region lives without the one around it -/
  around : ∀ p q, s.live (p ++ q) = true → p ≠ [] → s.live p = true

variable {s : Regions} {p q : Region} {n : Nat}

@[simp] theorem live_alloc : (s.alloc n p).live = s.live := rfl

@[simp] theorem made_alloc : (s.alloc n p).made = s.made := rfl

@[simp] theorem made_destroy : (s.destroy p).made = s.made := rfl

theorem blocks_alloc_self : (s.alloc n p).blocks p = s.blocks p + n := Function.update_self ..

theorem blocks_alloc_of_ne (h : q ≠ p) : (s.alloc n p).blocks q = s.blocks q :=
  Function.update_of_ne h ..

theorem live_create : (s.create p).live q = true ↔ q = s.fresh p ∨ s.live q = true := by
  show Function.update s.live (s.fresh p) true q = true ↔ _
  by_cases hq : q = s.fresh p
  · subst hq
    rw [Function.update_self]
    exact ⟨fun _ => .inl rfl, fun _ => rfl⟩
  · rw [Function.update_of_ne hq]
    exact ⟨.inr, fun h => h.resolve_left hq⟩

theorem made_create_self : (s.create p).made p = s.made p + 1 := Function.update_self ..

theorem made_create_of_ne (h : q ≠ p) : (s.create p).made q = s.made q :=
  Function.update_of_ne h ..

theorem blocks_create_of_ne (h : q ≠ s.fresh p) : (s.create p).blocks q = s.blocks q :=
  Function.update_of_ne h ..

theorem live_destroy : (s.destroy p).live q = true ↔ s.live q = true ∧ ¬ p <+: q := by
  show (s.live q && !p.isPrefixOf q) = true ↔ _
  rw [Bool.and_eq_true, Bool.not_eq_true', ← Bool.not_eq_true, List.isPrefixOf_iff_prefix]

theorem blocks_destroy_of_not_prefix (h : ¬ p <+: q) : (s.destroy p).blocks q = s.blocks q := by
  show (if p.isPrefixOf q then 0 else s.blocks q) = s.blocks q
  rw [if_neg (fun hp => h (List.isPrefixOf_iff_prefix.mp hp))]

theorem live_destroyAll {ps : List Region} :
    (s.destroyAll ps).live q = true ↔ s.live q = true ∧ ∀ p ∈ ps, ¬ p <+: q := by
  induction ps generalizing s with
  | nil => exact ⟨fun h => ⟨h, fun p hp => (by cases hp)⟩, fun h => h.1⟩
  | cons p ps ih =>
    show ((s.destroy p).destroyAll ps).live q = true ↔ _
    rw [ih, live_destroy, and_assoc, List.forall_mem_cons]

theorem blocks_destroyAll_of_not_prefix {ps : List Region} (h : ∀ p ∈ ps, ¬ p <+: q) :
    (s.destroyAll ps).blocks q = s.blocks q := by
  induction ps generalizing s with
  | nil => rfl
  | cons p ps ih =>
    rw [List.forall_mem_cons] at h
    show ((s.destroy p).destroyAll ps).blocks q = s.blocks q
    rw [ih h.2, blocks_destroy_of_not_prefix h.1]

theorem made_empty : Made empty := ⟨fun _ _ h => (by cases h), fun _ _ h _ => (by cases h)⟩

theorem Made.alloc (h : s.Made) : (s.alloc n p).Made := ⟨h.made, h.around⟩

/-- A new region is none of those that live. -/
theorem Made.not_live_fresh (h : s.Made) (p : Region) : s.live (s.fresh p) = false := by
  by_contra hlive
  exact Nat.lt_irrefl _ (h.made p (s.made p) (by simpa [fresh] using hlive))

theorem Made.create (h : s.Made) (hp : p = [] ∨ s.live p = true) : (s.create p).Made := by
  constructor
  · intro q k hlive
    rcases live_create.mp hlive with hq | hold
    · obtain ⟨rfl, hk⟩ := List.append_inj' hq rfl
      obtain rfl : k = s.made q := by simpa using hk
      rw [made_create_self]
      exact Nat.lt_succ_self _
    · have hlt := h.made q k hold
      by_cases hq : q = p
      · subst hq
        rw [made_create_self]
        omega
      · rw [made_create_of_ne hq]
        exact hlt
  · intro q r hlive hne
    rw [live_create]
    rcases live_create.mp hlive with hq | hold
    · rcases List.eq_nil_or_concat r with rfl | ⟨r', k, rfl⟩
      · rw [List.append_nil] at hq
        exact .inl hq
      · rw [List.concat_eq_append, ← List.append_assoc] at hq
        obtain ⟨hpre, -⟩ := List.append_inj' hq rfl
        right
        rcases hp with rfl | hp
        · exact absurd (List.append_eq_nil_iff.mp hpre).1 hne
        · exact h.around q r' (hpre ▸ hp) hne
    · exact .inr (h.around q r hold hne)

theorem Made.destroy (h : s.Made) : (s.destroy p).Made := by
  constructor
  · intro q k hlive
    exact h.made q k (live_destroy.mp hlive).1
  · intro q r hlive hne
    obtain ⟨hold, hnot⟩ := live_destroy.mp hlive
    refine live_destroy.mpr ⟨h.around q r hold hne, fun hpre => hnot ?_⟩
    exact hpre.trans (List.prefix_append q r)

theorem Made.destroyAll {ps : List Region} (h : s.Made) : (s.destroyAll ps).Made := by
  induction ps generalizing s with
  | nil => exact h
  | cons p ps ih =>
    show ((s.destroy p).destroyAll ps).Made
    exact ih h.destroy

/-! ## Who holds which region -/

structure Held {η : Type} (s : Regions) (holds : η → Region → Prop) : Prop where
  live_iff : ∀ p, s.live p = true ↔ ∃ k, holds k p
  once : ∀ k k' p, holds k p → holds k' p → k = k'

variable {η : Type} {holds holds' : η → Region → Prop} {s' : Regions} {k : η}

theorem Held.live (h : s.Held holds) (hp : holds k p) : s.live p = true :=
  (h.live_iff p).mpr ⟨k, hp⟩

theorem Held.congr (h : s.Held holds) (hlive : s'.live = s.live)
    (hholds : ∀ j q, holds' j q ↔ holds j q) : s'.Held holds' := by
  constructor
  · intro q
    rw [hlive, h.live_iff]
    exact exists_congr fun j => (hholds j q).symm
  · intro j j' q hj hj'
    exact h.once j j' q ((hholds j q).mp hj) ((hholds j' q).mp hj')

/-- A new region, which `k` holds. -/
theorem Held.create (h : s.Held holds) (hmade : s.Made)
    (hholds : ∀ j q, holds' j q ↔ holds j q ∨ (j = k ∧ q = s.fresh p)) :
    (s.create p).Held holds' := by
  have hfresh : ∀ j, ¬ holds j (s.fresh p) := by
    intro j hj
    have hlive := h.live hj
    rw [hmade.not_live_fresh p] at hlive
    cases hlive
  constructor
  · intro q
    rw [live_create, h.live_iff]
    constructor
    · rintro (rfl | ⟨j, hj⟩)
      · exact ⟨k, (hholds k _).mpr (.inr ⟨rfl, rfl⟩)⟩
      · exact ⟨j, (hholds j q).mpr (.inl hj)⟩
    · rintro ⟨j, hj⟩
      rcases (hholds j q).mp hj with hold | ⟨-, hq⟩
      · exact .inr ⟨j, hold⟩
      · exact .inl hq
  · intro j j' q hj hj'
    rcases (hholds j q).mp hj with hold | ⟨rfl, rfl⟩
    · rcases (hholds j' q).mp hj' with hold' | ⟨rfl, rfl⟩
      · exact h.once j j' q hold hold'
      · exact absurd hold (hfresh j)
    · rcases (hholds j' _).mp hj' with hold' | ⟨rfl, -⟩
      · exact absurd hold' (hfresh j')
      · rfl

/-- What `k` holds is destroyed, and nothing else. -/
theorem Held.drop (h : s.Held holds)
    (hlive : ∀ q, s'.live q = true ↔ s.live q = true ∧ ¬ holds k q)
    (hholds : ∀ j q, holds' j q ↔ holds j q ∧ j ≠ k) : s'.Held holds' := by
  constructor
  · intro q
    rw [hlive, h.live_iff]
    constructor
    · rintro ⟨⟨j, hj⟩, hnot⟩
      exact ⟨j, (hholds j q).mpr ⟨hj, fun hjk => hnot (hjk ▸ hj)⟩⟩
    · rintro ⟨j, hj⟩
      obtain ⟨hold, hne⟩ := (hholds j q).mp hj
      exact ⟨⟨j, hold⟩, fun hk => hne (h.once j k q hold hk)⟩
  · intro j j' q hj hj'
    exact h.once j j' q ((hholds j q).mp hj).1 ((hholds j' q).mp hj').1

end Regions

end NodeSvn
