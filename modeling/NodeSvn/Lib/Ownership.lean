import Mathlib.Data.Set.Basic
import Mathlib.Logic.Relation

/-!
# Ownership graphs

Objects own each other, some are held from outside, and an object is freed only when no
living object owns it and nothing holds it:

    Releasable x     `x` may be freed
    Releases g g'    `g'` is left when some objects were freed, one after the other
    Keeps x y        there is a chain of living owners from `x` to `y`
    SelfOwned S      the members of `S` live and have an owner in `S`

Counting owners frees no cycle: a self-owned set survives every sequence of releases
(`SelfOwned.releases`).
-/

structure Ownership (Obj : Type) where
  alive : Obj → Prop
  /-- held from outside -/
  root : Obj → Prop
  owns : Obj → Obj → Prop

namespace Ownership

variable {Obj : Type} {g g' : Ownership Obj} {S : Set Obj} {x y : Obj}

def Releasable (g : Ownership Obj) (x : Obj) : Prop :=
  g.alive x ∧ ¬ g.root x ∧ ∀ y, g.alive y → ¬ g.owns y x

def release (g : Ownership Obj) (x : Obj) : Ownership Obj :=
  { g with alive := fun y => g.alive y ∧ y ≠ x }

inductive Releases (g : Ownership Obj) : Ownership Obj → Prop
  | refl : Releases g g
  | step {g' : Ownership Obj} (h : Releases g g') (x : Obj) (hx : g'.Releasable x) :
    Releases g (g'.release x)

def Keeps (g : Ownership Obj) : Obj → Obj → Prop :=
  Relation.ReflTransGen fun x y => g.alive x ∧ g.owns x y

structure SelfOwned (g : Ownership Obj) (S : Set Obj) : Prop where
  alive : ∀ x ∈ S, g.alive x
  owner : ∀ x ∈ S, ∃ y ∈ S, g.owns y x

theorem SelfOwned.not_releasable (h : g.SelfOwned S) (hx : x ∈ S) : ¬ g.Releasable x := by
  rintro ⟨-, -, hnone⟩
  obtain ⟨y, hy, howns⟩ := h.owner x hx
  exact hnone y (h.alive y hy) howns

theorem SelfOwned.release (h : g.SelfOwned S) (hx : g.Releasable x) :
    (g.release x).SelfOwned S where
  alive y hy := ⟨h.alive y hy, fun he => h.not_releasable (he ▸ hy) hx⟩
  owner := h.owner

/-- **Cycles of owners are not freed.** -/
theorem SelfOwned.releases (h : g.SelfOwned S) (hg : g.Releases g') : g'.SelfOwned S := by
  induction hg with
  | refl => exact h
  | step _ x hx ih => exact ih.release hx

end Ownership
