import Mathlib.Data.List.Basic

/-!
# Shared pointers

The object behind a shared pointer lives as long as there is a copy.  A copy is named by who
keeps it:

    copy k p     `k` has a copy, too
    move k l p   the copy of `k` is `l`'s now
    drop k p     `k` gives its copy up
    Dead p       that was the last one

Who drops a copy while somebody else keeps one does not destroy the object
(`not_dead_drop`).
-/

structure SharedPtr (κ : Type) where
  holders : List κ
  deriving DecidableEq, Repr

namespace SharedPtr

variable {κ : Type}

def make (k : κ) : SharedPtr κ := ⟨[k]⟩

def copy (k : κ) (p : SharedPtr κ) : SharedPtr κ := ⟨k :: p.holders⟩

def Dead (p : SharedPtr κ) : Prop := p.holders = []

theorem mem_copy {p : SharedPtr κ} {k m : κ} (h : m ∈ p.holders) : m ∈ (p.copy k).holders :=
  List.mem_cons_of_mem _ h

variable [DecidableEq κ]

def drop (k : κ) (p : SharedPtr κ) : SharedPtr κ := ⟨p.holders.erase k⟩

def move (k l : κ) (p : SharedPtr κ) : SharedPtr κ := (p.drop k).copy l

instance (p : SharedPtr κ) : Decidable p.Dead := inferInstanceAs (Decidable (_ = _))

theorem mem_drop {p : SharedPtr κ} {k m : κ} (h : m ∈ p.holders) (hne : m ≠ k) :
    m ∈ (p.drop k).holders :=
  (List.mem_erase_of_ne hne).mpr h

/-- Somebody else keeps a copy. -/
theorem not_dead_drop {p : SharedPtr κ} {k m : κ} (h : m ∈ p.holders) (hne : m ≠ k) :
    ¬ (p.drop k).Dead :=
  List.ne_nil_of_mem (mem_drop h hne)

end SharedPtr
