import Mathlib.Logic.Function.Basic

/-!
# A store of blocks

Each block is allocated at an address of its own, and a block that was released cannot be
read:

    alloc v s     a new block that holds `v`
    release a s   the block at `a` is gone
    read s a      what the block at `a` holds
    Released s a  there was a block at `a`, and it is gone
    Keeps s t     `t` came from `s` by changes to blocks that `s` does not have

`Keeps` is the frame of a computation that allocates, and releases only what it allocated
itself.
-/

structure Store (α : Type) where
  blocks : Nat → Option α
  next : Nat
  unused : ∀ a, next ≤ a → blocks a = none

namespace Store

variable {α : Type} {s t u : Store α} {a b : Nat} {v : α}

def empty : Store α := ⟨fun _ => none, 0, fun _ _ => rfl⟩

def read (s : Store α) (a : Nat) : Option α := s.blocks a

def alloc (v : α) (s : Store α) : Nat × Store α :=
  (s.next, {
    blocks := Function.update s.blocks s.next (some v)
    next := s.next + 1
    unused := by
      intro a ha
      rw [Function.update_of_ne (by omega)]
      exact s.unused a (by omega) })

def release (a : Nat) (s : Store α) : Store α where
  blocks := Function.update s.blocks a none
  next := s.next
  unused := by
    intro b hb
    by_cases h : b = a
    · rw [h, Function.update_self]
    · rw [Function.update_of_ne h]
      exact s.unused b hb

@[simp] theorem alloc_fst : (s.alloc v).1 = s.next := rfl

@[simp] theorem alloc_next : (s.alloc v).2.next = s.next + 1 := rfl

@[simp] theorem release_next : (s.release a).next = s.next := rfl

@[simp] theorem read_alloc_self : (s.alloc v).2.read s.next = some v :=
  Function.update_self ..

theorem read_alloc_of_ne (h : a ≠ s.next) : (s.alloc v).2.read a = s.read a :=
  Function.update_of_ne h ..

@[simp] theorem read_release_self : (s.release a).read a = none :=
  Function.update_self ..

theorem read_release_of_ne (h : b ≠ a) : (s.release a).read b = s.read b :=
  Function.update_of_ne h ..

theorem release_comm : (s.release a).release b = (s.release b).release a := by
  by_cases h : a = b
  · rw [h]
  · simp only [release, Function.update_comm h]

/-! ## What is gone -/

def Released (s : Store α) (a : Nat) : Prop := a < s.next ∧ s.read a = none

theorem lt_next_of_read (h : s.read a = some v) : a < s.next := by
  by_contra hle
  rw [read, s.unused a (by omega)] at h
  cases h

theorem released_alloc : (s.alloc v).2.Released a ↔ s.Released a := by
  unfold Released
  by_cases h : a = s.next
  · subst h
    simp
  · rw [read_alloc_of_ne h, alloc_next]
    have hlt : a < s.next + 1 ↔ a < s.next := by omega
    rw [hlt]

theorem released_release (h : a < s.next) :
    (s.release a).Released b ↔ b = a ∨ s.Released b := by
  unfold Released
  by_cases hb : b = a
  · subst hb
    simp [h]
  · rw [read_release_of_ne hb, release_next]
    simp [hb]

/-! ## The frame of a computation -/

structure Keeps (s t : Store α) : Prop where
  next : s.next ≤ t.next
  read : ∀ a, a < s.next → t.read a = s.read a

theorem Keeps.refl (s : Store α) : s.Keeps s := ⟨Nat.le_refl _, fun _ _ => rfl⟩

theorem Keeps.trans (h : s.Keeps t) (k : t.Keeps u) : s.Keeps u where
  next := Nat.le_trans h.next k.next
  read a ha := by rw [k.read a (Nat.lt_of_lt_of_le ha h.next), h.read a ha]

/-- What can be read stays. -/
theorem Keeps.read_some (h : s.Keeps t) (hv : s.read a = some v) : t.read a = some v := by
  by_cases ha : a < s.next
  · rw [h.read a ha, hv]
  · have hnone : s.read a = none := s.unused a (by omega)
    rw [hnone] at hv
    cases hv

theorem Keeps.alloc (h : s.Keeps t) (v : α) : s.Keeps (t.alloc v).2 where
  next := Nat.le_succ_of_le h.next
  read a ha := by
    have hlt : a < t.next := Nat.lt_of_lt_of_le ha h.next
    rw [read_alloc_of_ne (Nat.ne_of_lt hlt), h.read a ha]

/-- A block that `s` does not have may be released. -/
theorem Keeps.release (h : s.Keeps t) (ha : s.next ≤ a) : s.Keeps (t.release a) where
  next := h.next
  read b hb := by
    have hne : b ≠ a := by omega
    rw [read_release_of_ne hne, h.read b hb]

end Store
