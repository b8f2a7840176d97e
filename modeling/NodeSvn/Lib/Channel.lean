import NodeSvn.Lib.Machine

/-!
# A synchronous channel with one place

What a producer sends is received in order, and at most one element is between the two:

    offer    the next element goes into the empty place
    accept   the receiver takes it from there
    pass     the next element goes to the receiver at once

`Channel.flow` accounts for every element; `Channel.received_prefix` is what a receiver may
rely on.
-/

namespace NodeSvn

structure Channel (β : Type) where
  received : List β
  place : Option β
  todo : List β

inductive ChannelStep where
  | offer
  | accept
  | pass
  deriving DecidableEq, Repr

namespace Channel

variable {β : Type} {d d' : Channel β} {xs : List β}

def step (d : Channel β) : ChannelStep → Option (Channel β)
  | .offer =>
    match d.place, d.todo with
    | none, x :: todo => some { d with place := some x, todo := todo }
    | _, _ => none
  | .accept => d.place.map fun x => { d with received := d.received ++ [x], place := none }
  | .pass =>
    match d.place, d.todo with
    | none, x :: todo => some { d with received := d.received ++ [x], todo := todo }
    | _, _ => none

end Channel

/-- The channel over which `xs` is to be sent. -/
def channel {β : Type} (xs : List β) : Machine (Channel β) ChannelStep where
  init := ⟨[], none, xs⟩
  step := Channel.step

namespace Channel

variable {β : Type} {d d' : Channel β} {xs : List β}

/-- Every element, in the order in which it was to be sent. -/
def all (d : Channel β) : List β := d.received ++ d.place.toList ++ d.todo

theorem all_step {k : ChannelStep} (h : d.step k = some d') : d'.all = d.all := by
  cases d with
  | mk received place todo =>
    cases k with
    | offer =>
      cases place <;> cases todo <;> simp only [step, reduceCtorEq, Option.some.injEq] at h
      subst h
      simp [all]
    | accept =>
      cases place <;> simp only [step, Option.map_none, Option.map_some, reduceCtorEq,
        Option.some.injEq] at h
      subst h
      simp [all]
    | pass =>
      cases place <;> cases todo <;> simp only [step, reduceCtorEq, Option.some.injEq] at h
      subst h
      simp [all]

/-- What was received stays. -/
theorem received_step {k : ChannelStep} (h : d.step k = some d') : d.received <+: d'.received := by
  cases d with
  | mk received place todo =>
    cases k with
    | offer =>
      cases place <;> cases todo <;> simp only [step, reduceCtorEq, Option.some.injEq] at h
      subst h
      exact List.prefix_refl received
    | accept =>
      cases place <;> simp only [step, Option.map_none, Option.map_some, reduceCtorEq,
        Option.some.injEq] at h
      subst h
      exact List.prefix_append received _
    | pass =>
      cases place <;> cases todo <;> simp only [step, reduceCtorEq, Option.some.injEq] at h
      subst h
      exact List.prefix_append received _

/-- **Nothing is lost, repeated or reordered.** -/
theorem flow (h : (channel xs).Reachable d) : d.received ++ d.place.toList ++ d.todo = xs :=
  h.invariant (I := fun d => d.all = xs) rfl fun _ _ _ hi hs => (all_step hs).trans hi

theorem received_prefix (h : (channel xs).Reachable d) : d.received <+: xs := by
  rw [← flow h, List.append_assoc]
  exact List.prefix_append _ _

end Channel

end NodeSvn
