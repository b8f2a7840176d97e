/-!
# Programs with probes

A program that may throw is run with a log of the calls it makes:

    note c        the call `c` is logged
    plain x       a part of the program, as it is
    Erases x y    without its probes `x` is `y`

Throwing keeps the log, as it keeps the state.
-/

structure Probed (σ κ : Type) where
  state : σ
  calls : List κ

abbrev ProbeM (ε σ κ : Type) := EStateM ε (Probed σ κ)

namespace ProbeM

variable {ε σ κ α β : Type}

def note (c : κ) : ProbeM ε σ κ Unit := modify fun p => { p with calls := p.calls ++ [c] }

def plain (x : EStateM ε σ α) : ProbeM ε σ κ α := fun p =>
  match x.run p.state with
  | .ok a s => .ok a { p with state := s }
  | .error e s => .error e { p with state := s }

@[simp] theorem run_note (c : κ) (p : Probed σ κ) :
    (note c : ProbeM ε σ κ Unit).run p = .ok () { p with calls := p.calls ++ [c] } := rfl

@[simp] theorem run_plain (x : EStateM ε σ α) (p : Probed σ κ) :
    (plain x).run p = match x.run p.state with
      | .ok a s => .ok a { p with state := s }
      | .error e s => .error e { p with state := s } := rfl

/-- Without the log. -/
def erase : EStateM.Result ε (Probed σ κ) α → EStateM.Result ε σ α
  | .ok a p => .ok a p.state
  | .error e p => .error e p.state

def Erases (x : ProbeM ε σ κ α) (y : EStateM ε σ α) : Prop := ∀ p, erase (x.run p) = y.run p.state

theorem Erases.pure (a : α) : Erases (pure a : ProbeM ε σ κ α) (pure a) := fun _ => rfl

/-- What follows is not run. -/
theorem Erases.throw_bind (e : ε) (f : α → ProbeM ε σ κ β) (g : α → EStateM ε σ β) :
    Erases (throw e >>= f) (throw e >>= g) := fun _ => rfl

theorem Erases.plain (x : EStateM ε σ α) : Erases (plain x : ProbeM ε σ κ α) x := by
  intro p
  rw [run_plain]
  cases x.run p.state <;> rfl

theorem Erases.bind {x : ProbeM ε σ κ α} {y : EStateM ε σ α} {f : α → ProbeM ε σ κ β}
    {g : α → EStateM ε σ β} (hx : Erases x y) (hf : ∀ a, Erases (f a) (g a)) :
    Erases (x >>= f) (y >>= g) := by
  intro p
  have h := hx p
  unfold EStateM.run at h
  show erase (EStateM.bind x f p) = EStateM.bind y g p.state
  unfold EStateM.bind
  rw [← h]
  cases hxp : x p with
  | ok a q => exact hf a q
  | error e q => rfl

/-- A probe leaves no trace. -/
theorem Erases.note_bind (c : κ) {x : ProbeM ε σ κ α} {y : EStateM ε σ α} (h : Erases x y) :
    Erases (note c >>= fun _ => x) y :=
  fun p => h { p with calls := p.calls ++ [c] }

theorem Erases.ite {c : Prop} [Decidable c] {x x' : ProbeM ε σ κ α} {y y' : EStateM ε σ α}
    (h : Erases x y) (h' : Erases x' y') : Erases (if c then x else x') (if c then y else y') := by
  split
  · exact h
  · exact h'

end ProbeM
