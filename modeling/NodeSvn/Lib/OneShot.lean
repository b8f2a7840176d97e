/-!
# One-shot cells: a promise and its future

`OneShot ε α` is the state that a promise shares with its future: a result that can be
set once (a value or an exception) and the mark that the future was taken.  Setting
twice and taking the future twice are errors, as in the C++ standard library; a promise
that goes away without a result leaves an exception behind (`abandon`).
-/

inductive FutureErrc where
  | brokenPromise
  | futureAlreadyRetrieved
  | promiseAlreadySatisfied
  deriving DecidableEq, Repr

structure OneShot (ε α : Type) where
  result : Option (Except ε α)
  retrieved : Bool

namespace OneShot

variable {ε α : Type}

def fresh : OneShot ε α := ⟨none, false⟩

/-- `set_value` and `set_exception`. -/
def setResult (r : Except ε α) (c : OneShot ε α) : Except FutureErrc (OneShot ε α) :=
  match c.result with
  | none => .ok { c with result := some r }
  | some _ => .error .promiseAlreadySatisfied

/-- `get_future`. -/
def getFuture (c : OneShot ε α) : Except FutureErrc (OneShot ε α) :=
  if c.retrieved then .error .futureAlreadyRetrieved else .ok { c with retrieved := true }

/-- The promise is destroyed or assigned over. -/
def abandon (broken : ε) (c : OneShot ε α) : OneShot ε α :=
  { c with result := some (c.result.getD (.error broken)) }

@[simp] theorem fresh_result : (fresh : OneShot ε α).result = none := rfl

@[simp] theorem fresh_retrieved : (fresh : OneShot ε α).retrieved = false := rfl

theorem setResult_of_none {c : OneShot ε α} (h : c.result = none) (r : Except ε α) :
    c.setResult r = .ok { c with result := some r } := by
  unfold setResult
  rw [h]

theorem getFuture_of_not_retrieved {c : OneShot ε α} (h : c.retrieved = false) :
    c.getFuture = .ok { c with retrieved := true } := by
  unfold getFuture
  rw [h]
  rfl

end OneShot
