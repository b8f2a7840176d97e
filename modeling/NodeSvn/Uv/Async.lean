import Mathlib.Logic.Function.Basic
import NodeSvn.Lib.OneShot
import NodeSvn.Cpp.Exception

/-!
# `uv::async`: calling into the loop thread

One `async_handle`, shared by all copies of a `uv::async`.  A thread `w` that calls it
keeps its `async_data` on its stack (`frames w`) and blocks on its future; `handle->data`
names the frame that `invoke_async` will read.  The call is cut where the thread blocks:
`call` before, `leave` after; `dispatch` and `setResult` are the two ends of
`invoke_async` on the loop thread, around the callback.
-/

namespace NodeSvn

structure AsyncData (A R : Type) where
  arg : A
  promise : OneShot Exn R

structure Async (A R : Type) where
  running : Bool
  /-- `handle->data` -/
  data : Option Nat
  /-- `uv_async_send` was called since the last dispatch. -/
  pending : Bool
  frames : Nat → Option (AsyncData A R)

namespace Async

variable {A R : Type} {s : Async A R}

def create : Async A R := ⟨false, none, false, fun _ => none⟩

/-- The end of `operator()`, by value or by exception: `running_scope` and the
`async_data` are destroyed. -/
def leave (w : Nat) (s : Async A R) : Async A R :=
  { s with running := false, frames := Function.update s.frames w none }

/-- `operator()` up to `future.get()`; `sent` is what `uv_async_send` returns. -/
def call (w : Nat) (arg : A) (sent : Except String Unit) : EStateM Exn (Async A R) Unit := do
  if (← get).running then
    throw (.runtimeError "")
  modify fun s => { s with running := true }
  modify fun s => { s with
    frames := Function.update s.frames w (some ⟨arg, { OneShot.fresh with retrieved := true }⟩) }
  modify fun s => { s with data := some w }
  match sent with
  | .ok () => modify fun s => { s with pending := true }
  | .error what =>
    modify (leave w)
    throw (.runtimeError what)

/-- The loop thread takes the signal: the frame it will read, with its arguments. -/
def dispatch (s : Async A R) : Option (Nat × A × Async A R) :=
  if s.pending then do
    let w ← s.data
    let d ← s.frames w
    return (w, d.arg, { s with pending := false })
  else none

/-- `set_value` or `set_exception` on the promise of the frame. -/
def setResult (w : Nat) (r : Except Exn R) (s : Async A R) : Async A R :=
  { s with
    frames := Function.update s.frames w ((s.frames w).map fun d =>
      match d.promise.setResult r with
      | .ok p => { d with promise := p }
      | .error _ => d) }

theorem setResult_pending (w : Nat) (r : Except Exn R) :
    (s.setResult w r).pending = s.pending := rfl

/-- What the future of the frame holds. -/
def result (w : Nat) (s : Async A R) : Option (Except Exn R) :=
  (s.frames w).bind (·.promise.result)

/-! ## One call after the other -/

/-- The frame of a caller that has no result yet. -/
def waiting (arg : A) : AsyncData A R := ⟨arg, { OneShot.fresh with retrieved := true }⟩

theorem call_ok (w : Nat) (arg : A) (h : s.running = false) :
    (call w arg (.ok ())).run s = .ok ()
      { s with
        running := true, data := some w, pending := true
        frames := Function.update s.frames w (some (waiting arg)) } := by
  simp [call, h, waiting]

/-- The guard is taken: the call fails and changes nothing. -/
theorem call_running (w : Nat) (arg : A) (sent : Except String Unit) (h : s.running = true) :
    (call w arg sent).run s = .error (.runtimeError "") s := by
  simp [call, h]

theorem dispatch_eq {w : Nat} {d : AsyncData A R} (hp : s.pending = true) (hd : s.data = some w)
    (hf : s.frames w = some d) : s.dispatch = some (w, d.arg, { s with pending := false }) := by
  simp [dispatch, hp, hd, hf]

theorem result_waiting {w : Nat} {arg : A} (hf : s.frames w = some (waiting arg)) :
    s.result w = none := by
  simp [result, hf, waiting]

theorem result_setResult {w : Nat} {arg : A} (hf : s.frames w = some (waiting arg))
    (r : Except Exn R) : (s.setResult w r).result w = some r := by
  have hset := OneShot.setResult_of_none (c := (waiting arg : AsyncData A R).promise) rfl r
  simp [setResult, result, hf, hset]

/-! The four states of a handle that only `w` calls. -/

def Idle (s : Async A R) : Prop := s.running = false ∧ s.pending = false

/-- `w` sent the signal and waits. -/
def Called (w : Nat) (arg : A) (s : Async A R) : Prop :=
  s.running = true ∧ s.pending = true ∧ s.data = some w ∧ s.frames w = some (waiting arg)

/-- The loop thread runs the callback for `w`. -/
def Serving (w : Nat) (s : Async A R) : Prop :=
  s.running = true ∧ s.pending = false ∧ ∃ arg, s.frames w = some (waiting arg)

def Answered (w : Nat) (r : Except Exn R) (s : Async A R) : Prop :=
  s.running = true ∧ s.pending = false ∧ s.result w = some r

theorem Idle.call (h : s.Idle) (w : Nat) (arg : A) :
    ∃ s', (call w arg (.ok ())).run s = .ok () s' ∧ s'.Called w arg :=
  ⟨_, call_ok w arg h.1, rfl, rfl, rfl, Function.update_self ..⟩

theorem Called.dispatch {w : Nat} {arg : A} (h : s.Called w arg) :
    ∃ s', s.dispatch = some (w, arg, s') ∧ s'.Serving w :=
  ⟨_, dispatch_eq h.2.1 h.2.2.1 h.2.2.2, h.1, rfl, arg, h.2.2.2⟩

theorem Serving.setResult {w : Nat} (h : s.Serving w) (r : Except Exn R) :
    (s.setResult w r).Answered w r := by
  obtain ⟨hr, hp, arg, hf⟩ := h
  exact ⟨hr, hp, result_setResult hf r⟩

theorem Answered.leave {w : Nat} {r : Except Exn R} (h : s.Answered w r) : (s.leave w).Idle :=
  ⟨rfl, h.2.1⟩

theorem Idle.dispatch (h : s.Idle) : s.dispatch = none := by simp [Async.dispatch, h.2]

end Async

end NodeSvn
