import Mathlib.Tactic.ByContra
import NodeSvn.Lib.Machine
import NodeSvn.Lib.Slots
import NodeSvn.Uv.Async

/-!
# Calls of one `uv::async` from many threads

`operator()` and `invoke_async`, one access of the handle at a time, for any number of
workers that call copies of one `uv::async`:

    enter, go, send     a worker: guard, `async_data`, `handle->data`, `handle->async_cb`,
                        `uv_async_send`, `future.get()`, `.get()`, and out again
    dispatch, respond   the loop thread: it takes the signal and runs the callback,
                        and sets the promise
    fulfil              the future that the callback returned gets its value

A dispatch finds what `handle->data` and `handle->async_cb` say at that time; if that is no
living `async_data` of its type, the state is `wild`.  `Lawful` is what holds in every
reachable state (`calls_lawful`).
-/

namespace NodeSvn

/-- What the callback returned: a value, or a `uv::future`. -/
inductive Answer (R : Type) where
  | now (value : R)
  | later
  deriving DecidableEq, Repr

/-- Where a worker is in `operator()`. -/
inductive CallPhase (R : Type) where
  /-- before `running.exchange(true)` -/
  | entering
  | guarded
  /-- with its `async_data` -/
  | framed
  /-- `handle->data` is set -/
  | pointed
  /-- `handle->async_cb` is set -/
  | aimed
  /-- in `future.get()` -/
  | waiting
  /-- in the `get()` of the future that the callback returned -/
  | waitingInner
  | unwinding (result : Except Exn R)
  /-- the `async_data` is gone -/
  | releasing (result : Except Exn R)
  deriving DecidableEq, Repr

def CallPhase.rank {R : Type} : CallPhase R → Nat
  | .entering => 9
  | .guarded => 8
  | .framed => 7
  | .pointed => 6
  | .aimed => 5
  | .waiting => 4
  | .waitingInner => 3
  | .unwinding _ => 2
  | .releasing _ => 1

/-- A call of `operator()`; `T` names the instantiations `invoke_async<R, Arg...>`. -/
structure WorkerCall (T A R : Type) where
  type : T
  arg : A
  phase : CallPhase R
  /-- the promise in the `async_data` -/
  outer : Option (Except Exn (Answer R))
  /-- the promise of the future that the callback returned -/
  inner : Option (Except Exn R)
  /-- what `uv_async_send` failed with -/
  failed : Option String
  /-- the arguments of each run of the callback for this call -/
  runs : List A
  deriving DecidableEq, Repr

namespace WorkerCall

variable {T A R : Type}

def fresh (type : T) (arg : A) : WorkerCall T A R :=
  ⟨type, arg, .entering, none, none, none, []⟩

/-- The call is past the guard. -/
def passed (c : WorkerCall T A R) : Bool :=
  match c.phase with
  | .entering => false
  | _ => true

/-- Its `async_data` is alive. -/
def hasData (c : WorkerCall T A R) : Bool :=
  match c.phase with
  | .entering => false
  | .guarded => false
  | .releasing _ => false
  | _ => true

/-- The result of the run of the callback. -/
def answer (c : WorkerCall T A R) : Option (Except Exn R) :=
  match c.outer with
  | none => none
  | some (.error e) => some (.error e)
  | some (.ok (.now r)) => some (.ok r)
  | some (.ok .later) => c.inner

/-- The callback ran once, with the arguments of the call, and the call has its result; or
`uv_async_send` failed. -/
def Answered (c : WorkerCall T A R) (result : Except Exn R) : Prop :=
  (c.failed = none ∧ c.runs = [c.arg] ∧ c.answer = some result) ∨
    ∃ what, c.failed = some what ∧ c.outer = none ∧ c.runs = [] ∧
      result = .error (.runtimeError what)

/-- No promise is set and the callback did not run. -/
structure Fresh (c : WorkerCall T A R) : Prop where
  outer : c.outer = none
  inner : c.inner = none
  failed : c.failed = none
  runs : c.runs = []

/-- What is to come from the loop thread. -/
def awaited (c : WorkerCall T A R) : Nat :=
  (if c.runs.isEmpty then 1 else 0) + (if c.outer.isNone then 1 else 0) +
    (if c.inner.isNone then 1 else 0)

/-- A bound for the steps to the end of the call. -/
def left (c : WorkerCall T A R) : Nat := c.phase.rank + c.awaited

end WorkerCall

structure Calls (T A R : Type) where
  running : Bool
  /-- `handle->data`: the `async_data` on the stack of this worker -/
  data : Option Nat
  /-- `handle->async_cb` -/
  asyncCb : Option T
  pending : Bool
  /-- the loop thread runs the callback for this worker -/
  serving : Option Nat
  workers : Nat → Option (WorkerCall T A R)
  ended : List (WorkerCall T A R × Except Exn R)
  rejected : List (WorkerCall T A R)
  wild : Bool

inductive CallLabel (T A R : Type) where
  | enter (w : Nat) (type : T) (arg : A)
  | go (w : Nat)
  | send (w : Nat) (result : Except String Unit)
  | dispatch
  | respond (outcome : Except Exn (Answer R))
  | fulfil (w : Nat) (result : Except Exn R)

/-- The step is one of worker `w`, or of the loop thread. -/
def CallLabel.serves {T A R : Type} (w : Nat) : CallLabel T A R → Prop
  | .enter .. => False
  | .go v => v = w
  | .send v _ => v = w
  | .dispatch => True
  | .respond _ => True
  | .fulfil v _ => v = w

namespace Calls

variable {T A R : Type}

def set (s : Calls T A R) (w : Nat) (c : Option (WorkerCall T A R)) : Calls T A R :=
  { s with workers := Function.update s.workers w c }

def goOn (s : Calls T A R) (w : Nat) (c : WorkerCall T A R) (phase : CallPhase R) : Calls T A R :=
  s.set w (some { c with phase })

def goWild (s : Calls T A R) : Calls T A R := { s with pending := false, wild := true }

/-- The worker goes on with `operator()`, if it does not block. -/
def goWorker (s : Calls T A R) (w : Nat) (c : WorkerCall T A R) : Option (Calls T A R) :=
  match c.phase with
  | .entering =>
    if s.running then some { s.set w none with rejected := s.rejected ++ [c] }
    else some { s.goOn w c .guarded with running := true }
  | .guarded => some (s.goOn w c .framed)
  | .framed => some { s.goOn w c .pointed with data := some w }
  | .pointed => some { s.goOn w c .aimed with asyncCb := some c.type }
  | .aimed => none
  | .waiting => c.outer.map fun
    | .error e => s.goOn w c (.unwinding (.error e))
    | .ok (.now r) => s.goOn w c (.unwinding (.ok r))
    | .ok .later => s.goOn w c .waitingInner
  | .waitingInner => c.inner.map fun r => s.goOn w c (.unwinding r)
  | .unwinding r => some (s.goOn w c (.releasing r))
  | .releasing r => some { s.set w none with running := false, ended := s.ended ++ [(c, r)] }

variable [DecidableEq T]

/-- The start of `invoke_async`, by the type that `async_cb` names. -/
def dispatch (s : Calls T A R) : Calls T A R :=
  match s.data, s.asyncCb with
  | some w, some type =>
    match s.workers w with
    | some c =>
      if c.hasData ∧ c.type = type then
        { s.set w (some { c with runs := c.runs ++ [c.arg] }) with
          pending := false, serving := some w }
      else s.goWild
    | none => s.goWild
  | _, _ => s.goWild

/-- `set_value` or `set_exception` on the promise in the `async_data` of worker `w`. -/
def respond (s : Calls T A R) (w : Nat) (outcome : Except Exn (Answer R)) : Calls T A R :=
  match s.workers w with
  | some c =>
    if c.hasData ∧ c.outer.isNone then
      { s.set w (some { c with outer := some outcome }) with serving := none }
    else s.goWild
  | none => s.goWild

def step (s : Calls T A R) : CallLabel T A R → Option (Calls T A R)
  | .enter w type arg =>
    match s.workers w with
    | some _ => none
    | none => some (s.set w (some (.fresh type arg)))
  | .go w => (s.workers w).bind (s.goWorker w)
  | .send w result => (s.workers w).bind fun c =>
    match c.phase, result with
    | .aimed, .ok () => some { s.goOn w c .waiting with pending := true }
    | .aimed, .error what =>
      some (s.goOn w { c with failed := some what } (.unwinding (.error (.runtimeError what))))
    | _, _ => none
  | .dispatch => if s.pending ∧ s.serving = none then some s.dispatch else none
  | .respond outcome => s.serving.map fun w => s.respond w outcome
  | .fulfil w result => (s.workers w).bind fun c =>
    match c.outer, c.inner with
    | some (.ok .later), none => some (s.set w (some { c with inner := some result }))
    | _, _ => none

end Calls

def callMachine (T A R : Type) [DecidableEq T] : Machine (Calls T A R) (CallLabel T A R) where
  init := ⟨false, none, none, false, none, fun _ => none, [], [], false⟩
  step := Calls.step

/-! ## What a run is to keep -/

namespace Calls

variable {T A R : Type}

/-- The loop thread has nothing to do for this handle. -/
def Quiet (s : Calls T A R) : Prop := s.pending = false ∧ s.serving = none

def left (s : Calls T A R) (w : Nat) : Nat := ((s.workers w).map WorkerCall.left).getD 0

structure Lawful [DecidableEq T] (s : Calls T A R) : Prop where
  /-- every dispatch found a living `async_data` of its type with an open promise -/
  tame : s.wild = false
  /-- the guard is taken while a call is past it, and else free -/
  guard : s.running = true ↔ ∃ w c, s.workers w = some c ∧ c.passed = true
  alone : ∀ v w c d, s.workers v = some c → s.workers w = some d → c.passed = true →
    d.passed = true → v = w
  /-- the callback runs while the worker waits, with the arguments of its call -/
  blocked : ∀ w, s.serving = some w →
    ∃ c, s.workers w = some c ∧ c.phase = .waiting ∧ c.outer = none ∧ c.runs = [c.arg]
  /-- no call has a second run -/
  once : ∀ w c, s.workers w = some c → c.runs = [] ∨ c.runs = [c.arg]
  /-- a call that ended had one run, and that run's result -/
  ended : ∀ e ∈ s.ended, e.1.Answered e.2
  rejected : ∀ c ∈ s.rejected, c.runs = []
  begins : ∀ w type arg, s.workers w = none →
    s.step (.enter w type arg) = some (s.set w (some (.fresh type arg)))
  /-- a call that finds the guard free takes it -/
  passes : ∀ w c, s.workers w = some c → c.phase = .entering → s.running = false →
    s.step (.go w) = some { s.goOn w c .guarded with running := true }
  /-- a call that finds the guard taken fails, and leaves everything else -/
  undisturbed : ∀ w c, s.workers w = some c → c.phase = .entering → s.running = true →
    s.step (.go w) = some { s with
      workers := Function.update s.workers w none, rejected := s.rejected ++ [c] }
  /-- a call past the guard comes to its end -/
  progress : ∀ w c, s.workers w = some c → c.passed = true →
    (∃ l, l.serves w ∧ (s.step l).isSome = true) ∧
      ∀ l t, l.serves w → s.step l = some t → t.left w < s.left w
  /-- until then it keeps the guard and its arguments; the end is noted, and frees the guard -/
  ends : ∀ w c l t, s.workers w = some c → c.passed = true → l.serves w → s.step l = some t →
    (∃ d, t.workers w = some d ∧ d.passed = true ∧ d.type = c.type ∧ d.arg = c.arg ∧
      t.running = true ∧ t.ended = s.ended) ∨
    ∃ r, c.Answered r ∧ t.workers w = none ∧ t.running = false ∧ t.ended = s.ended ++ [(c, r)]

/-! ## The invariant -/

/-- Guard, data pointer and pending flag, by where the call is. -/
def Stage (s : Calls T A R) (w : Nat) (c : WorkerCall T A R) : Prop :=
  match c.phase with
  | .entering => c.Fresh
  | .guarded => c.Fresh ∧ s.Quiet
  | .framed => c.Fresh ∧ s.Quiet
  | .pointed => c.Fresh ∧ s.Quiet ∧ s.data = some w
  | .aimed => c.Fresh ∧ s.Quiet ∧ s.data = some w ∧ s.asyncCb = some c.type
  | .waiting => c.failed = none ∧
    ((c.Fresh ∧ s.pending = true ∧ s.serving = none ∧ s.data = some w ∧ s.asyncCb = some c.type) ∨
      (c.outer = none ∧ c.inner = none ∧ c.runs = [c.arg] ∧ s.pending = false ∧
        s.serving = some w) ∨
      (c.outer ≠ none ∧ c.runs = [c.arg] ∧ s.Quiet))
  | .waitingInner => c.failed = none ∧ c.runs = [c.arg] ∧ c.outer = some (.ok .later) ∧ s.Quiet
  | .unwinding r => c.Answered r ∧ s.Quiet
  | .releasing r => c.Answered r ∧ s.Quiet

structure Inv (s : Calls T A R) : Prop where
  tame : s.wild = false
  guard : s.running = true ↔ ∃ w c, s.workers w = some c ∧ c.passed = true
  alone : ∀ v w c d, s.workers v = some c → s.workers w = some d → c.passed = true →
    d.passed = true → v = w
  stage : ∀ w c, s.workers w = some c → s.Stage w c
  idle : s.running = false → s.Quiet
  ended : ∀ e ∈ s.ended, e.1.Answered e.2
  rejected : ∀ c ∈ s.rejected, c.runs = []

variable {s t : Calls T A R} {v w : Nat} {c d : WorkerCall T A R}

theorem passed_iff (c : WorkerCall T A R) : c.passed = true ↔ c.phase ≠ .entering := by
  unfold WorkerCall.passed
  cases c.phase <;> simp

/-- A call that is not past the guard depends on nothing. -/
theorem stage_of_not_passed (hc : c.passed = false) : s.Stage w c ↔ c.Fresh := by
  have hphase : c.phase = .entering := by
    by_contra hne
    rw [(passed_iff c).mpr hne] at hc
    cases hc
  unfold Stage
  rw [hphase]

theorem Inv.running (h : s.Inv) (hc : s.workers w = some c) (hp : c.passed = true) :
    s.running = true :=
  h.guard.mpr ⟨w, c, hc, hp⟩

/-- Beside a call that is past the guard, the others are in front of it. -/
theorem Inv.not_passed (h : s.Inv) (hc : s.workers w = some c) (hp : c.passed = true)
    (hd : s.workers v = some d) (hne : v ≠ w) : d.passed = false := by
  by_contra hcon
  exact hne (h.alone v w d c hd hc (by simpa using hcon) hp)

/-- What the stages come to: the call is in front of the guard, or has not been served, or is
asked for, or is served, or waits for its answer, or has it. -/
theorem stage_cases (h : s.Stage w c) :
    (c.phase = .entering ∧ c.Fresh) ∨ (c.Fresh ∧ s.Quiet) ∨
      (c.phase = .waiting ∧ c.failed = none ∧ c.Fresh ∧ s.pending = true ∧ s.serving = none ∧
        s.data = some w ∧ s.asyncCb = some c.type) ∨
      (c.phase = .waiting ∧ c.failed = none ∧ c.outer = none ∧ c.inner = none ∧
        c.runs = [c.arg] ∧ s.pending = false ∧ s.serving = some w) ∨
      ((c.phase = .waiting ∨ c.phase = .waitingInner) ∧ c.failed = none ∧ c.runs = [c.arg] ∧
        s.Quiet ∧ c.outer ≠ none) ∨
      ∃ r, c.Answered r ∧ s.Quiet := by
  unfold Stage at h
  cases hp : c.phase with
  | entering =>
    rw [hp] at h
    exact .inl ⟨rfl, h⟩
  | guarded | framed =>
    rw [hp] at h
    exact .inr (.inl h)
  | pointed | aimed =>
    rw [hp] at h
    exact .inr (.inl ⟨h.1, h.2.1⟩)
  | waiting =>
    rw [hp] at h
    obtain ⟨hfailed, hasked | hserved | ⟨houter, hruns, hq⟩⟩ := h
    · exact .inr (.inr (.inl ⟨rfl, hfailed, hasked⟩))
    · exact .inr (.inr (.inr (.inl ⟨rfl, hfailed, hserved⟩)))
    · exact .inr (.inr (.inr (.inr (.inl ⟨.inl rfl, hfailed, hruns, hq, houter⟩))))
  | waitingInner =>
    rw [hp] at h
    obtain ⟨hfailed, hruns, houter, hq⟩ := h
    have hne : c.outer ≠ none := by
      rw [houter]
      exact Option.some_ne_none _
    exact .inr (.inr (.inr (.inr (.inl ⟨.inr rfl, hfailed, hruns, hq, hne⟩))))
  | unwinding r | releasing r =>
    rw [hp] at h
    exact .inr (.inr (.inr (.inr (.inr ⟨r, h⟩))))

theorem Inv.once (h : s.Inv) (hc : s.workers w = some c) : c.runs = [] ∨ c.runs = [c.arg] := by
  rcases stage_cases (h.stage w c hc) with ⟨-, hfresh⟩ | ⟨hfresh, -⟩ | ⟨-, -, hfresh, -⟩ |
    ⟨-, -, -, -, hruns, -⟩ | ⟨-, -, hruns, -⟩ | ⟨r, hanswered, -⟩
  · exact .inl hfresh.runs
  · exact .inl hfresh.runs
  · exact .inl hfresh.runs
  · exact .inr hruns
  · exact .inr hruns
  · rcases hanswered with ha | ⟨_, -, -, ha, -⟩
    · exact .inr ha.2.1
    · exact .inl ha

/-- A step for the call that is past the guard. -/
theorem Inv.own (h : s.Inv) (hc : s.workers w = some c) (hp : c.passed = true)
    (hd : d.passed = true) (hw : t.workers = Function.update s.workers w (some d))
    (hr : t.running = s.running) (hwild : t.wild = s.wild) (he : t.ended = s.ended)
    (hj : t.rejected = s.rejected) (hst : t.Stage w d) : t.Inv := by
  have hrun := h.running hc hp
  have hother : ∀ v q, t.workers v = some q → v ≠ w → q.passed = false ∧ q.Fresh := by
    intro v q hq hne
    rw [hw, Function.update_of_ne hne] at hq
    have hnp := h.not_passed hc hp hq hne
    exact ⟨hnp, (stage_of_not_passed hnp).mp (h.stage v q hq)⟩
  have hself : t.workers w = some d := by
    rw [hw, Function.update_self]
  have honly : ∀ v q, t.workers v = some q → q.passed = true → v = w := by
    intro v q hq hqp
    by_contra hne
    rw [(hother v q hq hne).1] at hqp
    cases hqp
  refine ⟨hwild ▸ h.tame, ⟨fun _ => ⟨w, d, hself, hd⟩, fun _ => hr ▸ hrun⟩, ?_, ?_, ?_,
    he ▸ h.ended, hj ▸ h.rejected⟩
  · intro u v a b ha hb hap hbp
    rw [honly u a ha hap, honly v b hb hbp]
  · intro v q hq
    by_cases hne : v = w
    · subst hne
      obtain rfl := Option.some.inj (hself.symm.trans hq)
      exact hst
    · obtain ⟨hnp, hf⟩ := hother v q hq hne
      exact (stage_of_not_passed hnp).mpr hf
  · intro hfalse
    rw [hr, hrun] at hfalse
    cases hfalse

/-- A step of a worker in front of the guard, which leaves the handle. -/
theorem Inv.front (h : s.Inv) {x : Option (WorkerCall T A R)}
    (hs : ∀ c, s.workers w = some c → c.passed = false)
    (hx : ∀ d, x = some d → d.phase = .entering ∧ d.Fresh)
    {rejected : List (WorkerCall T A R)} (hj : ∀ c ∈ rejected, c.runs = []) :
    Inv { s.set w x with rejected } := by
  have hcase : ∀ v q, Function.update s.workers w x v = some q →
      (s.workers v = some q ∧ v ≠ w) ∨ (q.phase = .entering ∧ q.Fresh) := by
    intro v q hq
    rcases update_eq_some_iff.mp hq with ⟨-, hq⟩ | ⟨hne, hq⟩
    · exact .inr (hx q hq)
    · exact .inl ⟨hq, hne⟩
  have hpassed : ∀ v q, Function.update s.workers w x v = some q → q.passed = true →
      s.workers v = some q := by
    intro v q hq hqp
    rcases hcase v q hq with h1 | h1
    · exact h1.1
    · exact absurd h1.1 ((passed_iff q).mp hqp)
  refine ⟨h.tame, ?_, ?_, ?_, h.idle, h.ended, hj⟩
  · refine h.guard.trans ⟨?_, ?_⟩
    · rintro ⟨v, q, hq, hqp⟩
      have hne : v ≠ w := by
        rintro rfl
        rw [hs q hq] at hqp
        cases hqp
      exact ⟨v, q, (Function.update_of_ne hne ..).trans hq, hqp⟩
    · rintro ⟨v, q, hq, hqp⟩
      exact ⟨v, q, hpassed v q hq hqp, hqp⟩
  · intro u v a b ha hb hap hbp
    exact h.alone u v a b (hpassed u a ha hap) (hpassed v b hb hbp) hap hbp
  · intro v q hq
    rcases hcase v q hq with h1 | h1
    · exact h.stage v q h1.1
    · have hnp : q.passed = false := by
        unfold WorkerCall.passed
        rw [h1.1]
      exact (stage_of_not_passed hnp).mpr h1.2

/-- The guard is free: the worker takes it. -/
theorem Inv.take (h : s.Inv) (hrun : s.running = false) (hf : c.Fresh) :
    Inv { s.goOn w c .guarded with running := true } := by
  have hnone : ∀ v q, s.workers v = some q → q.passed = false := by
    intro v q hq
    by_contra hcon
    have := h.running hq (by simpa using hcon)
    rw [hrun] at this
    cases this
  have hself : ∀ v q, Function.update s.workers w (some { c with phase := .guarded }) v = some q →
      q.passed = true → v = w := by
    intro v q hq hqp
    by_contra hne
    rw [Function.update_of_ne hne] at hq
    rw [hnone v q hq] at hqp
    cases hqp
  refine ⟨h.tame, ⟨fun _ => ⟨w, _, Function.update_self .., rfl⟩, fun _ => rfl⟩, ?_, ?_, ?_,
    h.ended, h.rejected⟩
  · intro u v a b ha hb hap hbp
    rw [hself u a ha hap, hself v b hb hbp]
  · intro v q hq
    rcases update_eq_some_iff.mp hq with ⟨rfl, hnew⟩ | ⟨-, hold⟩
    · obtain rfl := Option.some.inj hnew
      exact ⟨⟨hf.outer, hf.inner, hf.failed, hf.runs⟩, h.idle hrun⟩
    · have hnp := hnone v q hold
      exact (stage_of_not_passed hnp).mpr ((stage_of_not_passed hnp).mp (h.stage v q hold))
  · intro hfalse
    cases hfalse

/-- The call ends and the guard is free again. -/
theorem Inv.release (h : s.Inv) (hc : s.workers w = some c) {r : Except Exn R}
    (hp : c.phase = .releasing r) :
    Inv { s.set w none with running := false, ended := s.ended ++ [(c, r)] } := by
  have hpassed : c.passed = true := (passed_iff c).mpr (by simp [hp])
  have hstage := h.stage w c hc
  simp only [Stage, hp] at hstage
  have hother : ∀ v q, Function.update s.workers w none v = some q →
      s.workers v = some q ∧ q.passed = false := by
    intro v q hq
    rcases update_eq_some_iff.mp hq with ⟨-, hq⟩ | ⟨hne, hq⟩
    · cases hq
    · exact ⟨hq, h.not_passed hc hpassed hq hne⟩
  refine ⟨h.tame, ⟨fun hfalse => (by cases hfalse), ?_⟩, ?_, ?_, fun _ => hstage.2, ?_,
    h.rejected⟩
  · rintro ⟨v, q, hq, hqp⟩
    rw [(hother v q hq).2] at hqp
    cases hqp
  · intro u v a b ha hb hap
    rw [(hother u a ha).2] at hap
    cases hap
  · intro v q hq
    obtain ⟨hq', hnp⟩ := hother v q hq
    exact (stage_of_not_passed hnp).mpr ((stage_of_not_passed hnp).mp (h.stage v q hq'))
  · intro e he
    rcases List.mem_append.mp he with he | he
    · exact h.ended e he
    · rw [List.mem_singleton.mp he]
      exact hstage.1

theorem Inv.go (h : s.Inv) (hc : s.workers w = some c) (hs : s.goWorker w c = some t) :
    t.Inv := by
  have hstage := h.stage w c hc
  unfold goWorker at hs
  cases hp : c.phase with
  | entering =>
    simp only [Stage, hp] at hstage hs
    by_cases hrun : s.running = true
    · rw [if_pos hrun] at hs
      obtain rfl := Option.some.inj hs
      refine h.front (fun q hq => ?_) (by simp) fun q hq => ?_
      · obtain rfl := Option.some.inj (hc.symm.trans hq)
        simp [WorkerCall.passed, hp]
      · rcases List.mem_append.mp hq with hq | hq
        · exact h.rejected q hq
        · rw [List.mem_singleton.mp hq]
          exact hstage.runs
    · rw [if_neg hrun] at hs
      obtain rfl := Option.some.inj hs
      exact h.take (by simpa using hrun) hstage
  | guarded =>
    simp only [Stage, hp] at hstage hs
    obtain rfl := Option.some.inj hs
    obtain ⟨⟨h1, h2, h3, h4⟩, hq⟩ := hstage
    exact h.own hc (by simp [WorkerCall.passed, hp]) rfl rfl rfl rfl rfl rfl ⟨⟨h1, h2, h3, h4⟩, hq⟩
  | framed =>
    simp only [Stage, hp] at hstage hs
    obtain rfl := Option.some.inj hs
    obtain ⟨⟨h1, h2, h3, h4⟩, hq⟩ := hstage
    exact h.own hc (by simp [WorkerCall.passed, hp]) rfl rfl rfl rfl rfl rfl
      ⟨⟨h1, h2, h3, h4⟩, hq, rfl⟩
  | pointed =>
    simp only [Stage, hp] at hstage hs
    obtain rfl := Option.some.inj hs
    obtain ⟨⟨h1, h2, h3, h4⟩, hq, hd⟩ := hstage
    exact h.own hc (by simp [WorkerCall.passed, hp]) rfl rfl rfl rfl rfl rfl
      ⟨⟨h1, h2, h3, h4⟩, hq, hd, rfl⟩
  | aimed =>
    simp only [hp] at hs
    cases hs
  | waiting =>
    simp only [Stage, hp] at hstage hs
    obtain ⟨o, ho, rfl⟩ := Option.map_eq_some_iff.mp hs
    obtain ⟨hfailed, hwait⟩ := hstage
    have hdone : c.outer ≠ none ∧ c.runs = [c.arg] ∧ s.Quiet := by
      rcases hwait with hw | hw | hw
      · rw [hw.1.outer] at ho
        cases ho
      · rw [hw.1] at ho
        cases ho
      · exact hw
    obtain ⟨-, hruns, hq⟩ := hdone
    have hpass : c.passed = true := by simp [WorkerCall.passed, hp]
    match o with
    | .error e =>
      exact h.own hc hpass rfl rfl rfl rfl rfl rfl
        ⟨.inl ⟨hfailed, hruns, by simp [WorkerCall.answer, ho]⟩, hq⟩
    | .ok (.now r) =>
      exact h.own hc hpass rfl rfl rfl rfl rfl rfl
        ⟨.inl ⟨hfailed, hruns, by simp [WorkerCall.answer, ho]⟩, hq⟩
    | .ok .later =>
      exact h.own hc hpass rfl rfl rfl rfl rfl rfl ⟨hfailed, hruns, ho, hq⟩
  | waitingInner =>
    simp only [Stage, hp] at hstage hs
    obtain ⟨r, hr, rfl⟩ := Option.map_eq_some_iff.mp hs
    obtain ⟨hfailed, hruns, ho, hq⟩ := hstage
    exact h.own hc (by simp [WorkerCall.passed, hp]) rfl rfl rfl rfl rfl rfl
      ⟨.inl ⟨hfailed, hruns, by simp [WorkerCall.answer, ho, hr]⟩, hq⟩
  | unwinding r =>
    simp only [Stage, hp] at hstage hs
    obtain rfl := Option.some.inj hs
    exact h.own hc (by simp [WorkerCall.passed, hp]) rfl rfl rfl rfl rfl rfl hstage
  | releasing r =>
    simp only [hp] at hs
    obtain rfl := Option.some.inj hs
    exact h.release hc hp

/-- If the loop thread has something to do, it is for a call that waits. -/
theorem Inv.waiting (h : s.Inv) (hq : ¬ s.Quiet) :
    ∃ w c, s.workers w = some c ∧ c.phase = .waiting ∧ c.failed = none ∧
      ((c.Fresh ∧ s.pending = true ∧ s.serving = none ∧ s.data = some w ∧
          s.asyncCb = some c.type) ∨
        (c.outer = none ∧ c.inner = none ∧ c.runs = [c.arg] ∧ s.pending = false ∧
          s.serving = some w)) := by
  have hrun : s.running = true := by
    by_contra hne
    exact hq (h.idle (by simpa using hne))
  obtain ⟨w, c, hc, hp⟩ := h.guard.mp hrun
  rcases stage_cases (h.stage w c hc) with ⟨hphase, -⟩ | ⟨-, hquiet⟩ |
    ⟨hphase, hfailed, hasked⟩ | ⟨hphase, hfailed, hserved⟩ | ⟨-, -, -, hquiet, -⟩ | ⟨r, -, hquiet⟩
  · exact absurd hphase ((passed_iff c).mp hp)
  · exact absurd hquiet hq
  · exact ⟨w, c, hc, hphase, hfailed, .inl hasked⟩
  · exact ⟨w, c, hc, hphase, hfailed, .inr hserved⟩
  · exact absurd hquiet hq
  · exact absurd hquiet hq

theorem Inv.send (h : s.Inv) (hc : s.workers w = some c) (hp : c.phase = .aimed) :
    Inv { s.goOn w c .waiting with pending := true } ∧ ∀ what,
      Inv (s.goOn w { c with failed := some what } (.unwinding (.error (.runtimeError what)))) := by
  have hpass : c.passed = true := (passed_iff c).mpr (by simp [hp])
  have hstage := h.stage w c hc
  simp only [Stage, hp] at hstage
  obtain ⟨⟨h1, h2, h3, h4⟩, hq, hd, ha⟩ := hstage
  constructor
  · exact h.own hc hpass rfl rfl rfl rfl rfl rfl
      ⟨h3, .inl ⟨⟨h1, h2, h3, h4⟩, rfl, hq.2, hd, ha⟩⟩
  · intro what
    exact h.own hc hpass rfl rfl rfl rfl rfl rfl ⟨.inr ⟨what, rfl, h1, h4, rfl⟩, hq⟩

/-- A call whose future is open waits for it, now or as soon as it goes on. -/
theorem Inv.later (h : s.Inv) (hc : s.workers w = some c) (ho : c.outer = some (.ok .later))
    (hi : c.inner = none) :
    c.failed = none ∧ c.runs = [c.arg] ∧ s.Quiet ∧
      (c.phase = .waiting ∨ c.phase = .waitingInner) := by
  have hfresh : ¬ c.Fresh := fun hf => by
    rw [hf.outer] at ho
    cases ho
  rcases stage_cases (h.stage w c hc) with ⟨-, hf⟩ | ⟨hf, -⟩ | ⟨-, -, hf, -⟩ |
    ⟨-, -, hnone, -⟩ | ⟨hphase, hfailed, hruns, hquiet, -⟩ | ⟨r, hanswered, -⟩
  · exact absurd hf hfresh
  · exact absurd hf hfresh
  · exact absurd hf hfresh
  · rw [ho] at hnone
    cases hnone
  · exact ⟨hfailed, hruns, hquiet, hphase⟩
  · rcases hanswered with ⟨-, -, ha⟩ | ⟨-, -, ha, -⟩
    · simp [WorkerCall.answer, ho, hi] at ha
    · rw [ho] at ha
      cases ha

theorem Inv.fulfil (h : s.Inv) (hc : s.workers w = some c) (ho : c.outer = some (.ok .later))
    (hi : c.inner = none) (r : Except Exn R) :
    Inv (s.set w (some { c with inner := some r })) := by
  obtain ⟨hfailed, hruns, hq, hp⟩ := h.later hc ho hi
  have hpass : c.passed = true := (passed_iff c).mpr (by rcases hp with hp | hp <;> simp [hp])
  refine h.own hc hpass (d := { c with inner := some r }) hpass rfl rfl rfl rfl rfl ?_
  rcases hp with hp | hp
  · simp only [Stage, hp]
    exact ⟨hfailed, .inr (.inr ⟨by simp [ho], hruns, hq⟩)⟩
  · simp only [Stage, hp]
    exact ⟨hfailed, hruns, ho, hq⟩

theorem Inv.respond (h : s.Inv) (hs : s.serving = some w) (o : Except Exn (Answer R)) :
    (s.respond w o).Inv := by
  obtain ⟨v, c, hc, hp, hfailed, hw⟩ := h.waiting fun hq => by
    rw [hq.2] at hs
    cases hs
  rcases hw with ⟨-, -, hnone, -⟩ | ⟨ho, hi, hruns, hpending, hserving⟩
  · rw [hnone] at hs
    cases hs
  · obtain rfl := Option.some.inj (hserving.symm.trans hs)
    have hdata : c.hasData = true := by simp [WorkerCall.hasData, hp]
    have hpass : c.passed = true := (passed_iff c).mpr (by simp [hp])
    unfold Calls.respond
    simp only [hc, hdata, ho, Option.isNone_none, and_self, if_true]
    refine h.own hc hpass (d := { c with outer := some o }) ?_ rfl rfl rfl rfl rfl ?_
    · exact (passed_iff _).mpr (by simp [hp])
    · simp only [Stage, hp]
      exact ⟨hfailed, .inr (.inr ⟨by simp, hruns, hpending, rfl⟩)⟩

/-! ## A call past the guard comes to its end -/

/-- The call goes on as `d`. -/
structure GoesOn (c d : WorkerCall T A R) : Prop where
  type : d.type = c.type
  arg : d.arg = c.arg
  passed : d.passed = true
  less : d.left < c.left

theorem goesOn_phase {phase : CallPhase R} (hp : phase ≠ .entering)
    (hlt : phase.rank < c.phase.rank) : GoesOn c { c with phase } where
  type := rfl
  arg := rfl
  passed := (passed_iff _).mpr hp
  less := by
    have hsame : ({ c with phase } : WorkerCall T A R).awaited = c.awaited := rfl
    unfold WorkerCall.left
    rw [hsame]
    show phase.rank + _ < _
    omega

/-- What a step does for a call that is past the guard: it goes on, or ends. -/
def Served (s : Calls T A R) (w : Nat) (c : WorkerCall T A R) (t : Calls T A R) : Prop :=
  (∃ d, GoesOn c d ∧ t.workers w = some d ∧ t.running = s.running ∧ t.ended = s.ended) ∨
    ∃ r, c.phase = .releasing r ∧
      t = { s.set w none with running := false, ended := s.ended ++ [(c, r)] }

theorem served_set (hd : GoesOn c d) (hw : t.workers = Function.update s.workers w (some d))
    (hr : t.running = s.running) (he : t.ended = s.ended) : s.Served w c t := by
  refine .inl ⟨d, hd, ?_, hr, he⟩
  rw [hw]
  exact Function.update_self ..

theorem served_goOn {phase : CallPhase R} (hp : phase ≠ .entering)
    (hlt : phase.rank < c.phase.rank) (hw : t.workers = (s.goOn w c phase).workers)
    (hr : t.running = s.running) (he : t.ended = s.ended) : s.Served w c t :=
  served_set (goesOn_phase hp hlt) hw hr he

theorem served_goWorker (hp : c.passed = true) (hs : s.goWorker w c = some t) :
    s.Served w c t := by
  unfold goWorker at hs
  cases hphase : c.phase with
  | entering => exact absurd hphase ((passed_iff c).mp hp)
  | aimed =>
    simp only [hphase] at hs
    cases hs
  | guarded | framed | pointed | unwinding r =>
    simp only [hphase] at hs
    obtain rfl := Option.some.inj hs
    exact served_goOn (by simp) (by rw [hphase]; exact Nat.lt_succ_self _) rfl rfl rfl
  | waiting =>
    simp only [hphase] at hs
    obtain ⟨o, ho, rfl⟩ := Option.map_eq_some_iff.mp hs
    match o with
    | .error e => exact served_goOn (by simp) (by rw [hphase]; simp [CallPhase.rank]) rfl rfl rfl
    | .ok (.now r) =>
      exact served_goOn (by simp) (by rw [hphase]; simp [CallPhase.rank]) rfl rfl rfl
    | .ok .later => exact served_goOn (by simp) (by rw [hphase]; simp [CallPhase.rank]) rfl rfl rfl
  | waitingInner =>
    simp only [hphase] at hs
    obtain ⟨r, -, rfl⟩ := Option.map_eq_some_iff.mp hs
    exact served_goOn (by simp) (by rw [hphase]; simp [CallPhase.rank]) rfl rfl rfl
  | releasing r =>
    simp only [hphase] at hs
    exact .inr ⟨r, hphase, (Option.some.inj hs).symm⟩

theorem left_eq (hc : s.workers w = some c) : s.left w = c.left := by
  unfold Calls.left
  rw [hc]
  rfl

theorem Served.left_lt (h : s.Served w c t) (hc : s.workers w = some c) : t.left w < s.left w := by
  rw [left_eq hc]
  rcases h with ⟨d, hd, ht, -⟩ | ⟨r, hphase, rfl⟩
  · rw [left_eq ht]
    exact hd.less
  · have hnone : ({ s.set w none with
        running := false, ended := s.ended ++ [(c, r)] } : Calls T A R).workers w = none :=
      Function.update_self ..
    unfold Calls.left WorkerCall.left
    rw [hnone, hphase]
    show 0 < 1 + _
    omega

theorem Inv.ends (h : s.Inv) (hc : s.workers w = some c) (hp : c.passed = true)
    (hserved : s.Served w c t) :
    (∃ d, t.workers w = some d ∧ d.passed = true ∧ d.type = c.type ∧ d.arg = c.arg ∧
      t.running = true ∧ t.ended = s.ended) ∨
    ∃ r, c.Answered r ∧ t.workers w = none ∧ t.running = false ∧
      t.ended = s.ended ++ [(c, r)] := by
  rcases hserved with ⟨d, hd, ht, hr, he⟩ | ⟨r, hphase, rfl⟩
  · exact .inl ⟨d, ht, hd.passed, hd.type, hd.arg, hr.trans (h.running hc hp), he⟩
  · have hstage := h.stage w c hc
    simp only [Stage, hphase] at hstage
    exact .inr ⟨r, hstage.1, Function.update_self .., rfl, rfl⟩

/-! ## The steps -/

section Step

variable [DecidableEq T]

theorem Inv.dispatch (h : s.Inv) (hs : s.pending = true) : s.dispatch.Inv := by
  obtain ⟨w, c, hc, hp, hfailed, hw⟩ := h.waiting fun hq => by
    rw [hq.1] at hs
    cases hs
  rcases hw with ⟨hf, -, -, hd, ha⟩ | ⟨-, -, -, hpending, -⟩
  · have hdata : c.hasData = true := by simp [WorkerCall.hasData, hp]
    have hpass : c.passed = true := (passed_iff c).mpr (by simp [hp])
    unfold Calls.dispatch
    simp only [hd, ha, hc, hdata, and_self, if_true]
    refine h.own hc hpass (d := { c with runs := c.runs ++ [c.arg] }) ?_ rfl rfl rfl rfl rfl ?_
    · exact (passed_iff _).mpr (by simp [hp])
    · simp only [Stage, hp]
      refine ⟨hfailed, .inr (.inl ⟨hf.outer, hf.inner, ?_, trivial, trivial⟩)⟩
      rw [hf.runs]
      rfl
  · rw [hs] at hpending
    cases hpending

theorem Inv.step (h : s.Inv) {l : CallLabel T A R} (hs : s.step l = some t) : t.Inv := by
  cases l with
  | enter w type arg =>
    cases hc : s.workers w with
    | some c => simp [Calls.step, hc] at hs
    | none =>
      simp only [Calls.step, hc, Option.some.injEq] at hs
      subst hs
      refine h.front (fun c hc' => ?_) (fun d hd => ?_) h.rejected
      · rw [hc] at hc'
        cases hc'
      · obtain rfl := Option.some.inj hd
        exact ⟨rfl, rfl, rfl, rfl, rfl⟩
  | go w =>
    obtain ⟨c, hc, hs⟩ := Option.bind_eq_some_iff.mp hs
    exact h.go hc hs
  | send w result =>
    obtain ⟨c, hc, hs⟩ := Option.bind_eq_some_iff.mp hs
    split at hs
    · rename_i hp _
      obtain rfl := Option.some.inj hs
      exact (h.send hc hp).1
    · rename_i what hp _
      obtain rfl := Option.some.inj hs
      exact (h.send hc hp).2 what
    · cases hs
  | dispatch =>
    simp only [Calls.step, Option.ite_none_right_eq_some, Option.some.injEq] at hs
    obtain ⟨hp, rfl⟩ := hs
    exact h.dispatch hp.1
  | respond o =>
    obtain ⟨w, hw, rfl⟩ := Option.map_eq_some_iff.mp hs
    exact h.respond hw o
  | fulfil w r =>
    obtain ⟨c, hc, hs⟩ := Option.bind_eq_some_iff.mp hs
    split at hs
    · rename_i ho hi
      obtain rfl := Option.some.inj hs
      exact h.fulfil hc ho hi r
    · cases hs

/-- Each step for the call brings it on. -/
theorem Inv.served (h : s.Inv) {l : CallLabel T A R} (hc : s.workers w = some c)
    (hp : c.passed = true) (hl : l.serves w) (hs : s.step l = some t) : s.Served w c t := by
  cases l with
  | enter v type arg => exact absurd hl id
  | go v =>
    obtain rfl : v = w := hl
    obtain ⟨d, hd, hs⟩ := Option.bind_eq_some_iff.mp hs
    obtain rfl := Option.some.inj (hc.symm.trans hd)
    exact served_goWorker hp hs
  | send v result =>
    obtain rfl : v = w := hl
    obtain ⟨d, hd, hs⟩ := Option.bind_eq_some_iff.mp hs
    obtain rfl := Option.some.inj (hc.symm.trans hd)
    split at hs
    · rename_i hphase _
      obtain rfl := Option.some.inj hs
      exact served_goOn (by simp) (by rw [hphase]; simp [CallPhase.rank]) rfl rfl rfl
    · rename_i what hphase _
      obtain rfl := Option.some.inj hs
      refine served_set (d := { c with
        failed := some what, phase := .unwinding (.error (.runtimeError what)) })
        ⟨rfl, rfl, rfl, ?_⟩ rfl rfl rfl
      unfold WorkerCall.left
      rw [hphase]
      show 2 + c.awaited < 5 + c.awaited
      omega
    · cases hs
  | dispatch =>
    simp only [Calls.step, Option.ite_none_right_eq_some, Option.some.injEq] at hs
    obtain ⟨⟨hpending, hserving⟩, rfl⟩ := hs
    obtain ⟨v, d, hd, hphase, -, hw⟩ := h.waiting fun hq => by
      rw [hq.1] at hpending
      cases hpending
    obtain rfl := h.alone v w d c hd hc ((passed_iff d).mpr (by simp [hphase])) hp
    obtain rfl := Option.some.inj (hc.symm.trans hd)
    rcases hw with ⟨hf, -, -, hdata, hcb⟩ | ⟨-, -, -, hno, -⟩
    · have hhas : c.hasData = true := by simp [WorkerCall.hasData, hphase]
      unfold Calls.dispatch
      simp only [hdata, hcb, hc, hhas, and_self, if_true]
      refine served_set (d := { c with runs := c.runs ++ [c.arg] }) ⟨rfl, rfl, hp, ?_⟩ rfl rfl rfl
      simp [WorkerCall.left, WorkerCall.awaited, hf.runs]
    · rw [hpending] at hno
      cases hno
  | respond o =>
    obtain ⟨v, hv, rfl⟩ := Option.map_eq_some_iff.mp hs
    obtain ⟨u, d, hd, hphase, -, hw⟩ := h.waiting fun hq => by
      rw [hq.2] at hv
      cases hv
    obtain rfl := h.alone u w d c hd hc ((passed_iff d).mpr (by simp [hphase])) hp
    obtain rfl := Option.some.inj (hc.symm.trans hd)
    rcases hw with ⟨-, -, hno, -⟩ | ⟨ho, hi, hruns, -, hserving⟩
    · rw [hno] at hv
      cases hv
    · obtain rfl := Option.some.inj (hserving.symm.trans hv)
      have hhas : c.hasData = true := by simp [WorkerCall.hasData, hphase]
      unfold Calls.respond
      simp only [hc, hhas, ho, Option.isNone_none, and_self, if_true]
      refine served_set (d := { c with outer := some o }) ⟨rfl, rfl, hp, ?_⟩ rfl rfl rfl
      simp [WorkerCall.left, WorkerCall.awaited, ho]
  | fulfil v r =>
    obtain rfl : v = w := hl
    obtain ⟨d, hd, hs⟩ := Option.bind_eq_some_iff.mp hs
    obtain rfl := Option.some.inj (hc.symm.trans hd)
    split at hs
    · rename_i hi
      obtain rfl := Option.some.inj hs
      refine served_set (d := { c with inner := some r }) ⟨rfl, rfl, hp, ?_⟩ rfl rfl rfl
      simp [WorkerCall.left, WorkerCall.awaited, hi]
    · cases hs

/-- A call past the guard is never stuck. -/
theorem Inv.exists_step (h : s.Inv) (hc : s.workers w = some c) (hp : c.passed = true) :
    ∃ l : CallLabel T A R, l.serves w ∧ (s.step l).isSome = true := by
  have hstage := h.stage w c hc
  have hgo : (s.goWorker w c).isSome = true → ∃ l : CallLabel T A R, l.serves w ∧
      (s.step l).isSome = true := by
    intro hsome
    refine ⟨.go w, rfl, ?_⟩
    show ((s.workers w).bind (s.goWorker w)).isSome = true
    rw [hc]
    exact hsome
  unfold Stage at hstage
  cases hphase : c.phase with
  | entering => exact absurd hphase ((passed_iff c).mp hp)
  | guarded | framed | pointed | unwinding r | releasing r =>
    exact hgo (by simp [goWorker, hphase])
  | aimed => exact ⟨.send w (.ok ()), rfl, by simp [Calls.step, hc, hphase]⟩
  | waiting =>
    rw [hphase] at hstage
    rcases hstage.2 with hw | hw | hw
    · exact ⟨.dispatch, trivial, by simp [Calls.step, hw.2.1, hw.2.2.1]⟩
    · refine ⟨.respond (.error (.other "")), trivial, ?_⟩
      simp [Calls.step, hw.2.2.2.2]
    · exact hgo (by simpa [goWorker, hphase, Option.isSome_iff_ne_none] using hw.1)
  | waitingInner =>
    rw [hphase] at hstage
    cases hi : c.inner with
    | none =>
      refine ⟨.fulfil w (.error (.other "")), rfl, ?_⟩
      simp [Calls.step, hc, hstage.2.2.1, hi]
    | some r => exact hgo (by simp [goWorker, hphase, hi])

theorem Inv.lawful (h : s.Inv) : s.Lawful where
  tame := h.tame
  guard := h.guard
  alone := h.alone
  blocked w hw := by
    obtain ⟨v, c, hc, hp, -, hcase⟩ := h.waiting fun hq => by
      rw [hq.2] at hw
      cases hw
    rcases hcase with ⟨-, -, hno, -⟩ | ⟨ho, -, hruns, -, hserving⟩
    · rw [hno] at hw
      cases hw
    · obtain rfl := Option.some.inj (hserving.symm.trans hw)
      exact ⟨c, hc, hp, ho, hruns⟩
  once w c hc := h.once hc
  ended := h.ended
  rejected := h.rejected
  begins w type arg hw := by simp [Calls.step, hw]
  passes w c hc hp hrun := by
    show (s.workers w).bind (s.goWorker w) = _
    rw [hc, Option.bind_some]
    unfold goWorker
    rw [hp, hrun]
    rfl
  undisturbed w c hc hp hrun := by
    show (s.workers w).bind (s.goWorker w) = _
    rw [hc, Option.bind_some]
    unfold goWorker
    rw [hp]
    exact if_pos hrun
  progress w c hc hp :=
    ⟨h.exists_step hc hp, fun _ _ hl hs => (h.served hc hp hl hs).left_lt hc⟩
  ends w c l t hc hp hl hs := h.ends hc hp (h.served hc hp hl hs)

end Step

end Calls

/-! ## The uninterrupted call -/

namespace Calls

variable {T A R : Type} {s t : Calls T A R} {w : Nat} {c : WorkerCall T A R}

def frame (c : WorkerCall T A R) : Option (AsyncData A (Answer R)) :=
  if c.hasData then some ⟨c.arg, ⟨c.outer, true⟩⟩ else none

/-- The handle and the `async_data` on the stacks. -/
def toAsync (s : Calls T A R) : Async A (Answer R) :=
  ⟨s.running, s.data, s.pending, fun w => (s.workers w).bind frame⟩

theorem frames_set (s : Calls T A R) (w : Nat) (x : Option (WorkerCall T A R)) :
    (fun v => (Function.update s.workers w x v).bind frame) =
      Function.update s.toAsync.frames w (x.bind frame) := by
  funext v
  by_cases hv : v = w
  · rw [hv, Function.update_self, Function.update_self]
  · rw [Function.update_of_ne hv, Function.update_of_ne hv]
    rfl

theorem frames_eq (hc : s.workers w = some c) : s.toAsync.frames w = frame c := by
  show (s.workers w).bind frame = frame c
  rw [hc]
  rfl

variable [DecidableEq T]

/-- A worker that nobody interrupts gets to its wait as `Async.call` has it. -/
theorem toAsync_call (type : T) (arg : A) (hw : s.workers w = none) (hr : s.running = false) :
    ∃ t, (callMachine T A R).run s
        [.enter w type arg, .go w, .go w, .go w, .go w, .send w (.ok ())] = some t ∧
      (Async.call w arg (.ok ())).run s.toAsync = .ok () t.toAsync := by
  refine ⟨{ s with
    running := true, data := some w, asyncCb := some type, pending := true
    workers := Function.update s.workers w
      (some { (WorkerCall.fresh type arg : WorkerCall T A R) with phase := .waiting }) }, ?_, ?_⟩
  · simp [Machine.run, callMachine, Calls.step, hw, hr, Calls.set, goWorker, goOn, WorkerCall.fresh]
  · rw [Async.call_ok w arg hr]
    unfold toAsync
    rw [frames_set]
    rfl

theorem Inv.toAsync_dispatch (h : s.Inv) (hs : s.step .dispatch = some t) :
    ∃ w c, s.workers w = some c ∧ s.toAsync.dispatch = some (w, c.arg, t.toAsync) := by
  simp only [Calls.step, Option.ite_none_right_eq_some, Option.some.injEq] at hs
  obtain ⟨⟨hpending, hserving⟩, rfl⟩ := hs
  obtain ⟨w, c, hc, hphase, -, hw⟩ := h.waiting fun hq => by
    rw [hq.1] at hpending
    cases hpending
  rcases hw with ⟨hf, -, -, hdata, hcb⟩ | ⟨-, -, -, hno, -⟩
  · have hhas : c.hasData = true := by simp [WorkerCall.hasData, hphase]
    have hframe : frame c = some ⟨c.arg, ⟨c.outer, true⟩⟩ := if_pos hhas
    refine ⟨w, c, hc, ?_⟩
    rw [Async.dispatch_eq hpending hdata ((frames_eq hc).trans hframe)]
    unfold Calls.dispatch
    simp only [hdata, hcb, hc, hhas, and_self, if_true, toAsync, Calls.set]
    rw [frames_set]
    -- the run that is noted leaves the frame as it is
    have hsame : frame { c with runs := c.runs ++ [c.arg] } = s.toAsync.frames w :=
      (frames_eq hc).symm
    rw [Option.bind_some, hsame, Function.update_eq_self]
    rfl
  · rw [hpending] at hno
    cases hno

theorem Inv.toAsync_respond (h : s.Inv) (hs : s.serving = some w) (o : Except Exn (Answer R)) :
    (s.respond w o).toAsync = s.toAsync.setResult w o := by
  obtain ⟨c, hc, hphase, ho, -⟩ := h.lawful.blocked w hs
  have hhas : c.hasData = true := by simp [WorkerCall.hasData, hphase]
  have hframe : s.toAsync.frames w = some ⟨c.arg, ⟨none, true⟩⟩ := by
    rw [frames_eq hc, frame, if_pos hhas, ho]
  unfold Calls.respond Async.setResult
  simp only [hc, hhas, ho, Option.isNone_none, and_self, if_true, toAsync, Calls.set]
  rw [frames_set]
  simp [frame, WorkerCall.hasData, hphase, OneShot.setResult, toAsync, ho]

/-- The way out of `operator()`. -/
theorem toAsync_leave {r : Except Exn R} (hc : s.workers w = some c)
    (hp : c.phase = .unwinding r) :
    ∃ t, (callMachine T A R).run s [.go w, .go w] = some t ∧ t.toAsync = s.toAsync.leave w := by
  refine ⟨{ s with
    running := false
    workers := Function.update s.workers w none
    ended := s.ended ++ [({ c with phase := .releasing r }, r)] }, ?_, ?_⟩
  · simp [Machine.run, callMachine, Calls.step, hc, Calls.set, goWorker, goOn, hp]
  · unfold toAsync Async.leave
    rw [frames_set]
    rfl

end Calls

/-- The second of two workers finds the guard taken, and calls again when it is free. -/
def callsAgain : List (CallLabel Unit Nat Nat) :=
  [.enter 0 () 10, .go 0, .enter 1 () 11, .go 0, .go 1, .go 0, .go 0, .send 0 (.ok ()), .dispatch,
    .respond (.ok .later), .go 0, .fulfil 0 (.ok 20), .go 0, .go 0, .go 0, .enter 1 () 12, .go 1,
    .go 1, .go 1, .go 1, .send 1 (.error "EBADF"), .go 1, .go 1]

end NodeSvn
