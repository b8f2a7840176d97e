import NodeSvn.Lib.Machine
import NodeSvn.Uv.Async
import NodeSvn.Node.Auth

/-!
# Simple auth providers: the threads

A pool thread asks for a credential through a `uv::async` and waits; the loop thread runs
`_invoke_implement`, which makes the arguments of JS and calls its functions.  JS runs at the
event loop and in the functions that are called, and it settles promises there; the reactions
of a promise are queued and run at a microtask checkpoint.

    get()       holds the loop thread until the cell of `promise::then` has a result, which
                only a reaction gives it
    no::data    of a present username calls itself again and again

So the loop thread waits for itself exactly if a function that is called returns a promise, and
all requests are served exactly if also none comes with a username (`always_live_iff`).
-/

namespace NodeSvn

/-- The variables of `_invoke_implement`, and the thread it works for. -/
structure AuthFrame (F : Type) where
  caller : Nat
  argv : List JsData
  rest : List F

/-- Where the loop thread is. -/
inductive AuthLoop (F : Type) where
  | idle
  /-- at the arguments of JS -/
  | marshalling (caller : Nat) (request : AuthRequest)
  /-- in a call of `no::data` that calls itself -/
  | recursing (caller : Nat)
  | consulting (frame : AuthFrame F)
  | calling (frame : AuthFrame F) (f : F)
  /-- in `get()` -/
  | waiting (frame : AuthFrame F) (cell : Nat)
  | aborted

/-- The thread that the call of `_invoke_implement` on the stack works for. -/
def AuthLoop.caller {F : Type} : AuthLoop F → Option Nat
  | .idle => none
  | .marshalling w _ => some w
  | .recursing w => some w
  | .consulting frame => some frame.caller
  | .calling frame _ => some frame.caller
  | .waiting frame _ => some frame.caller
  | .aborted => none

structure JsPromise where
  outcome : Option (Except AuthValue AuthValue)
  /-- the cells of the reactions that are registered -/
  reactions : List Nat

structure AuthState (F : Type) where
  async : Async AuthRequest (Option SimpleAuth)
  /-- the pool threads in `future.get()` -/
  waiting : Nat → Bool
  functions : List F
  loop : AuthLoop F
  promises : List JsPromise
  microtasks : List (Nat × Except AuthValue AuthValue)
  cells : List AuthCell

inductive AuthLabel (F : Type) where
  | request (w : Nat) (request : AuthRequest)
  | receive (w : Nat)
  | registry (call : RegistryCall F)
  | newPromise
  | settle (p : Nat) (outcome : Except AuthValue AuthValue)
  | microtask
  | dispatch
  | marshal
  /-- `no::data` calls itself again. -/
  | recurse
  | call
  | returns (v : AuthValue)
  | returnsPromise (p : Nat)
  | throws
  | get
  | answer

namespace AuthState

variable {F : Type}

def create : AuthState F := ⟨.create, fun _ => false, [], .idle, [], [], []⟩

/-- JS is on top of the loop thread's stack, or nothing is. -/
def runsJs (s : AuthState F) : Bool :=
  match s.loop with
  | .idle => true
  | .calling .. => true
  | _ => false

/-- `promise::then` with a new cell, whose number it is. -/
def promiseThen (s : AuthState F) (p : Nat) (promise : JsPromise) : AuthState F :=
  match promise.outcome with
  | none => { s with
      cells := s.cells ++ [thenCell]
      promises := s.promises.set p
        { promise with reactions := promise.reactions ++ [s.cells.length] } }
  | some outcome => { s with
      cells := s.cells ++ [thenCell]
      microtasks := s.microtasks ++ [(s.cells.length, outcome)] }

def step [DecidableEq F] (newFromUtf8 : NewFromUtf8) (s : AuthState F) :
    AuthLabel F → Option (AuthState F)
  | .request w request =>
    if s.waiting w then none
    else match (Async.call w request (.ok ())).run s.async with
      | .ok _ async => some { s with async, waiting := Function.update s.waiting w true }
      | .error _ async => some { s with async }
  | .receive w =>
    if s.waiting w && (s.async.result w).isSome then
      some { s with async := s.async.leave w, waiting := Function.update s.waiting w false }
    else none
  | .registry call =>
    if s.runsJs then
      some { s with functions := (call.apply s.functions).toOption.getD s.functions }
    else none
  | .newPromise =>
    if s.runsJs then some { s with promises := s.promises ++ [⟨none, []⟩] } else none
  | .settle p outcome =>
    if s.runsJs then
      match s.promises[p]? with
      | some ⟨none, reactions⟩ => some { s with
          promises := s.promises.set p ⟨some outcome, []⟩
          microtasks := s.microtasks ++ reactions.map fun cell => (cell, outcome) }
      | _ => none
    else none
  | .microtask =>
    if s.runsJs then
      match s.microtasks with
      | [] => none
      | (cell, outcome) :: rest =>
        match s.cells[cell]?.map (invokeCallback outcome) with
        | some (.ok c) => some { s with microtasks := rest, cells := s.cells.set cell c }
        -- an exception leaves the callback of V8
        | some (.error _) => some { s with loop := .aborted }
        | none => none
    else none
  | .dispatch =>
    match s.loop, s.async.dispatch with
    | .idle, some (w, request, async) =>
      some { s with async, loop := .marshalling w request }
    | _, _ => none
  | .marshal =>
    match s.loop with
    | .marshalling w request =>
      -- a call of `no::data` that returns takes two steps at most
      match request.argv newFromUtf8 2 with
      | some (.ok argv) => some { s with loop := .consulting ⟨w, argv, s.functions⟩ }
      | some (.error (.thrown e)) =>
        some { s with loop := .idle, async := s.async.setResult w (.error e) }
      | some (.error _) => some { s with loop := .aborted }
      | none => some { s with loop := .recursing w }
    | _ => none
  | .recurse =>
    match s.loop with
    | .recursing _ => some s
    | _ => none
  | .call =>
    match s.loop with
    | .consulting ⟨w, argv, f :: rest⟩ => some { s with loop := .calling ⟨w, argv, rest⟩ f }
    | _ => none
  | .returns _ =>
    match s.loop with
    | .calling frame _ => some { s with loop := .consulting frame }
    | _ => none
  | .returnsPromise p =>
    match s.loop, s.promises[p]? with
    | .calling frame _, some promise =>
      some { s.promiseThen p promise with loop := .waiting frame s.cells.length }
    | _, _ => none
  | .throws =>
    match s.loop with
    | .calling .. => some { s with loop := .aborted }
    | _ => none
  | .get =>
    match s.loop with
    | .waiting frame cell =>
      match s.cells[cell]?.bind (·.result) with
      | some (.ok none) => some { s with loop := .consulting frame }
      | some result =>
        some { s with loop := .idle, async := s.async.setResult frame.caller result }
      | none => none
    | _ => none
  | .answer =>
    match s.loop with
    | .consulting ⟨w, _, []⟩ =>
      some { s with loop := .idle, async := s.async.setResult w (.ok none) }
    | _ => none

end AuthState

/-- One provider in the process. -/
def authMachine (newFromUtf8 : NewFromUtf8) (F : Type) [DecidableEq F] :
    Machine (AuthState F) (AuthLabel F) where
  init := .create
  step := AuthState.step newFromUtf8

/-- No function returns a promise in this step. -/
def AuthLabel.isSync {F : Type} : AuthLabel F → Bool
  | .returnsPromise _ => false
  | _ => true

/-- A step that a pool thread takes to ask for a credential, or that leaves all as it is. -/
def AuthLabel.isIdling {F : Type} : AuthLabel F → Bool
  | .request .. => true
  | .recurse => true
  | _ => false

/-- A step on the way from the request of `w` to its answer. -/
def AuthLabel.serves {F : Type} (w : Nat) : AuthLabel F → Bool
  | .dispatch => true
  | .marshal => true
  | .call => true
  | .returns _ => true
  | .get => true
  | .answer => true
  | .receive v => v = w
  | _ => false

/-- The call of JS to the registry. -/
def AuthLabel.registryCall {F : Type} : AuthLabel F → Option (RegistryCall F)
  | .registry c => some c
  | _ => none

namespace AuthState

variable {F : Type} {newFromUtf8 : NewFromUtf8} {s s' : AuthState F} {l : AuthLabel F} {w : Nat}

/-- The loop thread waits for a cell that has no result. -/
def LoopBlocked (s : AuthState F) : Prop :=
  ∃ frame cell, s.loop = .waiting frame cell ∧ s.cells[cell]?.bind (·.result) = none

/-- The process is gone, or for each pool thread that waits a step is enabled that serves it. -/
def Served [DecidableEq F] (newFromUtf8 : NewFromUtf8) (s : AuthState F) : Prop :=
  s.loop = .aborted ∨
    ∀ w, s.waiting w = true →
      ∃ l : AuthLabel F, l.serves w = true ∧ (authMachine newFromUtf8 F).Enabled s l

def Live [DecidableEq F] (newFromUtf8 : NewFromUtf8) (s : AuthState F) : Prop :=
  ¬ s.LoopBlocked ∧ s.Served newFromUtf8

/-- The step returns no promise, and makes no arguments of a request with a username (of which
V8 takes the realm). -/
def harmless (newFromUtf8 : NewFromUtf8) (s : AuthState F) : AuthLabel F → Bool
  | .returnsPromise _ => false
  | .marshal =>
    match s.loop with
    | .marshalling _ request =>
      request.username.isNone || (request.jsRealm newFromUtf8).isNone
    | _ => true
  | _ => true

/-! ## Who waits for whom -/

/-- `w` alone waits. -/
def Only (s : AuthState F) (w : Nat) : Prop := ∀ v, s.waiting v = true ↔ v = w

/-- The state of the call, by where the loop thread is. -/
structure Phase (s : AuthState F) : Prop where
  idle : s.loop = .idle →
    (s.async.Idle ∧ ∀ v, s.waiting v = false) ∨
      (∃ w request, s.async.Called w request ∧ s.Only w) ∨
      ∃ w result, s.async.Answered w result ∧ s.Only w
  serving : ∀ w, s.loop.caller = some w → s.async.Serving w ∧ s.Only w

theorem phase_create : (create : AuthState F).Phase :=
  ⟨fun _ => .inl ⟨⟨rfl, rfl⟩, fun _ => rfl⟩, by simp [create, AuthLoop.caller]⟩

/-- The phase is read off the call, the waiting threads and the loop thread. -/
theorem Phase.congr (h : s.Phase) (ha : s'.async = s.async) (hw : s'.waiting = s.waiting)
    (hl : s'.loop = s.loop) : s'.Phase := by
  refine ⟨fun hi => ?_, fun w hf => ?_⟩
  · simpa only [Only, ha, hw] using h.idle (hl ▸ hi)
  · simpa only [Only, ha, hw] using h.serving w (hl ▸ hf)

theorem phase_of_aborted (h : s.loop = .aborted) : s.Phase :=
  ⟨by simp [h], by simp [h, AuthLoop.caller]⟩

/-- The loop thread goes on for the thread that it serves. -/
theorem Phase.of_caller (h : s.Phase) (hf : s.loop.caller = some w)
    (hf' : s'.loop.caller = some w) (ha : s'.async = s.async)
    (hw : s'.waiting = s.waiting) : s'.Phase := by
  refine ⟨fun hi => ?_, fun v hv => ?_⟩
  · rw [hi] at hf'
    cases hf'
  · obtain rfl := Option.some.inj (hf'.symm.trans hv)
    simpa only [Only, ha, hw] using h.serving w hf

/-- The loop thread answers the thread it serves. -/
theorem Phase.answer (h : s.Phase) (hf : s.loop.caller = some w)
    (result : Except Exn (Option SimpleAuth)) :
    ({ s with loop := .idle, async := s.async.setResult w result } : AuthState F).Phase := by
  obtain ⟨hs, ho⟩ := h.serving w hf
  exact ⟨fun _ => .inr (.inr ⟨w, result, hs.setResult result, ho⟩), by simp [AuthLoop.caller]⟩

theorem loop_cases (s : AuthState F) :
    s.loop = .idle ∨ (∃ w, s.loop.caller = some w) ∨ s.loop = .aborted := by
  cases s.loop <;> simp [AuthLoop.caller]

/-- A waiting thread without a result is not released, and only one thread waits. -/
theorem Phase.answered_of_result (h : s.Phase) (hl : s.loop ≠ .aborted)
    (hw : s.waiting w = true) (hr : (s.async.result w).isSome = true) :
    s.loop = .idle ∧ (∃ result, s.async.Answered w result) ∧ s.Only w := by
  have hnone : ∀ {arg}, s.async.frames w = some (Async.waiting arg) → False := by
    intro arg hf
    simp [Async.result_waiting hf] at hr
  rcases s.loop_cases with hi | ⟨v, hf⟩ | ha
  · rcases h.idle hi with ⟨-, hv⟩ | ⟨v, request, hc, ho⟩ | ⟨v, result, ha, ho⟩
    · exact absurd (hw.symm.trans (hv w)) (by simp)
    · obtain rfl := (ho w).mp hw
      exact (hnone hc.2.2.2).elim
    · obtain rfl := (ho w).mp hw
      exact ⟨hi, ⟨result, ha⟩, ho⟩
  · obtain ⟨⟨-, -, arg, hs⟩, ho⟩ := h.serving v hf
    obtain rfl := (ho w).mp hw
    exact (hnone hs).elim
  · exact absurd ha hl

theorem Phase.idle_or_running (h : s.Phase) (hl : s.loop ≠ .aborted) :
    (s.loop = .idle ∧ s.async.Idle ∧ ∀ v, s.waiting v = false) ∨ s.async.running = true := by
  rcases s.loop_cases with hi | ⟨v, hf⟩ | ha
  · rcases h.idle hi with ⟨hidle, hv⟩ | ⟨w, request, hc, -⟩ | ⟨w, result, ha, -⟩
    · exact .inl ⟨hi, hidle, hv⟩
    · exact .inr hc.1
    · exact .inr ha.1
  · exact .inr (h.serving v hf).1.1
  · exact absurd ha hl

/-! ## What a step does -/

@[simp] theorem promiseThen_async (p : Nat) (promise : JsPromise) :
    (s.promiseThen p promise).async = s.async := by
  unfold promiseThen
  split <;> rfl

@[simp] theorem promiseThen_waiting (p : Nat) (promise : JsPromise) :
    (s.promiseThen p promise).waiting = s.waiting := by
  unfold promiseThen
  split <;> rfl

@[simp] theorem promiseThen_cells (p : Nat) (promise : JsPromise) :
    (s.promiseThen p promise).cells = s.cells ++ [thenCell] := by
  unfold promiseThen
  split <;> rfl

@[simp] theorem promiseThen_functions (p : Nat) (promise : JsPromise) :
    (s.promiseThen p promise).functions = s.functions := by
  unfold promiseThen
  split <;> rfl

variable [DecidableEq F]

/-- The steps by what they change. -/
inductive Step (newFromUtf8 : NewFromUtf8) (s : AuthState F) :
    AuthLabel F → AuthState F → Prop
  | asked (w : Nat) (request : AuthRequest) (async : Async AuthRequest (Option SimpleAuth))
      (hw : s.waiting w = false)
      (hcall : (Async.call w request (.ok ())).run s.async = .ok () async) :
      Step newFromUtf8 s (.request w request)
        { s with async, waiting := Function.update s.waiting w true }
  | refused (w : Nat) (request : AuthRequest) (e : Exn)
      (async : Async AuthRequest (Option SimpleAuth)) (hw : s.waiting w = false)
      (hcall : (Async.call w request (.ok ())).run s.async = .error e async) :
      Step newFromUtf8 s (.request w request) { s with async }
  | received (w : Nat) (hw : s.waiting w = true) (hr : (s.async.result w).isSome = true) :
      Step newFromUtf8 s (.receive w)
        { s with async := s.async.leave w, waiting := Function.update s.waiting w false }
  | registry (call : RegistryCall F) (hjs : s.runsJs = true) :
      Step newFromUtf8 s (.registry call)
        { s with functions := (call.apply s.functions).toOption.getD s.functions }
  /-- Promises and their reactions. -/
  | heap (l : AuthLabel F) (promises : List JsPromise)
      (microtasks : List (Nat × Except AuthValue AuthValue)) (cells : List AuthCell)
      (hjs : s.runsJs = true)
      (hl : l = .newPromise ∨ (∃ p outcome, l = .settle p outcome) ∨ l = .microtask) :
      Step newFromUtf8 s l { s with promises, microtasks, cells }
  | crashed (hjs : s.runsJs = true) :
      Step newFromUtf8 s .microtask { s with loop := .aborted }
  | dispatched (w : Nat) (request : AuthRequest)
      (async : Async AuthRequest (Option SimpleAuth)) (hl : s.loop = .idle)
      (hd : s.async.dispatch = some (w, request, async)) :
      Step newFromUtf8 s .dispatch { s with async, loop := .marshalling w request }
  | marshalled (w : Nat) (request : AuthRequest) (argv : List JsData)
      (hl : s.loop = .marshalling w request)
      (hmade : request.marshalled newFromUtf8 = pure argv) :
      Step newFromUtf8 s .marshal { s with loop := .consulting ⟨w, argv, s.functions⟩ }
  | realmRefused (w : Nat) (request : AuthRequest) (hl : s.loop = .marshalling w request)
      (hrealm : request.jsRealm newFromUtf8 = none) :
      Step newFromUtf8 s .marshal
        { s with loop := .idle, async := s.async.setResult w (.error (.runtimeError "")) }
  | recursed (w : Nat) (request : AuthRequest) (hl : s.loop = .marshalling w request)
      (hrealm : (request.jsRealm newFromUtf8).isSome = true)
      (husername : request.username.isSome = true) :
      Step newFromUtf8 s .marshal { s with loop := .recursing w }
  | again (w : Nat) (hl : s.loop = .recursing w) : Step newFromUtf8 s .recurse s
  | called (w : Nat) (argv : List JsData) (f : F) (rest : List F)
      (hl : s.loop = .consulting ⟨w, argv, f :: rest⟩) :
      Step newFromUtf8 s .call { s with loop := .calling ⟨w, argv, rest⟩ f }
  | returned (frame : AuthFrame F) (f : F) (v : AuthValue) (hl : s.loop = .calling frame f) :
      Step newFromUtf8 s (.returns v) { s with loop := .consulting frame }
  | promised (frame : AuthFrame F) (f : F) (p : Nat) (promise : JsPromise)
      (hl : s.loop = .calling frame f) :
      Step newFromUtf8 s (.returnsPromise p)
        { s.promiseThen p promise with loop := .waiting frame s.cells.length }
  | thrown (frame : AuthFrame F) (f : F) (hl : s.loop = .calling frame f) :
      Step newFromUtf8 s .throws { s with loop := .aborted }
  | passed (frame : AuthFrame F) (cell : Nat) (hl : s.loop = .waiting frame cell)
      (hr : s.cells[cell]?.bind (·.result) = some (.ok none)) :
      Step newFromUtf8 s .get { s with loop := .consulting frame }
  | got (frame : AuthFrame F) (cell : Nat) (result : Except Exn (Option SimpleAuth))
      (hl : s.loop = .waiting frame cell)
      (hr : s.cells[cell]?.bind (·.result) = some result) :
      Step newFromUtf8 s .get
        { s with loop := .idle, async := s.async.setResult frame.caller result }
  | answered (w : Nat) (argv : List JsData) (hl : s.loop = .consulting ⟨w, argv, []⟩) :
      Step newFromUtf8 s .answer { s with loop := .idle, async := s.async.setResult w (.ok none) }

/-- Arguments are made, or V8 refuses the realm, or there is a username. -/
theorem step_cases_marshal {request : AuthRequest} (hl : s.loop = .marshalling w request)
    (hs : (match request.marshalled newFromUtf8 with
      | some (.ok argv) => some { s with loop := .consulting ⟨w, argv, s.functions⟩ }
      | some (.error (.thrown e)) =>
        some { s with loop := .idle, async := s.async.setResult w (.error e) }
      | some (.error _) => some { s with loop := .aborted }
      | none => some { s with loop := .recursing w }) = some s') :
    Step newFromUtf8 s .marshal s' := by
  cases hrealm : request.jsRealm newFromUtf8 with
  | none =>
    have hmade : request.marshalled newFromUtf8 = .stop (.thrown (.runtimeError "")) := by
      rw [AuthRequest.marshalled, hrealm]
    rw [hmade] at hs
    obtain rfl := Option.some.inj hs
    exact .realmRefused w request hl hrealm
  | some realm =>
    cases husername : request.username with
    | some username =>
      have hmade : request.marshalled newFromUtf8 = ExceptT.mk none := by
        rw [AuthRequest.marshalled, hrealm, husername]
      rw [hmade] at hs
      obtain rfl := Option.some.inj hs
      exact .recursed w request hl (hrealm ▸ rfl) (husername ▸ rfl)
    | none =>
      have hmade := AuthRequest.marshalled_eq_pure_iff.mpr ⟨realm, hrealm, husername, rfl⟩
      rw [hmade] at hs
      obtain rfl := Option.some.inj hs
      exact .marshalled w request _ hl hmade

theorem step_cases (hs : s.step newFromUtf8 l = some s') : Step newFromUtf8 s l s' := by
  cases l with
  | request w request =>
    simp only [step] at hs
    split at hs
    · cases hs
    · rename_i hw
      split at hs
      · rename_i async hcall
        obtain rfl := Option.some.inj hs
        exact .asked w request async (by simpa using hw) hcall
      · rename_i e async hcall
        obtain rfl := Option.some.inj hs
        exact .refused w request e async (by simpa using hw) hcall
  | receive w =>
    simp only [step] at hs
    split at hs
    · rename_i hc
      obtain rfl := Option.some.inj hs
      rw [Bool.and_eq_true] at hc
      exact .received w hc.1 hc.2
    · cases hs
  | registry call =>
    simp only [step] at hs
    split at hs
    · rename_i hjs
      obtain rfl := Option.some.inj hs
      exact .registry call hjs
    · cases hs
  | newPromise =>
    simp only [step] at hs
    split at hs
    · rename_i hjs
      obtain rfl := Option.some.inj hs
      exact .heap _ _ _ _ hjs (.inl rfl)
    · cases hs
  | settle p outcome =>
    simp only [step] at hs
    split at hs
    · rename_i hjs
      split at hs
      · obtain rfl := Option.some.inj hs
        exact .heap _ _ _ _ hjs (.inr (.inl ⟨p, outcome, rfl⟩))
      · cases hs
    · cases hs
  | microtask =>
    simp only [step] at hs
    split at hs
    · rename_i hjs
      split at hs
      · cases hs
      · split at hs
        · obtain rfl := Option.some.inj hs
          exact .heap _ _ _ _ hjs (.inr (.inr rfl))
        · obtain rfl := Option.some.inj hs
          exact .crashed hjs
        · cases hs
    · cases hs
  | dispatch =>
    simp only [step] at hs
    split at hs
    · rename_i w request async hl hd
      obtain rfl := Option.some.inj hs
      exact .dispatched w request async hl hd
    · cases hs
  | marshal =>
    simp only [step] at hs
    split at hs
    · rename_i w request hl
      rw [AuthRequest.argv_eq newFromUtf8 request 0] at hs
      exact step_cases_marshal hl hs
    · cases hs
  | recurse =>
    simp only [step] at hs
    split at hs
    · rename_i w hl
      obtain rfl := Option.some.inj hs
      exact .again w hl
    · cases hs
  | call =>
    simp only [step] at hs
    split at hs
    · rename_i w argv f rest hl
      obtain rfl := Option.some.inj hs
      exact .called w argv f rest hl
    · cases hs
  | returns v =>
    simp only [step] at hs
    split at hs
    · rename_i frame f hl
      obtain rfl := Option.some.inj hs
      exact .returned frame f v hl
    · cases hs
  | returnsPromise p =>
    simp only [step] at hs
    split at hs
    · rename_i frame f promise hl hp
      obtain rfl := Option.some.inj hs
      exact .promised frame f p promise hl
    · cases hs
  | throws =>
    simp only [step] at hs
    split at hs
    · rename_i frame f hl
      obtain rfl := Option.some.inj hs
      exact .thrown frame f hl
    · cases hs
  | get =>
    simp only [step] at hs
    split at hs
    · rename_i frame cell hl
      split at hs
      · rename_i hr
        obtain rfl := Option.some.inj hs
        exact .passed frame cell hl hr
      · rename_i result _ hr
        obtain rfl := Option.some.inj hs
        exact .got frame cell result hl hr
      · cases hs
    · cases hs
  | answer =>
    simp only [step] at hs
    split at hs
    · rename_i w argv hl
      obtain rfl := Option.some.inj hs
      exact .answered w argv hl
    · cases hs

theorem phase_step (h : s.Phase) (hs : Step newFromUtf8 s l s') : s'.Phase := by
  cases hs with
  | asked w request async hw hcall =>
    by_cases ha : s.loop = .aborted
    · exact phase_of_aborted ha
    rcases h.idle_or_running ha with ⟨hi, hidle, hv⟩ | hrunning
    · obtain ⟨async', hcall', hcalled⟩ := hidle.call w request
      obtain rfl : async = async' := by simpa [hcall] using hcall'
      refine ⟨fun _ => .inr (.inl ⟨w, request, hcalled, fun v => ?_⟩),
        by simp [hi, AuthLoop.caller]⟩
      by_cases hvw : v = w
      · simp [hvw]
      · simp [hvw, hv]
    · simp [Async.call_running w request (.ok ()) hrunning] at hcall
  | refused w request e async hw hcall =>
    by_cases ha : s.loop = .aborted
    · exact phase_of_aborted ha
    rcases h.idle_or_running ha with ⟨-, hidle, -⟩ | hrunning
    · obtain ⟨async', hcall', -⟩ := hidle.call w request
      simp [hcall] at hcall'
    · obtain ⟨-, rfl⟩ : Exn.runtimeError "" = e ∧ s.async = async := by
        simpa [Async.call_running w request (.ok ()) hrunning] using hcall
      exact h
  | received w hw hr =>
    by_cases hl : s.loop = .aborted
    · exact phase_of_aborted hl
    obtain ⟨hi, ⟨result, ha⟩, ho⟩ := h.answered_of_result hl hw hr
    refine ⟨fun _ => .inl ⟨ha.leave, fun v => ?_⟩, by simp [hi, AuthLoop.caller]⟩
    by_cases hvw : v = w
    · simp [hvw]
    · have : s.waiting v ≠ true := fun hv => hvw ((ho v).mp hv)
      simpa [hvw] using this
  | registry => exact h.congr rfl rfl rfl
  | heap => exact h.congr rfl rfl rfl
  | crashed => exact phase_of_aborted rfl
  | dispatched w request async hi hd =>
    rcases h.idle hi with ⟨hidle, -⟩ | ⟨v, request', hc, ho⟩ | ⟨v, result, ha, -⟩
    · exact absurd (hd.symm.trans hidle.dispatch) (by simp)
    · obtain ⟨async', hd', hserving⟩ := hc.dispatch
      obtain ⟨rfl, rfl, rfl⟩ : w = v ∧ request = request' ∧ async = async' := by
        simpa using hd.symm.trans hd'
      refine ⟨by simp, fun v hv => ?_⟩
      obtain rfl := Option.some.inj hv
      exact ⟨hserving, ho⟩
    · simp [Async.dispatch, ha.2.1] at hd
  | marshalled w request argv hl =>
    exact h.of_caller (congrArg AuthLoop.caller hl) rfl rfl rfl
  | realmRefused w request hl => exact h.answer (congrArg AuthLoop.caller hl) _
  | recursed w request hl => exact h.of_caller (congrArg AuthLoop.caller hl) rfl rfl rfl
  | again => exact h
  | called w argv f rest hl => exact h.of_caller (congrArg AuthLoop.caller hl) rfl rfl rfl
  | returned frame f v hl => exact h.of_caller (congrArg AuthLoop.caller hl) rfl rfl rfl
  | promised frame f p promise hl =>
    exact h.of_caller (congrArg AuthLoop.caller hl) rfl (promiseThen_async ..)
      (promiseThen_waiting ..)
  | thrown => exact phase_of_aborted rfl
  | passed frame cell hl => exact h.of_caller (congrArg AuthLoop.caller hl) rfl rfl rfl
  | got frame cell result hl => exact h.answer (congrArg AuthLoop.caller hl) result
  | answered w argv hl => exact h.answer (congrArg AuthLoop.caller hl) (.ok none)

theorem phase_reachable (h : (authMachine newFromUtf8 F).Reachable s) : s.Phase :=
  h.invariant phase_create fun _ _ _ hp hs => phase_step hp (step_cases hs)

/-! ## Deadlock -/

/-- The loop thread comes to `get()` only from a function that returns a promise. -/
theorem waiting_of_step (hs : Step newFromUtf8 s l s') {frame : AuthFrame F} {cell : Nat}
    (hw : s'.loop = .waiting frame cell) :
    s.loop = .waiting frame cell ∨ l.isSync = false := by
  cases hs with
  | asked => exact .inl hw
  | refused => exact .inl hw
  | received => exact .inl hw
  | registry => exact .inl hw
  | heap => exact .inl hw
  | again => exact .inl hw
  | promised frame f p => exact .inr rfl
  | _ => cases hw

/-- It comes to call `no::data` without end only from a request with a username. -/
theorem recursing_of_step (hs : Step newFromUtf8 s l s') (hw : s'.loop = .recursing w) :
    s.loop = .recursing w ∨ s.harmless newFromUtf8 l = false := by
  cases hs with
  | asked => exact .inl hw
  | refused => exact .inl hw
  | received => exact .inl hw
  | registry => exact .inl hw
  | heap => exact .inl hw
  | again => exact .inl hw
  | recursed v request hl hrealm husername =>
    right
    simp [harmless, hl, Option.isNone_eq_false_iff.mpr husername,
      Option.isNone_eq_false_iff.mpr hrealm]
  | _ => cases hw

theorem blocked_step (h : s.Phase) (hb : s.LoopBlocked) (hs : Step newFromUtf8 s l s') :
    l.isIdling = true ∧ s'.LoopBlocked ∧ ∀ v, s.waiting v = true → s'.waiting v = true := by
  obtain ⟨frame, cell, hl, hc⟩ := hb
  cases hs with
  | asked w request async hw =>
    refine ⟨rfl, ⟨frame, cell, hl, hc⟩, fun v hv => ?_⟩
    by_cases hvw : v = w <;> simp [hvw, hv]
  | refused => exact ⟨rfl, ⟨frame, cell, hl, hc⟩, fun v hv => hv⟩
  | again => exact ⟨rfl, ⟨frame, cell, hl, hc⟩, fun v hv => hv⟩
  | received w hw hr =>
    obtain ⟨hi, -⟩ := h.answered_of_result (by simp [hl]) hw hr
    exact absurd (hl.symm.trans hi) (by simp)
  | registry call hjs => simp [runsJs, hl] at hjs
  | heap l promises microtasks cells hjs => simp [runsJs, hl] at hjs
  | crashed hjs => simp [runsJs, hl] at hjs
  | passed frame' cell' hl' hr =>
    obtain ⟨-, rfl⟩ : frame = frame' ∧ cell = cell' := by simpa [hl] using hl'
    exact absurd (hc.symm.trans hr) (by simp)
  | got frame' cell' result hl' hr =>
    obtain ⟨-, rfl⟩ : frame = frame' ∧ cell = cell' := by simpa [hl] using hl'
    exact absurd (hc.symm.trans hr) (by simp)
  | dispatched w request async hl' => exact absurd (hl.symm.trans hl') (by simp)
  | marshalled w request argv hl' => exact absurd (hl.symm.trans hl') (by simp)
  | realmRefused w request hl' => exact absurd (hl.symm.trans hl') (by simp)
  | recursed w request hl' => exact absurd (hl.symm.trans hl') (by simp)
  | called w argv f rest hl' => exact absurd (hl.symm.trans hl') (by simp)
  | returned frame' f v hl' => exact absurd (hl.symm.trans hl') (by simp)
  | promised frame' f p promise hl' => exact absurd (hl.symm.trans hl') (by simp)
  | thrown frame' f hl' => exact absurd (hl.symm.trans hl') (by simp)
  | answered w argv hl' => exact absurd (hl.symm.trans hl') (by simp)

theorem recursing_step (h : s.Phase) (hl : s.loop = .recursing w) (hs : Step newFromUtf8 s l s') :
    l.isIdling = true ∧ s'.loop = .recursing w ∧ ∀ v, s.waiting v = true → s'.waiting v = true := by
  cases hs with
  | asked w' request async hw =>
    refine ⟨rfl, hl, fun v hv => ?_⟩
    by_cases hvw : v = w' <;> simp [hvw, hv]
  | refused => exact ⟨rfl, hl, fun v hv => hv⟩
  | again => exact ⟨rfl, hl, fun v hv => hv⟩
  | received w hw hr =>
    obtain ⟨hi, -⟩ := h.answered_of_result (by simp [hl]) hw hr
    exact absurd (hl.symm.trans hi) (by simp)
  | registry call hjs => simp [runsJs, hl] at hjs
  | heap l promises microtasks cells hjs => simp [runsJs, hl] at hjs
  | crashed hjs => simp [runsJs, hl] at hjs
  | passed frame cell hl' => exact absurd (hl.symm.trans hl') (by simp)
  | got frame cell result hl' => exact absurd (hl.symm.trans hl') (by simp)
  | dispatched w request async hl' => exact absurd (hl.symm.trans hl') (by simp)
  | marshalled w request argv hl' => exact absurd (hl.symm.trans hl') (by simp)
  | realmRefused w request hl' => exact absurd (hl.symm.trans hl') (by simp)
  | recursed w request hl' => exact absurd (hl.symm.trans hl') (by simp)
  | called w argv f rest hl' => exact absurd (hl.symm.trans hl') (by simp)
  | returned frame f v hl' => exact absurd (hl.symm.trans hl') (by simp)
  | promised frame f p promise hl' => exact absurd (hl.symm.trans hl') (by simp)
  | thrown frame f hl' => exact absurd (hl.symm.trans hl') (by simp)
  | answered w argv hl' => exact absurd (hl.symm.trans hl') (by simp)

/-- The loop thread waits for itself, or calls `no::data` without end. -/
def Stuck (s : AuthState F) : Prop := s.LoopBlocked ∨ ∃ w, s.loop = .recursing w

theorem stuck_step (h : s.Phase) (hb : s.Stuck) (hs : Step newFromUtf8 s l s') :
    l.isIdling = true ∧ s'.Stuck ∧ ∀ v, s.waiting v = true → s'.waiting v = true := by
  rcases hb with hb | ⟨w, hl⟩
  · obtain ⟨hidling, hb', hwaiting⟩ := blocked_step h hb hs
    exact ⟨hidling, .inl hb', hwaiting⟩
  · obtain ⟨hidling, hl', hwaiting⟩ := recursing_step h hl hs
    exact ⟨hidling, .inr ⟨w, hl'⟩, hwaiting⟩

/-- **A pool thread that waits when the loop thread is stuck waits for ever.** -/
theorem stuck_run (hr : (authMachine newFromUtf8 F).Reachable s) (hb : s.Stuck)
    {ls : List (AuthLabel F)} (h : (authMachine newFromUtf8 F).run s ls = some s') :
    s'.Stuck ∧ ∀ v, s.waiting v = true → s'.waiting v = true := by
  have hinv : s'.Phase ∧ s'.Stuck ∧ ∀ v, s.waiting v = true → s'.waiting v = true := by
    refine Machine.run_invariant (M := authMachine newFromUtf8 F)
      (I := fun t => t.Phase ∧ t.Stuck ∧ ∀ v, s.waiting v = true → t.waiting v = true)
      ⟨phase_reachable hr, hb, fun _ hv => hv⟩ ?_ h
    rintro t l u ⟨hp, ht, hw⟩ hu
    obtain ⟨-, hbu, hwu⟩ := stuck_step hp ht (step_cases hu)
    exact ⟨phase_step hp (step_cases hu), hbu, fun v hv => hwu v (hw v hv)⟩
  exact hinv.2

/-- The cell is new, and its reaction runs at a checkpoint that is not reached. -/
theorem blocked_of_async (hs : Step newFromUtf8 s l s') (hl : l.isSync = false) :
    s'.LoopBlocked := by
  cases hs with
  | heap l promises microtasks cells hjs hl' =>
    rcases hl' with rfl | ⟨p, outcome, rfl⟩ | rfl <;> cases hl
  | promised frame f p promise => exact ⟨_, _, rfl, by simp [thenCell]⟩
  | _ => cases hl

/-- A step that does harm leaves the loop thread stuck, and its caller waiting. -/
theorem not_live_of_harm (hp : s'.Phase) (hs : Step newFromUtf8 s l s')
    (hl : s.harmless newFromUtf8 l = false) : ¬ s'.Live newFromUtf8 := by
  rintro ⟨hblocked, hserved⟩
  cases hs with
  | heap l promises microtasks cells hjs hl' =>
    rcases hl' with rfl | ⟨p, outcome, rfl⟩ | rfl <;> cases hl
  | promised frame f p promise hcalling =>
    have hstep : Step newFromUtf8 s (.returnsPromise p) _ := .promised frame f p promise hcalling
    exact hblocked (blocked_of_async hstep rfl)
  | marshalled w request argv hloop hmade =>
    obtain ⟨-, -, hnone, -⟩ := AuthRequest.marshalled_eq_pure_iff.mp hmade
    simp [harmless, hloop, hnone] at hl
  | realmRefused w request hloop hrealm => simp [harmless, hloop, hrealm] at hl
  | recursed w request hloop hrealm husername =>
    obtain ⟨-, honly⟩ := hp.serving w rfl
    rcases hserved with ha | hserved
    · cases ha
    obtain ⟨k, hserves, henabled⟩ := hserved w ((honly w).mpr rfl)
    obtain ⟨t, ht⟩ := Option.isSome_iff_exists.mp henabled
    have hstep : Step newFromUtf8 _ k t := step_cases ht
    obtain ⟨hidling, -⟩ := stuck_step hp (.inr ⟨w, rfl⟩) hstep
    cases k <;> simp [AuthLabel.isIdling, AuthLabel.serves] at hidling hserves
  | _ => cases hl

theorem enabled_marshal {request : AuthRequest} (hl : s.loop = .marshalling w request) :
    (authMachine newFromUtf8 F).Enabled s .marshal := by
  show (s.step newFromUtf8 .marshal).isSome = true
  simp only [step, hl]
  split <;> rfl

theorem served_of_not_stuck (h : s.Phase) (hn : ∀ frame cell, s.loop ≠ .waiting frame cell)
    (hn' : ∀ w, s.loop ≠ .recursing w) : s.Served newFromUtf8 := by
  match hl : s.loop with
  | .aborted => exact .inl hl
  | .waiting frame cell => exact absurd hl (hn frame cell)
  | .recursing w => exact absurd hl (hn' w)
  | .marshalling w request => exact .inr fun _ _ => ⟨.marshal, rfl, enabled_marshal hl⟩
  | .calling frame f =>
    exact .inr fun _ _ =>
      ⟨.returns .undefined, rfl, by simp [Machine.Enabled, authMachine, step, hl]⟩
  | .consulting ⟨w, argv, []⟩ =>
    exact .inr fun _ _ => ⟨.answer, rfl, by simp [Machine.Enabled, authMachine, step, hl]⟩
  | .consulting ⟨w, argv, f :: rest⟩ =>
    exact .inr fun _ _ => ⟨.call, rfl, by simp [Machine.Enabled, authMachine, step, hl]⟩
  | .idle =>
    refine .inr fun w hw => ?_
    rcases h.idle hl with ⟨-, hv⟩ | ⟨v, request, hc, -⟩ | ⟨v, result, ha, ho⟩
    · exact absurd (hw.symm.trans (hv w)) (by simp)
    · obtain ⟨async, hd, -⟩ := hc.dispatch
      exact ⟨.dispatch, rfl, by simp [Machine.Enabled, authMachine, step, hl, hd]⟩
    · obtain rfl := (ho w).mp hw
      exact ⟨.receive w, by simp [AuthLabel.serves],
        by simp [Machine.Enabled, authMachine, step, hw, ha.2.2]⟩

/-- **The loop thread waits for itself in a run exactly if a function that is called returns a
promise; each request is served all along exactly if also no arguments are made of one that has
a username.** -/
theorem always_live_iff {ls : List (AuthLabel F)}
    (h : (authMachine newFromUtf8 F).run create ls = some s) :
    ((authMachine newFromUtf8 F).Always (fun t => ¬ t.LoopBlocked) create ls ↔
      (authMachine newFromUtf8 F).Meets (fun _ l => l.isSync = true) create ls) ∧
    ((authMachine newFromUtf8 F).Always (Live newFromUtf8) create ls ↔
      (authMachine newFromUtf8 F).Meets (fun t l => t.harmless newFromUtf8 l = true) create
        ls) := by
  have hnot : ∀ t : AuthState F, (∀ frame cell, t.loop ≠ .waiting frame cell) → ¬ t.LoopBlocked :=
    fun t hn ⟨frame, cell, hl, _⟩ => hn frame cell hl
  constructor
  · refine Machine.always_iff_meets
      (I := fun t => ∀ frame cell, t.loop ≠ .waiting frame cell) (by simp [create])
      (hnot _ (by simp [create])) ?_ h
    intro t l u hI _ hu
    have hwaiting : l.isSync = true → ∀ frame cell, u.loop ≠ .waiting frame cell := by
      intro hl frame cell hw
      rcases waiting_of_step (step_cases hu) hw with ht | hl'
      · exact hI frame cell ht
      · exact absurd (hl.symm.trans hl') (by simp)
    have hsync : ¬ u.LoopBlocked → l.isSync = true := by
      intro hb
      by_contra hl
      exact hb (blocked_of_async (step_cases hu) (by simpa using hl))
    exact ⟨⟨hsync, fun hl => hnot u (hwaiting hl)⟩, fun hb => hwaiting (hsync hb)⟩
  · refine Machine.always_iff_meets
      (I := fun t => t.Phase ∧ (∀ frame cell, t.loop ≠ .waiting frame cell) ∧
        ∀ w, t.loop ≠ .recursing w) ⟨phase_create, by simp [create], by simp [create]⟩
      ⟨hnot _ (by simp [create]), served_of_not_stuck phase_create (by simp [create])
        (by simp [create])⟩ ?_ h
    rintro t l u ⟨hp, hI, hI'⟩ _ hu
    have hpu : u.Phase := phase_step hp (step_cases hu)
    have hsync : t.harmless newFromUtf8 l = true → l.isSync = true := by
      intro hl
      cases l with
      | returnsPromise p => cases hl
      | _ => rfl
    have hstuck : t.harmless newFromUtf8 l = true →
        (∀ frame cell, u.loop ≠ .waiting frame cell) ∧ ∀ w, u.loop ≠ .recursing w := by
      intro hl
      refine ⟨fun frame cell hw => ?_, fun w hw => ?_⟩
      · rcases waiting_of_step (step_cases hu) hw with ht | hl'
        · exact hI frame cell ht
        · exact absurd ((hsync hl).symm.trans hl') (by simp)
      · rcases recursing_of_step (step_cases hu) hw with ht | hl'
        · exact hI' w ht
        · exact absurd (hl.symm.trans hl') (by simp)
    have hharmless : u.Live newFromUtf8 → t.harmless newFromUtf8 l = true := by
      intro hlive
      by_contra hl
      exact not_live_of_harm hpu (step_cases hu) (by simpa using hl) hlive
    refine ⟨⟨hharmless, fun hl => ?_⟩, fun hlive => ⟨hpu, hstuck (hharmless hlive)⟩⟩
    obtain ⟨hw, hr⟩ := hstuck hl
    exact ⟨hnot u hw, served_of_not_stuck hpu hw hr⟩

/-- A request without a username, and a function that returns `undefined`; the thread that asked
gets its answer. -/
theorem always_live_iff_undefined :
    (authMachine (fun s _ _ => some (decodeUtf8 s)) Nat).Always (fun t => ¬ t.LoopBlocked) create
      [.registry (.addSimpleAuthProvider (some 0)), .request 7 ⟨[114], none, true⟩, .dispatch,
        .marshal, .call, .returns .undefined, .answer, .receive 7] ∧
    (authMachine (fun s _ _ => some (decodeUtf8 s)) Nat).Always
      (Live fun s _ _ => some (decodeUtf8 s)) create
      [.registry (.addSimpleAuthProvider (some 0)), .request 7 ⟨[114], none, true⟩, .dispatch,
        .marshal, .call, .returns .undefined, .answer, .receive 7] := by
  obtain ⟨s, hs⟩ := Option.isSome_iff_exists.mp
    (show ((authMachine (fun s _ _ => some (decodeUtf8 s)) Nat).run create
      [.registry (.addSimpleAuthProvider (some 0)), .request 7 ⟨[114], none, true⟩, .dispatch,
        .marshal, .call, .returns .undefined, .answer, .receive 7]).isSome = true from rfl)
  obtain ⟨hblocked, hlive⟩ := always_live_iff hs
  exact ⟨hblocked.mpr (by decide), hlive.mpr (by decide)⟩

/-- A request with a username, as libsvn makes it; and one without, and a function that returns a
promise that is fulfilled already. -/
theorem not_live :
    (∃ s, (authMachine (fun s _ _ => some (decodeUtf8 s)) Nat).run create
        [.request 7 ⟨[114], some [117], false⟩, .dispatch, .marshal] = some s ∧
      s.waiting 7 = true ∧ ¬ s.Served fun s _ _ => some (decodeUtf8 s)) ∧
    ∃ s, (authMachine (fun s _ _ => some (decodeUtf8 s)) Nat).run create
        [.registry (.addSimpleAuthProvider (some 0)), .request 7 ⟨[114], none, false⟩, .dispatch,
          .marshal, .call, .newPromise,
          .settle 0 (.ok (.object (.string "u") (.string "p") (.other true))),
          .returnsPromise 0] = some s ∧
      s.waiting 7 = true ∧ s.LoopBlocked := by
  constructor
  · refine ⟨_, (Option.some_get rfl).symm, rfl, ?_⟩
    rintro (ha | hserved)
    · cases ha
    obtain ⟨l, hserves, henabled⟩ := hserved 7 rfl
    cases l with
    | receive v =>
      obtain rfl : v = 7 := by simpa [AuthLabel.serves] using hserves
      cases henabled
    | dispatch | marshal | call | returns | get | answer => cases henabled
    | request | registry | newPromise | settle | microtask | recurse | returnsPromise | throws =>
      cases hserves
  · exact ⟨_, (Option.some_get rfl).symm, rfl, _, _, rfl, rfl⟩

/-! ## What a request comes to -/

theorem functions_step (hs : Step newFromUtf8 s l s') :
    s'.functions = (l.registryCall.elim s.functions fun call =>
      (call.apply s.functions).toOption.getD s.functions) := by
  cases hs with
  | heap l promises microtasks cells hjs hl =>
    rcases hl with rfl | ⟨p, outcome, rfl⟩ | rfl <;> rfl
  | promised => exact promiseThen_functions ..
  | _ => rfl

/-- The loop is over the functions that JS registered. -/
theorem functions_run {ls : List (AuthLabel F)}
    (h : (authMachine newFromUtf8 F).run create ls = some s) :
    s.functions = registered (ls.filterMap AuthLabel.registryCall) := by
  refine Machine.run_induction (M := authMachine newFromUtf8 F) (s := create)
    (P := fun ls t => t.functions = registered (ls.filterMap AuthLabel.registryCall))
    rfl ?_ ls s h
  intro ls t l u _ ht hu
  rw [functions_step (step_cases hu), List.filterMap_append]
  cases hl : l.registryCall with
  | none => simpa [hl] using ht
  | some call =>
    rw [List.filterMap_cons_some hl, List.filterMap_nil, registered_snoc, ht]
    rfl

/-- The steps of the loop thread and of JS from the loop on.  A promise is settled before its
function returns. -/
def consultLabels (behaviour : F → List JsData → AuthProviderResult) (argv : List JsData)
    (promises : Nat) : List F → List (AuthLabel F)
  | [] => [.answer]
  | f :: rest =>
    match behaviour f argv with
    | .value v => .call :: .returns v :: consultLabels behaviour argv promises rest
    | .promise outcome => [.call, .newPromise, .settle promises outcome, .returnsPromise promises]
    | .throws => [.call, .throws]

/-- The steps from the arguments on; none of JS, if they are not made. -/
def implementLabels (newFromUtf8 : NewFromUtf8) (behaviour : F → List JsData → AuthProviderResult)
    (request : AuthRequest) (promises : Nat) (functions : List F) : List (AuthLabel F) :=
  match request.argv newFromUtf8 2 with
  | some (.ok argv) => .marshal :: consultLabels behaviour argv promises functions
  | _ => [.marshal]

/-- The loop thread has come to what a call that works for `caller` comes to. -/
def Reaches (s : AuthState F) (caller : Nat) (s' : AuthState F) :
    Option (Except Stop (Option SimpleAuth)) → Prop
  | some (.ok auth) => s'.loop = .idle ∧ s'.async = s.async.setResult caller (.ok auth)
  | some (.error (.thrown e)) => s'.loop = .idle ∧ s'.async = s.async.setResult caller (.error e)
  | some (.error .blocked) => s'.LoopBlocked
  | some (.error .aborted) => s'.loop = .aborted
  | some (.error .illFormed) => False
  | none => s'.loop = .recursing caller

/-- **The machine runs the loop of `_invoke_implement`.** -/
theorem consult_run (newFromUtf8 : NewFromUtf8) (behaviour : F → List JsData → AuthProviderResult)
    {argv : List JsData} {functions : List F} (h : s.loop = .consulting ⟨w, argv, functions⟩) :
    ∃ s', (authMachine newFromUtf8 F).run s
        (consultLabels behaviour argv s.promises.length functions) = some s' ∧
      s.Reaches w s' (invokeFunctions behaviour argv functions) := by
  induction functions generalizing s with
  | nil =>
    refine ⟨{ s with loop := .idle, async := s.async.setResult w (.ok none) }, ?_, rfl, rfl⟩
    exact Machine.run_of_step (by simp [authMachine, step, h])
  | cons f rest ih =>
    have hcall : (authMachine newFromUtf8 F).step s .call =
        some { s with loop := .calling ⟨w, argv, rest⟩ f } := by
      simp [authMachine, step, h]
    rw [consultLabels, invokeFunctions]
    cases hf : behaviour f argv with
    | value v =>
      obtain ⟨s', hrun, hreach⟩ := ih (s := { s with loop := .consulting ⟨w, argv, rest⟩ }) rfl
      refine ⟨s', ?_, hreach⟩
      rw [Machine.run_of_step hcall, Machine.run_of_step rfl]
      exact hrun
    | promise outcome =>
      let s₁ : AuthState F := { s with loop := .calling ⟨w, argv, rest⟩ f }
      let s₂ : AuthState F := { s₁ with promises := s.promises ++ [⟨none, []⟩] }
      let s₃ : AuthState F := { s₂ with promises := s.promises ++ [⟨some outcome, []⟩] }
      have hnew : (authMachine newFromUtf8 F).step s₁ .newPromise = some s₂ := rfl
      have hsettle : (authMachine newFromUtf8 F).step s₂ (.settle s.promises.length outcome) =
          some s₃ := by
        simp [authMachine, step, runsJs, s₁, s₂, s₃]
      obtain ⟨u, hu⟩ : ∃ u, s₃.step newFromUtf8 (.returnsPromise s.promises.length) = some u := by
        simp [step, s₁, s₂, s₃]
      refine ⟨u, ?_, blocked_of_async (step_cases hu) rfl⟩
      rw [Machine.run_of_step hcall, Machine.run_of_step hnew, Machine.run_of_step hsettle]
      exact Machine.run_of_step hu
    | throws =>
      refine ⟨{ s with loop := .aborted }, ?_, rfl⟩
      rw [Machine.run_of_step hcall]
      exact Machine.run_of_step rfl

/-- **The machine runs `_invoke_implement`.** -/
theorem implement_run (newFromUtf8 : NewFromUtf8)
    (behaviour : F → List JsData → AuthProviderResult) {request : AuthRequest}
    (h : s.loop = .marshalling w request) :
    ∃ s', (authMachine newFromUtf8 F).run s
        (implementLabels newFromUtf8 behaviour request s.promises.length s.functions) = some s' ∧
      s.Reaches w s' (invokeImplement newFromUtf8 2 behaviour request s.functions) := by
  have hmarshal : (authMachine newFromUtf8 F).step s .marshal =
      match request.marshalled newFromUtf8 with
      | some (.ok argv) => some { s with loop := .consulting ⟨w, argv, s.functions⟩ }
      | some (.error (.thrown e)) =>
        some { s with loop := .idle, async := s.async.setResult w (.error e) }
      | some (.error _) => some { s with loop := .aborted }
      | none => some { s with loop := .recursing w } := by
    rw [← AuthRequest.argv_eq newFromUtf8 request 0]
    simp only [authMachine, step, h]
  rw [implementLabels, invokeImplement, AuthRequest.argv_eq newFromUtf8 request 0]
  rw [AuthRequest.marshalled] at hmarshal ⊢
  cases hrealm : request.jsRealm newFromUtf8 with
  | none =>
    rw [hrealm] at hmarshal
    exact ⟨_, Machine.run_of_step hmarshal, rfl, rfl⟩
  | some realm =>
    rw [hrealm] at hmarshal
    cases husername : request.username with
    | some username =>
      rw [husername] at hmarshal
      exact ⟨_, Machine.run_of_step hmarshal, rfl⟩
    | none =>
      rw [husername] at hmarshal
      obtain ⟨s', hrun, hreach⟩ := consult_run newFromUtf8 behaviour (s := { s with
        loop := .consulting ⟨w, [.string realm, .undefined, .boolean request.maySave],
          s.functions⟩ }) rfl
      exact ⟨s', (Machine.run_of_step hmarshal).trans hrun, hreach⟩

/-- A thread that asks while nobody else does gets the answer of `invokeImplement`. -/
theorem request_run (newFromUtf8 : NewFromUtf8)
    (behaviour : F → List JsData → AuthProviderResult) (request : AuthRequest)
    (hl : s.loop = .idle) (ha : s.async.Idle) (hw : s.waiting w = false) :
    ∃ s', (authMachine newFromUtf8 F).run s (.request w request :: .dispatch ::
        implementLabels newFromUtf8 behaviour request s.promises.length s.functions) = some s' ∧
      match (invokeImplement newFromUtf8 2 behaviour request s.functions).run with
      | some (.ok auth) => s'.async.result w = some (.ok auth)
      | some (.error (.thrown e)) => s'.async.result w = some (.error e)
      | some (.error .blocked) => s'.LoopBlocked
      | some (.error .aborted) => s'.loop = .aborted
      | some (.error .illFormed) => False
      | none => s'.loop = .recursing w := by
  obtain ⟨async₁, hcall, hcalled⟩ := ha.call w request
  obtain ⟨async₂, hdispatch, hserving⟩ := hcalled.dispatch
  have hrequest : (authMachine newFromUtf8 F).step s (.request w request) =
      some { s with async := async₁, waiting := Function.update s.waiting w true } := by
    simp [authMachine, step, hw, hcall]
  have himplement := implement_run newFromUtf8 behaviour (s := { s with
      async := async₂, waiting := Function.update s.waiting w true
      loop := .marshalling w request }) rfl
  obtain ⟨s', hrun, hreach⟩ := himplement
  refine ⟨s', ?_, ?_⟩
  · rw [Machine.run_of_step hrequest, ← hrun]
    exact Machine.run_of_step (by simp [authMachine, step, hl, hdispatch])
  · revert hreach
    show AuthState.Reaches _ w s' (invokeImplement newFromUtf8 2 behaviour request
      s.functions).run → _
    cases (invokeImplement newFromUtf8 2 behaviour request s.functions).run with
    | none => exact id
    | some result =>
      cases result with
      | ok auth =>
        rintro ⟨-, hasync⟩
        rw [hasync]
        exact (hserving.setResult _).2.2
      | error stop =>
        cases stop with
        | thrown e =>
          rintro ⟨-, hasync⟩
          rw [hasync]
          exact (hserving.setResult _).2.2
        | blocked | aborted | illFormed => exact id

end AuthState

end NodeSvn
