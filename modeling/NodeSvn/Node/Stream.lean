import NodeSvn.Node.Error
import NodeSvn.Node.Iterator
import NodeSvn.Uv.Async

/-!
# A streaming operation: worker, loop thread and consumer

The machine `stream c` runs one of the operations that report through an iterator
(`status`, `info`, `log`, `blame`, `get_changelists`, `remove`, `update`).

* The worker (`Worker`) executes the closure of `uv::work`: libsvn calls the
  trampoline for each item, the trampoline calls the `uv::async`, and the thread
  blocks on the outer future (the loop thread ran the callback) and then on the inner
  one (the item was consumed).
* The loop thread (`Loop`) dispatches the async handle, runs the after-work step, and
  is inside `RunMicrotasks` between a call of the producer and its return.
* The consumer calls `next` once its last promise is settled, also from within
  `RunMicrotasks`.

Every exception path is in the step function: a refused call, a callback that threw
(`Worker.failing`, `Worker.unwound`), an after-work step that lets one escape
(`Loop.crashed`).
-/

namespace NodeSvn

inductive Operation where
  | status
  | info
  | log
  | blame
  | getChangelists
  | remove
  | update
  deriving DecidableEq, Repr

/-- What a promise of the iterator carries. -/
inductive StreamValue (α : Type) where
  | item (a : α)
  | error (e : JsError)
  deriving DecidableEq, Repr

/-- One call of an operation, with what libsvn will do in it: the items it reports and
the error it returns.  `nullChangelist` tells which items have no changelist. -/
structure StreamCall (α : Type) where
  op : Operation
  nullChangelist : α → Bool
  items : List α
  outcome : Except SvnError Unit

inductive Worker where
  | queued
  /-- in libsvn, outside of the callback -/
  | libsvn
  /-- in `uv::async::operator()`, at `future.get()` -/
  | call
  /-- at `.get()` of the future that the callback returned -/
  | consume (future : Nat)
  /-- `callback_data` holds the exception; libsvn returns its error -/
  | failing (e : Exn)
  /-- the exception left `notify_scope::_invoke` -/
  | unwound (e : Exn)
  | finished
  deriving DecidableEq, Repr

inductive Loop where
  | idle
  /-- `invoke_async` is in `iterable::yield` -/
  | yielding
  /-- the after-work step is in `iterable::end` or `iterable::reject` -/
  | ending
  /-- an exception left the after-work step -/
  | crashed
  deriving DecidableEq, Repr

structure StreamState (α : Type) where
  tr : Trace (StreamValue α)
  async : Async α Nat
  worker : Worker
  loop : Loop
  /-- the items that libsvn has not reported yet -/
  todo : List α
  /-- how many calls of the callback returned to libsvn -/
  completed : Nat
  /-- `uv::work::_promise`, until the after-work step takes it -/
  job : Option (Except Exn Unit)
  /-- `delete _this` in `invoke_after_work` -/
  deleted : Bool

inductive StreamLabel where
  /-- a pool thread takes the job -/
  | start
  /-- libsvn calls the trampoline with the next item -/
  | report
  /-- the loop thread runs `invoke_async` -/
  | dispatch
  /-- `RunMicrotasks` returns -/
  | ret
  /-- `future.get()` returns -/
  | future
  /-- `.get()` of the inner future returns -/
  | consumed
  /-- libsvn returns, `invoke_work` ends -/
  | finish
  | afterWork
  /-- the consumer calls `next` -/
  | next
  deriving DecidableEq, Repr

variable {α : Type}

/-- `invoke_get_changelists` returns at once if the changelist is `NULL`. -/
def Operation.skips (op : Operation) (nullChangelist : Bool) : Bool :=
  match op with
  | .getChangelists => nullChangelist
  | _ => false

/-- The callback threw: `callback_data::invoke` keeps the exception, `notify_scope`
does not. -/
def Operation.threw (op : Operation) (e : Exn) : Worker :=
  match op with
  | .update => .unwound e
  | _ => .failing e

theorem Operation.threw_cases (op : Operation) (e : Exn) :
    op.threw e = .failing e ∨ op.threw e = .unwound e := by
  cases op <;> simp [Operation.threw]

namespace StreamCall

def skips (c : StreamCall α) (a : α) : Bool := c.op.skips (c.nullChangelist a)

/-- Not to be delivered: of `get_changelists` an item without a changelist, of every other
operation none. -/
def omits (c : StreamCall α) (a : α) : Bool :=
  match c.op with
  | .getChangelists => c.nullChangelist a
  | .status | .info | .log | .blame | .remove | .update => false

def delivered (c : StreamCall α) (items : List α) : List α := items.filter fun a => !c.omits a

/-- Just these are skipped by the trampolines. -/
theorem skips_eq_omits (c : StreamCall α) (a : α) : c.skips a = c.omits a := by
  unfold skips Operation.skips omits
  cases c.op <;> rfl

theorem delivered_eq_filter (c : StreamCall α) (items : List α) :
    c.delivered items = items.filter fun a => !c.skips a := by
  simp only [skips_eq_omits, delivered]

theorem length_delivered_le (c : StreamCall α) (items : List α) :
    (c.delivered items).length ≤ items.length := List.length_filter_le _ _

def itemSettlement (a : α) : Settlement (StreamValue α) := .fulfilled (some (.item a)) false

def marker (c : StreamCall α) : Settlement (StreamValue α) :=
  match c.outcome with
  | .ok () => .fulfilled none true
  | .error e => .rejected (some (.error (copyError e)))

/-- What the consumer is to receive. -/
def expected (c : StreamCall α) : List (Settlement (StreamValue α)) :=
  (c.delivered c.items).map itemSettlement ++ [c.marker]

/-- What the closure's promise is set to. -/
def workResult (c : StreamCall α) : Except Exn Unit :=
  match c.outcome with
  | .ok () => .ok ()
  | .error e => .error (.svnError e)

def init (c : StreamCall α) : StreamState α where
  tr := .init
  async := .create
  worker := .queued
  loop := .idle
  todo := c.items
  completed := 0
  job := none
  deleted := false

end StreamCall

/-- The event that the after-work step makes of the work's result: `end()`, or
`reject(copy_error(raw))` for an `svn_error`; nothing else is caught. -/
def afterWorkEvent : Except Exn Unit → Option (Event (StreamValue α))
  | .ok () => some .end_
  | .error e => e.asSvnError.map fun raw => .reject (.error (copyError raw))

namespace StreamState

/-- The only thread that calls this handle. -/
def caller : Nat := 0

def report (c : StreamCall α) (s : StreamState α) : Option (StreamState α) :=
  match s.worker, s.todo with
  | .libsvn, a :: todo =>
    if c.skips a then some { s with todo := todo }
    else
      match (Async.call caller a (.ok ())).run s.async with
      | .ok () async => some { s with async := async, worker := .call, todo := todo }
      | .error e async => some { s with async := async, worker := c.op.threw e, todo := todo }
  | _, _ => none

def dispatch (s : StreamState α) : Option (StreamState α) :=
  match s.loop, s.async.dispatch with
  | .idle, some (w, a, async) =>
    match s.tr.produce (.yield (.item a)) with
    | (.ok (), tr) => some { s with tr := tr, async := async, loop := .yielding }
    | (.error e, tr) => some { s with tr := tr, async := async.setResult w (.error e) }
  | _, _ => none

def ret (s : StreamState α) : Option (StreamState α) :=
  match s.loop with
  | .yielding =>
    let (r, tr) := s.tr.return_
    some { s with tr := tr, async := s.async.setResult caller r, loop := .idle }
  | .ending =>
    match s.tr.return_ with
    | (.ok _, tr) => some { s with tr := tr, loop := .idle, deleted := true }
    | (.error _, tr) => some { s with tr := tr, loop := .crashed }
  | _ => none

def future (c : StreamCall α) (s : StreamState α) : Option (StreamState α) :=
  match s.worker, s.async.result caller with
  | .call, some (.ok f) => some { s with worker := .consume f }
  | .call, some (.error e) =>
    some { s with async := s.async.leave caller, worker := c.op.threw e }
  | _, _ => none

def consumed (c : StreamCall α) (s : StreamState α) : Option (StreamState α) :=
  match s.worker with
  | .consume f =>
    match s.tr.it.futureResult f with
    | some (.ok ()) =>
      some { s with
        async := s.async.leave caller, worker := .libsvn, completed := s.completed + 1 }
    | some (.error e) =>
      some { s with async := s.async.leave caller, worker := c.op.threw e }
    | none => none
  | _ => none

def finish (c : StreamCall α) (s : StreamState α) : Option (StreamState α) :=
  match s.worker, s.todo with
  | .libsvn, [] => some { s with worker := .finished, job := some c.workResult }
  | .failing e, _ => some { s with worker := .finished, job := some (.error e) }
  | _, _ => none

def afterWork (s : StreamState α) : Option (StreamState α) :=
  match s.loop, s.job with
  | .idle, some r =>
    match afterWorkEvent r with
    | none => some { s with job := none, loop := .crashed }
    | some e =>
      match s.tr.produce e with
      | (.ok (), tr) => some { s with tr := tr, job := none, loop := .ending }
      | (.error _, tr) => some { s with tr := tr, job := none, loop := .crashed }
  | _, _ => none

def next (s : StreamState α) : Option (StreamState α) :=
  if s.loop ≠ .crashed ∧ s.tr.LastSettled then some { s with tr := s.tr.next } else none

def step (c : StreamCall α) (s : StreamState α) : StreamLabel → Option (StreamState α)
  | .start => match s.worker with
    | .queued => some { s with worker := .libsvn }
    | _ => none
  | .report => s.report c
  | .dispatch => s.dispatch
  | .ret => s.ret
  | .future => s.future c
  | .consumed => s.consumed c
  | .finish => s.finish c
  | .afterWork => s.afterWork
  | .next => s.next

end StreamState

/-- One streaming operation with its consumer. -/
def stream (c : StreamCall α) : Machine (StreamState α) StreamLabel where
  init := c.init
  step := StreamState.step c

end NodeSvn
