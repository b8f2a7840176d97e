import NodeSvn.Lib.Machine
import NodeSvn.Lib.SharedPtr
import NodeSvn.Node.Method

/-!
# Which thread makes and closes the handle of a `uv::async`

`async_handle` is made where `make_async` is called, and destroyed, with `uv_close`, where
its last `shared_ptr` is dropped.  One handle, with the copies of its pointer:

    loop thread   the variable of the method, the closure, the closure in the `uv::work`
    worker        the temporary, the `std::function`, `running_scope`, `async_data`

`remove` makes its handle on the loop thread, and there the closure in the `uv::work`
outlives all copies of the worker.  The other methods that stream make theirs in the work, on
the worker (`disciplined_iff`).
-/

namespace NodeSvn

inductive UvThread where
  | loop
  | worker
  deriving DecidableEq, Repr

/-- The libuv calls on a handle. -/
inductive UvCall where
  | asyncInit
  | unref
  | asyncSend
  | close
  deriving DecidableEq, Repr

/-- Where a method calls `make_async`. -/
inductive MakeSite where
  | method
  | work
  deriving DecidableEq, Repr

/-- The calls of `make_async`, one for each `uv::async`. -/
def Method.asyncs : Method → List MakeSite
  | .getChangelists => [.work]
  | .blame => [.work]
  | .commit => [.work, .work]
  | .info => [.work]
  | .log => [.work]
  | .remove => [.method]
  | .status => [.work]
  | .update => [.work]
  | _ => []

/-- Who keeps a copy of the pointer. -/
inductive HandleHolder where
  /-- `callback` in `client::remove` -/
  | variable
  /-- the closure `work` -/
  | closure
  /-- `uv::work::_work` -/
  | queued
  /-- what `make_async` returned -/
  | temporary
  /-- the parameter of `svn::client`'s operation -/
  | function
  | runningScope
  | asyncData
  deriving DecidableEq, Repr

inductive LoopPhase where
  | entered
  | made
  | captured
  | queued
  /-- `work` is destroyed -/
  | returning
  | returned
  /-- `invoke_after_work` deleted the `uv::work` -/
  | deleted
  deriving DecidableEq, Repr

inductive WorkerPhase where
  /-- there is no work -/
  | absent
  | waiting
  | making
  | made
  /-- the operation runs with its callback -/
  | running
  /-- in `operator()`, with the `running_scope` -/
  | scoped
  /-- with the `async_data` -/
  | called
  | finished
  deriving DecidableEq, Repr

structure HandleLife where
  pointer : SharedPtr HandleHolder
  loop : LoopPhase
  worker : WorkerPhase
  /-- the libuv calls on the handle so far -/
  calls : List (UvThread × UvCall)
  deriving DecidableEq, Repr

inductive LoopAction where
  /-- `make_async` in the method; `ok` is whether `uv_async_init` succeeds -/
  | make (ok : Bool)
  | capture
  /-- `uv::queue_work` -/
  | queue (ok : Bool)
  | destroyClosure
  | destroyVariable
  | afterWork
  deriving DecidableEq, Repr

inductive WorkerAction where
  | start
  /-- `make_async` in the work -/
  | make (ok : Bool)
  | convert
  | enterScope
  | enterData
  | send
  | leaveData
  | leaveScope
  | finish
  deriving DecidableEq, Repr

inductive HandleLabel where
  | loop (a : LoopAction)
  | worker (a : WorkerAction)
  deriving DecidableEq, Repr

namespace HandleLife

/-- `~shared_ptr`, and `~async_handle` if it was the last. -/
def drop (t : UvThread) (k : HandleHolder) (s : HandleLife) : HandleLife :=
  { s with
    pointer := s.pointer.drop k
    calls := if (s.pointer.drop k).Dead then s.calls ++ [(t, .close)] else s.calls }

/-- The constructor of `async_handle`. -/
def makeHandle (t : UvThread) (k : HandleHolder) (s : HandleLife) : HandleLife :=
  { s with pointer := .make k, calls := s.calls ++ [(t, .asyncInit), (t, .unref)] }

def copy (k : HandleHolder) (s : HandleLife) : HandleLife := { s with pointer := s.pointer.copy k }

def stepLoop (site : MakeSite) (s : HandleLife) : LoopAction → Option HandleLife
  | .make ok =>
    if s.loop = .entered ∧ site = .method then
      if ok then some { s.makeHandle .loop .variable with loop := .made }
      else some { s with calls := s.calls ++ [(.loop, .asyncInit)], loop := .returned }
    else none
  | .capture =>
    match s.loop, site with
    | .made, .method => some { s.copy .closure with loop := .captured }
    | .entered, .work => some { s with loop := .captured }
    | _, _ => none
  | .queue ok =>
    if s.loop = .captured then
      match ok, site with
      | true, .method => some { s.copy .queued with loop := .queued, worker := .waiting }
      | true, .work => some { s with loop := .queued, worker := .waiting }
      | false, _ => some { s with loop := .queued }
    else none
  | .destroyClosure =>
    if s.loop = .queued then
      match site with
      | .method => some { s.drop .loop .closure with loop := .returning }
      | .work => some { s with loop := .returning }
    else none
  | .destroyVariable =>
    if s.loop = .returning then
      match site with
      | .method => some { s.drop .loop .variable with loop := .returned }
      | .work => some { s with loop := .returned }
    else none
  | .afterWork =>
    if s.loop = .returned ∧ s.worker = .finished then
      match site with
      | .method => some { s.drop .loop .queued with loop := .deleted }
      | .work => some { s with loop := .deleted }
    else none

def stepWorker (site : MakeSite) (s : HandleLife) : WorkerAction → Option HandleLife
  | .start =>
    if s.worker = .waiting then
      match site with
      -- the closure's `callback` is converted to a `std::function`
      | .method => some { s.copy .function with worker := .running }
      | .work => some { s with worker := .making }
    else none
  | .make ok =>
    if s.worker = .making then
      if ok then some { s.makeHandle .worker .temporary with worker := .made }
      else some { s with calls := s.calls ++ [(.worker, .asyncInit)], worker := .finished }
    else none
  | .convert =>
    if s.worker = .made then
      some { s with pointer := s.pointer.move .temporary .function, worker := .running }
    else none
  | .enterScope =>
    if s.worker = .running then some { s.copy .runningScope with worker := .scoped } else none
  | .enterData =>
    if s.worker = .scoped then some { s.copy .asyncData with worker := .called } else none
  | .send =>
    if s.worker = .called then some { s with calls := s.calls ++ [(.worker, .asyncSend)] }
    else none
  | .leaveData =>
    if s.worker = .called then some { s.drop .worker .asyncData with worker := .scoped } else none
  | .leaveScope =>
    if s.worker = .scoped then some { s.drop .worker .runningScope with worker := .running }
    else none
  | .finish =>
    if s.worker = .running then some { s.drop .worker .function with worker := .finished }
    else none

/-- Every call on the handle is the loop thread's, or `uv_async_send`. -/
def Disciplined (s : HandleLife) : Prop := ∀ c ∈ s.calls, c.1 = .loop ∨ c.2 = .asyncSend

instance (s : HandleLife) : Decidable s.Disciplined :=
  inferInstanceAs (Decidable (∀ c ∈ s.calls, _))

end HandleLife

/-- The life of a handle that is made at `site`. -/
def handleMachine (site : MakeSite) : Machine HandleLife HandleLabel where
  init := ⟨⟨[]⟩, .entered, .absent, []⟩
  step s
    | .loop a => s.stepLoop site a
    | .worker a => s.stepWorker site a

/-! ## A handle that is made in the method -/

namespace HandleLife

variable {s t : HandleLife} {a : LoopAction} {b : WorkerAction} {k : HandleHolder}

/-- The closure in the `uv::work` keeps its copy from `queue_work` to `delete _this`, and the
worker's copies come and go in that time. -/
structure Anchored (s : HandleLife) : Prop where
  disciplined : s.Disciplined
  queued : s.worker ≠ .absent → s.loop ≠ .deleted → .queued ∈ s.pointer.holders
  absent : s.loop = .entered ∨ s.loop = .made ∨ s.loop = .captured → s.worker = .absent
  deleted : s.loop = .deleted → s.worker = .absent ∨ s.worker = .finished
  making : s.worker ≠ .making ∧ s.worker ≠ .made

theorem Disciplined.snoc (h : s.Disciplined) {u : UvThread} {c : UvCall}
    (hc : u = .loop ∨ c = .asyncSend) :
    ∀ x ∈ s.calls ++ [(u, c)], x.1 = .loop ∨ x.2 = .asyncSend := by
  intro x hx
  rcases List.mem_append.mp hx with hx | hx
  · exact h x hx
  · rw [List.mem_singleton.mp hx]
    exact hc

theorem Disciplined.drop_loop (h : s.Disciplined) (k : HandleHolder) :
    (s.drop .loop k).Disciplined := by
  unfold Disciplined drop
  split
  · exact h.snoc (.inl rfl)
  · exact h

/-- While the closure in the `uv::work` keeps its copy, a drop is no close. -/
theorem Disciplined.drop_worker (h : s.Disciplined) (hq : .queued ∈ s.pointer.holders)
    (hk : .queued ≠ k) : (s.drop .worker k).Disciplined := by
  unfold Disciplined drop
  rw [if_neg (SharedPtr.not_dead_drop hq hk)]
  exact h

/-- A step of the loop thread before the work is queued. -/
theorem anchored_early (ht : t.Disciplined) (hw : t.worker = .absent)
    (hl : t.loop ≠ .deleted) : t.Anchored where
  disciplined := ht
  queued hne := absurd hw hne
  absent _ := hw
  deleted he := absurd he hl
  making := by
    rw [hw]
    exact ⟨by decide, by decide⟩

theorem Anchored.stepLoop (h : s.Anchored) (hs : s.stepLoop .method a = some t) : t.Anchored := by
  cases a with
  | make ok =>
    simp only [HandleLife.stepLoop] at hs
    split at hs
    · rename_i hentered
      have hw := h.absent (.inl hentered.1)
      cases ok with
      | true =>
        obtain rfl := Option.some.inj hs
        refine anchored_early (fun x hx => ?_) hw (by simp)
        rcases List.mem_append.mp hx with hx | hx
        · exact h.disciplined x hx
        · rcases List.mem_pair.mp hx with rfl | rfl <;> exact .inl rfl
      | false =>
        obtain rfl := Option.some.inj hs
        exact anchored_early (h.disciplined.snoc (.inl rfl)) hw (by simp)
    · cases hs
  | capture =>
    simp only [HandleLife.stepLoop] at hs
    split at hs
    · rename_i hmade _
      obtain rfl := Option.some.inj hs
      exact anchored_early h.disciplined (h.absent (.inr (.inl hmade))) (by simp)
    · rename_i hsite
      cases hsite
    · cases hs
  | queue ok =>
    simp only [HandleLife.stepLoop] at hs
    split at hs
    · rename_i hcaptured
      cases ok with
      | true =>
        obtain rfl := Option.some.inj hs
        refine ⟨h.disciplined, fun _ _ => List.mem_cons_self, ?_, ?_, ?_⟩
        · simp
        · simp
        · simp
      | false =>
        obtain rfl := Option.some.inj hs
        exact anchored_early h.disciplined (h.absent (.inr (.inr hcaptured))) (by simp)
    · cases hs
  | destroyClosure =>
    simp only [HandleLife.stepLoop] at hs
    split at hs
    · rename_i hqueued
      obtain rfl := Option.some.inj hs
      refine ⟨h.disciplined.drop_loop _, fun hw _ => ?_, by simp, by simp, h.making⟩
      exact SharedPtr.mem_drop (h.queued hw (by simp [hqueued])) (by decide)
    · cases hs
  | destroyVariable =>
    simp only [HandleLife.stepLoop] at hs
    split at hs
    · rename_i hreturning
      obtain rfl := Option.some.inj hs
      refine ⟨h.disciplined.drop_loop _, fun hw _ => ?_, by simp, by simp, h.making⟩
      exact SharedPtr.mem_drop (h.queued hw (by simp [hreturning])) (by decide)
    · cases hs
  | afterWork =>
    simp only [HandleLife.stepLoop] at hs
    split at hs
    · rename_i hfinished
      obtain rfl := Option.some.inj hs
      exact ⟨h.disciplined.drop_loop _, fun _ hl => absurd rfl hl, by simp,
        fun _ => .inr hfinished.2, h.making⟩
    · cases hs

/-- A step of the worker, which leaves the copy of the closure. -/
theorem Anchored.work (h : s.Anchored) (hw : s.worker ≠ .absent ∧ s.worker ≠ .finished)
    (ht : t.Disciplined) (hq : .queued ∈ s.pointer.holders → .queued ∈ t.pointer.holders)
    (hl : t.loop = s.loop) (hm : t.worker ≠ .making ∧ t.worker ≠ .made) : t.Anchored where
  disciplined := ht
  queued _ hne := hq (h.queued hw.1 (hl ▸ hne))
  absent he := absurd (h.absent (hl ▸ he)) hw.1
  deleted he := absurd (h.deleted (hl ▸ he)) (by simp [hw])
  making := hm

/-- The worker drops a copy of its own. -/
theorem Anchored.drop (h : s.Anchored) (hw : s.worker ≠ .absent ∧ s.worker ≠ .finished)
    (hk : .queued ≠ k) {p : WorkerPhase} (hp : p ≠ .making ∧ p ≠ .made) :
    Anchored { s.drop .worker k with worker := p } := by
  have hq : .queued ∈ s.pointer.holders :=
    h.queued hw.1 fun hd => (h.deleted hd).elim hw.1 hw.2
  exact h.work hw (h.disciplined.drop_worker hq hk) (fun hm => SharedPtr.mem_drop hm hk) rfl hp

theorem Anchored.copy (h : s.Anchored) (hw : s.worker ≠ .absent ∧ s.worker ≠ .finished)
    {p : WorkerPhase} (hp : p ≠ .making ∧ p ≠ .made) :
    Anchored { s.copy k with worker := p } :=
  h.work hw h.disciplined SharedPtr.mem_copy rfl hp

theorem Anchored.stepWorker (h : s.Anchored) (hs : s.stepWorker .method b = some t) :
    t.Anchored := by
  cases b with
  | make ok =>
    simp only [HandleLife.stepWorker, h.making.1, if_false] at hs
    cases hs
  | convert =>
    simp only [HandleLife.stepWorker, h.making.2, if_false] at hs
    cases hs
  | send =>
    simp only [HandleLife.stepWorker, Option.ite_none_right_eq_some, Option.some.injEq] at hs
    obtain ⟨hp, rfl⟩ := hs
    exact h.work (by simp [hp]) (h.disciplined.snoc (.inr rfl)) id rfl h.making
  | start | enterScope | enterData =>
    simp only [HandleLife.stepWorker, Option.ite_none_right_eq_some, Option.some.injEq] at hs
    obtain ⟨hp, rfl⟩ := hs
    exact h.copy (by simp [hp]) (by simp)
  | leaveData | leaveScope | finish =>
    simp only [HandleLife.stepWorker, Option.ite_none_right_eq_some, Option.some.injEq] at hs
    obtain ⟨hp, rfl⟩ := hs
    exact h.drop (by simp [hp]) (by simp) (by simp)

end HandleLife

/-- A handle that is made in the method is disciplined in every run. -/
theorem disciplined_of_method {ls : List HandleLabel} {s : HandleLife}
    (h : (handleMachine .method).run (handleMachine .method).init ls = some s) :
    s.Disciplined := by
  have hinit : (handleMachine .method).init.Anchored :=
    ⟨by simp [handleMachine, HandleLife.Disciplined], by simp [handleMachine],
      by simp [handleMachine], by simp [handleMachine], by simp [handleMachine]⟩
  refine (Machine.run_invariant (I := HandleLife.Anchored) hinit (fun s l t hs hst => ?_) h).1
  cases l with
  | loop a => exact hs.stepLoop hst
  | worker a => exact hs.stepWorker hst

/-- The worker makes the handle. -/
theorem exists_not_disciplined :
    ∃ ls s, (handleMachine .work).run (handleMachine .work).init ls = some s ∧
      ¬ s.Disciplined :=
  ⟨[.loop .capture, .loop (.queue true), .worker .start, .worker (.make true)], _, rfl, by decide⟩

/-- **The handles of a method are made, unreferenced and closed by the loop thread exactly if it
is none of those that call `make_async` in their work.** -/
theorem disciplined_iff (m : Method) :
    (∀ site ∈ m.asyncs, ∀ (ls : List HandleLabel) (s : HandleLife),
      (handleMachine site).run (handleMachine site).init ls = some s → s.Disciplined) ↔
      m ∉ [.getChangelists, .blame, .commit, .info, .log, .status, .update] := by
  have hwork : m ∉ [.getChangelists, .blame, .commit, .info, .log, .status, .update] ↔
      .work ∉ m.asyncs := by
    cases m <;> decide
  rw [hwork]
  constructor
  · intro h hm
    obtain ⟨ls, s, hrun, hs⟩ := exists_not_disciplined
    exact hs (h .work hm ls s hrun)
  · intro hm site hsite ls s hrun
    cases site with
    | method => exact disciplined_of_method hrun
    | work => exact absurd hsite hm

/-- `status`: its handle is initialised and closed on the worker. -/
theorem not_disciplined_status :
    ¬ ∀ (m : Method), ∀ site ∈ m.asyncs, ∀ (ls : List HandleLabel) (s : HandleLife),
      (handleMachine site).run (handleMachine site).init ls = some s → s.Disciplined := by
  intro h
  have hs := h .status .work (by decide)
    [.loop .capture, .loop (.queue true), .worker .start, .worker (.make true), .worker .convert,
      .worker .finish] _ rfl
  revert hs
  decide

end NodeSvn
