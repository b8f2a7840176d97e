import Mathlib.Data.Fintype.Defs
import Mathlib.Data.Finset.Insert
import NodeSvn.Lib.Ownership
import NodeSvn.Node.StreamLaw

/-!
# Abandoned iterators

JS holds the wrapper of an iterable, calls `next` on it and drops it at any time; the job
reports items through the iterable and ends it; V8 collects the wrapper when nothing keeps
it.  The owners:

    weak_data  --`instance`-->    iterable  --`_value`-->    wrapper
    job        --the closures-->  iterable
    wrapper    --until its weak callback-->  weak_data

`_value` is a strong handle, so the three own each other: whatever JS does, the weak
callback never runs, `iterable::destructor` is never called, and a worker that waits for
an item to be consumed waits for ever (`never_released`).
-/

namespace NodeSvn

/-- The objects behind an iterator. -/
inductive IteratorObject where
  | wrapper
  | weakData
  | iterable
  /-- the `uv::work` with its closures -/
  | job
  deriving DecidableEq, Repr

instance : Fintype IteratorObject where
  elems := {.wrapper, .weakData, .iterable, .job}
  complete o := by cases o <;> decide

inductive IteratorJob where
  /-- queued, in libsvn, or on the way to the loop thread and back -/
  | working
  /-- the callback is in `iterable::yield` -/
  | yielding
  /-- the worker waits on the future that the callback returned -/
  | consuming (future : Nat)
  /-- the after-work step is in `iterable::end` or `iterable::reject` -/
  | ending
  /-- `delete _this` -/
  | deleted
  /-- an exception left the after-work step -/
  | crashed
  deriving DecidableEq, Repr

structure IteratorState (V : Type) where
  tr : Trace V
  job : IteratorJob
  /-- JS holds the wrapper -/
  held : Bool
  /-- the weak callback has run -/
  collected : Bool

inductive IteratorLabel (V : Type) where
  | yield (value : V)
  /-- `RunMicrotasks` returns -/
  | ret
  | consumed
  /-- the after-work step, with the exception that it makes of an `svn_error` -/
  | afterWork (exception : Option V)
  /-- the after-work step, with any other exception -/
  | crash
  | next
  | drop
  /-- `weak_callback` -/
  | collect

namespace IteratorState

variable {V : Type}

/-- After `iterable->get()`. -/
def create : IteratorState V := ⟨.init, .working, true, false⟩

/-! ## The owners -/

def alive (s : IteratorState V) : IteratorObject → Bool
  | .wrapper => !s.collected
  | .weakData => !s.collected
  | .iterable => !s.collected || s.job ≠ .deleted
  | .job => s.job ≠ .deleted

def holds (s : IteratorState V) : IteratorObject → Bool
  | .wrapper => s.held
  | .job => s.job ≠ .deleted
  | _ => false

/-- Which members are owners; `weak_data` is deleted by the weak callback of the wrapper
only. -/
def owns : IteratorObject → IteratorObject → Bool
  | .wrapper, .weakData => true
  | .weakData, .iterable => true
  | .iterable, .wrapper => true
  | .job, .iterable => true
  | _, _ => false

def owners (s : IteratorState V) : Ownership IteratorObject where
  alive o := s.alive o = true
  root o := s.holds o = true
  owns o p := owns o p = true

instance (s : IteratorState V) (o : IteratorObject) : Decidable (s.owners.Releasable o) :=
  inferInstanceAs (Decidable (s.alive o = true ∧ ¬ s.holds o = true ∧
    ∀ p, s.alive p = true → ¬ owns p o = true))

/-! ## The machine -/

/-- `iterable::destructor`, in the weak callback. -/
def destroyed (t : Trace V) : Trace V :=
  match Iterable.destructor.run t.it with
  | .ok () it => { t with it := it }
  | .error _ it => { t with it := it }

def step (s : IteratorState V) : IteratorLabel V → Option (IteratorState V)
  | .yield value =>
    if s.job = .working then
      match s.tr.produce (.yield value) with
      | (.ok (), tr) => some { s with tr, job := .yielding }
      -- the worker gets the exception
      | (.error _, tr) => some { s with tr }
    else none
  | .ret =>
    match s.job with
    | .yielding =>
      match s.tr.return_ with
      | (.ok f, tr) => some { s with tr, job := .consuming f }
      | (.error _, tr) => some { s with tr, job := .working }
    | .ending =>
      match s.tr.return_ with
      | (.ok _, tr) => some { s with tr, job := .deleted }
      | (.error _, tr) => some { s with tr, job := .crashed }
    | _ => none
  | .consumed =>
    match s.job with
    | .consuming f =>
      if (s.tr.it.futureResult f).isSome then some { s with job := .working } else none
    | _ => none
  | .afterWork exception =>
    if s.job = .working then
      match s.tr.produce (exception.elim .end_ .reject) with
      | (.ok (), tr) => some { s with tr, job := .ending }
      | (.error _, tr) => some { s with tr, job := .crashed }
    else none
  | .crash => if s.job = .working then some { s with job := .crashed } else none
  | .next => if s.held ∧ s.job ≠ .crashed then some { s with tr := s.tr.next } else none
  | .drop => if s.held then some { s with held := false } else none
  | .collect =>
    if s.owners.Releasable .wrapper then some { s with tr := destroyed s.tr, collected := true }
    else none

end IteratorState

/-- One iterator with its job and the garbage collector. -/
def iteratorLife (V : Type) : Machine (IteratorState V) (IteratorLabel V) where
  init := .create
  step := IteratorState.step

namespace IteratorState

variable {V : Type} {s t : IteratorState V} {l : IteratorLabel V} {o : IteratorObject}

/-- The worker waits for an item to be consumed. -/
def Waits (s : IteratorState V) : Prop :=
  ∃ f, s.job = .consuming f ∧ s.tr.it.futureResult f = none

/-- A strong handle on the wrapper belongs to an object that only the wrapper or the job keep
alive. -/
def SelfKept (s : IteratorState V) : Prop :=
  ∃ o, s.owners.alive o ∧ s.owners.owns o .wrapper ∧ ¬ s.owners.root o ∧
    ∀ p, s.owners.alive p → s.owners.owns p o →
      s.owners.Keeps .wrapper p ∨ s.owners.Keeps .job p

/-- What is to hold of a state in which JS does not hold the wrapper. -/
structure Released (s : IteratorState V) : Prop where
  notSelfKept : ¬ s.SelfKept
  collects : ∃ ls t, (iteratorLife V).run s ls = some t ∧ t.collected = true
  frees : s.Waits → ∃ ls t, (iteratorLife V).run s ls = some t ∧ ¬ t.Waits
  unreachable : s.job = .deleted → ∃ ls t, (iteratorLife V).run s ls = some t ∧
    ∀ o, t.alive o = false

/-! ## The cycle -/

/-- What owns itself. -/
def cycle : Set IteratorObject := {o | o ≠ .job}

theorem cycle_selfOwned (h : s.collected = false) : s.owners.SelfOwned cycle where
  alive o ho := by
    cases o with
    | job => exact absurd rfl ho
    | _ => simp [owners, alive, h]
  owner o ho := by
    cases o with
    | wrapper => exact ⟨.iterable, by simp [cycle], rfl⟩
    | weakData => exact ⟨.wrapper, by simp [cycle], rfl⟩
    | iterable => exact ⟨.weakData, by simp [cycle], rfl⟩
    | job => exact absurd rfl ho

theorem not_collect (h : s.collected = false) : s.step .collect = none :=
  if_neg ((cycle_selfOwned h).not_releasable (by simp [cycle]))

theorem selfKept (h : s.collected = false) : s.SelfKept := by
  refine ⟨.iterable, by simp [owners, alive, h], rfl, by simp [owners, holds], ?_⟩
  intro p _ howns
  cases p with
  | weakData => exact .inl (.single ⟨by simp [owners, alive, h], rfl⟩)
  | job => exact .inr .refl
  | wrapper => cases howns
  | iterable => cases howns

theorem not_collected_step (h : s.collected = false) (hs : s.step l = some t) :
    t.collected = false := by
  cases l with
  | collect => exact absurd (hs.symm.trans (not_collect h)) (by simp)
  | _ =>
    simp only [step] at hs
    repeat' split at hs
    all_goals cases hs <;> exact h

theorem not_collected_run {ls : List (IteratorLabel V)} (h : s.collected = false)
    (hr : (iteratorLife V).run s ls = some t) : t.collected = false :=
  Machine.run_invariant (M := iteratorLife V) (I := fun s => s.collected = false) h
    (fun _ _ _ hi hs => not_collected_step hi hs) hr

/-- Only `next` and the destructor end the wait, and neither comes any more. -/
theorem waits_stuck (h : s.collected = false) (hd : s.held = false) (hw : s.Waits)
    (l : IteratorLabel V) : s.step l = none := by
  obtain ⟨f, hj, hf⟩ := hw
  cases l with
  | collect => exact not_collect h
  | _ => simp [step, hj, hf, hd]

theorem waits_run {ls : List (IteratorLabel V)} (h : s.collected = false) (hd : s.held = false)
    (hw : s.Waits) (hr : (iteratorLife V).run s ls = some t) : t.Waits := by
  refine (Machine.run_invariant (M := iteratorLife V)
    (I := fun s => s.collected = false ∧ s.held = false ∧ s.Waits) ⟨h, hd, hw⟩ ?_ hr).2.2
  rintro s l u ⟨hc, hd, hw⟩ hs
  exact absurd (hs.symm.trans (waits_stuck hc hd hw l)) (by simp)

/-- **An abandoned iterator is never released.**  In every state in which JS does not hold the
wrapper, the wrapper is kept by itself; no further run collects it or frees one of the three
objects, and a worker that waits goes on waiting. -/
theorem never_released {ls : List (IteratorLabel V)}
    (h : (iteratorLife V).run create ls = some s) (hd : s.held = false) :
    s.SelfKept ∧ ∀ ms t, (iteratorLife V).run s ms = some t →
      t.collected = false ∧
      (∀ g, t.owners.Releases g → ∀ o, o ≠ .job → g.alive o) ∧
      (s.Waits → t.Waits) := by
  have hs : s.collected = false := not_collected_run rfl h
  refine ⟨selfKept hs, fun ms t hr => ?_⟩
  have ht : t.collected = false := not_collected_run hs hr
  exact ⟨ht, fun g hg o ho => ((cycle_selfOwned ht).releases hg).alive o ho,
    fun hw => waits_run hs hd hw hr⟩

/-- An item is reported, and JS drops the iterator instead of asking for it. -/
theorem never_released_yield :
    ∃ s, (iteratorLife Nat).run create [.yield 7, .ret, .drop] = some s ∧ s.Waits ∧
      ∀ ms t, (iteratorLife Nat).run s ms = some t → t.collected = false ∧ t.Waits := by
  obtain ⟨s, hs⟩ := Option.isSome_iff_exists.mp
    (show ((iteratorLife Nat).run create [.yield 7, .ret, .drop]).isSome = true from rfl)
  have hw : s.Waits := Option.some.inj hs ▸ ⟨_, rfl, rfl⟩
  have hd : s.held = false := Option.some.inj hs ▸ rfl
  refine ⟨s, hs, hw, fun ms t hr => ?_⟩
  obtain ⟨hc, -, ht⟩ := (never_released hs hd).2 ms t hr
  exact ⟨hc, ht hw⟩

/-- The same run: JS does not hold the wrapper, and the wrapper is kept. -/
theorem not_released :
    ¬ ∀ (ls : List (IteratorLabel Nat)) (s : IteratorState Nat),
        (iteratorLife Nat).run create ls = some s → s.held = false → s.Released := by
  intro h
  have hr := h [.yield 7, .ret, .drop] _ (Option.some_get rfl).symm rfl
  exact hr.notSelfKept (selfKept rfl)

end IteratorState

/-! ## A stream with its threads -/

namespace StreamState

variable {α : Type} {c : StreamCall α} {s s' : StreamState α}

/-- The job, by worker and loop thread. -/
def iteratorJob (s : StreamState α) : IteratorJob :=
  match s.loop with
  | .yielding => .yielding
  | .ending => .ending
  | .crashed => .crashed
  | .idle =>
    match s.worker with
    | .consume f => .consuming f
    | .call =>
      match s.async.result caller with
      | some (.ok f) => .consuming f
      | _ => .working
    | .finished => if s.job.isSome then .working else .deleted
    | _ => .working

def toIterator (s : StreamState α) : IteratorState (StreamValue α) :=
  ⟨s.tr, s.iteratorJob, true, false⟩

/-- The step of a thread does nothing to the iterator, or is one of its steps. -/
def Moves (s s' : StreamState α) : Prop :=
  s'.toIterator = s.toIterator ∨ ∃ k, s.toIterator.step k = some s'.toIterator

theorem Flow.moves_start (h : Flow c s) (hs : StreamState.step c s .start = some s') :
    s.Moves s' := by
  have hp := h.phase
  simp only [StreamState.step] at hs
  split at hs
  · rename_i hw
    obtain rfl := Option.some.inj hs
    cases hl : s.loop <;> simp only [Phase, hw, hl] at hp
    exact .inl (by simp [toIterator, iteratorJob, hw, hl])
  · cases hs

theorem Flow.moves_report (h : Flow c s) (hs : s.report c = some s') : s.Moves s' := by
  have hp := h.phase
  simp only [StreamState.report] at hs
  split at hs
  · rename_i a todo hw ht
    cases hl : s.loop <;> simp only [Phase, hw, hl] at hp
    split at hs
    · obtain rfl := Option.some.inj hs
      exact .inl (by simp [toIterator, iteratorJob])
    · obtain ⟨async, hcall, hcalled⟩ := hp.idle.call caller a
      rw [hcall] at hs
      obtain rfl := Option.some.inj hs
      have hnone := Async.result_waiting hcalled.2.2.2
      exact .inl (by simp [toIterator, iteratorJob, hw, hl, hnone])
  · cases hs

theorem Flow.moves_dispatch (h : Flow c s) (hs : s.dispatch = some s') : s.Moves s' := by
  simp only [StreamState.dispatch] at hs
  split at hs
  · rename_i w a async hl hd
    obtain ⟨hw, -, hsent⟩ := h.sent hl hd
    obtain ⟨b, hcalled, -⟩ := hsent.called
    obtain ⟨tr, hprod, -⟩ := h.orderly.produce hsent.free
      (e := .yield (.item a)) (x := StreamCall.itemSettlement a) rfl
    rw [hprod] at hs
    obtain rfl := Option.some.inj hs
    have hnone := Async.result_waiting hcalled.2.2.2
    refine .inr ⟨.yield (.item a), ?_⟩
    simp [toIterator, iteratorJob, IteratorState.step, hw, hl, hnone, hprod]
  · cases hs

theorem Flow.moves_ret (h : Flow c s) (hs : s.ret = some s') : s.Moves s' := by
  have hp := h.phase
  simp only [StreamState.ret] at hs
  split at hs
  · rename_i hl
    have hw : s.worker = .call := by
      cases hw : s.worker <;> simp only [Phase, hw, hl] at hp
      rfl
    simp only [Phase, hw, hl] at hp
    obtain ⟨tr, hret, -⟩ := h.orderly.return_ hp.active
    rw [hret] at hs
    obtain rfl := Option.some.inj hs
    have hres := (hp.serving.setResult (.ok s.tr.it.consumePromise)).2.2
    refine .inr ⟨.ret, ?_⟩
    simp [toIterator, iteratorJob, IteratorState.step, hw, hl, hret, hres]
  · rename_i hl
    have hw : s.worker = .finished := by
      cases hw : s.worker <;> simp only [Phase, hw, hl] at hp
      rfl
    simp only [Phase, hw, hl] at hp
    obtain ⟨tr, hret, -⟩ := h.orderly.return_ hp.active
    rw [hret] at hs
    obtain rfl := Option.some.inj hs
    refine .inr ⟨.ret, ?_⟩
    simp [toIterator, iteratorJob, IteratorState.step, hw, hl, hret, hp.job]
  · cases hs

theorem Flow.moves_future (h : Flow c s) (hs : s.future c = some s') : s.Moves s' := by
  simp only [StreamState.future] at hs
  split at hs
  · rename_i f hw hres
    obtain ⟨hl, -⟩ := h.got hw hres
    obtain rfl := Option.some.inj hs
    exact .inl (by simp [toIterator, iteratorJob, hw, hl, hres])
  · rename_i e hw hres
    obtain ⟨-, hgot⟩ := h.got hw hres
    exact absurd (hres.symm.trans hgot.answered.2.2) (by simp)
  · cases hs

theorem Flow.moves_consumed (h : Flow c s) (hs : s.consumed c = some s') : s.Moves s' := by
  have hp := h.phase
  simp only [StreamState.consumed] at hs
  split at hs
  · rename_i f hw
    have hl : s.loop = .idle := by
      cases hl : s.loop <;> simp only [Phase, hw, hl] at hp
      rfl
    refine .inr ⟨.consumed, ?_⟩
    split at hs
    · rename_i hf
      obtain rfl := Option.some.inj hs
      simp [toIterator, iteratorJob, IteratorState.step, hw, hl, hf]
    · rename_i e hf
      obtain rfl := Option.some.inj hs
      rcases c.op.threw_cases e with hw' | hw' <;>
        simp [toIterator, iteratorJob, IteratorState.step, hw, hl, hf, hw']
    · cases hs
  · cases hs

theorem Flow.moves_finish (h : Flow c s) (hs : s.finish c = some s') : s.Moves s' := by
  have hp := h.phase
  simp only [StreamState.finish] at hs
  split at hs
  · rename_i hw ht
    cases hl : s.loop <;> simp only [Phase, hw, hl] at hp
    obtain rfl := Option.some.inj hs
    exact .inl (by simp [toIterator, iteratorJob, hw, hl])
  · rename_i hw
    cases hl : s.loop <;> simp only [Phase, hw, hl] at hp
  · cases hs

theorem Flow.moves_afterWork (h : Flow c s) (hs : s.afterWork = some s') : s.Moves s' := by
  simp only [StreamState.afterWork] at hs
  split at hs
  · rename_i r hl hj
    obtain ⟨hw, hfin⟩ := h.finished hl hj
    obtain rfl : c.workResult = r := Option.some.inj (hfin.job.symm.trans hj)
    obtain ⟨e, hev, he, -⟩ := afterWorkEvent_workResult c
    obtain ⟨tr, hprod, -⟩ := h.orderly.produce hfin.free he
    simp only [hev, hprod, Option.some.injEq] at hs
    subst hs
    obtain ⟨exception, rfl⟩ : ∃ x : Option (StreamValue α), e = x.elim .end_ .reject := by
      cases hr : c.workResult with
      | ok _ =>
        rw [hr] at hev
        exact ⟨none, (Option.some.inj hev).symm⟩
      | error x =>
        rw [hr] at hev
        obtain ⟨raw, -, rfl⟩ := Option.map_eq_some_iff.mp hev
        exact ⟨some _, rfl⟩
    refine .inr ⟨.afterWork exception, ?_⟩
    simp [toIterator, iteratorJob, IteratorState.step, hw, hl, hj, hprod]
  · cases hs

theorem iteratorJob_ne_crashed (h : s.loop ≠ .crashed) : s.iteratorJob ≠ .crashed := by
  unfold iteratorJob
  split
  · simp
  · simp
  · rename_i hl
    exact absurd hl h
  · repeat' split
    all_goals simp

theorem moves_next (hs : s.next = some s') : s.Moves s' := by
  simp only [StreamState.next] at hs
  split at hs
  · rename_i hcond
    obtain rfl := Option.some.inj hs
    exact .inr ⟨.next, if_pos ⟨rfl, iteratorJob_ne_crashed hcond.1⟩⟩
  · cases hs

/-- **A stream is a run of its iterator, with JS holding the wrapper.** -/
def iteratorRefinement (c : StreamCall α) :
    Machine.Refinement (stream c) (iteratorLife (StreamValue α)) (Flow c) where
  abs := toIterator
  init := rfl
  step s l s' h hs := by
    cases l with
    | start => exact h.moves_start hs
    | report => exact h.moves_report hs
    | dispatch => exact h.moves_dispatch hs
    | ret => exact h.moves_ret hs
    | future => exact h.moves_future hs
    | consumed => exact h.moves_consumed hs
    | finish => exact h.moves_finish hs
    | afterWork => exact h.moves_afterWork hs
    | next => exact moves_next hs

end StreamState

end NodeSvn
