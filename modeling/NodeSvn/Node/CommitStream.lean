import NodeSvn.Lib.Utf8
import NodeSvn.Node.Commit
import NodeSvn.Node.Js
import NodeSvn.Node.StreamLaw

/-!
# A commit as a stream

`client::commit` reports to one iterator from two closures, each behind a `uv::async` of its
own:

    notify      called by notify_scope, which catches nothing; of a commit_finalizing
                notification it yields nothing, and its future is ready
    callback    called through callback_data; it yields the final item

So libsvn can be in one of two handles, and a call of the first may leave the iterator alone.
Nevertheless a commit is a stream: `stream c.toStream`, which has one handle and an item for
each call, simulates it (`simulation`), and so the consumer receives `c.expected`
(`commit_stream_law`).
-/

namespace NodeSvn

/-- A call of libsvn, with what the slot of `notify_path` holds when its closure runs. -/
structure CommitReport where
  event : CommitEvent
  slot : Cell

/-- The two objects of `uv::make_async`. -/
inductive CommitHandle where
  | notify
  | callback
  deriving DecidableEq, Repr

def CommitReport.handle (r : CommitReport) : CommitHandle :=
  match r.event with
  | .notify _ => .notify
  | .commit _ => .callback

/-- What the closure yields. -/
def CommitReport.item (r : CommitReport) : Option CommitItem := (r.event.serve r.slot).2

/-- `notify_scope` lets an exception through, `callback_data` keeps it. -/
inductive CommitWorker where
  | queued
  /-- in `svn_client_commit6`, outside of the callbacks -/
  | libsvn
  /-- in `operator()` of the handle of the report, at `future.get()` -/
  | call (r : CommitReport)
  /-- at `.get()` of what the closure returned; `none` is the ready future -/
  | consume (r : CommitReport) (future : Option Nat)
  | failing (e : Exn)
  | unwound (e : Exn)
  | finished

def CommitHandle.threw (h : CommitHandle) (e : Exn) : CommitWorker :=
  match h with
  | .notify => .unwound e
  | .callback => .failing e

inductive CommitLoop where
  | idle
  | yielding (h : CommitHandle)
  | ending
  | crashed
  deriving DecidableEq, Repr

/-- One commit, with what libsvn will do in it. -/
structure CommitCall where
  reports : List CommitReport
  outcome : Except SvnError Unit

structure CommitState where
  tr : Trace (StreamValue CommitItem)
  handles : CommitHandle → Async CommitReport (Option Nat)
  worker : CommitWorker
  loop : CommitLoop
  todo : List CommitReport
  /-- `uv::work::_promise`, until the after-work step takes it -/
  job : Option (Except Exn Unit)
  /-- `delete _this` in `invoke_after_work` -/
  deleted : Bool

/-- As `StreamLabel`; the loop thread serves the one handle or the other. -/
inductive CommitStreamLabel where
  | start
  | report
  | dispatch (h : CommitHandle)
  | ret
  | future
  | consumed
  | finish
  | afterWork
  | next
  deriving DecidableEq, Repr

namespace CommitCall

def workResult (c : CommitCall) : Except Exn Unit :=
  match c.outcome with
  | .ok () => .ok ()
  | .error e => .error (.svnError e)

def init (c : CommitCall) : CommitState where
  tr := .init
  handles := fun _ => .create
  worker := .queued
  loop := .idle
  todo := c.reports
  job := none
  deleted := false

end CommitCall

namespace CommitState

open StreamState (caller)

def setHandle (s : CommitState) (h : CommitHandle) (async : Async CommitReport (Option Nat)) :
    CommitState :=
  { s with handles := Function.update s.handles h async }

def report (s : CommitState) : Option CommitState :=
  match s.worker, s.todo with
  | .libsvn, r :: todo =>
    match (Async.call caller r (.ok ())).run (s.handles r.handle) with
    | .ok () async => some { s.setHandle r.handle async with worker := .call r, todo := todo }
    | .error e async =>
      some { s.setHandle r.handle async with worker := r.handle.threw e, todo := todo }
  | _, _ => none

def dispatch (s : CommitState) (h : CommitHandle) : Option CommitState :=
  match s.loop, (s.handles h).dispatch with
  | .idle, some (w, r, async) =>
    match r.item with
    | none => some (s.setHandle h (async.setResult w (.ok none)))
    | some a =>
      match s.tr.produce (.yield (.item a)) with
      | (.ok (), tr) => some { s.setHandle h async with tr := tr, loop := .yielding h }
      | (.error e, tr) => some { s.setHandle h (async.setResult w (.error e)) with tr := tr }
  | _, _ => none

def ret (s : CommitState) : Option CommitState :=
  match s.loop with
  | .yielding h =>
    let (f, tr) := s.tr.return_
    some { s.setHandle h ((s.handles h).setResult caller (f.map some)) with
      tr := tr, loop := .idle }
  | .ending =>
    match s.tr.return_ with
    | (.ok _, tr) => some { s with tr := tr, loop := .idle, deleted := true }
    | (.error _, tr) => some { s with tr := tr, loop := .crashed }
  | _ => none

def leave (s : CommitState) (r : CommitReport) (worker : CommitWorker) : CommitState :=
  { s.setHandle r.handle ((s.handles r.handle).leave caller) with worker := worker }

def future (s : CommitState) : Option CommitState :=
  match s.worker with
  | .call r =>
    match (s.handles r.handle).result caller with
    | some (.ok f) => some { s with worker := .consume r f }
    | some (.error e) => some (s.leave r (r.handle.threw e))
    | none => none
  | _ => none

def consumed (s : CommitState) : Option CommitState :=
  match s.worker with
  | .consume r none => some (s.leave r .libsvn)
  | .consume r (some f) =>
    match s.tr.it.futureResult f with
    | some (.ok ()) => some (s.leave r .libsvn)
    | some (.error e) => some (s.leave r (r.handle.threw e))
    | none => none
  | _ => none

def finish (c : CommitCall) (s : CommitState) : Option CommitState :=
  match s.worker, s.todo with
  | .libsvn, [] => some { s with worker := .finished, job := some c.workResult }
  | .failing e, _ => some { s with worker := .finished, job := some (.error e) }
  | _, _ => none

def afterWork (s : CommitState) : Option CommitState :=
  match s.loop, s.job with
  | .idle, some r =>
    match afterWorkEvent r with
    | none => some { s with job := none, loop := .crashed }
    | some e =>
      match s.tr.produce e with
      | (.ok (), tr) => some { s with tr := tr, job := none, loop := .ending }
      | (.error _, tr) => some { s with tr := tr, job := none, loop := .crashed }
  | _, _ => none

def next (s : CommitState) : Option CommitState :=
  if s.loop ≠ .crashed ∧ s.tr.LastSettled then some { s with tr := s.tr.next } else none

def step (c : CommitCall) (s : CommitState) : CommitStreamLabel → Option CommitState
  | .start => match s.worker with
    | .queued => some { s with worker := .libsvn }
    | _ => none
  | .report => s.report
  | .dispatch h => s.dispatch h
  | .ret => s.ret
  | .future => s.future
  | .consumed => s.consumed
  | .finish => s.finish c
  | .afterWork => s.afterWork
  | .next => s.next

end CommitState

/-- One commit with its consumer. -/
def commitStream (c : CommitCall) : Machine CommitState CommitStreamLabel where
  init := c.init
  step := CommitState.step c

/-! ## The stream that simulates it -/

namespace CommitCall

def items (reports : List CommitReport) : List CommitItem := reports.filterMap CommitReport.item

/-- The stream of the items alone. -/
def toStream (c : CommitCall) : StreamCall CommitItem :=
  ⟨.status, fun _ => false, items c.reports, c.outcome⟩

/-- What the consumer is to receive. -/
def expected (c : CommitCall) : List (Settlement (StreamValue CommitItem)) :=
  (items c.reports).map StreamCall.itemSettlement ++ [c.toStream.marker]

theorem toStream_delivered (c : CommitCall) (items : List CommitItem) :
    c.toStream.delivered items = items := List.filter_true items

theorem toStream_expected (c : CommitCall) : c.toStream.expected = c.expected := by
  rw [StreamCall.expected, toStream_delivered]
  rfl

end CommitCall

namespace CommitState

open StreamState (caller)

variable {c : CommitCall} {s s' : CommitState} {t t' : StreamState CommitItem}
  {r : CommitReport} {h : CommitHandle}

/-- Nobody calls the other handle. -/
def OthersIdle (s : CommitState) (r : CommitReport) : Prop :=
  ∀ h, h ≠ r.handle → (s.handles h).Idle

/-- Where worker and loop thread are, in the commit and in the stream. -/
inductive At (s : CommitState) (t : StreamState CommitItem) : Prop
  | queued (hw : s.worker = .queued) (hl : s.loop = .idle) (ht : t.worker = .queued)
      (htl : t.loop = .idle) (hidle : ∀ h, (s.handles h).Idle)
  | libsvn (hw : s.worker = .libsvn) (hl : s.loop = .idle) (ht : t.worker = .libsvn)
      (htl : t.loop = .idle) (hidle : ∀ h, (s.handles h).Idle)
  | sent (r : CommitReport) (a : CommitItem) (hw : s.worker = .call r) (hl : s.loop = .idle)
      (hitem : r.item = some a) (ht : t.worker = .call) (htl : t.loop = .idle)
      (hcalled : (s.handles r.handle).Called caller r) (htcalled : t.async.Called caller a)
      (hothers : s.OthersIdle r)
  | yielding (r : CommitReport) (hw : s.worker = .call r) (hl : s.loop = .yielding r.handle)
      (ht : t.worker = .call) (htl : t.loop = .yielding)
      (hserving : (s.handles r.handle).Serving caller) (hothers : s.OthersIdle r)
  | answered (r : CommitReport) (f : Nat) (hw : s.worker = .call r) (hl : s.loop = .idle)
      (ht : t.worker = .call) (htl : t.loop = .idle)
      (hanswered : (s.handles r.handle).Answered caller (.ok (some f)))
      (htanswered : t.async.Answered caller (.ok f)) (hothers : s.OthersIdle r)
  | consuming (r : CommitReport) (f : Nat) (hw : s.worker = .consume r (some f))
      (hl : s.loop = .idle) (ht : t.worker = .consume f) (htl : t.loop = .idle)
      (hanswered : (s.handles r.handle).Answered caller (.ok (some f)))
      (hothers : s.OthersIdle r)
  /-- a notification that yields nothing: the stream is in libsvn -/
  | sentFinal (r : CommitReport) (hw : s.worker = .call r) (hl : s.loop = .idle)
      (hitem : r.item = none) (ht : t.worker = .libsvn) (htl : t.loop = .idle)
      (hcalled : (s.handles r.handle).Called caller r) (hothers : s.OthersIdle r)
  | answeredFinal (r : CommitReport) (hw : s.worker = .call r) (hl : s.loop = .idle)
      (hitem : r.item = none) (ht : t.worker = .libsvn) (htl : t.loop = .idle)
      (hanswered : (s.handles r.handle).Answered caller (.ok none)) (hothers : s.OthersIdle r)
  | consumingFinal (r : CommitReport) (hw : s.worker = .consume r none) (hl : s.loop = .idle)
      (ht : t.worker = .libsvn) (htl : t.loop = .idle)
      (hanswered : (s.handles r.handle).Answered caller (.ok none)) (hothers : s.OthersIdle r)
  | finished (hw : s.worker = .finished) (hl : s.loop = .idle) (ht : t.worker = .finished)
      (htl : t.loop = .idle) (hidle : ∀ h, (s.handles h).Idle)
  | ending (hw : s.worker = .finished) (hl : s.loop = .ending) (ht : t.worker = .finished)
      (htl : t.loop = .ending) (hidle : ∀ h, (s.handles h).Idle)

structure Follows (s : CommitState) (t : StreamState CommitItem) : Prop where
  tr : t.tr = s.tr
  todo : t.todo = CommitCall.items s.todo
  job : t.job = s.job
  at_ : At s t

/-- The steps that notifications without an item take on their own. -/
def rank (s : CommitState) : Nat :=
  4 * (s.todo.filter fun r => r.item.isNone).length +
    match s.worker with
    | .call r =>
      if r.item.isNone then if (s.handles r.handle).pending then 3 else 2 else 0
    | .consume _ none => 1
    | _ => 0

/-- The stream follows the step, or stays where it is. -/
def Followed (c : CommitCall) (s s' : CommitState) (t : StreamState CommitItem) : Prop :=
  (Follows s' t ∧ rank s' < rank s) ∨
    ∃ k t', (stream c.toStream).step t k = some t' ∧ Follows s' t' ∧ rank s' ≤ rank s

/-! ## What a step does -/

theorem items_cons_none {todo : List CommitReport} (hitem : r.item = none) :
    CommitCall.items (r :: todo) = CommitCall.items todo := by
  simp [CommitCall.items, hitem]

theorem items_cons_some {a : CommitItem} {todo : List CommitReport} (hitem : r.item = some a) :
    CommitCall.items (r :: todo) = a :: CommitCall.items todo := by
  simp [CommitCall.items, hitem]

@[simp] theorem setHandle_self (async : Async CommitReport (Option Nat)) :
    (s.setHandle h async).handles h = async := by
  simp [setHandle]

theorem setHandle_othersIdle (hothers : s.OthersIdle r)
    (async : Async CommitReport (Option Nat)) : (s.setHandle r.handle async).OthersIdle r := by
  intro h hne
  show (Function.update s.handles r.handle async h).Idle
  rw [Function.update_of_ne hne]
  exact hothers h hne

theorem othersIdle_of_idle (hidle : ∀ h, (s.handles h).Idle) : s.OthersIdle r :=
  fun h _ => hidle h

/-- After the call no handle is in use. -/
theorem leave_idle {x : Except Exn (Option Nat)} {worker : CommitWorker}
    (hanswered : (s.handles r.handle).Answered caller x) (hothers : s.OthersIdle r)
    (h : CommitHandle) : ((s.leave r worker).handles h).Idle := by
  by_cases hh : h = r.handle
  · subst hh
    show ((s.setHandle r.handle _).handles r.handle).Idle
    rw [setHandle_self]
    exact hanswered.leave
  · exact setHandle_othersIdle hothers _ h hh

theorem Follows.start (hf : Follows s t) (hs : step c s .start = some s') :
    Followed c s s' t := by
  simp only [step] at hs
  split at hs
  · rename_i hw
    obtain rfl := Option.some.inj hs
    obtain ⟨hl, ht, htl, hidle⟩ : s.loop = .idle ∧ t.worker = .queued ∧ t.loop = .idle ∧
        ∀ h, (s.handles h).Idle := by
      cases hf.at_ <;> simp_all
    refine .inr ⟨.start, { t with worker := .libsvn }, ?_, ?_, ?_⟩
    · simp [stream, StreamState.step, ht]
    · exact ⟨hf.tr, hf.todo, hf.job, .libsvn rfl hl rfl htl hidle⟩
    · simp [rank, hw]
  · cases hs

/-- `libsvn` calls a closure while no handle is in use. -/
theorem Follows.libsvn (hf : Follows s t) (hw : s.worker = .libsvn) :
    s.loop = .idle ∧ t.worker = .libsvn ∧ t.loop = .idle ∧ ∀ h, (s.handles h).Idle := by
  cases hf.at_ <;> simp_all

theorem Follows.report (hf : Follows s t) (hflow : StreamState.Flow c.toStream t)
    (hs : s.report = some s') : Followed c s s' t := by
  simp only [CommitState.report] at hs
  split at hs
  · rename_i r todo hw htodo
    obtain ⟨hl, ht, htl, hidle⟩ := hf.libsvn hw
    obtain ⟨async, hcall, hcalled⟩ := (hidle r.handle).call caller r
    rw [hcall] at hs
    obtain rfl := Option.some.inj hs
    have hothers := setHandle_othersIdle (othersIdle_of_idle hidle (r := r)) async
    cases hitem : r.item with
    | none =>
      left
      refine ⟨⟨hf.tr, ?_, hf.job, .sentFinal r rfl hl hitem ht htl ?_ hothers⟩, ?_⟩
      · rw [hf.todo, htodo, items_cons_none hitem]
      · show ((s.setHandle r.handle async).handles r.handle).Called caller r
        rw [setHandle_self]
        exact hcalled
      · show 4 * (todo.filter _).length + _ < _
        simp [rank, hw, htodo, hitem, setHandle, hcalled.2.1]
        omega
    | some a =>
      have hp := hflow.phase
      simp only [StreamState.Phase, ht, htl] at hp
      obtain ⟨tasync, htcall, htcalled⟩ := hp.idle.call caller a
      refine .inr ⟨.report, { t with
        async := tasync, worker := .call, todo := CommitCall.items todo }, ?_, ?_, ?_⟩
      · have hskip : c.toStream.skips a = false := rfl
        show t.report c.toStream = _
        rw [StreamState.report, ht, hf.todo, htodo, items_cons_some hitem]
        simp [hskip, htcall]
      · refine ⟨hf.tr, rfl, hf.job, .sent r a rfl hl hitem rfl htl ?_ htcalled hothers⟩
        show ((s.setHandle r.handle async).handles r.handle).Called caller r
        rw [setHandle_self]
        exact hcalled
      · show 4 * (todo.filter _).length + _ ≤ _
        simp [rank, hw, htodo, hitem]
  · cases hs

/-- A handle with a signal on its way is the one that the worker calls. -/
theorem Follows.signalled (hf : Follows s t) {w : Nat} {q : CommitReport}
    {async : Async CommitReport (Option Nat)} (hl : s.loop = .idle)
    (hd : (s.handles h).dispatch = some (w, q, async)) :
    ∃ r, h = r.handle ∧ s.worker = .call r ∧ (s.handles r.handle).Called caller r ∧
      t.loop = .idle ∧ s.OthersIdle r ∧
      ((r.item = none ∧ t.worker = .libsvn) ∨
        ∃ a, r.item = some a ∧ t.worker = .call ∧ t.async.Called caller a) := by
  have hpend : (s.handles h).pending = true := by
    by_contra hn
    simp [Async.dispatch, hn] at hd
  have hnot : ¬ (s.handles h).Idle := fun hidle => by simp [hidle.2] at hpend
  have hhandle : ∀ r, s.OthersIdle r → h = r.handle := by
    intro r hothers
    by_contra hne
    exact hnot (hothers h hne)
  cases hf.at_ with
  | queued _ _ _ _ hidle => exact absurd (hidle h) hnot
  | libsvn _ _ _ _ hidle => exact absurd (hidle h) hnot
  | finished _ _ _ _ hidle => exact absurd (hidle h) hnot
  | ending _ hl' => simp [hl] at hl'
  | yielding r _ hl' => simp [hl] at hl'
  | sent r a hw _ hitem ht htl hcalled htcalled hothers =>
    exact ⟨r, hhandle r hothers, hw, hcalled, htl, hothers, .inr ⟨a, hitem, ht, htcalled⟩⟩
  | sentFinal r hw _ hitem ht htl hcalled hothers =>
    exact ⟨r, hhandle r hothers, hw, hcalled, htl, hothers, .inl ⟨hitem, ht⟩⟩
  | answered r f _ _ _ _ hanswered _ hothers =>
    rw [hhandle r hothers, hanswered.2.1] at hpend
    cases hpend
  | consuming r f _ _ _ _ hanswered hothers =>
    rw [hhandle r hothers, hanswered.2.1] at hpend
    cases hpend
  | answeredFinal r _ _ _ _ _ hanswered hothers =>
    rw [hhandle r hothers, hanswered.2.1] at hpend
    cases hpend
  | consumingFinal r _ _ _ _ hanswered hothers =>
    rw [hhandle r hothers, hanswered.2.1] at hpend
    cases hpend

theorem Follows.dispatch (hf : Follows s t) (hflow : StreamState.Flow c.toStream t)
    (hs : s.dispatch h = some s') : Followed c s s' t := by
  simp only [CommitState.dispatch] at hs
  split at hs
  · rename_i w q async hl hd
    obtain ⟨r, rfl, hw, hcalled, htl, hothers, hitem⟩ := hf.signalled hl hd
    obtain ⟨async', hd', hserving⟩ := hcalled.dispatch
    rw [hd] at hd'
    obtain ⟨rfl, rfl, rfl⟩ : w = caller ∧ q = r ∧ async = async' := by simpa using hd'
    rcases hitem with ⟨hitem, ht⟩ | ⟨a, hitem, ht, htcalled⟩
    · rw [hitem] at hs
      obtain rfl := Option.some.inj hs
      have hanswered := hserving.setResult (.ok none)
      refine .inl ⟨⟨hf.tr, hf.todo, hf.job, .answeredFinal q hw hl hitem ht htl ?_
        (setHandle_othersIdle hothers _)⟩, ?_⟩
      · rw [setHandle_self]
        exact hanswered
      · have hpend : (s.handles q.handle).pending = true := hcalled.2.1
        simp [rank, setHandle, hw, hitem, hpend, Async.setResult_pending, hserving.2.1]
    · rw [hitem] at hs
      obtain ⟨tasync, htd, htserving⟩ := htcalled.dispatch
      obtain ⟨-, -, hsent⟩ := hflow.sent htl htd
      obtain ⟨tr, hprod, -⟩ := hflow.orderly.produce hsent.free
        (e := .yield (.item a)) (x := StreamCall.itemSettlement a) rfl
      rw [hf.tr] at hprod
      simp only [hprod] at hs
      obtain rfl := Option.some.inj hs
      refine .inr ⟨.dispatch, { t with tr := tr, async := tasync, loop := .yielding }, ?_, ?_, ?_⟩
      · show t.dispatch = _
        rw [StreamState.dispatch, htl, htd]
        simp [hf.tr, hprod]
      · refine ⟨rfl, hf.todo, hf.job, .yielding q hw rfl ht rfl ?_
          (setHandle_othersIdle hothers _)⟩
        show ((s.setHandle q.handle async).handles q.handle).Serving caller
        rw [setHandle_self]
        exact hserving
      · simp [rank, setHandle, hw, hitem]
  · cases hs

theorem Follows.ret (hf : Follows s t) (hflow : StreamState.Flow c.toStream t)
    (hs : s.ret = some s') : Followed c s s' t := by
  have hp := hflow.phase
  simp only [CommitState.ret] at hs
  split at hs
  · rename_i h hl
    obtain ⟨r, rfl, hw, ht, htl, hserving, hothers⟩ : ∃ r, h = r.handle ∧ s.worker = .call r ∧
        t.worker = .call ∧ t.loop = .yielding ∧ (s.handles r.handle).Serving caller ∧
        s.OthersIdle r := by
      cases hf.at_ <;> simp_all
    simp only [StreamState.Phase, ht, htl] at hp
    obtain ⟨tr, hret, hreturned⟩ := hflow.orderly.return_ hp.active
    have hret' := hret
    rw [hf.tr] at hret'
    rw [hret'] at hs
    obtain rfl := Option.some.inj hs
    have hanswered := hserving.setResult (.ok (some s.tr.it.consumePromise))
    refine .inr ⟨.ret, { t with
      tr := tr, async := t.async.setResult caller (.ok t.tr.it.consumePromise), loop := .idle },
      ?_, ?_, ?_⟩
    · show t.ret = _
      rw [StreamState.ret, htl]
      simp [hret]
    · refine ⟨rfl, hf.todo, hf.job, .answered r s.tr.it.consumePromise hw rfl ht rfl ?_ ?_
        (setHandle_othersIdle hothers _)⟩
      · show ((s.setHandle r.handle _).handles r.handle).Answered caller _
        rw [setHandle_self]
        exact hanswered
      · show (t.async.setResult caller (.ok t.tr.it.consumePromise)).Answered caller _
        rw [hf.tr]
        exact hp.serving.setResult _
    · have hpend : (s.handles r.handle).pending = false := hserving.2.1
      simp [rank, setHandle, hw, hpend, Async.setResult_pending]
  · rename_i hl
    obtain ⟨hw, ht, htl, hidle⟩ : s.worker = .finished ∧ t.worker = .finished ∧
        t.loop = .ending ∧ ∀ h, (s.handles h).Idle := by
      cases hf.at_ <;> simp_all
    simp only [StreamState.Phase, ht, htl] at hp
    obtain ⟨tr, hret, -⟩ := hflow.orderly.return_ hp.active
    have hret' := hret
    rw [hf.tr] at hret'
    rw [hret'] at hs
    obtain rfl := Option.some.inj hs
    refine .inr ⟨.ret, { t with tr := tr, loop := .idle, deleted := true }, ?_, ?_, ?_⟩
    · show t.ret = _
      rw [StreamState.ret, htl]
      simp [hret]
    · exact ⟨rfl, hf.todo, hf.job, .finished hw rfl ht rfl hidle⟩
    · simp [rank, hw]
  · cases hs

/-- The worker in a call that has a result: what the result is. -/
theorem Follows.resolved (hf : Follows s t) (hw : s.worker = .call r)
    {x : Except Exn (Option Nat)} (hx : (s.handles r.handle).result caller = some x) :
    s.loop = .idle ∧ t.loop = .idle ∧ (s.handles r.handle).Answered caller x ∧ s.OthersIdle r ∧
      ((x = .ok none ∧ r.item = none ∧ t.worker = .libsvn) ∨
        ∃ f, x = .ok (some f) ∧ t.worker = .call ∧ t.async.Answered caller (.ok f)) := by
  have hwaits : ∀ d : CommitReport, (s.handles r.handle).frames caller ≠
      some (Async.waiting d) := by
    intro d hframe
    rw [Async.result_waiting hframe] at hx
    cases hx
  cases hf.at_ with
  | sent q a hw' _ _ _ _ hcalled =>
    obtain rfl : q = r := CommitWorker.call.inj (hw'.symm.trans hw)
    exact absurd hcalled.2.2.2 (hwaits q)
  | sentFinal q hw' _ _ _ _ hcalled =>
    obtain rfl : q = r := CommitWorker.call.inj (hw'.symm.trans hw)
    exact absurd hcalled.2.2.2 (hwaits q)
  | yielding q hw' _ _ _ hserving =>
    obtain rfl : q = r := CommitWorker.call.inj (hw'.symm.trans hw)
    obtain ⟨-, -, d, hframe⟩ := hserving
    exact absurd hframe (hwaits d)
  | answered q f hw' hl ht htl hanswered htanswered hothers =>
    obtain rfl : q = r := CommitWorker.call.inj (hw'.symm.trans hw)
    obtain rfl : .ok (some f) = x := Option.some.inj (hanswered.2.2.symm.trans hx)
    exact ⟨hl, htl, hanswered, hothers, .inr ⟨f, rfl, ht, htanswered⟩⟩
  | answeredFinal q hw' hl hitem ht htl hanswered hothers =>
    obtain rfl : q = r := CommitWorker.call.inj (hw'.symm.trans hw)
    obtain rfl : .ok none = x := Option.some.inj (hanswered.2.2.symm.trans hx)
    exact ⟨hl, htl, hanswered, hothers, .inl ⟨rfl, hitem, ht⟩⟩
  | queued hw' | libsvn hw' | finished hw' | ending hw' | consuming _ _ hw'
  | consumingFinal _ hw' =>
    rw [hw] at hw'
    cases hw'

theorem Follows.future (hf : Follows s t) (hs : s.future = some s') : Followed c s s' t := by
  simp only [CommitState.future] at hs
  split at hs
  · rename_i r hw
    split at hs
    · rename_i f hx
      obtain rfl := Option.some.inj hs
      obtain ⟨hl, htl, hanswered, hothers, hcase⟩ := hf.resolved hw hx
      rcases hcase with ⟨hf', hitem, ht⟩ | ⟨f', hf', ht, htanswered⟩
      · obtain rfl : f = none := by simpa using hf'
        refine .inl ⟨⟨hf.tr, hf.todo, hf.job, .consumingFinal r rfl hl ht htl hanswered hothers⟩,
          ?_⟩
        simp [rank, hw, hitem, hanswered.2.1]
      · obtain rfl : f = some f' := by simpa using hf'
        refine .inr ⟨.future, { t with worker := .consume f' }, ?_, ?_, ?_⟩
        · show t.future c.toStream = _
          rw [StreamState.future, ht, htanswered.2.2]
        · exact ⟨hf.tr, hf.todo, hf.job, .consuming r f' rfl hl rfl htl hanswered hothers⟩
        · simp [rank]
    · rename_i e hx
      obtain ⟨-, -, -, -, ⟨he, -⟩ | ⟨f, he, -⟩⟩ := hf.resolved hw hx
      · cases he
      · cases he
    · cases hs
  · cases hs

theorem Follows.consumed (hf : Follows s t) (hflow : StreamState.Flow c.toStream t)
    (hs : s.consumed = some s') : Followed c s s' t := by
  have hp := hflow.phase
  simp only [CommitState.consumed] at hs
  split at hs
  · rename_i r hw
    obtain rfl := Option.some.inj hs
    obtain ⟨hl, ht, htl, hanswered, hothers⟩ : s.loop = .idle ∧ t.worker = .libsvn ∧
        t.loop = .idle ∧ (s.handles r.handle).Answered caller (.ok none) ∧ s.OthersIdle r := by
      cases hf.at_ <;> simp_all
    refine .inl ⟨⟨hf.tr, hf.todo, hf.job, .libsvn rfl hl ht htl (leave_idle hanswered hothers)⟩,
      ?_⟩
    simp [rank, leave, setHandle, hw]
  · rename_i r f hw
    obtain ⟨hl, ht, htl, hanswered, hothers⟩ : s.loop = .idle ∧ t.worker = .consume f ∧
        t.loop = .idle ∧ (s.handles r.handle).Answered caller (.ok (some f)) ∧
        s.OthersIdle r := by
      cases hf.at_ <;> simp_all
    simp only [StreamState.Phase, ht, htl] at hp
    obtain ⟨hgot, hfuture⟩ := hp
    have hresult := hgot.futureResult hflow
    rw [← hfuture, hf.tr] at hresult
    rw [hresult] at hs
    split at hs
    · rename_i hx
      obtain rfl := Option.some.inj hs
      refine .inr ⟨.consumed, { t with
        async := t.async.leave caller, worker := .libsvn, completed := t.completed + 1 },
        ?_, ?_, ?_⟩
      · show t.consumed c.toStream = _
        rw [StreamState.consumed, ht]
        simp [hf.tr, hresult, hx]
      · exact ⟨hf.tr, hf.todo, hf.job, .libsvn rfl hl rfl htl (leave_idle hanswered hothers)⟩
      · simp [rank, leave, setHandle]
    · rename_i e hx
      split at hx <;> simp at hx
    · cases hs
  · cases hs

theorem Follows.finish (hf : Follows s t) (hs : s.finish c = some s') : Followed c s s' t := by
  simp only [CommitState.finish] at hs
  split at hs
  · rename_i hw htodo
    obtain ⟨hl, ht, htl, hidle⟩ := hf.libsvn hw
    obtain rfl := Option.some.inj hs
    have httodo : t.todo = [] := by
      rw [hf.todo, htodo]
      rfl
    refine .inr ⟨.finish, { t with worker := .finished, job := some c.toStream.workResult },
      ?_, ?_, ?_⟩
    · show t.finish c.toStream = _
      rw [StreamState.finish, ht, httodo]
    · exact ⟨hf.tr, hf.todo, rfl, .finished rfl hl rfl htl hidle⟩
    · simp [rank]
  · rename_i e hw
    cases hf.at_ <;> simp_all
  · cases hs

theorem Follows.afterWork (hf : Follows s t) (hflow : StreamState.Flow c.toStream t)
    (hs : s.afterWork = some s') : Followed c s s' t := by
  simp only [CommitState.afterWork] at hs
  split at hs
  · rename_i x hl hjob
    have htl : t.loop = .idle := by
      cases hf.at_ <;> simp_all
    obtain ⟨ht, hfin⟩ := hflow.finished htl (hf.job.trans hjob)
    obtain rfl : c.toStream.workResult = x :=
      Option.some.inj (hfin.job.symm.trans (hf.job.trans hjob))
    obtain ⟨e, hev, he, -⟩ := StreamState.afterWorkEvent_workResult c.toStream
    obtain ⟨tr, hprod, -⟩ := hflow.orderly.produce hfin.free he
    have hprod' := hprod
    rw [hf.tr] at hprod'
    simp only [hev, hprod', Option.some.injEq] at hs
    subst hs
    obtain ⟨hw, hidle⟩ : s.worker = .finished ∧ ∀ h, (s.handles h).Idle := by
      cases hf.at_ <;> simp_all
    refine .inr ⟨.afterWork, { t with tr := tr, job := none, loop := .ending }, ?_, ?_, ?_⟩
    · show t.afterWork = _
      rw [StreamState.afterWork, htl, hfin.job]
      simp [hev, hprod]
    · exact ⟨rfl, hf.todo, rfl, .ending hw rfl ht rfl hidle⟩
    · simp [rank]
  · cases hs

theorem At.withTr (h : At s t) (tr : Trace (StreamValue CommitItem)) :
    At { s with tr := tr } { t with tr := tr } := by
  cases h with
  | queued hw hl ht htl hidle => exact .queued hw hl ht htl hidle
  | libsvn hw hl ht htl hidle => exact .libsvn hw hl ht htl hidle
  | sent r a hw hl hitem ht htl hcalled htcalled hothers =>
    exact .sent r a hw hl hitem ht htl hcalled htcalled hothers
  | yielding r hw hl ht htl hserving hothers =>
    exact .yielding r hw hl ht htl hserving hothers
  | answered r f hw hl ht htl hanswered htanswered hothers =>
    exact .answered r f hw hl ht htl hanswered htanswered hothers
  | consuming r f hw hl ht htl hanswered hothers =>
    exact .consuming r f hw hl ht htl hanswered hothers
  | sentFinal r hw hl hitem ht htl hcalled hothers =>
    exact .sentFinal r hw hl hitem ht htl hcalled hothers
  | answeredFinal r hw hl hitem ht htl hanswered hothers =>
    exact .answeredFinal r hw hl hitem ht htl hanswered hothers
  | consumingFinal r hw hl ht htl hanswered hothers =>
    exact .consumingFinal r hw hl ht htl hanswered hothers
  | finished hw hl ht htl hidle => exact .finished hw hl ht htl hidle
  | ending hw hl ht htl hidle => exact .ending hw hl ht htl hidle

theorem At.not_crashed (h : At s t) : s.loop ≠ .crashed ∧ t.loop ≠ .crashed := by
  cases h <;> simp_all

theorem Follows.next (hf : Follows s t) (hs : s.next = some s') : Followed c s s' t := by
  simp only [CommitState.next] at hs
  split at hs
  · rename_i hcond
    obtain rfl := Option.some.inj hs
    refine .inr ⟨.next, { t with tr := s.tr.next }, ?_, ?_, Nat.le_refl _⟩
    · show t.next = _
      rw [StreamState.next, hf.tr, if_pos ⟨hf.at_.not_crashed.2, hcond.2⟩]
    · exact ⟨rfl, hf.todo, hf.job, hf.at_.withTr s.tr.next⟩
  · cases hs

/-- **A commit is simulated by the stream of its items.** -/
theorem simulation (c : CommitCall) :
    Machine.Simulation (commitStream c) (stream c.toStream) Follows rank where
  init := ⟨rfl, rfl, rfl, .queued rfl rfl rfl rfl fun _ => ⟨rfl, rfl⟩⟩
  step := by
    intro s t l s' ht hf hs
    have hflow := StreamState.flow_reachable ht
    cases l with
    | start => exact hf.start hs
    | report => exact hf.report hflow hs
    | dispatch h => exact hf.dispatch hflow hs
    | ret => exact hf.ret hflow hs
    | future => exact hf.future hs
    | consumed => exact hf.consumed hflow hs
    | finish => exact hf.finish hs
    | afterWork => exact hf.afterWork hflow hs
    | next => exact hf.next hs

/-! ## The law -/

theorem At.no_failure (h : At s t) :
    (∀ e, s.worker ≠ .failing e) ∧ (∀ e, s.worker ≠ .unwound e) ∧ s.loop ≠ .crashed := by
  cases h <;> simp_all

/-- The consumer can go on where the worker waits for it. -/
theorem Follows.next_enabled (hf : Follows s t) (hflow : StreamState.Flow c.toStream t)
    (hstored : s.tr.it.resolverFulfilled = true) : (commitStream c).Enabled s .next := by
  have hlast : s.tr.LastSettled := by
    rw [← hf.tr] at hstored ⊢
    exact hflow.orderly.linked.lastSettled_of_stored hstored
  show (s.next).isSome = true
  rw [CommitState.next, if_pos ⟨hf.at_.not_crashed.1, hlast⟩]
  rfl

/-- While something was not received, some step is enabled. -/
theorem Follows.progress (hf : Follows s t) (hflow : StreamState.Flow c.toStream t)
    (hne : s.tr.answers ≠ c.expected) : ∃ l, (commitStream c).Enabled s l := by
  have hp := hflow.phase
  cases hf.at_ with
  | queued hw => exact ⟨.start, by simp [Machine.Enabled, commitStream, step, hw]⟩
  | libsvn hw hl _ _ hidle =>
    cases htodo : s.todo with
    | nil =>
      refine ⟨.finish, ?_⟩
      show (s.finish c).isSome = true
      simp only [CommitState.finish, hw, htodo]
      rfl
    | cons r todo =>
      obtain ⟨async, hcall, -⟩ := (hidle r.handle).call caller r
      refine ⟨.report, ?_⟩
      show (s.report).isSome = true
      simp only [CommitState.report, hw, htodo, hcall]
      rfl
  | sent r a hw hl hitem ht htl hcalled htcalled hothers =>
    obtain ⟨async, hd, -⟩ := hcalled.dispatch
    obtain ⟨tasync, htd, -⟩ := htcalled.dispatch
    obtain ⟨-, -, hsent⟩ := hflow.sent htl htd
    obtain ⟨tr, hprod, -⟩ := hflow.orderly.produce hsent.free
      (e := .yield (.item a)) (x := StreamCall.itemSettlement a) rfl
    rw [hf.tr] at hprod
    refine ⟨.dispatch r.handle, ?_⟩
    show (s.dispatch r.handle).isSome = true
    simp only [CommitState.dispatch, hl, hd, hitem, hprod]
    rfl
  | yielding r hw hl =>
    refine ⟨.ret, ?_⟩
    show (s.ret).isSome = true
    simp only [CommitState.ret, hl]
    rfl
  | answered r f hw hl ht htl hanswered =>
    refine ⟨.future, ?_⟩
    show (s.future).isSome = true
    simp only [CommitState.future, hw, hanswered.2.2]
    rfl
  | consuming r f hw hl ht htl =>
    simp only [StreamState.Phase, ht, htl] at hp
    have hresult := hp.1.futureResult hflow
    rw [← hp.2, hf.tr] at hresult
    cases hstored : s.tr.it.resolverFulfilled with
    | true => exact ⟨.next, hf.next_enabled hflow hstored⟩
    | false =>
      refine ⟨.consumed, ?_⟩
      show (s.consumed).isSome = true
      rw [hstored, if_neg Bool.false_ne_true] at hresult
      simp only [CommitState.consumed, hw, hresult]
      rfl
  | sentFinal r hw hl hitem ht htl hcalled =>
    obtain ⟨async, hd, -⟩ := hcalled.dispatch
    refine ⟨.dispatch r.handle, ?_⟩
    show (s.dispatch r.handle).isSome = true
    simp only [CommitState.dispatch, hl, hd, hitem]
    rfl
  | answeredFinal r hw hl hitem ht htl hanswered =>
    refine ⟨.future, ?_⟩
    show (s.future).isSome = true
    simp only [CommitState.future, hw, hanswered.2.2]
    rfl
  | consumingFinal r hw =>
    refine ⟨.consumed, ?_⟩
    show (s.consumed).isSome = true
    simp only [CommitState.consumed, hw]
    rfl
  | finished hw hl ht htl =>
    simp only [StreamState.Phase, ht, htl] at hp
    rcases hp with hfin | hended
    · obtain ⟨e, hev, he, -⟩ := StreamState.afterWorkEvent_workResult c.toStream
      obtain ⟨tr, hprod, -⟩ := hflow.orderly.produce hfin.free he
      rw [hf.tr] at hprod
      refine ⟨.afterWork, ?_⟩
      show (s.afterWork).isSome = true
      simp only [CommitState.afterWork, hl, hf.job.symm.trans hfin.job, hev, hprod]
      rfl
    · refine ⟨.next, hf.next_enabled hflow ?_⟩
      by_contra hempty
      have hans := hflow.orderly.answers_of_empty (by rw [hf.tr]; simpa using hempty)
      rw [hended.expected, CommitCall.toStream_expected, hf.tr] at hans
      exact hne hans
  | ending hw hl ht htl =>
    simp only [StreamState.Phase, ht, htl] at hp
    obtain ⟨tr, hret, -⟩ := hflow.orderly.return_ hp.active
    rw [hf.tr] at hret
    refine ⟨.ret, ?_⟩
    show (s.ret).isSome = true
    simp only [CommitState.ret, hl, hret]
    rfl

theorem items_length (reports : List CommitReport) :
    (CommitCall.items reports).length + (reports.filter fun r => r.item.isNone).length =
      reports.length := by
  induction reports with
  | nil => rfl
  | cons r reports ih =>
    cases hitem : r.item with
    | none =>
      rw [items_cons_none hitem, List.filter_cons_of_pos (by simp [hitem]), List.length_cons,
        List.length_cons]
      omega
    | some a =>
      rw [items_cons_some hitem, List.filter_cons_of_neg (by simp [hitem]), List.length_cons,
        List.length_cons]
      omega

/-- **The law of a commit.**  Whatever order worker, loop thread and consumer take their steps
in, the promises of `next` receive an item for each notification that is not of
commit_finalizing and for each commit, in the order of libsvn, and then the end marker; no
call fails; and a run, which is finite, stops only after the marker. -/
theorem commit_stream_law (c : CommitCall) {ls : List CommitStreamLabel}
    (h : (commitStream c).run c.init ls = some s) :
    s.tr.answers <+: c.expected ∧
      s.tr.returned.Nodup ∧
      (s.tr.returned.map s.tr.it.stateOf = s.tr.answers.map some ∨
        s.tr.returned.map s.tr.it.stateOf = s.tr.answers.map some ++ [none]) ∧
      ((∀ e, s.worker ≠ .failing e) ∧ (∀ e, s.worker ≠ .unwound e) ∧ s.loop ≠ .crashed) ∧
      (s.tr.answers ≠ c.expected → ∃ l, (commitStream c).Enabled s l) ∧
      ls.length ≤ 6 * c.reports.length + 6 := by
  obtain ⟨ks, t, hks, hf, hlen⟩ := (simulation c).run h
  have hr : (stream c.toStream).Reachable t := ⟨ks, hks⟩
  have hflow := StreamState.flow_reachable hr
  have hpre := StreamState.answers_isPrefix hr
  have hmap := hflow.orderly.linked.returned_map hflow.orderly.toInv
  have hnodup := hflow.orderly.nodup
  rw [hf.tr] at hpre hmap hnodup
  rw [CommitCall.toStream_expected] at hpre
  refine ⟨hpre, hnodup, hmap, hf.at_.no_failure, hf.progress hflow, ?_⟩
  have hks' := StreamState.length_le hks
  have hitems := items_length c.reports
  have hinit : rank (commitStream c).init =
      4 * (c.reports.filter fun r => r.item.isNone).length := rfl
  have htodo : c.toStream.items.length = (CommitCall.items c.reports).length := rfl
  omega

/-- One file is modified, the commit finalizes and is reported. -/
def commitOfOne : CommitCall where
  reports := [⟨.notify ⟨15, [97], none⟩, .other⟩, ⟨.notify ⟨79, [97], none⟩, .other⟩,
    ⟨.commit ⟨7, "today".utf8, "me".utf8, none, none⟩, .other⟩]
  outcome := .ok ()

/-- The worker goes through both handles and ends; the consumer calls `next` three times. -/
def wholeCommit : List CommitStreamLabel :=
  [.start, .report, .dispatch .notify, .next, .ret, .future, .consumed, .report,
    .dispatch .notify, .future, .consumed, .report, .dispatch .callback, .next, .ret, .future,
    .consumed, .finish, .afterWork, .ret, .next]

theorem commit_stream_law_two_reports :
    ∃ s, (commitStream commitOfOne).run commitOfOne.init wholeCommit = some s ∧
      s.tr.answers = [.fulfilled (some (.item ⟨15, .string [97], none⟩)) false,
        .fulfilled (some (.item ⟨79, .other, some ⟨7, "today".utf8, "me".utf8, none, none⟩⟩))
          false,
        .fulfilled none true] ∧
      s.tr.returned.map s.tr.it.stateOf = s.tr.answers.map some := by
  have hrun : ((commitStream commitOfOne).run commitOfOne.init wholeCommit).isSome = true := rfl
  refine ⟨_, (Option.some_get hrun).symm, rfl, ?_⟩
  obtain ⟨-, -, hmap, -⟩ := commit_stream_law commitOfOne (Option.some_get hrun).symm
  refine hmap.resolve_right fun hpending => ?_
  -- the promise of a fourth call would be pending
  have hlength : 3 = 4 := congrArg List.length hpending
  cases hlength

/-! ## Which items are final -/

/-- `result["action"]` of an item. -/
def actionNumber (a : CommitItem) : JsNumber := .ofInt (toInt32 a.action)

/-- `is_commit_finalize_notify` of `notify_action.hpp`, on the action of an item. -/
def isCommitFinalizeNotify (action : JsNumber) : Bool := action.int32Value = commitFinalizing

/-- The enumeration of libsvn is an `int`. -/
def HasAction (r : CommitReport) : Prop :=
  match r.event with
  | .notify info => -2147483648 ≤ info.action ∧ info.action < 2147483648
  | .commit _ => True

theorem isCommitFinalizeNotify_iff_of_item {a : CommitItem} (hr : HasAction r)
    (hitem : r.item = some a) :
    isCommitFinalizeNotify (actionNumber a) = true ↔ a.info.isSome = true := by
  have hrange := JsNumber.toInt32_range a.action
  rw [isCommitFinalizeNotify, actionNumber, JsNumber.int32Value_ofInt hrange.1 hrange.2,
    decide_eq_true_eq]
  obtain ⟨event, slot⟩ := r
  cases event with
  | commit info =>
    obtain rfl := Option.some.inj hitem
    exact ⟨fun _ => rfl, fun _ => rfl⟩
  | notify info =>
    have hserve : (notifyClosure info slot).2 = some a := hitem
    rw [notifyClosure] at hserve
    by_cases hfinal : info.action = commitFinalizing
    · rw [if_pos hfinal] at hserve
      cases hserve
    · rw [if_neg hfinal] at hserve
      obtain rfl := Option.some.inj hserve
      rw [JsNumber.toInt32_of_range hr.1 hr.2]
      exact ⟨fun h => absurd h hfinal, fun h => absurd h (by simp)⟩

/-- Along every run the guard takes exactly the items with the fields of a commit. -/
theorem isCommitFinalizeNotify_iff (c : CommitCall) (hc : ∀ r ∈ c.reports, HasAction r)
    (h : (commitStream c).Reachable s) {a : CommitItem}
    (ha : StreamCall.itemSettlement a ∈ s.tr.answers) :
    isCommitFinalizeNotify (actionNumber a) = true ↔ a.info.isSome = true := by
  obtain ⟨ls, hls⟩ := h
  obtain ⟨ks, t, hks, hf, -⟩ := (simulation c).run hls
  have hpre := StreamState.answers_isPrefix (c := c.toStream) ⟨ks, hks⟩
  rw [hf.tr, CommitCall.toStream_expected] at hpre
  have hmem := hpre.subset ha
  rw [CommitCall.expected, List.mem_append] at hmem
  rcases hmem with hmem | hmem
  · obtain ⟨b, hb, hab⟩ := List.mem_map.mp hmem
    obtain rfl : b = a := by
      simpa [StreamCall.itemSettlement] using hab
    obtain ⟨r, hr, hitem⟩ := List.mem_filterMap.mp hb
    exact isCommitFinalizeNotify_iff_of_item (hc r hr) hitem
  · -- the end marker is no item
    have hmarker := List.mem_singleton.mp hmem
    rw [StreamCall.marker] at hmarker
    split at hmarker <;> simp [StreamCall.itemSettlement] at hmarker

/-- The consumer of `commitOfOne` has the item of the modified file. -/
theorem isCommitFinalizeNotify_iff_modified :
    ∃ s, (commitStream commitOfOne).Reachable s ∧
      (isCommitFinalizeNotify (actionNumber ⟨15, .string [97], none⟩) = true ↔
        (⟨15, .string [97], none⟩ : CommitItem).info.isSome = true) := by
  have hc : ∀ r ∈ commitOfOne.reports, HasAction r := by
    intro r hr
    simp only [commitOfOne, List.mem_cons, List.not_mem_nil, or_false] at hr
    rcases hr with rfl | rfl | rfl
    · exact ⟨by decide, by decide⟩
    · exact ⟨by decide, by decide⟩
    · trivial
  refine ⟨_, ⟨[.start, .report, .dispatch .notify, .next], (Option.some_get rfl).symm⟩,
    isCommitFinalizeNotify_iff commitOfOne hc
      ⟨[.start, .report, .dispatch .notify, .next], (Option.some_get rfl).symm⟩ ?_⟩
  exact List.mem_singleton.mpr rfl

end CommitState

end NodeSvn
