import NodeSvn.Node.Error
import NodeSvn.Node.Iterable
import NodeSvn.Node.Method

/-!
# The after-work step

What the loop thread does when the work of a method is over: `invoke_after_work` takes the
future of the work's promise, runs the method's closure and deletes the work.  The closure
builds the JS result and settles the method's promise, or ends its iterator; it catches
`svn::svn_error` only, and then rejects with `copy_error`.

Every V8 call that can fail asks the environment for its outcome: `check_result` makes an
exception of a failure, `ToLocalChecked` aborts the process.

The closure settles once, with the right kind, and returns exactly if no V8 call that it
makes fails, the iterator can take the settlement, and the work raised nothing but an
`svn_error` (`settles_once_iff`).
-/

namespace NodeSvn

inductive JsValue where
  | undefined
  | int (n : Int)
  | string (s : String)
  | buffer (content : List UInt8)
  | object (properties : List (String × JsValue))
  | error (e : JsError)

structure CatResult where
  content : List UInt8
  properties : List (String × String)

/-- What the work of the method returns. -/
abbrev Method.Value : Method → Type
  | .cat => CatResult
  | .checkout => Int
  | .getWorkingCopyRoot => String
  | _ => Unit

/-- How the closure ends if it does not return. -/
inductive Failure where
  | exn (e : Exn)
  /-- V8 ends the process -/
  | abort
  /-- the thread waits for a future without a result -/
  | blocked
  deriving DecidableEq, Repr

structure Env where
  /-- what the i-th V8 call returns: `some true`, or `some false`, or nothing -/
  v8 : Nat → Option Bool
  /-- how often JS calls `next` in the `RunMicrotasks` of the iterator -/
  nexts : Nat

structure AfterState where
  /-- the V8 calls made so far -/
  calls : Nat
  /-- the promise of the method -/
  promise : Option (Except JsValue JsValue)
  /-- the iterator of the method -/
  it : Iterable JsValue
  /-- how often the work was deleted -/
  deleted : Nat

abbrev AfterM := EStateM Failure AfterState

variable (env : Env)

def v8Call : AfterM (Option Bool) := do
  let s ← get
  set { s with calls := s.calls + 1 }
  return env.v8 s.calls

/-- `no::check_result` of a V8 call. -/
def checkResult : AfterM Unit := do
  match ← v8Call env with
  | some true => pure ()
  | _ => throw (.exn (.runtimeError ""))

/-- `ToLocalChecked` of a V8 call. -/
def toLocalChecked : AfterM Unit := do
  match ← v8Call env with
  | some true => pure ()
  | _ => throw .abort

/-! ## `copy_error` and the results -/

/-- `object[name] = value` for a literal name. -/
def setProperty {β : Type} (value : AfterM β) : AfterM β := do
  toLocalChecked env
  let value ← value
  checkResult env
  return value

/-- `no::data(isolate, const char*)` -/
def dataChars (s : String) : AfterM String := do
  toLocalChecked env
  return s

/-- `no::data(isolate, std::string)` -/
def dataString (s : String) : AfterM String := do
  checkResult env
  return s

def copyErrorLevel (raw : SvnErrorLevel) : AfterM JsErrorLevel := do
  let message ← dataChars env raw.what
  let name ← setProperty env (dataChars env "SvnError")
  let code ← setProperty env (pure raw.code)
  let file ← setProperty env (dataString env raw.file)
  let line ← setProperty env (pure raw.line)
  return ⟨message, name, code, file, line⟩

def copyErrorJs : SvnError → AfterM JsError
  | .last level => do
    let error ← copyErrorLevel env level
    return .last error
  | .chained level child => do
    let error ← copyErrorLevel env level
    let child ← copyErrorJs child
    let child ← setProperty env (pure child)
    return .chained error child

def setProperties : List (String × String) → AfterM (List (String × JsValue))
  | [] => pure []
  | (name, value) :: rest => do
    let name ← dataString env name
    let value ← dataString env value
    checkResult env
    let rest ← setProperties rest
    return (name, .string value) :: rest

/-- The value that the method passes to `resolver->resolve`. -/
def buildResult : (m : Method) → m.Value → AfterM JsValue
  | .cat, raw => do
    toLocalChecked env  -- `node::Buffer::New`
    let content ← setProperty env (pure (JsValue.buffer raw.content))
    let properties ← setProperties env raw.properties
    let properties ← setProperty env (pure (JsValue.object properties))
    return .object [("content", content), ("properties", properties)]
  | .checkout, revision => pure (.int revision)
  | .getWorkingCopyRoot, path => do
    let path ← dataString env path
    return .string path
  | _, _ => pure .undefined

/-! ## The closures -/

/-- `resolver::set_result`; a promise that is settled stays as it is. -/
def setResult (x : Except JsValue JsValue) : AfterM Unit := do
  checkResult env
  modify fun s => { s with promise := some (s.promise.getD x) }

/-- JS within `RunMicrotasks`. -/
def nexts {V : Type} : Nat → IterM V Unit
  | 0 => pure ()
  | k + 1 => do
    let _ ← Iterable.next
    nexts k

/-- `iterable::resolve`, called for its iterator. -/
def iterableResolve (success : Bool) (value : Option JsValue) (done : Bool) : AfterM Unit :=
  fun s =>
    match (Iterable.resolve (env.v8 s.calls) success value done (nexts env.nexts)).run s.it with
    | .ok _ it => .ok () { s with calls := s.calls + 1, it := it }
    | .error e it => .error (.exn e) { s with calls := s.calls + 1, it := it }

/-- `future.get()` and what follows on success. -/
def onResult (m : Method) (result : Except Exn m.Value) : AfterM Unit :=
  match result with
  | .error e => throw (.exn e)
  | .ok value =>
    if m.iterates then iterableResolve env true none true
    else do
      let x ← buildResult env m value
      setResult env (.ok x)

/-- The body of the `catch` clause. -/
def onError (m : Method) (raw : SvnError) : AfterM Unit := do
  let error ← copyErrorJs env raw
  if m.iterates then iterableResolve env false (some (.error error)) false
  else setResult env (.error (.error error))

def afterWork (m : Method) (result : Except Exn m.Value) : AfterM Unit :=
  tryCatch (onResult env m result) fun
    | .exn e =>
      match e.asSvnError with
      | some raw => onError env m raw
      | none => throw (.exn e)
    | f => throw f

/-- The end of `invoke_work`: the closure's result is set on the promise. -/
def invokeWork {R : Type} (outcome : Except Exn R) : Except FutureErrc (OneShot Exn R) :=
  OneShot.fresh.setResult outcome

/-- `invoke_after_work`. -/
def invokeAfterWork (m : Method) (promise : OneShot Exn m.Value) : AfterM Unit := do
  match promise.getFuture with
  | .error _ => throw (.exn .futureError)
  | .ok future =>
    match future.result with
    | none => throw .blocked
    | some result => afterWork env m result
  modify fun s => { s with deleted := s.deleted + 1 }

/-! ## What a building step needs of V8 -/

/-- The next `n` V8 calls succeed. -/
def Env.Answers (i n : Nat) : Prop := ∀ k, k < n → env.v8 (i + k) = some true

/-- The `catch` clause does not take it. -/
def Failure.Uncaught : Failure → Prop
  | .exn e => e.asSvnError = none
  | _ => True

/-- `x` makes `n` V8 calls; it returns `v` if all succeed, and else fails for good. -/
structure Builds {β : Type} (x : AfterM β) (n : Nat) (v : β) : Prop where
  ok : ∀ s, env.Answers s.calls n → x.run s = .ok v { s with calls := s.calls + n }
  fails : ∀ s, ¬ env.Answers s.calls n → ∃ f s', x.run s = .error f s' ∧ f.Uncaught

variable {env} {β γ : Type} {x : AfterM β} {n k i : Nat} {v : β}

theorem answers_zero : env.Answers i 0 := by simp [Env.Answers]

theorem answers_one : env.Answers i 1 ↔ env.v8 i = some true := by
  constructor
  · intro h
    exact h 0 Nat.one_pos
  · intro h k hk
    obtain rfl : k = 0 := by omega
    exact h

theorem answers_add : env.Answers i (n + k) ↔ env.Answers i n ∧ env.Answers (i + n) k := by
  constructor
  · intro h
    refine ⟨fun j hj => h j (by omega), fun j hj => ?_⟩
    rw [Nat.add_assoc]
    exact h (n + j) (by omega)
  · rintro ⟨hn, hk⟩ j hj
    rcases Nat.lt_or_ge j n with hlt | hge
    · exact hn j hlt
    · have := hk (j - n) (by omega)
      rwa [show i + n + (j - n) = i + j by omega] at this

theorem Builds.pure (v : β) : Builds env (pure v) 0 v where
  ok := fun _ _ => rfl
  fails := fun _ h => absurd answers_zero h

theorem Builds.bind {f : β → AfterM γ} {w : γ} (hx : Builds env x n v)
    (hf : Builds env (f v) k w) : Builds env (x >>= f) (n + k) w where
  ok := by
    intro s h
    rw [answers_add] at h
    rw [EStateM.run_bind, hx.ok s h.1]
    simp only [hf.ok { s with calls := s.calls + n } h.2, Nat.add_assoc]
  fails := by
    intro s h
    rw [EStateM.run_bind]
    by_cases hn : env.Answers s.calls n
    · rw [hx.ok s hn]
      exact hf.fails _ fun hk => h (answers_add.mpr ⟨hn, hk⟩)
    · obtain ⟨e, s', he, hu⟩ := hx.fails s hn
      rw [he]
      exact ⟨e, s', rfl, hu⟩

theorem Builds.map (hx : Builds env x n v) (f : β → γ) :
    Builds env (x >>= fun b => Pure.pure (f b)) n (f v) :=
  .bind (k := 0) hx (.pure _)

theorem Builds.checkResult : Builds env (checkResult env) 1 () where
  ok := by
    intro s h
    simp [NodeSvn.checkResult, v8Call, answers_one.mp h]
  fails := by
    intro s h
    rw [answers_one] at h
    refine ⟨.exn (.runtimeError ""), { s with calls := s.calls + 1 }, ?_, rfl⟩
    cases hv : env.v8 s.calls with
    | none => simp [NodeSvn.checkResult, v8Call, hv]
    | some b => cases b <;> simp_all [NodeSvn.checkResult, v8Call]

theorem Builds.toLocalChecked : Builds env (toLocalChecked env) 1 () where
  ok := by
    intro s h
    simp [NodeSvn.toLocalChecked, v8Call, answers_one.mp h]
  fails := by
    intro s h
    rw [answers_one] at h
    refine ⟨.abort, { s with calls := s.calls + 1 }, ?_, trivial⟩
    cases hv : env.v8 s.calls with
    | none => simp [NodeSvn.toLocalChecked, v8Call, hv]
    | some b => cases b <;> simp_all [NodeSvn.toLocalChecked, v8Call]

theorem Builds.setProperty (hx : Builds env x n v) :
    Builds env (setProperty env x) (1 + (n + 1)) v :=
  .bind .toLocalChecked (.bind hx (.map .checkResult fun _ => v))

theorem Builds.dataChars (s : String) : Builds env (dataChars env s) 1 s :=
  .map .toLocalChecked fun _ => s

theorem Builds.dataString (s : String) : Builds env (dataString env s) 1 s :=
  .map .checkResult fun _ => s

/-- The V8 calls that `copy_error` makes. -/
def errorCalls : SvnError → Nat
  | .last _ => 11
  | .chained _ child => 11 + (errorCalls child + 2)

theorem Builds.copyErrorLevel (raw : SvnErrorLevel) :
    Builds env (copyErrorLevel env raw) 11 raw.toJs :=
  .bind (n := 1) (k := 10) (.dataChars _) (.bind (n := 3) (k := 7) (.setProperty (.dataChars _))
    (.bind (n := 2) (k := 5) (.setProperty (.pure _)) (.bind (n := 3) (k := 2)
      (.setProperty (.dataString _)) (.map (.setProperty (.pure _)) _))))

theorem Builds.copyErrorJs (env : Env) (raw : SvnError) :
    Builds env (copyErrorJs env raw) (errorCalls raw) (copyError raw) := by
  induction raw with
  | last level => exact .map (.copyErrorLevel level) _
  | chained level child ih =>
    exact .bind (.copyErrorLevel level) (.bind ih (.map (.setProperty (.pure _)) _))

/-- The JS value for what the work returned. -/
def jsValue : (m : Method) → m.Value → JsValue
  | .cat, raw => .object [("content", .buffer raw.content),
      ("properties", .object (raw.properties.map fun p => (p.1, .string p.2)))]
  | .checkout, revision => .int revision
  | .getWorkingCopyRoot, path => .string path
  | _, _ => .undefined

/-- The V8 calls made in building it. -/
def resultCalls : (m : Method) → m.Value → Nat
  | .cat, raw => 1 + (2 + (3 * raw.properties.length + 2))
  | .getWorkingCopyRoot, _ => 1
  | _, _ => 0

theorem Builds.setProperties (l : List (String × String)) :
    Builds env (setProperties env l) (3 * l.length) (l.map fun p => (p.1, .string p.2)) := by
  induction l with
  | nil => exact .pure []
  | cons p l ih =>
    rw [show 3 * (p :: l).length = 1 + (1 + (1 + 3 * l.length)) by rw [List.length_cons]; omega]
    exact .bind (.dataString _) (.bind (.dataString _) (.bind .checkResult (.map ih _)))

theorem Builds.buildResult (m : Method) (value : m.Value) :
    Builds env (buildResult env m value) (resultCalls m value) (jsValue m value) := by
  cases m with
  | cat =>
    exact .bind .toLocalChecked (.bind (.setProperty (.pure _)) (.bind (.setProperties _)
      (.map (.setProperty (.pure _)) _)))
  | getWorkingCopyRoot => exact .map (.dataString _) _
  | _ => exact .pure _

/-! ## Settling -/

/-- One promise of the iterator, and only that, became settled, with `x`. -/
def Iterable.SettlesOne {V : Type} (it it' : Iterable V) (x : Settlement V) : Prop :=
  ∃ r, it.promiseAt r = none ∧ it'.promiseAt r = some x ∧
    ∀ r', r' ≠ r → it'.promiseAt r' = it.promiseAt r'

/-- `next` settles nothing and leaves the future of the call to be taken. -/
theorem nexts_run {V : Type} (k : Nat) {it : Iterable V} (h : it.WF)
    (hc : ∃ c, it.shared[it.consumePromise]? = some c ∧ c.retrieved = false) :
    ∃ it', (nexts k).run it = .ok () it' ∧
      (∃ c, it'.shared[it'.consumePromise]? = some c ∧ c.retrieved = false) ∧
      ∀ r, it'.promiseAt r = it.promiseAt r := by
  induction k generalizing it with
  | zero => exact ⟨it, rfl, hc, fun r => rfl⟩
  | succ k ih =>
    obtain ⟨c, hcell, hret⟩ := hc
    cases hf : it.resolverFulfilled with
    | true =>
      obtain ⟨r, x, hr, -, hnone⟩ := h.stored hf
      rw [Iterable.futureResult, hcell, Option.bind_some] at hnone
      obtain ⟨it', hrun, hc', hp⟩ := ih h.afterTake
        ⟨{ c with result := some (.ok ()) }, by simp [Iterable.afterTake, hcell], hret⟩
      refine ⟨it', ?_, hc', hp⟩
      rw [nexts, EStateM.run_bind, Iterable.next_stored hf hr hcell hnone]
      exact hrun
    | false =>
      obtain ⟨it', hrun, hc', hp⟩ := ih (h.afterAsk hf) ⟨c, hcell, hret⟩
      refine ⟨it', ?_, hc', fun r => (hp r).trans (Iterable.promiseAt_afterAsk r)⟩
      rw [nexts, EStateM.run_bind, Iterable.next_not_stored hf]
      exact hrun

theorem resolve_settlesOne {V : Type} {it : Iterable V} (h : it.WF)
    (hf : it.resolverFulfilled = false) (hr : it.iteratorReleased = false) (success : Bool)
    (value : Option V) (done : Bool) (k : Nat) :
    ∃ f it', (Iterable.resolve (some true) success value done (nexts k)).run it = .ok f it' ∧
      it.SettlesOne it' (Iterable.settlement success value done) := by
  generalize hx : Iterable.settlement success value done = x
  -- up to `RunMicrotasks`
  obtain ⟨it₁, hbegin, hwf, hcell, hone⟩ : ∃ it₁,
      (Iterable.resolveBegin (some true) success value done).run it = .ok () it₁ ∧ it₁.WF ∧
      (∃ c, it₁.shared[it₁.consumePromise]? = some c ∧ c.retrieved = false) ∧
      it.SettlesOne it₁ x := by
    cases hs : it.resolver with
    | none =>
      exact ⟨_, hx ▸ Iterable.resolveBegin_empty hf hr hs success value done,
        Iterable.afterStore_wf it x, ⟨_, Iterable.cell_append it _, rfl⟩, it.promises.length,
        Iterable.promiseAt_of_le (Nat.le_refl _), Iterable.promiseAt_afterStore_self x,
        fun r' hne => Iterable.promiseAt_afterStore_ne hne x⟩
    | some r =>
      have hp := h.waiting hf r hs
      exact ⟨_, hx ▸ Iterable.resolveBegin_waiting hf hr hs success value done,
        Iterable.afterHand_wf hf r x, ⟨_, Iterable.cell_append it _, rfl⟩, r, hp,
        Iterable.promiseAt_afterHand_self (h.resolver_lt r hs) hp x,
        fun r' hne => Iterable.promiseAt_afterHand_ne (Ne.symm hne) x⟩
  obtain ⟨it₂, hnexts, ⟨c, hc, hn⟩, hsame⟩ := nexts_run k hwf hcell
  refine ⟨it₂.consumePromise, it₂.afterFuture, ?_, ?_⟩
  · rw [Iterable.resolve, EStateM.run_bind, hbegin]
    simp only [EStateM.run_bind, hnexts]
    exact Iterable.getFuture_ok hc hn
  · obtain ⟨r, hnone, hself, hother⟩ := hone
    refine ⟨r, hnone, ?_, fun r' hne => ?_⟩
    · rw [Iterable.promiseAt_afterFuture, hsame, hself]
    · rw [Iterable.promiseAt_afterFuture, hsame, hother r' hne]

/-- The iterator has nothing stored and was not released. -/
def Iterable.Ready {V : Type} (it : Iterable V) : Prop :=
  it.resolverFulfilled = false ∧ it.iteratorReleased = false

theorem iterableResolve_ok {s : AfterState} (h : s.it.WF) (hr : s.it.Ready)
    (hv : env.Answers s.calls 1) (success : Bool) (value : Option JsValue) (done : Bool) :
    ∃ it', (iterableResolve env success value done).run s =
        .ok () { s with calls := s.calls + 1, it := it' } ∧
      s.it.SettlesOne it' (Iterable.settlement success value done) := by
  obtain ⟨f, it', hrun, hone⟩ := resolve_settlesOne h hr.1 hr.2 success value done env.nexts
  refine ⟨it', ?_, hone⟩
  simp only [EStateM.run] at hrun
  simp [iterableResolve, EStateM.run, answers_one.mp hv, hrun]

theorem iterableResolve_fails {s : AfterState} (h : ¬ (s.it.Ready ∧ env.Answers s.calls 1))
    (success : Bool) (value : Option JsValue) (done : Bool) :
    ∃ f s', (iterableResolve env success value done).run s = .error f s' ∧ f.Uncaught := by
  obtain ⟨it', hrun⟩ : ∃ it', (Iterable.resolveBegin (env.v8 s.calls) success value done).run s.it =
      .error (.runtimeError "") it' := by
    cases hf : s.it.resolverFulfilled with
    | true => exact ⟨_, Iterable.resolveBegin_stored hf _ _ _ _⟩
    | false =>
      cases hr : s.it.iteratorReleased with
      | true => exact ⟨_, Iterable.resolveBegin_released hf hr _ _ _ _⟩
      | false =>
        exact Iterable.resolveBegin_refused hf hr (fun hv => h ⟨⟨hf, hr⟩, answers_one.mpr hv⟩) _ _ _
  refine ⟨.exn (.runtimeError ""), { s with calls := s.calls + 1, it := it' }, ?_, rfl⟩
  have : (Iterable.resolve (env.v8 s.calls) success value done (nexts env.nexts)).run s.it =
      .error (.runtimeError "") it' := by
    rw [Iterable.resolve, EStateM.run_bind, hrun]
  simp only [EStateM.run] at this
  simp [iterableResolve, EStateM.run, this]

theorem setResult_ok {s : AfterState} (hv : env.Answers s.calls 1) (x : Except JsValue JsValue) :
    (setResult env x).run s =
      .ok () { s with calls := s.calls + 1, promise := some (s.promise.getD x) } := by
  rw [setResult, EStateM.run_bind, Builds.checkResult.ok s hv]
  rfl

theorem setResult_fails {s : AfterState} (hv : ¬ env.Answers s.calls 1)
    (x : Except JsValue JsValue) :
    ∃ f s', (setResult env x).run s = .error f s' ∧ f.Uncaught := by
  obtain ⟨f, s', hf, hu⟩ := Builds.checkResult.fails s hv
  refine ⟨f, s', ?_, hu⟩
  rw [setResult, EStateM.run_bind, hf]

/-! ## The closure as a whole -/

section Closure

variable {m : Method} {s s' : AfterState} {f : Failure}

theorem run_tryCatch (x : AfterM β) (handle : Failure → AfterM β) (s : AfterState) :
    (tryCatch x handle).run s =
      match x.run s with
      | .ok v s' => .ok v s'
      | .error f s' => (handle f).run s' := by
  simp only [tryCatch, tryCatchThe, MonadExceptOf.tryCatch, EStateM.tryCatch, EStateM.run]
  cases x s <;> rfl

theorem afterWork_ok {r : Except Exn m.Value} (h : (onResult env m r).run s = .ok () s') :
    (afterWork env m r).run s = .ok () s' := by
  rw [afterWork, run_tryCatch, h]

/-- What the `catch` clause does not take leaves the closure. -/
theorem afterWork_fails {r : Except Exn m.Value} (h : (onResult env m r).run s = .error f s')
    (hu : f.Uncaught) : (afterWork env m r).run s = .error f s' := by
  rw [afterWork, run_tryCatch, h]
  cases f with
  | exn e =>
    have he : e.asSvnError = none := hu
    simp [he]
  | abort => rfl
  | blocked => rfl

theorem afterWork_svnError {e : Exn} {raw : SvnError} (h : e.asSvnError = some raw) :
    (afterWork env m (.error e)).run s = (onError env m raw).run s := by
  have hr : (onResult env m (.error e)).run s = .error (.exn e) s := rfl
  rw [afterWork, run_tryCatch, hr]
  simp [h]

end Closure

def AfterState.start (it : Iterable JsValue) : AfterState := ⟨0, none, it, 0⟩

/-- How a method's promise or iterator is to be settled, once, for what its work did. -/
def SettledFor (m : Method) (r : Except Exn m.Value) (it : Iterable JsValue) (s : AfterState) :
    Prop :=
  if m.iterates then
    s.promise = none ∧
      match r with
      | .ok _ => it.SettlesOne s.it (.fulfilled none true)
      | .error _ => ∃ reason, it.SettlesOne s.it (.rejected reason)
  else
    s.it = it ∧
      match r with
      | .ok value => s.promise = some (.ok (jsValue m value))
      | .error _ => ∃ reason, s.promise = some (.error reason)

/-- The after-work step returns, has settled once, and deleted the work once. -/
def SettlesOnce (env : Env) (m : Method) (r : Except Exn m.Value) (it : Iterable JsValue) : Prop :=
  ∃ promise s, invokeWork r = .ok promise ∧
    (invokeAfterWork env m promise).run (.start it) = .ok () s ∧ s.deleted = 1 ∧
    SettledFor m r it s

/-- The V8 calls of the closure: those that build what it settles with, and the settlement. -/
def closureCalls (m : Method) : Except Exn m.Value → Nat
  | .ok value => (if m.iterates then 0 else resultCalls m value) + 1
  | .error e => (e.asSvnError.map errorCalls).getD 0 + 1

/-- No V8 call of the closure fails, the iterator can take a settlement, and an exception of
the work is an `svn_error`. -/
def CanSettle (env : Env) (m : Method) (r : Except Exn m.Value) (it : Iterable JsValue) : Prop :=
  env.Answers 0 (closureCalls m r) ∧ (m.iterates = true → it.Ready) ∧
    ∀ e, r = .error e → e.asSvnError.isSome = true

theorem invokeAfterWork_run (env : Env) (m : Method) (r : Except Exn m.Value) (s : AfterState) :
    ∃ promise, invokeWork r = .ok promise ∧
      (invokeAfterWork env m promise).run s =
        match (afterWork env m r).run s with
        | .ok () s' => .ok () { s' with deleted := s'.deleted + 1 }
        | .error f s' => .error f s' := by
  refine ⟨{ OneShot.fresh with result := some r }, rfl, ?_⟩
  simp only [invokeAfterWork, OneShot.getFuture, OneShot.fresh, Bool.false_eq_true, if_false,
    EStateM.run_bind]
  cases (afterWork env m r).run s <;> rfl

/-- Settling after `n` calls that build `v`. -/
theorem settle_ok {n : Nat} {x : AfterM β} {v : β} {m : Method} {it : Iterable JsValue}
    (h : Builds env x n v) (success : Bool) (a : β → Option JsValue) (done : Bool)
    (b : β → Except JsValue JsValue) (hwf : it.WF) (hready : m.iterates = true → it.Ready)
    (hv : env.Answers 0 (n + 1)) :
    ∃ s, (x >>= fun y => if m.iterates then iterableResolve env success (a y) done
        else setResult env (b y)).run (.start it) = .ok () s ∧ s.deleted = 0 ∧
      if m.iterates then s.promise = none ∧
        it.SettlesOne s.it (Iterable.settlement success (a v) done)
      else s.it = it ∧ s.promise = some (b v) := by
  rw [answers_add] at hv
  rw [EStateM.run_bind, h.ok _ hv.1]
  cases hm : m.iterates with
  | true =>
    obtain ⟨it', hrun, hone⟩ := iterableResolve_ok
      (s := { AfterState.start it with calls := (AfterState.start it).calls + n }) hwf (hready hm)
      hv.2 success (a v) done
    exact ⟨_, hrun, rfl, rfl, hone⟩
  | false => exact ⟨_, setResult_ok hv.2 (b v), rfl, rfl, rfl⟩

theorem settle_fails {n : Nat} {x : AfterM β} {v : β} (m : Method) (it : Iterable JsValue)
    (h : Builds env x n v) (success : Bool) (a : β → Option JsValue) (done : Bool)
    (b : β → Except JsValue JsValue)
    (hno : ¬ (env.Answers 0 (n + 1) ∧ (m.iterates = true → it.Ready))) :
    ∃ f s, (x >>= fun y => if m.iterates then iterableResolve env success (a y) done
        else setResult env (b y)).run (.start it) = .error f s ∧ f.Uncaught := by
  rw [EStateM.run_bind]
  by_cases hn : env.Answers (AfterState.start it).calls n
  · rw [h.ok _ hn]
    have hno' : ¬ (env.Answers (0 + n) 1 ∧ (m.iterates = true → it.Ready)) := fun hc =>
      hno ⟨answers_add.mpr ⟨hn, hc.1⟩, hc.2⟩
    cases hm : m.iterates with
    | true =>
      exact iterableResolve_fails (fun hc => hno' ⟨hc.2, fun _ => hc.1⟩) success (a v) done
    | false => exact setResult_fails (fun hc => hno' ⟨hc, by simp [hm]⟩) (b v)
  · obtain ⟨f, s, hf, hu⟩ := h.fails _ hn
    rw [hf]
    exact ⟨f, s, rfl, hu⟩

/-- The value that a closure builds on success; an iterator's builds none. -/
def closureValue (env : Env) (m : Method) (value : m.Value) : AfterM JsValue :=
  if m.iterates then pure .undefined else buildResult env m value

theorem Builds.closureValue (env : Env) (m : Method) (value : m.Value) :
    Builds env (closureValue env m value) (if m.iterates then 0 else resultCalls m value)
      (if m.iterates then .undefined else jsValue m value) := by
  unfold NodeSvn.closureValue
  cases m.iterates with
  | true => exact .pure _
  | false => exact .buildResult m value

theorem onResult_eq (m : Method) (value : m.Value) :
    onResult env m (.ok value) = (closureValue env m value >>= fun y =>
      if m.iterates then iterableResolve env true none true else setResult env (.ok y)) := by
  unfold onResult closureValue
  cases m.iterates <;> rfl

theorem closureCalls_svnError {e : Exn} {raw : SvnError} (m : Method)
    (he : e.asSvnError = some raw) : closureCalls m (.error e) = errorCalls raw + 1 := by
  simp [closureCalls, he]

/-- The after-work step that can settle does, and returns. -/
theorem afterWork_settles {r : Except Exn m.Value} {it : Iterable JsValue} (hwf : it.WF)
    (hcan : CanSettle env m r it) :
    ∃ s, (afterWork env m r).run (.start it) = .ok () s ∧ s.deleted = 0 ∧
      SettledFor m r it s := by
  cases r with
  | ok value =>
    obtain ⟨s, hs, hd, hsettled⟩ := settle_ok (Builds.closureValue env m value) true
      (fun _ => none) true (fun y => .ok y) hwf hcan.2.1 hcan.1
    refine ⟨s, afterWork_ok (onResult_eq m value ▸ hs), hd, ?_⟩
    unfold SettledFor
    cases hm : m.iterates <;> simp_all [Iterable.settlement]
  | error e =>
    obtain ⟨raw, he⟩ := Option.isSome_iff_exists.mp (hcan.2.2 e rfl)
    obtain ⟨s, hs, hd, hsettled⟩ := settle_ok (Builds.copyErrorJs env raw) false
      (fun e => some (.error e)) false (fun e => .error (.error e)) hwf hcan.2.1
      (closureCalls_svnError m he ▸ hcan.1)
    refine ⟨s, (afterWork_svnError he).trans hs, hd, ?_⟩
    unfold SettledFor
    cases hm : m.iterates with
    | true =>
      simp only [hm, if_true] at hsettled ⊢
      exact ⟨hsettled.1, _, hsettled.2⟩
    | false =>
      simp only [hm, Bool.false_eq_true, if_false] at hsettled ⊢
      exact ⟨hsettled.1, _, hsettled.2⟩

/-- The after-work step that cannot settle does not return. -/
theorem afterWork_escapes {r : Except Exn m.Value} {it : Iterable JsValue}
    (hcan : ¬ CanSettle env m r it) :
    ∃ f s, (afterWork env m r).run (.start it) = .error f s := by
  cases r with
  | ok value =>
    obtain ⟨f, s, hf, hu⟩ := settle_fails m it (Builds.closureValue env m value) true
      (fun _ => none) true (fun y => .ok y)
      (fun hc => hcan ⟨hc.1, hc.2, fun e he => by cases he⟩)
    exact ⟨f, s, afterWork_fails (onResult_eq m value ▸ hf) hu⟩
  | error e =>
    cases he : e.asSvnError with
    | none =>
      have honResult : (onResult env m (.error e)).run (.start it) =
          .error (.exn e) (.start it) := rfl
      exact ⟨_, _, afterWork_fails honResult he⟩
    | some raw =>
      obtain ⟨f, s, hf, -⟩ := settle_fails m it (Builds.copyErrorJs env raw) false
        (fun e => some (.error e)) false (fun e => .error (.error e))
        (fun hc => hcan ⟨closureCalls_svnError m he ▸ hc.1, hc.2, by
          rintro e' ⟨⟩
          simp [he]⟩)
      exact ⟨f, s, (afterWork_svnError he).trans hf⟩

/-- **The after-work step settles once and returns exactly if it can settle.** -/
theorem settles_once_iff (env : Env) (m : Method) (r : Except Exn m.Value)
    {it : Iterable JsValue} (hwf : it.WF) : SettlesOnce env m r it ↔ CanSettle env m r it := by
  obtain ⟨promise, hwork, hrun⟩ := invokeAfterWork_run env m r (.start it)
  constructor
  · rintro ⟨promise', s', hwork', hrun', -, -⟩
    by_contra hcan
    obtain ⟨f, s, hf⟩ := afterWork_escapes hcan
    obtain rfl : promise = promise' := Except.ok.inj (hwork.symm.trans hwork')
    rw [hrun', hf] at hrun
    cases hrun
  · intro hcan
    obtain ⟨s, hs, hd, hsettled⟩ := afterWork_settles hwf hcan
    rw [hs] at hrun
    exact ⟨promise, _, hwork, hrun, by simp [hd], hsettled⟩

/-- `status` ends well, and JS asks twice within `RunMicrotasks`. -/
theorem settles_once_iff_status :
    SettlesOnce ⟨fun _ => some true, 2⟩ .status (.ok ()) .create :=
  (settles_once_iff _ _ _ Iterable.create_wf).mpr
    ⟨fun _ _ => rfl, fun _ => ⟨rfl, rfl⟩, fun e h => by cases h⟩

/-- `status` whose work raised a `std::runtime_error`: it leaves `invoke_after_work`. -/
theorem not_settles_once_runtime_error :
    ¬ ∀ (env : Env) (m : Method) (r : Except Exn m.Value) (it : Iterable JsValue), it.WF →
      SettlesOnce env m r it := by
  intro h
  obtain ⟨promise, s, hwork, hrun, -, -⟩ :=
    h ⟨fun _ => some true, 0⟩ .status (.error (.runtimeError "")) .create Iterable.create_wf
  obtain rfl := Except.ok.inj hwork
  cases hrun

end NodeSvn
