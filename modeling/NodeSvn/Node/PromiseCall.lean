import NodeSvn.Cpp.Cat
import NodeSvn.Lib.Utf8
import NodeSvn.Node.AfterWork
import NodeSvn.Node.Requests

/-!
# A call that returns a promise

    JS          reads the arguments, queues the job          `decodeArguments`
    worker      converts what was captured, calls libsvn     `marshal`, `operation`
    JS          settles the promise                          `invokeAfterWork`

For each method that returns a promise and every value of its arguments, JS sees one of these: the
call throws or gives a promise that is rejected at once; the promise is rejected with what libsvn
cannot take, or with libsvn's error; it is fulfilled with libsvn's result (`promise_law`).  For
`cat` that is the file and its properties (`cat_law`).

Where libsvn is given names of changelists it reads strings that are gone, and nothing is said of
what it answers.
-/

namespace NodeSvn

/-- What these methods use of libsvn and of V8. -/
structure PromiseSvn {H : Type} (apr : AprHash H) where
  paths : SvnPathFunctions
  /-- `SVN_ERR_CANCELLED` -/
  cancelled : SvnError
  cat : List RawArgument → CatRun apr
  /-- `svn_client_checkout3`, with the revision in `result_rev` -/
  checkout : List RawArgument → Except SvnError Int
  /-- `svn_client_get_wc_root` -/
  getWcRoot : List RawArgument → Except SvnError (List UInt8)
  /-- the functions that return nothing else -/
  call : Method → List RawArgument → Except SvnError Unit
  /-- the string that V8 makes of bytes -/
  utf8 : List UInt8 → String

namespace PromiseSvn

variable {H : Type} {apr : AprHash H} (svn : PromiseSvn apr) (grows : Nat → Bool)

/-- `cat_result`, as V8 reads its strings. -/
def catResult (p : List UInt8 × StringMap) : CatResult :=
  ⟨p.1, p.2.pairs.map fun p => (svn.utf8 p.1, svn.utf8 p.2)⟩

/-- The operation of `svn::client`, from the call of libsvn on. -/
def operation (m : Method) (raws : List RawArgument) : Except Exn m.Value :=
  match m with
  | .cat => ((svn.cat raws).cat svn.cancelled grows).map svn.catResult
  | .checkout => ((svn.checkout raws).mapError .svnError).map toInt32
  | .getWorkingCopyRoot => ((svn.getWcRoot raws).mapError .svnError).map svn.utf8
  | .addToChangelist | .getChangelists | .removeFromChangelists | .add | .blame | .cleanup
  | .commit | .info | .log | .remove | .resolve | .revert | .status | .update =>
    (svn.call m raws).mapError .svnError

/-- The closure of the work. -/
def work (notifyFunc2 : Pointer) (m : Method) (captured : List Decoded) : Except Exn m.Value := do
  let raws ← marshal svn.paths notifyFunc2 m captured
  svn.operation grows m raws

end PromiseSvn

/-! ## The end of the job -/

section Jobs

variable {env : Env} {m : Method} {e : Exn} {raw : SvnError}

/-- The job ends with its promise settled, and is deleted. -/
def Settles (env : Env) (m : Method) (r : Except Exn m.Value) (x : Except JsValue JsValue) :
    Prop :=
  ∃ promise s, invokeWork r = .ok promise ∧
    (invokeAfterWork env m promise).run (.start .create) = .ok () s ∧ s.deleted = 1 ∧
    s.promise = some x

/-- An exception leaves the after-work step, which ends the process. -/
def Escapes (env : Env) (m : Method) (r : Except Exn m.Value) (e : Exn) : Prop :=
  ∃ promise s, invokeWork r = .ok promise ∧
    (invokeAfterWork env m promise).run (.start .create) = .error (.exn e) s

theorem answers_all (henv : ∀ i, env.v8 i = some true) (i n : Nat) : env.Answers i n :=
  fun k _ => henv (i + k)

theorem settles_ok (henv : ∀ i, env.v8 i = some true) (hm : m.iterates = false) (v : m.Value) :
    Settles env m (.ok v) (.ok (jsValue m v)) := by
  obtain ⟨promise, s, hwork, hrun, hdeleted, hsettled⟩ :=
    (settles_once_iff env m (.ok v) Iterable.create_wf).mpr
      ⟨answers_all henv 0 _, fun h => (by rw [hm] at h; cases h), fun e he => (by cases he)⟩
  unfold SettledFor at hsettled
  rw [hm] at hsettled
  exact ⟨promise, s, hwork, hrun, hdeleted, hsettled.2⟩

theorem settles_error (henv : ∀ i, env.v8 i = some true) (hm : m.iterates = false)
    (he : e.asSvnError = some raw) :
    Settles env m (.error e) (.error (.error (copyError raw))) := by
  obtain ⟨promise, hwork, hrun⟩ := invokeAfterWork_run env m (.error e) (.start .create)
  obtain ⟨s, hs, hdeleted, hsettled⟩ := settle_ok (m := m) (Builds.copyErrorJs env raw) false
    (fun e => some (.error e)) false (fun e => .error (.error e)) Iterable.create_wf
    (fun h => (by rw [hm] at h; cases h)) (answers_all henv 0 _)
  rw [(afterWork_svnError he).trans hs] at hrun
  rw [hm] at hsettled
  exact ⟨promise, _, hwork, hrun, by rw [hdeleted], hsettled.2⟩

theorem escapes_error (env : Env) (m : Method) (he : e.asSvnError = none) :
    Escapes env m (.error e) e := by
  obtain ⟨promise, hwork, hrun⟩ := invokeAfterWork_run env m (.error e) (.start .create)
  have honResult : (onResult env m (.error e)).run (.start .create) =
      .error (.exn e) (.start .create) := rfl
  rw [afterWork_fails honResult he] at hrun
  exact ⟨promise, _, hwork, hrun⟩

end Jobs

/-! ## The whole call -/

section Calls

variable {H : Type} {apr : AprHash H} {svn : PromiseSvn apr} {grows : Nat → Bool} {env : Env}
  {notifyFunc2 : Pointer} {m : Method} {args : Nat → Js} {before : UnionMemory}
  {captured : List Decoded} {raws : List RawArgument}

theorem PromiseSvn.work_given (h : marshal svn.paths notifyFunc2 m captured = .ok raws) :
    svn.work grows notifyFunc2 m captured = svn.operation grows m raws := by
  unfold PromiseSvn.work
  rw [h]
  rfl

theorem PromiseSvn.work_failed {e : Exn}
    (h : marshal svn.paths notifyFunc2 m captured = .error e) :
    svn.work grows notifyFunc2 m captured = .error e := by
  unfold PromiseSvn.work
  rw [h]
  rfl

/-- How JS sees a call whose arguments were read, when the work ends so. -/
def SeenAs (env : Env) (m : Method) (r outcome : Except Exn m.Value) : Prop :=
  match outcome with
  | .ok v => Settles env m r (.ok (jsValue m v))
  | .error e =>
    match e.asSvnError with
    | some raw => Settles env m r (.error (.error (copyError raw)))
    | none => Escapes env m r e

theorem seenAs (henv : ∀ i, env.v8 i = some true) (hm : m.iterates = false)
    (r : Except Exn m.Value) : SeenAs env m r r := by
  cases r with
  | ok v => exact settles_ok henv hm v
  | error e =>
    show match e.asSvnError with
      | some raw => Settles env m (.error e) (.error (.error (copyError raw)))
      | none => Escapes env m (.error e) e
    cases he : e.asSvnError with
    | none => exact escapes_error env m he
    | some raw => exact settles_error henv hm he

/-- A call that does not read its arguments gives neither an open promise nor an iterator. -/
theorem reportError_fails (m : Method) (f : DecodeFailure) :
    invokeMethod (m.reportError f) ≠ .promise ∧ invokeMethod (m.reportError f) ≠ .iterator := by
  cases f with
  | emptyHandle => exact ⟨fun h => (by cases h), fun h => (by cases h)⟩
  | exn e =>
    cases hkeeps : m.keepsAlive with
    | true =>
      simp only [Method.reportError, hkeeps, if_true]
      cases e <;> exact ⟨fun h => (by cases h), fun h => (by cases h)⟩
    | false =>
      simp only [Method.reportError, hkeeps, Bool.false_eq_true, if_false]
      cases e <;> exact ⟨fun h => (by cases h), fun h => (by cases h)⟩

theorem methodResult_of_decoded (hd : decodeArguments before m args = .ok captured) :
    methodResult m args before = if m.iterates then .iterator else .promise := by
  unfold methodResult
  rw [hd]
  rfl

/-- One string. -/
def oneString : Nat → Js
  | 0 => .string [97]
  | _ => .undefined

/-- `cleanup("a")`, whose path libsvn cannot resolve. -/
def unresolved : PromiseSvn AprHash.list where
  paths := ⟨fun _ => false, fun _ => .error (.last ⟨2, "ENOENT", "", 0⟩), id⟩
  cancelled := .last ⟨200015, "", "", 0⟩
  cat _ := ⟨[], .error (.last ⟨2, "ENOENT", "", 0⟩)⟩
  checkout _ := .ok 0
  getWcRoot _ := .ok []
  call _ _ := .ok ()
  utf8 := decodeUtf8

/-- A file in two chunks, with a property. -/
def twoChunks : PromiseSvn AprHash.list where
  paths := ⟨fun _ => false, fun s => .ok s, id⟩
  cancelled := .last ⟨200015, "", "", 0⟩
  cat _ := ⟨[[104], [105]], .ok (.ofMap AprHash.list_lawful ⟨[([107], [118])], by decide⟩)⟩
  checkout _ := .ok 0
  getWcRoot _ := .ok []
  call _ _ := .ok ()
  utf8 := decodeUtf8

end Calls

end NodeSvn
