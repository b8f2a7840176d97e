import NodeSvn.Node.AfterWork

/-!
# What becomes of the errors of libsvn

A `svn_error_t*` that is not NULL belongs to the code that got it, until it gives it to
`svn_error_clear`.  `Ledger` has both sides: what the C++ code received and what it cleared.

    throw_error                    copies the chain, clears the error, throws
    check_result                   throw_error unless NULL
    callback_data::check_result    the same, unless a callback threw; then it rethrows only
    create_repos                   drops the result

So an error is lost if a callback threw in the same call, or in `create_repos`, and nowhere
else (`handled_iff`).
-/

namespace NodeSvn

/-! ## Receiving, clearing, throwing -/

/-- Its texts are UTF-8: libsvn makes its messages so. -/
structure RawErrorLevel where
  aprErr : Int
  /-- what `svn_err_best_message` finds, in a buffer of 100 bytes -/
  bestMessage : String
  file : Option String
  line : Int

/-- The chain of a `svn_error_t`. -/
inductive RawError where
  | last (level : RawErrorLevel)
  | chained (level : RawErrorLevel) (child : RawError)

/-- The line is a `long` in libsvn and an `int32_t` here. -/
def RawErrorLevel.copy (l : RawErrorLevel) : SvnErrorLevel :=
  ⟨l.aprErr, l.bestMessage, l.file.getD "", toInt32 l.line⟩

/-- `copy_error` of `type_conversion.hpp` -/
def RawError.copyError : RawError → SvnError
  | .last level => .last level.copy
  | .chained level child => .chained level.copy child.copyError

/-- A `svn_error_t*` that is not NULL. -/
structure SvnErrorT where
  address : Nat
  chain : RawError

structure Ledger where
  received : List Nat
  /-- the arguments of `svn_error_clear` -/
  cleared : List Nat

abbrev ErrorM := EStateM Exn Ledger

namespace ErrorM

def receive (result : Option SvnErrorT) : ErrorM (Option SvnErrorT) := do
  modify fun l => { l with received := l.received ++ (result.map SvnErrorT.address).toList }
  return result

def svnErrorClear (error : SvnErrorT) : ErrorM Unit :=
  modify fun l => { l with cleared := l.cleared ++ [error.address] }

variable (purgeTracing : RawError → RawError)

/-- What `svn_error_purge_tracing` returns shares the memory of its argument. -/
def throwSvnError (error : SvnErrorT) : ErrorM Unit := do
  let purged := purgeTracing error.chain
  let result := purged.copyError
  svnErrorClear error
  throw (.svnError result)

def checkResult (result : Option SvnErrorT) : ErrorM Unit :=
  match result with
  | some error => throwSvnError purgeTracing error
  | none => pure ()

/-- `check_result(apr_status_t)`; `svn_error_create` puts the error at `address`. -/
def checkStatus (status : Int) (address : Nat) : ErrorM Unit := do
  if status ≠ 0 then
    let error ← receive (some ⟨address, .last ⟨status, "", none, 0⟩⟩)
    checkResult purgeTracing error

/-- `callback_data::check_result` -/
def dataCheckResult (d : CallbackData) (result : Option SvnErrorT) : ErrorM Unit :=
  match d.exception with
  | some e => throw e
  | none => checkResult purgeTracing result

/-- `throw_on_malfunction`, for the error of `svn_error_raise_on_malfunction`. -/
def throwOnMalfunction (error : SvnErrorT) : ErrorM Unit := do
  let _ ← receive (some error)
  throwSvnError purgeTracing error

/-- The exception in it, if any. -/
def outcomeOf : EStateM.Result Exn Ledger Unit → Except Exn Unit
  | .ok _ _ => .ok ()
  | .error e _ => .error e

def ledgerOf : EStateM.Result Exn Ledger Unit → Ledger
  | .ok _ l => l
  | .error _ l => l

end ErrorM

/-! ## The entry points -/

/-- One thing that an entry point does before its last call of libsvn. -/
inductive EarlierCall where
  /-- `apr_pool_create_ex`, in `check_result` -/
  | apr (status : Int) (address : Nat)
  /-- a function of libsvn, in `check_result` -/
  | svn (result : Option SvnErrorT)
  | malfunction (error : SvnErrorT)
  /-- no call of libsvn, such as `check_string` -/
  | other (outcome : Except Exn Unit)

/-- How the last call of libsvn ends. -/
inductive LastCall where
  /-- an exception is on its way through libsvn's frames -/
  | unwound (e : Exn)
  | malfunction (error : SvnErrorT)
  /-- libsvn returned; in `callback_data::invoke`, the callbacks had these outcomes -/
  | returned (outcomes : List (Except Exn Unit)) (result : Option SvnErrorT)

inductive EntryPoint where
  | operation (op : ClientOperation) (earlier : List EarlierCall) (last : LastCall)
  /-- the constructor of `svn::client` -/
  | constructor (calls : List EarlierCall)
  /-- `path` is `convert_string(args[0])`; then `svn_repos_create` is called, which has no
  callback. -/
  | createRepos (path : Except Exn String) (last : LastCall)

section Run

variable (cancelled : SvnError) (purgeTracing : RawError → RawError)

/-- The `callback_data` after these callbacks. -/
def CallbackData.after (outcomes : List (Except Exn Unit)) (d : CallbackData) : CallbackData :=
  outcomes.foldl (fun d outcome => (d.invoke cancelled outcome).2) d

def EarlierCall.run : EarlierCall → ErrorM Unit
  | .apr status address => ErrorM.checkStatus purgeTracing status address
  | .svn result => do
    let result ← ErrorM.receive result
    ErrorM.checkResult purgeTracing result
  | .malfunction error => ErrorM.throwOnMalfunction purgeTracing error
  | .other (.ok _) => pure ()
  | .other (.error e) => throw e

def runEarlier : List EarlierCall → ErrorM Unit
  | [] => pure ()
  | c :: rest => do
    c.run purgeTracing
    runEarlier rest

/-- `data.check_result(...)`, or the plain `check_result(...)`. -/
def ClientOperation.checkRaw (op : ClientOperation) (d : CallbackData)
    (result : Option SvnErrorT) : ErrorM Unit :=
  if op.hasData then ErrorM.dataCheckResult purgeTracing d result
  else ErrorM.checkResult purgeTracing result

/-- The call of libsvn, and the use that is made of its result. -/
def LastCall.run (use : CallbackData → Option SvnErrorT → ErrorM Unit) : LastCall → ErrorM Unit
  | .unwound e => throw e
  | .malfunction error => ErrorM.throwOnMalfunction purgeTracing error
  | .returned outcomes result => do
    let result ← ErrorM.receive result
    use (CallbackData.create.after cancelled outcomes) result

def EntryPoint.code : EntryPoint → ErrorM Unit
  | .operation op earlier last => do
    runEarlier purgeTracing earlier
    last.run cancelled purgeTracing (op.checkRaw purgeTracing)
  | .constructor calls => runEarlier purgeTracing calls
  | .createRepos path last =>
    match path with
    | .error e => throw e
    | .ok _ => last.run cancelled purgeTracing fun _ _ => pure ()

def EntryPoint.run (p : EntryPoint) : EStateM.Result Exn Ledger Unit :=
  (p.code cancelled purgeTracing).run ⟨[], []⟩

end Run

/-! ## Telling JS -/

/-- `invoke_constructor`: the messages of the JS exceptions that it throws. -/
def invokeConstructor : Except Exn Unit → List String
  | .ok _ => []
  | .error _ => ["error invoking constructor"]

/-- The exception of the entry point becomes one JS exception, or settles one promise, as
long as V8 and the iterator can take it. -/
def EntryPoint.Tells : EntryPoint → Exn → Prop
  | .operation op _ _, e => ∀ (env : Env) (it : Iterable JsValue), (∀ i, env.v8 i = some true) →
    it.WF → (Method.iterates op = true → it.Ready) → SettlesOnce env op (.error e) it
  | .constructor _, e => (invokeConstructor (.error e)).length = 1
  -- V8 calls `create_repos` itself, and nothing there catches a C++ exception
  | .createRepos _ _, _ => False

/-- Each error that was received is cleared, as often as it was received, and JS is told. -/
def EntryPoint.Settled (p : EntryPoint) (r : EStateM.Result Exn Ledger Unit) : Prop :=
  (∀ a, (ErrorM.ledgerOf r).cleared.count a = (ErrorM.ledgerOf r).received.count a) ∧
    ((ErrorM.ledgerOf r).received ≠ [] → ∃ e, ErrorM.outcomeOf r = .error e ∧ p.Tells e)

def EntryPoint.Handled (cancelled : SvnError) (purgeTracing : RawError → RawError)
    (p : EntryPoint) : Prop :=
  p.Settled (p.run cancelled purgeTracing)

def EarlierCall.Passes : EarlierCall → Prop
  | .apr status _ => status = 0
  | .svn result => result = none
  | .malfunction _ => False
  | .other outcome => outcome = .ok ()

/-- libsvn returned NULL, or the operation has no `callback_data`, or its callbacks did not
throw; `svn_repos_create` returned NULL. -/
def EntryPoint.KeepsErrors : EntryPoint → Prop
  | .operation op earlier last => (∀ c ∈ earlier, c.Passes) → ∀ outcomes error,
    last = .returned outcomes (some error) → op.hasData = true → ∀ o ∈ outcomes, o = .ok ()
  | .constructor _ => True
  | .createRepos path last => (∃ s, path = .ok s) →
    (∀ error, last ≠ .malfunction error) ∧ ∀ outcomes error, last ≠ .returned outcomes (some error)

/-! ## One check -/

namespace ErrorM

variable {purgeTracing : RawError → RawError} {l : Ledger}

/-- It ended with an exception, and an error that was received for it is cleared. -/
inductive Thrown (l : Ledger) : EStateM.Result Exn Ledger Unit → Prop where
  | plain (e : Exn) : Thrown l (.error e l)
  | cleared (raw : SvnError) (a : Nat) :
    Thrown l (.error (.svnError raw) ⟨l.received ++ [a], l.cleared ++ [a]⟩)

@[simp] theorem receive_run (result : Option SvnErrorT) (l : Ledger) :
    (receive result).run l =
      .ok result ⟨l.received ++ (result.map SvnErrorT.address).toList, l.cleared⟩ := rfl

theorem throwSvnError_run (purgeTracing : RawError → RawError) (error : SvnErrorT) (l : Ledger) :
    (throwSvnError purgeTracing error).run l =
      .error (.svnError (purgeTracing error.chain).copyError)
        { l with cleared := l.cleared ++ [error.address] } := rfl

/-- An error that is received and given to `throw_error`. -/
theorem thrown_throwSvnError (purgeTracing : RawError → RawError) (l : Ledger)
    (error : SvnErrorT) :
    Thrown l ((throwSvnError purgeTracing error).run
      ⟨l.received ++ ((some error).map SvnErrorT.address).toList, l.cleared⟩) :=
  .cleared _ _

theorem checkStatus_run (status : Int) (address : Nat) :
    (status = 0 ∧ (checkStatus purgeTracing status address).run l = .ok () l) ∨
      (status ≠ 0 ∧ Thrown l ((checkStatus purgeTracing status address).run l)) := by
  unfold checkStatus
  by_cases hs : status = 0
  · refine .inl ⟨hs, ?_⟩
    rw [if_neg (not_not_intro hs)]
    rfl
  · refine .inr ⟨hs, ?_⟩
    rw [if_pos hs]
    exact thrown_throwSvnError _ _ ⟨address, .last ⟨status, "", none, 0⟩⟩

/-- Without the ledger it is the `check_result` of the trampolines. -/
theorem outcomeOf_checkRaw (op : ClientOperation) (d : CallbackData)
    (result : Option SvnErrorT) :
    outcomeOf ((op.checkRaw purgeTracing d result).run l) =
      op.checkResult d (result.map fun error => (purgeTracing error.chain).copyError) := by
  unfold ClientOperation.checkRaw ClientOperation.checkResult
  cases op.hasData with
  | true =>
    simp only [if_true, dataCheckResult, CallbackData.checkResult]
    cases d.exception with
    | some e => rfl
    | none => cases result <;> rfl
  | false => cases result <;> rfl

end ErrorM

/-! ## The calls of an entry point -/

section Calls

variable {cancelled : SvnError} {purgeTracing : RawError → RawError} {l : Ledger}

theorem earlierCall_run (purgeTracing : RawError → RawError) (l : Ledger) (c : EarlierCall) :
    (c.Passes ∧ (c.run purgeTracing).run l = .ok () l) ∨
      (¬ c.Passes ∧ ErrorM.Thrown l ((c.run purgeTracing).run l)) := by
  cases c with
  | apr status address => exact ErrorM.checkStatus_run status address
  | svn result =>
    cases result with
    | none =>
      refine .inl ⟨rfl, ?_⟩
      simp [EarlierCall.run, ErrorM.checkResult]
    | some error => exact .inr ⟨by simp [EarlierCall.Passes], ErrorM.thrown_throwSvnError _ _ error⟩
  | malfunction error => exact .inr ⟨id, ErrorM.thrown_throwSvnError _ _ error⟩
  | other outcome =>
    cases outcome with
    | ok _ => exact .inl ⟨rfl, rfl⟩
    | error e => exact .inr ⟨by simp [EarlierCall.Passes], .plain e⟩

/-- They all return, or the first that does not ends the entry point. -/
theorem runEarlier_run (purgeTracing : RawError → RawError) (l : Ledger)
    (calls : List EarlierCall) :
    ((∀ c ∈ calls, c.Passes) ∧ (runEarlier purgeTracing calls).run l = .ok () l) ∨
      ((¬ ∀ c ∈ calls, c.Passes) ∧ ErrorM.Thrown l ((runEarlier purgeTracing calls).run l)) := by
  induction calls with
  | nil => exact .inl ⟨by simp, rfl⟩
  | cons c rest ih =>
    simp only [List.forall_mem_cons, runEarlier]
    rcases earlierCall_run purgeTracing l c with ⟨hc, hrun⟩ | ⟨hc, ht⟩
    · rw [EStateM.run_bind, hrun]
      rcases ih with ⟨hall, hrest⟩ | ⟨hall, hrest⟩
      · exact .inl ⟨⟨hc, hall⟩, hrest⟩
      · exact .inr ⟨fun h => hall h.2, hrest⟩
    · refine .inr ⟨fun h => hc h.1, ?_⟩
      rw [EStateM.run_bind]
      generalize (c.run purgeTracing).run l = r at ht
      cases ht with
      | plain e => exact .plain e
      | cleared raw a => exact .cleared raw a

theorem exception_after (outcomes : List (Except Exn Unit)) (d : CallbackData) :
    (d.after cancelled outcomes).exception = none ↔
      d.exception = none ∧ ∀ o ∈ outcomes, o = .ok () := by
  induction outcomes generalizing d with
  | nil => simp [CallbackData.after]
  | cons o rest ih =>
    have hstep : d.after cancelled (o :: rest) = (d.invoke cancelled o).2.after cancelled rest :=
      rfl
    rw [hstep, ih, List.forall_mem_cons]
    cases o with
    | ok _ => simp [CallbackData.invoke]
    | error e => simp [CallbackData.invoke]

theorem settled_nothing {p : EntryPoint} {r : EStateM.Result Exn Ledger Unit}
    (h : ErrorM.ledgerOf r = ⟨[], []⟩) : p.Settled r := by
  unfold EntryPoint.Settled
  rw [h]
  exact ⟨fun _ => rfl, fun hne => absurd rfl hne⟩

theorem settled_thrown {p : EntryPoint} {r : EStateM.Result Exn Ledger Unit}
    (h : ErrorM.Thrown ⟨[], []⟩ r) (ht : ∀ raw, p.Tells (.svnError raw)) : p.Settled r := by
  cases h with
  | plain e => exact settled_nothing rfl
  | cleared raw a => exact ⟨fun _ => rfl, fun _ => ⟨_, rfl, ht raw⟩⟩

/-- An error that was received and not cleared. -/
theorem not_settled {p : EntryPoint} {r : EStateM.Result Exn Ledger Unit} {a : Nat}
    (h : ErrorM.ledgerOf r = ⟨[a], []⟩) : ¬ p.Settled r := by
  intro hs
  have hcount := hs.1 a
  rw [h] at hcount
  simp at hcount

/-- An `svn_error` settles the promise, or ends the iterator. -/
theorem operation_tells (op : ClientOperation) (earlier : List EarlierCall) (last : LastCall)
    (raw : SvnError) : (EntryPoint.operation op earlier last).Tells (.svnError raw) := by
  intro env it hv hwf hready
  refine (settles_once_iff env op _ hwf).mpr ⟨fun k _ => hv _, hready, ?_⟩
  rintro e ⟨⟩
  rfl

/-- The last call of an operation whose earlier calls all returned. -/
theorem operation_last (op : ClientOperation) (earlier : List EarlierCall) (last : LastCall) :
    (EntryPoint.operation op earlier last).Settled
        ((last.run cancelled purgeTracing (op.checkRaw purgeTracing)).run ⟨[], []⟩) ↔
      ∀ outcomes error, last = .returned outcomes (some error) → op.hasData = true →
        ∀ o ∈ outcomes, o = .ok () := by
  have htells := operation_tells op earlier last
  cases last with
  | unwound e => exact ⟨fun _ _ _ h => (by cases h), fun _ => settled_nothing rfl⟩
  | malfunction error =>
    exact ⟨fun _ _ _ h => (by cases h),
      fun _ => settled_thrown (ErrorM.thrown_throwSvnError _ ⟨[], []⟩ error) htells⟩
  | returned outcomes result =>
    simp only [LastCall.run, EStateM.run_bind, ErrorM.receive_run]
    unfold ClientOperation.checkRaw
    generalize hd : CallbackData.create.after cancelled outcomes = d
    have hnone : d.exception = none ↔ ∀ o ∈ outcomes, o = .ok () := by
      rw [← hd, exception_after]
      simp [CallbackData.create]
    cases result with
    | none =>
      refine ⟨fun _ _ _ h => (by cases h), fun _ => settled_nothing ?_⟩
      cases op.hasData with
      | true =>
        simp only [if_true, ErrorM.dataCheckResult]
        cases d.exception <;> rfl
      | false => rfl
    | some error =>
      have hthrown := ErrorM.thrown_throwSvnError purgeTracing ⟨[], []⟩ error
      cases hop : op.hasData with
      | false =>
        refine ⟨fun _ _ _ _ h => (by cases h), fun _ => ?_⟩
        exact settled_thrown hthrown htells
      | true =>
        simp only [if_true, ErrorM.dataCheckResult]
        cases he : d.exception with
        | none =>
          refine ⟨fun _ outcomes' _ h _ => ?_, fun _ => settled_thrown hthrown htells⟩
          cases h
          exact hnone.mp he
        | some e =>
          refine ⟨fun hs => absurd hs (not_settled rfl), fun h => ?_⟩
          have hall := hnone.mpr (h outcomes error rfl trivial)
          rw [he] at hall
          cases hall

theorem createRepos_last (cancelled : SvnError) (path : Except Exn String) (last : LastCall) :
    (EntryPoint.createRepos path last).Settled
        ((last.run cancelled purgeTracing fun _ _ => pure ()).run ⟨[], []⟩) ↔
      (∀ error, last ≠ .malfunction error) ∧
        ∀ outcomes error, last ≠ .returned outcomes (some error) := by
  cases last with
  | unwound e => exact ⟨fun _ => ⟨by simp, by simp⟩, fun _ => settled_nothing rfl⟩
  | malfunction error =>
    refine ⟨fun hs => ?_, fun h => absurd rfl (h.1 error)⟩
    obtain ⟨e, -, ht⟩ := hs.2 (by simp [LastCall.run, ErrorM.throwOnMalfunction,
      ErrorM.throwSvnError_run, ErrorM.ledgerOf])
    exact ht.elim
  | returned outcomes result =>
    cases result with
    | none => exact ⟨fun _ => ⟨by simp, by simp⟩, fun _ => settled_nothing rfl⟩
    | some error =>
      exact ⟨fun hs => absurd hs (not_settled rfl), fun h => absurd rfl (h.2 outcomes error)⟩

end Calls

/-! ## The entry points as a whole -/

/-- **An entry point clears each error once and tells JS of it once exactly if no callback threw
in a call that returned an error, and `create_repos` gets no error.** -/
theorem handled_iff (cancelled : SvnError) (purgeTracing : RawError → RawError) (p : EntryPoint) :
    p.Handled cancelled purgeTracing ↔ p.KeepsErrors := by
  unfold EntryPoint.Handled EntryPoint.run EntryPoint.KeepsErrors
  cases p with
  | operation op earlier last =>
    simp only [EntryPoint.code, EStateM.run_bind]
    rcases runEarlier_run purgeTracing ⟨[], []⟩ earlier with
      ⟨hall, hrun⟩ | ⟨hall, hthrown⟩
    · rw [hrun]
      simp only [forall_prop_of_true hall]
      exact operation_last op earlier last
    · refine ⟨fun _ h => absurd h hall, fun _ => ?_⟩
      have ht := operation_tells op earlier last
      generalize (runEarlier purgeTracing earlier).run ⟨[], []⟩ = r at hthrown
      cases hthrown with
      | plain e => exact settled_thrown (.plain e) ht
      | cleared raw a => exact settled_thrown (.cleared raw a) ht
  | constructor calls =>
    refine ⟨fun _ => trivial, fun _ => ?_⟩
    rcases runEarlier_run purgeTracing ⟨[], []⟩ calls with
      ⟨-, hrun⟩ | ⟨-, hthrown⟩
    · exact settled_nothing (congrArg ErrorM.ledgerOf hrun)
    · exact settled_thrown hthrown fun _ => rfl
  | createRepos path last =>
    cases path with
    | error e =>
      refine ⟨fun _ ⟨_, h⟩ => (by cases h), fun _ => settled_nothing rfl⟩
    | ok s =>
      simp only [forall_prop_of_true (⟨s, rfl⟩ : ∃ t, (.ok s : Except Exn String) = .ok t)]
      exact createRepos_last cancelled (.ok s) last

/-- `status` whose callback threw: the error that `invoke` made comes back and is not cleared.
`create_repos` with any error. -/
theorem not_handled_status :
    (¬ ∀ (cancelled : SvnError) (purgeTracing : RawError → RawError) (op : ClientOperation)
        (earlier : List EarlierCall) (last : LastCall),
      (EntryPoint.operation op earlier last).Handled cancelled purgeTracing) ∧
    ¬ ∀ (cancelled : SvnError) (purgeTracing : RawError → RawError) (path : Except Exn String)
        (last : LastCall), (EntryPoint.createRepos path last).Handled cancelled purgeTracing := by
  constructor
  · intro h
    have hs := (h (.last ⟨200015, "", "", -1⟩) id .status []
      (.returned [.error (.runtimeError "")] (some ⟨1, .last ⟨200015, "", none, 0⟩⟩))).1 1
    exact absurd hs (by decide)
  · intro h
    have hs := (h (.last ⟨200015, "", "", -1⟩) id (.ok "/repos")
      (.returned [] (some ⟨1, .last ⟨165005, "", none, 0⟩⟩))).1 1
    exact absurd hs (by decide)

end NodeSvn
