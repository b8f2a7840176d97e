import NodeSvn.Cpp.Records

/-!
# The callbacks that libsvn calls

An operation of `svn::client` installs function pointers; libsvn calls them with a baton.
What leaves such a trampoline as an exception unwinds through libsvn.  There are three
styles:

    callback_data   the callback runs in `invoke`, which keeps the exception
    notify_scope    nothing is caught
    bare            nothing is caught (`cancel_func`, the simple prompt)

and `invoke_commit`, `invoke_info` and `invoke_status` convert the record before
`invoke`.  So an operation contains its exceptions exactly if no callback of the last two
styles throws and no record fails to convert (`contained_iff`).
-/

namespace NodeSvn

/-- The operations of `svn::client`. -/
inductive ClientOperation where
  | addToChangelist
  | getChangelists
  | removeFromChangelists
  | add
  | blame
  | cat
  | checkout
  | cleanup
  | commit
  | info
  | log
  | remove
  | resolve
  | revert
  | status
  | update
  | getWorkingCopyRoot
  deriving DecidableEq, Repr

abbrev SimpleAuthProvider :=
  List UInt8 → Option (List UInt8) → Bool → Except Exn (Option SimpleAuth)

/-- One call that libsvn makes, with the callback behind it. -/
inductive Invocation where
  | notify (raw : RawNotify) (callback : NotifyInfo → Except Exn Unit)
  | commit (raw : Option RawCommitInfo) (callback : CommitInfo → Except Exn Unit)
  | status (path : CStr) (raw : Option RawStatus) (callback : CStr → Status → Except Exn Unit)
  | info (path : CStr) (raw : Option RawInfo) (callback : CStr → Info → Except Exn Unit)
  | log (raw : RawLogEntry) (callback : LogEntry → Except Exn Unit)
  | blame (raw : RawBlame) (callback : BlameLine → Except Exn Unit)
  | cat (data : List UInt8) (callback : List UInt8 → Except Exn Unit)
  | getChangelists (path changelist : CStr) (callback : CStr → List UInt8 → Except Exn Unit)
  | cancel (abortFunction : Option (Unit → Except Exn Bool))
  | simplePrompt (realm username : CStr) (maySave : Bool)
      (providers : List SimpleAuthProvider)

/-- `callback_data`, without the reference to the callback. -/
structure CallbackData where
  exception : Option Exn

namespace CallbackData

def create : CallbackData := ⟨none⟩

variable (cancelled : SvnError)

/-- `invoke`, for what the callback does; `cancelled` is `SVN_ERR_CANCELLED`. -/
def invoke (outcome : Except Exn Unit) (d : CallbackData) : Option SvnError × CallbackData :=
  match outcome with
  | .ok () => (none, d)
  | .error e => (some cancelled, ⟨some e⟩)

def checkResult (d : CallbackData) (result : Option SvnError) : Except Exn Unit :=
  match d.exception with
  | some e => .error e
  | none =>
    match result with
    | some error => .error (.svnError error)
    | none => .ok ()

end CallbackData

/-! ## The trampolines -/

/-- `notify_scope::_invoke` -/
def notifyInvoke (raw : RawNotify) (callback : NotifyInfo → Except Exn Unit) : Except Exn Unit :=
  callback ⟨raw.action, raw.path, convertToRevisionNumber raw.revision⟩

/-- `client::invoke_simple_auth_providers` -/
def invokeSimpleAuthProviders (realm : List UInt8) (username : Option (List UInt8))
    (maySave : Bool) :
    List SimpleAuthProvider → Except Exn (Option SimpleAuth)
  | [] => .ok none
  | provider :: rest => do
    match ← provider realm username maySave with
    | some auth => return some auth
    | none => invokeSimpleAuthProviders realm username maySave rest

/-- `invoke_get_simple_prompt_provider`: the credential it hands to libsvn. -/
def invokeGetSimplePromptProvider (rawRealm rawUsername : CStr) (maySave : Bool)
    (providers : List SimpleAuthProvider) : Except Exn (Option SimpleAuth) := do
  let realm ← stdString rawRealm
  let username ← stdString rawUsername
  invokeSimpleAuthProviders realm (some username) maySave providers

/-- `client::invoke_abort_function` -/
def invokeAbortFunction (abortFunction : Option (Unit → Except Exn Bool)) : Except Exn Bool :=
  match abortFunction with
  | some f => f ()
  | none => .ok false

def LogEntry.ofRaw (raw : RawLogEntry) : LogEntry :=
  ⟨toInt32 raw.revision, raw.author, raw.date, raw.message, raw.hasChildren, raw.nonInheritable,
    raw.subtractiveMerge⟩

def BlameLine.ofRaw (raw : RawBlame) : BlameLine :=
  ⟨toInt32 raw.startRevnum, toInt32 raw.endRevnum, raw.lineNo,
    convertToRevisionNumber raw.revision, convertToRevisionNumber raw.mergedRevision,
    raw.mergedPath, raw.line, raw.localChange⟩

namespace Invocation

variable (cancelled : SvnError)

/-- The record is converted in the arguments of `callback->invoke`, outside of its `try`. -/
def converted {R : Type} (raw : Except Exn R) (callback : R → Except Exn Unit) (d : CallbackData) :
    Except Exn (Option SvnError × CallbackData) :=
  raw.map fun r => d.invoke cancelled (callback r)

/-- The trampoline: an exception that leaves it, or the error that it returns. -/
def call (i : Invocation) (d : CallbackData) : Except Exn (Option SvnError × CallbackData) :=
  match i with
  | .notify raw callback => (notifyInvoke raw callback).map fun _ => (none, d)
  | .commit raw callback => converted cancelled (convertToCommitInfo raw) callback d
  | .status path raw callback => converted cancelled (convertToStatus raw) (callback path) d
  | .info path raw callback => converted cancelled (convertToInfo raw) (callback path) d
  | .log raw callback => .ok (d.invoke cancelled (callback (.ofRaw raw)))
  | .blame raw callback => .ok (d.invoke cancelled (callback (.ofRaw raw)))
  | .cat data callback => .ok (d.invoke cancelled (callback data))
  | .getChangelists path changelist callback =>
    match changelist with
    | none => .ok (none, d)
    | some changelist => .ok (d.invoke cancelled (callback path changelist))
  | .cancel abortFunction =>
    (invokeAbortFunction abortFunction).map fun b => (if b then some cancelled else none, d)
  | .simplePrompt realm username maySave providers =>
    (invokeGetSimplePromptProvider realm username maySave providers).map fun _ => (none, d)

end Invocation

/-! ## The operations -/

/-- Which function pointers libsvn has in a call of the operation. -/
def ClientOperation.installs (op : ClientOperation) : Invocation → Bool
  | .cancel _ => true
  | .simplePrompt .. => true
  | .notify .. => op = .commit ∨ op = .update
  | .commit .. => op = .commit ∨ op = .remove
  | .status .. => op = .status
  | .info .. => op = .info
  | .log .. => op = .log
  | .blame .. => op = .blame
  | .cat .. => op = .cat
  | .getChangelists .. => op = .getChangelists

/-- The operation has a `callback_data`. -/
def ClientOperation.hasData : ClientOperation → Bool
  | .getChangelists => true
  | .blame => true
  | .cat => true
  | .commit => true
  | .info => true
  | .log => true
  | .remove => true
  | .status => true
  | _ => false

/-- `data.check_result(...)`, or the plain `check_result(...)`. -/
def ClientOperation.checkResult (op : ClientOperation) (d : CallbackData)
    (result : Option SvnError) : Except Exn Unit :=
  if op.hasData then d.checkResult result else CallbackData.create.checkResult result

/-- How the call of libsvn ends. -/
inductive LibsvnEnd where
  /-- an exception is on its way through libsvn's frames -/
  | unwound (e : Exn)
  | returned (result : Option SvnError) (data : CallbackData)

variable (cancelled : SvnError)

/-- libsvn makes the calls; it stops and returns the error once one returns an error, and
else returns `result`. -/
def libsvn (result : Option SvnError) : List Invocation → CallbackData → LibsvnEnd
  | [], d => .returned result d
  | i :: rest, d =>
    match i.call cancelled d with
    | .error e => .unwound e
    | .ok (some error, d) => .returned (some error) d
    | .ok (none, d) => libsvn result rest d

/-- The operation; `none` is an exception that unwound through libsvn. -/
def ClientOperation.run (op : ClientOperation) (invocations : List Invocation)
    (result : Option SvnError) : Option (Except Exn Unit) :=
  match libsvn cancelled result invocations .create with
  | .unwound _ => none
  | .returned result d => some (op.checkResult d result)

/-! ## What an operation is to do with exceptions -/

namespace Invocation

/-- What a computation throws. -/
def errorOf {R : Type} : Except Exn R → Option Exn
  | .ok _ => none
  | .error e => some e

/-- The exception of the callback, where it gets to run. -/
def thrown : Invocation → Option Exn
  | .notify raw callback => errorOf (notifyInvoke raw callback)
  | .commit raw callback => (convertToCommitInfo raw).toOption.bind fun r => errorOf (callback r)
  | .status path raw callback =>
    (convertToStatus raw).toOption.bind fun r => errorOf (callback path r)
  | .info path raw callback => (convertToInfo raw).toOption.bind fun r => errorOf (callback path r)
  | .log raw callback => errorOf (callback (.ofRaw raw))
  | .blame raw callback => errorOf (callback (.ofRaw raw))
  | .cat data callback => errorOf (callback data)
  | .getChangelists path changelist callback => changelist.bind fun c => errorOf (callback path c)
  | .cancel abortFunction => errorOf (invokeAbortFunction abortFunction)
  | .simplePrompt realm username maySave providers =>
    realm.bind fun realm => username.bind fun username =>
      errorOf (invokeSimpleAuthProviders realm (some username) maySave providers)

/-- The callback runs in `callback_data::invoke`. -/
def protects : Invocation → Bool
  | .notify .. => false
  | .cancel _ => false
  | .simplePrompt .. => false
  | _ => true

/-- The record that is converted outside of any `try` is fit for it. -/
def converts : Invocation → Bool
  | .commit raw _ => raw.any fun r => r.date.isSome && r.author.isSome
  | .status _ raw _ => raw.isSome
  | .info _ raw _ => raw.isSome
  | .simplePrompt realm username _ _ => realm.isSome && username.isSome
  | _ => true

/-- The abort function asks libsvn to stop. -/
def aborts : Invocation → Bool
  | .cancel abortFunction => (invokeAbortFunction abortFunction).toOption = some true
  | _ => false

/-- libsvn is told to stop. -/
def stops (i : Invocation) : Bool := i.protects && i.thrown.isSome || i.aborts

/-- The record is fit, and a callback that throws runs in `callback_data::invoke`. -/
def safe (i : Invocation) : Bool := i.converts && (i.protects || i.thrown.isNone)

/-- The calls that libsvn makes. -/
def made : List Invocation → List Invocation
  | [] => []
  | i :: rest => if i.stops then [i] else i :: made rest

end Invocation

/-- No exception unwinds through libsvn, and the operation throws the first that a callback
threw. -/
def Contained (op : ClientOperation) (invocations : List Invocation) (result : Option SvnError) :
    Prop :=
  ∃ r, op.run cancelled invocations result = some r ∧
    ∀ e, (Invocation.made invocations).findSome? Invocation.thrown = some e → r = .error e

/-! ## One trampoline -/

namespace Invocation

variable {cancelled : SvnError} {i : Invocation} {d : CallbackData} {R : Type}

theorem converted_error {raw : Except Exn R} {callback : R → Except Exn Unit}
    (h : ¬ ∃ r, raw = .ok r) : ∃ e, converted cancelled raw callback d = .error e := by
  cases raw with
  | error e => exact ⟨e, rfl⟩
  | ok r => exact absurd ⟨r, rfl⟩ h

theorem invoke_eq (outcome : Except Exn Unit) :
    d.invoke cancelled outcome =
      match errorOf outcome with
      | none => (none, d)
      | some e => (some cancelled, ⟨some e⟩) := by
  cases outcome <;> rfl

theorem converted_eq {raw : Except Exn R} (h : ∃ r, raw = .ok r)
    (callback : R → Except Exn Unit) :
    converted cancelled raw callback d =
      .ok (match raw.toOption.bind fun r => errorOf (callback r) with
        | none => (none, d)
        | some e => (some cancelled, ⟨some e⟩)) := by
  obtain ⟨r, rfl⟩ := h
  exact congrArg Except.ok (invoke_eq (callback r))

/-- In `callback_data::invoke` the exception is kept and libsvn is told to stop. -/
theorem call_protected (cancelled : SvnError) (d : CallbackData) (hp : i.protects = true)
    (hc : i.converts = true) :
    i.call cancelled d = .ok (match i.thrown with
      | none => (none, d)
      | some e => (some cancelled, ⟨some e⟩)) := by
  cases i with
  | notify raw callback => cases hp
  | cancel abortFunction => cases hp
  | simplePrompt realm username maySave providers => cases hp
  | commit raw callback =>
    refine converted_eq ((convertToCommitInfo_ok_iff raw).mpr ?_) callback
    cases raw with
    | none => cases hc
    | some r => simpa [converts] using hc
  | status path raw callback =>
    exact converted_eq ((convertToStatus_ok_iff raw).mpr hc) (callback path)
  | info path raw callback =>
    exact converted_eq ((convertToInfo_ok_iff raw).mpr hc) (callback path)
  | log raw callback => exact congrArg Except.ok (invoke_eq _)
  | blame raw callback => exact congrArg Except.ok (invoke_eq _)
  | cat data callback => exact congrArg Except.ok (invoke_eq _)
  | getChangelists path changelist callback =>
    cases changelist with
    | none => rfl
    | some c => exact congrArg Except.ok (invoke_eq _)

theorem map_of_errorOf_none {β : Type} {x : Except Exn R} (h : errorOf x = none) (f : R → β) :
    ∃ r, x = .ok r ∧ x.map f = .ok (f r) := by
  cases x with
  | ok r => exact ⟨r, rfl, rfl⟩
  | error e => cases h

theorem map_of_errorOf_some {β : Type} {x : Except Exn R} {e : Exn} (h : errorOf x = some e)
    (f : R → β) : x.map f = .error e := by
  cases x with
  | ok r => cases h
  | error e' =>
    obtain rfl : e' = e := Option.some.inj h
    rfl

theorem call_bare (cancelled : SvnError) (d : CallbackData) (hp : i.protects = false)
    (hc : i.converts = true) (ht : i.thrown = none) :
    i.call cancelled d = .ok (if i.aborts then some cancelled else none, d) := by
  cases i with
  | notify raw callback =>
    obtain ⟨r, -, hr⟩ := map_of_errorOf_none ht fun _ => ((none : Option SvnError), d)
    exact hr
  | cancel abortFunction =>
    obtain ⟨b, hb, hr⟩ := map_of_errorOf_none ht
      fun b => ((if b then some cancelled else none : Option SvnError), d)
    rw [call, hr]
    cases b <;> simp [aborts, hb, Except.toOption]
  | simplePrompt realm username maySave providers =>
    match realm, username with
    | some realm, some username =>
      obtain ⟨r, -, hr⟩ := map_of_errorOf_none ht fun _ => ((none : Option SvnError), d)
      exact hr
    | none, _ => cases hc
    | some _, none => cases hc
  | _ => cases hp

/-- A bare trampoline lets the exception of its callback through. -/
theorem call_bare_throws {e : Exn} (hp : i.protects = false) (ht : i.thrown = some e) :
    i.call cancelled d = .error e := by
  cases i with
  | notify raw callback => exact map_of_errorOf_some ht _
  | cancel abortFunction => exact map_of_errorOf_some ht _
  | simplePrompt realm username maySave providers =>
    match realm, username with
    | some realm, some username => exact map_of_errorOf_some ht _
    | none, _ => cases ht
    | some _, none => cases ht
  | _ => cases hp

/-- A record that is not fit makes the trampoline throw before `invoke`. -/
theorem call_not_converts (hc : i.converts = false) : ∃ e, i.call cancelled d = .error e := by
  cases i with
  | commit raw callback =>
    refine converted_error fun hr => ?_
    obtain ⟨r, rfl, hd, ha⟩ := (convertToCommitInfo_ok_iff raw).mp hr
    simp [converts, hd, ha] at hc
  | status path raw callback =>
    refine converted_error fun hr => ?_
    rw [convertToStatus_ok_iff] at hr
    exact absurd (hr.symm.trans hc) (by simp)
  | info path raw callback =>
    refine converted_error fun hr => ?_
    rw [convertToInfo_ok_iff] at hr
    exact absurd (hr.symm.trans hc) (by simp)
  | simplePrompt realm username maySave providers =>
    match realm, username with
    | some realm, some username => cases hc
    | none, _ => exact ⟨_, rfl⟩
    | some _, none => exact ⟨_, rfl⟩
  | _ => cases hc

theorem call_unsafe (cancelled : SvnError) (d : CallbackData) (h : i.safe = false) :
    ∃ e, i.call cancelled d = .error e := by
  cases hc : i.converts with
  | false => exact call_not_converts hc
  | true =>
    simp only [safe, hc, Bool.true_and, Bool.or_eq_false_iff] at h
    obtain ⟨e, he⟩ := Option.isSome_iff_exists.mp (Option.isNone_eq_false_iff.mp h.2)
    exact ⟨e, call_bare_throws h.1 he⟩

theorem not_aborts_of_protects (hp : i.protects = true) : i.aborts = false := by
  cases i with
  | cancel abortFunction => cases hp
  | _ => rfl

/-- A safe trampoline returns: no error while libsvn may go on, and else the error with the
exception kept. -/
theorem call_safe (cancelled : SvnError) (d : CallbackData) (h : i.safe = true) :
    (i.stops = false ∧ i.thrown = none ∧ i.call cancelled d = .ok (none, d)) ∨
      (i.stops = true ∧ i.thrown = none ∧ i.call cancelled d = .ok (some cancelled, d)) ∨
      (i.stops = true ∧ i.protects = true ∧ ∃ e, i.thrown = some e ∧
        i.call cancelled d = .ok (some cancelled, ⟨some e⟩)) := by
  simp only [safe, Bool.and_eq_true, Bool.or_eq_true, Option.isNone_iff_eq_none] at h
  obtain ⟨hc, hsafe⟩ := h
  cases hp : i.protects with
  | true =>
    have hcall := call_protected cancelled d hp hc
    cases ht : i.thrown with
    | none => exact .inl ⟨by simp [stops, ht, not_aborts_of_protects hp], rfl, by rw [hcall, ht]⟩
    | some e => exact .inr (.inr ⟨by simp [stops, hp, ht], rfl, e, rfl, by rw [hcall, ht]⟩)
  | false =>
    have ht : i.thrown = none := hsafe.resolve_left (by simp [hp])
    have hcall := call_bare cancelled d hp hc ht
    cases ha : i.aborts with
    | false => exact .inl ⟨by simp [stops, hp, ha], ht, by rw [hcall, ha]; rfl⟩
    | true => exact .inr (.inl ⟨by simp [stops, ha], ht, by rw [hcall, ha]; rfl⟩)

end Invocation

/-! ## A whole operation -/

section Operation

variable {cancelled : SvnError} {invocations : List Invocation} {result : Option SvnError}
  {op : ClientOperation}

theorem installs_hasData {i : Invocation} (h : op.installs i = true) (hp : i.protects = true) :
    op.hasData = true := by
  cases i with
  | commit raw callback =>
    simp only [ClientOperation.installs, decide_eq_true_eq] at h
    rcases h with rfl | rfl <;> rfl
  | notify raw callback => cases hp
  | cancel abortFunction => cases hp
  | simplePrompt realm username maySave providers => cases hp
  | _ =>
    simp only [ClientOperation.installs, decide_eq_true_eq] at h
    subst h
    rfl

/-- While libsvn makes safe calls only, it returns, and the first exception is kept. -/
theorem libsvn_returns (cancelled : SvnError) (result : Option SvnError)
    (h : ∀ i ∈ Invocation.made invocations, i.safe = true) :
    ∃ r d, libsvn cancelled result invocations .create = .returned r d ∧
      ∀ e, (Invocation.made invocations).findSome? Invocation.thrown = some e →
        d.exception = some e ∧ ∃ i ∈ invocations, i.protects = true := by
  induction invocations with
  | nil => exact ⟨_, _, rfl, by simp [Invocation.made]⟩
  | cons i rest ih =>
    have hsafe : i.safe = true := by
      refine h i ?_
      rw [Invocation.made]
      split <;> simp
    rw [libsvn]
    rcases Invocation.call_safe cancelled .create hsafe with
      ⟨hstops, hnone, hcall⟩ | ⟨hstops, hnone, hcall⟩ | ⟨hstops, hprot, e, he, hcall⟩
    · have hmade : Invocation.made (i :: rest) = i :: Invocation.made rest := by
        rw [Invocation.made, hstops]
        rfl
      obtain ⟨r, d, hrun, hfirst⟩ := ih fun j hj => h j (by rw [hmade]; exact .tail _ hj)
      refine ⟨r, d, by rw [hcall]; exact hrun, fun e he => ?_⟩
      rw [hmade, List.findSome?_cons, hnone] at he
      obtain ⟨hd, j, hj, hp⟩ := hfirst e he
      exact ⟨hd, j, .tail _ hj, hp⟩
    · refine ⟨_, _, by rw [hcall], fun e he => ?_⟩
      simp [Invocation.made, hstops, hnone] at he
    · refine ⟨_, _, by rw [hcall], fun e' he' => ?_⟩
      obtain rfl : e = e' := by simpa [Invocation.made, hstops, he] using he'
      exact ⟨rfl, i, List.mem_cons_self, hprot⟩

theorem libsvn_unwinds (cancelled : SvnError) (result : Option SvnError) {i : Invocation}
    (hi : i ∈ Invocation.made invocations)
    (hfalse : i.safe = false) (d : CallbackData) :
    ∃ e, libsvn cancelled result invocations d = .unwound e := by
  induction invocations generalizing d with
  | nil => cases hi
  | cons j rest ih =>
    rw [libsvn]
    cases hj : j.safe with
    | false =>
      obtain ⟨e, he⟩ := Invocation.call_unsafe cancelled d hj
      exact ⟨e, by rw [he]⟩
    | true =>
      -- `j` is another call than `i`, so libsvn goes on after it
      have hne : i ≠ j := by
        rintro rfl
        exact absurd (hj.symm.trans hfalse) (by simp)
      rw [Invocation.made] at hi
      rcases Invocation.call_safe cancelled d hj with
        ⟨hstops, -, hcall⟩ | ⟨hstops, -, -⟩ | ⟨hstops, -, -⟩
      · rw [hstops] at hi
        simp only [Bool.false_eq_true, if_false] at hi
        rw [hcall]
        exact ih ((List.mem_cons.mp hi).resolve_left hne) d
      · rw [hstops, if_pos rfl] at hi
        exact absurd (List.mem_singleton.mp hi) hne
      · rw [hstops, if_pos rfl] at hi
        exact absurd (List.mem_singleton.mp hi) hne

/-- **An operation contains its exceptions exactly if each call that libsvn makes is of a
fit record, and its callback throws only inside of `callback_data::invoke`.** -/
theorem contained_iff (h : ∀ i ∈ invocations, op.installs i = true) :
    Contained cancelled op invocations result ↔
      ∀ i ∈ Invocation.made invocations,
        i.converts = true ∧ (i.protects = true ∨ i.thrown = none) := by
  have hsafe : ∀ i : Invocation, i.safe = true ↔
      i.converts = true ∧ (i.protects = true ∨ i.thrown = none) := by
    intro i
    simp [Invocation.safe]
  simp only [← hsafe]
  constructor
  · rintro ⟨r, hrun, -⟩ i hi
    cases hs : i.safe with
    | true => rfl
    | false =>
      obtain ⟨e, he⟩ := libsvn_unwinds cancelled result hi hs .create
      rw [ClientOperation.run, he] at hrun
      cases hrun
  · intro hall
    obtain ⟨r, d, hrun, hfirst⟩ := libsvn_returns cancelled result hall
    refine ⟨_, by rw [ClientOperation.run, hrun], fun e he => ?_⟩
    obtain ⟨hd, i, hi, hp⟩ := hfirst e he
    rw [ClientOperation.checkResult, installs_hasData (h i hi) hp, if_pos rfl]
    simp [CallbackData.checkResult, hd]

/-- `cat` whose callback throws at the second block. -/
theorem contained_iff_cat :
    Contained (.last ⟨200015, "", "", -1⟩) .cat
      [.cat [104] fun _ => .ok (), .cat [105] fun _ => .error (.runtimeError "")] none :=
  (contained_iff (by simp [ClientOperation.installs])).mpr
    (by simp [Invocation.made, Invocation.stops, Invocation.converts, Invocation.protects,
      Invocation.thrown, Invocation.errorOf, Invocation.aborts])

/-- `update` whose notify callback throws. -/
theorem not_contained_notify :
    ¬ ∀ (cancelled : SvnError) (op : ClientOperation) (invocations : List Invocation)
        (result : Option SvnError), (∀ i ∈ invocations, op.installs i = true) →
      Contained cancelled op invocations result := by
  intro h
  obtain ⟨r, hrun, -⟩ := h (.last ⟨200015, "", "", -1⟩) .update
    [.notify ⟨0, [97], 1⟩ fun _ => .error (.runtimeError "")] none
    (by simp [ClientOperation.installs])
  cases hrun

end Operation

end NodeSvn
