import NodeSvn.Lib.Machine
import NodeSvn.Node.Auth
import NodeSvn.Node.Decode
import NodeSvn.Node.Error

/-!
# What JS sees of a client

A method of `Client` is called through two wrappers:

    check_disposed     throws no::type_error("") once dispose was called
    invoke_method      no::type_error       -> TypeError(what)
                       any other exception  -> Error("error invoking method")
    METHOD_BEGIN       in between, for the methods with macros:
                       svn::svn_error       -> a promise that is rejected

So what a run of calls leaves behind is what the calls before the first `dispose` ask for
(`surface_law`); a call is answered by its arguments alone, whatever was in the memory that its
revisions are made in (`methodResult_memory`).

A promise is rejected at once for one kind of argument only, a revision that is a number of no
keyword, and in `cat` and `checkout` only (`methodResult_rejected_law`); the other methods throw
for it.
-/

namespace NodeSvn

/-- How a call ends, for JS. -/
inductive CallResult where
  | undefined
  | promise
  | iterator
  | rejected (e : JsError)
  | typeError (message : String)
  | error (message : String)
  /-- a read through an empty handle -/
  | aborted
  deriving DecidableEq

def invokeMethod : Except DecodeFailure CallResult → CallResult
  | .ok result => result
  | .error (.exn (.typeError what)) => .typeError what
  | .error (.exn _) => .error "error invoking method"
  | .error .emptyHandle => .aborted

/-- `REPORT_ERROR`, in the methods that are written with the macros. -/
def Method.reportError (m : Method) (e : DecodeFailure) : Except DecodeFailure CallResult :=
  match e with
  | .emptyHandle => .error .emptyHandle
  | .exn e =>
    if m.keepsAlive then .error (.exn e)
    else
      match e.asSvnError with
      | some raw => .ok (.rejected (copyError raw))
      | none => .error (.exn e)

/-- What the method returns once it has read its arguments. -/
def Method.reported (m : Method) : Except DecodeFailure Unit → Except DecodeFailure CallResult
  | .ok () => .ok (if m.iterates then .iterator else .promise)
  | .error e => m.reportError e

inductive JsCall (F : Type) where
  | registry (call : RegistryCall F)
  /-- `before` is in the memory that the revisions are made in. -/
  | method (m : Method) (args : Nat → Js) (before : UnionMemory)
  | dispose

structure JsClient (F : Type) where
  /-- `_client` is null -/
  disposed : Bool
  /-- the process has ended -/
  aborted : Bool
  functions : List F
  /-- all jobs that were queued -/
  queue : List QueuedJob
  results : List CallResult

namespace JsClient

variable {F : Type} [DecidableEq F]

def create : JsClient F := ⟨false, false, [], [], []⟩

/-- The method of `no::client`. -/
def invoke (s : JsClient F) : JsCall F → Except DecodeFailure CallResult × JsClient F
  | .registry call =>
    match call.apply s.functions with
    | .ok functions => (.ok .undefined, { s with functions })
    | .error e => (.error (.exn e), s)
  | .method m args before =>
    let p := callMethod before m args s.queue
    (m.reported p.1, { s with queue := p.2 })
  | .dispose => (.ok .undefined, { s with disposed := true })

def checkDisposed (s : JsClient F) (c : JsCall F) : Except DecodeFailure CallResult × JsClient F :=
  if s.disposed then (.error (.exn (.typeError "")), s) else s.invoke c

def call (s : JsClient F) (c : JsCall F) : JsClient F :=
  let p := s.checkDisposed c
  let result := invokeMethod p.1
  { p.2 with results := s.results ++ [result], aborted := result = .aborted }

end JsClient

/-- A program that calls the methods of one client, as long as there is a process. -/
def surface (F : Type) [DecidableEq F] : Machine (JsClient F) (JsCall F) where
  init := .create
  step s c := if s.aborted then none else some (s.call c)

/-! ## What a call asks for -/

/-- The result of a method of a client that is not disposed. -/
def methodResult (m : Method) (args : Nat → Js) (before : UnionMemory) : CallResult :=
  invokeMethod (m.reported ((decodeArguments before m args).map fun _ => ()))

namespace JsCall

variable {F : Type} [DecidableEq F]

def isDispose : JsCall F → Bool
  | dispose => true
  | _ => false

def registryCall : JsCall F → Option (RegistryCall F)
  | registry call => some call
  | _ => none

def job : JsCall F → Option QueuedJob
  | method m args before =>
    match decodeArguments before m args with
    | .ok captured => some ⟨m, captured⟩
    | .error _ => none
  | _ => none

/-- The calls before the client is disposed. -/
def live (cs : List (JsCall F)) : List (JsCall F) := cs.takeWhile fun c => !c.isDispose

/-- The functions that these calls register. -/
def functions (cs : List (JsCall F)) : List F := registered (cs.filterMap registryCall)

/-- What the call gives, after these.  The memory that a method makes its revisions in is of no
account. -/
def answer (before : List (JsCall F)) (c : JsCall F) : CallResult :=
  if before.any isDispose then .typeError ""
  else
    match c with
    | registry call => invokeMethod ((call.apply (functions before)).mapError .exn |>.map
        fun _ => .undefined)
    | method m args _ => methodResult m args ⟨0, 0⟩
    | dispose => .undefined

end JsCall

/-! ## The memory of a revision -/

section Memory

variable {m : Method} {before after : UnionMemory}

/-- The option is decoded, or fails, whatever the default is. -/
theorem convertOption_agree {R : Type} {S : R → R → Prop} {d d' : R} {f g : Js → DecodeM R}
    (options : Option (String → Option Js)) (key : String) (hd : S d d')
    (hf : ∀ v, Except.Agree S (f v) (g v)) :
    Except.Agree S (convertOption options key d f) (convertOption options key d' g) := by
  cases options with
  | none => exact hd
  | some get =>
    refine (Except.agree_eq_iff.mpr (rfl : getProperty get key = _)).bind fun v v' h => ?_
    obtain rfl := h
    cases v with
    | undefined => exact hd
    | _ => exact hf _

def SameKind (r r' : Revision) : Prop := r.kind = r'.kind

theorem SameKind.refl (r : Revision) : SameKind r r := rfl

/-- The memory changes a revision, and not whether there is one or what kind it has. -/
theorem revisionValue_agree (v : Js) :
    Except.Agree SameKind (revisionValue before v) (revisionValue after v) := by
  cases v with
  | number x => exact .refl .refl _
  | object elements get =>
    refine (Except.agree_eq_iff.mpr (rfl : getProperty get "number" = _)).bind fun n n' h => ?_
    obtain rfl := h
    cases n with
    | number x => exact (rfl : RevisionKind.number = .number)
    | undefined => exact .refl .refl _
    | _ => exact (rfl : DecodeFailure.exn (.typeError "") = _)
  | _ => exact (rfl : DecodeFailure.exn (.typeError "") = _)

theorem convertRevisionRange_agree (item : Option Js) :
    Except.Agree (fun _ _ => True) (convertRevisionRange before item)
      (convertRevisionRange after item) := by
  have hend : ∀ get key, Except.Agree SameKind
      (convertRevision before (some get) key .unspecified)
      (convertRevision after (some get) key .unspecified) :=
    fun get key => convertOption_agree (some get) key (.refl _) revisionValue_agree
  cases item with
  | none => exact (rfl : DecodeFailure.exn (.typeError "") = _)
  | some v =>
    cases v with
    | object elements get =>
      refine (hend get "start").bind fun start start' hstart => ?_
      rw [show start.kind = start'.kind from hstart]
      split
      · exact (rfl : DecodeFailure.exn (.typeError "") = _)
      · refine (hend get "end").bind fun last last' hlast => ?_
        rw [show last.kind = last'.kind from hlast]
        split
        · exact (rfl : DecodeFailure.exn (.typeError "") = _)
        · exact trivial
    | _ => exact (rfl : DecodeFailure.exn (.typeError "") = _)

theorem rangesValue_agree (v : Js) :
    Except.Agree (fun _ _ => True) (rangesValue before v) (rangesValue after v) := by
  cases v with
  | object elements get =>
    cases elements with
    | none => exact (convertRevisionRange_agree _).map fun _ _ _ => trivial
    | some elements =>
      exact (Except.agree_mapM fun item _ => convertRevisionRange_agree item).imp
        fun _ _ _ => trivial
  | _ => exact trivial

theorem option_agree (options : Option (String → Option Js)) (o : OptionDecoder) :
    Except.Agree (fun _ _ => True) (o.run before options) (o.run after options) := by
  cases o with
  | revision key d =>
    exact (convertOption_agree (S := fun _ _ => True) options key trivial
      fun v => (revisionValue_agree v).imp fun _ _ _ => trivial).map fun _ _ _ => trivial
  | revisionRanges key =>
    exact (convertOption_agree (S := fun _ _ => True) options key trivial
      fun v => (rangesValue_agree v).map fun _ _ _ => trivial).map fun _ _ _ => trivial
  | _ => exact .refl (fun _ => trivial) _

theorem decodeArguments_agree (args : Nat → Js) :
    Except.Agree (fun _ _ => True) (decodeArguments before m args)
      (decodeArguments after m args) := by
  refine (Except.Agree.refl (R := Eq) (fun _ => rfl) _).bind fun arguments _ _ => ?_
  cases m.options with
  | none => exact trivial
  | some decoders =>
    refine (Except.agree_eq_iff.mpr (rfl : convertOptions (args m.arguments.length) = _)).bind
      fun options options' h => ?_
    obtain rfl := h
    exact (Except.agree_mapM fun o _ => option_agree options o).bind fun _ _ _ => trivial

/-- **A method answers by its arguments alone.** -/
theorem methodResult_memory (m : Method) (args : Nat → Js) (before after : UnionMemory) :
    methodResult m args before = methodResult m args after := by
  have hdecode : (decodeArguments before m args).map (fun _ => ()) =
      (decodeArguments after m args).map fun _ => () :=
    Except.agree_eq_iff.mp ((decodeArguments_agree args).map fun _ _ _ => rfl)
  unfold methodResult
  rw [hdecode]

end Memory

/-! ## Runs -/

theorem JsCall.live_snoc {F : Type} (cs : List (JsCall F)) (c : JsCall F) :
    JsCall.live (cs ++ [c]) =
      JsCall.live cs ++ if cs.any JsCall.isDispose || c.isDispose then [] else [c] := by
  unfold JsCall.live
  induction cs with
  | nil => cases h : c.isDispose <;> simp [h]
  | cons d cs ih =>
    cases h : d.isDispose with
    | true => simp [h]
    | false =>
      rw [List.cons_append, List.takeWhile_cons_of_pos (by simp [h]), ih,
        List.takeWhile_cons_of_pos (by simp [h]), List.any_cons, h, Bool.false_or, List.cons_append]

theorem JsCall.live_snoc_disposed {F : Type} {cs : List (JsCall F)}
    (h : cs.any JsCall.isDispose = true) (c : JsCall F) :
    JsCall.live (cs ++ [c]) = JsCall.live cs := by
  rw [JsCall.live_snoc, h, Bool.true_or, if_pos rfl, List.append_nil]

theorem JsCall.live_snoc_alive {F : Type} {cs : List (JsCall F)} {c : JsCall F}
    (h : cs.any JsCall.isDispose = false) (hc : c.isDispose = false) :
    JsCall.live (cs ++ [c]) = JsCall.live cs ++ [c] := by
  rw [JsCall.live_snoc, h, hc, Bool.or_false, if_neg Bool.false_ne_true]

/-- Until it is disposed, all calls are live. -/
theorem JsCall.live_of_alive {F : Type} {cs : List (JsCall F)}
    (h : cs.any JsCall.isDispose = false) : JsCall.live cs = cs := by
  induction cs using List.reverseRecOn with
  | nil => rfl
  | append_singleton cs c ih =>
    rw [List.any_append, Bool.or_eq_false_iff] at h
    have hc : c.isDispose = false := by simpa using h.2
    rw [JsCall.live_snoc_alive h.1 hc, ih h.1]

theorem callMethod_eq {F : Type} (m : Method) (args : Nat → Js) (before : UnionMemory)
    (queue : List QueuedJob) :
    callMethod before m args queue = ((decodeArguments before m args).map fun _ => (),
      queue ++ ((JsCall.method m args before : JsCall F).job).toList) := by
  show _ = (_, queue ++ (match decodeArguments before m args with
    | .ok captured => some ⟨m, captured⟩
    | .error _ => none : Option QueuedJob).toList)
  unfold callMethod
  cases decodeArguments before m args with
  | ok captured => rfl
  | error e =>
    rw [Option.toList_none, List.append_nil]
    rfl

section Runs

variable {F : Type} [DecidableEq F] {s : JsClient F} {cs : List (JsCall F)} {c : JsCall F}

/-- What a run of calls leaves behind. -/
structure JsClient.After (cs : List (JsCall F)) (s : JsClient F) : Prop where
  disposed : s.disposed = cs.any JsCall.isDispose
  functions : s.functions = JsCall.functions (JsCall.live cs)
  queue : s.queue = (JsCall.live cs).filterMap JsCall.job
  results : s.results = cs.mapIdx fun i c => JsCall.answer (cs.take i) c

theorem JsClient.After.results_snoc {cs : List (JsCall F)} {c : JsCall F} {rs : List CallResult}
    (h : rs = cs.mapIdx fun i c => JsCall.answer (cs.take i) c) :
    rs ++ [JsCall.answer cs c] =
      (cs ++ [c]).mapIdx fun i d => JsCall.answer ((cs ++ [c]).take i) d := by
  rw [List.mapIdx_append, h]
  congr 1
  · refine List.mapIdx_eq_mapIdx_iff.mpr fun i hi => ?_
    rw [List.take_append_of_le_length (Nat.le_of_lt hi)]
  · simp

theorem JsClient.call_disposed (h : s.disposed = true) :
    s.call c = { s with results := s.results ++ [.typeError ""], aborted := false } := by
  unfold JsClient.call JsClient.checkDisposed
  rw [if_pos h]
  rfl

theorem JsClient.call_alive (h : s.disposed = false) :
    s.call c = { (s.invoke c).2 with
      results := s.results ++ [invokeMethod (s.invoke c).1]
      aborted := invokeMethod (s.invoke c).1 = .aborted } := by
  unfold JsClient.call JsClient.checkDisposed
  rw [h]
  rfl

theorem JsClient.invoke_registry (s : JsClient F) (call : RegistryCall F) :
    s.invoke (.registry call) =
      (((call.apply s.functions).mapError .exn).map fun _ => .undefined,
        { s with functions := (call.apply s.functions).toOption.getD s.functions }) := by
  show (match call.apply s.functions with
    | .ok functions => (Except.ok CallResult.undefined, { s with functions })
    | .error e => (Except.error (DecodeFailure.exn e), s)) = _
  cases call.apply s.functions <;> rfl

theorem JsClient.invoke_method (s : JsClient F) (m : Method) (args : Nat → Js)
    (before : UnionMemory) :
    s.invoke (.method m args before) =
      (m.reported ((decodeArguments before m args).map fun _ => ()),
        { s with queue := s.queue ++ ((JsCall.method m args before : JsCall F).job).toList }) := by
  show (m.reported (callMethod before m args s.queue).1,
    { s with queue := (callMethod before m args s.queue).2 }) = _
  rw [callMethod_eq (F := F)]

/-- One call. -/
theorem JsClient.After.call (h : s.After cs) (c : JsCall F) : (s.call c).After (cs ++ [c]) := by
  cases hd : cs.any JsCall.isDispose with
  | true =>
    have hdisposed := h.disposed.trans hd
    rw [call_disposed hdisposed]
    have hanswer : JsCall.answer cs c = .typeError "" := by
      unfold JsCall.answer
      rw [if_pos hd]
    refine ⟨?_, ?_, ?_, ?_⟩
    · rw [List.any_append, hd, Bool.true_or]
      exact hdisposed
    · rw [JsCall.live_snoc_disposed hd]
      exact h.functions
    · rw [JsCall.live_snoc_disposed hd]
      exact h.queue
    · rw [← results_snoc h.results, hanswer]
  | false =>
    have halive := h.disposed.trans hd
    have hfunctions : s.functions = JsCall.functions cs := by
      rw [h.functions, JsCall.live_of_alive hd]
    have hqueue : s.queue = cs.filterMap JsCall.job := by
      rw [h.queue, JsCall.live_of_alive hd]
    have hlive := JsCall.live_of_alive hd
    rw [call_alive halive]
    have hanswer : invokeMethod (s.invoke c).1 = JsCall.answer cs c := by
      unfold JsCall.answer
      rw [if_neg (by rw [hd]; exact Bool.false_ne_true)]
      cases c with
      | dispose => rfl
      | registry call => rw [invoke_registry, hfunctions]
      | method m args before =>
        rw [invoke_method]
        exact methodResult_memory m args before ⟨0, 0⟩
    have hresults : s.results ++ [invokeMethod (s.invoke c).1] =
        (cs ++ [c]).mapIdx fun i d => JsCall.answer ((cs ++ [c]).take i) d := by
      rw [hanswer]
      exact results_snoc h.results
    cases c with
    | dispose =>
      have hend : JsCall.live (cs ++ [.dispose]) = JsCall.live cs := by
        have hif : (cs.any JsCall.isDispose || (JsCall.dispose : JsCall F).isDispose) = true := by
          rw [hd]
          rfl
        rw [JsCall.live_snoc, if_pos hif, List.append_nil]
      refine ⟨?_, ?_, ?_, hresults⟩
      · rw [List.any_append, hd]
        rfl
      · rw [hend]
        exact h.functions
      · rw [hend]
        exact h.queue
    | registry call =>
      have hstate : (s.invoke (.registry call)).2 =
          { s with functions := (call.apply s.functions).toOption.getD s.functions } := by
        rw [invoke_registry]
      refine ⟨?_, ?_, ?_, hresults⟩
      · rw [List.any_append, hd, hstate]
        exact halive
      · rw [JsCall.live_snoc_alive hd rfl, hlive, hstate]
        show (call.apply s.functions).toOption.getD s.functions = _
        rw [hfunctions, JsCall.functions, JsCall.functions, List.filterMap_append]
        exact registered_snoc.symm
      · rw [JsCall.live_snoc_alive hd rfl, hlive, hstate, List.filterMap_append]
        show s.queue = _
        rw [hqueue]
        exact (List.append_nil _).symm
    | method m args before =>
      have hstate := congrArg Prod.snd (invoke_method s m args before)
      refine ⟨?_, ?_, ?_, hresults⟩
      · rw [List.any_append, hd, hstate]
        exact halive
      · rw [JsCall.live_snoc_alive hd rfl, hlive, hstate, JsCall.functions, List.filterMap_append]
        show s.functions = _
        rw [hfunctions]
        exact congrArg registered (List.append_nil _).symm
      · rw [JsCall.live_snoc_alive hd rfl, hlive, hstate, List.filterMap_append]
        show s.queue ++ _ = _
        rw [hqueue]
        congr 1

/-- **What a program sees of a client.**  It has the jobs and the functions of the calls before
it is disposed, and each call is answered by what it asks for, and afterwards by a
`TypeError`. -/
theorem surface_law (h : (surface F).run .create cs = some s) :
    s.disposed = cs.any JsCall.isDispose ∧
      s.functions = JsCall.functions (JsCall.live cs) ∧
      s.queue = (JsCall.live cs).filterMap JsCall.job ∧
      s.results = cs.mapIdx fun i c => JsCall.answer (cs.take i) c := by
  have hafter := Machine.run_induction (M := surface F) (P := fun cs s => s.After cs)
    ⟨rfl, rfl, rfl, rfl⟩ (fun cs s c t _ hs hstep => ?_) cs s h
  · exact ⟨hafter.disposed, hafter.functions, hafter.queue, hafter.results⟩
  · change (if s.aborted then none else some (s.call c)) = some t at hstep
    split at hstep
    · cases hstep
    · exact Option.some.inj hstep ▸ hs.call c

end Runs

/-- A promise, and after `dispose` a `TypeError`; a second `dispose` is one of these. -/
theorem surface_law_disposed : ∃ s, (surface Nat).run .create
    [.method .cleanup (fun _ => .string [97]) ⟨0, 0⟩, .registry (.addSimpleAuthProvider (some 7)),
      .dispose, .method .cleanup (fun _ => .string [97]) ⟨0, 0⟩, .dispose] = some s ∧
    s.functions = [7] ∧
      s.results = [.promise, .undefined, .undefined, .typeError "", .typeError ""] := by
  refine ⟨_, (Option.some_get rfl).symm, ?_, ?_⟩
  · exact (surface_law (Option.some_get (x := (surface Nat).run .create
      [.method .cleanup (fun _ => .string [97]) ⟨0, 0⟩,
        .registry (.addSimpleAuthProvider (some 7)), .dispose,
        .method .cleanup (fun _ => .string [97]) ⟨0, 0⟩, .dispose]) rfl).symm).2.1
  · exact (surface_law (Option.some_get (x := (surface Nat).run .create
      [.method .cleanup (fun _ => .string [97]) ⟨0, 0⟩,
        .registry (.addSimpleAuthProvider (some 7)), .dispose,
        .method .cleanup (fun _ => .string [97]) ⟨0, 0⟩, .dispose]) rfl).symm).2.2.2

/-! ## Which calls are rejected -/

/-- What `catch (const svn::svn_error&)` binds. -/
def DecodeFailure.asSvnError : DecodeFailure → Option SvnError
  | .exn e => e.asSvnError
  | .emptyHandle => none

/-- The first thing that the method cannot decode is a revision that is the number `x`, and no
keyword has it. -/
def Method.Refuses (m : Method) (before : UnionMemory) (args : Nat → Js) : Prop :=
  ∃ arguments elements get pre key d post x,
    (m.arguments.zipIdx.mapM fun p => p.1.run (args p.2)) = .ok arguments ∧
    args m.arguments.length = .object elements get ∧
    m.options = some (pre ++ .revision key d :: post) ∧
    (∀ o ∈ pre, ∃ v, OptionDecoder.run before (some get) o = .ok v) ∧
    get key = some (.number x) ∧ (RevisionRequest.keyword x).accepted = false

/-- The error of a promise that is rejected at once. -/
def refusedError : JsError := .last ⟨"", "SvnError", -1, "", -1⟩

section Rejected

variable {before : UnionMemory} {m : Method} {args : Nat → Js} {v : Js} {f : DecodeFailure}
  {o : OptionDecoder} {options : Option (String → Option Js)} {raw : SvnError}

theorem convertString_plain (h : Js.convertString v = .error f) : f.asSvnError = none := by
  cases v with
  | string utf8 =>
    simp only [Js.convertString] at h
    split at h
    · obtain rfl := Except.error.inj h
      rfl
    · cases h
  | _ =>
    obtain rfl := Except.error.inj h
    rfl

theorem convertElement_plain {v : Option Js} (h : convertElement v = .error f) :
    f.asSvnError = none := by
  cases v with
  | some value => exact convertString_plain h
  | none =>
    obtain rfl := Except.error.inj h
    rfl

theorem convertArray_plain {allowEmpty : Bool} (h : convertArray v allowEmpty = .error f) :
    f.asSvnError = none := by
  unfold convertArray at h
  split at h
  · cases allowEmpty with
    | true => cases h
    | false =>
      obtain rfl := Except.error.inj h
      rfl
  · exact convertString_plain (Except.map_eq_error_iff.mp h)
  · obtain ⟨element, -, helement⟩ := Except.exists_of_mapM_eq_error h
    exact convertElement_plain helement
  · obtain rfl := Except.error.inj h
    rfl

theorem argument_plain {a : ArgumentDecoder} (h : a.run v = .error f) : f.asSvnError = none := by
  cases a with
  | array => exact convertArray_plain (Except.map_eq_error_iff.mp h)
  | string => exact convertString_plain (Except.map_eq_error_iff.mp h)

theorem convertOptions_plain (h : convertOptions v = .error f) : f.asSvnError = none := by
  cases v with
  | undefined => cases h
  | object elements get => cases h
  | _ =>
    obtain rfl := Except.error.inj h
    rfl

/-- An option fails if it cannot be read, or its value cannot be decoded. -/
theorem convertOption_eq_error {R : Type} {key : String} {d : R} {decode : Js → DecodeM R}
    (h : convertOption options key d decode = .error f) :
    f.asSvnError = none ∨ ∃ get v, options = some get ∧ get key = some v ∧ decode v = .error f := by
  cases options with
  | none => cases h
  | some get =>
    simp only [convertOption, getProperty] at h
    cases hv : get key with
    | none =>
      rw [hv] at h
      obtain rfl := Except.error.inj h
      exact .inl rfl
    | some v =>
      rw [hv] at h
      cases v with
      | undefined => cases h
      | _ => exact .inr ⟨get, _, rfl, hv, h⟩

/-- The constructor of a keyword throws one exception only. -/
theorem ofKind_eq_error {kind : Option RevisionKind} {e : Exn}
    (h : Revision.ofKind kind = .error e) : e = .svnTypeError "" := by
  unfold Revision.ofKind at h
  split at h
  · split at h
    · cases h
    · exact (Except.error.inj h).symm
  · exact (Except.error.inj h).symm

theorem revisionValue_refused {x : JsNumber} (h : (RevisionRequest.keyword x).accepted = false) :
    revisionValue before (.number x) = .error (.exn (.svnTypeError "")) := by
  have hnot : ∀ r, Revision.ofKind (RevisionKind.ofCode x.int32Value) ≠ .ok r := by
    intro r hr
    have hrevision : (RevisionRequest.keyword x).revision before = .ok r := hr
    rw [RevisionRequest.accepted_iff.mpr ⟨r, hrevision⟩] at h
    cases h
  show (Revision.ofKind (RevisionKind.ofCode x.int32Value)).mapError _ = _
  cases hkind : Revision.ofKind (RevisionKind.ofCode x.int32Value) with
  | ok r => exact absurd hkind (hnot r)
  | error e =>
    rw [ofKind_eq_error hkind]
    rfl

theorem revisionValue_svnError (h : revisionValue before v = .error f)
    (hf : f.asSvnError = some raw) :
    ∃ x, v = .number x ∧ (RevisionRequest.keyword x).accepted = false := by
  cases v with
  | number x =>
    refine ⟨x, rfl, ?_⟩
    by_contra haccepted
    rw [Bool.not_eq_false] at haccepted
    obtain ⟨r, hr⟩ : ∃ r, (RevisionRequest.keyword x).revision before = .ok r :=
      RevisionRequest.accepted_iff.mp haccepted
    have hok : revisionValue before (.number x) = .ok r := revisionValue_eq_ok.mpr ⟨_, rfl, hr⟩
    rw [hok] at h
    cases h
  | object elements get =>
    simp only [revisionValue, getProperty] at h
    cases hn : get "number" with
    | none =>
      rw [hn] at h
      obtain rfl := Except.error.inj h
      cases hf
    | some number =>
      rw [hn] at h
      cases number with
      | number n => cases h
      | undefined =>
        cases hd : get "date" with
        | none =>
          rw [hd] at h
          obtain rfl := Except.error.inj h
          cases hf
        | some date =>
          rw [hd] at h
          cases date with
          | number d => cases h
          | _ =>
            obtain rfl := Except.error.inj h
            cases hf
      | _ =>
        obtain rfl := Except.error.inj h
        cases hf
  | _ =>
    obtain rfl := Except.error.inj h
    cases hf

theorem convertOption_plain {R : Type} {key : String} {d : R} {decode : Js → DecodeM R}
    (h : convertOption options key d decode = .error f)
    (hdecode : ∀ v, decode v = .error f → f.asSvnError = none) : f.asSvnError = none := by
  rcases convertOption_eq_error h with hplain | ⟨get, v, -, -, hvalue⟩
  · exact hplain
  · exact hdecode v hvalue

theorem numberValue_plain (h : numberValue v = .error f) : f.asSvnError = none := by
  cases v with
  | number x => cases h
  | _ =>
    obtain rfl := Except.error.inj h
    rfl

theorem boolValue_plain (h : boolValue v = .error f) : f.asSvnError = none := by
  cases v with
  | boolean b => cases h
  | _ =>
    obtain rfl := Except.error.inj h
    rfl

/-- Of the options other than ranges, revisions alone are refused. -/
theorem option_svnError (hranges : o.decoder ≠ .revisionRanges)
    (h : o.run before options = .error f) (hf : f.asSvnError = some raw) :
    ∃ key d get x, o = .revision key d ∧ options = some get ∧ get key = some (.number x) ∧
      (RevisionRequest.keyword x).accepted = false := by
  have hcontra : f.asSvnError ≠ none := by
    rw [hf]
    exact Option.some_ne_none raw
  cases o with
  | revisionRanges key => exact absurd rfl hranges
  | revision key d =>
    rcases convertOption_eq_error (Except.map_eq_error_iff.mp h) with
      hplain | ⟨get, v, hget, hv, hvalue⟩
    · exact absurd hplain hcontra
    · obtain ⟨x, rfl, hx⟩ := revisionValue_svnError hvalue hf
      exact ⟨key, d, get, x, rfl, hget, hv, hx⟩
  | array key =>
    exact absurd
      (convertOption_plain (Except.map_eq_error_iff.mp h) fun _ => convertArray_plain) hcontra
  | boolean key d =>
    exact absurd
      (convertOption_plain (Except.map_eq_error_iff.mp h) fun _ => boolValue_plain) hcontra
  | number key d =>
    exact absurd
      (convertOption_plain (Except.map_eq_error_iff.mp h) fun _ => numberValue_plain) hcontra
  | depth key d =>
    exact absurd
      (convertOption_plain (Except.map_eq_error_iff.mp h) fun _ => numberValue_plain) hcontra

theorem decodeArguments_of_refuses (h : m.Refuses before args) :
    decodeArguments before m args = .error (.exn (.svnTypeError "")) := by
  obtain ⟨arguments, elements, get, pre, key, d, post, x, hargs, hobject, hoptions, hpre, hx,
    hrefused⟩ := h
  have hvalue : OptionDecoder.run before (some get) (.revision key d) =
      .error (.exn (.svnTypeError "")) := by
    show (convertOption (some get) key (d before) (revisionValue before)).map _ = _
    rw [convertOption_some hx (fun h => by cases h), revisionValue_refused hrefused]
    rfl
  have hvalues := Except.mapM_eq_error_iff.mpr ⟨pre, .revision key d, post, rfl, hpre, hvalue⟩
  unfold decodeArguments
  rw [hargs, Except.ok_bind, hoptions, hobject]
  show (convertOptions (.object elements get) >>= fun options => _) = _
  rw [show convertOptions (.object elements get) = .ok (some get) from rfl, Except.ok_bind, hvalues]
  rfl

/-- The decoders of the options. -/
def Method.kinds (m : Method) : List Decoder := (m.options.getD []).map OptionDecoder.decoder

/-- The methods with macros read no ranges, and two of them revisions. -/
theorem Method.kinds_of_macros (m : Method) (h : m.keepsAlive = false) :
    .revisionRanges ∉ m.kinds ∧ (.revision ∈ m.kinds → m = .cat ∨ m = .checkout) := by
  cases m <;> first | exact ⟨by decide, by decide⟩ | cases h

theorem Method.decoder_mem_kinds {decoders : List OptionDecoder} (h : m.options = some decoders)
    (ho : o ∈ decoders) : o.decoder ∈ m.kinds := by
  unfold Method.kinds
  rw [h]
  exact List.mem_map_of_mem ho

/-- What the macros catch, if the arguments are read one after the other. -/
theorem refuses_of_decodeArguments (hm : m.keepsAlive = false)
    (h : decodeArguments before m args = .error f) (hf : f.asSvnError = some raw) :
    m.Refuses before args := by
  have hcontra : f.asSvnError ≠ none := by
    rw [hf]
    exact Option.some_ne_none raw
  unfold decodeArguments at h
  cases hargs : m.arguments.zipIdx.mapM fun p => p.1.run (args p.2) with
  | error f' =>
    rw [hargs, Except.error_bind] at h
    obtain rfl := Except.error.inj h
    obtain ⟨p, -, hp⟩ := Except.exists_of_mapM_eq_error hargs
    exact absurd (argument_plain hp) hcontra
  | ok arguments =>
    rw [hargs, Except.ok_bind] at h
    cases hoptions : m.options with
    | none =>
      rw [hoptions] at h
      cases h
    | some decoders =>
      rw [hoptions] at h
      change (convertOptions (args m.arguments.length) >>= fun options =>
        decoders.mapM (OptionDecoder.run before options) >>= fun values =>
          pure (arguments ++ values)) = _ at h
      cases hobject : convertOptions (args m.arguments.length) with
      | error f' =>
        rw [hobject, Except.error_bind] at h
        obtain rfl := Except.error.inj h
        exact absurd (convertOptions_plain hobject) hcontra
      | ok options =>
        rw [hobject, Except.ok_bind] at h
        cases hvalues : decoders.mapM (OptionDecoder.run before options) with
        | ok values =>
          rw [hvalues] at h
          cases h
        | error f' =>
          rw [hvalues, Except.error_bind] at h
          obtain rfl := Except.error.inj h
          obtain ⟨pre, o, post, rfl, hpre, ho⟩ := Except.mapM_eq_error_iff.mp hvalues
          have hmem := Method.decoder_mem_kinds hoptions
            (List.mem_append_right pre List.mem_cons_self)
          have hranges : o.decoder ≠ .revisionRanges := by
            intro heq
            rw [heq] at hmem
            exact (m.kinds_of_macros hm).1 hmem
          obtain ⟨key, d, get, x, rfl, rfl, hx, hrefused⟩ := option_svnError hranges ho hf
          have hargument : ∃ elements, args m.arguments.length = .object elements get := by
            cases hvalue : args m.arguments.length with
            | object elements get' =>
              rw [hvalue] at hobject
              injection hobject with hobject
              injection hobject with hobject
              exact ⟨elements, by rw [hobject]⟩
            | undefined =>
              rw [hvalue] at hobject
              cases hobject
            | _ =>
              rw [hvalue] at hobject
              cases hobject
          obtain ⟨elements, helements⟩ := hargument
          exact ⟨arguments, elements, get, pre, key, d, post, x, hargs, helements, hoptions, hpre,
            hx, hrefused⟩

/-- **A keyword that is none.**  The methods with macros return a promise that is rejected, the
others throw; and no other argument gives a promise that is rejected at once. -/
theorem methodResult_rejected_law (m : Method) (args : Nat → Js) (before : UnionMemory) :
    (m.Refuses before args → methodResult m args before =
      if m.keepsAlive then .error "error invoking method" else .rejected refusedError) ∧
    ∀ e, methodResult m args before = .rejected e ↔
      (m = .cat ∨ m = .checkout) ∧ m.Refuses before args ∧ e = refusedError := by
  have hrefuses : m.Refuses before args → methodResult m args before =
      if m.keepsAlive then .error "error invoking method" else .rejected refusedError := by
    intro h
    unfold methodResult
    rw [decodeArguments_of_refuses h]
    show invokeMethod (m.reportError (.exn (.svnTypeError ""))) = _
    unfold Method.reportError
    cases m.keepsAlive <;> rfl
  refine ⟨hrefuses, fun e => ⟨fun h => ?_, ?_⟩⟩
  · have hmacros : m.keepsAlive = false ∧ m.Refuses before args := by
      unfold methodResult at h
      cases hdecode : decodeArguments before m args with
      | ok captured =>
        rw [hdecode] at h
        change invokeMethod (.ok (if m.iterates then .iterator else .promise)) = _ at h
        cases hiterates : m.iterates <;> rw [hiterates] at h <;> cases h
      | error f =>
        rw [hdecode] at h
        change invokeMethod (m.reportError f) = _ at h
        cases f with
        | emptyHandle => cases h
        | exn e' =>
          cases hkeeps : m.keepsAlive with
          | true =>
            simp only [Method.reportError, hkeeps, if_true] at h
            cases e' <;> cases h
          | false =>
            cases hraw : e'.asSvnError with
            | none =>
              simp only [Method.reportError, hkeeps, hraw] at h
              cases e' <;> cases h
            | some raw => exact ⟨rfl, refuses_of_decodeArguments hkeeps hdecode hraw⟩
    obtain ⟨hm, hrefused⟩ := hmacros
    have hresult := hrefuses hrefused
    rw [hm, if_neg Bool.false_ne_true, h] at hresult
    refine ⟨?_, hrefused, CallResult.rejected.inj hresult⟩
    obtain ⟨_, _, _, pre, key, d, post, _, -, -, hoptions, -⟩ := hrefused
    exact (m.kinds_of_macros hm).2 (Method.decoder_mem_kinds hoptions
      (List.mem_append_right pre List.mem_cons_self))
  · rintro ⟨hm, hrefused, rfl⟩
    rw [hrefuses hrefused]
    rcases hm with rfl | rfl <;> rfl

end Rejected

end NodeSvn
