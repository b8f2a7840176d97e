import NodeSvn.Cpp.Revision
import NodeSvn.Lib.Except
import NodeSvn.Lib.Lists
import NodeSvn.Node.Js
import NodeSvn.Node.Method

/-!
# The decoders of arguments and options

`convert_string` and the `convert_*` functions of `node_client.cpp`.  Those for an option look
it up and return their default if it is undefined (`convertOption`); the rest of each is a
function of the value.

    convert_depth             takes every number
    convert_number            takes every number, truncated and modulo 2^32
    convert_revision          the same, for the keyword, the number and the date
    convert_revision_ranges   takes every value that is no object, as no range at all

A method queues its job only if each of its values was decoded, and the job captures what
that gave (`callMethod_queued`).
-/

namespace NodeSvn

/-- How a decoder ends that returns nothing. -/
inductive DecodeFailure where
  | exn (e : Exn)
  /-- a member function is called on an empty handle -/
  | emptyHandle
  deriving DecidableEq

abbrev DecodeM := Except DecodeFailure

/-- `throw no::type_error(what)` -/
def typeError {R : Type} (what : String) : DecodeM R := .error (.exn (.typeError what))

/-- `check_result` of `Object::Get`. -/
def getProperty (get : String → Option Js) (key : String) : DecodeM Js :=
  match get key with
  | some value => .ok value
  | none => .error (.exn (.runtimeError ""))

/-! ## The values -/

/-- `std::strlen`, up to the first NUL. -/
def strlen (bytes : List UInt8) : Nat := (bytes.takeWhile (· ≠ 0)).length

def Js.convertString : Js → DecodeM (List UInt8)
  | .string utf8 =>
    if strlen utf8 ≠ utf8.length then
      typeError "cannot convert argument with null characters to string"
    else .ok utf8
  | _ => typeError "cannot convert argument to string"

/-- `convert_string(array->Get(i))`; the handle is empty if the read threw. -/
def convertElement : Option Js → DecodeM (List UInt8)
  | some value => Js.convertString value
  | none => .error .emptyHandle

def convertArray (value : Js) (allowEmpty : Bool) : DecodeM (List (List UInt8)) :=
  match value with
  | .undefined => if allowEmpty then .ok [] else typeError ""
  | .string utf8 => (Js.convertString (.string utf8)).map fun s => [s]
  | .object (some elements) _ => elements.mapM convertElement
  | _ => typeError ""

def convertOptions : Js → DecodeM (Option (String → Option Js))
  | .undefined => .ok none
  | .object _ get => .ok (some get)
  | _ => typeError ""

/-- What the decoders of options share. -/
def convertOption {R : Type} (options : Option (String → Option Js)) (key : String)
    (defaultValue : R) (decode : Js → DecodeM R) : DecodeM R :=
  match options with
  | none => .ok defaultValue
  | some get => do
    match ← getProperty get key with
    | .undefined => return defaultValue
    | value => decode value

def numberValue : Js → DecodeM Int
  | .number x => .ok x.int32Value
  | _ => typeError ""

def boolValue : Js → DecodeM Bool
  | .boolean b => .ok b
  | _ => typeError ""

/-- `static_cast<svn::depth>(value->Int32Value())` -/
def depthValue : Js → DecodeM Int
  | .number x => .ok x.int32Value
  | _ => typeError ""

variable (before : UnionMemory)

/-- The value of a revision option; the union is made in memory that held `before`. -/
def revisionValue : Js → DecodeM Revision
  | .number x => (Revision.ofKind (RevisionKind.ofCode x.int32Value)).mapError .exn
  | .object _ get => do
    match ← getProperty get "number" with
    | .number n => return .ofNumber before n.int32Value
    | .undefined =>
      match ← getProperty get "date" with
      | .number d => return .ofDate d.integerValue
      | _ => typeError ""
    | _ => typeError ""
  | _ => typeError ""

def convertNumber (options : Option (String → Option Js)) (key : String) (defaultValue : Int) :
    DecodeM Int := convertOption options key defaultValue numberValue

def convertBool (options : Option (String → Option Js)) (key : String) (defaultValue : Bool) :
    DecodeM Bool := convertOption options key defaultValue boolValue

def convertDepth (options : Option (String → Option Js)) (key : String) (defaultValue : Int) :
    DecodeM Int := convertOption options key defaultValue depthValue

def convertRevision (options : Option (String → Option Js)) (key : String)
    (defaultValue : Revision) : DecodeM Revision :=
  convertOption options key defaultValue (revisionValue before)

def convertArrayOption (options : Option (String → Option Js)) (key : String) :
    DecodeM (List (List UInt8)) :=
  convertOption options key [] fun value => convertArray value true

/-- `svn::revision(svn::revision_kind::unspecified)` -/
def Revision.unspecified : Revision := ⟨.unspecified, .writeInt64 0⟩

def convertRevisionRange : Option Js → DecodeM (Revision × Revision)
  | some (.object _ get) => do
    let start ← convertRevision before (some get) "start" .unspecified
    if start.kind = .unspecified then typeError ""
    else do
      let last ← convertRevision before (some get) "end" .unspecified
      if last.kind = .unspecified then typeError "" else return (start, last)
  | _ => typeError ""

/-- The value of `revision_ranges`. -/
def rangesValue : Js → DecodeM (List (Revision × Revision))
  | .object (some elements) _ => elements.mapM (convertRevisionRange before)
  | .object none get => (convertRevisionRange before (some (.object none get))).map fun r => [r]
  | _ => .ok []

def convertRevisionRanges (options : Option (String → Option Js)) (key : String) :
    DecodeM (Option (List (Revision × Revision))) :=
  convertOption options key none fun value => (rangesValue before value).map some

/-! ## The methods -/

/-- A decoder, for a value that is not undefined. -/
inductive Decoder where
  | string
  | array
  | number
  | boolean
  | depth
  | revision
  | revisionRanges
  deriving DecidableEq, Repr

abbrev Decoder.Result : Decoder → Type
  | .string => List UInt8
  | .array => List (List UInt8)
  | .number => Int
  | .boolean => Bool
  | .depth => Int
  | .revision => Revision
  | .revisionRanges => List (Revision × Revision)

def decode : (d : Decoder) → Js → DecodeM d.Result
  | .string, value => Js.convertString value
  | .array, value => convertArray value false
  | .number, value => numberValue value
  | .boolean, value => boolValue value
  | .depth, value => depthValue value
  | .revision, value => revisionValue before value
  | .revisionRanges, value => rangesValue before value

/-- What a job captures; `none` is an option that has no value and no default. -/
abbrev Decoded := Σ d : Decoder, Option d.Result

inductive OptionDecoder where
  | number (key : String) (defaultValue : Int)
  | boolean (key : String) (defaultValue : Bool)
  | depth (key : String) (defaultValue : Int)
  | array (key : String)
  | revision (key : String) (defaultValue : UnionMemory → Revision)
  | revisionRanges (key : String)

namespace OptionDecoder

def key : OptionDecoder → String
  | number key _ => key
  | boolean key _ => key
  | depth key _ => key
  | array key => key
  | revision key _ => key
  | revisionRanges key => key

def decoder : OptionDecoder → Decoder
  | number .. => .number
  | boolean .. => .boolean
  | depth .. => .depth
  | array _ => .array
  | revision .. => .revision
  | revisionRanges _ => .revisionRanges

def run (options : Option (String → Option Js)) : OptionDecoder → DecodeM Decoded
  | number key d => (convertNumber options key d).map fun r => ⟨.number, some r⟩
  | boolean key d => (convertBool options key d).map fun r => ⟨.boolean, some r⟩
  | depth key d => (convertDepth options key d).map fun r => ⟨.depth, some r⟩
  | array key => (convertArrayOption options key).map fun r => ⟨.array, some r⟩
  | revision key d =>
    (convertRevision before options key (d before)).map fun r => ⟨.revision, some r⟩
  | revisionRanges key => (convertRevisionRanges before options key).map fun r =>
    ⟨.revisionRanges, r⟩

end OptionDecoder

/-- `convert_array(value, false)` or `convert_string(value)`. -/
inductive ArgumentDecoder where
  | array
  | string
  deriving DecidableEq, Repr

namespace ArgumentDecoder

def decoder : ArgumentDecoder → Decoder
  | array => .array
  | string => .string

def run (value : Js) : ArgumentDecoder → DecodeM Decoded
  | array => (convertArray value false).map fun r => ⟨.array, some r⟩
  | string => (Js.convertString value).map fun r => ⟨.string, some r⟩

end ArgumentDecoder

namespace Method

/-- The decoders of `args[0]`, `args[1]`, ... -/
def arguments : Method → List ArgumentDecoder
  | .addToChangelist => [.array, .string]
  | .getChangelists => [.string]
  | .removeFromChangelists => [.array]
  | .add => [.string]
  | .blame => [.string]
  | .cat => [.string]
  | .checkout => [.string, .string]
  | .cleanup => [.string]
  | .commit => [.array, .string]
  | .info => [.string]
  | .log => [.array]
  | .remove => [.array]
  | .resolve => [.string]
  | .revert => [.array]
  | .status => [.string]
  | .update => [.array]
  | .getWorkingCopyRoot => [.string]

def keyword (kind : RevisionKind) : UnionMemory → Revision := fun _ => ⟨kind, .writeInt64 0⟩

/-- The decoders of the options, which are the next argument; `none` if it is not read. -/
def options : Method → Option (List OptionDecoder)
  | .addToChangelist => some [.depth "depth" 3, .array "changelists"]
  | .getChangelists => some [.depth "depth" 3, .array "changelists"]
  | .removeFromChangelists => some [.depth "depth" 3, .array "changelists"]
  | .add => some [.depth "depth" 3]
  | .blame => some [.revision "start_revision" fun before => .ofNumber before 0,
      .revision "end_revision" (keyword .head), .revision "peg_revision" (keyword .unspecified)]
  | .cat => some [.revision "peg_revision" (keyword .unspecified),
      .revision "revision" (keyword .unspecified)]
  | .checkout => some [.revision "peg_revision" (keyword .head),
      .revision "revision" (keyword .head), .depth "depth" 3]
  | .cleanup => none
  | .commit => none
  | .info => some [.revision "peg_revision" (keyword .unspecified),
      .revision "revision" (keyword .unspecified), .depth "depth" 0]
  | .log => some [.revision "peg_revision" (keyword .unspecified),
      .revisionRanges "revision_ranges", .number "limit" 0]
  | .remove => some [.boolean "force" true, .boolean "keep_local" false]
  | .resolve => none
  | .revert => none
  | .status => some [.revision "revision" (keyword .working), .depth "depth" 3,
      .boolean "ignore_externals" false]
  | .update => some [.revision "revision" (keyword .head)]
  | .getWorkingCopyRoot => none

end Method

def decodeArguments (m : Method) (args : Nat → Js) : DecodeM (List Decoded) := do
  let arguments ← m.arguments.zipIdx.mapM fun p => p.1.run (args p.2)
  match m.options with
  | none => return arguments
  | some decoders => do
    let options ← convertOptions (args m.arguments.length)
    let values ← decoders.mapM (OptionDecoder.run before options)
    return arguments ++ values

structure QueuedJob where
  method : Method
  captured : List Decoded

/-- The call of a method, up to `uv::queue_work`. -/
def callMethod (m : Method) (args : Nat → Js) (queue : List QueuedJob) :
    Except DecodeFailure Unit × List QueuedJob :=
  match decodeArguments before m args with
  | .ok captured => (.ok (), queue ++ [⟨m, captured⟩])
  | .error e => (.error e, queue)

/-! ## What a revision asks for -/

/-- The property of a revision that its decoder reads. -/
inductive RevisionRequest where
  | keyword (x : JsNumber)
  | number (n : JsNumber)
  | date (d : JsNumber)
  deriving DecidableEq

def Js.request : Js → Option RevisionRequest
  | .number x => some (.keyword x)
  | .object _ get =>
    match get "number" with
    | some (.number n) => some (.number n)
    | some .undefined =>
      match get "date" with
      | some (.number d) => some (.date d)
      | _ => none
    | _ => none
  | _ => none

namespace RevisionRequest

def revision : RevisionRequest → Except Exn Revision
  | keyword x => Revision.ofKind (RevisionKind.ofCode x.int32Value)
  | number n => .ok (.ofNumber before n.int32Value)
  | date d => .ok (.ofDate d.integerValue)

/-- The number is that of a keyword, once it is an `int32_t`. -/
def accepted : RevisionRequest → Bool
  | keyword x => (RevisionKind.ofCode x.int32Value).any RevisionKind.isKeyword
  | _ => true

end RevisionRequest

section Revisions

variable {before : UnionMemory} {v : Js} {r : Revision} {q : RevisionRequest}

theorem revisionValue_some (h : v.request = some q) :
    revisionValue before v = (q.revision before).mapError .exn := by
  cases v with
  | number x =>
    obtain rfl := Option.some.inj h
    rfl
  | object elements get =>
    simp only [Js.request] at h
    simp only [revisionValue, getProperty]
    split at h
    · rename_i n hn
      obtain rfl := Option.some.inj h
      rw [hn]
      rfl
    · rename_i hn
      split at h
      · rename_i d hd
        obtain rfl := Option.some.inj h
        rw [hn, hd]
        rfl
      · cases h
    · cases h
  | _ => cases h

theorem revisionValue_none (before : UnionMemory) (h : v.request = none) :
    ∃ e, revisionValue before v = .error (.exn e) := by
  cases v with
  | number x => cases h
  | object elements get =>
    simp only [Js.request] at h
    simp only [revisionValue, getProperty]
    cases hn : get "number" with
    | none => exact ⟨_, rfl⟩
    | some number =>
      rw [hn] at h
      cases number with
      | number n => cases h
      | undefined =>
        cases hd : get "date" with
        | none => exact ⟨_, rfl⟩
        | some date =>
          rw [hd] at h
          cases date with
          | number d => cases h
          | _ => exact ⟨_, rfl⟩
      | _ => exact ⟨_, rfl⟩
  | _ => exact ⟨_, rfl⟩

theorem revisionValue_eq_ok :
    revisionValue before v = .ok r ↔ ∃ q, v.request = some q ∧ q.revision before = .ok r := by
  cases h : v.request with
  | none =>
    obtain ⟨e, he⟩ := revisionValue_none before h
    rw [he]
    simp
  | some q =>
    rw [revisionValue_some h, Except.mapError_eq_ok_iff]
    simp

/-- A revision is rejected with an exception. -/
theorem revisionValue_eq_error {f : DecodeFailure} (h : revisionValue before v = .error f) :
    ∃ e, f = .exn e := by
  cases hq : v.request with
  | none =>
    obtain ⟨e, he⟩ := revisionValue_none before hq
    exact ⟨e, (Except.error.inj (he.symm.trans h)).symm⟩
  | some q =>
    rw [revisionValue_some hq] at h
    cases hr : q.revision before with
    | ok r =>
      rw [hr] at h
      cases h
    | error e =>
      rw [hr] at h
      exact ⟨e, (Except.error.inj h).symm⟩

theorem RevisionRequest.accepted_iff :
    q.accepted = true ↔ ∃ r, q.revision before = .ok r := by
  cases q with
  | number n => exact ⟨fun _ => ⟨_, rfl⟩, fun _ => rfl⟩
  | date d => exact ⟨fun _ => ⟨_, rfl⟩, fun _ => rfl⟩
  | keyword x =>
    unfold accepted revision
    constructor
    · intro h
      obtain ⟨kind, hkind, hkeyword⟩ := (Option.any_eq_true _ _).mp h
      exact ⟨_, Revision.ofKind_eq_ok.mpr ⟨kind, hkeyword, ofCode_eq_some.mp hkind, rfl⟩⟩
    · rintro ⟨r, hr⟩
      obtain ⟨kind, hkeyword, hcode, -⟩ := Revision.ofKind_eq_ok.mp hr
      show Option.any RevisionKind.isKeyword (RevisionKind.ofCode x.int32Value) = true
      rw [ofCode_eq_some.mpr hcode]
      exact hkeyword

/-- A range is an object whose ends are specified revisions. -/
theorem convertRevisionRange_eq_ok {item : Option Js} {p : Revision × Revision} :
    convertRevisionRange before item = .ok p ↔
      ∃ elements get, item = some (.object elements get) ∧
        (convertRevision before (some get) "start" .unspecified = .ok p.1 ∧
          p.1.kind ≠ .unspecified) ∧
        convertRevision before (some get) "end" .unspecified = .ok p.2 ∧
          p.2.kind ≠ .unspecified := by
  constructor
  · intro h
    unfold convertRevisionRange at h
    split at h
    · rename_i elements get
      obtain ⟨start, hstart, h⟩ := Except.bind_eq_ok_iff.mp h
      split at h
      · cases h
      · rename_i hs
        obtain ⟨last, hlast, h⟩ := Except.bind_eq_ok_iff.mp h
        split at h
        · cases h
        · rename_i hl
          obtain rfl := Except.pure_eq_ok_iff.mp h
          exact ⟨elements, get, rfl, ⟨hstart, hs⟩, hlast, hl⟩
    · cases h
  · rintro ⟨elements, get, rfl, ⟨hstart, hs⟩, hlast, hl⟩
    simp only [convertRevisionRange, hstart, Except.ok_bind, if_neg hs, hlast, if_neg hl]
    rfl

end Revisions

/-! ## The values of a job -/

section Jobs

variable {before : UnionMemory} {m : Method} {args : Nat → Js} {v : Js}

/-- The method gives `v` to decoder `d`. -/
inductive Method.Reads (m : Method) (args : Nat → Js) : Decoder → Js → Prop where
  | argument {i : Nat} {a : ArgumentDecoder} (h : m.arguments[i]? = some a) :
    Reads m args a.decoder (args i)
  | option {decoders : List OptionDecoder} {elements : Option (List (Option Js))}
    {get : String → Option Js} {o : OptionDecoder} {v : Js} (hd : m.options = some decoders)
    (ha : args m.arguments.length = .object elements get) (ho : o ∈ decoders)
    (hv : get o.key = some v) : Reads m args o.decoder v

theorem convertOption_some {R : Type} {get : String → Option Js} {key : String} {d : R}
    {f : Js → DecodeM R} (hv : get key = some v) (hne : v ≠ .undefined) :
    convertOption (some get) key d f = f v := by
  simp only [convertOption, getProperty, hv]
  cases v with
  | undefined => exact absurd rfl hne
  | _ => rfl

/-- A required array and an optional one differ in undefined only. -/
theorem convertArray_eq (hne : v ≠ .undefined) : convertArray v true = convertArray v false := by
  cases v with
  | undefined => exact absurd rfl hne
  | object elements get => cases elements <;> rfl
  | _ => rfl

theorem OptionDecoder.run_eq_ok {get : String → Option Js} {o : OptionDecoder} {x : Decoded}
    (h : o.run before (some get) = .ok x) (hv : get o.key = some v) (hne : v ≠ .undefined) :
    ∃ r, decode before o.decoder v = .ok r ∧ x = ⟨o.decoder, some r⟩ := by
  cases o with
  | revisionRanges key =>
    obtain ⟨r, hr, rfl⟩ := Except.map_eq_ok_iff.mp h
    obtain ⟨l, hl, rfl⟩ := Except.map_eq_ok_iff.mp ((convertOption_some hv hne).symm.trans hr)
    exact ⟨l, hl, rfl⟩
  | array key =>
    obtain ⟨r, hr, rfl⟩ := Except.map_eq_ok_iff.mp h
    have hdecode := (convertOption_some hv hne).symm.trans hr
    rw [convertArray_eq hne] at hdecode
    exact ⟨r, hdecode, rfl⟩
  | _ =>
    obtain ⟨r, hr, rfl⟩ := Except.map_eq_ok_iff.mp h
    exact ⟨r, (convertOption_some hv hne).symm.trans hr, rfl⟩

theorem ArgumentDecoder.run_eq_ok (before : UnionMemory) {a : ArgumentDecoder} {x : Decoded}
    (h : a.run v = .ok x) :
    ∃ r, decode before a.decoder v = .ok r ∧ x = ⟨a.decoder, some r⟩ := by
  cases a with
  | array =>
    obtain ⟨r, hr, rfl⟩ := Except.map_eq_ok_iff.mp h
    exact ⟨r, hr, rfl⟩
  | string =>
    obtain ⟨r, hr, rfl⟩ := Except.map_eq_ok_iff.mp h
    exact ⟨r, hr, rfl⟩

/-- Each value that the method reads is decoded, or it is an option that is undefined. -/
theorem decodeArguments_eq_ok {captured : List Decoded} {d : Decoder}
    (h : decodeArguments before m args = .ok captured) (hr : m.Reads args d v)
    (hne : v ≠ .undefined) : ∃ r, decode before d v = .ok r ∧ ⟨d, some r⟩ ∈ captured := by
  unfold decodeArguments at h
  obtain ⟨arguments, hargs, h⟩ := Except.bind_eq_ok_iff.mp h
  have hall := Except.mapM_eq_ok_iff.mp hargs
  cases hr with
  | @argument i a ha =>
    have hmem : (a, i) ∈ m.arguments.zipIdx := List.mem_zipIdx_iff_getElem?.mpr ha
    obtain ⟨x, hx, hrun⟩ := exists_of_forall₂ hall hmem
    obtain ⟨r, hdecode, rfl⟩ := ArgumentDecoder.run_eq_ok before hrun
    refine ⟨r, hdecode, ?_⟩
    cases ho : m.options with
    | none =>
      rw [ho] at h
      obtain rfl := Except.pure_eq_ok_iff.mp h
      exact hx
    | some decoders =>
      rw [ho] at h
      obtain ⟨options, -, h⟩ := Except.bind_eq_ok_iff.mp h
      obtain ⟨values, -, h⟩ := Except.bind_eq_ok_iff.mp h
      obtain rfl := Except.pure_eq_ok_iff.mp h
      exact List.mem_append_left _ hx
  | @option decoders elements get o v hd ha ho hv =>
    rw [hd] at h
    obtain ⟨options, hoptions, h⟩ := Except.bind_eq_ok_iff.mp h
    obtain ⟨values, hvalues, h⟩ := Except.bind_eq_ok_iff.mp h
    obtain rfl := Except.pure_eq_ok_iff.mp h
    rw [ha] at hoptions
    obtain rfl := Except.ok.inj hoptions
    obtain ⟨x, hx, hrun⟩ := exists_of_forall₂ (Except.mapM_eq_ok_iff.mp hvalues) ho
    obtain ⟨r, hdecode, rfl⟩ := OptionDecoder.run_eq_ok hrun hv hne
    exact ⟨r, hdecode, List.mem_append_right _ hx⟩

/-- **A job is queued only if each value was decoded, and captures what that gave.** -/
theorem callMethod_queued {queue : List QueuedJob} {d : Decoder}
    (h : (callMethod before m args queue).2 ≠ queue) (hr : m.Reads args d v)
    (hne : v ≠ .undefined) :
    ∃ captured r, (callMethod before m args queue).2 = queue ++ [⟨m, captured⟩] ∧
      decode before d v = .ok r ∧ ⟨d, some r⟩ ∈ captured := by
  unfold callMethod at h ⊢
  cases hc : decodeArguments before m args with
  | error e =>
    rw [hc] at h
    exact absurd rfl h
  | ok captured =>
    obtain ⟨r, hdecode, hmem⟩ := decodeArguments_eq_ok hc hr hne
    exact ⟨captured, r, rfl, hdecode, hmem⟩

end Jobs

end NodeSvn
