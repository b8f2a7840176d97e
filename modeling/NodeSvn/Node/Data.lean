import NodeSvn.Lib.Fuel
import NodeSvn.Lib.Utf8
import NodeSvn.Node.Js

/-!
# `no::data` and the overload that a call of it selects

`v8.hpp` declares thirteen functions `data` beside four templates.  T occurs in no parameter
of the templates, so `no::data(..)` without `<..>` never selects one.  A body sees what is
declared above it, and itself:

    data(optional<string>, type)   calls data(string, type)   which is itself again
    data(optional<int32_t>&)       calls data(int32_t)
    data(int64_t)                  calls data(string) or data(int32_t)

So `no::data` of one argument returns, unless it is a present `optional<string>`
(`data_diverges_iff`).
-/

namespace NodeSvn

/-! ## Overload resolution -/

/-- The types of arguments and parameters; a reference is as its object. -/
inductive CppType where
  | stdString
  | stringView
  | optionalString
  | charPointer
  | newStringType
  | bool
  | int32
  /-- an lvalue that is not const -/
  | optionalInt32
  | uint32
  | int64
  | double
  | voidPointer
  /-- to an object, and not to const -/
  | objectPointer
  deriving DecidableEq, Repr

/-- The kinds of implicit conversion, the best first. -/
inductive Rank where
  | exact
  | promotion
  | conversion
  /-- of a pointer to `bool`, which is worse than its other conversions -/
  | boolean
  | userDefined
  deriving DecidableEq, Repr

def Rank.index : Rank → Nat
  | .exact => 0
  | .promotion => 1
  | .conversion => 2
  | .boolean => 3
  | .userDefined => 4

def CppType.isArithmetic : CppType → Bool
  | .bool => true
  | .int32 => true
  | .uint32 => true
  | .int64 => true
  | .double => true
  | _ => false

/-- The implicit conversion of an argument to a parameter, if there is one.  `string_view`
converts to no `string`, and `optional` to no `bool`: these are explicit. -/
def conversion (arg param : CppType) : Option Rank :=
  if arg = param then some .exact
  else
    match arg, param with
    | .bool, .int32 => some .promotion
    | .stdString, .stringView => some .userDefined
    | .stdString, .optionalString => some .userDefined
    | .charPointer, .stdString => some .userDefined
    | .charPointer, .stringView => some .userDefined
    | .charPointer, .optionalString => some .userDefined
    | .charPointer, .bool => some .boolean
    | .voidPointer, .bool => some .boolean
    | .objectPointer, .bool => some .boolean
    | .objectPointer, .voidPointer => some .conversion
    | _, _ => if arg.isArithmetic ∧ param.isArithmetic then some .conversion else none

inductive NewStringType where
  | normal
  | internalized
  deriving DecidableEq, Repr

inductive CppValue where
  | stdString (s : List UInt8)
  | stringView (s : List UInt8)
  | optionalString (s : Option (List UInt8))
  | charPointer (s : CStr)
  | newStringType (type : NewStringType)
  | bool (b : Bool)
  | int32 (n : Int)
  | optionalInt32 (n : Option Int)
  | uint32 (n : Int)
  | int64 (n : Int)
  | double (x : JsNumber)
  | voidPointer (address : Nat)
  | objectPointer (address : Nat)

def CppValue.type : CppValue → CppType
  | .stdString _ => .stdString
  | .stringView _ => .stringView
  | .optionalString _ => .optionalString
  | .charPointer _ => .charPointer
  | .newStringType _ => .newStringType
  | .bool _ => .bool
  | .int32 _ => .int32
  | .optionalInt32 _ => .optionalInt32
  | .uint32 _ => .uint32
  | .int64 _ => .int64
  | .double _ => .double
  | .voidPointer _ => .voidPointer
  | .objectPointer _ => .objectPointer

/-- The initialisation of a parameter.  No call of `no::data` needs another conversion. -/
def CppValue.convertTo (param : CppType) (v : CppValue) : Option CppValue :=
  if v.type = param then some v
  else
    match param, v with
    | .stringView, .stdString s => some (.stringView s)
    | .optionalString, .stdString s => some (.optionalString (some s))
    | .voidPointer, .objectPointer address => some (.voidPointer address)
    | _, _ => none

/-- The functions `data`, by what follows the isolate. -/
inductive Overload where
  | string
  | stringView
  | optionalString
  | chars
  | charsTyped
  | charsSized
  | bool
  | int32
  | optionalInt32
  | uint32
  | int64
  | double
  | pointer
  deriving DecidableEq, Repr

namespace Overload

/-- In the order of `v8.hpp`. -/
def all : List Overload :=
  [.string, .stringView, .optionalString, .chars, .charsTyped, .charsSized, .bool, .int32,
    .optionalInt32, .uint32, .int64, .double, .pointer]

/-- What the body of an overload can call. -/
def visible (o : Overload) : List Overload := all.takeWhile (· ≠ o) ++ [o]

def params : Overload → List CppType
  | .string => [.stdString]
  | .stringView => [.stringView]
  | .optionalString => [.optionalString, .newStringType]
  | .chars => [.charPointer]
  | .charsTyped => [.charPointer, .newStringType, .int32]
  | .charsSized => [.charPointer, .int32, .newStringType]
  | .bool => [.bool]
  | .int32 => [.int32]
  | .optionalInt32 => [.optionalInt32]
  | .uint32 => [.uint32]
  | .int64 => [.int64]
  | .double => [.double]
  | .pointer => [.voidPointer]

/-- The default arguments of the last parameters. -/
def defaults : Overload → List CppValue
  | .optionalString => [.newStringType .normal]
  | .charsTyped => [.int32 (-1)]
  | .charsSized => [.newStringType .normal]
  | _ => []

/-- The conversions of the arguments, if the overload is viable. -/
def ranks (o : Overload) (args : List CppType) : Option (List Rank) :=
  if args.length ≤ o.params.length ∧ o.params.length ≤ args.length + o.defaults.length then
    (args.zip o.params).mapM fun p => conversion p.1 p.2
  else none

end Overload

/-- No argument converts worse, and one converts better. -/
def better (r s : List Rank) : Bool :=
  (r.zip s).all (fun p => p.1.index ≤ p.2.index) && (r.zip s).any fun p => p.1.index < p.2.index

/-- The viable overload that is better than each other one. -/
def resolve (visible : List Overload) (args : List CppType) : Option Overload :=
  visible.find? fun o =>
    match o.ranks args with
    | none => false
    | some r =>
      visible.all fun p =>
        p = o ||
          match p.ranks args with
          | none => true
          | some s => better r s

/-! ## The bodies -/

inductive JsData where
  | undefined
  | string (s : String)
  | boolean (b : Bool)
  | number (x : JsNumber)
  | external (address : Nat)
  deriving DecidableEq

/-- How a call ends that does not return. -/
inductive Stop where
  | thrown (e : Exn)
  /-- `ToLocalChecked` of an empty handle, or a read through `NULL` -/
  | aborted
  /-- The loop thread waits for good. -/
  | blocked
  /-- There is no such program. -/
  | illFormed

/-- Code that may stop or never end: `none` is that it takes more calls than were allowed. -/
abbrev PathM := ExceptT Stop Option

def PathM.stop {α : Type} (s : Stop) : PathM α := ExceptT.mk (some (.error s))

theorem PathM.bind_eq_pure_iff {α β : Type} {x : PathM α} {f : α → PathM β} {b : β} :
    x >>= f = pure b ↔ ∃ a, x = pure a ∧ f a = pure b := by
  constructor
  · intro h
    match x, h with
    | some (.ok a), h => exact ⟨a, rfl, h⟩
  · rintro ⟨a, rfl, h⟩
    exact h

theorem PathM.pure_inj {α : Type} {a b : α} (h : (pure a : PathM α) = pure b) : a = b :=
  Except.ok.inj (Option.some.inj h)

structure DataCall where
  visible : List Overload
  args : List CppValue

/-- `std::to_string` -/
def toStdString (n : Int) : CppValue := .stdString (toString n).utf8

/-- The parameters of a call: its arguments, and the defaults of those it leaves out. -/
def Overload.bind (o : Overload) (args : List CppValue) : Option (List CppValue) := do
  let converted ← (args.zip o.params).mapM fun p => p.1.convertTo p.2
  return converted ++ o.defaults.drop (args.length + o.defaults.length - o.params.length)

/-- `v8::String::NewFromUtf8`, of the bytes, the type and the size; an empty handle is `none`. -/
abbrev NewFromUtf8 := List UInt8 → NewStringType → Int → Option String

section Data

variable (newFromUtf8 : NewFromUtf8)

def newString (value : List UInt8) (type : NewStringType) (size : Int) (empty : Stop) :
    Except Stop JsData :=
  match newFromUtf8 value type size with
  | some s => .ok (.string s)
  | none => .error empty

/-- The call in tail position, or what the body returns. -/
def Overload.body : Overload → List CppValue → DataCall ⊕ Except Stop JsData
  | .string, [.stdString s] =>
    .inr (newString newFromUtf8 s .normal (toInt32 s.length) (.thrown (.runtimeError "")))
  | .stringView, [.stringView s] =>
    .inr (newString newFromUtf8 s .normal (toInt32 s.length) (.thrown (.runtimeError "")))
  | .optionalString, [.optionalString (some s), .newStringType type] =>
    .inl ⟨Overload.optionalString.visible, [.stdString s, .newStringType type]⟩
  | .optionalString, [.optionalString none, .newStringType _] => .inr (.ok .undefined)
  | .chars, [.charPointer none] => .inr (.ok .undefined)
  | .chars, [.charPointer (some s)] => .inr (newString newFromUtf8 s .normal (-1) .aborted)
  | .charsTyped, [.charPointer none, .newStringType _, .int32 _] => .inr (.ok .undefined)
  | .charsTyped, [.charPointer (some s), .newStringType type, .int32 size] =>
    .inr (newString newFromUtf8 s type size .aborted)
  | .charsSized, [.charPointer none, .int32 _, .newStringType _] => .inr (.error .aborted)
  | .charsSized, [.charPointer (some s), .int32 size, .newStringType type] =>
    .inr (newString newFromUtf8 s type size .aborted)
  | .bool, [.bool b] => .inr (.ok (.boolean b))
  | .int32, [.int32 n] => .inr (.ok (.number (.ofInt n)))
  | .optionalInt32, [.optionalInt32 (some n)] =>
    .inl ⟨Overload.optionalInt32.visible, [.int32 n]⟩
  | .optionalInt32, [.optionalInt32 none] => .inr (.ok .undefined)
  | .uint32, [.uint32 n] => .inr (.ok (.number (.ofInt n)))
  | .int64, [.int64 n] =>
    if n > 2147483647 then .inl ⟨Overload.int64.visible, [toStdString n]⟩
    else .inl ⟨Overload.int64.visible, [.int32 (toInt32 n)]⟩
  | .double, [.double x] => .inr (.ok (.number x))
  | .pointer, [.voidPointer address] => .inr (.ok (.external address))
  | _, _ => .inr (.error .illFormed)

/-- One call of `no::data`. -/
def dataStep (c : DataCall) : DataCall ⊕ Except Stop JsData :=
  match resolve c.visible (c.args.map CppValue.type) with
  | none => .inr (.error .illFormed)
  | some o =>
    match o.bind c.args with
    | none => .inr (.error .illFormed)
    | some params => o.body newFromUtf8 params

/-- `no::data(isolate, value)`, where all overloads are declared. -/
def noData (fuel : Nat) (value : CppValue) : PathM JsData :=
  ExceptT.mk (runFor (dataStep newFromUtf8) fuel ⟨Overload.all, [value]⟩)

/-! ## Which calls return -/

/-- The overload that takes an argument of the type as it is. -/
def CppType.overload : CppType → Option Overload
  | .stdString => some .string
  | .stringView => some .stringView
  | .optionalString => some .optionalString
  | .charPointer => some .chars
  | .newStringType => none
  | .bool => some .bool
  | .int32 => some .int32
  | .optionalInt32 => some .optionalInt32
  | .uint32 => some .uint32
  | .int64 => some .int64
  | .double => some .double
  | .voidPointer => some .pointer
  | .objectPointer => some .pointer

theorem resolve_one (type : CppType) : resolve Overload.all [type] = type.overload := by
  cases type <;> rfl

/-- `const std::string` and a string type convert to `optional<string>`, and to nothing else:
the body of that overload selects the overload itself. -/
theorem resolve_optionalString :
    resolve Overload.optionalString.visible [.stdString, .newStringType] =
      some .optionalString := rfl

variable {newFromUtf8 : NewFromUtf8} {c : DataCall}
  {o : Overload} {params : List CppValue} {next : DataCall ⊕ Except Stop JsData}

theorem dataStep_eq (hresolve : resolve c.visible (c.args.map CppValue.type) = some o)
    (hbind : o.bind c.args = some params) (hbody : o.body newFromUtf8 params = next) :
    dataStep newFromUtf8 c = next := by
  simp only [dataStep, hresolve, hbind, hbody]

/-- The call that the body of `data(optional<string>)` makes is made again by that call. -/
theorem dataStep_optionalString (s : List UInt8) (type : NewStringType) :
    dataStep newFromUtf8 ⟨Overload.optionalString.visible, [.stdString s, .newStringType type]⟩ =
      .inl ⟨Overload.optionalString.visible, [.stdString s, .newStringType type]⟩ :=
  dataStep_eq resolve_optionalString rfl rfl

theorem data_optionalString_diverges (s : List UInt8) :
    Diverges (dataStep newFromUtf8) ⟨Overload.all, [.optionalString (some s)]⟩ := by
  have hcall : dataStep newFromUtf8 ⟨Overload.all, [.optionalString (some s)]⟩ =
      .inl ⟨Overload.optionalString.visible, [.stdString s, .newStringType .normal]⟩ :=
    dataStep_eq (resolve_one .optionalString) rfl rfl
  rw [diverges_next hcall]
  refine diverges_of_invariant
    (· = ⟨Overload.optionalString.visible, [.stdString s, .newStringType .normal]⟩) ?_ rfl
  rintro _ rfl
  exact ⟨_, dataStep_optionalString s .normal, rfl⟩

/-- An `int64_t` is passed on once, as a string or as an `int32_t`. -/
theorem data_int64 (newFromUtf8 : NewFromUtf8) (n : Int) :
    ∃ c r, dataStep newFromUtf8 ⟨Overload.all, [.int64 n]⟩ = .inl c ∧
      dataStep newFromUtf8 c = .inr r := by
  have hstep : dataStep newFromUtf8 ⟨Overload.all, [.int64 n]⟩ =
      if n > 2147483647 then .inl ⟨Overload.int64.visible, [toStdString n]⟩
      else .inl ⟨Overload.int64.visible, [.int32 (toInt32 n)]⟩ :=
    dataStep_eq (resolve_one .int64) rfl rfl
  rw [hstep]
  split
  · exact ⟨_, _, rfl, dataStep_eq (show _ = some .string from rfl) rfl rfl⟩
  · exact ⟨_, _, rfl, dataStep_eq (show _ = some .int32 from rfl) rfl rfl⟩

/-- **A call of one argument ends, unless it is given a present `optional<string>`.** -/
theorem data_diverges_iff (newFromUtf8 : NewFromUtf8)
    (v : CppValue) :
    Diverges (dataStep newFromUtf8) ⟨Overload.all, [v]⟩ ↔ ∃ s, v = .optionalString (some s) := by
  constructor
  · intro h
    cases v with
    | optionalString value =>
      cases value with
      | none =>
        exact absurd h (not_diverges_done (dataStep_eq (resolve_one .optionalString) rfl rfl))
      | some s => exact ⟨s, rfl⟩
    | optionalInt32 value =>
      cases value with
      | none =>
        exact absurd h (not_diverges_done (dataStep_eq (resolve_one .optionalInt32) rfl rfl))
      | some n =>
        rw [diverges_next (dataStep_eq (resolve_one .optionalInt32) rfl rfl)] at h
        exact absurd h (not_diverges_done (dataStep_eq (show _ = some .int32 from rfl) rfl rfl))
    | int64 n =>
      obtain ⟨c, r, hcall, hdone⟩ := data_int64 newFromUtf8 n
      rw [diverges_next hcall] at h
      exact absurd h (not_diverges_done hdone)
    | charPointer value =>
      cases value with
      | none => exact absurd h (not_diverges_done (dataStep_eq (resolve_one .charPointer) rfl rfl))
      | some s =>
        exact absurd h (not_diverges_done (dataStep_eq (resolve_one .charPointer) rfl rfl))
    | newStringType type => exact absurd h (not_diverges_done rfl)
    | _ => exact absurd h (not_diverges_done (dataStep_eq (resolve_one _) rfl rfl))
  · rintro ⟨s, rfl⟩
    exact data_optionalString_diverges s

/-! ## What they give -/

/-- The result of a call of one argument; `none` where it does not end. -/
def CppValue.result (newFromUtf8 : NewFromUtf8) :
    CppValue → Option (Except Stop JsData)
  | .stdString s =>
    some (newString newFromUtf8 s .normal (toInt32 s.length) (.thrown (.runtimeError "")))
  | .stringView s =>
    some (newString newFromUtf8 s .normal (toInt32 s.length) (.thrown (.runtimeError "")))
  | .optionalString none => some (.ok .undefined)
  | .optionalString (some _) => none
  | .charPointer none => some (.ok .undefined)
  | .charPointer (some s) => some (newString newFromUtf8 s .normal (-1) .aborted)
  | .newStringType _ => some (.error .illFormed)
  | .bool b => some (.ok (.boolean b))
  | .int32 n => some (.ok (.number (.ofInt n)))
  | .optionalInt32 none => some (.ok .undefined)
  | .optionalInt32 (some n) => some (.ok (.number (.ofInt n)))
  | .uint32 n => some (.ok (.number (.ofInt n)))
  | .int64 n =>
    some (if n > 2147483647 then
      newString newFromUtf8 (toString n).utf8 .normal (toInt32 (toString n).utf8.length)
        (.thrown (.runtimeError ""))
    else .ok (.number (.ofInt (toInt32 n))))
  | .double x => some (.ok (.number x))
  | .voidPointer address => some (.ok (.external address))
  | .objectPointer address => some (.ok (.external address))

variable {v : CppValue} {r : Except Stop JsData} {fuel : Nat}

theorem noData_done (h : dataStep newFromUtf8 ⟨Overload.all, [v]⟩ = .inr r) :
    noData newFromUtf8 (fuel + 2) v = ExceptT.mk (some r) :=
  runFor_done (n := fuel + 1) h

theorem noData_next {c : DataCall} (h : dataStep newFromUtf8 ⟨Overload.all, [v]⟩ = .inl c)
    (hc : dataStep newFromUtf8 c = .inr r) :
    noData newFromUtf8 (fuel + 2) v = ExceptT.mk (some r) :=
  (runFor_next (n := fuel + 1) h).trans (runFor_done (n := fuel) hc)

/-- No call passes its argument on twice. -/
theorem noData_of_result (h : v.result newFromUtf8 = some r) (fuel : Nat) :
    noData newFromUtf8 (fuel + 2) v = ExceptT.mk (some r) := by
  cases v with
  | optionalString value =>
    cases value with
    | none =>
      cases h
      exact noData_done (dataStep_eq (resolve_one .optionalString) rfl rfl)
    | some s => cases h
  | charPointer value =>
    cases value with
    | none =>
      cases h
      exact noData_done (dataStep_eq (resolve_one .charPointer) rfl rfl)
    | some s =>
      cases h
      exact noData_done (dataStep_eq (resolve_one .charPointer) rfl rfl)
  | optionalInt32 value =>
    cases value with
    | none =>
      cases h
      exact noData_done (dataStep_eq (resolve_one .optionalInt32) rfl rfl)
    | some n =>
      cases h
      exact noData_next (dataStep_eq (resolve_one .optionalInt32) rfl rfl)
        (dataStep_eq (show _ = some .int32 from rfl) rfl rfl)
  | int64 n =>
    cases h
    have hstep : dataStep newFromUtf8 ⟨Overload.all, [.int64 n]⟩ =
        if n > 2147483647 then .inl ⟨Overload.int64.visible, [toStdString n]⟩
        else .inl ⟨Overload.int64.visible, [.int32 (toInt32 n)]⟩ :=
      dataStep_eq (resolve_one .int64) rfl rfl
    by_cases hn : n > 2147483647
    · rw [if_pos hn] at hstep ⊢
      exact noData_next hstep (dataStep_eq (show _ = some .string from rfl) rfl rfl)
    · rw [if_neg hn] at hstep ⊢
      exact noData_next hstep (dataStep_eq (show _ = some .int32 from rfl) rfl rfl)
  | newStringType type =>
    cases h
    exact noData_done rfl
  | _ =>
    cases h
    exact noData_done (dataStep_eq (resolve_one _) rfl rfl)

/-- **What a call of one argument gives.** -/
theorem noData_iff : (∃ fuel, noData newFromUtf8 fuel v = ExceptT.mk (some r)) ↔
    v.result newFromUtf8 = some r := by
  constructor
  · rintro ⟨fuel, hfuel⟩
    cases hr : v.result newFromUtf8 with
    | none =>
      obtain ⟨s, rfl⟩ : ∃ s, v = .optionalString (some s) := by
        cases v with
        | optionalString value =>
          cases value with
          | none => cases hr
          | some s => exact ⟨s, rfl⟩
        | charPointer value => cases value <;> cases hr
        | optionalInt32 value => cases value <;> cases hr
        | _ => cases hr
      have hnone : noData newFromUtf8 fuel (.optionalString (some s)) = ExceptT.mk none :=
        data_optionalString_diverges s fuel
      rw [hnone] at hfuel
      cases hfuel
    | some r' =>
      have hmono : noData newFromUtf8 (fuel + 2) v = ExceptT.mk (some r) :=
        runFor_mono hfuel (Nat.le_add_right fuel 2)
      rw [noData_of_result hr] at hmono
      exact hmono
  · intro h
    exact ⟨2, noData_of_result h 0⟩

example : noData (fun s _ _ => some (decodeUtf8 s)) 2 (.int64 3000000000) =
    pure (.string "3000000000") := by
  rfl

end Data

end NodeSvn
