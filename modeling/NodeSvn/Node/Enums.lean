import NodeSvn.Lib.Decimal
import NodeSvn.Lib.OrdinaryObject
import NodeSvn.Node.Decode
import NodeSvn.Node.Reported

/-!
# The tables of the enumerations

Each enumeration is exported as an object that maps names to numbers and numbers to names:

    set_enum(object, name, value)
      object[name]              = number    ReadOnly | DontDelete
      object[to_string(number)] = name      ReadOnly | DontDelete
    exports[..]                 = object    ReadOnly

A list of enumerators makes such an object if its names and numbers correspond one to one and
no name is a numeral, and otherwise the addon does not load; whatever JS does to the object,
the entries stay (`setEnums_law`).  The object itself can be taken out of `exports`, which is
only read-only (`module_law`).
-/

namespace NodeSvn

/-! ## Objects -/

inductive PropertyKey where
  | string (s : String)
  | symbol (id : Nat)
  deriving DecidableEq

inductive PropertyValue where
  | data (d : JsData)
  /-- an object that the addon made at its initialisation, by its number -/
  | table (index : Nat)
  | function (name : String)
  /-- anything else -/
  | other (id : Nat)
  deriving DecidableEq

instance instInhabitedPropertyValue : Inhabited PropertyValue := ⟨.data .undefined⟩

/-- Getters and setters are functions of JS, or undefined. -/
abbrev JsObject := OrdinaryObject.Object PropertyKey PropertyValue (Option Nat)

abbrev JsOp := OrdinaryObject.Op PropertyKey PropertyValue (Option Nat)

/-! `no::property_attribute` -/

namespace PropertyAttribute

def none : Nat := 0

def readOnly : Nat := 1

def dontEnum : Nat := 2

def dontDelete : Nat := 4

/-- The descriptor that `Object::DefineOwnProperty` makes of its arguments. -/
def descriptor (value : PropertyValue) (flags : Nat) :
    OrdinaryObject.Descriptor PropertyValue (Option Nat) where
  change := .data (some value) (some (flags &&& readOnly = 0))
  enumerable := some (flags &&& dontEnum = 0)
  configurable := some (flags &&& dontDelete = 0)

end PropertyAttribute

/-! ## `set_enum` -/

section SetEnum

variable (newFromUtf8 : NewFromUtf8)

/-- `no::name`; `empty` is how it ends if there is no such string. -/
def noName (value : String) (empty : Stop) : PathM PropertyKey :=
  match newFromUtf8 value.utf8 .internalized (toInt32 value.utf8.length) with
  | some s => pure (.string s)
  | none => ExceptT.mk (some (.error empty))

/-- `operator[](const char (&)[N])` -/
def literalName (value : String) : PathM PropertyKey := noName newFromUtf8 value .aborted

/-- `operator[](const std::string&)` -/
def stringName (value : String) : PathM PropertyKey :=
  noName newFromUtf8 value (.thrown (.runtimeError ""))

/-- `check_result(v8::Maybe<bool>)` -/
def checkDefined : Option JsObject → PathM JsObject
  | some object => pure object
  | none => ExceptT.mk (some (.error (.thrown (.runtimeError ""))))

/-- `reference::set`, of a value that is there. -/
def setReference (object : JsObject) (name : PropertyKey) (value : PropertyValue)
    (flags : Nat) : PathM JsObject :=
  checkDefined (object.defineOwnProperty name (PropertyAttribute.descriptor value flags))

/-- `reference::set`, of a value that `no::data` makes. -/
def setData (fuel : Nat) (object : JsObject) (name : PropertyKey) (input : CppValue)
    (flags : Nat) : PathM JsObject := do
  let value ← noData newFromUtf8 fuel input
  setReference object name (.data value) flags

def setEnum (fuel : Nat) (object : JsObject) (name : String) (value : Int) : PathM JsObject := do
  let number := toInt32 value
  let object ← setData newFromUtf8 fuel object (← literalName newFromUtf8 name) (.int32 number)
    (PropertyAttribute.readOnly ||| PropertyAttribute.dontDelete)
  setData newFromUtf8 fuel object (← stringName newFromUtf8 (toString number))
    (.charPointer (some name.utf8)) (PropertyAttribute.readOnly ||| PropertyAttribute.dontDelete)

/-- The calls of `set_enum` for one object. -/
def setEnums (fuel : Nat) (object : JsObject) (entries : List (String × Int)) : PathM JsObject :=
  entries.foldlM (fun object e => setEnum newFromUtf8 fuel object e.1 e.2) object

end SetEnum

/-! ## The enumerations -/

/-- `svn::conflict_choose` -/
def ConflictChoose.entries : List (String × Int) :=
  [("postpone", 0), ("base", 1), ("theirs_full", 2), ("mine_full", 3), ("theirs_conflict", 4),
    ("mine_conflict", 5), ("merged", 6), ("unspecified", 7)]

/-- `svn::depth`, without `exclude`, which is -1 -/
def Depth.entries : List (String × Int) :=
  [("unknown", -2), ("empty", 0), ("files", 1), ("immediates", 2), ("infinity", 3)]

/-- `svn::node_kind` -/
def NodeKind.entries : List (String × Int) := [("none", 0), ("file", 1), ("dir", 2), ("unknown", 3)]

/-- `svn::notify_action::update_..` -/
def UpdateNotifyAction.entries : List (String × Int) :=
  [("delete", 8), ("add", 9), ("update", 10), ("completed", 11), ("external", 12), ("replace", 31),
    ("started", 41), ("skip_obstruction", 42), ("skip_working_only", 43),
    ("skip_access_denied", 44), ("external_removed", 45), ("shadowed_add", 46),
    ("shadowed_update", 47), ("shadowed_delete", 48)]

/-- `svn::notify_action::commit_..` -/
def CommitNotifyAction.entries : List (String × Int) :=
  [("modified", 15), ("added", 16), ("deleted", 17), ("replaced", 18), ("postfix_txdelta", 19),
    ("finalizing", 79)]

def RevisionKind.name : RevisionKind → String
  | unspecified => "unspecified"
  | number => "number"
  | date => "date"
  | committed => "committed"
  | previous => "previous"
  | base => "base"
  | working => "working"
  | head => "head"

/-- In the order of the enumeration. -/
def RevisionKind.all : List RevisionKind :=
  [unspecified, number, date, committed, previous, base, working, head]

def RevisionKind.entries : List (String × Int) := all.map fun kind => (kind.name, kind.code)

/-- `svn::status_kind`, without `merged`, which is 9 -/
def StatusKind.entries : List (String × Int) :=
  [("none", 1), ("unversioned", 2), ("normal", 3), ("added", 4), ("missing", 5), ("deleted", 6),
    ("replaced", 7), ("modified", 8), ("conflicted", 10), ("ignored", 11), ("obstructed", 12),
    ("external", 13), ("incomplete", 14)]

/-! ## The module -/

/-- `exports`, and the objects that were made for it. -/
structure Module where
  exports : JsObject
  tables : List JsObject

/-- What `initialize` exports. -/
inductive Export where
  | enumeration (name : String) (entries : List (String × Int))
  | function (name : String) (flags : Nat)

/-- In the order of `initialize`, which defines the accessor `version` before. -/
def Export.all : List Export :=
  [.function "Client" PropertyAttribute.readOnly,
    .enumeration "ConflictChoose" ConflictChoose.entries,
    .enumeration "Depth" Depth.entries,
    .enumeration "NodeKind" NodeKind.entries,
    .enumeration "UpdateNotifyAction" UpdateNotifyAction.entries,
    .enumeration "CommitNotifyAction" CommitNotifyAction.entries,
    .function "is_commit_finalize_notify" PropertyAttribute.none,
    .enumeration "RevisionKind" RevisionKind.entries,
    .enumeration "StatusKind" StatusKind.entries,
    .function "create_repos" PropertyAttribute.readOnly]

section Exports

variable (newFromUtf8 : NewFromUtf8)

/-- The `initialize` of one thing. -/
def Export.define (fuel : Nat) (m : Module) : Export → PathM Module
  | .enumeration name entries => do
    let object ← setEnums newFromUtf8 fuel .empty entries
    let exports ← setReference m.exports (← literalName newFromUtf8 name) (.table m.tables.length)
      PropertyAttribute.readOnly
    return ⟨exports, m.tables ++ [object]⟩
  | .function name flags => do
    let exports ← setReference m.exports (← literalName newFromUtf8 name) (.function name) flags
    return { m with exports }

/-- `initialize`, with an object that is new. -/
def initializeModule (fuel : Nat) : PathM Module :=
  Export.all.foldlM (fun m e => e.define newFromUtf8 fuel m) ⟨.empty, []⟩

end Exports

/-- What JS does to one of the objects: to `exports`, or a table. -/
structure ModuleOp where
  target : Option Nat
  op : JsOp

namespace Module

def apply (m : Module) (o : ModuleOp) : Module :=
  match o.target with
  | none => { m with exports := m.exports.apply o.op }
  | some i => { m with tables := m.tables.modify i fun table => table.apply o.op }

def run (m : Module) (os : List ModuleOp) : Module := os.foldl apply m

end Module

/-! ## One table -/

/-- The numbers are those of an `int`. -/
def NumbersFit (entries : List (String × Int)) : Prop :=
  ∀ e ∈ entries, -2147483648 ≤ e.2 ∧ e.2 < 2147483648

/-- Names and numbers correspond one to one, and no name is a numeral. -/
structure Consistent (entries : List (String × Int)) : Prop where
  corresponds : ∀ a ∈ entries, ∀ b ∈ entries, a.1 = b.1 ↔ a.2 = b.2
  numeral : ∀ a ∈ entries, ∀ b ∈ entries, a.1 ≠ toString b.2

/-- What `set_enum` defines. -/
def enumCells (e : String × Int) : List (PropertyKey × PropertyValue) :=
  [(.string e.1, .data (.number (.ofInt e.2))), (.string (toString e.2), .data (.string e.1))]

/-- The object has the names and the numbers as fixed properties. -/
def HasEntries (object : JsObject) (entries : List (String × Int)) : Prop :=
  ∀ e ∈ entries, ∀ c ∈ enumCells e, object.getOwn c.1 = some (.fixed c.2)

section Tables

variable {newFromUtf8 : NewFromUtf8} {maxLength : Nat}
  {object : JsObject} {entries : List (String × Int)} {n : Int}

theorem utf8ByteSize_int32_le (h : -2147483648 ≤ n) (h' : n < 2147483648) :
    (toString n).utf8ByteSize ≤ 80 := by
  by_cases hn : 0 ≤ n
  · rw [← String.length_utf8]
    exact length_toString_le hn (by omega)
  · have hrepr := Nat.utf8ByteSize_repr_le 9 (show (-n).toNat < 10 ^ 10 by omega)
    rw [Int.toString_eq_repr, Int.repr_eq_if, if_neg hn, String.utf8ByteSize_append]
    have hminus : "-".utf8ByteSize = 1 := rfl
    omega

theorem noName_eq (h8 : V8Strings newFromUtf8 maxLength) {value : String}
    (hfits : value.utf8ByteSize ≤ maxLength) (empty : Stop) :
    noName newFromUtf8 value empty = pure (.string value) := by
  unfold noName
  rw [← String.length_utf8] at hfits
  rw [(h8.takes value .internalized _ (.inr rfl)).mpr hfits]

theorem noData_int32 (fuel : Nat) (n : Int) :
    noData newFromUtf8 (fuel + 1) (.int32 n) = pure (.number (.ofInt n)) :=
  congrArg ExceptT.mk (runFor_done (dataStep_eq (resolve_one .int32) rfl rfl))

theorem noData_chars (h8 : V8Strings newFromUtf8 maxLength) (fuel : Nat) {value : String}
    (hfits : value.utf8ByteSize ≤ maxLength) :
    noData newFromUtf8 (fuel + 1) (.charPointer (some value.utf8)) = pure (.string value) := by
  rw [← String.length_utf8] at hfits
  have hstep : dataStep newFromUtf8 ⟨Overload.all, [.charPointer (some value.utf8)]⟩ =
      .inr (newString newFromUtf8 value.utf8 .normal (-1) .aborted) :=
    dataStep_eq (resolve_one .charPointer) rfl rfl
  refine congrArg ExceptT.mk ((runFor_done hstep).trans ?_)
  rw [newString, (h8.takes value .normal (-1) (.inl rfl)).mpr hfits]
  rfl

/-- The flags of `set_enum` make a property that is fixed. -/
theorem descriptor_fixed (value : PropertyValue) :
    PropertyAttribute.descriptor value
        (PropertyAttribute.readOnly ||| PropertyAttribute.dontDelete) =
      ⟨.data (some value) (some false), some true, some false⟩ := rfl

theorem setReference_absent {key : PropertyKey} (hextensible : object.extensible = true)
    (h : object.getOwn key = none) (value : PropertyValue) (flags : Nat) :
    setReference object key value flags = pure (object.put key
      (some (OrdinaryObject.Property.absent.apply
        (PropertyAttribute.descriptor value flags)))) := by
  unfold setReference
  rw [OrdinaryObject.Object.defineOwnProperty_of_none h, if_pos hextensible]
  rfl

theorem checkDefined_bind (x : Option JsObject) (f : JsObject → Option JsObject) :
    (checkDefined x >>= fun o => checkDefined (f o)) = checkDefined (x.bind f) := by
  cases x <;> rfl

theorem setEnum_eq (h8 : V8Strings newFromUtf8 maxLength) (fuel : Nat) (object : JsObject)
    {name : String} (hname : name.utf8ByteSize ≤ maxLength) (hlow : -2147483648 ≤ n)
    (hhigh : n < 2147483648) :
    setEnum newFromUtf8 (fuel + 1) object name n =
      checkDefined (object.defineAll (enumCells (name, n))) := by
  have hnumber : toInt32 n = n := JsNumber.toInt32_of_range hlow hhigh
  have hnumeral : (toString n).utf8ByteSize ≤ maxLength :=
    (utf8ByteSize_int32_le hlow hhigh).trans h8.room
  unfold setEnum setData literalName stringName setReference
  simp only [hnumber, noName_eq h8 hname, noName_eq h8 hnumeral, noData_int32, noData_chars h8 fuel
    hname, descriptor_fixed, pure_bind, checkDefined_bind]
  refine congrArg checkDefined ?_
  show _ = Option.bind _ _
  refine congrArg _ (funext fun o => ?_)
  exact (bind_pure _).symm

/-- `set_enum` again and again defines its cells one after the other. -/
theorem setEnums_eq (h8 : V8Strings newFromUtf8 maxLength) (fuel : Nat) (object : JsObject)
    (hfits : ∀ e ∈ entries, e.1.utf8ByteSize ≤ maxLength) (hnumbers : NumbersFit entries) :
    setEnums newFromUtf8 (fuel + 1) object entries =
      checkDefined (object.defineAll (entries.flatMap enumCells)) := by
  induction entries generalizing object with
  | nil => rfl
  | cons e entries ih =>
    have hcells : object.defineAll ((e :: entries).flatMap enumCells) =
        (object.defineAll (enumCells e)).bind fun o => o.defineAll (entries.flatMap enumCells) := by
      rw [List.flatMap_cons]
      exact List.foldlM_append
    obtain ⟨hlow, hhigh⟩ := hnumbers e List.mem_cons_self
    have hrest := fun o => ih o (fun e' he' => hfits e' (List.mem_cons_of_mem e he'))
      fun e' he' => hnumbers e' (List.mem_cons_of_mem e he')
    rw [hcells, ← checkDefined_bind]
    show (setEnum newFromUtf8 (fuel + 1) object e.1 e.2 >>= fun o =>
      setEnums newFromUtf8 (fuel + 1) o entries) = _
    rw [setEnum_eq h8 fuel object (hfits e List.mem_cons_self) hlow hhigh]
    exact congrArg _ (funext hrest)

/-- The cells of a table are a function exactly if it is consistent. -/
theorem consistent_iff :
    Consistent entries ↔ ∀ c ∈ entries.flatMap enumCells, ∀ c' ∈ entries.flatMap enumCells,
      c.1 = c'.1 → c.2 = c'.2 := by
  have hmem : ∀ c, c ∈ entries.flatMap enumCells ↔ ∃ e ∈ entries,
      c = (.string e.1, .data (.number (.ofInt e.2))) ∨
      c = (.string (toString e.2), .data (.string e.1)) := by
    intro c
    simp only [List.mem_flatMap, enumCells, List.mem_cons, List.not_mem_nil, or_false]
  constructor
  · intro h c hc c' hc' hkey
    obtain ⟨a, ha, hac⟩ := (hmem c).mp hc
    obtain ⟨b, hb, hbc⟩ := (hmem c').mp hc'
    rcases hac with rfl | rfl
    · rcases hbc with rfl | rfl
      · have hname : a.1 = b.1 := PropertyKey.string.inj hkey
        rw [(h.corresponds a ha b hb).mp hname]
      · exact absurd (PropertyKey.string.inj hkey) (h.numeral a ha b hb)
    · rcases hbc with rfl | rfl
      · exact absurd (PropertyKey.string.inj hkey).symm (h.numeral b hb a ha)
      · have hnumber : a.2 = b.2 := Int.toString_injective (PropertyKey.string.inj hkey)
        rw [(h.corresponds a ha b hb).mpr hnumber]
  · intro h
    have hname : ∀ e ∈ entries, ((.string e.1, .data (.number (.ofInt e.2))) :
        PropertyKey × PropertyValue) ∈ entries.flatMap enumCells :=
      fun e he => (hmem _).mpr ⟨e, he, .inl rfl⟩
    have hnumber : ∀ e ∈ entries, ((.string (toString e.2), .data (.string e.1)) :
        PropertyKey × PropertyValue) ∈ entries.flatMap enumCells :=
      fun e he => (hmem _).mpr ⟨e, he, .inr rfl⟩
    refine ⟨fun a ha b hb => ⟨fun hab => ?_, fun hab => ?_⟩, fun a ha b hb hab => ?_⟩
    · have hvalue := h _ (hname a ha) _ (hname b hb) (congrArg PropertyKey.string hab)
      exact JsNumber.ofInt_inj.mp (JsData.number.inj (PropertyValue.data.inj hvalue))
    · have hvalue := h _ (hnumber a ha) _ (hnumber b hb) (congrArg PropertyKey.string
        (congrArg toString hab))
      exact JsData.string.inj (PropertyValue.data.inj hvalue)
    · have hvalue := h _ (hname a ha) _ (hnumber b hb) (congrArg PropertyKey.string hab)
      cases hvalue

theorem HasEntries.run (h : HasEntries object entries) (ops : List JsOp) :
    HasEntries (object.run ops) entries := by
  intro e he c hc
  have hfixed := OrdinaryObject.Property.fixed_fixed (F := Option Nat) c.2
  exact OrdinaryObject.Object.getOwn_run_of_fixed (h e he c hc) hfixed ops

/-- A new object with the cells of a table, and nothing else. -/
theorem hasEntries_of_defineAll
    (h : OrdinaryObject.Object.empty.defineAll (entries.flatMap enumCells) = some object) :
    HasEntries object entries ∧
      ∀ key p, object.getOwn key = some p → ∃ e ∈ entries, ∃ c ∈ enumCells e,
        key = c.1 ∧ p = .fixed c.2 := by
  obtain ⟨table, htable, hiff⟩ := OrdinaryObject.Object.isTable_empty.of_defineAll h
  constructor
  · intro e he c hc
    have hvalue := (hiff c.1 c.2).mpr (.inr (List.mem_flatMap.mpr ⟨e, he, hc⟩))
    rw [htable.getOwn, hvalue]
    rfl
  · intro key p hp
    rw [htable.getOwn] at hp
    obtain ⟨value, hvalue, rfl⟩ := Option.map_eq_some_iff.mp hp
    rcases (hiff key value).mp hvalue with hnone | hcell
    · cases hnone
    · obtain ⟨e, he, hc⟩ := List.mem_flatMap.mp hcell
      exact ⟨e, he, (key, value), hc, rfl, rfl⟩

theorem setEnums_of_consistent (h8 : V8Strings newFromUtf8 maxLength) (fuel : Nat)
    (hfits : ∀ e ∈ entries, e.1.utf8ByteSize ≤ maxLength) (hnumbers : NumbersFit entries)
    (h : Consistent entries) :
    ∃ object, setEnums newFromUtf8 (fuel + 1) .empty entries = pure object ∧
      HasEntries object entries ∧
      ∀ key p, object.getOwn key = some p → ∃ e ∈ entries, ∃ c ∈ enumCells e,
        key = c.1 ∧ p = .fixed c.2 := by
  have hempty : (OrdinaryObject.Object.empty : JsObject).IsTable fun _ => none :=
    OrdinaryObject.Object.isTable_empty
  obtain ⟨object, hobject⟩ := (hempty.defineAll_iff (entries.flatMap enumCells)).mpr
    ⟨fun _ _ _ h => (by cases h), consistent_iff.mp h⟩
  refine ⟨object, ?_, hasEntries_of_defineAll hobject⟩
  rw [setEnums_eq h8 fuel _ hfits hnumbers, hobject]
  rfl

/-- **A table.**  It is made exactly if its entries are consistent, and the addon does not load
if they are not; it has no other property, and whatever JS does to it, it keeps the entries. -/
theorem setEnums_law (h8 : V8Strings newFromUtf8 maxLength) (fuel : Nat)
    (hfits : ∀ e ∈ entries, e.1.utf8ByteSize ≤ maxLength) (hnumbers : NumbersFit entries) :
    (Consistent entries → ∃ object, setEnums newFromUtf8 (fuel + 1) .empty entries = pure object ∧
      (∀ key p, object.getOwn key = some p → ∃ e ∈ entries, ∃ c ∈ enumCells e,
        key = c.1 ∧ p = .fixed c.2) ∧
      ∀ ops : List JsOp, HasEntries (object.run ops) entries) ∧
    (¬ Consistent entries → setEnums newFromUtf8 (fuel + 1) .empty entries =
      ExceptT.mk (some (.error (.thrown (.runtimeError ""))))) := by
  constructor
  · intro h
    obtain ⟨object, hobject, hhas, honly⟩ := setEnums_of_consistent h8 fuel hfits hnumbers h
    exact ⟨object, hobject, honly, hhas.run⟩
  · intro h
    rw [setEnums_eq h8 fuel _ hfits hnumbers]
    cases hdefine : (OrdinaryObject.Object.empty : JsObject).defineAll
        (entries.flatMap enumCells) with
    | none => rfl
    | some object =>
      have hcells := (OrdinaryObject.Object.isTable_empty.defineAll_iff _).mp ⟨object, hdefine⟩
      exact absurd (consistent_iff.mpr hcells.2) h

end Tables

/-- Two names of one number. -/
theorem setEnums_law_two_names :
    setEnums (.upTo 1073741799) 1 .empty
        [("file", 1), ("symlink", 1)] =
      ExceptT.mk (some (.error (.thrown (.runtimeError "")))) := by
  refine (setEnums_law v8Strings_bound 0 (by decide) ?_).2 fun h => ?_
  · unfold NumbersFit
    decide
  · have hname := (h.corresponds ("file", 1) (by simp) ("symlink", 1) (by simp)).mpr rfl
    exact absurd hname (by decide)

/-! ## The module -/

namespace Export

def name : Export → String
  | enumeration name _ => name
  | function name _ => name

/-- The names are no longer than those of V8, and what `set_enum` is called for is consistent. -/
def Fits (maxLength : Nat) : Export → Prop
  | enumeration name entries => name.utf8ByteSize ≤ maxLength ∧
      (∀ e ∈ entries, e.1.utf8ByteSize ≤ maxLength) ∧ NumbersFit entries ∧ Consistent entries
  | function name _ => name.utf8ByteSize ≤ maxLength

end Export

namespace Module

/-- The module has the table of an enumeration, and so has `exports` it. -/
def Exports (m : Module) (name : String) (entries : List (String × Int)) (i : Nat) : Prop :=
  m.exports.getOwn (.string name) = some ⟨.data (.table i) false, true, true⟩ ∧
    ∃ object, m.tables[i]? = some object ∧ HasEntries object entries ∧
      ∀ key p, object.getOwn key = some p → ∃ e ∈ entries, ∃ c ∈ enumCells e,
        key = c.1 ∧ p = .fixed c.2

/-- What has been exported. -/
structure Exported (m : Module) (es : List Export) : Prop where
  extensible : m.exports.extensible = true
  others : ∀ name, (∀ e ∈ es, e.name ≠ name) → m.exports.getOwn (.string name) = none
  tables : ∀ name entries, .enumeration name entries ∈ es → ∃ i, m.Exports name entries i

variable {newFromUtf8 : NewFromUtf8} {maxLength : Nat}
  {m m' : Module} {es : List Export} {e : Export} {name : String} {entries : List (String × Int)}
  {i : Nat}

/-- Exported objects stay when other names are exported and other objects made. -/
theorem Exports.mono (h : m.Exports name entries i)
    (hexports : m'.exports.getOwn (.string name) = m.exports.getOwn (.string name))
    (htables : m.tables <+: m'.tables) : m'.Exports name entries i := by
  obtain ⟨hname, object, hobject, hrest⟩ := h
  refine ⟨hexports.trans hname, object, ?_, hrest⟩
  obtain ⟨more, hmore⟩ := htables
  rw [← hmore, List.getElem?_append_left (List.getElem?_eq_some_iff.mp hobject).1, hobject]

theorem Exported.define (h8 : V8Strings newFromUtf8 maxLength) (fuel : Nat) (h : m.Exported es)
    (hfits : e.Fits maxLength) (hnew : ∀ e' ∈ es, e'.name ≠ e.name) :
    ∃ m', e.define newFromUtf8 (fuel + 1) m = pure m' ∧ m'.Exported (es ++ [e]) := by
  have habsent := h.others e.name hnew
  have hothers : ∀ (p : OrdinaryObject.Property PropertyValue (Option Nat)) name,
      (∀ e' ∈ es ++ [e], e'.name ≠ name) →
        (m.exports.put (.string e.name) (some p)).getOwn (.string name) = none := by
    intro p name hname
    rw [OrdinaryObject.Object.getOwn_put_of_ne]
    · exact h.others name fun e' he' => hname e' (List.mem_append_left _ he')
    · intro hkey
      exact hname e (List.mem_append_right _ List.mem_cons_self) (PropertyKey.string.inj hkey).symm
  have hold : ∀ (p : OrdinaryObject.Property PropertyValue (Option Nat)) more name entries,
      .enumeration name entries ∈ es → ∃ i,
        (Module.mk (m.exports.put (.string e.name) (some p)) (m.tables ++ more)).Exports name
          entries i := by
    intro p more name entries hmem
    obtain ⟨i, hi⟩ := h.tables name entries hmem
    refine ⟨i, hi.mono (OrdinaryObject.Object.getOwn_put_of_ne (fun hkey => ?_) _)
      (List.prefix_append _ _)⟩
    exact hnew _ hmem (PropertyKey.string.inj hkey)
  cases e with
  | function name flags =>
    have habsent : m.exports.getOwn (.string name) = none := habsent
    refine ⟨⟨m.exports.put (.string name) (some (OrdinaryObject.Property.absent.apply
      (PropertyAttribute.descriptor (.function name) flags))), m.tables⟩, ?_, h.extensible,
      hothers _, ?_⟩
    · show (literalName newFromUtf8 name >>= fun key => setReference m.exports key
        (.function name) flags >>= fun exports => pure { m with exports }) = _
      rw [literalName, noName_eq h8 hfits, pure_bind, setReference_absent h.extensible habsent,
        pure_bind]
    · intro name' entries' hmem
      rcases List.mem_append.mp hmem with hmem | hmem
      · have hexports := hold (OrdinaryObject.Property.absent.apply
          (PropertyAttribute.descriptor (.function name) flags)) [] name' entries' hmem
        rw [List.append_nil] at hexports
        exact hexports
      · cases List.mem_singleton.mp hmem
  | enumeration name entries =>
    have habsent : m.exports.getOwn (.string name) = none := habsent
    obtain ⟨hname, hentries, hnumbers, hconsistent⟩ := hfits
    obtain ⟨object, hobject, hhas, honly⟩ :=
      setEnums_of_consistent h8 fuel hentries hnumbers hconsistent
    refine ⟨⟨m.exports.put (.string name) (some (OrdinaryObject.Property.absent.apply
      (PropertyAttribute.descriptor (.table m.tables.length) PropertyAttribute.readOnly))),
      m.tables ++ [object]⟩, ?_, h.extensible, hothers _, ?_⟩
    · show (setEnums newFromUtf8 (fuel + 1) .empty entries >>= fun object =>
        literalName newFromUtf8 name >>= fun key => setReference m.exports key
          (.table m.tables.length) PropertyAttribute.readOnly >>= fun exports =>
            pure (Module.mk exports (m.tables ++ [object]))) = _
      rw [hobject, pure_bind, literalName, noName_eq h8 hname, pure_bind,
        setReference_absent h.extensible habsent, pure_bind]
    · intro name' entries' hmem
      rcases List.mem_append.mp hmem with hmem | hmem
      · exact hold _ _ name' entries' hmem
      · injection List.mem_singleton.mp hmem with hn he
        subst hn he
        refine ⟨m.tables.length, OrdinaryObject.Object.getOwn_put .., object, ?_, hhas, honly⟩
        rw [List.getElem?_append_right (Nat.le_refl _), Nat.sub_self]
        rfl

/-- Exports with different names are made one after the other. -/
theorem exported_run (h8 : V8Strings newFromUtf8 maxLength) (fuel : Nat) {more : List Export}
    (h : m.Exported es) (hfits : ∀ e ∈ more, e.Fits maxLength)
    (hnames : ((es ++ more).map Export.name).Nodup) :
    ∃ m', more.foldlM (fun m e => e.define newFromUtf8 (fuel + 1) m) m = pure m' ∧
      m'.Exported (es ++ more) := by
  induction more generalizing m es with
  | nil => exact ⟨m, rfl, by rwa [List.append_nil]⟩
  | cons e more ih =>
    have hnew : ∀ e' ∈ es, e'.name ≠ e.name := by
      intro e' he' hsame
      rw [List.map_append, List.map_cons, List.nodup_append] at hnames
      exact hnames.2.2 _ (List.mem_map_of_mem he') _ List.mem_cons_self hsame
    obtain ⟨m₁, hm₁, hexported⟩ := h.define h8 fuel (hfits e List.mem_cons_self) hnew
    obtain ⟨m', hm', hall⟩ := ih hexported (fun e' he' => hfits e' (List.mem_cons_of_mem e he'))
      (by rwa [List.append_assoc])
    refine ⟨m', ?_, by rwa [List.append_assoc] at hall⟩
    rw [List.foldlM_cons, hm₁, pure_bind, hm']

/-! What JS does -/

theorem Exports.run (h : m.Exports name entries i) (os : List ModuleOp) :
    (∃ object, (m.run os).tables[i]? = some object ∧ HasEntries object entries) ∧
      ((∀ o ∈ os, o.target = none → ¬ o.op.Redefines (.string name)) →
        (m.run os).exports.getOwn (.string name) = some ⟨.data (.table i) false, true, true⟩) := by
  suffices hrun : ∀ m : Module, (∃ object, m.tables[i]? = some object ∧ HasEntries object entries) →
      ∃ object, (m.run os).tables[i]? = some object ∧ HasEntries object entries by
    obtain ⟨hname, object, hobject, hhas, -⟩ := h
    refine ⟨hrun m ⟨object, hobject, hhas⟩, fun hos => ?_⟩
    clear hrun hobject hhas
    induction os generalizing m with
    | nil => exact hname
    | cons o os ih =>
      refine ih ?_ fun o' ho' => hos o' (List.mem_cons_of_mem o ho')
      obtain ⟨target, op⟩ := o
      cases target with
      | none =>
        exact OrdinaryObject.Object.getOwn_apply_of_readOnly hname ⟨_, rfl⟩
          (hos _ List.mem_cons_self rfl)
      | some j => exact hname
  induction os with
  | nil => exact fun m h => h
  | cons o os ih =>
    rintro m ⟨object, hobject, hhas⟩
    refine ih _ ?_
    obtain ⟨target, op⟩ := o
    cases target with
    | none => exact ⟨object, hobject, hhas⟩
    | some j =>
      by_cases hij : j = i
      · subst hij
        refine ⟨object.apply op, ?_, hhas.run [op]⟩
        show (m.tables.modify j _)[j]? = _
        rw [List.getElem?_modify_eq, hobject]
        rfl
      · refine ⟨object, ?_, hhas⟩
        show (m.tables.modify j _)[i]? = _
        rw [List.getElem?_modify_ne _ _ hij, hobject]

end Module

/-! ## What the addon exports -/

instance instDecidableNumbersFit (entries : List (String × Int)) : Decidable (NumbersFit entries) :=
  inferInstanceAs (Decidable (∀ e ∈ entries, _))

instance instDecidableConsistent (entries : List (String × Int)) : Decidable (Consistent entries) :=
  decidable_of_iff ((∀ a ∈ entries, ∀ b ∈ entries, a.1 = b.1 ↔ a.2 = b.2) ∧
    ∀ a ∈ entries, ∀ b ∈ entries, a.1 ≠ toString b.2)
    ⟨fun h => ⟨h.1, h.2⟩, fun h => ⟨h.corresponds, h.numeral⟩⟩

instance instDecidableExportFits (maxLength : Nat) : ∀ e : Export, Decidable (e.Fits maxLength)
  | .enumeration .. => inferInstanceAs (Decidable (_ ∧ _ ∧ _ ∧ _))
  | .function .. => inferInstanceAs (Decidable (_ ≤ _))

theorem Export.Fits.mono {a b : Nat} {e : Export} (h : e.Fits a) (hle : a ≤ b) : e.Fits b := by
  cases e with
  | function name flags => exact Nat.le_trans h hle
  | enumeration name entries =>
    obtain ⟨hname, hentries, hnumbers, hconsistent⟩ := h
    exact ⟨hname.trans hle, fun e he => (hentries e he).trans hle, hnumbers, hconsistent⟩

theorem Export.all_fits : ∀ e ∈ Export.all, e.Fits 80 := by
  decide +kernel

section Law

variable {newFromUtf8 : NewFromUtf8} {maxLength : Nat}

theorem initializeModule_eq (h8 : V8Strings newFromUtf8 maxLength) (fuel : Nat) :
    ∃ m, initializeModule newFromUtf8 (fuel + 1) = pure m ∧ m.Exported Export.all := by
  have hempty : (Module.mk .empty []).Exported [] := by
    refine ⟨rfl, fun _ _ => rfl, fun name entries h => ?_⟩
    cases h
  exact Module.exported_run h8 fuel hempty
    (fun e he => (Export.all_fits e he).mono h8.room) (by decide +kernel)

/-- **The addon loads, and its tables stay.**  Each enumeration has a table with its entries and
nothing else; whatever JS does to `exports` and to the tables, the entries stay, and the table is
found in `exports` as long as nobody defines its name again, or deletes it. -/
theorem module_law (h8 : V8Strings newFromUtf8 maxLength) (fuel : Nat) :
    ∃ m, initializeModule newFromUtf8 (fuel + 1) = pure m ∧
      ∀ name entries, .enumeration name entries ∈ Export.all → ∃ i, m.Exports name entries i ∧
        ∀ os : List ModuleOp,
          (∃ object, (m.run os).tables[i]? = some object ∧ HasEntries object entries) ∧
          ((∀ o ∈ os, o.target = none → ¬ o.op.Redefines (.string name)) →
            (m.run os).exports.getOwn (.string name) =
              some ⟨.data (.table i) false, true, true⟩) := by
  obtain ⟨m, hm, hexported⟩ := initializeModule_eq h8 fuel
  refine ⟨m, hm, fun name entries hmem => ?_⟩
  obtain ⟨i, hi⟩ := hexported.tables name entries hmem
  exact ⟨i, hi, hi.run⟩

theorem revisionValue_kind (before : UnionMemory) (kind : RevisionKind) :
    revisionValue before (.number (.ofInt kind.code)) =
      if kind.isKeyword then .ok ⟨kind, .writeInt64 0⟩ else .error (.exn (.svnTypeError "")) := by
  have hcode : (JsNumber.ofInt kind.code).int32Value = kind.code := by
    refine JsNumber.int32Value_ofInt ?_ ?_ <;> cases kind <;> decide
  show (Revision.ofKind (RevisionKind.ofCode _)).mapError _ = _
  rw [hcode, ofCode_eq_some.mpr rfl, Revision.ofKind_some]
  split <;> rfl

theorem revisionValue_number_ok {before : UnionMemory} {x : JsNumber} {r : Revision}
    (h : revisionValue before (.number x) = .ok r) : x.int32Value = r.kind.code := by
  have hkind : Revision.ofKind (RevisionKind.ofCode x.int32Value) = .ok r := by
    change (Revision.ofKind (RevisionKind.ofCode x.int32Value)).mapError _ = _ at h
    cases hr : Revision.ofKind (RevisionKind.ofCode x.int32Value) with
    | error e =>
      rw [hr] at h
      cases h
    | ok r' =>
      rw [hr] at h
      rw [Except.ok.inj h]
  obtain ⟨kind, -, hn, rfl⟩ := Revision.ofKind_eq_ok.mp hkind
  exact hn

/-- **`RevisionKind` and the revision options.**  Whatever JS has done, the number that the table
has for a kind is the keyword of that kind where there is one, and refused where there is none;
and where a number is taken, the table has the name of what it was taken for. -/
theorem revisionKind_law (h8 : V8Strings newFromUtf8 maxLength) (fuel : Nat)
    (before : UnionMemory) :
    ∃ m i, initializeModule newFromUtf8 (fuel + 1) = pure m ∧
      m.exports.getOwn (.string "RevisionKind") = some ⟨.data (.table i) false, true, true⟩ ∧
      ∀ os : List ModuleOp, ∃ object, (m.run os).tables[i]? = some object ∧
        (∀ kind : RevisionKind, ∃ x,
          object.getOwn (.string kind.name) = some (.fixed (.data (.number x))) ∧
          revisionValue before (.number x) =
            if kind.isKeyword then .ok ⟨kind, .writeInt64 0⟩
            else .error (.exn (.svnTypeError ""))) ∧
        ∀ x r, revisionValue before (.number x) = .ok r →
          object.getOwn (.string (toString x.int32Value)) =
            some (.fixed (.data (.string r.kind.name))) := by
  obtain ⟨m, hm, hexported⟩ := initializeModule_eq h8 fuel
  obtain ⟨i, hi⟩ := hexported.tables "RevisionKind" RevisionKind.entries (by simp [Export.all])
  refine ⟨m, i, hm, hi.1, fun os => ?_⟩
  obtain ⟨object, hobject, hhas⟩ := (hi.run os).1
  have hentry : ∀ kind : RevisionKind, (kind.name, kind.code) ∈ RevisionKind.entries := by
    intro kind
    refine List.mem_map_of_mem ?_
    cases kind <;> decide
  refine ⟨object, hobject, fun kind => ?_, fun x r hr => ?_⟩
  · exact ⟨_, hhas _ (hentry kind) _ List.mem_cons_self, revisionValue_kind before kind⟩
  · rw [revisionValue_number_ok hr]
    exact hhas _ (hentry r.kind) _ (List.mem_cons_of_mem _ List.mem_cons_self)

end Law

/-- `infinity` cannot be deleted. -/
theorem module_law_two_ops :
    ∃ m, initializeModule (.upTo 1073741799) 1 =
        pure m ∧ ∃ i object, (m.run [⟨some i, .delete (.string "infinity")⟩,
          ⟨none, .preventExtensions⟩]).tables[i]? = some object ∧
        HasEntries object Depth.entries := by
  obtain ⟨m, hm, htables⟩ := module_law v8Strings_bound 0
  obtain ⟨i, -, hi⟩ := htables "Depth" Depth.entries (by simp [Export.all])
  obtain ⟨object, hobject, hhas⟩ := (hi _).1
  exact ⟨m, hm, i, object, hobject, hhas⟩

/-- `head` cannot be assigned to. -/
theorem revisionKind_law_redefined :
    ∃ m i, initializeModule (.upTo 1073741799) 1 =
        pure m ∧ ∃ object, (m.run [⟨some i, .set (.string "head") (.other 0) true⟩]).tables[i]? =
          some object ∧ ∃ x, object.getOwn (.string "head") = some (.fixed (.data (.number x))) ∧
            revisionValue ⟨0, 0⟩ (.number x) = .ok ⟨.head, .writeInt64 0⟩ := by
  obtain ⟨m, i, hm, -, hall⟩ := revisionKind_law v8Strings_bound 0 ⟨0, 0⟩
  obtain ⟨object, hobject, hkinds, -⟩ := hall [⟨some i, .set (.string "head") (.other 0) true⟩]
  obtain ⟨x, hx, hvalue⟩ := hkinds .head
  exact ⟨m, i, hm, object, hobject, x, hx, hvalue⟩

end NodeSvn
