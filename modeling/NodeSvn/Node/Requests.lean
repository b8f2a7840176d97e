import NodeSvn.Cpp.Context
import NodeSvn.Node.Grammar
import NodeSvn.Node.Surface

/-!
# From the arguments of a method to those of libsvn

    loop thread    convert_string, convert_array, ..    the values that the job captures
    worker         convert_from_path, ..                what the function of libsvn is given
                   notify_scope                         of a commit and an update

The second step refuses strings that are empty or have a NUL, paths that are URLs, a URL that
is none, an empty vector of paths, and a second `notify_scope` in one context; the job then ends
with an exception, and libsvn's function is not called.  The two steps in a row give libsvn one
thing: each argument on its own, as `Conversion.Takes` says (`request_law`).

Strings are bytes here.  Of the strings of `convert_from_vector` without `path` only their number
is left when libsvn is called: they are gone (see `Arguments`).
-/

namespace NodeSvn

/-- What the conversions use of libsvn. -/
structure SvnPathFunctions where
  /-- `svn_path_is_url` -/
  isUrl : List UInt8 → Bool
  /-- `svn_dirent_get_absolute` -/
  getAbsolute : List UInt8 → Except SvnError (List UInt8)
  /-- `svn_uri_canonicalize` -/
  canonicalize : List UInt8 → List UInt8

/-- An argument of a function of libsvn. -/
inductive RawArgument where
  | chars (s : List UInt8)
  | array (elements : List (List UInt8))
  /-- `NULL`, or so many pointers to strings that are gone -/
  | names (dangling : Option Nat)
  | revision (r : SvnOptRevision)
  /-- `none` is `NULL` -/
  | ranges (elements : Option (List (SvnOptRevision × SvnOptRevision)))
  | int (n : Int)
  | flag (b : Bool)

/-- Libsvn may read it; the ranges of a log may not be `NULL`. -/
def RawArgument.Readable : RawArgument → Prop
  | names dangling => dangling = none
  | ranges elements => elements ≠ none
  | _ => True

/-! ## The conversions -/

namespace Marshal

def checkString (value : List UInt8) : Except Exn Unit :=
  if value.length = 0 then .error (.svnTypeError "")
  else if 0 ∈ value then .error (.svnTypeError "")
  else .ok ()

def convertFromString (value : List UInt8) : Except Exn (List UInt8) := do
  checkString value
  return value

variable (svn : SvnPathFunctions)

def convertFromPath (value : List UInt8) : Except Exn (List UInt8) := do
  let raw ← convertFromString value
  if svn.isUrl raw then .error (.svnTypeError "")
  else (svn.getAbsolute raw).mapError .svnError

def convertFromUrl (value : List UInt8) : Except Exn (List UInt8) := do
  let raw ← convertFromString value
  if !svn.isUrl raw then .error (.svnTypeError "") else return svn.canonicalize raw

/-- `convert_from_vector(value, pool, true)`, of a vector -/
def convertFromPaths (value : List (List UInt8)) : Except Exn RawArgument :=
  if value.length = 0 then .error (.svnTypeError "")
  else (value.mapM (convertFromPath svn)).map .array

/-- `convert_from_vector(value, pool)`, of an optional vector -/
def convertFromNames (value : List (List UInt8)) : Except Exn RawArgument :=
  if value.length = 0 then .ok (.names none)
  else (value.mapM convertFromString).map fun l => .names (some l.length)

/-- `convert_from_revision_ranges` -/
def convertFromRevisionRanges (value : Option (List (Revision × Revision))) : RawArgument :=
  match value with
  | none => .ranges none
  | some value =>
    if value.length = 0 then .ranges none
    else .ranges (some (value.map fun r => (convertFromRevision r.1, convertFromRevision r.2)))

end Marshal

/-- How an operation of `svn::client` converts an argument. -/
inductive Conversion where
  | path
  | url
  | string
  | paths
  | names
  /-- a cast, `convert_from_revision` or `convert_from_revision_ranges` -/
  | value
  deriving DecidableEq, Repr

/-- The last case is none: a job captures values of these types. -/
def Conversion.run (svn : SvnPathFunctions) : Conversion → Decoded → Except Exn RawArgument
  | .path, ⟨.string, some s⟩ => (Marshal.convertFromPath svn s).map .chars
  | .url, ⟨.string, some s⟩ => (Marshal.convertFromUrl svn s).map .chars
  | .string, ⟨.string, some s⟩ => (Marshal.convertFromString s).map .chars
  | .paths, ⟨.array, some l⟩ => Marshal.convertFromPaths svn l
  | .names, ⟨.array, some l⟩ => Marshal.convertFromNames l
  | .value, ⟨.revision, some r⟩ => .ok (.revision (convertFromRevision r))
  | .value, ⟨.revisionRanges, l⟩ => .ok (Marshal.convertFromRevisionRanges l)
  | .value, ⟨.depth, some n⟩ => .ok (.int n)
  | .value, ⟨.number, some n⟩ => .ok (.int n)
  | .value, ⟨.boolean, some b⟩ => .ok (.flag b)
  | _, _ => .error (.logicError "")

/-- The conversions of what comes from `args[0]`, `args[1]`, ... -/
def ClientOperation.conversions : ClientOperation → List Conversion
  | .addToChangelist => [.paths, .string]
  | .getChangelists => [.path]
  | .removeFromChangelists => [.paths]
  | .add => [.path]
  | .blame => [.path]
  | .cat => [.path]
  | .checkout => [.url, .path]
  | .cleanup => [.path]
  | .commit => [.paths, .string]
  | .info => [.path]
  | .log => [.paths]
  | .remove => [.paths]
  | .resolve => [.path]
  | .revert => [.paths]
  | .status => [.path]
  | .update => [.paths]
  | .getWorkingCopyRoot => [.path]

/-- The conversion of an option: `changelists` is the only vector. -/
def OptionDecoder.conversion : OptionDecoder → Conversion
  | .array _ => .names
  | _ => .value

/-- `commit` begins with its message. -/
def convertArguments (svn : SvnPathFunctions) (m : Method) (captured : List Decoded) :
    Except Exn (List RawArgument) :=
  let conversions := m.conversions ++ (m.options.getD []).map OptionDecoder.conversion
  let steps := conversions.zip captured
  let step : Conversion × Decoded → Except Exn RawArgument := fun p => p.1.run svn p.2
  if m = .commit then (steps.reverse.mapM step).map List.reverse else steps.mapM step

/-- The constructor of `notify_scope` throws. -/
def Method.Overlaps (m : Method) (notifyFunc2 : Pointer) : Prop :=
  m.notifies = true ∧ notifyFunc2 ≠ .null

instance (m : Method) (notifyFunc2 : Pointer) : Decidable (m.Overlaps notifyFunc2) :=
  inferInstanceAs (Decidable (_ ∧ _))

/-- The operation, up to the call of libsvn. -/
def marshal (svn : SvnPathFunctions) (notifyFunc2 : Pointer) (m : Method)
    (captured : List Decoded) : Except Exn (List RawArgument) := do
  let arguments ← convertArguments svn m captured
  if m.Overlaps notifyFunc2 then .error (.svnError (.last ⟨-1, "", "", -1⟩))
  else return arguments

/-- How far a call gets. -/
inductive Request where
  /-- nothing is queued -/
  | refused (result : CallResult)
  /-- the job ends before libsvn is called -/
  | failed (e : Exn)
  | given (arguments : List RawArgument)

/-- `notifyFunc2` is what the slot holds when the job runs. -/
def request (svn : SvnPathFunctions) (notifyFunc2 : Pointer) (m : Method) (args : Nat → Js)
    (before : UnionMemory) : Request :=
  match decodeArguments before m args with
  | .error e => .refused (invokeMethod (m.reportError e))
  | .ok captured =>
    match marshal svn notifyFunc2 m captured with
    | .error e => .failed e
    | .ok arguments => .given arguments

/-! ## What is taken for what -/

/-- A string that libsvn can be given. -/
def Plain (s : List UInt8) : Prop := s ≠ [] ∧ 0 ∉ s

/-- The strings that a value stands for: itself, or its elements. -/
def Js.Strings : Js → List (List UInt8) → Prop
  | .string s, l => l = [s]
  | .object (some elements) _, l => elements = l.map fun s => some (.string s)
  | _, _ => False

/-- `p` is the path that a string becomes. -/
def SvnPathFunctions.Resolves (svn : SvnPathFunctions) (s p : List UInt8) : Prop :=
  Plain s ∧ svn.isUrl s = false ∧ svn.getAbsolute s = .ok p

/-- `e` is libsvn's, for a string of `v` that has no absolute path. -/
def SvnPathFunctions.Unresolved (svn : SvnPathFunctions) (v : Js) (e : Exn) : Prop :=
  ∃ l, v.Strings l ∧ ∃ s ∈ l, ∃ raw, svn.getAbsolute s = .error raw ∧ e = .svnError raw

/-- Libsvn is given `raw` for the argument `v`. -/
def Conversion.Takes (svn : SvnPathFunctions) (v : Js) (raw : RawArgument) : Conversion → Prop
  | .path => ∃ s p, v = .string s ∧ svn.Resolves s p ∧ raw = .chars p
  | .url => ∃ s, v = .string s ∧ Plain s ∧ svn.isUrl s = true ∧ raw = .chars (svn.canonicalize s)
  | .string => ∃ s, v = .string s ∧ Plain s ∧ raw = .chars s
  | .paths => ∃ l ps, v.Strings l ∧ l ≠ [] ∧ List.Forall₂ svn.Resolves l ps ∧ raw = .array ps
  | .names => ∃ l, v.Strings l ∧ (∀ s ∈ l, Plain s) ∧
      raw = .names (if l = [] then none else some l.length)
  | .value => False

/-- The strings of an option; none if it is undefined. -/
def OptionStrings (options : Option (String → Option Js)) (key : String)
    (l : List (List UInt8)) : Prop :=
  match options with
  | none => l = []
  | some get => get key = some .undefined ∧ l = [] ∨ ∃ v, get key = some v ∧ v.Strings l

/-- Libsvn is given `raw` for an option. -/
def OptionDecoder.Takes (svn : SvnPathFunctions) (before : UnionMemory)
    (options : Option (String → Option Js)) (raw : RawArgument) : OptionDecoder → Prop
  | .array key => ∃ l, OptionStrings options key l ∧ (∀ s ∈ l, Plain s) ∧
      raw = .names (if l = [] then none else some l.length)
  | o => ∃ d, o.run before options = .ok d ∧ Conversion.value.run svn d = .ok raw

/-- What libsvn is given for the arguments of a method. -/
def Method.Asks (svn : SvnPathFunctions) (before : UnionMemory) (m : Method) (args : Nat → Js)
    (raws : List RawArgument) : Prop :=
  ∃ first rest, raws = first ++ rest ∧
    List.Forall₂ (fun p raw => p.1.Takes svn (args p.2) raw) m.conversions.zipIdx first ∧
    match m.options with
    | none => rest = []
    | some decoders => ∃ options, convertOptions (args m.conversions.length) = .ok options ∧
        List.Forall₂ (fun o raw => o.Takes svn before options raw) decoders rest

/-! ## One conversion -/

section Conversions

variable {svn : SvnPathFunctions} {s p : List UInt8} {v : Js} {raw : RawArgument}
  {l : List (List UInt8)}

namespace Marshal

theorem convertFromString_ok_iff : convertFromString s = .ok p ↔ Plain s ∧ p = s := by
  unfold convertFromString checkString Plain
  by_cases hlength : s.length = 0
  · rw [if_pos hlength]
    exact ⟨fun h => (by cases h), fun h => absurd (List.length_eq_zero_iff.mp hlength) h.1.1⟩
  · by_cases hzero : 0 ∈ s
    · rw [if_neg hlength, if_pos hzero]
      exact ⟨fun h => (by cases h), fun h => absurd hzero h.1.2⟩
    · rw [if_neg hlength, if_neg hzero, Except.ok_bind, Except.pure_eq_ok_iff]
      exact ⟨fun h => ⟨⟨mt List.length_eq_zero_iff.mpr hlength, hzero⟩, h.symm⟩,
        fun h => h.2.symm⟩

theorem convertFromPath_ok_iff : convertFromPath svn s = .ok p ↔ svn.Resolves s p := by
  unfold convertFromPath SvnPathFunctions.Resolves
  rw [Except.bind_eq_ok_iff]
  constructor
  · rintro ⟨raw, hraw, h⟩
    obtain ⟨hplain, rfl⟩ := convertFromString_ok_iff.mp hraw
    cases hurl : svn.isUrl raw with
    | true =>
      rw [hurl, if_pos rfl] at h
      cases h
    | false =>
      rw [hurl, if_neg Bool.false_ne_true, Except.mapError_eq_ok_iff] at h
      exact ⟨hplain, rfl, h⟩
  · rintro ⟨hplain, hurl, h⟩
    refine ⟨s, convertFromString_ok_iff.mpr ⟨hplain, rfl⟩, ?_⟩
    rw [hurl, if_neg Bool.false_ne_true, Except.mapError_eq_ok_iff]
    exact h

theorem convertFromUrl_ok_iff :
    convertFromUrl svn s = .ok p ↔ Plain s ∧ svn.isUrl s = true ∧ p = svn.canonicalize s := by
  unfold convertFromUrl
  rw [Except.bind_eq_ok_iff]
  constructor
  · rintro ⟨raw, hraw, h⟩
    obtain ⟨hplain, rfl⟩ := convertFromString_ok_iff.mp hraw
    cases hurl : svn.isUrl raw with
    | false =>
      rw [hurl] at h
      cases h
    | true =>
      rw [hurl] at h
      exact ⟨hplain, rfl, (Except.pure_eq_ok_iff.mp h).symm⟩
  · rintro ⟨hplain, hurl, rfl⟩
    refine ⟨s, convertFromString_ok_iff.mpr ⟨hplain, rfl⟩, ?_⟩
    rw [hurl]
    rfl

theorem convertFromNames_ok_iff : convertFromNames l = .ok raw ↔
    (∀ s ∈ l, Plain s) ∧ raw = .names (if l = [] then none else some l.length) := by
  unfold convertFromNames
  by_cases hl : l = []
  · subst hl
    rw [if_pos List.length_nil, if_pos rfl, Except.ok.injEq]
    exact ⟨fun h => ⟨fun s hs => (by cases hs), h.symm⟩, fun h => h.2.symm⟩
  · rw [if_neg (mt List.length_eq_zero_iff.mp hl), if_neg hl, Except.map_eq_ok_iff]
    have hall : ∀ l', l.mapM convertFromString = .ok l' ↔ (∀ s ∈ l, Plain s) ∧ l' = l := by
      intro l'
      rw [Except.mapM_eq_ok_iff]
      clear hl
      induction l generalizing l' with
      | nil =>
        rw [List.forall₂_nil_left_iff]
        exact ⟨fun h => ⟨fun s hs => (by cases hs), h⟩, fun h => h.2⟩
      | cons s l ih =>
        rw [List.forall₂_cons_left_iff, List.forall_mem_cons]
        constructor
        · rintro ⟨t, l'', ht, hrest, rfl⟩
          obtain ⟨hplain, rfl⟩ := convertFromString_ok_iff.mp ht
          obtain ⟨hall, rfl⟩ := (ih l'').mp hrest
          exact ⟨⟨hplain, hall⟩, rfl⟩
        · rintro ⟨⟨hplain, hall⟩, rfl⟩
          exact ⟨s, l, convertFromString_ok_iff.mpr ⟨hplain, rfl⟩, (ih l).mpr ⟨hall, rfl⟩, rfl⟩
    constructor
    · rintro ⟨l', hl', rfl⟩
      obtain ⟨hplain, rfl⟩ := (hall l').mp hl'
      exact ⟨hplain, rfl⟩
    · rintro ⟨hplain, rfl⟩
      exact ⟨l, (hall l).mpr ⟨hplain, rfl⟩, rfl⟩

theorem convertFromPaths_ok_iff : convertFromPaths svn l = .ok raw ↔
    l ≠ [] ∧ ∃ ps, List.Forall₂ svn.Resolves l ps ∧ raw = .array ps := by
  unfold convertFromPaths
  by_cases hl : l = []
  · subst hl
    rw [if_pos List.length_nil]
    exact ⟨fun h => (by cases h), fun h => absurd rfl h.1⟩
  · rw [if_neg (mt List.length_eq_zero_iff.mp hl), Except.map_eq_ok_iff]
    have hall : ∀ ps, l.mapM (convertFromPath svn) = .ok ps ↔ List.Forall₂ svn.Resolves l ps := by
      intro ps
      rw [Except.mapM_eq_ok_iff]
      exact ⟨fun h => h.imp fun _ _ => convertFromPath_ok_iff.mp,
        fun h => h.imp fun _ _ => convertFromPath_ok_iff.mpr⟩
    constructor
    · rintro ⟨ps, hps, rfl⟩
      exact ⟨hl, ps, (hall ps).mp hps, rfl⟩
    · rintro ⟨-, ps, hps, rfl⟩
      exact ⟨ps, (hall ps).mpr hps, rfl⟩

end Marshal

/-! The values of JS -/

theorem convertString_ok_iff : Js.convertString v = .ok s ↔ v = .string s ∧ 0 ∉ s := by
  cases v with
  | string t =>
    simp only [Js.convertString]
    by_cases hzero : 0 ∈ t
    · rw [if_pos (mt (strlen_eq_iff t).mp (not_not_intro hzero))]
      constructor
      · intro h
        cases h
      · rintro ⟨h, hs⟩
        obtain rfl := Js.string.inj h
        exact absurd hzero hs
    · rw [if_neg (not_not_intro ((strlen_eq_iff t).mpr hzero)), Except.ok.injEq]
      constructor
      · rintro rfl
        exact ⟨rfl, hzero⟩
      · rintro ⟨h, -⟩
        exact Js.string.inj h
  | _ => exact ⟨fun h => (by cases h), fun h => (by cases h.1)⟩

theorem convertElements_ok_iff {elements : List (Option Js)} :
    elements.mapM convertElement = .ok l ↔
      elements = l.map (fun s => some (.string s)) ∧ ∀ s ∈ l, 0 ∉ s := by
  rw [Except.mapM_eq_ok_iff]
  induction elements generalizing l with
  | nil =>
    rw [List.forall₂_nil_left_iff]
    constructor
    · rintro rfl
      exact ⟨rfl, fun s hs => (by cases hs)⟩
    · rintro ⟨h, -⟩
      exact List.map_eq_nil_iff.mp h.symm
  | cons e elements ih =>
    rw [List.forall₂_cons_left_iff]
    constructor
    · rintro ⟨s, l, he, hrest, rfl⟩
      obtain ⟨rfl, hall⟩ := ih.mp hrest
      cases e with
      | none => cases he
      | some v =>
        obtain ⟨rfl, hs⟩ := convertString_ok_iff.mp he
        exact ⟨rfl, List.forall_mem_cons.mpr ⟨hs, hall⟩⟩
    · rintro ⟨h, hall⟩
      cases l with
      | nil => cases h
      | cons s l =>
        obtain ⟨rfl, rfl⟩ := List.cons.inj h
        rw [List.forall_mem_cons] at hall
        exact ⟨s, l, convertString_ok_iff.mpr ⟨rfl, hall.1⟩, ih.mpr ⟨rfl, hall.2⟩, rfl⟩

theorem convertArray_ok_iff :
    convertArray v false = .ok l ↔ v.Strings l ∧ ∀ s ∈ l, 0 ∉ s := by
  cases v with
  | string t =>
    show (Js.convertString (.string t)).map _ = _ ↔ l = [t] ∧ _
    rw [Except.map_eq_ok_iff]
    constructor
    · rintro ⟨s, hs, rfl⟩
      obtain ⟨h, hzero⟩ := convertString_ok_iff.mp hs
      obtain rfl := Js.string.inj h
      exact ⟨rfl, List.forall_mem_singleton.mpr hzero⟩
    · rintro ⟨rfl, hzero⟩
      exact ⟨t, convertString_ok_iff.mpr ⟨rfl, hzero t List.mem_cons_self⟩, rfl⟩
  | object elements get =>
    cases elements with
    | none => exact ⟨fun h => (by cases h), fun h => h.1.elim⟩
    | some elements => exact convertElements_ok_iff
  | _ => exact ⟨fun h => (by cases h), fun h => h.1.elim⟩

/-! ## Both steps of a value -/

/-- The decoder of the argument. -/
def Conversion.argument : Conversion → ArgumentDecoder
  | .paths => .array
  | .names => .array
  | _ => .string

theorem string_run_iff {P : Decoded → Prop} :
    (∃ d, ArgumentDecoder.string.run v = .ok d ∧ P d) ↔
      ∃ s, v = .string s ∧ 0 ∉ s ∧ P ⟨.string, some s⟩ := by
  constructor
  · rintro ⟨d, hd, h⟩
    obtain ⟨s, hs, rfl⟩ := Except.map_eq_ok_iff.mp hd
    obtain ⟨rfl, hzero⟩ := convertString_ok_iff.mp hs
    exact ⟨s, rfl, hzero, h⟩
  · rintro ⟨s, hv, hzero, h⟩
    exact ⟨_, Except.map_eq_ok_iff.mpr ⟨s, convertString_ok_iff.mpr ⟨hv, hzero⟩, rfl⟩, h⟩

theorem array_run_iff {P : Decoded → Prop} :
    (∃ d, ArgumentDecoder.array.run v = .ok d ∧ P d) ↔
      ∃ l, v.Strings l ∧ (∀ s ∈ l, 0 ∉ s) ∧ P ⟨.array, some l⟩ := by
  constructor
  · rintro ⟨d, hd, h⟩
    obtain ⟨l, hl, rfl⟩ := Except.map_eq_ok_iff.mp hd
    obtain ⟨hstrings, hzero⟩ := convertArray_ok_iff.mp hl
    exact ⟨l, hstrings, hzero, h⟩
  · rintro ⟨l, hstrings, hzero, h⟩
    exact ⟨_, Except.map_eq_ok_iff.mpr ⟨l, convertArray_ok_iff.mpr ⟨hstrings, hzero⟩, rfl⟩, h⟩

theorem SvnPathFunctions.plain_of_resolves {ps : List (List UInt8)}
    (h : List.Forall₂ svn.Resolves l ps) (hs : s ∈ l) : Plain s := by
  obtain ⟨p, -, hp⟩ := exists_of_forall₂ h hs
  exact hp.1

theorem Conversion.taken_iff {c : Conversion} :
    (∃ d, c.argument.run v = .ok d ∧ c.run svn d = .ok raw) ↔ c.Takes svn v raw := by
  cases c with
  | path =>
    refine string_run_iff.trans ⟨?_, ?_⟩
    · rintro ⟨s, hv, -, h⟩
      obtain ⟨p, hp, rfl⟩ := Except.map_eq_ok_iff.mp h
      exact ⟨s, p, hv, Marshal.convertFromPath_ok_iff.mp hp, rfl⟩
    · rintro ⟨s, p, hv, hp, rfl⟩
      exact ⟨s, hv, hp.1.2, Except.map_eq_ok_iff.mpr
        ⟨p, Marshal.convertFromPath_ok_iff.mpr hp, rfl⟩⟩
  | url =>
    refine string_run_iff.trans ⟨?_, ?_⟩
    · rintro ⟨s, hv, -, h⟩
      obtain ⟨p, hp, rfl⟩ := Except.map_eq_ok_iff.mp h
      obtain ⟨hplain, hurl, rfl⟩ := Marshal.convertFromUrl_ok_iff.mp hp
      exact ⟨s, hv, hplain, hurl, rfl⟩
    · rintro ⟨s, hv, hplain, hurl, rfl⟩
      exact ⟨s, hv, hplain.2, Except.map_eq_ok_iff.mpr
        ⟨_, Marshal.convertFromUrl_ok_iff.mpr ⟨hplain, hurl, rfl⟩, rfl⟩⟩
  | string =>
    refine string_run_iff.trans ⟨?_, ?_⟩
    · rintro ⟨s, hv, -, h⟩
      obtain ⟨p, hp, rfl⟩ := Except.map_eq_ok_iff.mp h
      obtain ⟨hplain, rfl⟩ := Marshal.convertFromString_ok_iff.mp hp
      exact ⟨p, hv, hplain, rfl⟩
    · rintro ⟨s, hv, hplain, rfl⟩
      exact ⟨s, hv, hplain.2, Except.map_eq_ok_iff.mpr
        ⟨s, Marshal.convertFromString_ok_iff.mpr ⟨hplain, rfl⟩, rfl⟩⟩
  | paths =>
    refine array_run_iff.trans ⟨?_, ?_⟩
    · rintro ⟨l, hl, -, h⟩
      obtain ⟨hne, ps, hps, rfl⟩ := Marshal.convertFromPaths_ok_iff.mp h
      exact ⟨l, ps, hl, hne, hps, rfl⟩
    · rintro ⟨l, ps, hl, hne, hps, rfl⟩
      exact ⟨l, hl, fun s hs => (SvnPathFunctions.plain_of_resolves hps hs).2,
        Marshal.convertFromPaths_ok_iff.mpr ⟨hne, ps, hps, rfl⟩⟩
  | names =>
    refine array_run_iff.trans ⟨?_, ?_⟩
    · rintro ⟨l, hl, -, h⟩
      exact ⟨l, hl, Marshal.convertFromNames_ok_iff.mp h⟩
    · rintro ⟨l, hl, h⟩
      exact ⟨l, hl, fun s hs => (h.1 s hs).2, Marshal.convertFromNames_ok_iff.mpr h⟩
  | value =>
    refine string_run_iff.trans ⟨?_, False.elim⟩
    rintro ⟨s, -, -, h⟩
    cases h

theorem convertArrayOption_ok_iff {options : Option (String → Option Js)} {key : String} :
    convertArrayOption options key = .ok l ↔
      OptionStrings options key l ∧ ∀ s ∈ l, 0 ∉ s := by
  have hnil : Except.ok [] = (Except.ok l : DecodeM _) ↔ l = [] ∧ ∀ s ∈ l, 0 ∉ s := by
    constructor
    · intro h
      obtain rfl := Except.ok.inj h
      exact ⟨rfl, fun s hs => (by cases hs)⟩
    · rintro ⟨rfl, -⟩
      rfl
  cases options with
  | none => exact hnil
  | some get =>
    cases hv : get key with
    | none =>
      have hrun : convertArrayOption (some get) key = .error (.exn (.runtimeError "")) := by
        simp only [convertArrayOption, convertOption, getProperty, hv]
        rfl
      rw [hrun]
      constructor
      · intro h
        cases h
      · rintro ⟨⟨h, -⟩ | ⟨v, h, -⟩, -⟩
        · exact absurd (hv.symm.trans h) (by simp)
        · exact absurd (hv.symm.trans h) (by simp)
    | some v =>
      by_cases hne : v = .undefined
      · subst hne
        have hrun : convertArrayOption (some get) key = .ok [] := by
          simp only [convertArrayOption, convertOption, getProperty, hv]
          rfl
        have hstrings : OptionStrings (some get) key l ↔ l = [] := by
          constructor
          · rintro (⟨-, h⟩ | ⟨v, h, hl⟩)
            · exact h
            · obtain rfl := Option.some.inj (hv.symm.trans h)
              exact hl.elim
          · exact fun h => .inl ⟨hv, h⟩
        rw [hrun, hstrings]
        exact hnil
      · have hstrings : OptionStrings (some get) key l ↔ v.Strings l := by
          constructor
          · rintro (⟨h, -⟩ | ⟨w, h, hl⟩)
            · exact absurd (Option.some.inj (hv.symm.trans h)) hne
            · obtain rfl := Option.some.inj (hv.symm.trans h)
              exact hl
          · exact fun h => .inr ⟨v, hv, h⟩
        rw [hstrings, ← convertArray_ok_iff, ← convertArray_eq hne]
        unfold convertArrayOption
        rw [convertOption_some hv hne]

theorem OptionDecoder.taken_iff {before : UnionMemory} {options : Option (String → Option Js)}
    {o : OptionDecoder} :
    (∃ d, o.run before options = .ok d ∧ o.conversion.run svn d = .ok raw) ↔
      o.Takes svn before options raw := by
  cases o with
  | array key =>
    constructor
    · rintro ⟨d, hd, h⟩
      obtain ⟨l, hl, rfl⟩ := Except.map_eq_ok_iff.mp hd
      exact ⟨l, (convertArrayOption_ok_iff.mp hl).1, Marshal.convertFromNames_ok_iff.mp h⟩
    · rintro ⟨l, hl, h⟩
      have hdecode := convertArrayOption_ok_iff.mpr ⟨hl, fun s hs => (h.1 s hs).2⟩
      exact ⟨_, Except.map_eq_ok_iff.mpr ⟨l, hdecode, rfl⟩,
        Marshal.convertFromNames_ok_iff.mpr h⟩
  | _ => exact Iff.rfl

end Conversions

/-! ## All arguments -/

section Requests

variable {svn : SvnPathFunctions} {m : Method} {args : Nat → Js} {before : UnionMemory}
  {captured : List Decoded} {raws : List RawArgument} {notifyFunc2 : Pointer} {e : Exn}

theorem arguments_eq (m : Method) : m.arguments = m.conversions.map Conversion.argument := by
  cases m <;> rfl

theorem decodeArguments_eq_ok_iff : decodeArguments before m args = .ok captured ↔
    ∃ first rest, captured = first ++ rest ∧
      List.Forall₂ (fun p d => p.1.argument.run (args p.2) = .ok d) m.conversions.zipIdx first ∧
      match m.options with
      | none => rest = []
      | some decoders => ∃ options, convertOptions (args m.conversions.length) = .ok options ∧
          List.Forall₂ (fun o d => o.run before options = .ok d) decoders rest := by
  have harguments : ∀ first : List Decoded,
      (m.arguments.zipIdx.mapM fun p => p.1.run (args p.2)) = .ok first ↔
        List.Forall₂ (fun p d => p.1.argument.run (args p.2) = .ok d) m.conversions.zipIdx
          first := by
    intro first
    rw [Except.mapM_eq_ok_iff, arguments_eq, List.zipIdx_map, List.forall₂_map_left_iff]
    rfl
  have hlength : m.arguments.length = m.conversions.length := by
    rw [arguments_eq, List.length_map]
  unfold decodeArguments
  rw [Except.bind_eq_ok_iff, hlength]
  cases m.options with
  | none =>
    constructor
    · rintro ⟨first, hfirst, h⟩
      obtain rfl := Except.pure_eq_ok_iff.mp h
      exact ⟨first, [], (List.append_nil first).symm, (harguments first).mp hfirst, rfl⟩
    · rintro ⟨first, rest, rfl, hfirst, rfl⟩
      exact ⟨first, (harguments first).mpr hfirst,
        Except.pure_eq_ok_iff.mpr (List.append_nil first).symm⟩
  | some decoders =>
    constructor
    · rintro ⟨first, hfirst, h⟩
      obtain ⟨options, hoptions, h⟩ := Except.bind_eq_ok_iff.mp h
      obtain ⟨rest, hrest, h⟩ := Except.bind_eq_ok_iff.mp h
      exact ⟨first, rest, (Except.pure_eq_ok_iff.mp h).symm, (harguments first).mp hfirst,
        options, hoptions, Except.mapM_eq_ok_iff.mp hrest⟩
    · rintro ⟨first, rest, rfl, hfirst, options, hoptions, hrest⟩
      refine ⟨first, (harguments first).mpr hfirst, ?_⟩
      refine Except.bind_eq_ok_iff.mpr ⟨options, hoptions, ?_⟩
      exact Except.bind_eq_ok_iff.mpr ⟨rest, Except.mapM_eq_ok_iff.mpr hrest, rfl⟩

/-- The order of the conversions makes no difference to what they return. -/
theorem convertArguments_eq_ok_iff : convertArguments svn m captured = .ok raws ↔
    List.Forall₂ (fun p raw => p.1.run svn p.2 = .ok raw)
      ((m.conversions ++ (m.options.getD []).map OptionDecoder.conversion).zip captured)
      raws := by
  unfold convertArguments
  by_cases hm : m = .commit
  · rw [if_pos hm, Except.map_eq_ok_iff]
    constructor
    · rintro ⟨rs, hrs, rfl⟩
      rw [Except.mapM_eq_ok_iff] at hrs
      rw [← List.forall₂_reverse_iff, List.reverse_reverse]
      exact hrs
    · intro h
      refine ⟨raws.reverse, ?_, List.reverse_reverse raws⟩
      rw [Except.mapM_eq_ok_iff, List.forall₂_reverse_iff]
      exact h
  · rw [if_neg hm, Except.mapM_eq_ok_iff]

theorem marshal_eq_ok_iff : marshal svn notifyFunc2 m captured = .ok raws ↔
    ¬ m.Overlaps notifyFunc2 ∧ convertArguments svn m captured = .ok raws := by
  unfold marshal
  rw [Except.bind_eq_ok_iff]
  constructor
  · rintro ⟨arguments, harguments, h⟩
    split at h
    · cases h
    · rename_i hpasses
      exact ⟨hpasses, Except.pure_eq_ok_iff.mp h ▸ harguments⟩
  · rintro ⟨hpasses, h⟩
    exact ⟨raws, h, by rw [if_neg hpasses]; rfl⟩

/-- The job fails in a conversion or, past all of them, in `notify_scope`. -/
theorem marshal_eq_error_iff : marshal svn notifyFunc2 m captured = .error e ↔
    convertArguments svn m captured = .error e ∨
    (∃ raws, convertArguments svn m captured = .ok raws) ∧ m.Overlaps notifyFunc2 ∧
      e = .svnError (.last ⟨-1, "", "", -1⟩) := by
  unfold marshal
  cases hc : convertArguments svn m captured with
  | error e' =>
    rw [Except.error_bind]
    exact ⟨.inl, fun h => h.elim id fun ⟨⟨_, h⟩, _⟩ => (by cases h)⟩
  | ok raws =>
    rw [Except.ok_bind]
    by_cases ho : m.Overlaps notifyFunc2
    · rw [if_pos ho, Except.error.injEq]
      exact ⟨fun h => .inr ⟨⟨raws, rfl⟩, ho, h.symm⟩,
        fun h => h.elim (fun h => (by cases h)) fun h => h.2.2.symm⟩
    · rw [if_neg ho]
      exact ⟨fun h => (by cases h), fun h => h.elim (fun h => (by cases h)) fun h =>
        absurd h.2.1 ho⟩

theorem request_of_decoded (svn : SvnPathFunctions) (notifyFunc2 : Pointer)
    (hd : decodeArguments before m args = .ok captured) :
    request svn notifyFunc2 m args before =
      match marshal svn notifyFunc2 m captured with
      | .error e => .failed e
      | .ok arguments => .given arguments := by
  unfold request
  rw [hd]

/-- How far a call gets, and why. -/
theorem request_cases (svn : SvnPathFunctions) (notifyFunc2 : Pointer) (m : Method)
    (args : Nat → Js) (before : UnionMemory) :
    (∃ f, decodeArguments before m args = .error f ∧
      request svn notifyFunc2 m args before = .refused (invokeMethod (m.reportError f))) ∨
    (∃ captured e, decodeArguments before m args = .ok captured ∧
      marshal svn notifyFunc2 m captured = .error e ∧
      request svn notifyFunc2 m args before = .failed e) ∨
    ∃ captured raws, decodeArguments before m args = .ok captured ∧
      marshal svn notifyFunc2 m captured = .ok raws ∧
      request svn notifyFunc2 m args before = .given raws := by
  cases hd : decodeArguments before m args with
  | error f =>
    refine .inl ⟨f, rfl, ?_⟩
    unfold request
    rw [hd]
  | ok captured =>
    have hrequest := request_of_decoded svn notifyFunc2 hd
    cases hm : marshal svn notifyFunc2 m captured with
    | error e =>
      rw [hm] at hrequest
      exact .inr (.inl ⟨captured, e, rfl, hm, hrequest⟩)
    | ok raws =>
      rw [hm] at hrequest
      exact .inr (.inr ⟨captured, raws, rfl, hm, hrequest⟩)

theorem request_eq_given_iff : request svn notifyFunc2 m args before = .given raws ↔
    ∃ captured, decodeArguments before m args = .ok captured ∧
      marshal svn notifyFunc2 m captured = .ok raws := by
  constructor
  · intro h
    rcases request_cases svn notifyFunc2 m args before with ⟨f, -, hr⟩ |
      ⟨captured, e, -, -, hr⟩ | ⟨captured, raws', hd, hm, hr⟩
    · cases hr.symm.trans h
    · cases hr.symm.trans h
    · obtain rfl := Request.given.inj (hr.symm.trans h)
      exact ⟨captured, hd, hm⟩
  · rintro ⟨captured, hd, hm⟩
    rw [request_of_decoded svn notifyFunc2 hd, hm]

theorem arguments_taken_iff :
    (∃ first, List.Forall₂ (fun p d => p.1.argument.run (args p.2) = .ok d)
        m.conversions.zipIdx first ∧
      List.Forall₂ (fun p raw => p.1.run svn p.2 = .ok raw) (m.conversions.zip first) raws) ↔
    List.Forall₂ (fun p raw => p.1.Takes svn (args p.2) raw) m.conversions.zipIdx raws := by
  have hcomp : List.Forall₂ (fun (p : Conversion × Nat) raw => ∃ d,
      p.1.argument.run (args p.2) = .ok d ∧ p.1.run svn d = .ok raw) m.conversions.zipIdx raws ↔
      List.Forall₂ (fun p raw => p.1.Takes svn (args p.2) raw) m.conversions.zipIdx raws := by
    constructor
    · exact fun h => h.imp fun p raw => Conversion.taken_iff.mp
    · exact fun h => h.imp fun p raw => Conversion.taken_iff.mpr
  rw [← hcomp, ← forall₂_comp_iff (A := fun (p : Conversion × Nat) d =>
      p.1.argument.run (args p.2) = .ok d) (g := Prod.fst)
    (Q := fun c d raw => Conversion.run svn c d = .ok raw), List.zipIdx_map_fst]

theorem options_taken_iff {options : Option (String → Option Js)} {decoders : List OptionDecoder} :
    (∃ rest, List.Forall₂ (fun o d => o.run before options = .ok d) decoders rest ∧
      List.Forall₂ (fun p raw => p.1.run svn p.2 = .ok raw)
        ((decoders.map OptionDecoder.conversion).zip rest) raws) ↔
    List.Forall₂ (fun o raw => o.Takes svn before options raw) decoders raws := by
  rw [forall₂_comp_iff (A := fun (o : OptionDecoder) d => o.run before options = .ok d)
    (Q := fun c d raw => Conversion.run svn c d = .ok raw)]
  constructor
  · exact fun h => h.imp fun o raw => OptionDecoder.taken_iff.mp
  · exact fun h => h.imp fun o raw => OptionDecoder.taken_iff.mpr

/-- What the two steps make of each argument and each option. -/
theorem converted_iff_asks :
    (∃ captured, decodeArguments before m args = .ok captured ∧
      convertArguments svn m captured = .ok raws) ↔ m.Asks svn before args raws := by
  unfold Method.Asks
  constructor
  · rintro ⟨captured, hcaptured, hconvert⟩
    obtain ⟨first, rest, rfl, hfirst, hrest⟩ := decodeArguments_eq_ok_iff.mp hcaptured
    have hlength : m.conversions.length = first.length := by
      rw [← hfirst.length_eq, List.length_zipIdx]
    rw [convertArguments_eq_ok_iff, List.zip_append hlength, forall₂_append_left_iff] at hconvert
    obtain ⟨firstRaws, restRaws, h, h', rfl⟩ := hconvert
    refine ⟨firstRaws, restRaws, rfl, arguments_taken_iff.mp ⟨first, hfirst, h⟩, ?_⟩
    cases hm : m.options with
    | none =>
      rw [hm] at h'
      cases h'
      rfl
    | some decoders =>
      rw [hm] at hrest h'
      obtain ⟨options, hoptions, hrest⟩ := hrest
      exact ⟨options, hoptions, options_taken_iff.mp ⟨rest, hrest, h'⟩⟩
  · rintro ⟨firstRaws, restRaws, rfl, hfirst, hrest⟩
    obtain ⟨first, hrun, h⟩ := arguments_taken_iff.mpr hfirst
    have hlength : m.conversions.length = first.length := by
      rw [← hrun.length_eq, List.length_zipIdx]
    cases hm : m.options with
    | none =>
      rw [hm] at hrest
      obtain rfl := hrest
      refine ⟨first, decodeArguments_eq_ok_iff.mpr
        ⟨first, [], (List.append_nil first).symm, hrun, by rw [hm]⟩, ?_⟩
      rw [convertArguments_eq_ok_iff, hm]
      show List.Forall₂ _ ((m.conversions ++ []).zip first) _
      rw [List.append_nil, List.append_nil]
      exact h
    | some decoders =>
      rw [hm] at hrest
      obtain ⟨options, hoptions, hrest⟩ := hrest
      obtain ⟨rest, hdecoded, h'⟩ := options_taken_iff.mpr hrest
      refine ⟨first ++ rest, decodeArguments_eq_ok_iff.mpr
        ⟨first, rest, rfl, hrun, by rw [hm]; exact ⟨options, hoptions, hdecoded⟩⟩, ?_⟩
      rw [convertArguments_eq_ok_iff, List.zip_append hlength, forall₂_append_left_iff, hm]
      exact ⟨firstRaws, restRaws, h, h', rfl⟩

/-- Libsvn is given what the method asks for. -/
theorem request_eq_given_iff_asks : request svn notifyFunc2 m args before = .given raws ↔
    m.Asks svn before args raws ∧ ¬ m.Overlaps notifyFunc2 := by
  rw [request_eq_given_iff, ← converted_iff_asks]
  constructor
  · rintro ⟨captured, hd, h⟩
    obtain ⟨hpasses, h⟩ := marshal_eq_ok_iff.mp h
    exact ⟨⟨captured, hd, h⟩, hpasses⟩
  · rintro ⟨⟨captured, hd, h⟩, hpasses⟩
    exact ⟨captured, hd, marshal_eq_ok_iff.mpr ⟨hpasses, h⟩⟩

/-! ## Where a job fails -/

variable {v : Js} {d : Decoded} {raw : RawArgument} {s : List UInt8}
  {l : List (List UInt8)}

namespace Marshal

theorem convertFromString_error (h : convertFromString s = .error e) : e = .svnTypeError "" := by
  unfold convertFromString checkString at h
  by_cases hlength : s.length = 0
  · rw [if_pos hlength] at h
    exact (Except.error.inj h).symm
  · by_cases hzero : 0 ∈ s
    · rw [if_neg hlength, if_pos hzero] at h
      exact (Except.error.inj h).symm
    · rw [if_neg hlength, if_neg hzero] at h
      cases h

theorem convertFromPath_error (h : convertFromPath svn s = .error e) :
    e = .svnTypeError "" ∨ ∃ raw, svn.getAbsolute s = .error raw ∧ e = .svnError raw := by
  unfold convertFromPath at h
  cases hs : convertFromString s with
  | error e' =>
    rw [hs] at h
    obtain rfl := Except.error.inj h
    exact .inl (convertFromString_error hs)
  | ok p =>
    obtain ⟨-, rfl⟩ := convertFromString_ok_iff.mp hs
    rw [hs, Except.ok_bind] at h
    cases hurl : svn.isUrl p with
    | true =>
      rw [hurl, if_pos rfl] at h
      exact .inl (Except.error.inj h).symm
    | false =>
      rw [hurl, if_neg Bool.false_ne_true] at h
      cases hraw : svn.getAbsolute p with
      | error raw =>
        rw [hraw] at h
        exact .inr ⟨raw, rfl, (Except.error.inj h).symm⟩
      | ok q =>
        rw [hraw] at h
        cases h

theorem convertFromUrl_error (h : convertFromUrl svn s = .error e) : e = .svnTypeError "" := by
  unfold convertFromUrl at h
  cases hs : convertFromString s with
  | error e' =>
    rw [hs] at h
    obtain rfl := Except.error.inj h
    exact convertFromString_error hs
  | ok p =>
    rw [hs, Except.ok_bind] at h
    cases hurl : svn.isUrl p with
    | true =>
      rw [hurl] at h
      cases h
    | false =>
      rw [hurl] at h
      exact (Except.error.inj h).symm

theorem convertFromNames_error (h : convertFromNames l = .error e) : e = .svnTypeError "" := by
  unfold convertFromNames at h
  by_cases hl : l.length = 0
  · rw [if_pos hl] at h
    cases h
  · rw [if_neg hl] at h
    obtain ⟨s, -, hs⟩ := Except.exists_of_mapM_eq_error (Except.map_eq_error_iff.mp h)
    exact convertFromString_error hs

theorem convertFromPaths_error (h : convertFromPaths svn l = .error e) :
    e = .svnTypeError "" ∨ ∃ s ∈ l, ∃ raw, svn.getAbsolute s = .error raw ∧ e = .svnError raw := by
  unfold convertFromPaths at h
  by_cases hl : l.length = 0
  · rw [if_pos hl] at h
    exact .inl (Except.error.inj h).symm
  · rw [if_neg hl] at h
    obtain ⟨s, hmem, hs⟩ := Except.exists_of_mapM_eq_error (Except.map_eq_error_iff.mp h)
    rcases convertFromPath_error hs with he | ⟨raw, hraw, he⟩
    · exact .inl he
    · exact .inr ⟨s, hmem, raw, hraw, he⟩

end Marshal

/-- The conversion of an argument that was decoded. -/
theorem Conversion.run_error {c : Conversion} (hc : c ≠ .value) (hd : c.argument.run v = .ok d)
    (h : c.run svn d = .error e) :
    e = .svnTypeError "" ∨ svn.Unresolved v e := by
  cases c with
  | path =>
    obtain ⟨s, hv, -, h⟩ := string_run_iff (P := fun d => run svn .path d = .error e).mp ⟨d, hd, h⟩
    rcases Marshal.convertFromPath_error (Except.map_eq_error_iff.mp h) with he | ⟨raw, hraw, he⟩
    · exact .inl he
    · exact .inr ⟨[s], by rw [hv]; rfl, s, List.mem_cons_self, raw, hraw, he⟩
  | url =>
    obtain ⟨s, -, -, h⟩ := string_run_iff (P := fun d => run svn .url d = .error e).mp ⟨d, hd, h⟩
    exact .inl (Marshal.convertFromUrl_error (Except.map_eq_error_iff.mp h))
  | string =>
    obtain ⟨s, -, -, h⟩ := string_run_iff (P := fun d => run svn .string d = .error e).mp ⟨d, hd, h⟩
    exact .inl (Marshal.convertFromString_error (Except.map_eq_error_iff.mp h))
  | paths =>
    obtain ⟨l, hl, -, h⟩ := array_run_iff (P := fun d => run svn .paths d = .error e).mp ⟨d, hd, h⟩
    rcases Marshal.convertFromPaths_error h with he | ⟨s, hs, raw, hraw, he⟩
    · exact .inl he
    · exact .inr ⟨l, hl, s, hs, raw, hraw, he⟩
  | names =>
    obtain ⟨l, -, -, h⟩ := array_run_iff (P := fun d => run svn .names d = .error e).mp ⟨d, hd, h⟩
    exact .inl (Marshal.convertFromNames_error h)
  | value => exact absurd rfl hc

/-- The conversion of an option that was decoded. -/
theorem OptionDecoder.run_error {options : Option (String → Option Js)} {o : OptionDecoder}
    (hd : o.run before options = .ok d) (h : o.conversion.run svn d = .error e) :
    e = .svnTypeError "" := by
  cases o with
  | array key =>
    obtain ⟨l, -, rfl⟩ := Except.map_eq_ok_iff.mp hd
    exact Marshal.convertFromNames_error h
  | _ =>
    obtain ⟨r, -, rfl⟩ := Except.map_eq_ok_iff.mp hd
    cases h

theorem conversions_ne_value {c : Conversion} (h : c ∈ m.conversions) : c ≠ .value := by
  rintro rfl
  cases m <;> exact absurd h (by decide)

theorem exists_of_convertArguments_error (h : convertArguments svn m captured = .error e) :
    ∃ p ∈ (m.conversions ++ (m.options.getD []).map OptionDecoder.conversion).zip captured,
      p.1.run svn p.2 = .error e := by
  unfold convertArguments at h
  by_cases hm : m = .commit
  · rw [if_pos hm] at h
    obtain ⟨p, hp, hrun⟩ := Except.exists_of_mapM_eq_error (Except.map_eq_error_iff.mp h)
    exact ⟨p, List.mem_reverse.mp hp, hrun⟩
  · rw [if_neg hm] at h
    exact Except.exists_of_mapM_eq_error h

/-- What was decoded is not converted for two reasons only. -/
theorem convertArguments_error (hd : decodeArguments before m args = .ok captured)
    (h : convertArguments svn m captured = .error e) :
    e = .svnTypeError "" ∨ ∃ i < m.conversions.length, svn.Unresolved (args i) e := by
  obtain ⟨first, rest, rfl, hfirst, hrest⟩ := decodeArguments_eq_ok_iff.mp hd
  have hlength : m.conversions.length = first.length := by
    rw [← hfirst.length_eq, List.length_zipIdx]
  obtain ⟨⟨c, x⟩, hmem, hrun⟩ := exists_of_convertArguments_error h
  rw [List.zip_append hlength, List.mem_append] at hmem
  rcases hmem with hmem | hmem
  · have hzip : m.conversions.zip first =
        (m.conversions.zipIdx.zip first).map (Prod.map Prod.fst id) := by
      rw [← List.zip_map_left, List.zipIdx_map_fst]
    rw [hzip] at hmem
    obtain ⟨⟨⟨c', i⟩, x'⟩, hpair, heq⟩ := List.mem_map.mp hmem
    obtain ⟨rfl, rfl⟩ := Prod.mk.inj heq
    have hidx := (List.of_mem_zip hpair).1
    have hne := conversions_ne_value (List.fst_mem_of_mem_zipIdx hidx)
    rcases Conversion.run_error hne (List.forall₂_zip hfirst hpair) hrun with he | hfail
    · exact .inl he
    · exact .inr ⟨i, List.snd_lt_of_mem_zipIdx hidx, hfail⟩
  · left
    cases hm : m.options with
    | none =>
      rw [hm] at hmem
      cases hmem
    | some decoders =>
      rw [hm] at hrest hmem
      obtain ⟨options, -, hrest⟩ := hrest
      have hmem : (c, x) ∈ (decoders.map OptionDecoder.conversion).zip rest := hmem
      rw [List.zip_map_left] at hmem
      obtain ⟨⟨o, x'⟩, hpair, heq⟩ := List.mem_map.mp hmem
      obtain ⟨rfl, rfl⟩ := Prod.mk.inj heq
      exact OptionDecoder.run_error (List.forall₂_zip hrest hpair) hrun

/-- A job whose arguments were decoded ends before libsvn is called for three reasons only. -/
theorem marshal_error (hd : decodeArguments before m args = .ok captured)
    (h : marshal svn notifyFunc2 m captured = .error e) :
    e = .svnTypeError "" ∨ (∃ i < m.conversions.length, svn.Unresolved (args i) e) ∨
      (∃ raws, m.Asks svn before args raws) ∧ m.Overlaps notifyFunc2 ∧
        e = .svnError (.last ⟨-1, "", "", -1⟩) := by
  rcases marshal_eq_error_iff.mp h with hconvert | ⟨⟨raws, hconvert⟩, hoverlaps, he⟩
  · exact (convertArguments_error hd hconvert).imp id .inl
  · exact .inr (.inr ⟨⟨raws, converted_iff_asks.mp ⟨captured, hd, hconvert⟩⟩, hoverlaps, he⟩)

/-- What libsvn cannot take is an `svn_error`. -/
theorem asSvnError_of_marshal (hd : decodeArguments before m args = .ok captured)
    (h : marshal svn notifyFunc2 m captured = .error e) : ∃ raw, e.asSvnError = some raw := by
  rcases marshal_error hd h with rfl | ⟨-, -, -, -, -, -, raw, -, rfl⟩ | ⟨-, -, rfl⟩
  · exact ⟨_, rfl⟩
  · exact ⟨raw, rfl⟩
  · exact ⟨_, rfl⟩

end Requests

end NodeSvn
