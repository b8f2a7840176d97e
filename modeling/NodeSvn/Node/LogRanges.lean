import NodeSvn.Lib.Store
import NodeSvn.Node.Decode

/-!
# The revision ranges of a log

    client::log (node)               the option revision_ranges, decoded and captured
    convert_from_revision_ranges     an array of pointers, in the pool of the call
    svn_client_log5                  reads the array, which may not be NULL

The pool is destroyed when the call has returned.  Each range arrives, one for one; where none
is asked for, there is no array (`handed_iff`).
-/

namespace NodeSvn

/-- `svn_opt_revision_range_t` -/
structure SvnOptRevisionRange where
  start : SvnOptRevision
  last : SvnOptRevision

/-- `convert_from_revision_range`: the address in the pool. -/
def convertFromRevisionRange (value : Revision × Revision) (s : Store SvnOptRevisionRange) :
    Nat × Store SvnOptRevisionRange :=
  s.alloc ⟨convertFromRevision value.1, convertFromRevision value.2⟩

/-- The loop of `convert_from_revision_ranges`: the elements of the array. -/
def convertRanges : List (Revision × Revision) → Store SvnOptRevisionRange →
    List Nat × Store SvnOptRevisionRange
  | [], s => ([], s)
  | item :: rest, s =>
    let (element, s) := convertFromRevisionRange item s
    let (more, s) := convertRanges rest s
    (element :: more, s)

/-- `convert_from_revision_ranges`; `none` is `NULL`. -/
def convertFromRevisionRanges (value : Option (List (Revision × Revision)))
    (s : Store SvnOptRevisionRange) : Option (List Nat) × Store SvnOptRevisionRange :=
  match value with
  | none => (none, s)
  | some value =>
    if value.length = 0 then (none, s)
    else
      let (array, s) := convertRanges value s
      (some array, s)

variable (before : UnionMemory)

/-- What `client::log` captures of its options. -/
def logRanges (options : Js) : DecodeM (Option (List (Revision × Revision))) := do
  let options ← convertOptions options
  convertRevisionRanges before options "revision_ranges"

/-- The ranges that the options ask for: those of an array, or the one given. -/
def Js.requestedRanges : Js → List (Option Js)
  | .object _ get =>
    match get "revision_ranges" with
    | some (.object (some elements) _) => elements
    | some (.object none get) => [some (.object none get)]
    | _ => []
  | _ => []

/-- `r` are the properties start and end of the range `v`, in this order. -/
def Ends (v : Option Js) (r : Revision × Revision) : Prop :=
  ∃ elements get, v = some (.object elements get) ∧
    convertRevision before (some get) "start" .unspecified = .ok r.1 ∧
    convertRevision before (some get) "end" .unspecified = .ok r.2

/-- With these options libsvn is given an array, and until the call returns reads in it the
ranges that are asked for, one for one, each with its start and its end. -/
def Handed (options : Js) : Prop :=
  ∀ ranges, logRanges before options = .ok ranges → ∀ s, ∃ array,
    (convertFromRevisionRanges ranges s).1 = some array ∧
      ∀ t, (convertFromRevisionRanges ranges s).2.Keeps t →
        List.Forall₂ (fun v a => ∃ r, convertRevisionRange before v = .ok r ∧ Ends before v r ∧
          t.read a = some ⟨convertFromRevision r.1, convertFromRevision r.2⟩)
          options.requestedRanges array

section Laws

variable {before : UnionMemory} {options : Js} {value : List (Revision × Revision)}
  {ranges : Option (List (Revision × Revision))} {s t : Store SvnOptRevisionRange}

/-! ## The array -/

theorem convertRanges_keeps (value : List (Revision × Revision)) (s : Store SvnOptRevisionRange) :
    s.Keeps (convertRanges value s).2 := by
  induction value generalizing s with
  | nil => exact .refl s
  | cons item rest ih => exact ((Store.Keeps.refl s).alloc _).trans (ih _)

/-- Each element is in the pool, and nothing before the end of the call releases it. -/
theorem convertRanges_read (ht : (convertRanges value s).2.Keeps t) :
    List.Forall₂ (fun r a => t.read a = some ⟨convertFromRevision r.1, convertFromRevision r.2⟩)
      value (convertRanges value s).1 := by
  induction value generalizing s with
  | nil => exact .nil
  | cons item rest ih =>
    refine .cons ?_ (ih ht)
    have hkeeps := (convertRanges_keeps rest (convertFromRevisionRange item s).2).trans ht
    show t.read s.next = _
    rw [hkeeps.read s.next (Nat.lt_succ_self _)]
    exact Store.read_alloc_self

theorem convertFromRevisionRanges_of_ne_nil (h : value ≠ []) (s : Store SvnOptRevisionRange) :
    convertFromRevisionRanges (some value) s =
      (some (convertRanges value s).1, (convertRanges value s).2) := by
  have hlength : value.length ≠ 0 := fun he => h (List.eq_nil_of_length_eq_zero he)
  show (if value.length = 0 then _ else _) = _
  rw [if_neg hlength]

/-! ## The options -/

theorem ends_of_ok {v : Option Js} {r : Revision × Revision}
    (h : convertRevisionRange before v = .ok r) : Ends before v r := by
  obtain ⟨elements, get, hv, hstart, hlast⟩ := convertRevisionRange_eq_ok.mp h
  exact ⟨elements, get, hv, hstart.1, hlast.1⟩

theorem rangesValue_object {elements : List (Option Js)} {get : String → Option Js} :
    rangesValue before (.object (some elements) get) = .ok value ↔
      List.Forall₂ (fun v r => convertRevisionRange before v = .ok r) elements value :=
  Except.mapM_eq_ok_iff

/-- What was captured are the conversions of the ranges that are asked for. -/
theorem logRanges_ok (h : logRanges before options = .ok ranges) :
    List.Forall₂ (fun v r => convertRevisionRange before v = .ok r) options.requestedRanges
      (ranges.getD []) := by
  cases options with
  | undefined =>
    obtain rfl := Except.ok.inj h
    exact .nil
  | object elements get =>
    have h : convertOption (some get) "revision_ranges" none (fun value =>
        (rangesValue before value).map some) = .ok ranges := h
    obtain ⟨v, hv, h⟩ := Except.bind_eq_ok_iff.mp h
    have hget : get "revision_ranges" = some v := by
      unfold getProperty at hv
      split at hv
      · rename_i v' hv'
        rw [hv', Except.ok.inj hv]
      · cases hv
    rw [Js.requestedRanges, hget]
    cases v with
    | undefined =>
      obtain rfl := Except.ok.inj h
      exact .nil
    | object elements get =>
      obtain ⟨value, hvalue, rfl⟩ := Except.map_eq_ok_iff.mp h
      cases elements with
      | some elements => exact rangesValue_object.mp hvalue
      | none =>
        obtain ⟨r, hr, rfl⟩ := Except.map_eq_ok_iff.mp hvalue
        exact .cons hr .nil
    | _ =>
      obtain rfl := Except.ok.inj h
      exact .nil
  | _ => cases h

/-- **An array of the ranges that are asked for arrives exactly if there are any.** -/
theorem handed_iff (before : UnionMemory) (options : Js)
    (h : ∃ ranges, logRanges before options = .ok ranges) :
    Handed before options ↔ options.requestedRanges ≠ [] := by
  obtain ⟨ranges, hranges⟩ := h
  have hdecoded := logRanges_ok hranges
  constructor
  · intro hhanded hnil
    obtain ⟨array, harray, -⟩ := hhanded ranges hranges .empty
    rw [hnil, List.forall₂_nil_left_iff] at hdecoded
    cases ranges with
    | none => cases harray
    | some value =>
      obtain rfl : value = [] := hdecoded
      cases harray
  · intro hne ranges' hranges' s
    obtain rfl := Except.ok.inj (hranges.symm.trans hranges')
    cases ranges with
    | none => exact absurd (List.forall₂_nil_right_iff.mp hdecoded) hne
    | some value =>
      have hvalue : value ≠ [] := by
        rintro rfl
        exact hne (List.forall₂_nil_right_iff.mp hdecoded)
      rw [convertFromRevisionRanges_of_ne_nil hvalue]
      refine ⟨_, rfl, fun t ht => ?_⟩
      refine (forall₂_iff hdecoded (convertRanges_read ht) (F := fun _ => True) ?_).mpr
        fun _ _ => trivial
      intro v r a hr ha
      exact iff_of_true ⟨r, hr, ends_of_ok hr, ha⟩ trivial

/-- The range `{start: first, end: last}` of two keywords. -/
def keywordRange (first last : RevisionKind) : Js :=
  .object none fun key =>
    some (.number (.ofInt (if key = "start" then first.code else last.code)))

/-- The options `{revision_ranges: [{start: base, end: head}, {start: head, end: working}]}`. -/
def optionsBaseHead : Js :=
  .object none fun _ => some (.object (some [some (keywordRange .base .head),
    some (keywordRange .head .working)]) fun _ => some .undefined)

/-- What libsvn reads: base and head, then head and working. -/
theorem handed_baseHead : Handed ⟨0, 0⟩ optionsBaseHead ∧
    ∃ ranges, logRanges ⟨0, 0⟩ optionsBaseHead = .ok ranges ∧
      (convertFromRevisionRanges ranges .empty).1.map (fun array => array.map fun a =>
        ((convertFromRevisionRanges ranges .empty).2.read a).map fun r =>
          (r.start.kind, r.last.kind)) =
        some [some (.base, .head), some (.head, .working)] := by
  have hranges : logRanges ⟨0, 0⟩ optionsBaseHead =
      .ok (some [(⟨.base, .writeInt64 0⟩, ⟨.head, .writeInt64 0⟩),
        (⟨.head, .writeInt64 0⟩, ⟨.working, .writeInt64 0⟩)]) := rfl
  exact ⟨(handed_iff ⟨0, 0⟩ optionsBaseHead ⟨_, hranges⟩).mpr (List.cons_ne_nil _ _), _, hranges,
    rfl⟩

/-- No options. -/
theorem not_handed_undefined : ¬ ∀ (before : UnionMemory) (options : Js),
    (∃ ranges, logRanges before options = .ok ranges) → Handed before options := by
  intro h
  obtain ⟨array, harray, -⟩ := h ⟨0, 0⟩ .undefined ⟨none, rfl⟩ none rfl .empty
  cases harray

end Laws

end NodeSvn
