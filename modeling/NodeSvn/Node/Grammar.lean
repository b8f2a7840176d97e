import NodeSvn.Node.Decode

/-!
# The documented values of arguments and options

`Documented d v r` says that `v` is a value that `index.d.ts` has for the decoder `d`, and
that `r` is that value.  A decoder is exact at `v` if it returns just that, and throws if there
is no such `r`.

    string, boolean     always exact
    array               unless the read of an element throws
    number, depth       integers of 32 bits; of these, the enumerators of Depth
    revision            integers of 32 or 64 bits, wherever a number is read
    revisionRanges      objects whose revisions are such

(`decode_exact_iff`).
-/

namespace NodeSvn

/-! ## The documented values -/

/-- `Depth` of the module: unknown, empty, files, immediates, infinity. -/
def depths : List Int := [-2, 0, 1, 2, 3]

/-- The revision is the one that was asked for. -/
def RevisionRequest.Denotes : RevisionRequest → Revision → Prop
  | keyword x, r => r.kind.isKeyword = true ∧ x = .ofInt r.kind.code
  | number n, r => r.kind = .number ∧ n = .ofInt r.memory.readInt32
  | date d, r => r.kind = .date ∧ d = .ofInt r.memory.readInt64

/-- A string without NUL. -/
def IsText (item : Option Js) (bytes : List UInt8) : Prop := item = some (.string bytes) ∧ 0 ∉ bytes

/-- The property `key` is a revision, and specified. -/
def IsEnd (get : String → Option Js) (key : String) (r : Revision) : Prop :=
  ∃ v q, get key = some v ∧ v.request = some q ∧ q.Denotes r ∧ r.kind ≠ .unspecified

def IsRange (item : Option Js) (r : Revision × Revision) : Prop :=
  ∃ elements get, item = some (.object elements get) ∧ IsEnd get "start" r.1 ∧ IsEnd get "end" r.2

namespace Decoder

def Documented : (d : Decoder) → Js → d.Result → Prop
  | .string, v, r => IsText (some v) r
  | .array, v, r => (∃ s, IsText (some v) s ∧ r = [s]) ∨
      ∃ elements get, v = .object (some elements) get ∧ List.Forall₂ IsText elements r
  | .number, v, r => v = .number (.ofInt r)
  | .boolean, v, r => v = .boolean r
  | .depth, v, r => v = .number (.ofInt r) ∧ r ∈ depths
  | .revision, v, r => ∃ q, v.request = some q ∧ q.Denotes r
  | .revisionRanges, v, r => (∃ get p, v = .object none get ∧ IsRange (some v) p ∧ r = [p]) ∨
      ∃ elements get, v = .object (some elements) get ∧ List.Forall₂ IsRange elements r

/-- The decoder returns the documented value, or throws if there is none. -/
def Exact (before : UnionMemory) (d : Decoder) (v : Js) : Prop :=
  match decode before d v with
  | .ok r => d.Documented v r
  | .error (.exn _) => ∀ r, ¬ d.Documented v r
  | .error .emptyHandle => False

end Decoder

/-! ## The condition -/

/-- The number is an integer that its field can hold. -/
def RevisionRequest.Kept : RevisionRequest → Prop
  | keyword x => x.IsInt32
  | number n => n.IsInt32
  | date d => d.IsInt64

/-- It does not ask for `RevisionKind.unspecified`. -/
def RevisionRequest.specified : RevisionRequest → Bool
  | keyword x => x.int32Value ≠ 0
  | _ => true

def endRequest (get : String → Option Js) (key : String) : Option RevisionRequest := do
  let v ← get key
  let q ← v.request
  if q.accepted && q.specified then return q else none

/-- What a range asks for, if `convert_revision_range` takes it. -/
def rangeRequest : Option Js → Option (RevisionRequest × RevisionRequest)
  | some (.object _ get) => do
    let start ← endRequest get "start"
    let last ← endRequest get "end"
    return (start, last)
  | _ => none

def isText : Option Js → Bool
  | some (.string bytes) => 0 ∉ bytes
  | _ => false

/-- Both ends of the range are kept, if it is taken. -/
def RangeKept (item : Option Js) : Prop :=
  ∀ p, rangeRequest item = some p → p.1.Kept ∧ p.2.Kept

def Decoder.Fits : Decoder → Js → Prop
  | .string, _ => True
  | .boolean, _ => True
  -- the first element that is no string without NUL can be read
  | .array, v => ∀ elements get, v = .object (some elements) get →
    elements.find? (fun item => !isText item) ≠ some none
  | .number, v => ∀ x, v = .number x → x.IsInt32
  | .depth, v => ∀ x, v = .number x → ∃ n ∈ depths, x = .ofInt n
  | .revision, v => ∀ q, v.request = some q → q.accepted = true → q.Kept
  | .revisionRanges, v => ∃ elements get, v = .object elements get ∧
    match elements with
    | none => RangeKept (some v)
    | some items => (∀ item ∈ items, (rangeRequest item).isSome = true) →
      ∀ item ∈ items, RangeKept item

/-! ## Numbers, strings, arrays -/

section Values

variable {before : UnionMemory} {d : Decoder} {v : Js}

theorem Decoder.exact_of_ok {r : d.Result} (h : decode before d v = .ok r) :
    d.Exact before v ↔ d.Documented v r := by
  unfold Decoder.Exact
  rw [h]

theorem Decoder.exact_of_exn {e : Exn} (h : decode before d v = .error (.exn e)) :
    d.Exact before v ↔ ∀ r, ¬ d.Documented v r := by
  unfold Decoder.Exact
  rw [h]

theorem Decoder.not_exact (h : decode before d v = .error .emptyHandle) : ¬ d.Exact before v := by
  unfold Decoder.Exact
  rw [h]
  exact id

theorem strlen_eq_iff (bytes : List UInt8) : strlen bytes = bytes.length ↔ 0 ∉ bytes := by
  unfold strlen
  induction bytes with
  | nil => simp
  | cons b bytes ih =>
    by_cases hb : b = 0
    · simp [hb]
    · rw [List.takeWhile_cons_of_pos (by simpa using hb), List.length_cons, List.length_cons,
        Nat.succ_inj, ih, List.mem_cons, not_or]
      exact ⟨fun h => ⟨Ne.symm hb, h⟩, fun h => h.2⟩

/-- `convert_string` takes the strings without NUL, as they are. -/
theorem convertString_cases (v : Js) :
    (∃ bytes, Js.convertString v = .ok bytes ∧ IsText (some v) bytes ∧ isText (some v) = true) ∨
      ∃ e, Js.convertString v = .error (.exn e) ∧ isText (some v) = false := by
  cases v with
  | string bytes =>
    unfold Js.convertString
    by_cases h : 0 ∈ bytes
    · refine .inr ⟨_, if_pos fun hl => ?_, by simpa [isText] using h⟩
      exact (strlen_eq_iff bytes).mp hl h
    · refine .inl ⟨bytes, if_neg ?_, ⟨rfl, h⟩, by simpa [isText] using h⟩
      exact not_not_intro ((strlen_eq_iff bytes).mpr h)
  | _ => exact .inr ⟨_, rfl, rfl⟩

theorem isText_of_isText {item : Option Js} {bytes : List UInt8} (h : IsText item bytes) :
    isText item = true := by
  obtain ⟨rfl, h0⟩ := h
  simpa [isText] using h0

theorem convertElement_cases (item : Option Js) :
    (∃ bytes, convertElement item = .ok bytes ∧ IsText item bytes ∧ isText item = true) ∨
      ∃ f, convertElement item = .error f ∧ (f = .emptyHandle ↔ item = none) ∧
        isText item = false := by
  cases item with
  | none => exact .inr ⟨_, rfl, ⟨fun _ => rfl, fun _ => rfl⟩, rfl⟩
  | some v =>
    rcases convertString_cases v with ⟨bytes, hok, htext, h⟩ | ⟨e, herr, h⟩
    · exact .inl ⟨bytes, hok, htext, h⟩
    · exact .inr ⟨_, herr, ⟨fun hf => (by cases hf), fun hn => (by cases hn)⟩, h⟩

/-- The loop ends at the first element that is no string without NUL. -/
theorem convertElements_cases (items : List (Option Js)) :
    (∃ r, items.mapM convertElement = .ok r ∧ List.Forall₂ IsText items r ∧
      items.find? (fun item => !isText item) = none) ∨
    ∃ f item, items.mapM convertElement = .error f ∧ item ∈ items ∧ isText item = false ∧
      items.find? (fun item => !isText item) = some item ∧ (f = .emptyHandle ↔ item = none) := by
  induction items with
  | nil => exact .inl ⟨[], rfl, .nil, rfl⟩
  | cons item items ih =>
    rw [List.mapM_cons]
    rcases convertElement_cases item with ⟨bytes, hok, htext, h⟩ | ⟨f, herr, hf, h⟩
    · rw [hok, Except.ok_bind, List.find?_cons_of_neg (by simp [h])]
      rcases ih with ⟨r, hr, hall, hnone⟩ | ⟨f, bad, hr, hmem, hbad, hfind, hf⟩
      · exact .inl ⟨bytes :: r, by rw [hr]; rfl, .cons htext hall, hnone⟩
      · exact .inr ⟨f, bad, by rw [hr]; rfl, List.mem_cons_of_mem _ hmem, hbad, hfind, hf⟩
    · refine .inr ⟨f, item, by rw [herr]; rfl, List.mem_cons_self, h, ?_, hf⟩
      exact List.find?_cons_of_pos (by simp [h])

theorem string_exact (v : Js) : Decoder.Exact before .string v := by
  rcases convertString_cases v with ⟨bytes, hok, htext, -⟩ | ⟨e, herr, hf⟩
  · exact (Decoder.exact_of_ok (d := .string) hok).mpr htext
  · refine (Decoder.exact_of_exn (d := .string) herr).mpr fun r hr => ?_
    rw [isText_of_isText hr] at hf
    cases hf

theorem array_exact_string (bytes : List UInt8) :
    Decoder.Exact before .array (.string bytes) := by
  have hdoc : ∀ r, Decoder.Documented .array (.string bytes) r ↔
      IsText (some (.string bytes)) bytes ∧ r = [bytes] := by
    intro r
    constructor
    · rintro (⟨s, ⟨hs, h0⟩, rfl⟩ | ⟨_, _, h, -⟩)
      · cases hs
        exact ⟨⟨rfl, h0⟩, rfl⟩
      · cases h
    · exact fun h => .inl ⟨bytes, h⟩
  have hdecode : decode before .array (.string bytes) =
      (Js.convertString (.string bytes)).map fun s => [s] := rfl
  rcases convertString_cases (.string bytes) with ⟨_, hok, htext, -⟩ | ⟨e, herr, hf⟩
  · obtain rfl : bytes = _ := Js.string.inj (Option.some.inj htext.1)
    rw [hok] at hdecode
    exact (Decoder.exact_of_ok hdecode).mpr ((hdoc _).mpr ⟨htext, rfl⟩)
  · rw [herr] at hdecode
    refine (Decoder.exact_of_exn hdecode).mpr fun r hr => ?_
    rw [isText_of_isText ((hdoc r).mp hr).1] at hf
    cases hf

theorem array_documented_object {items : List (Option Js)} {get : String → Option Js}
    (r : List (List UInt8)) :
    Decoder.Documented .array (.object (some items) get) r ↔ List.Forall₂ IsText items r := by
  constructor
  · rintro (⟨_, ⟨h, -⟩, -⟩ | ⟨_, _, h, hall⟩)
    · cases h
    · cases h
      exact hall
  · exact fun h => .inr ⟨items, get, rfl, h⟩

theorem array_exact_object (items : List (Option Js)) (get : String → Option Js) :
    Decoder.Exact before .array (.object (some items) get) ↔
      items.find? (fun item => !isText item) ≠ some none := by
  rcases convertElements_cases items with
    ⟨r, hr, hall, hnone⟩ | ⟨f, bad, hr, hmem, hbad, hfind, hf⟩
  · rw [Decoder.exact_of_ok (d := .array) (v := .object (some items) get) hr,
      array_documented_object, hnone]
    exact iff_of_true hall (by simp)
  · have hno : ∀ r, ¬ Decoder.Documented .array (.object (some items) get) r := by
      intro r hdocr
      obtain ⟨bytes, -, htext⟩ := exists_of_forall₂ ((array_documented_object r).mp hdocr) hmem
      rw [isText_of_isText htext] at hbad
      cases hbad
    rw [hfind]
    cases f with
    | exn e =>
      refine iff_of_true ((Decoder.exact_of_exn (d := .array)
        (v := .object (some items) get) hr).mpr hno) fun h => ?_
      cases hf.mpr (Option.some.inj h)
    | emptyHandle =>
      refine iff_of_false (Decoder.not_exact (d := .array)
        (v := .object (some items) get) hr) fun h => h ?_
      rw [hf.mp rfl]

theorem array_exact_iff (v : Js) : Decoder.Exact before .array v ↔ Decoder.Fits .array v := by
  cases v with
  | string bytes => exact iff_of_true (array_exact_string bytes) fun _ _ h => by cases h
  | object elements get =>
    cases elements with
    | none =>
      refine iff_of_true (fun r hr => ?_) fun _ _ h => by cases h
      rcases hr with ⟨_, ⟨h, -⟩, -⟩ | ⟨_, _, h, -⟩ <;> cases h
    | some items =>
      rw [array_exact_object]
      constructor
      · intro h _ _ he
        cases he
        exact h
      · exact fun h => h items get rfl
  | _ =>
    refine iff_of_true (fun r hr => ?_) fun _ _ h => by cases h
    rcases hr with ⟨_, ⟨h, -⟩, -⟩ | ⟨_, _, h, -⟩ <;> cases h

theorem boolean_exact (v : Js) : Decoder.Exact before .boolean v := by
  cases v with
  | boolean b => exact (rfl : Js.boolean b = .boolean b)
  | _ =>
    intro r hr
    cases hr

theorem number_exact_iff (v : Js) : Decoder.Exact before .number v ↔ Decoder.Fits .number v := by
  cases v with
  | number x =>
    have hfits : Decoder.Fits .number (.number x) ↔ x.IsInt32 :=
      ⟨fun h => h x rfl, fun h _ he => Js.number.inj he ▸ h⟩
    rw [hfits, ← JsNumber.int32Value_iff]
    exact ⟨fun h => Js.number.inj h, fun h => congrArg Js.number h⟩
  | _ =>
    refine iff_of_true (fun r hr => ?_) fun x hx => ?_
    · cases hr
    · cases hx

theorem depth_range {n : Int} (h : n ∈ depths) : -2147483648 ≤ n ∧ n < 2147483648 := by
  simp only [depths, List.mem_cons, List.not_mem_nil, or_false] at h
  omega

theorem depth_exact_iff (v : Js) : Decoder.Exact before .depth v ↔ Decoder.Fits .depth v := by
  cases v with
  | number x =>
    have hfits : Decoder.Fits .depth (.number x) ↔ ∃ n ∈ depths, x = .ofInt n :=
      ⟨fun h => h x rfl, fun h _ he => Js.number.inj he ▸ h⟩
    rw [hfits]
    constructor
    · rintro ⟨h, hmem⟩
      exact ⟨_, hmem, Js.number.inj h⟩
    · rintro ⟨n, hn, rfl⟩
      obtain ⟨hl, hr⟩ := depth_range hn
      have hvalue := JsNumber.int32Value_ofInt hl hr
      show Js.number _ = .number (.ofInt _) ∧ _ ∈ depths
      rw [hvalue]
      exact ⟨rfl, hn⟩
  | _ =>
    refine iff_of_true (fun r hr => ?_) fun x hx => ?_
    · cases hr.1
    · cases hx

end Values

/-! ## Revisions -/

section Revisions

variable {before : UnionMemory} {q : RevisionRequest} {r : Revision}

/-- A revision that was made is the one that was asked for exactly if its number is kept. -/
theorem RevisionRequest.denotes_iff (h : q.revision before = .ok r) : q.Denotes r ↔ q.Kept := by
  cases q with
  | keyword x =>
    obtain ⟨kind, hkeyword, hcode, rfl⟩ := Revision.ofKind_eq_ok.mp h
    show kind.isKeyword = true ∧ x = .ofInt kind.code ↔ x.IsInt32
    rw [← hcode, JsNumber.int32Value_iff, and_iff_right hkeyword]
  | number n =>
    obtain rfl := Except.ok.inj h
    obtain ⟨hl, hr⟩ := JsNumber.int32Value_range n
    show _ = _ ∧ n = .ofInt (before.writeInt32 n.int32Value).readInt32 ↔ n.IsInt32
    rw [UnionMemory.readInt32_writeInt32 before hl hr, JsNumber.int32Value_iff]
    exact and_iff_right rfl
  | date d =>
    obtain rfl := Except.ok.inj h
    obtain ⟨hl, hr⟩ := JsNumber.integerValue_range d
    show _ = _ ∧ d = .ofInt (UnionMemory.writeInt64 d.integerValue).readInt64 ↔ d.IsInt64
    rw [UnionMemory.readInt64_writeInt64 hl hr, JsNumber.integerValue_iff]
    exact and_iff_right rfl

theorem code_range (kind : RevisionKind) : -2147483648 ≤ kind.code ∧ kind.code < 2147483648 := by
  cases kind <;> decide

/-- Whatever denotes a revision is accepted. -/
theorem RevisionRequest.accepted_of_denotes (h : q.Denotes r) : q.accepted = true := by
  cases q with
  | keyword x =>
    obtain ⟨hkeyword, rfl⟩ := h
    obtain ⟨hl, hr⟩ := code_range r.kind
    show Option.any _ (RevisionKind.ofCode (JsNumber.ofInt r.kind.code).int32Value) = true
    rw [JsNumber.int32Value_ofInt hl hr, ofCode_eq_some.mpr rfl]
    exact hkeyword
  | number n => rfl
  | date d => rfl

theorem revision_exact_iff (v : Js) :
    Decoder.Exact before .revision v ↔ Decoder.Fits .revision v := by
  cases hdecode : revisionValue before v with
  | ok r =>
    obtain ⟨q, hq, hqr⟩ := revisionValue_eq_ok.mp hdecode
    have haccepted := RevisionRequest.accepted_iff.mpr ⟨r, hqr⟩
    rw [Decoder.exact_of_ok (d := .revision) hdecode]
    constructor
    · rintro ⟨q', hq', hdenotes⟩ q'' hq'' -
      obtain rfl := Option.some.inj (hq.symm.trans hq')
      obtain rfl := Option.some.inj (hq.symm.trans hq'')
      exact (RevisionRequest.denotes_iff hqr).mp hdenotes
    · intro hfits
      exact ⟨q, hq, (RevisionRequest.denotes_iff hqr).mpr (hfits q hq haccepted)⟩
  | error f =>
    obtain ⟨e, rfl⟩ := revisionValue_eq_error hdecode
    have hno : ∀ q, v.request = some q → ¬ q.accepted = true := by
      intro q hq haccepted
      obtain ⟨r, hr⟩ := RevisionRequest.accepted_iff.mp haccepted
      cases (revisionValue_eq_ok.mpr ⟨q, hq, hr⟩).symm.trans hdecode
    rw [Decoder.exact_of_exn (d := .revision) hdecode]
    refine iff_of_true ?_ fun q hq haccepted => absurd haccepted (hno q hq)
    rintro r ⟨q, hq, hdenotes⟩
    exact hno q hq (RevisionRequest.accepted_of_denotes hdenotes)

end Revisions

/-! ## Ranges -/

section Ranges

variable {before : UnionMemory} {q : RevisionRequest} {r : Revision} {v : Js}
  {get : String → Option Js} {key : String} {item : Option Js} {p : Revision × Revision}

theorem code_eq_zero_iff (kind : RevisionKind) : kind.code = 0 ↔ kind = .unspecified := by
  cases kind <;> decide

theorem RevisionRequest.specified_iff (h : q.revision before = .ok r) :
    q.specified = true ↔ r.kind ≠ .unspecified := by
  cases q with
  | keyword x =>
    obtain ⟨kind, -, hcode, rfl⟩ := Revision.ofKind_eq_ok.mp h
    show decide (x.int32Value ≠ 0) = true ↔ _
    rw [hcode, decide_eq_true_iff, ne_eq, code_eq_zero_iff]
  | number n =>
    obtain rfl := Except.ok.inj h
    exact iff_of_true rfl fun hk => RevisionKind.noConfusion hk
  | date d =>
    obtain rfl := Except.ok.inj h
    exact iff_of_true rfl fun hk => RevisionKind.noConfusion hk

theorem endRequest_eq_some :
    endRequest get key = some q ↔
      ∃ v, get key = some v ∧ v.request = some q ∧ q.accepted = true ∧ q.specified = true := by
  unfold endRequest
  constructor
  · intro h
    obtain ⟨v, hv, h⟩ := Option.bind_eq_some_iff.mp h
    obtain ⟨q', hq, h⟩ := Option.bind_eq_some_iff.mp h
    split at h
    · rename_i hand
      obtain rfl := Option.some.inj h
      exact ⟨v, hv, hq, (Bool.and_eq_true_iff.mp hand).1, (Bool.and_eq_true_iff.mp hand).2⟩
    · cases h
  · rintro ⟨v, hv, hq, ha, hs⟩
    rw [hv, Option.bind_eq_bind, Option.bind_some, hq, Option.bind_eq_bind, Option.bind_some]
    rw [ha, hs]
    rfl

/-- An end that is there and specified. -/
theorem end_eq_ok :
    (convertRevision before (some get) key .unspecified = .ok r ∧ r.kind ≠ .unspecified) ↔
      ∃ q, endRequest get key = some q ∧ q.revision before = .ok r := by
  constructor
  · rintro ⟨h, hk⟩
    unfold convertRevision at h
    cases hv : get key with
    | none =>
      simp only [convertOption, getProperty, hv] at h
      cases h
    | some v =>
      by_cases hne : v = .undefined
      · subst hne
        simp only [convertOption, getProperty, hv] at h
        obtain rfl := Except.ok.inj h
        exact absurd rfl hk
      · rw [convertOption_some hv hne] at h
        obtain ⟨q, hq, hr⟩ := revisionValue_eq_ok.mp h
        exact ⟨q, endRequest_eq_some.mpr ⟨v, hv, hq, RevisionRequest.accepted_iff.mpr ⟨r, hr⟩,
          (RevisionRequest.specified_iff hr).mpr hk⟩, hr⟩
  · rintro ⟨q, h, hr⟩
    obtain ⟨v, hv, hq, -, hs⟩ := endRequest_eq_some.mp h
    refine ⟨?_, (RevisionRequest.specified_iff hr).mp hs⟩
    have hne : v ≠ .undefined := by
      rintro rfl
      cases hq
    unfold convertRevision
    rw [convertOption_some hv hne]
    exact revisionValue_eq_ok.mpr ⟨q, hq, hr⟩

theorem end_eq_error {f : DecodeFailure}
    (h : convertRevision before (some get) key .unspecified = .error f) : ∃ e, f = .exn e := by
  unfold convertRevision at h
  cases hv : get key with
  | none =>
    simp only [convertOption, getProperty, hv] at h
    exact ⟨_, (Except.error.inj h).symm⟩
  | some v =>
    by_cases hne : v = .undefined
    · subst hne
      simp only [convertOption, getProperty, hv] at h
      cases h
    · rw [convertOption_some hv hne] at h
      exact revisionValue_eq_error h

/-- An end is the one that was asked for exactly if its number is kept. -/
theorem isEnd_iff (h : endRequest get key = some q) (hr : q.revision before = .ok r) :
    IsEnd get key r ↔ q.Kept := by
  obtain ⟨v, hv, hq, -, hs⟩ := endRequest_eq_some.mp h
  rw [← RevisionRequest.denotes_iff hr]
  constructor
  · rintro ⟨v', q', hv', hq', hd, -⟩
    obtain rfl := Option.some.inj (hv.symm.trans hv')
    obtain rfl := Option.some.inj (hq.symm.trans hq')
    exact hd
  · intro hd
    exact ⟨v, q, hv, hq, hd, (RevisionRequest.specified_iff hr).mp hs⟩

theorem endRequest_of_isEnd (h : IsEnd get key r) : ∃ q, endRequest get key = some q := by
  obtain ⟨v, q, hv, hq, hd, hk⟩ := h
  refine ⟨q, endRequest_eq_some.mpr ⟨v, hv, hq, RevisionRequest.accepted_of_denotes hd, ?_⟩⟩
  cases q with
  | keyword x =>
    obtain ⟨-, rfl⟩ := hd
    obtain ⟨hl, hr⟩ := code_range r.kind
    show decide ((JsNumber.ofInt r.kind.code).int32Value ≠ 0) = true
    rw [JsNumber.int32Value_ofInt hl hr, decide_eq_true_iff, ne_eq, code_eq_zero_iff]
    exact hk
  | number n => rfl
  | date d => rfl

theorem rangeRequest_eq_some {qs : RevisionRequest × RevisionRequest} :
    rangeRequest item = some qs ↔ ∃ elements get, item = some (.object elements get) ∧
      endRequest get "start" = some qs.1 ∧ endRequest get "end" = some qs.2 := by
  constructor
  · intro h
    unfold rangeRequest at h
    split at h
    · obtain ⟨start, hstart, h⟩ := Option.bind_eq_some_iff.mp h
      obtain ⟨last, hlast, h⟩ := Option.bind_eq_some_iff.mp h
      obtain rfl := Option.some.inj h
      exact ⟨_, _, rfl, hstart, hlast⟩
    · cases h
  · rintro ⟨elements, get, rfl, hstart, hlast⟩
    simp only [rangeRequest, hstart, hlast]
    rfl

/-- `convert_revision_range` takes the objects whose ends it takes. -/
theorem range_eq_ok :
    convertRevisionRange before item = .ok p ↔ ∃ qs, rangeRequest item = some qs ∧
      qs.1.revision before = .ok p.1 ∧ qs.2.revision before = .ok p.2 := by
  rw [convertRevisionRange_eq_ok]
  constructor
  · rintro ⟨elements, get, rfl, hstart, hlast⟩
    obtain ⟨q₁, hq₁, hr₁⟩ := end_eq_ok.mp hstart
    obtain ⟨q₂, hq₂, hr₂⟩ := end_eq_ok.mp hlast
    exact ⟨(q₁, q₂), rangeRequest_eq_some.mpr ⟨elements, get, rfl, hq₁, hq₂⟩, hr₁, hr₂⟩
  · rintro ⟨qs, hqs, hr₁, hr₂⟩
    obtain ⟨elements, get, rfl, hq₁, hq₂⟩ := rangeRequest_eq_some.mp hqs
    exact ⟨elements, get, rfl, end_eq_ok.mpr ⟨qs.1, hq₁, hr₁⟩, end_eq_ok.mpr ⟨qs.2, hq₂, hr₂⟩⟩

theorem range_eq_error {f : DecodeFailure} (h : convertRevisionRange before item = .error f) :
    ∃ e, f = .exn e := by
  unfold convertRevisionRange at h
  split at h
  · rename_i elements get
    cases hstart : convertRevision before (some get) "start" .unspecified with
    | error f' =>
      rw [hstart] at h
      obtain rfl : f' = f := Except.error.inj h
      exact end_eq_error hstart
    | ok start =>
      rw [hstart, Except.ok_bind] at h
      split at h
      · exact ⟨_, (Except.error.inj h).symm⟩
      · cases hlast : convertRevision before (some get) "end" .unspecified with
        | error f' =>
          rw [hlast] at h
          obtain rfl : f' = f := Except.error.inj h
          exact end_eq_error hlast
        | ok last =>
          rw [hlast, Except.ok_bind] at h
          split at h
          · exact ⟨_, (Except.error.inj h).symm⟩
          · cases h
  · exact ⟨_, (Except.error.inj h).symm⟩

/-- A range is the one that was asked for exactly if both numbers are kept. -/
theorem isRange_iff (h : convertRevisionRange before item = .ok p) :
    IsRange item p ↔ RangeKept item := by
  obtain ⟨qs, hqs, hr₁, hr₂⟩ := range_eq_ok.mp h
  obtain ⟨elements, get, rfl, hq₁, hq₂⟩ := rangeRequest_eq_some.mp hqs
  have hkept : RangeKept (some (.object elements get)) ↔ qs.1.Kept ∧ qs.2.Kept := by
    constructor
    · intro hk
      exact hk qs hqs
    · intro hk qs' hqs'
      obtain rfl := Option.some.inj (hqs.symm.trans hqs')
      exact hk
  rw [hkept, ← isEnd_iff hq₁ hr₁, ← isEnd_iff hq₂ hr₂]
  constructor
  · rintro ⟨_, _, he, h₁, h₂⟩
    cases he
    exact ⟨h₁, h₂⟩
  · rintro ⟨h₁, h₂⟩
    exact ⟨elements, get, rfl, h₁, h₂⟩

/-- Whatever is a range is accepted. -/
theorem range_ok_of_isRange (h : IsRange item p) :
    (rangeRequest item).isSome = true := by
  obtain ⟨elements, get, rfl, h₁, h₂⟩ := h
  obtain ⟨q₁, hq₁⟩ := endRequest_of_isEnd h₁
  obtain ⟨q₂, hq₂⟩ := endRequest_of_isEnd h₂
  rw [show rangeRequest _ = some (q₁, q₂) from
    rangeRequest_eq_some.mpr ⟨elements, get, rfl, hq₁, hq₂⟩]
  rfl

theorem rangeRequest_isSome_iff (before : UnionMemory) :
    (rangeRequest item).isSome = true ↔ ∃ p, convertRevisionRange before item = .ok p := by
  constructor
  · intro h
    obtain ⟨qs, hqs⟩ := Option.isSome_iff_exists.mp h
    obtain ⟨elements, get, rfl, hq₁, hq₂⟩ := rangeRequest_eq_some.mp hqs
    obtain ⟨v₁, -, -, ha₁, -⟩ := endRequest_eq_some.mp hq₁
    obtain ⟨v₂, -, -, ha₂, -⟩ := endRequest_eq_some.mp hq₂
    obtain ⟨r₁, hr₁⟩ := RevisionRequest.accepted_iff.mp ha₁
    obtain ⟨r₂, hr₂⟩ := RevisionRequest.accepted_iff.mp ha₂
    exact ⟨(r₁, r₂), range_eq_ok.mpr ⟨qs, hqs, hr₁, hr₂⟩⟩
  · rintro ⟨p, hp⟩
    obtain ⟨qs, hqs, -, -⟩ := range_eq_ok.mp hp
    rw [hqs]
    rfl

/-- The ranges of an array are those that were asked for exactly if all their numbers are. -/
theorem forall₂_isRange_iff {items : List (Option Js)} {ps : List (Revision × Revision)}
    (h : List.Forall₂ (fun item p => convertRevisionRange before item = .ok p) items ps) :
    List.Forall₂ IsRange items ps ↔ ∀ item ∈ items, RangeKept item := by
  induction h with
  | nil => simp
  | cons hp _ ih => rw [List.forall₂_cons, isRange_iff hp, ih, List.forall_mem_cons]

theorem oneRange_exact_iff (before : UnionMemory) (get : String → Option Js) :
    Decoder.Exact before .revisionRanges (.object none get) ↔
      RangeKept (some (.object none get)) := by
  have hdoc : ∀ ps, Decoder.Documented .revisionRanges (.object none get) ps ↔
      ∃ p, IsRange (some (.object none get)) p ∧ ps = [p] := by
    intro ps
    constructor
    · rintro (⟨_, p, h, hp, rfl⟩ | ⟨_, _, h, -⟩)
      · exact ⟨p, hp, rfl⟩
      · cases h
    · rintro ⟨p, hp, rfl⟩
      exact .inl ⟨get, p, rfl, hp, rfl⟩
  have hdecode : decode before .revisionRanges (.object none get) =
      (convertRevisionRange before (some (.object none get))).map fun r => [r] := rfl
  cases h : convertRevisionRange before (some (.object none get)) with
  | ok p =>
    rw [h] at hdecode
    rw [Decoder.exact_of_ok hdecode, hdoc, ← isRange_iff h]
    constructor
    · rintro ⟨p', hp', he⟩
      obtain rfl : p = p' := (List.cons.inj he).1
      exact hp'
    · exact fun hp => ⟨p, hp, rfl⟩
  | error f =>
    obtain ⟨e, rfl⟩ := range_eq_error h
    rw [h] at hdecode
    have hno : ¬ (rangeRequest (some (.object none get))).isSome = true := by
      rw [rangeRequest_isSome_iff before]
      rintro ⟨p, hp⟩
      cases hp.symm.trans h
    refine iff_of_true ((Decoder.exact_of_exn hdecode).mpr fun ps hps => ?_) fun q hq => ?_
    · obtain ⟨p, hp, -⟩ := (hdoc ps).mp hps
      exact hno (range_ok_of_isRange hp)
    · rw [hq] at hno
      exact absurd rfl hno

theorem manyRanges_exact_iff (before : UnionMemory) (items : List (Option Js))
    (get : String → Option Js) :
    Decoder.Exact before .revisionRanges (.object (some items) get) ↔
      ((∀ item ∈ items, (rangeRequest item).isSome = true) → ∀ item ∈ items, RangeKept item) := by
  have hdoc : ∀ ps, Decoder.Documented .revisionRanges (.object (some items) get) ps ↔
      List.Forall₂ IsRange items ps := by
    intro ps
    constructor
    · rintro (⟨_, p, h, -⟩ | ⟨_, _, h, hall⟩)
      · cases h
      · cases h
        exact hall
    · exact fun h => .inr ⟨items, get, rfl, h⟩
  have hdecode : decode before .revisionRanges (.object (some items) get) =
      items.mapM (convertRevisionRange before) := rfl
  cases h : items.mapM (convertRevisionRange before) with
  | ok ps =>
    have hall := Except.mapM_eq_ok_iff.mp h
    have hsome : ∀ item ∈ items, (rangeRequest item).isSome = true := by
      intro item hi
      obtain ⟨p, -, hp⟩ := exists_of_forall₂ hall hi
      exact (rangeRequest_isSome_iff before).mpr ⟨p, hp⟩
    rw [h] at hdecode
    rw [Decoder.exact_of_ok hdecode, hdoc, forall₂_isRange_iff hall, forall_prop_of_true hsome]
  | error f =>
    obtain ⟨bad, hbad, hf⟩ := Except.exists_of_mapM_eq_error h
    obtain ⟨e, rfl⟩ := range_eq_error hf
    rw [h] at hdecode
    have hno : ¬ (rangeRequest bad).isSome = true := by
      rw [rangeRequest_isSome_iff before]
      rintro ⟨p, hp⟩
      cases hp.symm.trans hf
    refine iff_of_true ((Decoder.exact_of_exn hdecode).mpr fun ps hps => ?_) fun hall => ?_
    · obtain ⟨p, -, hp⟩ := exists_of_forall₂ ((hdoc ps).mp hps) hbad
      exact hno (range_ok_of_isRange hp)
    · exact absurd (hall bad hbad) hno

theorem ranges_exact_iff (before : UnionMemory) (v : Js) :
    Decoder.Exact before .revisionRanges v ↔ Decoder.Fits .revisionRanges v := by
  cases v with
  | object elements get =>
    have hfits : Decoder.Fits .revisionRanges (.object elements get) ↔
        match elements with
        | none => RangeKept (some (.object elements get))
        | some items => (∀ item ∈ items, (rangeRequest item).isSome = true) →
          ∀ item ∈ items, RangeKept item := by
      constructor
      · rintro ⟨_, _, he, h⟩
        cases he
        exact h
      · exact fun h => ⟨elements, get, rfl, h⟩
    rw [hfits]
    cases elements with
    | none => exact oneRange_exact_iff before get
    | some items => exact manyRanges_exact_iff before items get
  | _ =>
    refine iff_of_false (fun h => ?_) ?_
    · rcases h with ⟨_, _, he, -⟩ | ⟨_, _, he, -⟩ <;> cases he
    · rintro ⟨_, _, he, -⟩
      cases he

end Ranges

/-! ## All decoders -/

/-- A method whose options are neither undefined nor an object queues nothing. -/
theorem callMethod_options {before : UnionMemory} {m : Method} {args : Nat → Js}
    {queue : List QueuedJob} (h : (callMethod before m args queue).2 ≠ queue)
    (ho : m.options.isSome = true) :
    args m.arguments.length = .undefined ∨
      ∃ elements get, args m.arguments.length = .object elements get := by
  obtain ⟨decoders, hd⟩ := Option.isSome_iff_exists.mp ho
  unfold callMethod at h
  cases hc : decodeArguments before m args with
  | error e =>
    rw [hc] at h
    exact absurd rfl h
  | ok captured =>
    unfold decodeArguments at hc
    obtain ⟨arguments, -, hc⟩ := Except.bind_eq_ok_iff.mp hc
    rw [hd] at hc
    obtain ⟨options, hoptions, -⟩ := Except.bind_eq_ok_iff.mp hc
    cases hv : args m.arguments.length with
    | undefined => exact .inl rfl
    | object elements get => exact .inr ⟨elements, get, rfl⟩
    | _ =>
      rw [hv] at hoptions
      cases hoptions

/-- **A value that is not undefined is decoded as documented exactly if it `Fits`; and a
method queues its job only if all its values were decoded, and with what that gave.** -/
theorem decode_exact_iff (before : UnionMemory) :
    (∀ (d : Decoder) (v : Js), v ≠ .undefined → (d.Exact before v ↔ d.Fits v)) ∧
    ∀ (m : Method) (args : Nat → Js) (queue : List QueuedJob),
      (callMethod before m args queue).2 ≠ queue →
      (m.options.isSome = true → args m.arguments.length = .undefined ∨
        ∃ elements get, args m.arguments.length = .object elements get) ∧
      ∀ (d : Decoder) (v : Js), m.Reads args d v → v ≠ .undefined →
        ∃ captured r, (callMethod before m args queue).2 = queue ++ [⟨m, captured⟩] ∧
          decode before d v = .ok r ∧ ⟨d, some r⟩ ∈ captured := by
  refine ⟨fun d v _ => ?_, fun m args queue h =>
    ⟨callMethod_options h, fun d v hr hne => callMethod_queued h hr hne⟩⟩
  cases d with
  | string => exact iff_of_true (string_exact v) trivial
  | array => exact array_exact_iff v
  | number => exact number_exact_iff v
  | boolean => exact iff_of_true (boolean_exact v) trivial
  | depth => exact depth_exact_iff v
  | revision => exact revision_exact_iff v
  | revisionRanges => exact ranges_exact_iff before v

/-- A path, and the options `{depth: files, ignore_externals: true}`. -/
def statusArguments : Nat → Js
  | 0 => .string [97]
  | 1 => .object none fun key =>
    some (if key = "depth" then .number (.ofInt 1)
      else if key = "ignore_externals" then .boolean true else .undefined)
  | _ => .undefined

/-- The depth `files`; and `status`, which captures its path and both options. -/
theorem decode_exact_iff_status :
    Decoder.Exact ⟨0, 0⟩ .depth (.number (.ofInt 1)) ∧
    (statusArguments 1 = .undefined ∨
      ∃ elements get, statusArguments 1 = .object elements get) ∧
    ∀ p ∈ [(⟨.string, .string [97]⟩ : Decoder × Js), ⟨.depth, .number (.ofInt 1)⟩,
        ⟨.boolean, .boolean true⟩],
      ∃ captured r, (callMethod ⟨0, 0⟩ .status statusArguments []).2 =
        [] ++ [⟨.status, captured⟩] ∧ decode ⟨0, 0⟩ p.1 p.2 = .ok r ∧
        ⟨p.1, some r⟩ ∈ captured := by
  have h := decode_exact_iff ⟨0, 0⟩
  obtain ⟨hoptions, hreads⟩ := h.2 .status statusArguments [] (List.cons_ne_nil _ _)
  refine ⟨(h.1 .depth _ (by simp)).mpr fun x hx => ?_, hoptions rfl, fun p hp => ?_⟩
  · exact ⟨1, by decide, (Js.number.inj hx).symm⟩
  · have hread : Method.Reads .status statusArguments p.1 p.2 ∧ p.2 ≠ .undefined := by
      simp only [List.mem_cons, List.not_mem_nil, or_false] at hp
      obtain rfl | rfl | rfl := hp
      · exact ⟨.argument (i := 0) (a := .string) rfl, by simp⟩
      · exact ⟨.option (o := .depth "depth" 3) rfl rfl (by simp) rfl, by simp⟩
      · exact ⟨.option (o := .boolean "ignore_externals" false) rfl rfl (by simp) rfl, by simp⟩
    exact hreads p.1 p.2 hread.1 hread.2

/-- The depth 7. -/
theorem not_decode_exact_depth :
    ¬ ∀ (before : UnionMemory) (d : Decoder) (v : Js), v ≠ .undefined → d.Exact before v := by
  intro h
  have hexact : Js.number (.ofInt 7) = .number (.ofInt (JsNumber.ofInt 7).int32Value) ∧
      (JsNumber.ofInt 7).int32Value ∈ depths :=
    h ⟨0, 0⟩ .depth (.number (.ofInt 7)) (by simp)
  rw [JsNumber.int32Value_ofInt (by decide) (by decide)] at hexact
  exact absurd hexact.2 (by decide)

end NodeSvn
