import NodeSvn.Lib.Decimal
import NodeSvn.Node.Reports

/-!
# Which reports reach JS, and what JS sees of them

Two things keep a report from JS: a `std::string` made of `NULL`, and a string longer than
V8's; then the callback, or the trampoline, throws.  A text that is no UTF-8, such as a line of
a Latin-1 file, arrives as another text, for `NewFromUtf8` puts U+FFFD in its place
(`delivered_iff`).  A report that arrives
shows a revision as the same number exactly if it is an `int32_t`; a line number may be larger,
and then is a string (`faithful_iff`).
-/

namespace NodeSvn

/-- `v8::String::NewFromUtf8` on UTF-8, given a size of -1 or that of the bytes as an `int`: it
takes up to `maxLength` bytes.  What it makes of bytes that are no UTF-8 is left open here. -/
structure V8Strings (newFromUtf8 : NewFromUtf8) (maxLength : Nat) : Prop where
  /-- numbers of 64 bits fit -/
  room : 80 ≤ maxLength
  takes : ∀ (s : String) type size, size = -1 ∨ size = toInt32 s.utf8.length →
    (newFromUtf8 s.utf8 type size = some s ↔ s.utf8.length ≤ maxLength)

/-- It takes up to `maxLength` bytes, and replaces those that are no UTF-8. -/
def NewFromUtf8.upTo (maxLength : Nat) : NewFromUtf8 :=
  fun bytes _ _ => if bytes.length ≤ maxLength then some (decodeUtf8 bytes) else none

/-! ## What is to be shown -/

/-- The number itself, or its decimal digits. -/
def JsData.Denotes (d : JsData) (n : Int) : Prop :=
  d = .number (.ofInt n) ∨ d = .string (toString n)

namespace Source

/-- Undefined for `NULL`, and otherwise the string of these bytes. -/
def ShowsText (p : Property) : Source → Prop
  | text none => p = .data .undefined
  | text (some bytes) => ∃ s : String, p = .data (.string s) ∧ s.utf8 = bytes
  | _ => True

/-- The same integer, and undefined for a revision that there is not. -/
def ShowsNumber (p : Property) : Source → Prop
  | revision n => ∃ d : JsData, p = .data d ∧ d.Denotes n
  | optionalRevision n => ∃ d : JsData, p = .data d ∧ if n = -1 then d = .undefined else d.Denotes n
  | line n => ∃ d : JsData, p = .data d ∧ d.Denotes n
  | _ => True

/-- The string, if there is one, is not too long for V8. -/
def Short (maxLength : Nat) : Source → Prop
  | text (some bytes) => bytes.length ≤ maxLength
  | _ => True

def IsText : Source → Prop
  | text (some bytes) => IsUtf8 bytes
  | _ => True

/-- There is an equal string in JS. -/
def TextFits (maxLength : Nat) (s : Source) : Prop := s.Short maxLength ∧ s.IsText

/-- A revision is an `int32_t`, a line number no less than one. -/
def NumberFits : Source → Prop
  | revision n => -2147483648 ≤ n ∧ n < 2147483648
  | optionalRevision n => -2147483648 ≤ n ∧ n < 2147483648
  | line n => -2147483648 ≤ n
  | _ => True

/-- A line number is an `int64_t`. -/
def InRange : Source → Prop
  | line n => -9223372036854775808 ≤ n ∧ n < 9223372036854775808
  | _ => True

end Source

namespace Report

/-- The item is made, and its strings are those of the report. -/
def Delivered (newFromUtf8 : NewFromUtf8) (r : Report) : Prop :=
  ∃ fuel item, r.deliver newFromUtf8 fuel = pure item ∧
    List.Forall₂ (fun s p => s.1 = p.1 ∧ s.2.ShowsText p.2) r.sources item

/-- The numbers of the item are those of the report. -/
def Faithful (r : Report) (item : List (String × Property)) : Prop :=
  List.Forall₂ (fun s p => s.1 = p.1 ∧ s.2.ShowsNumber p.2) r.sources item

/-- What becomes a `std::string` is not `NULL`. -/
def Complete : Report → Prop
  | status path _ => path.isSome = true
  | commit _ raw => raw.date.isSome = true ∧ raw.author.isSome = true
  | remove raw => raw.date.isSome = true ∧ raw.author.isSome = true
  | _ => True

def InRange (r : Report) : Prop := ∀ s ∈ r.sources, s.2.InRange

end Report

/-! ## Carrying -/

/-- What the code makes of it. -/
inductive Source.Carries : Source → Assigned → Prop where
  | chars (raw : CStr) : Carries (.text raw) (.data (.charPointer raw))
  | string (s : List UInt8) : Carries (.text (some s)) (.data (.stdString s))
  | view (s : List UInt8) : Carries (.text (some s)) (.data (.stringView s))
  | flag (b : Bool) : Carries (.flag b) (.data (.bool b))
  | enumerator (n : Int) : Carries (.enumerator n) (.data (.int32 n))
  | time (t : Int) : Carries (.time t) (.date t)
  | revision (n : Int) : Carries (.revision n) (.data (.int32 (toInt32 n)))
  | optionalRevision (n : Int) :
    Carries (.optionalRevision n) (.data (.optionalInt32 (convertToRevisionNumber n)))
  | line (n : Int) : Carries (.line n) (.data (.int64 n))

section Laws

variable {newFromUtf8 : NewFromUtf8} {maxLength : Nat}
  {r : Report} {s : Source} {a : Assigned} {p : Property}

theorem stdString_eq_ok {raw : CStr} {value : List UInt8} :
    stdString raw = .ok value ↔ raw = some value := by
  cases raw with
  | none => exact ⟨fun h => (by cases h), fun h => (by cases h)⟩
  | some value' =>
    show Except.ok value' = _ ↔ _
    rw [Except.ok.injEq, Option.some.injEq]

theorem convertToCommitInfo_eq_ok {raw : RawCommitInfo} {info : CommitInfo}
    (h : convertToCommitInfo (some raw) = .ok info) :
    ∃ date author, raw.date = some date ∧ raw.author = some author ∧
      info = ⟨toInt32 raw.revision, date, author, raw.postCommitErr, raw.reposRoot⟩ := by
  obtain ⟨date, hdate, h⟩ := Except.bind_eq_ok_iff.mp h
  obtain ⟨author, hauthor, h⟩ := Except.bind_eq_ok_iff.mp h
  exact ⟨date, author, stdString_eq_ok.mp hdate, stdString_eq_ok.mp hauthor,
    (Except.pure_eq_ok_iff.mp h).symm⟩

/-- **Each property is assigned what was reported for it.** -/
theorem Report.carries {assignments : List (String × Assigned)} (h : r.assigned = .ok assignments) :
    List.Forall₂ (fun s a => s.1 = a.1 ∧ s.2.Carries a.2) r.sources assignments := by
  cases r with
  | status path raw =>
    obtain ⟨rawStatus, hraw, h⟩ := Except.bind_eq_ok_iff.mp h
    obtain ⟨value, hvalue, h⟩ := Except.bind_eq_ok_iff.mp h
    obtain rfl := stdString_eq_ok.mp hvalue
    obtain rfl := Except.ok.inj hraw
    obtain rfl := Except.pure_eq_ok_iff.mp h
    repeat' constructor
  | info path raw =>
    obtain rfl := Except.ok.inj h
    repeat' constructor
  | commit notifyPath raw =>
    obtain ⟨info, hraw, rfl⟩ := Except.map_eq_ok_iff.mp h
    obtain ⟨date, author, hdate, hauthor, rfl⟩ := convertToCommitInfo_eq_ok hraw
    rw [Report.sources, hdate, hauthor]
    repeat' constructor
  | remove raw =>
    obtain ⟨info, hraw, rfl⟩ := Except.map_eq_ok_iff.mp h
    obtain ⟨date, author, hdate, hauthor, rfl⟩ := convertToCommitInfo_eq_ok hraw
    rw [Report.sources, hdate, hauthor]
    repeat' constructor
  | log raw =>
    obtain rfl := Except.ok.inj h
    repeat' constructor
  | blame raw =>
    obtain rfl := Except.ok.inj h
    repeat' constructor
  | update raw =>
    obtain rfl := Except.ok.inj h
    repeat' constructor

theorem Report.assigned_ok_iff : (∃ assignments, r.assigned = .ok assignments) ↔ r.Complete := by
  cases r with
  | status path raw => cases path <;> simp [Report.assigned, Report.Complete, convertToStatus,
      stdString, pure, Except.pure]
  | info path raw => exact ⟨fun _ => trivial, fun _ => ⟨_, rfl⟩⟩
  | commit notifyPath raw =>
    simp only [Report.assigned, Except.map_eq_ok_iff, Report.Complete]
    rw [exists_comm]
    simp only [exists_and_left, exists_eq', and_true]
    rw [convertToCommitInfo_ok_iff]
    simp
  | remove raw =>
    simp only [Report.assigned, Except.map_eq_ok_iff, Report.Complete]
    rw [exists_comm]
    simp only [exists_and_left, exists_eq', and_true]
    rw [convertToCommitInfo_ok_iff]
    simp
  | log raw => exact ⟨fun _ => trivial, fun _ => ⟨_, rfl⟩⟩
  | blame raw => exact ⟨fun _ => trivial, fun _ => ⟨_, rfl⟩⟩
  | update raw => exact ⟨fun _ => trivial, fun _ => ⟨_, rfl⟩⟩

/-! ## Making the item -/

/-- What an assignment leaves in the property. -/
def Assigned.Gives (newFromUtf8 : NewFromUtf8) (p : Property) :
    Assigned → Prop
  | data v => ∃ d, v.result newFromUtf8 = some (.ok d) ∧ p = .data d
  | date value => p = .date (convertToDate value)

theorem PathM.mapM_eq_pure_iff {α β : Type} {f : α → PathM β} {l : List α} {bs : List β} :
    l.mapM f = pure bs ↔ List.Forall₂ (fun a b => f a = pure b) l bs := by
  induction l generalizing bs with
  | nil =>
    rw [List.mapM_nil, List.forall₂_nil_left_iff]
    exact ⟨fun h => (PathM.pure_inj h).symm, fun h => h ▸ rfl⟩
  | cons a l ih =>
    rw [List.mapM_cons, bind_eq_pure_iff, List.forall₂_cons_left_iff]
    constructor
    · rintro ⟨b, hb, h⟩
      obtain ⟨bs', hbs, h⟩ := bind_eq_pure_iff.mp h
      exact ⟨b, bs', hb, ih.mp hbs, (PathM.pure_inj h).symm⟩
    · rintro ⟨b, bs', hb, hbs, rfl⟩
      exact ⟨b, hb, bind_eq_pure_iff.mpr ⟨bs', ih.mpr hbs, rfl⟩⟩

theorem gives_of_assign {fuel : Nat} {a : String × Assigned} {p : String × Property}
    (h : assign newFromUtf8 fuel a = pure p) : a.1 = p.1 ∧ a.2.Gives newFromUtf8 p.2 := by
  obtain ⟨name, value⟩ := a
  cases value with
  | data v =>
    obtain ⟨d, hd, h⟩ := PathM.bind_eq_pure_iff.mp h
    obtain rfl := PathM.pure_inj h
    exact ⟨rfl, d, noData_iff.mp ⟨fuel, hd⟩, rfl⟩
  | date value =>
    obtain rfl := PathM.pure_inj h
    exact ⟨rfl, rfl⟩

theorem assign_of_gives {a : String × Assigned} {p : String × Property} (hname : a.1 = p.1)
    (h : a.2.Gives newFromUtf8 p.2) : assign newFromUtf8 2 a = pure p := by
  obtain ⟨name, value⟩ := a
  obtain ⟨name', value'⟩ := p
  obtain rfl : name = name' := hname
  cases value with
  | data v =>
    obtain ⟨d, hd, rfl⟩ : ∃ d, v.result newFromUtf8 = some (.ok d) ∧ value' = .data d := h
    exact PathM.bind_eq_pure_iff.mpr ⟨d, noData_of_result hd 0, rfl⟩
  | date value =>
    obtain rfl : value' = .date (convertToDate value) := h
    rfl

theorem gives_of_makeItem {fuel : Nat} {assignments : List (String × Assigned)}
    {item : List (String × Property)} (h : makeItem newFromUtf8 fuel assignments = pure item) :
    List.Forall₂ (fun a p => a.1 = p.1 ∧ a.2.Gives newFromUtf8 p.2) assignments item :=
  (PathM.mapM_eq_pure_iff.mp h).imp fun _ _ h => gives_of_assign h

theorem makeItem_of_gives {assignments : List (String × Assigned)}
    {item : List (String × Property)}
    (h : List.Forall₂ (fun a p => a.1 = p.1 ∧ a.2.Gives newFromUtf8 p.2) assignments item) :
    makeItem newFromUtf8 2 assignments = pure item :=
  PathM.mapM_eq_pure_iff.mpr (h.imp fun _ _ h => assign_of_gives h.1 h.2)

theorem makeItem_iff {assignments : List (String × Assigned)} {item : List (String × Property)} :
    (∃ fuel, makeItem newFromUtf8 fuel assignments = pure item) ↔
      List.Forall₂ (fun a p => a.1 = p.1 ∧ a.2.Gives newFromUtf8 p.2) assignments item := by
  constructor
  · rintro ⟨fuel, h⟩
    exact gives_of_makeItem h
  · intro h
    exact ⟨2, makeItem_of_gives h⟩

theorem Report.deliver_iff {item : List (String × Property)} :
    (∃ fuel, r.deliver newFromUtf8 fuel = pure item) ↔
      ∃ assignments, r.assigned = .ok assignments ∧
        List.Forall₂ (fun a p => a.1 = p.1 ∧ a.2.Gives newFromUtf8 p.2) assignments item := by
  unfold Report.deliver
  cases r.assigned with
  | ok assignments => simp [makeItem_iff]
  | error e =>
    constructor
    · rintro ⟨fuel, h⟩
      cases h
    · rintro ⟨assignments, h, -⟩
      cases h

/-! ## One property -/

theorem newString_eq_ok {value : List UInt8} {type : NewStringType} {size : Int} {empty : Stop}
    {d : JsData} (h : newString newFromUtf8 value type size empty = .ok d) :
    ∃ t, newFromUtf8 value type size = some t ∧ d = .string t := by
  unfold newString at h
  split at h
  · rename_i t ht
    exact ⟨t, ht, (Except.ok.inj h).symm⟩
  · cases h

theorem newString_utf8_iff (h8 : V8Strings newFromUtf8 maxLength) (s : String)
    (type : NewStringType) (size : Int) (hsize : size = -1 ∨ size = toInt32 s.utf8.length)
    (empty : Stop) :
    newString newFromUtf8 s.utf8 type size empty = .ok (.string s) ↔ s.utf8.length ≤ maxLength := by
  rw [← h8.takes s type size hsize]
  constructor
  · intro h
    obtain ⟨t, ht, heq⟩ := newString_eq_ok h
    rw [ht, JsData.string.inj heq]
  · intro h
    rw [newString, h]

/-- V8 makes a string of these bytes exactly if they are UTF-8 and not too many. -/
theorem newString_iff (h8 : V8Strings newFromUtf8 maxLength) (value : List UInt8)
    (type : NewStringType) (size : Int) (hsize : size = -1 ∨ size = toInt32 value.length)
    (empty : Stop) :
    (∃ s : String, newString newFromUtf8 value type size empty = .ok (.string s) ∧
        s.utf8 = value) ↔
      (Source.text (some value)).TextFits maxLength := by
  constructor
  · rintro ⟨s, h, rfl⟩
    exact ⟨(newString_utf8_iff h8 s type size hsize empty).mp h, isUtf8_utf8 s⟩
  · rintro ⟨hlength, s, rfl⟩
    exact ⟨s, (newString_utf8_iff h8 s type size hsize empty).mpr hlength, rfl⟩

theorem length_toString_le {n : Int} (h : 0 ≤ n) (h' : n < 9223372036854775808) :
    (toString n).utf8.length ≤ 80 := by
  obtain ⟨m, rfl⟩ := Int.eq_ofNat_of_zero_le h
  rw [String.length_utf8]
  exact Nat.utf8ByteSize_repr_le 19 (by omega)

/-- What `no::data` gives is the property. -/
theorem exists_property_iff {x : Except Stop JsData} {value : List UInt8} :
    (∃ p : Property, (∃ d : JsData, some x = some (.ok d) ∧ p = .data d) ∧
      (Source.text (some value)).ShowsText p) ↔
        ∃ s : String, x = .ok (.string s) ∧ s.utf8 = value := by
  constructor
  · rintro ⟨p, ⟨d, hd, rfl⟩, s, hp, hs⟩
    refine ⟨s, ?_, hs⟩
    rw [Option.some.inj hd, Property.data.inj hp]
  · rintro ⟨s, rfl, hs⟩
    exact ⟨_, ⟨_, rfl, rfl⟩, s, rfl, hs⟩

theorem result_line (h8 : V8Strings newFromUtf8 maxLength) {n : Int}
    (hr : (Source.line n).InRange) :
    (CppValue.int64 n).result newFromUtf8 =
      some (.ok (if n > 2147483647 then .string (toString n)
        else .number (.ofInt (toInt32 n)))) := by
  simp only [CppValue.result]
  by_cases hn : n > 2147483647
  · have hsize : (toString n).utf8.length ≤ 80 := length_toString_le (by omega) hr.2
    rw [if_pos hn, if_pos hn]
    exact congrArg some ((newString_utf8_iff h8 _ _ _ (.inr rfl) _).mpr (hsize.trans h8.room))
  · rw [if_neg hn, if_neg hn]

theorem showsText_iff (h8 : V8Strings newFromUtf8 maxLength) (hc : s.Carries a) (hr : s.InRange) :
    (∃ p, a.Gives newFromUtf8 p ∧ s.ShowsText p) ↔ s.TextFits maxLength := by
  cases hc with
  | chars raw =>
    cases raw with
    | none => exact ⟨fun _ => ⟨trivial, trivial⟩, fun _ => ⟨_, ⟨_, rfl, rfl⟩, rfl⟩⟩
    | some value => exact exists_property_iff.trans (newString_iff h8 value _ _ (.inl rfl) _)
  | string value => exact exists_property_iff.trans (newString_iff h8 value _ _ (.inr rfl) _)
  | view value => exact exists_property_iff.trans (newString_iff h8 value _ _ (.inr rfl) _)
  | optionalRevision n =>
    refine ⟨fun _ => ⟨trivial, trivial⟩, fun _ => ?_⟩
    unfold convertToRevisionNumber
    split
    · exact ⟨_, ⟨_, rfl, rfl⟩, trivial⟩
    · exact ⟨_, ⟨_, rfl, rfl⟩, trivial⟩
  | line n =>
    exact ⟨fun _ => ⟨trivial, trivial⟩, fun _ => ⟨_, ⟨_, result_line h8 hr, rfl⟩, trivial⟩⟩
  | time t => exact ⟨fun _ => ⟨trivial, trivial⟩, fun _ => ⟨_, rfl, trivial⟩⟩
  | _ => exact ⟨fun _ => ⟨trivial, trivial⟩, fun _ => ⟨_, ⟨_, rfl, rfl⟩, trivial⟩⟩

/-- A number shows the integer exactly if the cast keeps it. -/
theorem denotes_number_iff {n m : Int} : (JsData.number (.ofInt m)).Denotes n ↔ m = n := by
  constructor
  · rintro (h | h)
    · exact JsNumber.ofInt_inj.mp (JsData.number.inj h)
    · cases h
  · rintro rfl
    exact .inl rfl

theorem showsNumber_iff (h8 : V8Strings newFromUtf8 maxLength) (hc : s.Carries a) (hr : s.InRange)
    (hg : a.Gives newFromUtf8 p) : s.ShowsNumber p ↔ s.NumberFits := by
  have hdata : ∀ (d : JsData) (P : JsData → Prop), p = .data d →
      ((∃ d, p = .data d ∧ P d) ↔ P d) := by
    rintro d P rfl
    constructor
    · rintro ⟨d', h, hP⟩
      rw [Property.data.inj h]
      exact hP
    · intro hP
      exact ⟨d, rfl, hP⟩
  cases hc with
  | revision n =>
    obtain ⟨d, hd, hp⟩ := hg
    obtain rfl := Except.ok.inj (Option.some.inj hd)
    refine (hdata _ _ hp).trans ?_
    rw [denotes_number_iff, JsNumber.toInt32_eq_self_iff]
    exact Iff.rfl
  | optionalRevision n =>
    obtain ⟨d, hd, hp⟩ := hg
    refine (hdata _ _ hp).trans ?_
    unfold convertToRevisionNumber at hd
    by_cases hn : n = -1
    · rw [if_neg (not_not.mpr hn)] at hd
      obtain rfl := Except.ok.inj (Option.some.inj hd)
      rw [if_pos hn]
      refine ⟨fun _ => ?_, fun _ => rfl⟩
      show -2147483648 ≤ n ∧ n < 2147483648
      omega
    · rw [if_pos hn] at hd
      obtain rfl := Except.ok.inj (Option.some.inj hd)
      rw [if_neg hn, denotes_number_iff, JsNumber.toInt32_eq_self_iff]
      exact Iff.rfl
  | line n =>
    obtain ⟨d, hd, hp⟩ := hg
    rw [result_line h8 hr] at hd
    refine (hdata _ _ hp).trans ?_
    obtain rfl := Except.ok.inj (Option.some.inj hd)
    show _ ↔ -2147483648 ≤ n
    by_cases hn : n > 2147483647
    · rw [if_pos hn]
      exact ⟨fun _ => by omega, fun _ => .inr rfl⟩
    · rw [if_neg hn, denotes_number_iff, JsNumber.toInt32_eq_self_iff]
      omega
  | _ => exact ⟨fun _ => trivial, fun _ => trivial⟩

/-- No two integers are shown by one value. -/
theorem JsData.Denotes.inj {d : JsData} {n m : Int} (h : d.Denotes n) (h' : d.Denotes m) :
    n = m := by
  rcases h with rfl | rfl
  · rcases h' with h' | h'
    · exact JsNumber.ofInt_inj.mp (JsData.number.inj h')
    · cases h'
  · rcases h' with h' | h'
    · cases h'
    · exact Int.toString_injective (JsData.string.inj h')

def Source.number : Source → Option Int
  | revision n => some n
  | optionalRevision n => some n
  | line n => some n
  | _ => none

theorem Source.ShowsNumber.denotes {n : Int} (h : s.ShowsNumber p) (hn : s.number = some n) :
    ∃ d : JsData, p = .data d ∧ (d.Denotes n ∨ n = -1 ∧ d = .undefined) := by
  cases s with
  | optionalRevision m =>
    obtain rfl := Option.some.inj hn
    obtain ⟨d, hd, h⟩ := h
    refine ⟨d, hd, ?_⟩
    by_cases hm : m = -1
    · rw [if_pos hm] at h
      exact .inr ⟨hm, h⟩
    · rw [if_neg hm] at h
      exact .inl h
  | revision m =>
    obtain rfl := Option.some.inj hn
    obtain ⟨d, hd, h⟩ := h
    exact ⟨d, hd, .inl h⟩
  | line m =>
    obtain rfl := Option.some.inj hn
    obtain ⟨d, hd, h⟩ := h
    exact ⟨d, hd, .inl h⟩
  | _ => cases hn

/-- So two numbers that are shown faithfully by the same value are the same. -/
theorem Source.ShowsNumber.inj {s' : Source} {n m : Int} (h : s.ShowsNumber p)
    (h' : s'.ShowsNumber p) (hn : s.number = some n) (hm : s'.number = some m) : n = m := by
  obtain ⟨d, rfl, hd⟩ := h.denotes hn
  obtain ⟨d', hp, hd'⟩ := h'.denotes hm
  obtain rfl := Property.data.inj hp
  rcases hd with hd | ⟨rfl, hd⟩ <;> rcases hd' with hd' | ⟨rfl, hd'⟩
  · exact hd.inj hd'
  · subst hd'
    rcases hd with hd | hd <;> cases hd
  · subst hd
    rcases hd' with hd' | hd' <;> cases hd'
  · rfl

/-! ## The reports -/

/-- What is reported, and what is assigned. -/
theorem Report.carries_inRange {assignments : List (String × Assigned)}
    (h : r.assigned = .ok assignments) (hr : r.InRange) :
    List.Forall₂ (fun s a => s.2.InRange ∧ s.1 = a.1 ∧ s.2.Carries a.2) r.sources assignments :=
  (List.forall₂_and_left _ _).mpr ⟨hr, Report.carries h⟩

/-- **A report is delivered exactly if nothing that becomes a `std::string` is `NULL` and its
strings are UTF-8 and not too long for V8.** -/
theorem delivered_iff (newFromUtf8 : NewFromUtf8) (maxLength : Nat)
    (h8 : V8Strings newFromUtf8 maxLength) (r : Report) (hr : r.InRange) :
    r.Delivered newFromUtf8 ↔ r.Complete ∧ ∀ s ∈ r.sources, s.2.TextFits maxLength := by
  have hitem : r.Delivered newFromUtf8 ↔ ∃ assignments, r.assigned = .ok assignments ∧
      ∃ item : List (String × Property),
        List.Forall₂ (fun a p => a.1 = p.1 ∧ a.2.Gives newFromUtf8 p.2) assignments item ∧
        List.Forall₂ (fun s p => s.1 = p.1 ∧ s.2.ShowsText p.2) r.sources item := by
    constructor
    · rintro ⟨fuel, item, hdeliver, hshows⟩
      obtain ⟨assignments, hassigned, hgives⟩ := Report.deliver_iff.mp ⟨fuel, hdeliver⟩
      exact ⟨assignments, hassigned, item, hgives, hshows⟩
    · rintro ⟨assignments, hassigned, item, hgives, hshows⟩
      obtain ⟨fuel, hdeliver⟩ := Report.deliver_iff.mpr ⟨assignments, hassigned, hgives⟩
      exact ⟨fuel, item, hdeliver, hshows⟩
  rw [hitem, ← Report.assigned_ok_iff, ← exists_and_right]
  refine exists_congr fun assignments => and_congr_right fun hassigned => ?_
  refine exists_forall₂_iff (Report.carries_inRange hassigned hr) ?_
  rintro s a ⟨hrange, hname, hc⟩
  rw [← showsText_iff h8 hc hrange]
  constructor
  · rintro ⟨p, ⟨-, hgives⟩, -, hshows⟩
    exact ⟨p.2, hgives, hshows⟩
  · rintro ⟨p, hgives, hshows⟩
    exact ⟨(a.1, p), ⟨rfl, hgives⟩, hname, hshows⟩

/-- The strings of V8 in a program of 64 bits. -/
theorem v8Strings_bound : V8Strings (.upTo 1073741799) 1073741799 where
  room := by decide
  takes s type size _ := by
    by_cases h : s.utf8.length ≤ 1073741799 <;> simp [NewFromUtf8.upTo, h, decodeUtf8_utf8]

theorem delivered_log : (Report.log ⟨5, none, none, some [109], false, false, false⟩).Delivered
    (.upTo 1073741799) := by
  refine (delivered_iff _ _ v8Strings_bound _ ?_).mpr ⟨trivial, ?_⟩
  · simp [Report.InRange, Report.sources, Source.InRange]
  · simp only [Report.sources, List.forall_mem_cons]
    exact ⟨⟨trivial, trivial⟩, ⟨trivial, trivial⟩, ⟨trivial, trivial⟩, ⟨trivial, trivial⟩,
      ⟨trivial, trivial⟩,
      ⟨(by decide : [109].length ≤ 1073741799), isUtf8_utf8 "m"⟩, fun _ h => (by cases h)⟩

/-- A commit without an author, and a line of a Latin-1 file. -/
theorem not_delivered_anonymous :
    ¬ (Report.remove ⟨5, some "2020-07-01T00:00:00.000000Z".utf8, none, none, none⟩).Delivered
        (.upTo 1073741799) ∧
      ¬ (Report.blame ⟨1, 5, 0, 5, -1, none, some [99, 97, 102, 233], false⟩).Delivered
        (.upTo 1073741799) := by
  constructor
  · rintro ⟨fuel, item, hdeliver, -⟩
    cases hdeliver
  · intro h
    obtain ⟨-, hfits⟩ := (delivered_iff _ _ v8Strings_bound _ (by
      simp [Report.InRange, Report.sources, Source.InRange])).mp h
    obtain ⟨-, s, hs⟩ := hfits ("line", .text (some [99, 97, 102, 233])) (by
      simp [Report.sources])
    have hdecoded := decodeUtf8_utf8 s
    rw [hs] at hdecoded
    subst hdecoded
    exact absurd hs (by decide)

/-- **A report that arrives shows its numbers exactly if its revisions are `int32_t`s and its
line number is no less than one.**  The result of a checkout does so too. -/
theorem faithful_iff (newFromUtf8 : NewFromUtf8)
    (maxLength : Nat) (h8 : V8Strings newFromUtf8 maxLength) :
    (∀ (r : Report) (fuel : Nat) (item : List (String × Property)), r.InRange →
      r.deliver newFromUtf8 fuel = pure item →
        (r.Faithful item ↔ ∀ s ∈ r.sources, s.2.NumberFits)) ∧
    ∀ (resultRev : Int) (fuel : Nat) (d : JsData),
      checkoutResult newFromUtf8 fuel resultRev = pure d →
        ((Source.revision resultRev).ShowsNumber (.data d) ↔
          (Source.revision resultRev).NumberFits) := by
  constructor
  · intro r fuel item hr hdeliver
    obtain ⟨assignments, hassigned, hgives⟩ := Report.deliver_iff.mp ⟨fuel, hdeliver⟩
    refine forall₂_iff (Report.carries_inRange hassigned hr) hgives ?_
    rintro s a p ⟨hrange, hname, hc⟩ ⟨hname', hg⟩
    rw [← showsNumber_iff h8 hc hrange hg]
    exact and_iff_right (hname.trans hname')
  · intro resultRev fuel d h
    exact showsNumber_iff h8 (.revision resultRev) trivial ⟨d, noData_iff.mp ⟨fuel, h⟩, rfl⟩

/-- An update to revision 7. -/
theorem deliver_update (n : Int) :
    ∃ fuel, (Report.update ⟨9, [102], n⟩).deliver
      (.upTo 1073741799) fuel =
        pure [("action", .data (.number (.ofInt 9))), ("path", .data (.string "f")),
          ("revision", .data (match convertToRevisionNumber n with
            | some n => .number (.ofInt n)
            | none => .undefined))] := by
  refine Report.deliver_iff.mpr ⟨_, rfl, .cons ⟨rfl, _, rfl, rfl⟩ (.cons ⟨rfl, _, rfl, rfl⟩
    (.cons ⟨rfl, _, ?_, rfl⟩ .nil))⟩
  cases convertToRevisionNumber n <;> rfl

theorem faithful_update : ∃ fuel item, (Report.update ⟨9, [102], 7⟩).deliver
    (.upTo 1073741799) fuel = pure item ∧
      (Report.update ⟨9, [102], 7⟩).Faithful item := by
  obtain ⟨fuel, hdeliver⟩ := deliver_update 7
  refine ⟨fuel, _, hdeliver, ((faithful_iff _ _ v8Strings_bound).1 _ fuel _ ?_ hdeliver).mpr ?_⟩
  · simp [Report.InRange, Report.sources, Source.InRange]
  · simp [Report.sources, Source.NumberFits]

/-- The revision 4294967295 is shown as -1. -/
theorem not_faithful_update :
    ¬ ∀ (r : Report) (fuel : Nat) (item : List (String × Property)), r.InRange →
      r.deliver (.upTo 1073741799) fuel =
        pure item → r.Faithful item := by
  intro h
  obtain ⟨fuel, hdeliver⟩ := deliver_update 4294967295
  have hfaithful := h _ fuel _ (by simp [Report.InRange, Report.sources, Source.InRange]) hdeliver
  obtain ⟨-, hrevision⟩ := (List.forall₂_cons.mp (List.forall₂_cons.mp
    (List.forall₂_cons.mp hfaithful).2).2).1
  obtain ⟨d, hd, hdenotes⟩ := hrevision
  obtain rfl := Property.data.inj hd
  have hshown : toInt32 4294967295 = 4294967295 := denotes_number_iff.mp hdenotes
  exact absurd hshown (by decide)

end Laws

end NodeSvn
