import NodeSvn.Node.Undelivered

/-!
# From the records of libsvn to the promises of the consumer

    record of libsvn -> trampoline -> uv::async -> callback -> iterator -> promise

The reports of a streaming operation with what becomes of each (`Reported.fate`), on the
machine of `reporting`.  Each promise shows its record, in the order of libsvn, up to the
first record with a string that is `NULL` or too long (`reported_law`).  A text is shown as V8
decodes it, so it is the equal string exactly if it is UTF-8.
-/

namespace NodeSvn

/-! ## The reports -/

/-- A call of a trampoline. -/
inductive Reported where
  | record (r : Report)
  /-- `invoke_get_changelists` -/
  | changelist (path name : CStr)

namespace Reported

def assigned : Reported → Except Exn (List (String × Assigned))
  | record r => r.assigned
  | changelist path name =>
    .ok [("path", .data (.charPointer path)), ("changelist", .data (.charPointer name))]

def sources : Reported → List (String × Source)
  | record r => r.sources
  | changelist path name => [("path", .text path), ("changelist", .text name)]

/-- `convert_to_commit_info` is called for an argument of `callback->invoke`. -/
def convertsOutside : Reported → Bool
  | record (.commit ..) => true
  | record (.remove _) => true
  | _ => false

section Fate

variable (newFromUtf8 : NewFromUtf8)

/-- The item, up to the `yield`. -/
def deliver (fuel : Nat) (r : Reported) : PathM (List (String × Property)) :=
  match r.assigned with
  | .ok assignments => makeItem newFromUtf8 fuel assignments
  | .error e => ExceptT.mk (some (.error (.thrown e)))

/-- No call of `no::data` takes more than two steps. -/
def fate (r : Reported) : Fate :=
  match r.assigned with
  | .error e => if r.convertsOutside then .unwinds e else .fails e
  | .ok assignments =>
    match makeItem newFromUtf8 2 assignments with
    | some (.ok _) => .item
    | some (.error (.thrown e)) => .throws e
    | _ => .aborts

end Fate

/-- What becomes a `std::string` is not `NULL`. -/
def Complete : Reported → Prop
  | record r => r.Complete
  | changelist .. => True

end Reported

namespace Source

/-- Its size is an `int`. -/
def IntLength : Source → Prop
  | text (some bytes) => bytes.length < 2147483648
  | _ => True

/-- What a property is to hold; a number is the matter of `ShowsNumber`. -/
def ShowsField (decode : List UInt8 → String) (p : Property) : Source → Prop
  | text none => p = .data .undefined
  | text (some bytes) => p = .data (.string (decode bytes))
  | flag b => p = .data (.boolean b)
  | enumerator n => p = .data (.number (.ofInt n))
  | time t => p = .date (convertToDate t)
  | _ => True

end Source

namespace Reported

def InRange (r : Reported) : Prop := ∀ s ∈ r.sources, s.2.InRange ∧ s.2.IntLength

/-- All of it can be shown. -/
def Fits (maxLength : Nat) (r : Reported) : Prop :=
  r.Complete ∧ ∀ s ∈ r.sources, s.2.Short maxLength

/-- The item shows the record: its texts, if they are UTF-8, its numbers, if they are not too
large. -/
def Shows (decode : List UInt8 → String) (r : Reported) (item : List (String × Property)) : Prop :=
  List.Forall₂ (fun s p => s.1 = p.1 ∧ s.2.ShowsField decode p.2 ∧
    (s.2.ShowsText p.2 ↔ s.2.IsText) ∧ (s.2.ShowsNumber p.2 ↔ s.2.NumberFits)) r.sources item

end Reported

/-- `v8::String::NewFromUtf8` decodes all bytes in its own way, or makes no string. -/
structure V8LenientStrings (newFromUtf8 : NewFromUtf8) (decode : List UInt8 → String)
    (maxLength : Nat) : Prop extends V8Strings newFromUtf8 maxLength where
  decodes : ∀ bytes type size, size = -1 ∨ size = toInt32 bytes.length →
    bytes.length < 2147483648 →
      newFromUtf8 bytes type size = if bytes.length ≤ maxLength then some (decode bytes) else none

namespace Reported

variable {newFromUtf8 : NewFromUtf8} {decode : List UInt8 → String} {maxLength : Nat}
  {r : Reported} {s : Source} {a : Assigned} {p : Property} {x : Stop}

/-! ## The exceptions -/

theorem exists_of_mapM_eq_error {α β : Type} {f : α → PathM β} {l : List α}
    (h : l.mapM f = ExceptT.mk (some (.error x))) :
    ∃ a ∈ l, f a = ExceptT.mk (some (.error x)) := by
  induction l with
  | nil => cases h
  | cons a l ih =>
    rw [List.mapM_cons] at h
    match ha : f a with
    | none =>
      rw [ha] at h
      cases h
    | some (.error y) =>
      rw [ha] at h
      obtain rfl : y = x := Except.error.inj (Option.some.inj h)
      exact ⟨a, List.mem_cons_self, ha⟩
    | some (.ok b) =>
      rw [ha] at h
      match hl : l.mapM f with
      | none =>
        change (l.mapM f >>= fun bs => pure (b :: bs)) = _ at h
        rw [hl] at h
        cases h
      | some (.ok bs) =>
        change (l.mapM f >>= fun bs => pure (b :: bs)) = _ at h
        rw [hl] at h
        cases h
      | some (.error y) =>
        change (l.mapM f >>= fun bs => pure (b :: bs)) = _ at h
        rw [hl] at h
        obtain rfl : y = x := Except.error.inj (Option.some.inj h)
        obtain ⟨c, hc, hfc⟩ := ih hl
        exact ⟨c, List.mem_cons_of_mem _ hc, hfc⟩

theorem newString_thrown {value : List UInt8} {type : NewStringType} {size : Int} {e : Exn}
    (h : newString newFromUtf8 value type size (.thrown (.runtimeError "")) = .error (.thrown e)) :
    e = .runtimeError "" := by
  unfold newString at h
  split at h
  · cases h
  · injection h with h
    injection h with h
    exact h.symm

/-- `no::data` throws what `check_result` throws. -/
theorem result_thrown {v : CppValue} {e : Exn}
    (h : v.result newFromUtf8 = some (.error (.thrown e))) : e = .runtimeError "" := by
  cases v with
  | stdString value => exact newString_thrown (Option.some.inj h)
  | stringView value => exact newString_thrown (Option.some.inj h)
  | charPointer value =>
    cases value with
    | none => cases h
    | some value =>
      have hstring := Option.some.inj h
      unfold newString at hstring
      split at hstring
      · cases hstring
      · injection hstring with hstring
        cases hstring
  | int64 n =>
    have hline := Option.some.inj h
    by_cases hn : n > 2147483647
    · rw [if_pos hn] at hline
      exact newString_thrown hline
    · rw [if_neg hn] at hline
      cases hline
  | optionalString value => cases value <;> cases h
  | optionalInt32 value => cases value <;> cases h
  | _ => cases h

theorem assign_thrown {b : String × Assigned} {e : Exn}
    (h : assign newFromUtf8 2 b = ExceptT.mk (some (.error (.thrown e)))) :
    e = .runtimeError "" := by
  obtain ⟨name, value⟩ := b
  cases value with
  | date value => cases h
  | data v =>
    suffices hv : noData newFromUtf8 2 v = ExceptT.mk (some (.error (.thrown e))) from
      result_thrown (noData_iff.mp ⟨2, hv⟩)
    change (noData newFromUtf8 2 v >>= fun d => pure (name, Property.data d)) = _ at h
    match hv : noData newFromUtf8 2 v with
    | none =>
      rw [hv] at h
      cases h
    | some (.ok d) =>
      rw [hv] at h
      cases h
    | some (.error y) =>
      rw [hv] at h
      obtain rfl : y = .thrown e := Except.error.inj (Option.some.inj h)
      rfl

theorem stdString_error {raw : CStr} {e : Exn} (h : stdString raw = .error e) :
    e.asSvnError = none := by
  cases raw with
  | none =>
    obtain rfl := Except.error.inj h
    rfl
  | some value => cases h

theorem convertToCommitInfo_error {raw : RawCommitInfo} {e : Exn}
    (h : convertToCommitInfo (some raw) = .error e) : e.asSvnError = none := by
  change (stdString raw.date >>= fun date => stdString raw.author >>= fun author => _) = _ at h
  cases hd : stdString raw.date with
  | error e' =>
    rw [hd] at h
    obtain rfl : e' = e := Except.error.inj h
    exact stdString_error hd
  | ok date =>
    rw [hd, Except.ok_bind] at h
    cases ha : stdString raw.author with
    | error e' =>
      rw [ha] at h
      obtain rfl : e' = e := Except.error.inj h
      exact stdString_error ha
    | ok author =>
      rw [ha] at h
      cases h

theorem map_error {α β : Type} {f : α → β} {y : Except Exn α} {e : Exn}
    (h : y.map f = .error e) : y = .error e := by
  cases y with
  | ok v => cases h
  | error e' =>
    obtain rfl : e' = e := Except.error.inj h
    rfl

theorem assigned_error {e : Exn} (h : r.assigned = .error e) : e.asSvnError = none := by
  cases r with
  | changelist path name => cases h
  | record r =>
    cases r with
    | status path raw =>
      cases path with
      | none =>
        injection h with h
        rw [← h]
        rfl
      | some path => cases h
    | info path raw => cases h
    | commit notifyPath raw =>
      have hmap : (convertToCommitInfo (some raw)).map (commitItem notifyPath) = .error e := h
      exact convertToCommitInfo_error (map_error hmap)
    | remove raw =>
      have hmap : (convertToCommitInfo (some raw)).map removeItem = .error e := h
      exact convertToCommitInfo_error (map_error hmap)
    | log raw => cases h
    | blame raw => cases h
    | update raw => cases h

theorem foreign (newFromUtf8 : NewFromUtf8) (r : Reported)
    (e : Exn) (h : (r.fate newFromUtf8).raises = some e) : e.asSvnError = none := by
  unfold fate at h
  split at h
  · rename_i e' he
    have he' : e' = e := by
      split at h <;> exact Option.some.inj h
    exact he' ▸ assigned_error he
  · rename_i assignments hassigned
    split at h
    · cases h
    · rename_i e' hitem
      obtain rfl : e' = e := Option.some.inj h
      obtain ⟨b, -, hb⟩ := exists_of_mapM_eq_error hitem
      obtain rfl := assign_thrown hb
      rfl
    · cases h

/-! ## Which reports arrive -/

theorem assigned_ok_iff : (∃ assignments, r.assigned = .ok assignments) ↔ r.Complete := by
  cases r with
  | record r => exact Report.assigned_ok_iff
  | changelist path name => exact ⟨fun _ => trivial, fun _ => ⟨_, rfl⟩⟩

theorem carries_inRange {assignments : List (String × Assigned)}
    (h : r.assigned = .ok assignments) (hr : r.InRange) :
    List.Forall₂ (fun s a => (s.2.InRange ∧ s.2.IntLength) ∧ s.1 = a.1 ∧ s.2.Carries a.2) r.sources
      assignments := by
  refine (List.forall₂_and_left _ _).mpr ⟨hr, ?_⟩
  cases r with
  | record r => exact Report.carries h
  | changelist path name =>
    injection h with h
    rw [← h]
    exact .cons ⟨rfl, .chars path⟩ (.cons ⟨rfl, .chars name⟩ .nil)

/-- V8 decodes the text, or there is no string. -/
theorem newString_eq (h8 : V8LenientStrings newFromUtf8 decode maxLength) {value : List UInt8}
    (type : NewStringType) {size : Int} (hsize : size = -1 ∨ size = toInt32 value.length)
    (hlength : (Source.text (some value)).IntLength) (empty : Stop) :
    newString newFromUtf8 value type size empty =
      if value.length ≤ maxLength then .ok (.string (decode value)) else .error empty := by
  rw [newString, h8.decodes value type size hsize hlength]
  by_cases hshort : value.length ≤ maxLength
  · rw [if_pos hshort, if_pos hshort]
  · rw [if_neg hshort, if_neg hshort]

/-- UTF-8 is decoded to the equal string, and nothing else is. -/
theorem showsText_decode_iff (h8 : V8LenientStrings newFromUtf8 decode maxLength)
    {value : List UInt8} (hlength : (Source.text (some value)).IntLength)
    (hshort : value.length ≤ maxLength) :
    (Source.text (some value)).ShowsText (.data (.string (decode value))) ↔
      (Source.text (some value)).IsText := by
  constructor
  · rintro ⟨s, -, hs⟩
    exact ⟨s, hs⟩
  · rintro ⟨s, rfl⟩
    have htakes := (h8.takes s .normal (-1) (.inl rfl)).mpr hshort
    rw [h8.decodes s.utf8 .normal (-1) (.inl rfl) hlength, if_pos hshort] at htakes
    exact ⟨s, by rw [Option.some.inj htakes], rfl⟩

/-- What the string of a text shows. -/
theorem field_of_string (h8 : V8LenientStrings newFromUtf8 decode maxLength) {value : List UInt8}
    {type : NewStringType} {size : Int} (hsize : size = -1 ∨ size = toInt32 value.length)
    (hlength : (Source.text (some value)).IntLength) {empty : Stop} {d : JsData}
    (h : newString newFromUtf8 value type size empty = .ok d) :
    (Source.text (some value)).ShowsField decode (.data d) ∧
      ((Source.text (some value)).ShowsText (.data d) ↔ (Source.text (some value)).IsText) := by
  rw [newString_eq h8 type hsize hlength] at h
  split at h
  · rename_i hshort
    obtain rfl := Except.ok.inj h
    exact ⟨rfl, showsText_decode_iff h8 hlength hshort⟩
  · cases h

/-- What is made of a report shows it. -/
theorem field_of_gives (h8 : V8LenientStrings newFromUtf8 decode maxLength) (hc : s.Carries a)
    (hlength : s.IntLength) (hg : a.Gives newFromUtf8 p) :
    s.ShowsField decode p ∧ (s.ShowsText p ↔ s.IsText) := by
  cases hc with
  | chars raw =>
    obtain ⟨d, hd, rfl⟩ := hg
    cases raw with
    | none =>
      obtain rfl := Except.ok.inj (Option.some.inj hd)
      exact ⟨rfl, iff_of_true rfl trivial⟩
    | some value => exact field_of_string h8 (.inl rfl) hlength (Option.some.inj hd)
  | string value =>
    obtain ⟨d, hd, rfl⟩ := hg
    exact field_of_string h8 (.inr rfl) hlength (Option.some.inj hd)
  | view value =>
    obtain ⟨d, hd, rfl⟩ := hg
    exact field_of_string h8 (.inr rfl) hlength (Option.some.inj hd)
  | flag b =>
    obtain ⟨d, hd, rfl⟩ := hg
    obtain rfl := Except.ok.inj (Option.some.inj hd)
    exact ⟨rfl, Iff.rfl⟩
  | enumerator n =>
    obtain ⟨d, hd, rfl⟩ := hg
    obtain rfl := Except.ok.inj (Option.some.inj hd)
    exact ⟨rfl, Iff.rfl⟩
  | time t => exact ⟨hg, Iff.rfl⟩
  | revision | optionalRevision | line => exact ⟨trivial, Iff.rfl⟩

/-- There is a value to assign exactly if the text is not too long. -/
theorem exists_gives_iff (h8 : V8LenientStrings newFromUtf8 decode maxLength) (hc : s.Carries a)
    (hr : s.InRange) (hlength : s.IntLength) :
    (∃ p, a.Gives newFromUtf8 p) ↔ s.Short maxLength := by
  have hstring : ∀ {value : List UInt8} {size : Int} {empty : Stop},
      size = -1 ∨ size = toInt32 value.length → (Source.text (some value)).IntLength →
      ((∃ p : Property, ∃ d, some (newString newFromUtf8 value .normal size empty) =
        some (.ok d) ∧ p = .data d) ↔ value.length ≤ maxLength) := by
    intro value size empty hsize hlength
    rw [newString_eq h8 .normal hsize hlength]
    by_cases hshort : value.length ≤ maxLength
    · rw [if_pos hshort]
      exact ⟨fun _ => hshort, fun _ => ⟨_, _, rfl, rfl⟩⟩
    · rw [if_neg hshort]
      exact ⟨fun ⟨_, _, h, _⟩ => (by cases h), fun h => absurd h hshort⟩
  cases hc with
  | chars raw =>
    cases raw with
    | none => exact ⟨fun _ => trivial, fun _ => ⟨_, _, rfl, rfl⟩⟩
    | some value => exact hstring (.inl rfl) hlength
  | string value => exact hstring (.inr rfl) hlength
  | view value => exact hstring (.inr rfl) hlength
  | optionalRevision n =>
    refine ⟨fun _ => trivial, fun _ => ?_⟩
    unfold convertToRevisionNumber
    split
    · exact ⟨_, _, rfl, rfl⟩
    · exact ⟨_, _, rfl, rfl⟩
  | line n => exact ⟨fun _ => trivial, fun _ => ⟨_, _, result_line h8.toV8Strings hr, rfl⟩⟩
  | time t => exact ⟨fun _ => trivial, fun _ => ⟨_, rfl⟩⟩
  | flag | enumerator | revision => exact ⟨fun _ => trivial, fun _ => ⟨_, _, rfl, rfl⟩⟩

theorem shows_of_gives (h8 : V8LenientStrings newFromUtf8 decode maxLength) (hr : r.InRange)
    {assignments : List (String × Assigned)} {item : List (String × Property)}
    (h : r.assigned = .ok assignments)
    (hg : List.Forall₂ (fun a p => a.1 = p.1 ∧ a.2.Gives newFromUtf8 p.2) assignments item) :
    r.Shows decode item := by
  refine (forall₂_iff (F := fun _ => True) (carries_inRange h hr) hg ?_).mpr fun _ _ => trivial
  rintro s a p ⟨⟨hrange, hlength⟩, hname, hc⟩ ⟨hname', hgives⟩
  obtain ⟨hfield, htext⟩ := field_of_gives h8 hc hlength hgives
  refine iff_true_intro ⟨hname.trans hname', hfield, htext, ?_⟩
  exact showsNumber_iff h8.toV8Strings hc hrange hgives

theorem fate_item_iff (h8 : V8LenientStrings newFromUtf8 decode maxLength) (hr : r.InRange) :
    r.fate newFromUtf8 = .item ↔ r.Fits maxLength := by
  unfold Fits
  rw [← assigned_ok_iff]
  cases hassigned : r.assigned with
  | error e =>
    have hfate : r.fate newFromUtf8 ≠ .item := by
      unfold fate
      rw [hassigned]
      simp only
      split <;> simp
    exact ⟨fun h => absurd h hfate, fun ⟨⟨_, h⟩, _⟩ => (by cases h)⟩
  | ok assignments =>
    have hcarries := carries_inRange hassigned hr
    have hitem : r.fate newFromUtf8 = .item ↔
        ∃ item, makeItem newFromUtf8 2 assignments = pure item := by
      unfold fate
      rw [hassigned]
      simp only
      split
      · rename_i item hok
        exact ⟨fun _ => ⟨item, hok⟩, fun _ => rfl⟩
      · rename_i e herror
        rw [herror]
        exact ⟨fun h => (by cases h), fun ⟨_, h⟩ => (by cases h)⟩
      · rename_i hok hnone
        exact ⟨fun h => (by cases h), fun ⟨item, h⟩ => absurd h (hok item)⟩
    have hexists := exists_forall₂_iff (S := fun (s : String × Source) (p : String × Property) =>
      s.1 = p.1) (R := fun (a : String × Assigned) (p : String × Property) =>
      a.1 = p.1 ∧ a.2.Gives newFromUtf8 p.2) (F := fun s => s.2.Short maxLength) hcarries (by
        rintro s a ⟨⟨hrange, hlength⟩, hname, hc⟩
        rw [← exists_gives_iff h8 hc hrange hlength]
        constructor
        · rintro ⟨p, ⟨-, hgives⟩, -⟩
          exact ⟨p.2, hgives⟩
        · rintro ⟨p, hgives⟩
          exact ⟨(a.1, p), ⟨rfl, hgives⟩, hname⟩)
    rw [hitem, ← hexists]
    constructor
    · rintro ⟨item, h⟩
      have hgives := gives_of_makeItem h
      refine ⟨⟨assignments, rfl⟩, item, hgives, ?_⟩
      exact (shows_of_gives h8 hr hassigned hgives).imp fun _ _ h => h.1
    · rintro ⟨-, item, hgives, -⟩
      exact ⟨item, makeItem_of_gives hgives⟩

/-- A report that arrives shows its record. -/
theorem exists_item (h8 : V8LenientStrings newFromUtf8 decode maxLength) (hr : r.InRange)
    (hfate : r.fate newFromUtf8 = .item) :
    ∃ fuel item, r.deliver newFromUtf8 fuel = pure item ∧ r.Shows decode item := by
  unfold fate at hfate
  split at hfate
  · split at hfate <;> cases hfate
  · rename_i assignments hassigned
    split at hfate
    · rename_i item hitem
      have hmake : makeItem newFromUtf8 2 assignments = pure item := hitem
      refine ⟨2, item, ?_, shows_of_gives h8 hr hassigned (gives_of_makeItem hmake)⟩
      unfold deliver
      rw [hassigned]
      exact hmake
    · cases hfate
    · cases hfate

end Reported

/-! ## The law -/

def reportedCall (newFromUtf8 : NewFromUtf8) (c : StreamCall Reported) :
    ReportingCall Reported :=
  { c with
    fate := Reported.fate newFromUtf8
    foreign := Reported.foreign newFromUtf8 }

/-- **From libsvn to JS.**  In every run of a streaming operation the promises of `next` receive
its records in order, each as an item that shows the record, up to the first one that has a
string which is `NULL` where it may not be, or too long for V8; the end marker follows if there
is none such, and otherwise nothing ends or rejects. -/
theorem reported_law {newFromUtf8 : NewFromUtf8} {decode : List UInt8 → String} {maxLength : Nat}
    (h8 : V8LenientStrings newFromUtf8 decode maxLength) (c : StreamCall Reported)
    (hr : ∀ r ∈ c.items, r.InRange) {ls : List StreamLabel} {s : StreamState Reported}
    (h : (reporting (reportedCall newFromUtf8 c)).run c.init ls = some s) :
    (∀ r ∈ c.items, (reportedCall newFromUtf8 c).good r = true ↔
      c.omits r = true ∨ r.Fits maxLength) ∧
    s.tr.answers <+: (reportedCall newFromUtf8 c).shown ∧
    (∀ r, StreamCall.itemSettlement r ∈ s.tr.answers →
      ∃ fuel item, r.deliver newFromUtf8 fuel = pure item ∧ r.Shows decode item) ∧
    ((∃ r ∈ c.items, c.omits r = false ∧ ¬ r.Fits maxLength) →
      ∀ x ∈ s.tr.answers, ∃ r, x = StreamCall.itemSettlement r) ∧
    (s.tr.answers ≠ (reportedCall newFromUtf8 c).shown →
      ∃ l, (reporting (reportedCall newFromUtf8 c)).Enabled s l) := by
  obtain ⟨hcourse, -⟩ := ReportingCall.course_run (c := reportedCall newFromUtf8 c) h
  have hgood : ∀ r ∈ c.items, (reportedCall newFromUtf8 c).good r = true ↔
      c.omits r = true ∨ r.Fits maxLength := by
    intro r hmem
    rw [ReportingCall.good_iff, ← Reported.fate_item_iff h8 (hr r hmem),
      StreamCall.skips_eq_omits]
    exact Iff.rfl
  refine ⟨hgood, hcourse.answers, fun r hmem => ?_, ?_, hcourse.progress⟩
  · obtain ⟨hitems, -, hfate⟩ := ReportingCall.item_of_shown (hcourse.answers.subset hmem)
    exact Reported.exists_item h8 (hr r hitems) hfate
  · rintro ⟨r, hmem, homits, hfits⟩ x hx
    refine ReportingCall.item_of_mem_shown ?_ (hcourse.answers.subset hx)
    by_contra hall
    rw [Bool.not_eq_false, List.all_eq_true] at hall
    rcases (hgood r hmem).mp (hall r hmem) with homit | hfit
    · rw [homits] at homit
      cases homit
    · exact hfits hfit

theorem v8LenientStrings_bound :
    V8LenientStrings (.upTo 1073741799) decodeUtf8 1073741799 where
  toV8Strings := v8Strings_bound
  decodes _ _ _ _ _ := rfl

/-- Two files are removed, the first by an author in Latin-1, the second without an author. -/
def removeOfTwo : StreamCall Reported where
  op := .remove
  nullChangelist := fun _ => false
  items := [.record (.remove ⟨5, some [116], some [99, 97, 102, 233], none, none⟩),
    .record (.remove ⟨6, some [116], none, none, none⟩)]
  outcome := .ok ()

theorem removeOfTwo_inRange : ∀ r ∈ removeOfTwo.items, r.InRange := by
  intro r hr
  simp only [removeOfTwo, List.mem_cons, List.not_mem_nil, or_false] at hr
  rcases hr with rfl | rfl <;>
    simp [Reported.InRange, Reported.sources, Report.sources, Source.InRange, Source.IntLength]

/-- The consumer has the first item, which shows the author with `\uFFFD`; the promise of its
second call is pending for ever. -/
theorem reported_law_two_files :
    ∃ s, (reporting (reportedCall (.upTo 1073741799) removeOfTwo)).run removeOfTwo.init
        [.start, .report, .dispatch, .next, .ret, .future, .consumed, .next, .report] = some s ∧
      s.tr.returned.length = 2 ∧
      s.tr.answers = (removeOfTwo.items.take 1).map StreamCall.itemSettlement ∧
      (∀ r ∈ removeOfTwo.items.take 1, ∃ fuel item,
        r.deliver (.upTo 1073741799) fuel = pure item ∧ r.Shows decodeUtf8 item ∧
        ("author", Property.data (.string "caf\uFFFD")) ∈ item) := by
  refine ⟨_, (Option.some_get rfl).symm, rfl, rfl, fun r hr => ?_⟩
  obtain ⟨-, -, hshows, -⟩ := reported_law v8LenientStrings_bound removeOfTwo removeOfTwo_inRange
    (Option.some_get (x := (reporting (reportedCall (.upTo 1073741799) removeOfTwo)).run
      removeOfTwo.init [.start, .report, .dispatch, .next, .ret, .future, .consumed, .next,
        .report]) rfl).symm
  obtain rfl := List.mem_singleton.mp hr
  obtain ⟨fuel, item, hitem, hitemShows⟩ := hshows _ (List.mem_singleton_self _)
  refine ⟨fuel, item, hitem, hitemShows, ?_⟩
  cases hitemShows with
  | @cons _ p _ _ hauthor _ =>
    obtain ⟨hname, hfield, -⟩ := hauthor
    have hp : ("author", Property.data (.string "caf\uFFFD")) = p := Prod.ext hname hfield.symm
    exact hp ▸ List.mem_cons_self

end NodeSvn
