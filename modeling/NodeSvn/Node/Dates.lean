import NodeSvn.Node.Decode

/-!
# Dates on their way to JS and back

    libsvn               an apr_time_t, in microseconds
    convert_to_date      divided by 1000, towards 0, and cast to double
    v8::Date::New        NaN beyond 8.64e15
    Date.valueOf         the number, in milliseconds
    convert_revision     IntegerValue of it, as the date of a revision

Nothing multiplies by 1000 on the way back: libsvn takes the milliseconds for microseconds,
and only the dates of the first millisecond of 1970 return (`returns_iff`).
-/

namespace NodeSvn

namespace JsNumber

/-- `static_cast<double>` of an integer of at most 54 bits, to the nearest, ties to even. -/
def ofInt54 (n : Int) : JsNumber :=
  .ofInt (if n.natAbs ≤ 9007199254740992 ∨ n % 2 = 0 then n
    else if (n + 1) % 4 = 0 then n + 1 else n - 1)

/-- `TimeClip` -/
def timeClip : JsNumber → JsNumber
  | .finite q =>
    if -8640000000000000 ≤ q ∧ q ≤ 8640000000000000 then .ofInt (truncate q) else .nan
  | _ => .nan

end JsNumber

/-- `convert_to_date`: the `valueOf` of the `Date`. -/
def convertToDate (value : Int) : JsNumber := (JsNumber.ofInt54 (value.tdiv 1000)).timeClip

/-- The revision `{date: d}`. -/
def Js.dateRevision (d : JsNumber) : Js :=
  .object none fun key => some (if key = "date" then .number d else .undefined)

variable (w : Width) (before : UnionMemory)

/-- What libsvn reads of a revision option. -/
def readRevision (v : Js) : DecodeM (RevisionKind × Option Int) :=
  (revisionValue before v).map fun r => (convertFromRevision r).read w

/-- The date of `t`, passed back, is `t` rounded down to a whole millisecond. -/
def Returns (t : Int) : Prop :=
  readRevision w before (.dateRevision (convertToDate t)) =
    .ok (.date, some (1000 * (t / 1000)))

/-! ## What comes back -/

section Laws

variable {w : Width} {before : UnionMemory} {t : Int}

theorem timeClip_ofInt (n : Int) :
    (JsNumber.ofInt n).timeClip =
      if -8640000000000000 ≤ n ∧ n ≤ 8640000000000000 then .ofInt n else .nan := by
  have hlow : (-8640000000000000 : ℚ) ≤ (n : ℚ) ↔ -8640000000000000 ≤ n := by
    exact_mod_cast Iff.rfl
  have hhigh : (n : ℚ) ≤ (8640000000000000 : ℚ) ↔ n ≤ 8640000000000000 := by
    exact_mod_cast Iff.rfl
  show (if -8640000000000000 ≤ (n : ℚ) ∧ (n : ℚ) ≤ 8640000000000000 then
    JsNumber.ofInt (JsNumber.truncate n) else .nan) = _
  rw [JsNumber.truncate_intCast]
  simp only [hlow, hhigh]

/-- Rounding to a double changes no number that `TimeClip` keeps. -/
theorem timeClip_ofInt54 (n : Int) :
    (JsNumber.ofInt54 n).timeClip =
      if -8640000000000000 ≤ n ∧ n ≤ 8640000000000000 then .ofInt n else .nan := by
  unfold JsNumber.ofInt54
  rw [timeClip_ofInt]
  by_cases hn : n.natAbs ≤ 9007199254740992 ∨ n % 2 = 0
  · rw [if_pos hn]
  · have hout : ¬ (-8640000000000000 ≤ n ∧ n ≤ 8640000000000000) := by omega
    rw [if_neg hn, if_neg hout, if_neg]
    split <;> omega

/-- Division towards 0 is at most 1 above division downwards. -/
theorem tdiv_thousand (t : Int) :
    t.tdiv 1000 = t / 1000 ∨ (t < 0 ∧ t.tdiv 1000 = t / 1000 + 1) := by
  rw [Int.tdiv_eq_ediv]
  split
  · left
    omega
  · right
    refine ⟨by omega, ?_⟩
    rfl

theorem readRevision_date (d : JsNumber) :
    readRevision w before (.dateRevision d) = .ok (.date, some d.integerValue) := by
  have hvalue : revisionValue before (.dateRevision d) = .ok (.ofDate d.integerValue) :=
    revisionValue_eq_ok.mpr ⟨.date d, rfl, rfl⟩
  have hdate : (convertFromRevision (.ofDate d.integerValue)).date = d.integerValue := by
    show (convertFromRevision _).value.readInt64 = _
    rw [convertFromRevision_value]
    exact UnionMemory.readInt64_writeInt64 (JsNumber.integerValue_range d).1
      (JsNumber.integerValue_range d).2
  rw [readRevision, hvalue]
  show Except.ok (RevisionKind.date, some (convertFromRevision _).date) = _
  rw [hdate]

/-- libsvn gets the milliseconds, or 0 for an invalid `Date`. -/
theorem integerValue_convertToDate (t : Int) :
    (convertToDate t).integerValue =
      if -8640000000000000 ≤ t.tdiv 1000 ∧ t.tdiv 1000 ≤ 8640000000000000 then t.tdiv 1000
      else 0 := by
  rw [convertToDate, timeClip_ofInt54]
  split
  · exact JsNumber.integerValue_ofInt (by omega) (by omega)
  · rfl

/-- **A date returns exactly if it is in the first millisecond of 1970.** -/
theorem returns_iff (w : Width) (before : UnionMemory) (t : Int) :
    Returns w before t ↔ 0 ≤ t ∧ t < 1000 := by
  have hiff : Returns w before t ↔ (convertToDate t).integerValue = 1000 * (t / 1000) := by
    rw [Returns, readRevision_date]
    constructor
    · intro h
      exact Option.some.inj (Prod.mk.inj (Except.ok.inj h)).2
    · intro h
      rw [h]
  rw [hiff, integerValue_convertToDate]
  have hdiv := tdiv_thousand t
  split <;> omega

/-- 2020-07-01, which comes back as a day in January 1970. -/
theorem not_returns : ¬ ∀ (w : Width) (before : UnionMemory) (t : Int), Returns w before t := by
  intro h
  have hread := h .w64 ⟨0, 0⟩ 1593561600000000
  rw [Returns, readRevision_date, integerValue_convertToDate] at hread
  exact absurd (Option.some.inj (Prod.mk.inj (Except.ok.inj hread)).2) (by decide)

end Laws

end NodeSvn
