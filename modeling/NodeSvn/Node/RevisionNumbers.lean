import NodeSvn.Node.Dates

/-!
# Revision numbers on their way to JS and back

    libsvn                        an svn_revnum_t, which is a long
    convert_to_revision_number    cast to int32_t; -1 becomes undefined
    no::data                      a number
    convert_revision              Int32Value of it, as the number of a revision
    convert_from_revision         all 64 bits of the union

A `long` of 32 bits returns, but for -1, which is none.  Of one of 64 bits the lower half
returns; the upper half is what the memory of the `svn::revision` held before
(`revisionReturns_iff`).
-/

namespace NodeSvn

/-- The values of `svn_revnum_t`. -/
def IsRevnum (w : Width) (t : Int) : Prop :=
  match w with
  | .w32 => -2147483648 ≤ t ∧ t < 2147483648
  | .w64 => -9223372036854775808 ≤ t ∧ t < 9223372036854775808

/-- A property of a record that is a revision. -/
def reportedRevision (t : Int) : Js :=
  match convertToRevisionNumber t with
  | some n => .number (.ofInt n)
  | none => .undefined

/-- The revision `{number: v}`. -/
def Js.numberRevision (v : Js) : Js :=
  .object none fun key => some (if key = "number" then v else .undefined)

/-- The revision of a record, passed back, is the same for libsvn. -/
def RevisionReturns (w : Width) (before : UnionMemory) (t : Int) : Prop :=
  readRevision w before (.numberRevision (reportedRevision t)) = .ok (.number, some t)

section Laws

variable {w : Width} {before : UnionMemory} {t : Int}

namespace UnionMemory

theorem writeInt64_low (t : Int) : (writeInt64 t).low = BitVec.ofInt 32 t := by
  apply BitVec.eq_of_toNat_eq
  show (BitVec.extractLsb' 0 32 (BitVec.ofInt 64 t)).toNat = _
  rw [BitVec.extractLsb'_toNat, BitVec.toNat_ofInt, BitVec.toNat_ofInt]
  omega

/-- A cast to `int32_t` keeps the lower half. -/
theorem ofInt_toInt32 (t : Int) : BitVec.ofInt 32 (toInt32 t) = BitVec.ofInt 32 t := by
  apply BitVec.eq_of_toInt_eq
  rw [BitVec.toInt_ofInt, BitVec.toInt_ofInt]
  exact Int.bmod_bmod

/-- With the lower half of `t`, the memory holds `t` exactly if the upper half is its own. -/
theorem readInt64_writeInt32_iff (h : -9223372036854775808 ≤ t) (h' : t < 9223372036854775808)
    (u : UnionMemory) :
    (u.writeInt32 (toInt32 t)).readInt64 = t ↔ u.high = (writeInt64 t).high := by
  have hlow : u.writeInt32 (toInt32 t) = ⟨(writeInt64 t).low, u.high⟩ := by
    rw [writeInt64_low, ← ofInt_toInt32]
    rfl
  rw [hlow]
  constructor
  · intro hread
    have hmemory := writeInt64_readInt64 ⟨(writeInt64 t).low, u.high⟩
    rw [hread] at hmemory
    rw [hmemory]
  · intro hhigh
    rw [hhigh]
    exact readInt64_writeInt64 h h'

end UnionMemory

/-- libsvn gets the number that JS has, in 32 bits. -/
theorem readRevision_number (n : Int) :
    readRevision w before (.numberRevision (.number (.ofInt (toInt32 n)))) =
      .ok (.number, some ((convertFromRevision (.ofNumber before (toInt32 n))).number w)) := by
  have hvalue : revisionValue before (.numberRevision (.number (.ofInt (toInt32 n)))) =
      .ok (.ofNumber before (JsNumber.ofInt (toInt32 n)).int32Value) :=
    revisionValue_eq_ok.mpr ⟨.number (.ofInt (toInt32 n)), rfl, rfl⟩
  have hrange := JsNumber.toInt32_range n
  rw [readRevision, hvalue, JsNumber.int32Value_ofInt hrange.1 hrange.2]
  rfl

/-- **A revision number returns exactly if it is one, and `long` has 32 bits or the memory held
its upper half.** -/
theorem revisionReturns_iff (w : Width) (before : UnionMemory) {t : Int} (ht : IsRevnum w t) :
    RevisionReturns w before t ↔
      t ≠ -1 ∧ (w = .w32 ∨ before.high = (UnionMemory.writeInt64 t).high) := by
  unfold RevisionReturns reportedRevision convertToRevisionNumber
  by_cases hnone : t = -1
  · rw [if_neg (not_not_intro hnone)]
    constructor
    · intro h
      cases h
    · exact fun h => absurd hnone h.1
  · rw [if_pos hnone]
    show readRevision w before (.numberRevision (.number (.ofInt (toInt32 t)))) = _ ↔ _
    rw [readRevision_number]
    have hsome : (Except.ok (RevisionKind.number,
        some ((convertFromRevision (.ofNumber before (toInt32 t))).number w)) : DecodeM _) =
          .ok (.number, some t) ↔
        (convertFromRevision (.ofNumber before (toInt32 t))).number w = t := by
      constructor
      · exact fun h => Option.some.inj (Prod.mk.inj (Except.ok.inj h)).2
      · exact fun h => congrArg _ (congrArg _ (congrArg _ h))
    rw [hsome]
    cases w with
    | w32 =>
      have hrange := JsNumber.toInt32_range t
      show (convertFromRevision (.ofNumber before (toInt32 t))).value.readInt32 = t ↔ _
      rw [convertFromRevision_value]
      show (before.writeInt32 (toInt32 t)).readInt32 = t ↔ _
      rw [UnionMemory.readInt32_writeInt32 before hrange.1 hrange.2,
        JsNumber.toInt32_of_range ht.1 ht.2]
      exact iff_of_true rfl ⟨hnone, .inl rfl⟩
    | w64 =>
      show (convertFromRevision (.ofNumber before (toInt32 t))).value.readInt64 = t ↔ _
      rw [convertFromRevision_value]
      show (before.writeInt32 (toInt32 t)).readInt64 = t ↔ _
      rw [UnionMemory.readInt64_writeInt32_iff ht.1 ht.2]
      constructor
      · exact fun h => ⟨hnone, .inr h⟩
      · rintro ⟨-, h | h⟩
        · cases h
        · exact h

/-- Revision 7, in memory that held a 1 in its upper half. -/
theorem revisionReturns_seven :
    ¬ RevisionReturns .w64 ⟨0, 1⟩ 7 := by
  rw [revisionReturns_iff .w64 ⟨0, 1⟩ (show IsRevnum .w64 7 from ⟨by decide, by decide⟩)]
  rintro ⟨-, h | h⟩
  · cases h
  · exact absurd h (by decide)

end Laws

end NodeSvn
