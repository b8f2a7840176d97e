import NodeSvn.Cpp.Records

/-!
# `svn::revision` and `svn_opt_revision_t`

Both have a union: of `int32_t` and `int64_t` the first, of `svn_revnum_t`, which is a `long`,
and `apr_time_t` the second.

    low      the bytes of svn::revision's number, and the low half of its date
    high     the other half

The constructor for a number writes `low` only.  `convert_from_revision` copies `date`, so
both halves, for every kind (`convertFromRevision_value`).
-/

namespace NodeSvn

inductive RevisionKind where
  | unspecified
  | number
  | date
  | committed
  | previous
  | base
  | working
  | head
  deriving DecidableEq, Repr

namespace RevisionKind

def code : RevisionKind → Int
  | unspecified => 0
  | number => 1
  | date => 2
  | committed => 3
  | previous => 4
  | base => 5
  | working => 6
  | head => 7

/-- `static_cast<svn::revision_kind>`; other numbers are no enumerator. -/
def ofCode : Int → Option RevisionKind
  | 0 => some unspecified
  | 1 => some number
  | 2 => some date
  | 3 => some committed
  | 4 => some previous
  | 5 => some base
  | 6 => some working
  | 7 => some head
  | _ => none

/-- The kinds that need no further value. -/
def isKeyword : RevisionKind → Bool
  | number => false
  | date => false
  | _ => true

end RevisionKind

/-- The eight bytes of a union, on a little-endian machine. -/
structure UnionMemory where
  low : BitVec 32
  high : BitVec 32
  deriving DecidableEq, Repr

namespace UnionMemory

def readInt64 (u : UnionMemory) : Int := (u.high ++ u.low).toInt

def readInt32 (u : UnionMemory) : Int := u.low.toInt

def writeInt64 (n : Int) : UnionMemory :=
  ⟨(BitVec.ofInt 64 n).extractLsb' 0 32, (BitVec.ofInt 64 n).extractLsb' 32 32⟩

def writeInt32 (u : UnionMemory) (n : Int) : UnionMemory := { u with low := BitVec.ofInt 32 n }

end UnionMemory

structure Revision where
  kind : RevisionKind
  memory : UnionMemory
  deriving DecidableEq, Repr

namespace Revision

/-- `revision(revision_kind)` -/
def ofKind (kind : Option RevisionKind) : Except Exn Revision :=
  match kind with
  | some kind =>
    if kind.isKeyword then .ok ⟨kind, .writeInt64 0⟩ else .error (.svnTypeError "")
  | none => .error (.svnTypeError "")

/-- `revision(int32_t)`, in memory that held `before`. -/
def ofNumber (before : UnionMemory) (n : Int) : Revision := ⟨.number, before.writeInt32 n⟩

/-- `revision(int64_t)` -/
def ofDate (d : Int) : Revision := ⟨.date, .writeInt64 d⟩

end Revision

structure SvnOptRevision where
  kind : RevisionKind
  value : UnionMemory

/-- `convert_from_revision` -/
def convertFromRevision (value : Revision) : SvnOptRevision :=
  ⟨value.kind, .writeInt64 value.memory.readInt64⟩

namespace SvnOptRevision

/-- `value.number`, a `long` -/
def number (w : Width) (r : SvnOptRevision) : Int :=
  match w with
  | .w32 => r.value.readInt32
  | .w64 => r.value.readInt64

/-- `value.date` -/
def date (r : SvnOptRevision) : Int := r.value.readInt64

/-- What libsvn reads: the kind, and the member of the union that goes with it. -/
def read (w : Width) (r : SvnOptRevision) : RevisionKind × Option Int :=
  match r.kind with
  | .number => (.number, some (r.number w))
  | .date => (.date, some r.date)
  | kind => (kind, none)

end SvnOptRevision

/-! ## Reading what was written -/

namespace UnionMemory

theorem extract_low (high low : BitVec 32) : (high ++ low).extractLsb' 0 32 = low := by
  ext i hi
  rw [BitVec.getElem_extractLsb', BitVec.getLsbD_append, Nat.zero_add, if_pos hi,
    BitVec.getLsbD_eq_getElem]

theorem extract_high (high low : BitVec 32) : (high ++ low).extractLsb' 32 32 = high := by
  ext i hi
  rw [BitVec.getElem_extractLsb', BitVec.getLsbD_append, if_neg (by omega), Nat.add_sub_cancel_left,
    BitVec.getLsbD_eq_getElem]

theorem writeInt64_readInt64 (u : UnionMemory) : writeInt64 u.readInt64 = u := by
  unfold writeInt64 readInt64
  rw [BitVec.ofInt_toInt, extract_low, extract_high]

theorem readInt64_writeInt64 {n : Int} (h : -9223372036854775808 ≤ n)
    (h' : n < 9223372036854775808) : (writeInt64 n).readInt64 = n := by
  unfold writeInt64 readInt64
  rw [BitVec.extractLsb'_append_extractLsb']
  exact BitVec.toInt_ofInt_eq_self (by decide) h h'

theorem readInt32_writeInt32 (u : UnionMemory) {n : Int} (h : -2147483648 ≤ n)
    (h' : n < 2147483648) : (u.writeInt32 n).readInt32 = n :=
  BitVec.toInt_ofInt_eq_self (by decide) h h'

/-- Of two contents of the upper half one shows. -/
theorem readInt64_writeInt32_ne (n : Int) :
    ((⟨0, 0⟩ : UnionMemory).writeInt32 n).readInt64 ≠
      ((⟨0, 1⟩ : UnionMemory).writeInt32 n).readInt64 := by
  intro h
  have hbits := BitVec.toInt_inj.mp h
  have hhigh := congrArg (BitVec.extractLsb' 32 32) hbits
  rw [extract_high, extract_high] at hhigh
  exact absurd hhigh (by decide : (0 : BitVec 32) ≠ 1)

end UnionMemory

/-- Every byte is copied. -/
@[simp] theorem convertFromRevision_value (r : Revision) :
    (convertFromRevision r).value = r.memory :=
  UnionMemory.writeInt64_readInt64 r.memory

@[simp] theorem convertFromRevision_kind (r : Revision) : (convertFromRevision r).kind = r.kind :=
  rfl

theorem ofCode_eq_some {n : Int} {kind : RevisionKind} :
    RevisionKind.ofCode n = some kind ↔ n = kind.code := by
  constructor
  · intro h
    unfold RevisionKind.ofCode at h
    split at h <;> cases h <;> rfl
  · rintro rfl
    cases kind <;> rfl

theorem Revision.ofKind_some (kind : RevisionKind) :
    Revision.ofKind (some kind) =
      if kind.isKeyword then .ok ⟨kind, .writeInt64 0⟩ else .error (.svnTypeError "") := rfl

/-- The constructor takes the number of a keyword, and keeps it. -/
theorem Revision.ofKind_eq_ok {n : Int} {r : Revision} :
    Revision.ofKind (RevisionKind.ofCode n) = .ok r ↔
      ∃ kind : RevisionKind, kind.isKeyword = true ∧ n = kind.code ∧ r = ⟨kind, .writeInt64 0⟩ := by
  constructor
  · intro h
    cases hk : RevisionKind.ofCode n with
    | none =>
      rw [hk] at h
      cases h
    | some kind =>
      rw [hk, ofKind_some] at h
      split at h
      · rename_i hkeyword
        obtain rfl := Except.ok.inj h
        exact ⟨kind, hkeyword, ofCode_eq_some.mp hk, rfl⟩
      · cases h
  · rintro ⟨kind, hkeyword, hn, rfl⟩
    rw [ofCode_eq_some.mpr hn, ofKind_some, if_pos hkeyword]

end NodeSvn
