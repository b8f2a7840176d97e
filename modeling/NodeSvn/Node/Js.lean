import Mathlib.Data.Rat.Lemmas
import NodeSvn.Cpp.Records

/-!
# JS values as the decoders see them

Numbers reach C++ through `Int32Value` and `IntegerValue`.  Both take every number; they give
it back exactly if it is an integer of 32 or of 64 bits (`int32Value_iff`,
`integerValue_iff`), and some other integer if not.
-/

namespace NodeSvn

/-- A JS number.  Each finite one is rational; 0 and -0 are the same here. -/
inductive JsNumber where
  | nan
  | infinity (negative : Bool)
  | finite (q : ℚ)
  deriving DecidableEq

inductive Js where
  | undefined
  | null
  | boolean (b : Bool)
  | number (x : JsNumber)
  /-- as `String::Utf8Value` gives it -/
  | string (utf8 : List UInt8)
  | symbol
  /-- The elements, if it is an array, and the properties; `none` where the read throws. -/
  | object (elements : Option (List (Option Js))) (get : String → Option Js)

namespace JsNumber

def ofInt (n : Int) : JsNumber := .finite n

def truncate (q : ℚ) : Int := q.num.tdiv q.den

/-- `Value::Int32Value`: truncated, then modulo 2^32. -/
def int32Value : JsNumber → Int
  | .finite q => toInt32 (truncate q)
  | _ => 0

/-- `Value::IntegerValue`: truncated, and the nearest `int64_t` if it is none. -/
def integerValue : JsNumber → Int
  | .nan => 0
  | .infinity true => -9223372036854775808
  | .infinity false => 9223372036854775807
  | .finite q => max (-9223372036854775808) (min 9223372036854775807 (truncate q))

def IsInt32 (x : JsNumber) : Prop := ∃ n, -2147483648 ≤ n ∧ n < 2147483648 ∧ x = .ofInt n

def IsInt64 (x : JsNumber) : Prop :=
  ∃ n, -9223372036854775808 ≤ n ∧ n < 9223372036854775808 ∧ x = .ofInt n

variable {x : JsNumber} {n m : Int}

theorem ofInt_inj : ofInt n = ofInt m ↔ n = m := by
  constructor
  · intro h
    exact Rat.intCast_injective (JsNumber.finite.inj h)
  · intro h
    rw [h]

theorem truncate_intCast (n : Int) : truncate (n : ℚ) = n := by
  unfold truncate
  rw [Rat.num_intCast, Rat.den_intCast]
  exact Int.tdiv_one n

theorem toInt32_range (n : Int) : -2147483648 ≤ toInt32 n ∧ toInt32 n < 2147483648 := by
  have hle := Int.le_bmod (x := n) (m := 4294967296) (by decide)
  have hlt := Int.bmod_lt (x := n) (m := 4294967296) (by decide)
  unfold toInt32
  omega

theorem toInt32_of_range (h : -2147483648 ≤ n) (h' : n < 2147483648) : toInt32 n = n := by
  unfold toInt32
  exact Int.bmod_eq_of_le (by omega) (by omega)

theorem toInt32_eq_self_iff : toInt32 n = n ↔ -2147483648 ≤ n ∧ n < 2147483648 := by
  constructor
  · intro h
    have hrange := toInt32_range n
    omega
  · rintro ⟨hlow, hhigh⟩
    exact toInt32_of_range hlow hhigh

theorem int32Value_range (x : JsNumber) :
    -2147483648 ≤ x.int32Value ∧ x.int32Value < 2147483648 := by
  cases x with
  | finite q => exact toInt32_range _
  | nan => exact ⟨by decide, by decide⟩
  | infinity negative => exact ⟨(by decide : (-2147483648 : Int) ≤ 0), (by decide : (0 : Int) < _)⟩

theorem integerValue_range (x : JsNumber) :
    -9223372036854775808 ≤ x.integerValue ∧ x.integerValue < 9223372036854775808 := by
  cases x with
  | finite q =>
    show _ ≤ max _ (min _ (truncate q)) ∧ max _ (min _ (truncate q)) < _
    omega
  | nan => exact ⟨by decide, by decide⟩
  | infinity negative => cases negative <;> exact ⟨by decide, by decide⟩

theorem int32Value_ofInt (h : -2147483648 ≤ n) (h' : n < 2147483648) :
    (ofInt n).int32Value = n := by
  show toInt32 (truncate n) = n
  rw [truncate_intCast]
  exact toInt32_of_range h h'

theorem integerValue_ofInt (h : -9223372036854775808 ≤ n) (h' : n < 9223372036854775808) :
    (ofInt n).integerValue = n := by
  show max _ (min _ (truncate n)) = n
  rw [truncate_intCast]
  omega

/-- **`Int32Value` gives a number back exactly if it is an integer of 32 bits.** -/
theorem int32Value_iff : x = ofInt x.int32Value ↔ x.IsInt32 := by
  constructor
  · intro h
    exact ⟨_, (int32Value_range x).1, (int32Value_range x).2, h⟩
  · rintro ⟨n, hl, hr, rfl⟩
    rw [int32Value_ofInt hl hr]

/-- **`IntegerValue` gives a number back exactly if it is an integer of 64 bits.** -/
theorem integerValue_iff : x = ofInt x.integerValue ↔ x.IsInt64 := by
  constructor
  · intro h
    exact ⟨_, (integerValue_range x).1, (integerValue_range x).2, h⟩
  · rintro ⟨n, hl, hr, rfl⟩
    rw [integerValue_ofInt hl hr]

end JsNumber

end NodeSvn
