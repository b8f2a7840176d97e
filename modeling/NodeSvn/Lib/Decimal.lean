import Mathlib.Algebra.Group.Nat.Defs

/-!
# Decimal digits

The digits of a number determine it (`Int.toString_injective`), and there are no more of them
than of a power of ten above it.
-/

theorem Nat.repr_injective_decimal {n m : Nat} (h : n.repr = m.repr) : n = m := by
  have hdigits : Nat.toDigits 10 n = Nat.toDigits 10 m := by
    rw [← Nat.toList_repr, ← Nat.toList_repr, h]
  rw [← @Nat.ofDigitChars_ten_toDigits n, ← @Nat.ofDigitChars_ten_toDigits m, hdigits]

/-- Digits do not begin with a sign. -/
theorem Nat.repr_ne_minus (n : Nat) (s : String) : n.repr ≠ "-" ++ s := by
  intro h
  have hmem : '-' ∈ Nat.toDigits 10 n := by
    rw [← Nat.toList_repr, h, String.toList_append]
    exact List.mem_append_left _ List.mem_cons_self
  exact absurd (Nat.isDigit_of_mem_toDigits (by decide) (by decide) hmem) (by decide)

theorem Int.toString_injective {n m : Int} (h : toString n = toString m) : n = m := by
  rw [Int.toString_eq_repr, Int.toString_eq_repr, Int.repr_eq_if, Int.repr_eq_if] at h
  by_cases hn : 0 ≤ n
  · by_cases hm : 0 ≤ m
    · rw [if_pos hn, if_pos hm] at h
      have := Nat.repr_injective_decimal h
      omega
    · rw [if_pos hn, if_neg hm] at h
      exact absurd h (Nat.repr_ne_minus _ _)
  · by_cases hm : 0 ≤ m
    · rw [if_neg hn, if_pos hm] at h
      exact absurd h.symm (Nat.repr_ne_minus _ _)
    · rw [if_neg hn, if_neg hm, String.append_right_inj] at h
      have := Nat.repr_injective_decimal h
      omega

/-- No more than four bytes for a digit. -/
theorem Nat.utf8ByteSize_repr_le (k : Nat) {n : Nat} (h : n < 10 ^ (k + 1)) :
    n.repr.utf8ByteSize ≤ 4 * (k + 1) := by
  have hdigit : ∀ c : Char, (String.singleton c).utf8ByteSize ≤ 4 := by
    intro c
    rw [String.utf8ByteSize_singleton]
    exact c.utf8Size_le_four
  induction k generalizing n with
  | zero =>
    rw [Nat.repr_of_lt (by omega)]
    exact hdigit _
  | succ k ih =>
    by_cases hn : n < 10
    · rw [Nat.repr_of_lt hn]
      have := hdigit n.digitChar
      omega
    · rw [Nat.repr_of_ge (by omega), String.utf8ByteSize_append]
      have hrest := ih (n := n / 10) (by rw [Nat.pow_succ] at h; omega)
      have hlast := hdigit (n % 10).digitChar
      omega
