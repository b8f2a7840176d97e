/-!
# UTF-8

The bytes of a string, and a decoder that takes all bytes: what is no UTF-8 becomes U+FFFD.
It gives back each string from its bytes (`decodeUtf8_utf8`).
-/

namespace String

/-- The bytes of its UTF-8. -/
def utf8 (s : String) : List UInt8 := s.toByteArray.data.toList

theorem length_utf8 (s : String) : s.utf8.length = s.utf8ByteSize := by
  rw [utf8, Array.length_toList]
  rfl

theorem utf8_eq_flatMap (s : String) : s.utf8 = s.toList.flatMap utf8EncodeChar := by
  rw [utf8, ← utf8Encode_toList, List.utf8Encode, List.data_toByteArray]

end String

/-- The bytes of some string. -/
def IsUtf8 (bytes : List UInt8) : Prop := ∃ s : String, s.utf8 = bytes

theorem isUtf8_utf8 (s : String) : IsUtf8 s.utf8 := ⟨s, rfl⟩

/-- One character after the other; a byte that begins none is replaced. -/
def decodeChars : Nat → List UInt8 → List Char
  | 0, _ => []
  | _, [] => []
  | n + 1, b :: rest =>
    match (b :: rest).toByteArray.utf8DecodeChar? 0 with
    | some c => c :: decodeChars n ((b :: rest).drop c.utf8Size)
    | none => '\uFFFD' :: decodeChars n rest

def decodeUtf8 (bytes : List UInt8) : String := .ofList (decodeChars bytes.length bytes)

theorem decodeChars_encode (l : List Char) {n : Nat}
    (hn : (l.flatMap String.utf8EncodeChar).length ≤ n) :
    decodeChars n (l.flatMap String.utf8EncodeChar) = l := by
  induction l generalizing n with
  | nil => cases n <;> rfl
  | cons c l ih =>
    rw [List.flatMap_cons, List.length_append] at hn
    rw [List.flatMap_cons]
    have hlen := String.length_utf8EncodeChar c
    have hpos := c.utf8Size_pos
    obtain ⟨n, rfl⟩ : ∃ m, n = m + 1 := Nat.exists_eq_add_one.mpr (by omega)
    match hc : String.utf8EncodeChar c, hlen with
    | [], hlen => simp at hlen; omega
    | b :: bs, hlen =>
      have hdecode : (b :: (bs ++ l.flatMap String.utf8EncodeChar)).toByteArray.utf8DecodeChar? 0 =
          some c := by
        rw [← List.cons_append, ← hc, List.toByteArray_append]
        exact ByteArray.utf8DecodeChar?_utf8EncodeChar_append
      rw [List.cons_append, decodeChars, hdecode]
      simp only
      rw [← List.cons_append, List.drop_left' hlen]
      rw [hc, hlen] at hn
      rw [ih (by omega)]

/-- Each string is read back. -/
theorem decodeUtf8_utf8 (s : String) : decodeUtf8 s.utf8 = s := by
  rw [decodeUtf8, s.utf8_eq_flatMap, decodeChars_encode s.toList (Nat.le_refl _),
    String.ofList_toList]

example : decodeUtf8 [0x63, 0x61, 0x66, 0xe9] = "caf\uFFFD" := by decide
