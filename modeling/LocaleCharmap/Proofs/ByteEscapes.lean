import Mathlib
import LocaleCharmap.Proofs.Expansion
import LocaleCharmap.Proofs.Unpacking
/-!
# Byte escapes read back

Writing bytes in charmap notation gives, for each byte, the escape character, `x` and two
lowercase hexadecimal digits. Main statement: reading that text back gives the bytes, in strict
and in lenient reading, and the comment after them trimmed, whenever the comment is empty or
starts with a blank and the escape character is not a blank.

What keeps each escape apart from the next is the bound of two digits after `x`: the reader
never takes a third, so the next escape character is left alone even when it is itself a
hexadecimal digit, `x` or `d`. The proof reads one byte off the front, then all of them by
induction on the bytes.
-/

namespace LocaleCharmap

open LocaleCharmap.Source LocaleCharmap.Text

/-! ### Two hexadecimal digits per byte -/

theorem byteHex_toList (b : UInt8) :
    (byteHex b).toList = padZeros 2 (Nat.toDigits 16 b.toNat) := by
  simp [byteHex, hexLower]

theorem length_byteHex (b : UInt8) : (byteHex b).toList.length = 2 := by
  have fits := Nat.toDigits_length 16 b.toNat 2 (by decide) (by simpa using b.toNat_lt)
  rw [byteHex_toList, padZeros, List.length_append, List.length_replicate]
  omega

theorem isDigitIn_byteHex (b : UInt8) : ∀ c ∈ (byteHex b).toList, isDigitIn 16 c = true := by
  intro c member
  rw [byteHex_toList, padZeros, List.mem_append] at member
  rcases member with padding | written
  · obtain ⟨-, rfl⟩ := List.mem_replicate.mp padding
    decide
  · obtain ⟨d, below, rfl⟩ := exists_digitChar_of_mem_toDigits (by decide) b.toNat written
    have digits : ∀ d < 16, isDigitIn 16 d.digitChar = true := by decide
    exact digits d below

theorem numeralValue_byteHex (b : UInt8) : numeralValue 16 (byteHex b).toList = b.toNat := by
  rw [byteHex_toList, numeralValue_padZeros]
  simpa using @numeralValue_map_toDigits 16 id (by decide) le_rfl (by decide) b.toNat

namespace Source

/-! ### Reading the escapes back -/

/-- A byte written as `x` and two hexadecimal digits reads back whatever follows, in strict and
lenient reading alike, and takes three characters. -/
theorem readByte_hex (escape : Char) (strict : Bool) (b : UInt8) (rest : List Char) :
    readByte escape strict ('x' :: ((byteHex b).toList ++ rest)) = .ok (b, 3) := by
  have taken : ((byteHex b).toList ++ rest).take 2 = (byteHex b).toList :=
    List.take_left' (length_byteHex b)
  have whole : (byteHex b).toList.takeWhile (isDigitIn 16) = (byteHex b).toList :=
    List.takeWhile_eq_self_iff.mpr (isDigitIn_byteHex b)
  have enough : ¬ (2 < if strict then 2 else 1) := by cases strict <;> decide
  simp only [readByte, List.head?_cons, Option.getD_some, digitRule, if_true, List.drop_succ_cons,
    List.drop_zero, taken, whole, length_byteHex, enough, if_false, numeralValue_byteHex]
  rw [if_neg (by have := b.toNat_lt; omega), toUInt8_toNat]

theorem formatEncoding_cons (b : UInt8) (bytes : List UInt8) (escape : Char) :
    (formatEncoding (b :: bytes) escape).toList =
      escape :: 'x' :: ((byteHex b).toList ++ (formatEncoding bytes escape).toList) := by
  simp [formatEncoding]

/-- Bytes written as escapes read back after the bytes `acc` collected so far, when what follows
them does not start with the escape character. -/
theorem readBytes_formatEncoding (escape : Char) (strict : Bool) {rest : List Char}
    (stops : ∀ c ∈ rest.head?, c ≠ escape) :
    ∀ (bytes acc : List UInt8),
    readBytes escape strict ((formatEncoding bytes escape).toList ++ rest) acc =
      .ok (acc.reverse ++ bytes, rest)
  | [], acc => by
    cases rest with
    | nil => simp [formatEncoding, readBytes]
    | cons c more =>
      have other : c ≠ escape := stops c rfl
      simp [formatEncoding, readBytes, other]
  | b :: bytes, acc => by
    -- the byte's three characters go, and the next escape starts the rest
    have skipped : ('x' :: ((byteHex b).toList ++
        ((formatEncoding bytes escape).toList ++ rest))).drop 3 =
        (formatEncoding bytes escape).toList ++ rest := by
      rw [List.drop_succ_cons, List.drop_left' (length_byteHex b)]
    rw [formatEncoding_cons, List.cons_append, List.cons_append, List.append_assoc, readBytes,
      if_pos rfl, readByte_hex]
    dsimp only
    rw [skipped, readBytes_formatEncoding escape strict stops bytes]
    simp

/-- Bytes written in charmap notation read back, in strict and lenient reading alike, and a comment
after them comes back trimmed, when the comment is empty or starts with a blank and the escape
character is not a blank. -/
theorem readEncoding_formatEncoding {bytes : List UInt8} (nonempty : bytes ≠ [])
    {escape : Char} (notBlank : isBlank escape = false) (strict : Bool) {comment : String}
    (separated : comment = "" ∨ startsWithBlank comment.toList = true) :
    readEncoding escape strict (formatEncoding bytes escape ++ comment).toList =
      .ok (bytes, trim comment.toList) := by
  -- a comment starts with a blank, so not with the escape character
  have stops : ∀ c ∈ comment.toList.head?, c ≠ escape := by
    rintro c first rfl
    cases listed : comment.toList with
    | nil => simp [listed] at first
    | cons d more =>
      rw [listed, List.head?_cons, Option.mem_some_iff] at first
      subst first
      rcases separated with empty | blank
      · simp [empty] at listed
      · rw [listed, startsWithBlank, notBlank] at blank
        cases blank
  have read := readBytes_formatEncoding escape strict stops bytes []
  rw [List.reverse_nil, List.nil_append] at read
  have accepted : (!comment.toList.isEmpty && !startsWithBlank comment.toList) = false := by
    rcases separated with empty | blank
    · simp [empty]
    · simp [blank]
  have filled : bytes.isEmpty = false := List.isEmpty_eq_false_iff.mpr nonempty
  simp only [readEncoding, String.toList_append, read, bind, Except.bind, pure, Except.pure, filled,
    accepted, Bool.false_eq_true, if_false]

/-- With `x` itself as the escape character, `xxc3xxa9` and a comment read back strictly. -/
theorem readEncoding_formatEncoding_marker_escape :
    [0xc3, 0xa9] ≠ ([] : List UInt8) ∧ isBlank 'x' = false ∧
    (String.ofList [' ', 'd'] = "" ∨ startsWithBlank (String.ofList [' ', 'd']).toList = true) ∧
    readEncoding 'x' true (formatEncoding [0xc3, 0xa9] 'x' ++ String.ofList [' ', 'd']).toList =
      .ok ([0xc3, 0xa9], trim (String.ofList [' ', 'd']).toList) := by
  have separated : String.ofList [' ', 'd'] = "" ∨
      startsWithBlank (String.ofList [' ', 'd']).toList = true :=
    Or.inr (by simp [startsWithBlank, isBlank])
  exact ⟨by decide, by decide, separated,
    readEncoding_formatEncoding (by decide) (by decide) true separated⟩

end Source

end LocaleCharmap
