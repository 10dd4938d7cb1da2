import Mathlib
import LocaleCharmap.Source.Symbol
/-!
# Reading symbolic names back

A name is written between brackets with the escape character before each escape character and
each `>` it holds (`escapeName`). Reading takes every escaped character literally and stops at the
first `>` that is not escaped, so it gives back any non-empty name written so, with the text after
the bracket untouched, whatever that text is. The escape character may be anything but `>`: a
bracket that is the escape character could never close a name.

Two names joined by three dots read as a decimal range, and by two dots as a hexadecimal one:
the three dots are tried first, and a written name never starts with a dot. A name followed by
anything that does not start with two dots reads as that one name.
-/

namespace LocaleCharmap.Source

/-- A name as it is written between brackets: the escape character goes before each escape
character and each `>`. -/
def escapeName (escape : Char) (name : List Char) : List Char :=
  name.flatMap fun c => if c = escape ∨ c = '>' then [escape, c] else [c]

/-- A character other than the escape character either closes the name or is part of it. -/
theorem nameBody_cons_of_ne {escape c : Char} (plain : c ≠ escape) (rest acc : List Char) :
    nameBody escape (c :: rest) acc =
      if c = '>' then some (acc.reverse, rest) else nameBody escape rest (c :: acc) := by
  cases rest <;> simp [nameBody, plain]

section

variable {escape : Char} (notClosing : escape ≠ '>')
include notClosing

/-- The body of a written name is read up to its closing bracket, each character once. -/
theorem nameBody_escapeName (name rest acc : List Char) :
    nameBody escape (escapeName escape name ++ '>' :: rest) acc =
      some (acc.reverse ++ name, rest) := by
  -- one written character at a time; the accumulator holds what was read, reversed
  induction name generalizing acc with
  | nil => simp [escapeName, nameBody_cons_of_ne (Ne.symm notClosing)]
  | cons c name inductionHypothesis =>
    rw [escapeName, List.flatMap_cons, ← escapeName, List.append_assoc]
    by_cases special : c = escape ∨ c = '>'
    · -- an escaped character is taken literally, even a `>`
      rw [if_pos special, List.cons_append, List.cons_append, nameBody, if_pos rfl]
      simp [inductionHypothesis]
    · have plain : c ≠ escape ∧ c ≠ '>' := not_or.mp special
      rw [if_neg special, List.cons_append, List.nil_append, nameBody_cons_of_ne plain.1,
        if_neg plain.2, inductionHypothesis]
      simp

theorem readSymbol_escapeName {name : String} (named : name ≠ "") (rest : List Char) :
    readSymbol escape ('<' :: (escapeName escape name.toList ++ '>' :: rest)) =
      .ok (name, rest) := by
  have nonempty : name.toList.isEmpty = false := by
    simpa [List.isEmpty_iff] using named
  simp only [readSymbol, nameBody_escapeName notClosing, List.reverse_nil, List.nil_append,
    nonempty, Bool.false_eq_true, if_false, String.ofList_toList]

/-- Reading inverts writing: a written name reads back as the name, two written names joined by
dots read back as the range of the dots' kind, and a written name followed by anything that does
not start with two dots reads back as that one name; in each case the rest of the text is what
followed. -/
theorem readNamed_escapeName {first last : String} (named : first ≠ "") (named' : last ≠ "")
    (rest : List Char) :
    readSymbol escape ('<' :: (escapeName escape first.toList ++ '>' :: rest)) =
        .ok (first, rest) ∧
      (∀ ellipsis : Ellipsis,
        readNamed escape ('<' :: (escapeName escape first.toList ++ '>' :: (ellipsis.dots.toList ++
          '<' :: (escapeName escape last.toList ++ '>' :: rest)))) =
            .ok (.range ⟨first, last, ellipsis⟩, rest)) ∧
      (¬ ['.', '.'] <+: rest →
        readNamed escape ('<' :: (escapeName escape first.toList ++ '>' :: rest)) =
          .ok (.one first, rest)) := by
  have readFirst := readSymbol_escapeName notClosing named
  have readLast := readSymbol_escapeName notClosing named'
  refine ⟨readFirst rest, fun ellipsis => ?_, fun single => ?_⟩
  · -- the bracket after the dots tells three dots from two
    cases ellipsis with
    | decimal =>
      have dots : Ellipsis.decimal.dots.toList = ['.', '.', '.'] := by decide
      simp only [readNamed, dots, List.cons_append, List.nil_append, readFirst, bind, Except.bind,
        readLast]
      rfl
    | hex =>
      have dots : Ellipsis.hex.dots.toList = ['.', '.'] := by decide
      simp only [readNamed, dots, List.cons_append, List.nil_append, readFirst, bind, Except.bind]
      split
      · -- a third dot would have to be the bracket that opens the last name
        rename_i after opening
        simp at opening
      · rename_i after _ matched
        simp only [List.cons.injEq, true_and] at matched
        subst matched
        simp only [readLast]
        rfl
      · rename_i _ notHex
        exact absurd rfl (notHex _)
  · simp only [readNamed, readFirst, bind, Except.bind]
    split
    · exact absurd ⟨_, rfl⟩ single
    · exact absurd ⟨_, rfl⟩ single
    · rfl

end

/-- A `>` escaped by a slash is part of the name; two dots make a hexadecimal range and three a
decimal one. -/
theorem readNamed_escapeName_slash :
    '/' ≠ '>' ∧ String.ofList ['a', '>', 'b'] ≠ "" ∧ String.ofList ['c'] ≠ "" ∧
    (readSymbol '/' ('<' :: (escapeName '/' (String.ofList ['a', '>', 'b']).toList ++ '>' ::
        [' ', '/', 'x'])) = .ok (String.ofList ['a', '>', 'b'], [' ', '/', 'x']) ∧
      (∀ ellipsis : Ellipsis,
        readNamed '/' ('<' :: (escapeName '/' (String.ofList ['a', '>', 'b']).toList ++ '>' ::
          (ellipsis.dots.toList ++ '<' :: (escapeName '/' (String.ofList ['c']).toList ++ '>' ::
            [' ', '/', 'x'])))) =
          .ok (.range ⟨String.ofList ['a', '>', 'b'], String.ofList ['c'], ellipsis⟩,
            [' ', '/', 'x'])) ∧
      (¬ ['.', '.'] <+: [' ', '/', 'x'] →
        readNamed '/' ('<' :: (escapeName '/' (String.ofList ['a', '>', 'b']).toList ++ '>' ::
          [' ', '/', 'x'])) = .ok (.one (String.ofList ['a', '>', 'b']), [' ', '/', 'x']))) :=
  ⟨by decide, by simp, by simp, readNamed_escapeName (by decide) (by simp) (by simp) _⟩

end LocaleCharmap.Source
