/-!
# Blank characters

A blank is a character with the Unicode `White_Space` property. Trimming, the blank test after a
keyword and the splitting of a line into words all use this one set, so a no-break space or an
ideographic space separates words just as a tab does, and a byte order mark does not.
-/

namespace LocaleCharmap.Text

/-- The twenty-five characters with the `White_Space` property. -/
def isBlank (c : Char) : Bool :=
  let n := c.toNat
  (0x09 ≤ n && n ≤ 0x0D) || n == 0x20 || n == 0x85 || n == 0xA0 || n == 0x1680 ||
    (0x2000 ≤ n && n ≤ 0x200A) || n == 0x2028 || n == 0x2029 || n == 0x202F ||
    n == 0x205F || n == 0x3000

/-- Drops the blanks at the start. -/
def trimStart (cs : List Char) : List Char :=
  cs.dropWhile isBlank

/-- Drops the blanks at the end. -/
def trimEnd (cs : List Char) : List Char :=
  (cs.reverse.dropWhile isBlank).reverse

/-- Drops the blanks at both ends. -/
def trim (cs : List Char) : List Char :=
  trimEnd (trimStart cs)

/-- Whether the text starts with a blank. -/
def startsWithBlank : List Char → Bool
  | c :: _ => isBlank c
  | [] => false

/-- Splits after the word being collected in reverse in `current`. -/
def wordsFrom : List Char → List Char → List (List Char)
  | [], current => if current.isEmpty then [] else [current.reverse]
  | c :: rest, current =>
    if isBlank c then
      if current.isEmpty then wordsFrom rest [] else current.reverse :: wordsFrom rest []
    else wordsFrom rest (c :: current)

/-- The maximal runs of non-blank characters, in order. -/
def words (cs : List Char) : List (List Char) :=
  wordsFrom cs []

/-- A line made of exactly the given words, however they are spaced. -/
def isWordsLine (cs : List Char) (expected : List String) : Bool :=
  words cs == expected.map String.toList

end LocaleCharmap.Text
