import LocaleCharmap.Source.Symbol
/-!
# Ranges of names

A range `<x00>..<x7f>` stands for every name between its two ends: both ends share a prefix and
end in a numeral of one width, and the names in between count from the first numeral to the last
with that width kept by leading zeros. Two dots count in hexadecimal. Three dots count in
decimal, except that two `<Uxxxx>` scalar names whose numerals are not both decimal count in
hexadecimal. A range covers at most `maxRangeLength` names.
-/

namespace LocaleCharmap.Source

open LocaleCharmap.Text

/-- The largest number of names a range may cover. -/
def maxRangeLength : Nat := 2097152

/-- A Unicode scalar value: a code point that is not a surrogate. -/
def isScalar (n : Nat) : Bool :=
  n < 0xD800 || (0xE000 ≤ n && n ≤ 0x10FFFF)

/-- The scalar value that a name `Uxxxx` or `Uxxxxxxxx` spells in hexadecimal. -/
def scalarOfName (name : String) : Option Nat :=
  match name.toList with
  | 'U' :: digits =>
    if (digits.length == 4 || digits.length == 8) && digits.all (isDigitIn 16) then
      let v := numeralValue 16 digits
      if isScalar v then some v else none
    else none
  | _ => none

/-- Whether a three-dot range counts in hexadecimal: both ends are scalar names and their
numerals are not both decimal. -/
def NameRange.countsInHex (r : NameRange) : Bool :=
  let decimalNumeral (name : String) := name.toList.tail.all (isDigitIn 10)
  (scalarOfName r.first).isSome && (scalarOfName r.last).isSome &&
    !(decimalNumeral r.first && decimalNumeral r.last)

/-- The radix in which the names of the range count. -/
def NameRange.radix (r : NameRange) : Nat :=
  match r.ellipsis with
  | .hex => 16
  | .decimal => if r.countsInHex then 16 else 10

/-- A name split before the longest run of digits of the radix that ends it. -/
def splitNumeral (radix : Nat) (name : List Char) : List Char × List Char :=
  let digits := (name.reverse.takeWhile (isDigitIn radix)).reverse
  (name.take (name.length - digits.length), digits)

/-- Why a range cannot be expanded. -/
inductive RangeError where
  /-- An end has no numeral. -/
  | noNumeral (r : NameRange)
  /-- The ends differ in prefix or in numeral width. -/
  | unlike (r : NameRange)
  /-- A numeral does not fit in 64 bits. -/
  | numeralTooLarge (digits : String)
  /-- The last numeral is below the first. -/
  | backwards (r : NameRange)
  /-- The range covers more than `maxRangeLength` names. -/
  | tooLong (r : NameRange)
  deriving DecidableEq, Repr

/-- The text of the error. -/
def RangeError.message : RangeError → String
  | .noNumeral r => "range " ++ r.written ++ " needs a numeric suffix on both names"
  | .unlike r => "range ends <" ++ r.first ++ "> and <" ++ r.last ++
      "> do not share a prefix and suffix width"
  | .numeralTooLarge d => "range suffix " ++ quoted d ++ " is too large"
  | .backwards r => "range " ++ r.written ++ " runs backwards"
  | .tooLong r => "range " ++ r.written ++ " covers more than " ++ toString maxRangeLength ++
      " names"

/-- The names of an expanded range: the shared prefix, then `count` numbers from `start`, each
written in `radix` with `width` digits, in lowercase when the first numeral has a lowercase
letter. -/
structure Expansion where
  pre : String
  start : Nat
  count : Nat
  radix : Nat
  width : Nat
  lower : Bool
  deriving DecidableEq, Repr

/-- The numeral of `n` as the expansion writes it. -/
def Expansion.numeral (e : Expansion) (n : Nat) : List Char :=
  let digits := Nat.toDigits e.radix n
  padZeros e.width (if e.lower then digits else digits.map Char.toUpper)

/-- The `i`-th name, counting from zero. -/
def Expansion.nameAt (e : Expansion) (i : Nat) : String :=
  e.pre ++ String.ofList (e.numeral (e.start + i))

/-- All the names, in order. -/
def Expansion.names (e : Expansion) : List String :=
  (List.range e.count).map e.nameAt

/-- The largest numeral value a range end may have, plus one. -/
def numeralBound : Nat := 18446744073709551616

/-- Expands a range into its names, or says why it cannot. -/
def NameRange.expand (r : NameRange) : Except RangeError Expansion := do
  let radix := r.radix
  let (pre, digits) := splitNumeral radix r.first.toList
  let (lastPre, lastDigits) := splitNumeral radix r.last.toList
  if digits.isEmpty || lastDigits.isEmpty then throw (.noNumeral r)
  if pre != lastPre || digits.length != lastDigits.length then throw (.unlike r)
  let start := numeralValue radix digits
  if numeralBound ≤ start then throw (.numeralTooLarge (String.ofList digits))
  let stop := numeralValue radix lastDigits
  if numeralBound ≤ stop then throw (.numeralTooLarge (String.ofList lastDigits))
  if stop < start then throw (.backwards r)
  if maxRangeLength ≤ stop - start then throw (.tooLong r)
  pure {
    pre := String.ofList pre
    start := start
    count := stop - start + 1
    radix := radix
    width := digits.length
    lower := digits.any Char.isLower }

end LocaleCharmap.Source
