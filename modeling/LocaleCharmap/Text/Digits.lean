import LocaleCharmap.Text.Blank
/-!
# Digits

Numerals in charmaps and in the tables written from them: reading an unsigned decimal the way a
header value or a width is read, the value of a digit in a radix up to 36, and writing a number in
hexadecimal with zero padding.
-/

namespace LocaleCharmap.Text

/-- The value of an ASCII digit or letter, letters counting from ten in either case. -/
def digitValue (c : Char) : Option Nat :=
  if '0' ≤ c && c ≤ '9' then some (c.toNat - '0'.toNat)
  else if 'a' ≤ c && c ≤ 'z' then some (c.toNat - 'a'.toNat + 10)
  else if 'A' ≤ c && c ≤ 'Z' then some (c.toNat - 'A'.toNat + 10)
  else none

/-- A digit of the given radix. -/
def isDigitIn (radix : Nat) (c : Char) : Bool :=
  match digitValue c with
  | some v => v < radix
  | none => false

/-- The value of a numeral whose characters are all digits of the radix. -/
def numeralValue (radix : Nat) (cs : List Char) : Nat :=
  cs.foldl (fun acc c => acc * radix + (digitValue c).getD 0) 0

/-- Reads an unsigned decimal: an optional `+`, at least one ASCII digit and nothing else, with a
value below `bound`. -/
def readUnsigned? (bound : Nat) (cs : List Char) : Option Nat :=
  let digits := match cs with
    | '+' :: rest => rest
    | _ => cs
  if digits.isEmpty || !digits.all (isDigitIn 10) then none
  else
    let v := numeralValue 10 digits
    if v < bound then some v else none

/-- Reads a value that fits in one byte. -/
def readByteValue? (cs : List Char) : Option Nat :=
  readUnsigned? 256 cs

/-- Reads a value that fits in 32 bits. -/
def readWordValue? (cs : List Char) : Option Nat :=
  readUnsigned? 4294967296 cs

/-- Pads with zeros on the left up to `width` characters. -/
def padZeros (width : Nat) (cs : List Char) : List Char :=
  List.replicate (width - cs.length) '0' ++ cs

/-- Lowercase hexadecimal digits of `n`, at least `width` of them. -/
def hexLower (width n : Nat) : String :=
  String.ofList (padZeros width (Nat.toDigits 16 n))

/-- Uppercase hexadecimal digits of `n`, at least `width` of them. -/
def hexUpper (width n : Nat) : String :=
  String.ofList (padZeros width ((Nat.toDigits 16 n).map Char.toUpper))

/-- Decimal digits of `n`, at least `width` of them. -/
def decimalPadded (width n : Nat) : String :=
  String.ofList (padZeros width (Nat.toDigits 10 n))

/-- The byte as two lowercase hexadecimal digits. -/
def byteHex (b : UInt8) : String :=
  hexLower 2 b.toNat

/-- Bytes as lowercase hexadecimal, two digits each, with no separator. -/
def bytesHex (bs : List UInt8) : String :=
  String.join (bs.map byteHex)

end LocaleCharmap.Text
