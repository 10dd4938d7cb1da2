import LocaleCharmap.Text.Blank
import LocaleCharmap.Text.Digits
import LocaleCharmap.Text.Quoted
/-!
# Byte escapes

A character's encoding is written as a run of byte escapes: the escape character, then `x` and
hexadecimal digits, `d` and decimal digits, or octal digits alone. Strict reading asks for two
hex digits, or two or three decimal or octal ones; lenient reading takes one digit as well. A
value above 255 is refused. After the escapes either nothing follows or a blank and a comment.
-/

namespace LocaleCharmap.Source

open LocaleCharmap.Text

/-- How many digits of which radix a byte escape takes after its marker, and how long the
marker is. -/
structure DigitRule where
  radix : Nat
  least : Nat
  most : Nat
  markerLength : Nat
  deriving DecidableEq, Repr

/-- The rule for the character after the escape character. -/
def digitRule (marker : Char) (strict : Bool) : DigitRule :=
  if marker = 'x' then ⟨16, if strict then 2 else 1, 2, 1⟩
  else if marker = 'd' then ⟨10, if strict then 2 else 1, 3, 1⟩
  else ⟨8, if strict then 2 else 1, 3, 0⟩

/-- Why an encoding could not be read. -/
inductive EncodingError where
  /-- Too few digits; the marker and digits that were there are kept. -/
  | malformed (escape : Char) (written : String)
  /-- The value is above 255; the marker and digits are kept. -/
  | exceeds (escape : Char) (written : String)
  /-- The text does not start with the escape character. -/
  | missing (escape : Char)
  /-- Something other than a blank follows the escapes. -/
  | trailing (rest : String)
  deriving DecidableEq, Repr

/-- The text of the error. -/
def EncodingError.message : EncodingError → String
  | .malformed e w => "malformed byte escape " ++ String.singleton e ++ w
  | .exceeds e w => "byte escape " ++ String.singleton e ++ w ++ " exceeds 255"
  | .missing e => "expected a byte encoding starting with '" ++ String.singleton e ++ "'"
  | .trailing rest => "unexpected text " ++ quoted rest ++ " after encoding"

/-- Reads one byte from the text after an escape character: the byte and how many characters
its marker and digits take. -/
def readByte (escape : Char) (strict : Bool) (cs : List Char) : Except EncodingError (UInt8 × Nat) :=
  let rule := digitRule (cs.head?.getD ' ') strict
  let body := cs.drop rule.markerLength
  let digits := (body.take rule.most).takeWhile (isDigitIn rule.radix)
  let used := rule.markerLength + digits.length
  let written := String.ofList (cs.take used)
  if digits.length < rule.least then .error (.malformed escape written)
  else
    let v := numeralValue rule.radix digits
    if 255 < v then .error (.exceeds escape written) else .ok (v.toUInt8, used)

/-- Reads escapes while the text starts with the escape character, collecting the bytes in
reverse in `acc`. -/
def readBytes (escape : Char) (strict : Bool) (cs : List Char) (acc : List UInt8) :
    Except EncodingError (List UInt8 × List Char) :=
  match cs with
  | c :: rest =>
    if c = escape then
      match readByte escape strict rest with
      | .ok (b, used) => readBytes escape strict (rest.drop used) (b :: acc)
      | .error e => .error e
    else .ok (acc.reverse, cs)
  | [] => .ok (acc.reverse, [])
termination_by cs.length
decreasing_by simp only [List.length_drop, List.length_cons]; omega

/-- Reads an encoding and gives its bytes and the trimmed comment after it. -/
def readEncoding (escape : Char) (strict : Bool) (cs : List Char) :
    Except EncodingError (List UInt8 × List Char) := do
  let (bytes, rest) ← readBytes escape strict cs []
  if bytes.isEmpty then throw (.missing escape)
  if !rest.isEmpty && !startsWithBlank rest then throw (.trailing (String.ofList rest))
  pure (bytes, trim rest)

/-- The next encoding in big-endian order, kept at the same length; `none` when every byte is
`0xff`. -/
def incrementReversed : List UInt8 → Option (List UInt8)
  | [] => none
  | b :: rest => if b = 255 then (incrementReversed rest).map (0 :: ·) else some ((b + 1) :: rest)

/-- Adds one to the bytes read as a big-endian number; `none` when the first byte overflows. -/
def increment (bytes : List UInt8) : Option (List UInt8) :=
  (incrementReversed bytes.reverse).map List.reverse

/-- The bytes written as hexadecimal escapes, two lowercase digits each. -/
def formatEncoding (bytes : List UInt8) (escape : Char) : String :=
  String.join (bytes.map fun b => String.singleton escape ++ "x" ++ byteHex b)

end LocaleCharmap.Source
