import LocaleCharmap.Source.Symbol
import LocaleCharmap.Source.Range
import LocaleCharmap.Source.Encoding
/-!
# Faults

Everything that can stop a charmap from being read or a table from being built or read back,
each as a cause with its own data. The wording of every cause is in one `message` function per
type.
-/

namespace LocaleCharmap

open LocaleCharmap.Text LocaleCharmap.Source

/-- What is wrong with one line of a charmap. -/
inductive Problem where
  | symbol (e : SymbolError)
  | range (e : RangeError)
  | encoding (e : EncodingError)
  /-- `<mb_cur_min>` is zero when the CHARMAP section opens. -/
  | minWidthZero
  /-- `<mb_cur_max>` is above the sixteen bytes a multibyte character may take. -/
  | maxWidthAboveLimit (max : Nat)
  /-- `<mb_cur_min>` is above `<mb_cur_max>`. -/
  | minAboveMax (min max : Nat)
  /-- A character's encoding is shorter or longer than the widths allow. -/
  | encodedLength (name : String) (length min max : Nat)
  | noCodeSetName
  | notSmallInteger (keyword value : String)
  | notSingleChar (keyword value : String)
  | textBeforeCharmap (content : String)
  | unknownKeyword (keyword : String)
  | duplicateName (name : String)
  /-- The encodings of a range run past the greatest value their length holds. -/
  | encodingOverflow (first last : String)
  | widthDefaultArity
  | badWidthDefault (value : String)
  | textAfterCharmap (content : String)
  | badWidth (value : String)
  | widthRangeBackwards (r : NameRange)
  | widthUndefined (name : String)
  /-- The text ends inside the named section. -/
  | missingEnd (part : String)
  deriving DecidableEq, Repr

/-- The text of the problem. -/
def Problem.message : Problem → String
  | .symbol e => e.message
  | .range e => e.message
  | .encoding e => e.message
  | .minWidthZero => "mb_cur_min must be at least 1"
  | .maxWidthAboveLimit max => "mb_cur_max " ++ toString max ++ " exceeds MB_LEN_MAX (16)"
  | .minAboveMax min max =>
    "mb_cur_min " ++ toString min ++ " is greater than mb_cur_max " ++ toString max
  | .encodedLength name length min max =>
    "<" ++ name ++ "> is encoded in " ++ toString length ++ " bytes, outside " ++ toString min ++
      "..=" ++ toString max
  | .noCodeSetName => "<code_set_name> needs a value"
  | .notSmallInteger keyword value =>
    "<" ++ keyword ++ "> expects a small integer, got " ++ quoted value
  | .notSingleChar keyword value =>
    "<" ++ keyword ++ "> expects a single character, got " ++ quoted value
  | .textBeforeCharmap content => "unexpected text before CHARMAP: " ++ quoted content
  | .unknownKeyword keyword => "unknown header keyword <" ++ keyword ++ ">"
  | .duplicateName name => "duplicate character name <" ++ name ++ ">, keeping the first"
  | .encodingOverflow first last =>
    "encoding overflows within range <" ++ first ++ ">..<" ++ last ++ ">"
  | .widthDefaultArity => "WIDTH_DEFAULT takes a single value"
  | .badWidthDefault value => "invalid WIDTH_DEFAULT " ++ quoted value
  | .textAfterCharmap content => "unexpected text after END CHARMAP: " ++ quoted content
  | .badWidth value => "invalid width " ++ quoted value
  | .widthRangeBackwards r => "WIDTH range " ++ r.written ++ " runs backwards"
  | .widthUndefined name => "WIDTH for undefined character <" ++ name ++ ">"
  | .missingEnd part => "missing END " ++ part

/-- Why a table cannot be built, or why bytes are not a packed table. -/
inductive TableFault where
  | noScalars
  | truncated (offset : Nat)
  | badMagic
  | unsupportedVersion (version : Nat)
  | badWidths (min max : Nat)
  | overfull (count size : Nat)
  | recordLength (index length : Nat)
  | notScalar (index value : Nat)
  | outOfOrder (index : Nat)
  | indexOutOfRange (entry : Nat)
  | indexRepeated (entry : Nat)
  | indexUnordered
  deriving DecidableEq, Repr

/-- The text of the fault. -/
def TableFault.message : TableFault → String
  | .noScalars => "charmap defines no <Uxxxx> characters to tabulate"
  | .truncated offset => "truncated at offset " ++ toString offset
  | .badMagic => "bad magic"
  | .unsupportedVersion v => "unsupported version " ++ toString v
  | .badWidths min max => "bad character widths " ++ toString min ++ "..=" ++ toString max
  | .overfull count size => toString count ++ " records do not fit in " ++ toString size ++ " bytes"
  | .recordLength i length => "record " ++ toString i ++ ": length " ++ toString length ++
      " out of range"
  | .notScalar i value => "record " ++ toString i ++ ": U+" ++ hexUpper 1 value ++
      " is not a scalar value"
  | .outOfOrder i => "record " ++ toString i ++ ": not in byte order"
  | .indexRepeated i => "index entry " ++ toString i ++ " repeated"
  | .indexOutOfRange i => "index entry " ++ toString i ++ " out of range"
  | .indexUnordered => "reverse index not ordered by scalar value"

/-- Why input bytes could not be read as text. -/
inductive ReadFault where
  /-- The bytes are not UTF-8. -/
  | notText
  /-- The system refused; its own description is kept. -/
  | system (description : String)
  deriving DecidableEq, Repr

/-- The text of the fault. -/
def ReadFault.message : ReadFault → String
  | .notText => "stream did not contain valid UTF-8"
  | .system description => description

/-- Why reading a charmap or building its table failed. -/
inductive Fault where
  | unreadable (e : ReadFault)
  /-- A line of the charmap is wrong; lines count from one. -/
  | malformed (line : Nat) (problem : Problem)
  | noCharmapSection
  | portableMissing (names : List String)
  | table (e : TableFault)
  deriving DecidableEq, Repr

/-- The names written each between brackets, separated by spaces. -/
def bracketedNames (names : List String) : String :=
  " ".intercalate (names.map fun n => "<" ++ n ++ ">")

/-- The text of the fault. -/
def Fault.message : Fault → String
  | .unreadable e => "I/O error: " ++ e.message
  | .malformed line problem => "syntax at line " ++ toString line ++ ": " ++ problem.message
  | .noCharmapSection => "invalid charmap: no CHARMAP section"
  | .portableMissing names =>
    "invalid charmap: portable characters not defined: " ++ bracketedNames names
  | .table e => "locale table: " ++ e.message

end LocaleCharmap
