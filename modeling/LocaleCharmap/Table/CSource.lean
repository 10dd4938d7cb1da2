import LocaleCharmap.Table.Basic
import LocaleCharmap.Text.Digits
import LocaleCharmap.Text.Layout
/-!
# Tables as C source

A table can be written as a C header: its widths and size as macros, the records as an array of
structures with the bytes padded to `mb_cur_max`, and the second index as an array of positions,
twelve to a line. The identifiers come from the table's name.
-/

namespace LocaleCharmap

open LocaleCharmap.Text

/-- The C identifier for a name: every character that is not an ASCII letter or digit becomes an
underscore, leading underscores go, an empty result becomes `charmap` and one that starts with a
digit gets the prefix `charmap_`. -/
def cIdentifier (name : String) : String :=
  let mapped := name.toList.map fun c => if c.isAlphanum then c else '_'
  let id := mapped.dropWhile (· = '_')
  match id with
  | [] => "charmap"
  | c :: _ => if c.isDigit then "charmap_" ++ String.ofList id else String.ofList id

/-- A record as a C initializer: scalar value, length, and the bytes padded with zeros to the
width. -/
def recordLiteral (scalar : Nat) (bytes : List UInt8) (width : Nat) : String :=
  let padded := (bytes ++ List.replicate (width - bytes.length) 0).take width
  "\x7b0x" ++ hexLower 4 scalar ++ ", " ++ toString bytes.length ++ ", \x7b" ++
    ", ".intercalate (padded.map fun b => "0x" ++ byteHex b) ++ "\x7d\x7d"

/-- The table as a C header, written line by line. -/
def LocaleTable.toCSource (t : LocaleTable) : String :=
  let id := cIdentifier t.name
  let lower := id.map Char.toLower
  let upper := id.map Char.toUpper
  let count := toString t.size
  let w := LineWriter.new
    |>.line 0 ("/* Locale table " ++ id ++ ": " ++ count ++
      " characters, generated from a POSIX charmap. */")
    |>.line 0 "#include <stdint.h>"
    |>.blank
    |>.line 0 ("#define " ++ upper ++ "_MB_CUR_MIN " ++ toString t.mbCurMin)
    |>.line 0 ("#define " ++ upper ++ "_MB_CUR_MAX " ++ toString t.mbCurMax)
    |>.line 0 ("#define " ++ upper ++ "_COUNT " ++ count)
    |>.blank
    |>.line 0 "static const struct \x7b"
    |>.line 2 "uint32_t ucs;"
    |>.line 2 "uint8_t len;"
    |>.line 2 ("uint8_t bytes[" ++ toString t.mbCurMax ++ "];")
    |>.line 0 ("\x7d " ++ lower ++ "_records[" ++ upper ++ "_COUNT] = \x7b")
  let w := t.records.foldl
    (fun w r => w.line 2 (recordLiteral r.scalar r.bytes t.mbCurMax ++ ",")) w
  let w := w
    |>.line 0 "\x7d;"
    |>.blank
    |>.line 0 ("static const uint32_t " ++ lower ++ "_by_ucs[" ++ upper ++ "_COUNT] = \x7b")
    |>.wrappedList 2 (t.byScalar.map toString) 12
    |>.line 0 "\x7d;"
  w.intoString

end LocaleCharmap
