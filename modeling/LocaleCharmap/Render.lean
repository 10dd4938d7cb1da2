import LocaleCharmap.Charmap.Json
import LocaleCharmap.Table.Binary
import LocaleCharmap.Table.CSource
/-!
# Output formats

A charmap is written out in one of three formats: the packed table, the table as C source, or the
charmap itself as compact JSON. The two table formats build the table first, with its reports.
-/

namespace LocaleCharmap

open LocaleCharmap.Text

/-- The formats a charmap can be written in. -/
inductive Format where
  | binary
  | cSource
  | json
  deriving DecidableEq, Repr, Inhabited

/-- The bytes of a charmap written in a format, under a table name. -/
def Charmap.render (m : Charmap) (name : String) : Format → Logged (List UInt8)
  | .binary => do
    let t ← LocaleTable.ofCharmap m name
    pure t.toBytes
  | .cSource => do
    let t ← LocaleTable.ofCharmap m name
    pure (utf8Bytes t.toCSource)
  | .json => pure (utf8Bytes m.toJson.compact)

end LocaleCharmap
