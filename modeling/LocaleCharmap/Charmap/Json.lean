import LocaleCharmap.Charmap.Basic
import LocaleCharmap.Json
/-!
# Charmaps as JSON

A charmap is written as an object with its header fields, its aliases, its default width and its
entries, in that order. An entry has its name and its bytes as an array of numbers, then its
scalar value, comment and width, each only when it has one.
-/

namespace LocaleCharmap

/-- The JSON form of a character. -/
def Entry.toJson (e : Entry) : Json :=
  .obj <| [("name", .str e.name), ("bytes", .arr (e.bytes.map fun b => .num b.toNat))] ++
    (e.scalar.map fun v => ("ucs", Json.num v)).toList ++
    (e.comment.map fun c => ("comment", Json.str c)).toList ++
    (e.width.map fun w => ("width", Json.num w)).toList

/-- The JSON form of a charmap. -/
def Charmap.toJson (m : Charmap) : Json :=
  .obj [
    ("code_set_name", match m.codeSetName with | some n => .str n | none => .null),
    ("mb_cur_min", .num m.mbCurMin),
    ("mb_cur_max", .num m.mbCurMax),
    ("escape_char", .str (String.singleton m.escapeChar)),
    ("comment_char", .str (String.singleton m.commentChar)),
    ("aliases", .arr (m.aliases.toList.map .str)),
    ("width_default", .num m.widthDefault),
    ("entries", .arr (m.entries.toList.map Entry.toJson))]

end LocaleCharmap
