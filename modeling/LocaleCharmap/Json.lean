import LocaleCharmap.Text.Digits
/-!
# JSON

The JSON values a charmap is written as, and their two written forms: compact, with no blank at
all, and pretty, with every member and element on a line of its own, indented by two spaces per
level, and a blank after each colon. In a string a quote and a backslash are escaped, the
controls backspace, form feed, line feed, carriage return and tab have letter escapes, the other
controls are written as `\u00XX` in lowercase hex, and every other character stands as it is.
-/

namespace LocaleCharmap

open LocaleCharmap.Text

/-- A JSON value whose numbers are natural numbers. -/
inductive Json where
  | null
  | bool (b : Bool)
  | num (n : Nat)
  | str (s : String)
  | arr (items : List Json)
  | obj (members : List (String × Json))
  deriving Repr, Inhabited

namespace Json

/-- How one character is written inside a JSON string. -/
def escapedChar (c : Char) : List Char :=
  if c = '"' then ['\\', '"']
  else if c = '\\' then ['\\', '\\']
  else if c = '\n' then ['\\', 'n']
  else if c = '\r' then ['\\', 'r']
  else if c = '\t' then ['\\', 't']
  else if c = '\x08' then ['\\', 'b']
  else if c = '\x0c' then ['\\', 'f']
  else if c.toNat < 0x20 then ['\\', 'u'] ++ (hexLower 4 c.toNat).toList
  else [c]

/-- Writes a string between quotes, escaped as JSON asks, after what is written so far. -/
def writeQuoted (out : String) (s : String) : String :=
  s.toList.foldl (fun out c => escapedChar c |>.foldl String.push out) (out.push '"') |>.push '"'

/-- A string between quotes, escaped as JSON asks. -/
def quote (s : String) : String :=
  writeQuoted "" s

mutual

/-- Writes the compact form of a value after what is written so far. Each piece is added at the
end of the text built up so far, so the text grows in place. -/
def writeCompact (out : String) : Json → String
  | .null => out ++ "null"
  | .bool b => out ++ if b then "true" else "false"
  | .num n => out ++ toString n
  | .str s => writeQuoted out s
  | .arr items => writeCompactItems (out.push '[') items |>.push ']'
  | .obj members => writeCompactMembers (out.push '\x7b') members |>.push '\x7d'

/-- Writes array elements in compact form, separated by commas. -/
def writeCompactItems (out : String) : List Json → String
  | [] => out
  | [v] => writeCompact out v
  | v :: rest => writeCompactItems ((writeCompact out v).push ',') rest

/-- Writes object members in compact form, separated by commas. -/
def writeCompactMembers (out : String) : List (String × Json) → String
  | [] => out
  | [(k, v)] => writeCompact ((writeQuoted out k).push ':') v
  | (k, v) :: rest =>
    writeCompactMembers ((writeCompact ((writeQuoted out k).push ':') v).push ',') rest

end

/-- The compact form. -/
def compact (v : Json) : String :=
  writeCompact "" v

/-- Writes two spaces for each level of nesting. -/
def writeIndent (out : String) (level : Nat) : String :=
  out.pushn ' ' (2 * level)

/-- Two spaces for each level of nesting. -/
def indent (level : Nat) : String :=
  writeIndent "" level

mutual

/-- Writes the pretty form of a value standing at the given level of nesting. -/
def writePretty (level : Nat) (out : String) : Json → String
  | .arr [] => out ++ "[]"
  | .obj [] => out ++ "\x7b\x7d"
  | .arr (v :: rest) =>
    let out := writePrettyItems (level + 1) (out ++ "[\n") (v :: rest)
    writeIndent (out.push '\n') level |>.push ']'
  | .obj (m :: rest) =>
    let out := writePrettyMembers (level + 1) (out ++ "\x7b\n") (m :: rest)
    writeIndent (out.push '\n') level |>.push '\x7d'
  | .null => out ++ "null"
  | .bool b => out ++ if b then "true" else "false"
  | .num n => out ++ toString n
  | .str s => writeQuoted out s

/-- Writes array elements at a level, one per line, separated by commas. -/
def writePrettyItems (level : Nat) (out : String) : List Json → String
  | [] => out
  | [v] => writePretty level (writeIndent out level) v
  | v :: rest => writePrettyItems level (writePretty level (writeIndent out level) v ++ ",\n") rest

/-- Writes object members at a level, one per line, separated by commas. -/
def writePrettyMembers (level : Nat) (out : String) : List (String × Json) → String
  | [] => out
  | [(k, v)] => writePretty level (writeQuoted (writeIndent out level) k ++ ": ") v
  | (k, v) :: rest =>
    writePrettyMembers level
      (writePretty level (writeQuoted (writeIndent out level) k ++ ": ") v ++ ",\n") rest

end

/-- The pretty form. -/
def pretty (v : Json) : String :=
  writePretty 0 "" v

end Json

end LocaleCharmap
