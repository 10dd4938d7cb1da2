import LocaleCharmap.Text.Quoted
/-!
# Symbolic names

A character is named between angle brackets, as in `<U0041>` or `<space>`. Inside the brackets
the escape character takes the next character literally, so `>` and the escape character itself
can be part of a name. Two names joined by three dots name a decimal range of characters, and two
names joined by two dots a hexadecimal one.
-/

namespace LocaleCharmap.Source

open LocaleCharmap.Text

/-- How the two ends of a range are joined: three dots count in decimal, two in hexadecimal. -/
inductive Ellipsis where
  | decimal
  | hex
  deriving DecidableEq, Repr, Inhabited

/-- The dots written between the two ends. -/
def Ellipsis.dots : Ellipsis → String
  | .decimal => "..."
  | .hex => ".."

/-- A range of names, as written: its two ends and the dots between them. -/
structure NameRange where
  first : String
  last : String
  ellipsis : Ellipsis
  deriving DecidableEq, Repr, Inhabited

/-- The range as it is written, each end between brackets. -/
def NameRange.written (r : NameRange) : String :=
  "<" ++ r.first ++ ">" ++ r.ellipsis.dots ++ "<" ++ r.last ++ ">"

/-- What a line names: one character, or a range of them. -/
inductive Named where
  | one (name : String)
  | range (r : NameRange)
  deriving DecidableEq, Repr, Inhabited

/-- Why a symbolic name could not be read. -/
inductive SymbolError where
  /-- The text does not open with `<`; the first sixteen characters are kept. -/
  | noOpening (preview : String)
  /-- The brackets hold nothing. -/
  | empty
  /-- No closing `>` follows; the first sixteen characters are kept. -/
  | unterminated (preview : String)
  deriving DecidableEq, Repr

/-- The text of the error. -/
def SymbolError.message : SymbolError → String
  | .noOpening p => "expected '<' at " ++ quoted p
  | .empty => "empty symbolic name"
  | .unterminated p => "unterminated symbolic name " ++ quoted p

/-- The first sixteen characters, which is what messages show of a text. -/
def preview (cs : List Char) : String :=
  String.ofList (cs.take 16)

/-- Collects a name up to the first `>` that is not escaped, in reverse in `acc`, and gives the
name and the text after the bracket; `none` when the text ends first. -/
def nameBody (escape : Char) : List Char → List Char → Option (List Char × List Char)
  | [], _ => none
  | c :: rest, acc =>
    if c = escape then
      match rest with
      | [] => none
      | literal :: after => nameBody escape after (literal :: acc)
    else if c = '>' then some (acc.reverse, rest)
    else nameBody escape rest (c :: acc)

/-- Reads `<name>` at the start of the text and gives the name and the rest. -/
def readSymbol (escape : Char) (cs : List Char) : Except SymbolError (String × List Char) :=
  match cs with
  | '<' :: body =>
    match nameBody escape body [] with
    | some (name, rest) =>
      if name.isEmpty then .error .empty else .ok (String.ofList name, rest)
    | none => .error (.unterminated (preview cs))
  | _ => .error (.noOpening (preview cs))

/-- Reads one name, or two names joined by dots, and gives what was named and the rest. -/
def readNamed (escape : Char) (cs : List Char) : Except SymbolError (Named × List Char) := do
  let (first, rest) ← readSymbol escape cs
  match rest with
  | '.' :: '.' :: '.' :: after =>
    let (last, rest) ← readSymbol escape after
    pure (.range ⟨first, last, .decimal⟩, rest)
  | '.' :: '.' :: after =>
    let (last, rest) ← readSymbol escape after
    pure (.range ⟨first, last, .hex⟩, rest)
  | _ => pure (.one first, rest)

end LocaleCharmap.Source
