import LocaleCharmap.Charmap.Portable
import LocaleCharmap.Diagnostic
import LocaleCharmap.Source.Line
import LocaleCharmap.Text.Utf8
/-!
# Reading a charmap

A charmap source has a header of `<keyword> value` lines, a `CHARMAP` section that defines the
characters, and after `END CHARMAP` optional `WIDTH_DEFAULT` lines and `WIDTH` sections that give
display widths. Reading goes through the logical lines in order, in one of four stages.

Strict reading refuses what lenient reading only reports: text outside any definition, unknown
header keywords, duplicate names, widths for undefined characters and short byte escapes.
-/

namespace LocaleCharmap

open LocaleCharmap.Text LocaleCharmap.Source

/-- How a charmap is read. -/
structure Options where
  /-- Refuse recoverable problems instead of reporting them. -/
  strict : Bool
  /-- Check that every portable character is defined. -/
  requirePortable : Bool
  deriving DecidableEq, Repr, Inhabited

/-- The problem of widths that do not satisfy `1 ≤ min ≤ max ≤ 16`, checked in that order. -/
def widthsProblem (min max : Nat) : Option Problem :=
  if min = 0 then some .minWidthZero
  else if 16 < max then some (.maxWidthAboveLimit max)
  else if max < min then some (.minAboveMax min max)
  else none

/-- The problem of an encoding whose length lies outside `min..=max`. -/
def encodedLengthProblem (name : String) (bytes : List UInt8) (min max : Nat) : Option Problem :=
  if bytes.length < min || max < bytes.length then some (.encodedLength name bytes.length min max)
  else none

/-- Where reading stands: before `CHARMAP`, inside it, after it, or inside a `WIDTH` section. -/
inductive Stage where
  | header
  | characters
  | trailer
  | widths
  deriving DecidableEq, Repr, Inhabited

/-- The state of a reading: its stage, the charmap so far, the escape and comment characters in
force, and the position of the first character defined with each encoding. -/
structure Reading where
  stage : Stage
  charmap : Charmap
  escape : Char
  comment : Char
  firstWithBytes : Std.HashMap (List UInt8) Nat

namespace Reading

/-- A reading before the first line. -/
def initial : Reading :=
  ⟨.header, Charmap.empty, '\\', '#', {}⟩

/-- Changes the charmap, the rest of the reading kept. The charmap is taken out of the reading
before the change is made, so an unshared charmap is changed in place. -/
def mapCharmap (r : Reading) (f : Charmap → Charmap) : Reading :=
  match r with
  | ⟨stage, m, escape, comment, firsts⟩ => ⟨stage, f m, escape, comment, firsts⟩

/-- Appends a character whose name is free. Its position is recorded as the first with its bytes
unless an earlier character has them. -/
def add (r : Reading) (e : Entry) : Reading :=
  match r with
  | ⟨stage, m, escape, comment, firsts⟩ =>
    let position := m.size
    let firsts := if firsts.contains e.bytes then firsts else firsts.insert e.bytes position
    ⟨stage, m.insert e, escape, comment, firsts⟩

/-- Refuses a recoverable problem in strict reading and reports it otherwise. -/
def recover (opts : Options) (line : Nat) (problem : Problem) : Logged Unit :=
  if opts.strict then throw (.malformed line problem) else report (.recovered line problem)

/-- The only character of a value, when it has exactly one and that one is not blank. -/
def singleChar? : List Char → Option Char
  | [c] => if isBlank c then none else some c
  | _ => none

/-- A header line: `CHARMAP`, which checks the widths and opens the section, or a keyword and its
value. -/
def headerLine (r : Reading) (opts : Options) (content : List Char) (line : Nat) :
    Logged Reading := do
  if isWordsLine content ["CHARMAP"] then
    if let some p := widthsProblem r.charmap.mbCurMin r.charmap.mbCurMax then
      throw (.malformed line p)
    return { r with stage := .characters }
  if content.head? != some '<' then
    recover opts line (.textBeforeCharmap (String.ofList content))
    return r
  let (keyword, rest) ← atLine line .symbol (readSymbol r.escape content)
  let value := trim rest
  let text := String.ofList value
  let m := r.charmap
  if keyword = "code_set_name" then
    if value.isEmpty then throw (.malformed line .noCodeSetName)
    return { r with charmap := { m with codeSetName := some text } }
  else if keyword = "mb_cur_min" then
    let some v := readByteValue? value | throw (.malformed line (.notSmallInteger keyword text))
    return { r with charmap := { m with mbCurMin := v } }
  else if keyword = "mb_cur_max" then
    let some v := readByteValue? value | throw (.malformed line (.notSmallInteger keyword text))
    return { r with charmap := { m with mbCurMax := v } }
  else if keyword = "escape_char" then
    let some c := singleChar? value | throw (.malformed line (.notSingleChar keyword text))
    return { r with escape := c }
  else if keyword = "comment_char" then
    let some c := singleChar? value | throw (.malformed line (.notSingleChar keyword text))
    return { r with comment := c }
  else
    recover opts line (.unknownKeyword keyword)
    return r

/-- Defines one character. The length of its encoding must fit the widths; a taken name is a
recoverable problem; a repeated encoding is reported against the first character that has it. -/
def define (r : Reading) (opts : Options) (name : String) (bytes : List UInt8)
    (comment : Option String) (line : Nat) : Logged Reading := do
  if let some p := encodedLengthProblem name bytes r.charmap.mbCurMin r.charmap.mbCurMax then
    throw (.malformed line p)
  if r.charmap.contains name then
    recover opts line (.duplicateName name)
    return r
  if let some first := r.firstWithBytes[bytes]? then
    if let some other := r.charmap.entries[first]? then
      report (.sharedEncoding line name (formatEncoding bytes r.escape) other.name)
  return r.add ⟨name, bytes, scalarOfName name, comment, none⟩

/-- Defines the names of a range in order, the encoding counting up by one from name to name. -/
def defineRun (opts : Options) (range : NameRange) (comment : Option String) (line : Nat) :
    Reading → List String → List UInt8 → Logged Reading
  | r, [], _ => pure r
  | r, [name], bytes => r.define opts name bytes comment line
  | r, name :: more, bytes => do
    let r ← r.define opts name bytes comment line
    match increment bytes with
    | some next => defineRun opts range comment line r more next
    | none => throw (.malformed line (.encodingOverflow range.first range.last))

/-- A line of the CHARMAP section: `END CHARMAP`, or a name or range, its encoding and an
optional comment. -/
def charactersLine (r : Reading) (opts : Options) (content : List Char) (line : Nat) :
    Logged Reading := do
  if isWordsLine content ["END", "CHARMAP"] then
    return { r with stage := .trailer }
  let (named, rest) ← atLine line .symbol (readNamed r.escape content)
  let (bytes, after) ← atLine line .encoding (readEncoding r.escape opts.strict (trimStart rest))
  let comment := if after.isEmpty then none else some (String.ofList after)
  match named with
  | .one name => r.define opts name bytes comment line
  | .range range =>
    let expansion ← atLine line .range range.expand
    defineRun opts range comment line r expansion.names bytes

/-- A line after `END CHARMAP`: `WIDTH`, which opens a section, or `WIDTH_DEFAULT` and one
value. -/
def trailerLine (r : Reading) (opts : Options) (content : List Char) (line : Nat) :
    Logged Reading := do
  if isWordsLine content ["WIDTH"] then
    return { r with stage := .widths }
  match words content with
  | first :: more =>
    if first = "WIDTH_DEFAULT".toList then
      let value := more.head?.getD []
      if 1 < more.length then throw (.malformed line .widthDefaultArity)
      let some v := readWordValue? value
        | throw (.malformed line (.badWidthDefault (String.ofList value)))
      return { r with charmap := { r.charmap with widthDefault := v } }
    recover opts line (.textAfterCharmap (String.ofList content))
    return r
  | [] =>
    recover opts line (.textAfterCharmap (String.ofList content))
    return r

/-- Gives each named character the width; an undefined name is a recoverable problem. -/
def widthFor (opts : Options) (width line : Nat) : Reading → List String → Logged Reading
  | r, [] => pure r
  | r, name :: more => do
    if r.charmap.contains name then
      widthFor opts width line (r.mapCharmap (·.setWidth name width)) more
    else
      recover opts line (.widthUndefined name)
      widthFor opts width line r more

/-- A line of a WIDTH section: `END WIDTH`, or a name or range and a width. A range whose two ends
are defined covers the characters between them in definition order; any other range covers the
names it expands to. -/
def widthLine (r : Reading) (opts : Options) (content : List Char) (line : Nat) :
    Logged Reading := do
  if isWordsLine content ["END", "WIDTH"] then
    return { r with stage := .trailer }
  let (named, rest) ← atLine line .symbol (readNamed r.escape content)
  let value := trim rest
  let some width := readWordValue? value | throw (.malformed line (.badWidth (String.ofList value)))
  match named with
  | .one name => widthFor opts width line r [name]
  | .range range =>
    match r.charmap.position? range.first, r.charmap.position? range.last with
    | some start, some stop =>
      if stop < start then throw (.malformed line (.widthRangeBackwards range))
      return r.mapCharmap (·.setWidthsIn start (stop + 1) width)
    | _, _ =>
      let expansion ← atLine line .range range.expand
      widthFor opts width line r expansion.names

/-- Takes one logical line. Blank lines and comments change nothing; aliases count only in the
header. -/
def step (r : Reading) (opts : Options) (line : Line) : Logged Reading :=
  match line.kind with
  | .blank => pure r
  | .comment => pure r
  | .alias name =>
    pure (if r.stage = .header then
      r.mapCharmap (·.addAlias name) else r)
  | .content text =>
    match r.stage with
    | .header => r.headerLine opts text.toList line.number
    | .characters => r.charactersLine opts text.toList line.number
    | .trailer => r.trailerLine opts text.toList line.number
    | .widths => r.widthLine opts text.toList line.number

/-- Ends a reading after `lines` physical lines: it must stand after the CHARMAP section and
outside any WIDTH section. The charmap keeps the escape and comment characters in force at the
end, and is checked for the portable characters when asked. -/
def finish (r : Reading) (opts : Options) (lines : Nat) : Logged Charmap := do
  match r.stage with
  | .header => throw .noCharmapSection
  | .characters => throw (.malformed lines (.missingEnd "CHARMAP"))
  | .widths => throw (.malformed lines (.missingEnd "WIDTH"))
  | .trailer =>
    let m := { r.charmap with escapeChar := r.escape, commentChar := r.comment }
    if opts.requirePortable then
      let missing := m.missingPortable
      if !missing.isEmpty then
        if opts.strict then throw (.portableMissing missing)
        report (.portableMissing missing)
    return m

/-- Reads the lines the scanner has left, each with the escape and comment characters in force
when it is reached. -/
def run (opts : Options) (r : Reading) (s : Scanner) : Logged Charmap :=
  match _found : s.next? r.escape r.comment with
  | none => r.finish opts s.consumed
  | some (line, rest) => do
    let r ← r.step opts line
    run opts r rest
termination_by s.pending.length
decreasing_by exact Scanner.next?_pending_length ‹_›

end Reading

/-- Reads a charmap from its text. -/
def Charmap.parse (text : String) (opts : Options) : Logged Charmap :=
  Reading.initial.run opts (Scanner.start text)

/-- Reads a charmap from bytes, which must be UTF-8. -/
def Charmap.parseBytes (bytes : List UInt8) (opts : Options) : Logged Charmap :=
  match decodeStrict? bytes with
  | some text => Charmap.parse text opts
  | none => throw (.unreadable .notText)

/-- The text as a line-by-line reader passes it on: each line that ended in a line feed loses one
carriage return before it, and every line gets a line feed. -/
def relinedText (text : String) : String :=
  let cs := text.toList
  let pieces := splitLines cs []
  let openEnd := !cs.isEmpty && cs.getLast? != some '\n'
  let lines := pieces.mapIdx fun i piece =>
    if openEnd && i + 1 = pieces.length then piece else dropCarriageReturn piece
  String.ofList (lines.flatMap (· ++ ['\n']))

/-- Reads a charmap from the bytes of a file, line by line. -/
def Charmap.parseFile (bytes : List UInt8) (opts : Options) : Logged Charmap :=
  match decodeStrict? bytes with
  | some text => Charmap.parse (relinedText text) opts
  | none => throw (.unreadable .notText)

end LocaleCharmap
