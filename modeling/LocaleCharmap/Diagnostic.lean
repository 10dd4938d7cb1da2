import LocaleCharmap.Fault
/-!
# Diagnostics

Reading a charmap and building a table report what they recover from and what they notice, in
order, without stopping. Each report has a level and comes from one part of the library. A
computation that reports and may fail runs in `Logged`: a failure keeps the reports made before
it.
-/

namespace LocaleCharmap

open LocaleCharmap.Source

/-- How important a report is, from the most to the least severe. -/
inductive Level where
  | error
  | warn
  | info
  | debug
  | trace
  deriving DecidableEq, Repr, Inhabited

/-- The rank of a level: a report shows when its rank is at most the rank a reader asks for. -/
def Level.rank : Level → Nat
  | .error => 1
  | .warn => 2
  | .info => 3
  | .debug => 4
  | .trace => 5

/-- The part of the library a report comes from. -/
inductive Origin where
  | reading
  | checking
  | tabulating
  | tool
  deriving DecidableEq, Repr, Inhabited

/-- Something noticed while reading or tabulating. -/
inductive Diagnostic where
  /-- A lenient reading carried on past a problem of a line. -/
  | recovered (line : Nat) (problem : Problem)
  /-- A character has the same bytes as an earlier one, written with the escape character. -/
  | sharedEncoding (line : Nat) (name written first : String)
  /-- Portable characters are left undefined. -/
  | portableMissing (names : List String)
  /-- A character without a scalar value is left out of the table. -/
  | noScalar (name : String)
  /-- A character reuses the bytes of an earlier character with another scalar value. -/
  | reusedEncoding (name : String) (earlier : Nat)
  /-- A summary of what was read. -/
  | summary (count min max : Nat)
  deriving DecidableEq, Repr

/-- The level of a report. -/
def Diagnostic.level : Diagnostic → Level
  | .recovered .. => .warn
  | .sharedEncoding .. => .debug
  | .portableMissing .. => .warn
  | .noScalar .. => .debug
  | .reusedEncoding .. => .warn
  | .summary .. => .info

/-- The part of the library a report comes from. -/
def Diagnostic.origin : Diagnostic → Origin
  | .recovered .. => .reading
  | .sharedEncoding .. => .reading
  | .portableMissing .. => .checking
  | .noScalar .. => .tabulating
  | .reusedEncoding .. => .tabulating
  | .summary .. => .tool

/-- The text of a report. -/
def Diagnostic.message : Diagnostic → String
  | .recovered line problem => "line " ++ toString line ++ ": " ++ problem.message
  | .sharedEncoding line name written first =>
    "line " ++ toString line ++ ": <" ++ name ++ "> shares encoding " ++ written ++ " with <" ++
      first ++ ">"
  | .portableMissing names => "portable characters not defined: " ++ bracketedNames names
  | .noScalar name => "<" ++ name ++ "> names no Unicode scalar value, skipped"
  | .reusedEncoding name earlier =>
    "<" ++ name ++ "> reuses the encoding of U+" ++ Text.hexUpper 4 earlier ++ ", keeping the first"
  | .summary count min max =>
    "parsed " ++ toString count ++ " characters, mb_cur_min " ++ toString min ++ " mb_cur_max " ++
      toString max

/-- A computation that reports diagnostics in order and may fail; the reports made before a
failure are kept. -/
abbrev Logged := ExceptT Fault (StateM (Array Diagnostic))

/-- Adds a report. -/
def report (d : Diagnostic) : Logged Unit :=
  modify fun log => log.push d

/-- Runs a computation from an empty log: its outcome and its reports. -/
def Logged.run {α : Type} (x : Logged α) : Except Fault α × Array Diagnostic :=
  StateT.run (ExceptT.run x) #[]

/-- Fails at a line with a problem from a reader of that line. -/
def atLine {α ε : Type} (line : Nat) (wrap : ε → Problem) : Except ε α → Logged α
  | .ok a => pure a
  | .error e => throw (.malformed line (wrap e))

end LocaleCharmap
