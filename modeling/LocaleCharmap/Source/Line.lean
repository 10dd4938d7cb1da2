import LocaleCharmap.Text.Blank
/-!
# Lines of a charmap

A charmap is read a logical line at a time. The physical lines are the pieces between line feeds,
with no empty piece after a final line feed and one trailing carriage return dropped from each.
A logical line is blank, a comment (it starts with the comment character, and
`% alias NAME` names an alias of the character set), or content. A content line that ends, blanks
aside, in an odd run of escape characters continues on the next physical line, unless it is one
of the declarations that set those characters. The escape and comment characters can change
between lines, so each step of the scanner takes the ones in force.
-/

namespace LocaleCharmap.Source

open LocaleCharmap.Text

/-- What a logical line holds. -/
inductive LineKind where
  | blank
  | comment
  /-- A comment of the form `alias NAME`, with the name trimmed. -/
  | alias (name : String)
  /-- Anything else, trimmed, with continued lines joined. -/
  | content (text : String)
  deriving DecidableEq, Repr, Inhabited

/-- A logical line and the number of its first physical line, counting from one. -/
structure Line where
  number : Nat
  kind : LineKind
  deriving DecidableEq, Repr, Inhabited

/-- Splits at line feeds, collecting the current line in reverse; no piece follows a final line
feed. -/
def splitLines : List Char → List Char → List (List Char)
  | [], current => if current.isEmpty then [] else [current.reverse]
  | c :: rest, current =>
    if c = '\n' then current.reverse :: splitLines rest [] else splitLines rest (c :: current)

/-- Drops one carriage return at the end. -/
def dropCarriageReturn (cs : List Char) : List Char :=
  if cs.getLast? = some '\r' then cs.dropLast else cs

/-- The physical lines of a text. -/
def physicalLines (text : String) : List (List Char) :=
  (splitLines text.toList []).map dropCarriageReturn

/-- A line that continues: blanks at the end aside, it ends in an odd run of escape characters.
The result is the line without its trailing blanks and last escape character. -/
def continued (escape : Char) (raw : List Char) : Option (List Char) :=
  let t := trimEnd raw
  if (t.reverse.takeWhile (· = escape)).length % 2 = 1 then some t.dropLast else none

/-- The declarations that set the escape and comment characters never continue. -/
def isDeclaration (trimmed : List Char) : Bool :=
  "<escape_char>".toList.isPrefixOf trimmed || "<comment_char>".toList.isPrefixOf trimmed

/-- Appends the continuation lines after `acc`: every line that continues, then the first that
does not. Gives the joined text, the lines left and how many lines were taken. -/
def joinContinued (escape : Char) : List (List Char) → List Char → List Char × List (List Char) × Nat
  | [], acc => (acc, [], 0)
  | next :: more, acc =>
    match continued escape next with
    | some part =>
      let joined := joinContinued escape more (acc ++ part)
      (joined.1, joined.2.1, joined.2.2 + 1)
    | none => (acc ++ next, more, 1)

theorem joinContinued_rest_length (escape : Char) (lines : List (List Char)) (acc : List Char) :
    (joinContinued escape lines acc).2.1.length ≤ lines.length := by
  induction lines generalizing acc with
  | nil => simp [joinContinued]
  | cons next more inductionHypothesis =>
    unfold joinContinued
    split
    · next part _ =>
      have := inductionHypothesis (acc ++ part)
      simp only [List.length_cons]
      omega
    · simp

/-- A comment line, or an alias when its body is `alias` followed by a blank and a name. -/
def commentKind (trimmed : List Char) : LineKind :=
  match trimStart trimmed.tail with
  | 'a' :: 'l' :: 'i' :: 'a' :: 's' :: rest =>
    if startsWithBlank rest && !(trim rest).isEmpty then .alias (String.ofList (trim rest))
    else .comment
  | _ => .comment

/-- Classifies the logical line that starts with the physical line `raw`, taking continuation
lines from `more`: its kind, the lines left and how many continuation lines it took. -/
def classify (escape comment : Char) (raw : List Char) (more : List (List Char)) :
    LineKind × List (List Char) × Nat :=
  let trimmed := trim raw
  if trimmed.isEmpty then (.blank, more, 0)
  else if trimmed.head? = some comment then (commentKind trimmed, more, 0)
  else
    match continued escape raw with
    | some head =>
      if isDeclaration trimmed then (.content (String.ofList trimmed), more, 0)
      else
        let joined := joinContinued escape more head
        let text := trim joined.1
        (if text.isEmpty then .blank else .content (String.ofList text), joined.2.1, joined.2.2)
    | none => (.content (String.ofList trimmed), more, 0)

theorem classify_rest_length (escape comment : Char) (raw : List Char) (more : List (List Char)) :
    (classify escape comment raw more).2.1.length ≤ more.length := by
  unfold classify
  cases continued escape raw with
  | none =>
    simp only []
    split
    · exact Nat.le_refl _
    · split <;> exact Nat.le_refl _
  | some head =>
    simp only []
    split
    · exact Nat.le_refl _
    · split
      · exact Nat.le_refl _
      · split
        · exact Nat.le_refl _
        · exact joinContinued_rest_length escape more head

/-- The physical lines not read yet, and how many have been read. -/
structure Scanner where
  pending : List (List Char)
  consumed : Nat
  deriving DecidableEq, Repr, Inhabited

/-- A scanner at the start of the text. -/
def Scanner.start (text : String) : Scanner :=
  ⟨physicalLines text, 0⟩

/-- Reads the next logical line with the given escape and comment characters. -/
def Scanner.next? (s : Scanner) (escape comment : Char) : Option (Line × Scanner) :=
  match s.pending with
  | [] => none
  | raw :: more =>
    let group := classify escape comment raw more
    some (⟨s.consumed + 1, group.1⟩, ⟨group.2.1, s.consumed + 1 + group.2.2⟩)

theorem Scanner.next?_pending_length {s s' : Scanner} {escape comment : Char} {line : Line}
    (step : s.next? escape comment = some (line, s')) : s'.pending.length < s.pending.length := by
  unfold Scanner.next? at step
  split at step
  · contradiction
  · next raw more pending =>
    simp only [Option.some.injEq, Prod.mk.injEq] at step
    obtain ⟨-, rfl⟩ := step
    rw [pending, List.length_cons]
    show (classify escape comment raw more).2.1.length < more.length + 1
    have := classify_rest_length escape comment raw more
    omega

/-- All logical lines, read with fixed escape and comment characters. -/
def Scanner.lines (s : Scanner) (escape comment : Char) : List Line :=
  match _found : s.next? escape comment with
  | none => []
  | some (line, s') => line :: s'.lines escape comment
termination_by s.pending.length
decreasing_by exact Scanner.next?_pending_length ‹_›

end LocaleCharmap.Source
