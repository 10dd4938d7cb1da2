/-!
# Indented lines

Generated source text is a run of lines, each indented by a number of spaces and ended by a line
feed, written one after another by a `LineWriter`. The writer keeps a run of spaces to indent
with: it lengthens the run when a line asks for more spaces than it holds, never shortens it, and
writes the first `indent` of its characters before each line. A long list of items is wrapped: a
fixed number of items per line, joined by a comma and a space, and every line but the last ending
in a comma.
-/

namespace LocaleCharmap.Text

/-- Consecutive pieces of `size + 1` items, the last one possibly shorter. -/
def chunksOf {α : Type} (size : Nat) (xs : List α) : List (List α) :=
  match xs with
  | [] => []
  | x :: rest => (x :: rest).take (size + 1) :: chunksOf size ((x :: rest).drop (size + 1))
termination_by xs.length
decreasing_by simp only [List.length_drop, List.length_cons]; omega

/-- Generated text, and the run of spaces kept to indent its lines. -/
structure LineWriter where
  out : String
  indentCache : String

namespace LineWriter

/-- A writer with no text and no spaces kept. -/
def new : LineWriter :=
  ⟨"", ""⟩

/-- Writes `indent` spaces as the first `indent` characters of the kept run, after lengthening
the run with spaces when it is shorter. The run holds spaces only, so its characters are its
bytes. -/
def writeIndent (w : LineWriter) (indent : Nat) : LineWriter :=
  if indent = 0 then w
  else
    match w with
    | ⟨out, cache⟩ =>
      let cache :=
        if cache.length < indent then
          cache ++ String.ofList (List.replicate (indent - cache.length) ' ')
        else cache
      ⟨out ++ String.ofList (cache.toList.take indent), cache⟩

/-- Writes a line: the indentation, the text and a line feed. -/
def line (w : LineWriter) (indent : Nat) (s : String) : LineWriter :=
  match w.writeIndent indent with
  | ⟨out, cache⟩ => ⟨(out ++ s).push '\n', cache⟩

/-- Writes an empty line. -/
def blank (w : LineWriter) : LineWriter :=
  match w with
  | ⟨out, cache⟩ => ⟨out.push '\n', cache⟩

/-- Writes `items` joined by `", "`, wrapped so that no line carries more than `perLine` items (at
least one); every line but the last ends with a comma. -/
def wrappedList (w : LineWriter) (indent : Nat) (items : List String) (perLine : Nat) :
    LineWriter :=
  let chunks := chunksOf (max perLine 1 - 1) items
  let count := chunks.length
  chunks.zipIdx.foldl
    (fun w (chunk, i) =>
      w.line indent (", ".intercalate chunk ++ if i + 1 < count then "," else ""))
    w

/-- The text written. -/
def intoString (w : LineWriter) : String :=
  w.out

end LineWriter

/-- A wrapped list as a new writer writes it. -/
def wrappedList (indent : Nat) (items : List String) (perLine : Nat) : String :=
  (LineWriter.new.wrappedList indent items perLine).intoString

end LocaleCharmap.Text
