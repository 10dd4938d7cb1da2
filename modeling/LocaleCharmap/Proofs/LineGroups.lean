import Mathlib
import LocaleCharmap.Source.Line
/-!
# How logical lines group the physical lines

The scanner hands out logical lines one at a time, each classified with the escape and comment
characters its caller gives for it. A logical line takes a run of physical lines: its first one
and, when that line opens a continued line, every following line that ends in an odd run of
escape characters and then the first that does not. A line opens a continued line when its text
is not blank, not a comment, not a declaration of the escape or comment character, and ends,
blanks aside, in an odd run of escape characters.

Main statement: whatever characters the caller gives, the runs are consecutive, non-empty and
cover every physical line once; each logical line is numbered by the first physical line of its
run; and at the end the scanner has read as many lines as there are. The physical lines are the
segments of the text between line feeds, the last one left out when it is empty, each without
one trailing carriage return; the empty text therefore has none.
-/

namespace LocaleCharmap.Source

open LocaleCharmap.Text

/-! ### Physical lines -/

/-- A list of segments without its last one when that one is empty. -/
def dropEmptyLast (pieces : List (List Char)) : List (List Char) :=
  if pieces.getLast? = some [] then pieces.dropLast else pieces

theorem dropEmptyLast_cons (piece : List Char) {pieces : List (List Char)} (more : pieces ≠ []) :
    dropEmptyLast (piece :: pieces) = piece :: dropEmptyLast pieces := by
  obtain ⟨p, ps, rfl⟩ := List.exists_cons_of_ne_nil more
  unfold dropEmptyLast
  rw [List.getLast?_cons_cons]
  split
  · rw [List.dropLast_cons_of_ne_nil (List.cons_ne_nil p ps)]
  · rfl

theorem modifyHead_nil_append (pieces : List (List Char)) :
    pieces.modifyHead (([] : List Char).reverse ++ ·) = pieces := by
  cases pieces <;> simp

/-- Splitting at line feeds, with a line begun in `current`, gives the segments between line
feeds, the begun line in front of the first, without an empty last segment. -/
theorem splitLines_eq (cs current : List Char) :
    splitLines cs current =
      dropEmptyLast ((cs.splitOn '\n').modifyHead (current.reverse ++ ·)) := by
  induction cs generalizing current with
  | nil =>
    cases current with
    | nil => rfl
    | cons c rest => simp [splitLines, dropEmptyLast]
  | cons c rest inductionHypothesis =>
    rw [splitLines, List.splitOn_eq_splitOnP, List.splitOnP_cons_eq_if_modifyHead,
      ← List.splitOn_eq_splitOnP]
    by_cases feed : c = '\n'
    · -- a line feed ends the begun line; the rest starts afresh
      rw [if_pos feed, if_pos (by simp [feed]), List.modifyHead_cons,
        dropEmptyLast_cons _ (List.splitOn_ne_nil _ _), inductionHypothesis,
        modifyHead_nil_append, List.append_nil]
    · rw [if_neg feed, if_neg (by simp [feed]), List.modifyHead_modifyHead, inductionHypothesis]
      congr 2
      funext piece
      simp

/-- The physical lines of a text are its segments between line feeds, the last one left out
when it is empty, each without one trailing carriage return. -/
theorem physicalLines_eq (text : String) :
    physicalLines text = (dropEmptyLast (text.toList.splitOn '\n')).map dropCarriageReturn := by
  rw [physicalLines, splitLines_eq, modifyHead_nil_append]

/-! ### The run of physical lines a logical line takes -/

/-- Whether a physical line ends, blanks at the end aside, in an odd number of escape
characters. -/
def endsInOddEscapes (escape : Char) (raw : List Char) : Bool :=
  ((trimEnd raw).reverse.takeWhile (· = escape)).length % 2 = 1

/-- Whether a physical line opens a continued line: its text is not blank, not a comment, not a
declaration of the escape or comment character, and it ends in an odd run of escapes. -/
def opensGroup (escape comment : Char) (raw : List Char) : Bool :=
  !(trim raw).isEmpty && (trim raw).head? != some comment && !isDeclaration (trim raw) &&
    endsInOddEscapes escape raw

/-- The physical lines a logical line takes from those not read yet: the first, and when it
opens a continued line every following line that ends in an odd run of escapes, then the first
that does not. -/
def groupOf (escape comment : Char) : List (List Char) → List (List Char)
  | [] => []
  | raw :: more =>
    raw :: if opensGroup escape comment raw then
      more.take ((more.takeWhile (endsInOddEscapes escape)).length + 1)
    else []

theorem continued_isSome (escape : Char) (raw : List Char) :
    (continued escape raw).isSome = endsInOddEscapes escape raw := by
  dsimp only [continued, endsInOddEscapes]
  split <;> simp_all

/-- Joining continuation lines takes every line that ends in an odd run of escapes, then the
first that does not. -/
theorem joinContinued_taken (escape : Char) :
    ∀ (lines : List (List Char)) (acc : List Char),
      let k := (lines.takeWhile (endsInOddEscapes escape)).length + 1
      (joinContinued escape lines acc).2.1 = lines.drop k ∧
        (joinContinued escape lines acc).2.2 = (lines.take k).length
  | [], _ => ⟨rfl, rfl⟩
  | next :: more, acc => by
    have ends := continued_isSome escape next
    unfold joinContinued
    cases joined : continued escape next with
    | none =>
      rw [joined, Option.isSome_none] at ends
      simp [← ends]
    | some part =>
      rw [joined, Option.isSome_some] at ends
      obtain ⟨rest, taken⟩ := joinContinued_taken escape more (acc ++ part)
      simp only [List.takeWhile_cons, ← ends, if_true, List.length_cons, List.drop_succ_cons,
        List.take_succ_cons]
      exact ⟨rest, by rw [taken]⟩

/-- Classifying a physical line takes the run `groupOf` gives and leaves the lines after it. -/
theorem classify_group (escape comment : Char) (raw : List Char) (more : List (List Char)) :
    ∃ k, groupOf escape comment (raw :: more) = raw :: more.take k ∧
      (classify escape comment raw more).2.1 = more.drop k ∧
      (classify escape comment raw more).2.2 = (more.take k).length := by
  have ends := continued_isSome escape raw
  unfold classify groupOf opensGroup
  -- every kind of line but a continued one takes no more lines
  by_cases blank : (trim raw).isEmpty
  · exact ⟨0, by simp [blank]⟩
  by_cases remark : (trim raw).head? = some comment
  · exact ⟨0, by simp [blank, remark]⟩
  cases joined : continued escape raw with
  | none =>
    rw [joined, Option.isSome_none] at ends
    exact ⟨0, by simp [blank, remark, ← ends]⟩
  | some head =>
    rw [joined, Option.isSome_some] at ends
    by_cases declaration : isDeclaration (trim raw)
    · exact ⟨0, by simp [blank, remark, declaration]⟩
    · obtain ⟨rest, taken⟩ := joinContinued_taken escape more head
      exact ⟨(more.takeWhile (endsInOddEscapes escape)).length + 1,
        by simp [blank, remark, declaration, ← ends], by simp [blank, remark, declaration, rest],
        by simp [blank, remark, declaration, taken]⟩

/-- One logical line: it is numbered after the lines read so far, takes the run `groupOf` gives,
and leaves the lines after it. -/
theorem Scanner.next?_eq_some {s s' : Scanner} {escape comment : Char} {line : Line}
    (read : s.next? escape comment = some (line, s')) :
    groupOf escape comment s.pending ≠ [] ∧
      groupOf escape comment s.pending ++ s'.pending = s.pending ∧
      line.number = s.consumed + 1 ∧
      s'.consumed = s.consumed + (groupOf escape comment s.pending).length := by
  unfold Scanner.next? at read
  split at read
  · cases read
  · next raw more pending =>
    obtain ⟨k, group, rest, taken⟩ := classify_group escape comment raw more
    simp only [Option.some.injEq, Prod.mk.injEq] at read
    obtain ⟨rfl, rfl⟩ := read
    rw [pending, group]
    refine ⟨List.cons_ne_nil _ _, ?_, rfl, ?_⟩
    · rw [rest, List.cons_append, List.take_append_drop]
    · simp only [taken, List.length_cons]
      omega

theorem Scanner.next?_eq_none {s : Scanner} {escape comment : Char}
    (read : s.next? escape comment = none) : s.pending = [] := by
  unfold Scanner.next? at read
  split at read
  · assumption
  · cases read

/-! ### All logical lines -/

theorem Scanner.lines_eq_nil {s : Scanner} {escape comment : Char}
    (ended : s.next? escape comment = none) : s.lines escape comment = [] := by
  rw [Scanner.lines]
  split
  · rfl
  · next found => rw [ended] at found; cases found

theorem Scanner.lines_eq_cons {s rest : Scanner} {escape comment : Char} {line : Line}
    (read : s.next? escape comment = some (line, rest)) :
    s.lines escape comment = line :: rest.lines escape comment := by
  rw [Scanner.lines]
  split
  · next found => rw [read] at found; cases found
  · next found =>
    rw [read, Option.some.injEq, Prod.mk.injEq] at found
    obtain ⟨rfl, rfl⟩ := found
    rfl

/-- Reads every logical line, the `i`-th with the escape and comment characters `chars i`: the
lines, and the scanner at the end. -/
def Scanner.drain (chars : Nat → Char × Char) (s : Scanner) (i : Nat) : List Line × Scanner :=
  match _found : s.next? (chars i).1 (chars i).2 with
  | none => ([], s)
  | some (line, rest) =>
    let more := rest.drain chars (i + 1)
    (line :: more.1, more.2)
termination_by s.pending.length
decreasing_by exact Scanner.next?_pending_length ‹_›

/-- The run lemma: from any scanner, the logical lines take consecutive non-empty runs of the
lines not read yet, covering each once; each is numbered after the lines read before it; and the
scanner ends with every line read. -/
theorem Scanner.drain_groups (chars : Nat → Char × Char) (s : Scanner) (i : Nat) :
    ∃ groups : List (List (List Char)),
      groups.flatten = s.pending ∧ (∀ g ∈ groups, g ≠ []) ∧
      (s.drain chars i).1.length = groups.length ∧
      (s.drain chars i).2 = ⟨[], s.consumed + s.pending.length⟩ ∧
      ∀ j < groups.length,
        (s.drain chars i).1[j]?.map (·.number) =
          some (s.consumed + (groups.take j).flatten.length + 1) ∧
        groups[j]? = some (groupOf (chars (i + j)).1 (chars (i + j)).2 (groups.drop j).flatten) := by
  fun_induction Scanner.drain chars s i with
  | case1 s i none =>
    have empty := Scanner.next?_eq_none none
    refine ⟨[], by rw [empty]; rfl, by simp, rfl, ?_, by simp⟩
    obtain ⟨pending, consumed⟩ := s
    dsimp only at empty ⊢
    rw [empty]
    rfl
  | case2 s i line rest read more inductionHypothesis =>
    obtain ⟨groups, flat, nonempty, length, final, numbered⟩ := inductionHypothesis
    obtain ⟨taken, split, first, consumed⟩ := Scanner.next?_eq_some read
    refine ⟨groupOf (chars i).1 (chars i).2 s.pending :: groups, ?_, ?_, ?_, ?_, ?_⟩
    · rw [List.flatten_cons, flat, split]
    · rintro g (_ | ⟨_, member⟩)
      · exact taken
      · exact nonempty g member
    · simp [more, length]
    · rw [final, consumed, Nat.add_assoc, ← List.length_append, split]
    · intro j inside
      cases j with
      | zero =>
        refine ⟨by simp [more, first], ?_⟩
        simp only [List.getElem?_cons_zero, List.drop_zero, List.flatten_cons, flat, split,
          Nat.add_zero]
      | succ j =>
        obtain ⟨number, group⟩ := numbered j (by simpa using inside)
        refine ⟨?_, ?_⟩
        · simp only [more, List.getElem?_cons_succ, number, consumed, List.take_succ_cons,
            List.flatten_cons, List.length_append, Option.some.injEq]
          omega
        · have later : i + 1 + j = i + (j + 1) := by omega
          rw [List.getElem?_cons_succ, group, List.drop_succ_cons, later]

/-- Whatever escape and comment characters the caller gives for each logical line, the logical
lines of a text take consecutive non-empty runs of its physical lines, covering each physical line
once; each logical line is numbered by the first physical line of its run, and takes the run
that `groupOf` gives with its characters; reading stops after the last, with as many lines read
as there are. The physical lines are the segments between line feeds, the last one left out when
it is empty, each without one trailing carriage return. -/
theorem Scanner.lines_cover_physical_lines (text : String) (chars : Nat → Char × Char) :
    physicalLines text = (dropEmptyLast (text.toList.splitOn '\n')).map dropCarriageReturn ∧
    ∃ groups : List (List (List Char)),
      groups.flatten = physicalLines text ∧ (∀ g ∈ groups, g ≠ []) ∧
      ((Scanner.start text).drain chars 0).1.length = groups.length ∧
      ((Scanner.start text).drain chars 0).2 = ⟨[], (physicalLines text).length⟩ ∧
      ∀ j < groups.length,
        ((Scanner.start text).drain chars 0).1[j]?.map (·.number) =
          some ((groups.take j).flatten.length + 1) ∧
        groups[j]? = some (groupOf (chars j).1 (chars j).2 (groups.drop j).flatten) := by
  obtain ⟨groups, flat, nonempty, length, final, numbered⟩ :=
    Scanner.drain_groups chars (Scanner.start text) 0
  refine ⟨physicalLines_eq text, groups, flat, nonempty, length, ?_, fun j inside => ?_⟩
  · rw [final]
    simp [Scanner.start]
  · obtain ⟨number, group⟩ := numbered j inside
    refine ⟨?_, by simpa using group⟩
    rw [number]
    simp [Scanner.start]

/-- The empty text has one segment between line feeds, yet the scanner starts with no line to
read and hands out no logical line. -/
theorem Scanner.empty_text_no_lines :
    "".toList.splitOn '\n' = [[]] ∧ Scanner.start "" = ⟨[], 0⟩ ∧
      (Scanner.start "").lines '\\' '#' = [] := by
  refine ⟨rfl, rfl, ?_⟩
  rw [Scanner.lines]
  rfl

end LocaleCharmap.Source
