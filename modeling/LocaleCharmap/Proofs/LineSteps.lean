import Mathlib
import LocaleCharmap.Proofs.Charmap
import LocaleCharmap.Proofs.LineGroups
import LocaleCharmap.Charmap.Parse
/-!
# Reading line by line

The reading loop asks the scanner for one logical line at a time, with the escape and comment
characters then in force. While these stay the same the loop takes the lines `Scanner.lines`
lists, so a run over a known text unfolds into the line readers, one line after another:
`Reading.run_of_lines` and `Reading.untilTrailer_of_lines` take the next line off, for every
reading with those characters. Each kind of line then has its own equation, stated for any
reading in the stage it needs and with the results of the readers it calls (a name, an encoding, a
width) as hypotheses: defining a character (`Reading.step_defining`, `Reading.define_free`),
giving a width to one name or to the characters between two defined names.

`Reading.untilTrailer` cuts a run at `END CHARMAP`: the run is its reading up to there, then the
run from there.

These equations read a sample charmap, `Charmap.sampleSource`, to its result, the same in strict
and lenient mode: one character repeats the bytes of an earlier one and is reported against it,
one spells the scalar value of another with eight digits, and after the CHARMAP section a default
width, a WIDTH range and a later width for one of its characters.
-/

namespace LocaleCharmap

open LocaleCharmap.Source LocaleCharmap.Text

/-- The first of the lines a scanner lists is the one it hands out next, and the scanner it leaves
lists the rest. -/
theorem Source.Scanner.next?_of_lines {s : Scanner} {escape comment : Char} {line : Line}
    {more : List Line} (lines : s.lines escape comment = line :: more) :
    ∃ rest, s.next? escape comment = some (line, rest) ∧ rest.lines escape comment = more := by
  rcases read : s.next? escape comment with _ | ⟨line', rest⟩
  · rw [Scanner.lines_eq_nil read] at lines
    cases lines
  · rw [Scanner.lines_eq_cons read, List.cons.injEq] at lines
    obtain ⟨rfl, rfl⟩ := lines
    exact ⟨rest, rfl, rfl⟩

namespace Reading

/-! ### The loop, one line at a time -/

/-- With the escape and comment characters the scanner's lines are listed with, the loop reads the
first of them and goes on with the rest. -/
theorem run_of_lines {s : Scanner} {escape comment : Char} {line : Line} {more : List Line}
    (lines : s.lines escape comment = line :: more) :
    ∃ rest : Scanner, rest.lines escape comment = more ∧
      ∀ (opts : Options) (r : Reading), r.escape = escape → r.comment = comment →
        run opts r s = r.step opts line >>= fun r' => run opts r' rest := by
  obtain ⟨rest, read, later⟩ := Scanner.next?_of_lines lines
  refine ⟨rest, later, fun opts r escaped commented => ?_⟩
  rw [run, escaped, commented, read]

theorem run_of_no_lines {s : Scanner} {escape comment : Char} (lines : s.lines escape comment = [])
    (opts : Options) (r : Reading) (escaped : r.escape = escape) (commented : r.comment = comment) :
    run opts r s = r.finish opts s.consumed := by
  rcases read : s.next? escape comment with _ | ⟨line, rest⟩
  · rw [run, escaped, commented, read]
  · rw [Scanner.lines_eq_cons read] at lines
    cases lines

/-- Reads lines until the reading first stands past the CHARMAP section, that is up to and
including `END CHARMAP`: the reading and the scanner there. Where the lines run out first, the
reading where they do. -/
def untilTrailer (opts : Options) (r : Reading) (s : Scanner) : Logged (Reading × Scanner) :=
  match _found : s.next? r.escape r.comment with
  | none => pure (r, s)
  | some (line, rest) => do
    let r ← r.step opts line
    if r.stage = .trailer then pure (r, rest) else untilTrailer opts r rest
termination_by s.pending.length
decreasing_by exact Scanner.next?_pending_length ‹_›

/-- A reading is its run up to the end of the CHARMAP section, then the run from there. -/
theorem run_eq_untilTrailer (opts : Options) (r : Reading) (s : Scanner) :
    Reading.run opts r s =
      r.untilTrailer opts s >>= fun reached => Reading.run opts reached.1 reached.2 := by
  fun_induction untilTrailer opts r s with
  | case1 r s ended => rw [pure_bind]
  | case2 r s line rest read inductionHypothesis =>
    rw [Reading.run, read]
    dsimp only
    rw [bind_assoc]
    refine bind_congr fun r' => ?_
    split
    · rw [pure_bind]
    · exact inductionHypothesis r'

theorem untilTrailer_of_lines {s : Scanner} {escape comment : Char} {line : Line}
    {more : List Line} (lines : s.lines escape comment = line :: more) :
    ∃ rest : Scanner, rest.lines escape comment = more ∧
      ∀ (opts : Options) (r : Reading), r.escape = escape → r.comment = comment →
        r.untilTrailer opts s = r.step opts line >>= fun r' =>
          if r'.stage = .trailer then pure (r', rest) else r'.untilTrailer opts rest := by
  obtain ⟨rest, read, later⟩ := Scanner.next?_of_lines lines
  refine ⟨rest, later, fun opts r escaped commented => ?_⟩
  rw [untilTrailer, escaped, commented, read]

/-! ### One equation per kind of line -/

theorem step_characters (r : Reading) (opts : Options) {number : Nat} {text : String}
    (staged : r.stage = .characters) :
    r.step opts ⟨number, .content text⟩ = r.charactersLine opts text.toList number := by
  simp [step, staged]

theorem step_trailer (r : Reading) (opts : Options) {number : Nat} {text : String}
    (staged : r.stage = .trailer) :
    r.step opts ⟨number, .content text⟩ = r.trailerLine opts text.toList number := by
  simp [step, staged]

theorem step_widths (r : Reading) (opts : Options) {number : Nat} {text : String}
    (staged : r.stage = .widths) :
    r.step opts ⟨number, .content text⟩ = r.widthLine opts text.toList number := by
  simp [step, staged]

/-- A line of the CHARMAP section that names one character and gives its bytes, with no comment,
defines that character. -/
theorem step_defining (r : Reading) (opts : Options) {number : Nat} {text name : String}
    {escape : Char} {bytes : List UInt8} (rest : List Char) (staged : r.stage = .characters)
    (escaped : r.escape = escape) (notEnd : isWordsLine text.toList ["END", "CHARMAP"] = false)
    (named : readNamed escape text.toList = .ok (.one name, rest))
    (encoded : ∀ strict, readEncoding escape strict (trimStart rest) = .ok (bytes, [])) :
    r.step opts ⟨number, .content text⟩ = r.define opts name bytes none number := by
  rw [step_characters r opts staged]
  simp [charactersLine, notEnd, escaped, named, encoded, atLine]

/-- Defining a character whose length fits and whose name is free appends it, after reporting a
shared encoding when the bytes are recorded as those of an earlier character. -/
theorem define_free (r : Reading) (opts : Options) {name : String} {bytes : List UInt8}
    {comment : Option String} {line : Nat}
    (fits : encodedLengthProblem name bytes r.charmap.mbCurMin r.charmap.mbCurMax = none)
    (fresh : r.charmap.contains name = false) :
    r.define opts name bytes comment line =
      (((r.firstWithBytes[bytes]?).bind fun first => r.charmap.entries[first]?).forM fun other =>
        report (.sharedEncoding line name (formatEncoding bytes r.escape) other.name)) >>= fun _ =>
        pure (r.add ⟨name, bytes, scalarOfName name, comment, none⟩) := by
  simp only [define, fits, fresh, Bool.false_eq_true, if_false]
  -- the report is made when both lookups find something
  split
  · next first found =>
    split
    · next other listed => simp [found, listed]
    · next missing => simp [found, Option.eq_none_iff_forall_ne_some.mpr missing]
  · next missing => simp [Option.eq_none_iff_forall_ne_some.mpr missing]

/-- A line of a WIDTH section that names one defined character gives it the width. -/
theorem step_width_one (r : Reading) (opts : Options) {number width : Nat} {text name : String}
    {escape : Char} (rest : List Char) (staged : r.stage = .widths) (escaped : r.escape = escape)
    (notEnd : isWordsLine text.toList ["END", "WIDTH"] = false)
    (named : readNamed escape text.toList = .ok (.one name, rest))
    (valued : readWordValue? (trim rest) = some width) (defined : r.charmap.contains name = true) :
    r.step opts ⟨number, .content text⟩ = pure (r.mapCharmap (·.setWidth name width)) := by
  rw [step_widths r opts staged]
  simp [widthLine, notEnd, escaped, named, valued, atLine, widthFor, defined]

/-- A line of a WIDTH section whose range has two defined ends, the first not after the last,
gives the width to the characters defined from the one to the other. -/
theorem step_width_between (r : Reading) (opts : Options) {number width start stop : Nat}
    {text : String} {escape : Char} (range : NameRange) (rest : List Char)
    (staged : r.stage = .widths) (escaped : r.escape = escape)
    (notEnd : isWordsLine text.toList ["END", "WIDTH"] = false)
    (named : readNamed escape text.toList = .ok (.range range, rest))
    (valued : readWordValue? (trim rest) = some width)
    (first : r.charmap.position? range.first = some start)
    (last : r.charmap.position? range.last = some stop) (ordered : start ≤ stop) :
    r.step opts ⟨number, .content text⟩ =
      pure (r.mapCharmap (·.setWidthsIn start (stop + 1) width)) := by
  rw [step_widths r opts staged]
  simp [widthLine, notEnd, escaped, named, valued, atLine, first, last, Nat.not_lt.mpr ordered]

end Reading

/-! ### A sample charmap -/

/-- A computation that reports once and then gives a value runs to that value and the report. -/
theorem Logged.run_report_pure {α : Type} (d : Diagnostic) (a : α) :
    (report d >>= fun _ => pure a : Logged α).run = (.ok a, #[d]) :=
  rfl

/-- A charmap source with three characters: the second has the bytes of the first, and the third
spells the scalar value of the first with eight digits and has bytes before the first's. After the
CHARMAP section come a default width of two, a width of three for the characters defined from the
first to the second, and a width of two for the second. -/
def Charmap.sampleSource : String :=
  "CHARMAP\n<U0041> \\x41\n<U00C5> \\x41\n<U00000041> \\x40\nEND CHARMAP\n" ++
    "WIDTH_DEFAULT 2\nWIDTH\n<U0041>..<U00C5> 3\n<U00C5> 2\nEND WIDTH\n"

theorem Charmap.sampleSource_lines : (Scanner.start Charmap.sampleSource).lines '\\' '#' =
    [⟨1, .content "CHARMAP"⟩, ⟨2, .content "<U0041> \\x41"⟩, ⟨3, .content "<U00C5> \\x41"⟩,
      ⟨4, .content "<U00000041> \\x40"⟩, ⟨5, .content "END CHARMAP"⟩,
      ⟨6, .content "WIDTH_DEFAULT 2"⟩, ⟨7, .content "WIDTH"⟩, ⟨8, .content "<U0041>..<U00C5> 3"⟩,
      ⟨9, .content "<U00C5> 2"⟩, ⟨10, .content "END WIDTH"⟩] := by
  decide +kernel

/-- The sample read up to `END CHARMAP`: its three characters, the second reported against the
first, indexed by name and by first bytes. -/
theorem Reading.untilTrailer_sampleSource (opts : Options) :
    ∃ s : Scanner, s.lines '\\' '#' =
        [⟨6, .content "WIDTH_DEFAULT 2"⟩, ⟨7, .content "WIDTH"⟩, ⟨8, .content "<U0041>..<U00C5> 3"⟩,
          ⟨9, .content "<U00C5> 2"⟩, ⟨10, .content "END WIDTH"⟩] ∧
      Reading.initial.untilTrailer opts (Scanner.start Charmap.sampleSource) =
        report (.sharedEncoding 3 "U00C5" "\\x41" "U0041") >>= fun _ =>
          pure (⟨.trailer, ⟨none, 1, 1, '\\', '#', #[], 1,
            #[⟨"U0041", [0x41], some 0x41, none, none⟩, ⟨"U00C5", [0x41], some 0xC5, none, none⟩,
              ⟨"U00000041", [0x40], some 0x41, none, none⟩],
            (((∅ : Std.HashMap String Nat).insert "U0041" 0).insert "U00C5" 1).insert "U00000041" 2⟩,
            '\\', '#', ((∅ : Std.HashMap (List UInt8) Nat).insert [0x41] 0).insert [0x40] 2⟩, s) := by
  obtain ⟨s1, lines1, ran1⟩ := Reading.untilTrailer_of_lines Charmap.sampleSource_lines
  obtain ⟨s2, lines2, ran2⟩ := Reading.untilTrailer_of_lines lines1
  obtain ⟨s3, lines3, ran3⟩ := Reading.untilTrailer_of_lines lines2
  obtain ⟨s4, lines4, ran4⟩ := Reading.untilTrailer_of_lines lines3
  obtain ⟨s5, lines5, ran5⟩ := Reading.untilTrailer_of_lines lines4
  refine ⟨s5, lines5, ?_⟩
  have line1 : ∀ r : Reading, r.stage = .header → r.charmap.mbCurMin = 1 →
      r.charmap.mbCurMax = 1 →
      r.step opts ⟨1, .content "CHARMAP"⟩ = pure { r with stage := .characters } := by
    rintro ⟨stage, ⟨name, least, most, escapeChar, commentChar, aliases, width, entries, positions⟩,
      escape, comment, firsts⟩ staged leastOne mostOne
    dsimp only at staged leastOne mostOne
    subst staged leastOne mostOne
    rfl
  have line2 : ∀ r : Reading, r.stage = .characters → r.escape = '\\' →
      r.step opts ⟨2, .content "<U0041> \\x41"⟩ = r.define opts "U0041" [0x41] none 2 :=
    fun r staged escaped => Reading.step_defining r opts " \\x41".toList staged escaped
      (by decide +kernel) (by decide +kernel) (by decide +kernel)
  have line3 : ∀ r : Reading, r.stage = .characters → r.escape = '\\' →
      r.step opts ⟨3, .content "<U00C5> \\x41"⟩ = r.define opts "U00C5" [0x41] none 3 :=
    fun r staged escaped => Reading.step_defining r opts " \\x41".toList staged escaped
      (by decide +kernel) (by decide +kernel) (by decide +kernel)
  have line4 : ∀ r : Reading, r.stage = .characters → r.escape = '\\' →
      r.step opts ⟨4, .content "<U00000041> \\x40"⟩ = r.define opts "U00000041" [0x40] none 4 :=
    fun r staged escaped => Reading.step_defining r opts " \\x40".toList staged escaped
      (by decide +kernel) (by decide +kernel) (by decide +kernel)
  have line5 : ∀ r : Reading, r.stage = .characters →
      r.step opts ⟨5, .content "END CHARMAP"⟩ = pure { r with stage := .trailer } :=
    fun r staged => (Reading.step_characters r opts staged).trans rfl
  have spelled : scalarOfName "U0041" = some 0x41 ∧ scalarOfName "U00C5" = some 0xC5 ∧
      scalarOfName "U00000041" = some 0x41 := by
    decide +kernel
  have written : formatEncoding [0x41] '\\' = "\\x41" := rfl
  simp [ran1, ran2, ran3, ran4, ran5, line1, line2, line3, line4, line5, Reading.initial,
    Reading.define_free, Reading.add, Charmap.insert, Charmap.contains, Charmap.push,
    Charmap.modifyIndexed, Charmap.size, Charmap.empty, encodedLengthProblem, spelled, written]

/-- The sample reads, in strict and in lenient mode, to its three characters with the widths the
WIDTH lines give them and the default width two, reporting the shared encoding of the second. -/
theorem Charmap.parse_sampleSource (strict : Bool) :
    (Charmap.parse Charmap.sampleSource ⟨strict, false⟩).run =
      (.ok ⟨none, 1, 1, '\\', '#', #[], 2,
        #[⟨"U0041", [0x41], some 0x41, none, some 3⟩, ⟨"U00C5", [0x41], some 0xC5, none, some 2⟩,
          ⟨"U00000041", [0x40], some 0x41, none, none⟩],
        (((∅ : Std.HashMap String Nat).insert "U0041" 0).insert "U00C5" 1).insert "U00000041" 2⟩,
        #[.sharedEncoding 3 "U00C5" "\\x41" "U0041"]) := by
  obtain ⟨s5, lines5, reached⟩ := Reading.untilTrailer_sampleSource ⟨strict, false⟩
  obtain ⟨s6, lines6, ran6⟩ := Reading.run_of_lines lines5
  obtain ⟨s7, lines7, ran7⟩ := Reading.run_of_lines lines6
  obtain ⟨s8, lines8, ran8⟩ := Reading.run_of_lines lines7
  obtain ⟨s9, lines9, ran9⟩ := Reading.run_of_lines lines8
  obtain ⟨s10, lines10, ran10⟩ := Reading.run_of_lines lines9
  have ended := Reading.run_of_no_lines lines10 ⟨strict, false⟩
  have line6 : ∀ r : Reading, r.stage = .trailer →
      r.step ⟨strict, false⟩ ⟨6, .content "WIDTH_DEFAULT 2"⟩ =
        pure { r with charmap := { r.charmap with widthDefault := 2 } } :=
    fun r staged => (Reading.step_trailer r _ staged).trans rfl
  have line7 : ∀ r : Reading, r.stage = .trailer →
      r.step ⟨strict, false⟩ ⟨7, .content "WIDTH"⟩ = pure { r with stage := .widths } :=
    fun r staged => (Reading.step_trailer r _ staged).trans rfl
  have located : ((((∅ : Std.HashMap String Nat).insert "U0041" 0).insert "U00C5" 1).insert
        "U00000041" 2)["U0041"]? = some 0 ∧
      ((((∅ : Std.HashMap String Nat).insert "U0041" 0).insert "U00C5" 1).insert
        "U00000041" 2)["U00C5"]? = some 1 := by
    simp only [Std.HashMap.getElem?_insert]
    decide
  have line8 : ∀ r : Reading, r.stage = .widths → r.escape = '\\' →
      r.charmap.positions = (((∅ : Std.HashMap String Nat).insert "U0041" 0).insert "U00C5" 1).insert
        "U00000041" 2 →
      r.step ⟨strict, false⟩ ⟨8, .content "<U0041>..<U00C5> 3"⟩ =
        pure (r.mapCharmap (·.setWidthsIn 0 2 3)) :=
    fun r staged escaped indexed => Reading.step_width_between r _ ⟨"U0041", "U00C5", .hex⟩
      " 3".toList staged escaped (by decide +kernel) (by decide +kernel) (by decide +kernel)
      (by rw [Charmap.position?, indexed, located.1]) (by rw [Charmap.position?, indexed, located.2])
      (by decide)
  have line9 : ∀ r : Reading, r.stage = .widths → r.escape = '\\' →
      r.charmap.contains "U00C5" = true →
      r.step ⟨strict, false⟩ ⟨9, .content "<U00C5> 2"⟩ =
        pure (r.mapCharmap (·.setWidth "U00C5" 2)) :=
    fun r staged escaped defined => Reading.step_width_one r _ " 2".toList staged escaped
      (by decide +kernel) (by decide +kernel) (by decide +kernel) defined
  have line10 : ∀ r : Reading, r.stage = .widths →
      r.step ⟨strict, false⟩ ⟨10, .content "END WIDTH"⟩ = pure { r with stage := .trailer } :=
    fun r staged => (Reading.step_widths r _ staged).trans rfl
  rw [Charmap.parse, Reading.run_eq_untilTrailer, reached]
  simp [ran6, ran7, ran8, ran9, ran10, ended, line6, line7, line8, line9, line10,
    Reading.mapCharmap, Charmap.setWidthsIn, Charmap.setWidth, Charmap.position?,
    Std.HashMap.getElem_insert, Charmap.contains, Charmap.modifyEntries, Charmap.modifyIndexed,
    Charmap.widenAt, Reading.finish]
  rfl

end LocaleCharmap
