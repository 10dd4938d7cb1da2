import Mathlib
import LocaleCharmap.Proofs.Ranges
import LocaleCharmap.Proofs.WidthSections
/-!
# The first character with each encoding

Two characters of a charmap may share an encoding. A reading reports each one that shares the
bytes of an earlier character, against the first character with those bytes; to find it without
a search it keeps a map from each encoding to the position of the first character defined with
it. The map is changed only where a character with a free name is appended, and only when the
encoding is new.

`Reading.FirstsAgree` says the map agrees with a scan of the characters: its keys are exactly the
encodings of the characters defined so far, each mapped to the position of the first character
that has it. It holds of the initial reading; appending a character with a free name keeps it; and
every other change a line makes leaves both the map and the encodings of the characters as they
were. So it holds of every reading a parse reaches, `Reading.Reaches`, and of every reading a
range line passes through on its way. Main statement: at every step of a parse the map agrees
with the scan, and defining a character with a free name reports a shared encoding exactly when
an earlier character has the same bytes, naming the first of the characters
`Charmap.withBytes` lists.
-/

namespace LocaleCharmap

open LocaleCharmap.Source Std.Do

set_option mvcgen.warning false

/-- The element at the position `findIdx?` gives is the one `find?` gives. -/
theorem getElem?_eq_find?_of_findIdx? {α : Type} {p : α → Bool} :
    ∀ {l : List α} {i : Nat}, l.findIdx? p = some i → l[i]? = l.find? p
  | [], _, found => by simp at found
  | a :: l, i, found => by
    rw [List.findIdx?_cons] at found
    rw [List.find?_cons]
    cases holds : p a with
    | true =>
      simp only [holds, if_true, Option.some.injEq] at found
      subst found
      rfl
    | false =>
      simp only [holds, Bool.false_eq_true, if_false, Option.map_eq_some_iff] at found
      obtain ⟨j, later, rfl⟩ := found
      exact getElem?_eq_find?_of_findIdx? later

namespace Reading

/-- The map from encodings to first positions agrees with a scan of the characters: each encoding
is mapped to the position of the first character with those bytes, and encodings no character
has are not mapped. -/
def FirstsAgree (r : Reading) : Prop :=
  ∀ bytes, r.firstWithBytes[bytes]? = r.charmap.entries.toList.findIdx? (·.bytes == bytes)

@[simp] theorem add_firstWithBytes (r : Reading) (e : Entry) :
    (r.add e).firstWithBytes =
      if r.firstWithBytes.contains e.bytes then r.firstWithBytes
      else r.firstWithBytes.insert e.bytes r.charmap.size := by
  cases r; rfl

@[simp] theorem mapCharmap_firstWithBytes (r : Reading) (f : Charmap → Charmap) :
    (r.mapCharmap f).firstWithBytes = r.firstWithBytes := by
  cases r; rfl

theorem initial_firstsAgree : initial.FirstsAgree := by
  intro bytes
  simp [initial, Charmap.empty]

/-- A reading that keeps the map and the definitions of its characters keeps the agreement. -/
theorem FirstsAgree.congr {r r' : Reading} (agrees : r.FirstsAgree)
    (firsts : r'.firstWithBytes = r.firstWithBytes)
    (definitions : r'.charmap.entries.toList.map Entry.definition =
      r.charmap.entries.toList.map Entry.definition) : r'.FirstsAgree := by
  intro bytes
  have encodings : r'.charmap.entries.toList.map (·.bytes) =
      r.charmap.entries.toList.map (·.bytes) := by
    have := congrArg (List.map fun d => d.2.1) definitions
    simpa only [List.map_map, Function.comp_def, Entry.definition] using this
  have scan := congrArg (List.findIdx? (· == bytes)) encodings
  simp only [List.findIdx?_map, Function.comp_def] at scan
  rw [firsts, agrees bytes, scan]

/-- Appending a character whose name is free keeps the agreement: a new encoding is mapped to the
old size, which is the new character's position, and an old one keeps its first position. -/
theorem FirstsAgree.add {r : Reading} (agrees : r.FirstsAgree) {e : Entry}
    (fresh : r.charmap.contains e.name = false) : (r.add e).FirstsAgree := by
  intro bytes
  have size : r.charmap.size = r.charmap.entries.toList.length := by
    rw [Charmap.size, Array.length_toList]
  rw [add_firstWithBytes, entries_add_of_free r fresh, List.findIdx?_append, ← agrees bytes,
    List.findIdx?_singleton, size]
  by_cases known : r.firstWithBytes.contains e.bytes = true
  · -- the encoding already has a first character, which stays the first
    rw [if_pos known]
    by_cases same : e.bytes = bytes
    · subst same
      have mapped : r.firstWithBytes[e.bytes]?.isSome = true := by
        rwa [← Std.HashMap.contains_eq_isSome_getElem?]
      obtain ⟨i, found⟩ := Option.isSome_iff_exists.mp mapped
      simp [found]
    · simp [same]
  · -- the new character is the first with its encoding
    rw [if_neg known, Std.HashMap.getElem?_insert]
    by_cases same : e.bytes = bytes
    · subst same
      have missing : r.firstWithBytes[e.bytes]? = none :=
        Option.not_isSome_iff_eq_none.mp (by rwa [← Std.HashMap.contains_eq_isSome_getElem?])
      simp [missing]
    · simp [same]

/-- Under the agreement an encoding no character has is not mapped. -/
theorem FirstsAgree.getElem?_eq_none {r : Reading} (agrees : r.FirstsAgree) {bytes : List UInt8}
    (unshared : (r.charmap.withBytes bytes).head? = none) : r.firstWithBytes[bytes]? = none := by
  rw [agrees bytes, List.findIdx?_eq_none_iff]
  rw [Charmap.withBytes, List.head?_filter, List.find?_eq_none] at unshared
  simpa using unshared

/-- Under the agreement the map leads to the first character with an encoding. -/
theorem FirstsAgree.exists_first {r : Reading} (agrees : r.FirstsAgree) {bytes : List UInt8}
    {first : Entry} (shared : (r.charmap.withBytes bytes).head? = some first) :
    ∃ i, r.firstWithBytes[bytes]? = some i ∧ r.charmap.entries[i]? = some first := by
  rw [Charmap.withBytes, List.head?_filter] at shared
  have carries := List.find?_some shared
  have mapped : (r.charmap.entries.toList.findIdx? (·.bytes == bytes)).isSome = true := by
    rw [List.findIdx?_isSome, List.any_eq_true]
    exact ⟨first, List.mem_of_find?_eq_some shared, carries⟩
  obtain ⟨i, found⟩ := Option.isSome_iff_exists.mp mapped
  refine ⟨i, (agrees bytes).trans found, ?_⟩
  rw [← Array.getElem?_toList, getElem?_eq_find?_of_findIdx? found, shared]

/-! ### Defining a character -/

theorem define_firstsAgree (r : Reading) (opts : Options) (name : String) (bytes : List UInt8)
    (comment : Option String) (line : Nat) :
    ⦃⌜r.FirstsAgree⌝⦄ r.define opts name bytes comment line ⦃⇓? r' => ⌜r'.FirstsAgree⌝⦄ := by
  mvcgen [define_cases]
  rename_i _ agrees r'
  intro _ outcome
  rcases outcome with rfl | ⟨-, fresh, rfl⟩
  · exact agrees
  · exact agrees.add fresh

/-- Defining a character whose length fits and whose name is free appends it, and reports it
against the first character with its bytes when there is one, and reports nothing otherwise. -/
theorem define_runFrom {r : Reading} (agrees : r.FirstsAgree) (opts : Options) (name : String)
    (bytes : List UInt8) (comment : Option String) (line : Nat) (log : Array Diagnostic)
    (fits : encodedLengthProblem name bytes r.charmap.mbCurMin r.charmap.mbCurMax = none)
    (fresh : r.charmap.contains name = false) :
    (r.define opts name bytes comment line).runFrom log =
      (.ok (r.add ⟨name, bytes, scalarOfName name, comment, none⟩),
        match (r.charmap.withBytes bytes).head? with
        | some first =>
          log.push (.sharedEncoding line name (formatEncoding bytes r.escape) first.name)
        | none => log) := by
  cases shared : (r.charmap.withBytes bytes).head? with
  | none =>
    have unmapped := agrees.getElem?_eq_none shared
    simp [Reading.define, Logged.runFrom, fits, fresh, unmapped]
    rfl
  | some first =>
    obtain ⟨i, found, at_first⟩ := agrees.exists_first shared
    simp [Reading.define, Logged.runFrom, fits, fresh, found, at_first, report]
    rfl

/-! ### Line by line -/

theorem defineRun_firstsAgree (opts : Options) (range : NameRange) (comment : Option String)
    (line : Nat) (r : Reading) (names : List String) (bytes : List UInt8) :
    ⦃⌜r.FirstsAgree⌝⦄ defineRun opts range comment line r names bytes
    ⦃⇓? r' => ⌜r'.FirstsAgree⌝⦄ := by
  fun_induction defineRun opts range comment line r names bytes with
  | case1 r bytes => mvcgen
  | case2 r name bytes => mvcgen [define_firstsAgree]
  | case3 r name more bytes _ inductionHypothesis =>
    mvcgen [define_firstsAgree, inductionHypothesis]

theorem headerLine_firstsAgree (r : Reading) (opts : Options) (content : List Char)
    (line : Nat) :
    ⦃⌜r.FirstsAgree⌝⦄ r.headerLine opts content line ⦃⇓? r' => ⌜r'.FirstsAgree⌝⦄ := by
  -- no header line touches the characters or the map
  mvcgen [Reading.headerLine, Reading.recover, atLine, report]

theorem charactersLine_firstsAgree (r : Reading) (opts : Options) (content : List Char)
    (line : Nat) :
    ⦃⌜r.FirstsAgree⌝⦄ r.charactersLine opts content line ⦃⇓? r' => ⌜r'.FirstsAgree⌝⦄ := by
  mvcgen [Reading.charactersLine, atLine, define_firstsAgree, defineRun_firstsAgree]

theorem trailerLine_firstsAgree (r : Reading) (opts : Options) (content : List Char)
    (line : Nat) :
    ⦃⌜r.FirstsAgree⌝⦄ r.trailerLine opts content line ⦃⇓? r' => ⌜r'.FirstsAgree⌝⦄ := by
  unfold Reading.trailerLine
  mvcgen [Reading.recover, report]

theorem widthFor_firstsAgree (opts : Options) (width line : Nat) (r : Reading)
    (names : List String) :
    ⦃⌜r.FirstsAgree⌝⦄ widthFor opts width line r names ⦃⇓? r' => ⌜r'.FirstsAgree⌝⦄ := by
  induction names generalizing r with
  | nil => mvcgen [widthFor]
  | cons name more inductionHypothesis =>
    mvcgen [widthFor, Reading.recover, report, inductionHypothesis]
    exact ‹r.FirstsAgree›.congr (by simp)
      (by rw [mapCharmap_charmap, Charmap.setWidth_definitions])

theorem widthLine_firstsAgree (r : Reading) (opts : Options) (content : List Char)
    (line : Nat) :
    ⦃⌜r.FirstsAgree⌝⦄ r.widthLine opts content line ⦃⇓? r' => ⌜r'.FirstsAgree⌝⦄ := by
  unfold Reading.widthLine
  mvcgen [atLine, widthFor_firstsAgree]
  exact ‹r.FirstsAgree›.congr (by simp)
    (by rw [mapCharmap_charmap, Charmap.setWidthsIn_definitions])

theorem step_firstsAgree (r : Reading) (opts : Options) (line : Line) :
    ⦃⌜r.FirstsAgree⌝⦄ r.step opts line ⦃⇓? r' => ⌜r'.FirstsAgree⌝⦄ := by
  unfold Reading.step
  mvcgen [headerLine_firstsAgree, charactersLine_firstsAgree, trailerLine_firstsAgree,
    widthLine_firstsAgree]
  -- an alias line changes only the list of aliases
  split
  · exact ‹r.FirstsAgree›.congr (by simp) (by simp)
  · exact ‹r.FirstsAgree›

/-! ### Every reading a parse reaches -/

/-- The readings the reading loop of a parse passes through, each with the scanner over the lines
still to read and the reports made so far: the parse starts from `initial`, the whole text and no
reports, and each line the scanner gives takes it one step further when the step succeeds. -/
inductive Reaches (opts : Options) (text : String) : Reading → Scanner → Array Diagnostic → Prop
  | start : Reaches opts text initial (Scanner.start text) #[]
  | step {r r' : Reading} {s rest : Scanner} {log log' : Array Diagnostic} {line : Line} :
      Reaches opts text r s log → s.next? r.escape r.comment = some (line, rest) →
      (r.step opts line).runFrom log = (.ok r', log') → Reaches opts text r' rest log'

/-- A parse ends as the reading loop continued from any reading it reaches. -/
theorem Reaches.parse_runFrom {opts : Options} {text : String} {r : Reading} {s : Scanner}
    {log : Array Diagnostic} (reached : Reaches opts text r s log) :
    (Charmap.parse text opts).runFrom #[] = (run opts r s).runFrom log := by
  induction reached with
  | start => rfl
  | step _ scanned stepped inductionHypothesis =>
    rw [inductionHypothesis, run, scanned]
    simp only [Logged.runFrom, ExceptT.run_bind, StateT.run_bind] at stepped ⊢
    rw [stepped]
    rfl

theorem Reaches.firstsAgree {opts : Options} {text : String} {r : Reading} {s : Scanner}
    {log : Array Diagnostic} (reached : Reaches opts text r s log) : r.FirstsAgree := by
  induction reached with
  | start => exact initial_firstsAgree
  | step _ _ stepped inductionHypothesis =>
    exact Logged.of_triple_from (step_firstsAgree _ opts _) inductionHypothesis stepped

end Reading

/-- At every step of a parse the map from encodings to first positions agrees with a scan of the
characters defined so far; and defining a character whose length fits and whose name is free,
from a reading where the map agrees, keeps the agreement and reports a shared encoding exactly
when an earlier character has the same bytes, against the first character `withBytes` lists. -/
theorem Reading.firstWithBytes_agrees_with_scan :
    (∀ opts text r s log, Reading.Reaches opts text r s log →
      ∀ bytes, r.firstWithBytes[bytes]? =
        r.charmap.entries.toList.findIdx? (·.bytes == bytes)) ∧
    ∀ r : Reading, r.FirstsAgree → ∀ opts name bytes comment line log,
      encodedLengthProblem name bytes r.charmap.mbCurMin r.charmap.mbCurMax = none →
      r.charmap.contains name = false →
      (r.define opts name bytes comment line).runFrom log =
        (.ok (r.add ⟨name, bytes, scalarOfName name, comment, none⟩),
          match (r.charmap.withBytes bytes).head? with
          | some first =>
            log.push (.sharedEncoding line name (formatEncoding bytes r.escape) first.name)
          | none => log) ∧
        (r.add ⟨name, bytes, scalarOfName name, comment, none⟩).FirstsAgree :=
  ⟨fun _ _ _ _ _ reached => reached.firstsAgree,
    fun _ agrees opts name bytes comment line log fits fresh =>
      ⟨Reading.define_runFrom agrees opts name bytes comment line log fits fresh,
        agrees.add fresh⟩⟩

/-- A second character with the bytes of the first is reported against it. -/
theorem Reading.firstWithBytes_agrees_with_scan_shared_byte :
    (Reading.initial.add ⟨"A", [0x41], some 0x41, none, none⟩).FirstsAgree ∧
      encodedLengthProblem "B" [0x41]
        (Reading.initial.add ⟨"A", [0x41], some 0x41, none, none⟩).charmap.mbCurMin
        (Reading.initial.add ⟨"A", [0x41], some 0x41, none, none⟩).charmap.mbCurMax = none ∧
      (Reading.initial.add ⟨"A", [0x41], some 0x41, none, none⟩).charmap.contains "B" = false ∧
      ((Reading.initial.add ⟨"A", [0x41], some 0x41, none, none⟩).define ⟨false, false⟩ "B" [0x41]
        none 3).runFrom #[] =
        (.ok ((Reading.initial.add ⟨"A", [0x41], some 0x41, none, none⟩).add
          ⟨"B", [0x41], scalarOfName "B", none, none⟩),
          #[.sharedEncoding 3 "B" "\\x41" "A"]) := by
  have free : Reading.initial.charmap.contains "A" = false := by
    simp [Reading.initial, Charmap.empty, Charmap.contains]
  have agrees : (Reading.initial.add ⟨"A", [0x41], some 0x41, none, none⟩).FirstsAgree :=
    Reading.initial_firstsAgree.add free
  have fits : encodedLengthProblem "B" [0x41]
      (Reading.initial.add ⟨"A", [0x41], some 0x41, none, none⟩).charmap.mbCurMin
      (Reading.initial.add ⟨"A", [0x41], some 0x41, none, none⟩).charmap.mbCurMax = none := by
    rw [Reading.add_mbCurMin, Reading.add_mbCurMax]
    decide
  have fresh : (Reading.initial.add ⟨"A", [0x41], some 0x41, none, none⟩).charmap.contains "B" =
      false := by
    rw [Reading.contains_add]
    simp [Reading.initial, Charmap.empty, Charmap.contains]
  refine ⟨agrees, fits, fresh, ?_⟩
  rw [(Reading.firstWithBytes_agrees_with_scan.2 _ agrees ⟨false, false⟩ "B" [0x41] none 3 #[]
    fits fresh).1]
  have listed : ((Reading.initial.add ⟨"A", [0x41], some 0x41, none, none⟩).charmap.withBytes
      [0x41]).head? = some ⟨"A", [0x41], some 0x41, none, none⟩ := by
    rw [Charmap.withBytes, Reading.entries_add_of_free _ free]
    rfl
  rw [listed]
  rfl

end LocaleCharmap
