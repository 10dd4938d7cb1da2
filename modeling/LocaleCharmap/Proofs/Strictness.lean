import Mathlib
import LocaleCharmap.Proofs.Reading
/-!
# Strict reading only refuses

Strict reading refuses what lenient reading reports and carries on past: text outside any
definition, unknown header keywords, duplicate names, widths for undefined characters, byte
escapes with a single digit and, when asked for, undefined portable characters. This file shows
that refusing is all it does: when the strict reading of a text succeeds, the lenient reading of
the same text returns the same charmap with the same reports, and none of them is a warning.

The comparison is a relation between two logged computations, `Logged.Covers`: whenever the first
succeeds from some log, the second succeeds from that log with the same value and the same log.
`bind` keeps it, and each line reader run strictly is covered by the same reader run leniently:
both take the same branches and differ only where a problem is recovered from, which the strict
one refuses. That a strict run makes no warning is a triple on the log.
-/

namespace LocaleCharmap

open LocaleCharmap.Source LocaleCharmap.Text Std.Do

set_option mvcgen.warning false

/-! ### Covering one logged computation by another -/

namespace Logged

/-- Runs a logged computation from a given log. -/
def runFrom {α : Type} (x : Logged α) (log : Array Diagnostic) : Except Fault α × Array Diagnostic :=
  StateT.run (ExceptT.run x) log

/-- Whenever `x` succeeds from a log, `y` succeeds from that log with the same value and log. -/
def Covers {α : Type} (x y : Logged α) : Prop :=
  ∀ log a log', x.runFrom log = (.ok a, log') → y.runFrom log = (.ok a, log')

namespace Covers

theorem refl {α : Type} (x : Logged α) : Covers x x :=
  fun _ _ _ ran => ran

/-- A failure is covered by anything. -/
theorem throw {α : Type} (fault : Fault) (y : Logged α) : Covers (MonadExcept.throw fault) y := by
  intro log a log' ran
  cases ran

/-- A computation that starts by failing is covered by anything. -/
theorem throw_bind {α β : Type} (fault : Fault) (f : α → Logged β) (y : Logged β) :
    Covers (MonadExcept.throw fault >>= f) y := by
  intro log b log' ran
  cases ran

theorem bind {α β : Type} {x y : Logged α} {f g : α → Logged β} (first : Covers x y)
    (rest : ∀ a, Covers (f a) (g a)) : Covers (x >>= f) (y >>= g) := by
  intro log b log' ran
  simp only [runFrom, ExceptT.run_bind, StateT.run_bind] at ran ⊢
  rcases outcome : (ExceptT.run x).run log with ⟨_ | a, middle⟩
  · rw [outcome] at ran
    cases ran
  · have covered : (ExceptT.run y).run log = (.ok a, middle) := first log a middle outcome
    rw [outcome] at ran
    rw [covered]
    exact rest a middle b log' ran

/-- A reader's result covers the lenient reader's when it succeeding means the other does. -/
theorem atLine {α ε : Type} (line : Nat) (wrap : ε → Problem) {strict lenient : Except ε α}
    (agree : ∀ a, strict = .ok a → lenient = .ok a) :
    Covers (LocaleCharmap.atLine line wrap strict) (LocaleCharmap.atLine line wrap lenient) := by
  cases strict with
  | error e => exact throw _ _
  | ok a =>
    rw [agree a rfl]
    exact refl _

end Covers

end Logged

/-! ### Byte escapes -/

/-- A lenient byte escape asks for one digit and otherwise follows the strict rule. -/
theorem digitRule_lenient (marker : Char) :
    digitRule marker false = { digitRule marker true with least := 1 } := by
  unfold digitRule
  by_cases hex : marker = 'x' <;> by_cases decimal : marker = 'd' <;> simp [hex, decimal]

theorem digitRule_strict_least (marker : Char) : (digitRule marker true).least = 2 := by
  unfold digitRule
  by_cases hex : marker = 'x' <;> by_cases decimal : marker = 'd' <;> simp [hex, decimal]

/-- A byte escape strict reading accepts reads the same digits leniently. -/
theorem readByte_lenient {escape : Char} {cs : List Char} {read : UInt8 × Nat}
    (strict : readByte escape true cs = .ok read) : readByte escape false cs = .ok read := by
  simp only [readByte, digitRule_lenient] at strict ⊢
  split at strict
  · cases strict
  · rename_i enough
    rw [if_neg (by rw [digitRule_strict_least] at enough; omega)]
    exact strict

theorem readBytes_lenient {escape : Char} {cs : List Char} {acc : List UInt8}
    {read : List UInt8 × List Char} (strict : readBytes escape true cs acc = .ok read) :
    readBytes escape false cs acc = .ok read := by
  -- the strict reading unfolds along its own recursion; the lenient one follows it step by step
  revert strict
  fun_induction readBytes escape true cs acc with
  | case1 acc rest b used byte inductionHypothesis =>
    intro strict
    unfold readBytes
    simp only [if_true, readByte_lenient byte]
    exact inductionHypothesis strict
  | case2 acc rest fault byte =>
    intro strict
    cases strict
  | case3 acc c rest other =>
    intro strict
    cases strict
    unfold readBytes
    simp only [other, if_false]
  | case4 acc =>
    intro strict
    cases strict
    unfold readBytes
    rfl

theorem readEncoding_lenient {escape : Char} {cs : List Char} {read : List UInt8 × List Char}
    (strict : readEncoding escape true cs = .ok read) :
    readEncoding escape false cs = .ok read := by
  simp only [readEncoding] at strict ⊢
  cases bytes : readBytes escape true cs [] with
  | error e =>
    rw [bytes] at strict
    cases strict
  | ok pair =>
    rw [bytes] at strict
    rw [readBytes_lenient bytes]
    exact strict

/-! ### Line by line

Each reader is run with the options `⟨true, portable⟩` and `⟨false, portable⟩`. Once
unfolded, the two runs branch on the same conditions; where they differ, the strict one recovers
from a problem by failing. -/

namespace Reading

variable (portable : Bool)

theorem recover_covers {α : Type} (line : Nat) (problem : Problem)
    (next next' : Unit → Logged α) :
    Logged.Covers (recover ⟨true, portable⟩ line problem >>= next)
      (recover ⟨false, portable⟩ line problem >>= next') :=
  Logged.Covers.throw_bind _ _ _

theorem headerLine_covers (r : Reading) (content : List Char) (line : Nat) :
    Logged.Covers (r.headerLine ⟨true, portable⟩ content line)
      (r.headerLine ⟨false, portable⟩ content line) := by
  unfold headerLine
  split
  · exact .refl _
  · split
    · exact recover_covers portable _ _ _ _
    · refine Logged.Covers.bind (.refl _) fun (keyword, rest) => ?_
      dsimp only
      -- every keyword but an unknown one is read the same way by both
      repeat' split
      all_goals first | exact .refl _ | exact recover_covers portable _ _ _ _

theorem define_covers (r : Reading) (name : String) (bytes : List UInt8)
    (comment : Option String) (line : Nat) :
    Logged.Covers (r.define ⟨true, portable⟩ name bytes comment line)
      (r.define ⟨false, portable⟩ name bytes comment line) := by
  unfold define
  repeat' split
  all_goals first | exact .refl _ | exact recover_covers portable _ _ _ _

theorem defineRun_covers (range : NameRange) (comment : Option String) (line : Nat)
    (r : Reading) (names : List String) (bytes : List UInt8) :
    Logged.Covers (defineRun ⟨true, portable⟩ range comment line r names bytes)
      (defineRun ⟨false, portable⟩ range comment line r names bytes) := by
  fun_induction defineRun ⟨true, portable⟩ range comment line r names bytes with
  | case1 r bytes => exact .refl _
  | case2 r name bytes => exact define_covers portable r name bytes comment line
  | case3 r name more bytes several inductionHypothesis =>
    -- the lenient run has more than one name left as well
    rw [defineRun]
    · refine Logged.Covers.bind (define_covers portable r name bytes comment line) fun r' => ?_
      split
      · exact inductionHypothesis r' _
      · exact .refl _
    · exact several

theorem charactersLine_covers (r : Reading) (content : List Char) (line : Nat) :
    Logged.Covers (r.charactersLine ⟨true, portable⟩ content line)
      (r.charactersLine ⟨false, portable⟩ content line) := by
  unfold charactersLine
  split
  · exact .refl _
  · refine Logged.Covers.bind (.refl _) fun (named, rest) => ?_
    -- the encoding is the one place where strictness reads differently
    refine Logged.Covers.bind (.atLine _ _ fun _ => readEncoding_lenient) fun (bytes, after) => ?_
    dsimp only
    split
    · exact define_covers portable r _ bytes _ line
    · exact Logged.Covers.bind (.refl _) fun expansion =>
        defineRun_covers portable _ _ line r expansion.names bytes

theorem trailerLine_covers (r : Reading) (content : List Char) (line : Nat) :
    Logged.Covers (r.trailerLine ⟨true, portable⟩ content line)
      (r.trailerLine ⟨false, portable⟩ content line) := by
  unfold trailerLine
  repeat' split
  all_goals first | exact .refl _ | exact recover_covers portable _ _ _ _

theorem widthFor_covers (width line : Nat) (r : Reading) (names : List String) :
    Logged.Covers (widthFor ⟨true, portable⟩ width line r names)
      (widthFor ⟨false, portable⟩ width line r names) := by
  induction names generalizing r with
  | nil => exact .refl _
  | cons name more inductionHypothesis =>
    unfold widthFor
    split
    · exact inductionHypothesis _
    · exact recover_covers portable _ _ _ _

theorem widthLine_covers (r : Reading) (content : List Char) (line : Nat) :
    Logged.Covers (r.widthLine ⟨true, portable⟩ content line)
      (r.widthLine ⟨false, portable⟩ content line) := by
  unfold widthLine
  split
  · exact .refl _
  · refine Logged.Covers.bind (.refl _) fun (named, rest) => ?_
    dsimp only
    split
    · split
      · exact widthFor_covers portable _ line r _
      · split
        · exact .refl _
        · exact Logged.Covers.bind (.refl _) fun expansion =>
            widthFor_covers portable _ line r expansion.names
    · exact .refl _

theorem step_covers (r : Reading) (line : Line) :
    Logged.Covers (r.step ⟨true, portable⟩ line) (r.step ⟨false, portable⟩ line) := by
  unfold step
  split
  · exact .refl _
  · exact .refl _
  · exact .refl _
  · split
    · exact headerLine_covers portable r _ _
    · exact charactersLine_covers portable r _ _
    · exact trailerLine_covers portable r _ _
    · exact widthLine_covers portable r _ _

theorem finish_covers (r : Reading) (lines : Nat) :
    Logged.Covers (r.finish ⟨true, portable⟩ lines) (r.finish ⟨false, portable⟩ lines) := by
  unfold finish
  dsimp only
  split
  · exact .refl _
  · exact .refl _
  · exact .refl _
  · split
    · split
      · -- undefined portable characters: the strict reading refuses, the lenient one reports
        rw [if_pos rfl]
        exact Logged.Covers.throw_bind _ _ _
      · exact .refl _
    · exact .refl _

theorem run_covers (r : Reading) (s : Scanner) :
    Logged.Covers (Reading.run ⟨true, portable⟩ r s)
      (Reading.run ⟨false, portable⟩ r s) := by
  fun_induction Reading.run ⟨true, portable⟩ r s with
  | case1 r s ended =>
    rw [Reading.run, ended]
    exact finish_covers portable r s.consumed
  | case2 r s line rest next inductionHypothesis =>
    rw [Reading.run, next]
    exact Logged.Covers.bind (step_covers portable r line) fun r' => inductionHypothesis r'

end Reading

/-! ### Strict readings make no warnings -/

/-- What a triple promises of a logged computation, for its value and for its failure, holds of
the outcome of a run from any log. -/
theorem Logged.outcome_from_triple {α : Type} {x : Logged α} {pre : Prop} {Q : α → Prop}
    {R : Fault → Prop} (spec : ⦃⌜pre⌝⦄ x ⦃post⟨fun a => ⌜Q a⌝, fun f => ⌜R f⌝⟩⦄) (holds : pre)
    (log : Array Diagnostic) :
    match (x.runFrom log).1 with
    | .ok a => Q a
    | .error f => R f := by
  refine @StateM.of_wp_run_eq _ _ _ log (ExceptT.run x) rfl
    (fun outcome => match outcome.1 with | .ok a => Q a | .error f => R f) ?_
  rw [WP.ExceptT_run]
  exact fun _ => spec log holds

/-- No report of the log is a warning. -/
def Quiet (log : Array Diagnostic) : Prop :=
  ∀ d ∈ log, d.level ≠ .warn

/-- What a triple on the log promises holds of the log a successful run ends with. -/
theorem Logged.log_of_triple {α : Type} {x : Logged α} {P Q : Array Diagnostic → Prop}
    (spec : ⦃fun log => ⌜P log⌝⦄ x ⦃⇓? _ log => ⌜Q log⌝⦄)
    {log log' : Array Diagnostic} {a : α}
    (ran : x.runFrom log = (.ok a, log')) (before : P log) : Q log' := by
  refine @StateM.of_wp_run_eq _ _ _ log (ExceptT.run x) ran
    (fun outcome => match outcome.1 with | .ok _ => Q outcome.2 | .error _ => True) ?_
  rw [WP.ExceptT_run]
  exact fun _ => spec log before

theorem Quiet.push {log : Array Diagnostic} (quiet : Quiet log) {d : Diagnostic}
    (level : d.level ≠ .warn) : Quiet (log.push d) := by
  intro d' member
  rcases Array.mem_push.mp member with old | rfl
  · exact quiet d' old
  · exact level

namespace Reading

variable (portable : Bool)

theorem headerLine_quiet (r : Reading) (content : List Char) (line : Nat) :
    ⦃fun log => ⌜Quiet log⌝⦄ r.headerLine ⟨true, portable⟩ content line
    ⦃⇓? _ log => ⌜Quiet log⌝⦄ := by
  mvcgen [headerLine, recover, atLine, report]

theorem define_quiet (r : Reading) (name : String) (bytes : List UInt8) (comment : Option String)
    (line : Nat) :
    ⦃fun log => ⌜Quiet log⌝⦄ r.define ⟨true, portable⟩ name bytes comment line
    ⦃⇓? _ log => ⌜Quiet log⌝⦄ := by
  mvcgen [define, recover, report]
  -- a shared encoding is reported at debug level
  exact Quiet.push ‹_› (by simp [Diagnostic.level])

theorem defineRun_quiet (range : NameRange) (comment : Option String) (line : Nat) (r : Reading)
    (names : List String) (bytes : List UInt8) :
    ⦃fun log => ⌜Quiet log⌝⦄ defineRun ⟨true, portable⟩ range comment line r names bytes
    ⦃⇓? _ log => ⌜Quiet log⌝⦄ := by
  fun_induction defineRun ⟨true, portable⟩ range comment line r names bytes with
  | case1 r bytes => mvcgen
  | case2 r name bytes => mvcgen [define_quiet]
  | case3 r name more bytes _ inductionHypothesis => mvcgen [define_quiet, inductionHypothesis]

theorem charactersLine_quiet (r : Reading) (content : List Char) (line : Nat) :
    ⦃fun log => ⌜Quiet log⌝⦄ r.charactersLine ⟨true, portable⟩ content line
    ⦃⇓? _ log => ⌜Quiet log⌝⦄ := by
  mvcgen [charactersLine, atLine, define_quiet, defineRun_quiet]

theorem trailerLine_quiet (r : Reading) (content : List Char) (line : Nat) :
    ⦃fun log => ⌜Quiet log⌝⦄ r.trailerLine ⟨true, portable⟩ content line
    ⦃⇓? _ log => ⌜Quiet log⌝⦄ := by
  unfold trailerLine
  mvcgen [recover, report]

theorem widthFor_quiet (width line : Nat) (r : Reading) (names : List String) :
    ⦃fun log => ⌜Quiet log⌝⦄ widthFor ⟨true, portable⟩ width line r names
    ⦃⇓? _ log => ⌜Quiet log⌝⦄ := by
  induction names generalizing r with
  | nil => mvcgen [widthFor]
  | cons name more inductionHypothesis => mvcgen [widthFor, recover, report, inductionHypothesis]

theorem widthLine_quiet (r : Reading) (content : List Char) (line : Nat) :
    ⦃fun log => ⌜Quiet log⌝⦄ r.widthLine ⟨true, portable⟩ content line
    ⦃⇓? _ log => ⌜Quiet log⌝⦄ := by
  unfold widthLine
  mvcgen [atLine, widthFor_quiet]

theorem run_quiet (r : Reading) (s : Scanner) :
    ⦃fun log => ⌜Quiet log⌝⦄ Reading.run ⟨true, portable⟩ r s
    ⦃⇓? _ log => ⌜Quiet log⌝⦄ := by
  fun_induction Reading.run ⟨true, portable⟩ r s with
  | case1 r s _ =>
    -- undefined portable characters are refused before they could be reported
    unfold finish
    mvcgen [report]
  | case2 r s line rest _ inductionHypothesis =>
    unfold step
    mvcgen [headerLine_quiet, charactersLine_quiet, trailerLine_quiet, widthLine_quiet,
      inductionHypothesis]

end Reading

/-- Strict reading only refuses: when the strict reading of a text succeeds, the lenient reading
of it, with the same portable check, returns the same charmap with the same reports, and none of
the reports is a warning. -/
theorem Charmap.parse_lenient_of_strict {text : String} {portable : Bool} {m : Charmap}
    {log : Array Diagnostic} (strict : (Charmap.parse text ⟨true, portable⟩).run = (.ok m, log)) :
    (Charmap.parse text ⟨false, portable⟩).run = (.ok m, log) ∧ ∀ d ∈ log, d.level ≠ .warn :=
  ⟨Reading.run_covers portable _ _ #[] m log strict,
    Logged.log_of_triple (Reading.run_quiet portable _ _) strict (fun _ member => by simp at member)⟩

/-- The sample charmap reads strictly, with full byte escapes, free names and WIDTH lines naming
defined characters; read leniently it gives the same charmap and the same one report, the shared
encoding of its second character, which is no warning. -/
theorem Charmap.parse_lenient_of_strict_sample :
    ∃ m log, (Charmap.parse Charmap.sampleSource ⟨true, false⟩).run = (.ok m, log) ∧
      ((Charmap.parse Charmap.sampleSource ⟨false, false⟩).run = (.ok m, log) ∧
        ∀ d ∈ log, d.level ≠ .warn) ∧
      log = #[.sharedEncoding 3 "U00C5" "\\x41" "U0041"] := by
  have strict := Charmap.parse_sampleSource true
  exact ⟨_, _, strict, Charmap.parse_lenient_of_strict strict, rfl⟩

end LocaleCharmap
