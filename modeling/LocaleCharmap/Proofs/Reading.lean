import Mathlib
import LocaleCharmap.Proofs.LineSteps
/-!
# What a reading keeps true

A reading goes through the logical lines of a charmap in four stages. The widths are checked
once, when `CHARMAP` opens, after any number of header lines; characters then arrive from single
lines and from ranges, and the `WIDTH` sections change entries in place. The invariant carried
along every run is `Reading.Invariant`: no character is defined before `CHARMAP`, from `CHARMAP`
on the widths are valid, every character fits them and carries the scalar value its name spells,
and the names are distinct and indexed. The charmap a successful reading returns is therefore
`Charmap.WellFormed`.

Each line reader gets a triple saying that it keeps the invariant in its stage; `mvcgen` walks
the do-blocks, and the transitions that need an argument (opening `CHARMAP`, adding a character,
changing widths) are lemmas of their own. The run lemma follows by induction on the reading loop.
-/

namespace LocaleCharmap

open LocaleCharmap.Source Std.Do

set_option mvcgen.warning false

/-! ### Logged computations -/

/-- What a triple promises of a logged computation holds of the value a run from the empty log
succeeds with. -/
theorem Logged.of_triple {α : Type} {x : Logged α} {P : α → Prop} {a : α}
    {log : Array Diagnostic} (spec : ⦃⌜True⌝⦄ x ⦃⇓? a => ⌜P a⌝⦄)
    (ran : x.run = (.ok a, log)) : P a := by
  refine @StateM.of_wp_run_eq _ _ _ #[] (ExceptT.run x) ran
    (fun outcome => match outcome.1 with | .ok a => P a | .error _ => True) ?_
  rw [WP.ExceptT_run]
  exact fun _ => spec #[] True.intro

/-- What a triple promises of a logged computation, for its value and for its failure, holds of
the outcome of a run from the empty log. -/
theorem Logged.outcome_of_triple {α : Type} {x : Logged α} {Q : α → Prop} {R : Fault → Prop}
    (spec : ⦃⌜True⌝⦄ x ⦃post⟨fun a => ⌜Q a⌝, fun f => ⌜R f⌝⟩⦄) :
    match x.run.1 with
    | .ok a => Q a
    | .error f => R f := by
  rcases ran : x.run with ⟨outcome, log⟩
  refine @StateM.of_wp_run_eq _ _ _ #[] (ExceptT.run x) ran
    (fun outcome => match outcome.1 with | .ok a => Q a | .error f => R f) ?_
  rw [WP.ExceptT_run]
  exact fun _ => spec #[] True.intro

/-! ### The checks a reading makes -/

theorem widthsProblem_eq_none {least most : Nat} :
    widthsProblem least most = none ↔ 1 ≤ least ∧ least ≤ most ∧ most ≤ 16 := by
  unfold widthsProblem
  split_ifs <;> simp only [false_iff, true_iff] <;> omega

theorem encodedLengthProblem_eq_none {name : String} {bytes : List UInt8} {least most : Nat} :
    encodedLengthProblem name bytes least most = none ↔
      least ≤ bytes.length ∧ bytes.length ≤ most := by
  unfold encodedLengthProblem
  split
  · simp_all
    omega
  · simp_all

/-- A name spells a scalar value only when that value is a Unicode scalar value. -/
theorem isScalar_of_scalarOfName {name : String} {value : Nat}
    (spelled : scalarOfName name = some value) : isScalar value = true := by
  unfold scalarOfName at spelled
  split at spelled
  · split_ifs at spelled
    simp only [Option.ite_none_right_eq_some, Option.some.injEq] at spelled
    obtain ⟨scalar, rfl⟩ := spelled
    exact scalar
  · contradiction

/-- A charmap as a successful reading leaves it: valid widths, every character fitting them, and
distinct names. -/
structure Charmap.WellFormed (m : Charmap) : Prop where
  widths : m.WidthsValid
  fits : ∀ e ∈ m.entries, m.Fits e
  distinct : m.names.Nodup

namespace Reading

/-- The invariant of a reading. Before `CHARMAP` the widths may still change, so nothing may be
defined yet; from then on the widths are fixed and valid. -/
structure Invariant (r : Reading) : Prop where
  header_empty : r.stage = .header → r.charmap.entries = #[]
  widths : r.stage ≠ .header → r.charmap.WidthsValid
  fits : ∀ e ∈ r.charmap.entries, r.charmap.Fits e
  distinct : r.charmap.names.Nodup
  indexed : ∀ e ∈ r.charmap.entries, r.charmap.contains e.name = true

/-! ### Transitions -/

theorem Invariant.of_header {r : Reading} (header : r.stage = .header)
    (empty : r.charmap.entries = #[]) : r.Invariant where
  header_empty _ := empty
  widths notHeader := absurd header notHeader
  fits e member := by simp [empty] at member
  distinct := by simp [Charmap.names, empty]
  indexed e member := by simp [empty] at member

theorem initial_invariant : initial.Invariant :=
  Invariant.of_header rfl rfl

/-- A reading that keeps its stage, characters, index and widths keeps the invariant. -/
theorem Invariant.congr {r r' : Reading} (invariant : r.Invariant) (stage : r'.stage = r.stage)
    (entries : r'.charmap.entries = r.charmap.entries)
    (positions : r'.charmap.positions = r.charmap.positions)
    (least : r'.charmap.mbCurMin = r.charmap.mbCurMin)
    (most : r'.charmap.mbCurMax = r.charmap.mbCurMax) : r'.Invariant where
  header_empty header := entries ▸ invariant.header_empty (stage ▸ header)
  widths notHeader := by
    have valid := invariant.widths (stage ▸ notHeader)
    unfold Charmap.WidthsValid at valid ⊢
    rw [least, most]
    exact valid
  fits e member := by
    have fits := invariant.fits e (entries ▸ member)
    unfold Charmap.Fits at fits ⊢
    rw [least, most]
    exact fits
  distinct := by
    unfold Charmap.names
    rw [entries]
    exact invariant.distinct
  indexed e member := by
    unfold Charmap.contains
    rw [positions]
    exact invariant.indexed e (entries ▸ member)

/-- Leaving the header, or moving between the later stages, needs valid widths. -/
theorem Invariant.withStage {r : Reading} (invariant : r.Invariant) (stage : Stage)
    (notHeader : stage ≠ .header) (valid : r.charmap.WidthsValid) :
    { r with stage := stage }.Invariant where
  header_empty header := absurd header notHeader
  widths _ := valid
  fits := invariant.fits
  distinct := invariant.distinct
  indexed := invariant.indexed

@[simp] theorem add_stage (r : Reading) (e : Entry) : (r.add e).stage = r.stage := by
  cases r; rfl

@[simp] theorem add_charmap (r : Reading) (e : Entry) :
    (r.add e).charmap = r.charmap.insert e := by
  cases r; rfl

@[simp] theorem mapCharmap_stage (r : Reading) (f : Charmap → Charmap) :
    (r.mapCharmap f).stage = r.stage := by
  cases r; rfl

@[simp] theorem mapCharmap_charmap (r : Reading) (f : Charmap → Charmap) :
    (r.mapCharmap f).charmap = f r.charmap := by
  cases r; rfl

/-- Adding a character with a free name that fits the widths keeps the invariant. -/
theorem Invariant.add {r : Reading} (invariant : r.Invariant) (notHeader : r.stage ≠ .header)
    {e : Entry} (fresh : r.charmap.contains e.name = false) (fits : r.charmap.Fits e) :
    (r.add e).Invariant := by
  have pushed : (r.add e).charmap = r.charmap.push e := by
    simp [Charmap.insert, fresh]
  -- a name that is not indexed belongs to no character
  have unnamed : e.name ∉ r.charmap.names := by
    intro named
    obtain ⟨d, member, same⟩ := List.mem_map.mp named
    have indexed := invariant.indexed d (Array.mem_toList_iff.mp member)
    rw [same, fresh] at indexed
    exact Bool.false_ne_true indexed
  refine ⟨fun header => absurd header (by simpa using notHeader), fun _ => ?_, ?_, ?_, ?_⟩
  · have valid := invariant.widths notHeader
    unfold Charmap.WidthsValid at valid ⊢
    rw [pushed, Charmap.push_mbCurMin, Charmap.push_mbCurMax]
    exact valid
  · intro d member
    rw [pushed, Charmap.push_entries, Array.mem_push] at member
    unfold Charmap.Fits
    rw [pushed, Charmap.push_mbCurMin, Charmap.push_mbCurMax]
    rcases member with old | rfl
    · exact invariant.fits d old
    · exact fits
  · have distinct := invariant.distinct
    rw [pushed]
    simp only [Charmap.names, Charmap.push_entries, Array.toList_push, List.map_append,
      List.map_cons, List.map_nil] at distinct ⊢
    refine List.nodup_append.mpr ⟨distinct, List.nodup_singleton _, fun a named b same => ?_⟩
    rw [List.mem_singleton] at same
    intro equal
    exact unnamed (same ▸ equal ▸ named)
  · intro d member
    rw [pushed, Charmap.push_entries, Array.mem_push] at member
    simp only [Charmap.contains, pushed, Charmap.push_positions, Std.HashMap.contains_insert,
      Bool.or_eq_true, beq_iff_eq]
    rcases member with old | rfl
    · exact Or.inr (invariant.indexed d old)
    · exact Or.inl rfl

/-- A reading whose characters keep their definitions keeps the invariant. -/
theorem Invariant.of_definitions {r r' : Reading} (invariant : r.Invariant)
    (stage : r'.stage = r.stage) (notHeader : r.stage ≠ .header)
    (definitions : r'.charmap.entries.toList.map Entry.definition =
      r.charmap.entries.toList.map Entry.definition)
    (positions : r'.charmap.positions = r.charmap.positions)
    (least : r'.charmap.mbCurMin = r.charmap.mbCurMin)
    (most : r'.charmap.mbCurMax = r.charmap.mbCurMax) : r'.Invariant where
  header_empty header := absurd (stage ▸ header) notHeader
  widths _ := by
    have valid := invariant.widths notHeader
    unfold Charmap.WidthsValid at valid ⊢
    rw [least, most]
    exact valid
  fits d member := by
    obtain ⟨e, member', same⟩ := Charmap.exists_of_definitions_eq definitions member
    have fits := invariant.fits e member'
    unfold Charmap.Fits at fits
    rw [← least, ← most] at fits
    exact Charmap.fits_of_definition_eq same fits
  distinct := by
    rw [Charmap.names_eq_of_definitions_eq definitions]
    exact invariant.distinct
  indexed d member := by
    obtain ⟨e, member', same⟩ := Charmap.exists_of_definitions_eq definitions member
    have indexed := invariant.indexed e member'
    have name : d.name = e.name := congrArg Prod.fst same
    unfold Charmap.contains at indexed ⊢
    rw [name, positions]
    exact indexed

theorem Invariant.setWidth {r : Reading} (invariant : r.Invariant) (widths : r.stage = .widths)
    (name : String) (width : Nat) : (r.mapCharmap (·.setWidth name width)).Invariant :=
  invariant.of_definitions (mapCharmap_stage _ _) (by simp [widths])
    (Charmap.setWidth_definitions _ _ _) (by simp) (by simp) (by simp)

theorem Invariant.setWidthsIn {r : Reading} (invariant : r.Invariant) (widths : r.stage = .widths)
    (start stop width : Nat) : (r.mapCharmap (·.setWidthsIn start stop width)).Invariant :=
  invariant.of_definitions (mapCharmap_stage _ _) (by simp [widths])
    (Charmap.setWidthsIn_definitions _ _ _ _) (by simp) (by simp) (by simp)

/-- After `CHARMAP` the charmap of a reading is well formed. -/
theorem Invariant.wellFormed {r : Reading} (invariant : r.Invariant)
    (notHeader : r.stage ≠ .header) {m : Charmap} (entries : m.entries = r.charmap.entries)
    (least : m.mbCurMin = r.charmap.mbCurMin) (most : m.mbCurMax = r.charmap.mbCurMax) :
    m.WellFormed := by
  have valid := invariant.widths notHeader
  refine ⟨?_, fun e member => ?_, ?_⟩
  · unfold Charmap.WidthsValid at valid ⊢
    rw [least, most]
    exact valid
  · have fits := invariant.fits e (entries ▸ member)
    unfold Charmap.Fits at fits ⊢
    rw [least, most]
    exact fits
  · unfold Charmap.names
    rw [entries]
    exact invariant.distinct

/-! ### One line at a time -/

theorem headerLine_spec (r : Reading) (opts : Options) (content : List Char) (line : Nat) :
    ⦃⌜r.Invariant ∧ r.stage = .header⌝⦄ r.headerLine opts content line
    ⦃⇓? r' => ⌜r'.Invariant⌝⦄ := by
  mvcgen [Reading.headerLine, Reading.recover, atLine, report]
  case vc2 =>
    -- `CHARMAP` opens the section only when the widths pass their check
    rename_i problem noProblem computed _ header
    have valid : r.charmap.WidthsValid := by
      apply widthsProblem_eq_none.mp
      rw [computed]
      cases problem with
      | none => rfl
      | some p => exact absurd rfl (noProblem p)
    exact header.1.withStage .characters (by decide) valid
  -- every other header line leaves the reading in the header, with nothing defined
  all_goals
    obtain ⟨invariant, header⟩ := ‹r.Invariant ∧ r.stage = .header›
    exact Invariant.of_header header (invariant.header_empty header)

/-- What defining a character can do: nothing, or append it when its length fits and its name is
free. -/
theorem define_cases (r : Reading) (opts : Options) (name : String) (bytes : List UInt8)
    (comment : Option String) (line : Nat) :
    ⦃⌜True⌝⦄ r.define opts name bytes comment line
    ⦃⇓? r' => ⌜r' = r ∨
      (encodedLengthProblem name bytes r.charmap.mbCurMin r.charmap.mbCurMax = none ∧
        r.charmap.contains name = false ∧
        r' = r.add ⟨name, bytes, scalarOfName name, comment, none⟩)⌝⦄ := by
  mvcgen [Reading.define, Reading.recover, report]
  all_goals simp_all [← Option.eq_none_iff_forall_ne_some]

theorem define_spec (r : Reading) (opts : Options) (name : String) (bytes : List UInt8)
    (comment : Option String) (line : Nat) :
    ⦃⌜r.Invariant ∧ r.stage = .characters⌝⦄ r.define opts name bytes comment line
    ⦃⇓? r' => ⌜r'.Invariant ∧ r'.stage = .characters⌝⦄ := by
  mvcgen [define_cases]
  rename_i _ pre r'
  intro _ outcome
  obtain ⟨invariant, characters⟩ := pre
  rcases outcome with rfl | ⟨lengths, fresh, rfl⟩
  · exact ⟨invariant, characters⟩
  · have lengths := encodedLengthProblem_eq_none.mp lengths
    refine ⟨invariant.add (by simp [characters]) fresh ⟨lengths.1, lengths.2, rfl⟩, ?_⟩
    rw [add_stage, characters]

theorem defineRun_spec (opts : Options) (range : NameRange) (comment : Option String) (line : Nat)
    (r : Reading) (names : List String) (bytes : List UInt8) :
    ⦃⌜r.Invariant ∧ r.stage = .characters⌝⦄
      defineRun opts range comment line r names bytes
    ⦃⇓? r' => ⌜r'.Invariant ∧ r'.stage = .characters⌝⦄ := by
  fun_induction defineRun opts range comment line r names bytes with
  | case1 r bytes => mvcgen
  | case2 r name bytes => mvcgen [define_spec]
  | case3 r name more bytes _ inductionHypothesis => mvcgen [define_spec, inductionHypothesis]

theorem charactersLine_spec (r : Reading) (opts : Options) (content : List Char) (line : Nat) :
    ⦃⌜r.Invariant ∧ r.stage = .characters⌝⦄ r.charactersLine opts content line
    ⦃⇓? r' => ⌜r'.Invariant⌝⦄ := by
  mvcgen [Reading.charactersLine, atLine, define_spec, defineRun_spec]
  case vc1 =>
    obtain ⟨invariant, characters⟩ := ‹r.Invariant ∧ r.stage = .characters›
    exact invariant.withStage .trailer (by decide) (invariant.widths (by simp [characters]))
  all_goals exact fun _ invariant _ => invariant

theorem trailerLine_spec (r : Reading) (opts : Options) (content : List Char) (line : Nat) :
    ⦃⌜r.Invariant ∧ r.stage = .trailer⌝⦄ r.trailerLine opts content line
    ⦃⇓? r' => ⌜r'.Invariant⌝⦄ := by
  -- unfolded by hand: the equation lemmas of the `WIDTH_DEFAULT` test are costly to build
  unfold Reading.trailerLine
  mvcgen [Reading.recover, report]
  all_goals obtain ⟨invariant, trailer⟩ := ‹r.Invariant ∧ r.stage = .trailer›
  case vc1 => exact invariant.withStage .widths (by decide) (invariant.widths (by simp [trailer]))
  all_goals exact invariant.congr rfl rfl rfl rfl rfl

theorem widthFor_spec (opts : Options) (width line : Nat) (r : Reading) (names : List String) :
    ⦃⌜r.Invariant ∧ r.stage = .widths⌝⦄ widthFor opts width line r names
    ⦃⇓? r' => ⌜r'.Invariant ∧ r'.stage = .widths⌝⦄ := by
  induction names generalizing r with
  | nil => mvcgen [widthFor]
  | cons name more inductionHypothesis =>
    mvcgen [widthFor, Reading.recover, report, inductionHypothesis]
    obtain ⟨invariant, widths⟩ := ‹r.Invariant ∧ r.stage = .widths›
    exact ⟨invariant.setWidth widths name width, by simp [widths]⟩

theorem widthLine_spec (r : Reading) (opts : Options) (content : List Char) (line : Nat) :
    ⦃⌜r.Invariant ∧ r.stage = .widths⌝⦄ r.widthLine opts content line
    ⦃⇓? r' => ⌜r'.Invariant⌝⦄ := by
  unfold Reading.widthLine
  mvcgen [atLine, widthFor_spec]
  case vc1 =>
    obtain ⟨invariant, widths⟩ := ‹r.Invariant ∧ r.stage = .widths›
    exact invariant.withStage .trailer (by decide) (invariant.widths (by simp [widths]))
  case vc5 =>
    obtain ⟨invariant, widths⟩ := ‹r.Invariant ∧ r.stage = .widths›
    exact invariant.setWidthsIn widths _ _ _
  all_goals exact fun _ invariant _ => invariant

theorem step_spec (r : Reading) (opts : Options) (line : Line) :
    ⦃⌜r.Invariant⌝⦄ r.step opts line ⦃⇓? r' => ⌜r'.Invariant⌝⦄ := by
  unfold Reading.step
  mvcgen [headerLine_spec, charactersLine_spec, trailerLine_spec, widthLine_spec]
  -- an alias line changes only the list of aliases
  rename_i invariant
  split
  · exact invariant.congr (by simp) (by simp) (by simp) (by simp) (by simp)
  · exact invariant

theorem finish_spec (r : Reading) (opts : Options) (lines : Nat) :
    ⦃⌜r.Invariant⌝⦄ r.finish opts lines ⦃⇓? m => ⌜m.WellFormed⌝⦄ := by
  unfold Reading.finish
  mvcgen [report]
  all_goals exact ‹r.Invariant›.wellFormed (by simp [‹r.stage = .trailer›]) rfl rfl rfl

/-! ### Whole readings -/

/-- Every run of the reading loop from a reading that satisfies the invariant returns a well
formed charmap, if it returns one. -/
theorem run_spec (opts : Options) (r : Reading) (s : Scanner) :
    ⦃⌜r.Invariant⌝⦄ Reading.run opts r s ⦃⇓? m => ⌜m.WellFormed⌝⦄ := by
  fun_induction Reading.run opts r s with
  | case1 r s _ => exact finish_spec r opts s.consumed
  | case2 r s line rest _ inductionHypothesis => mvcgen [step_spec, inductionHypothesis]

end Reading

theorem Charmap.parse_spec (text : String) (opts : Options) :
    ⦃⌜True⌝⦄ Charmap.parse text opts ⦃⇓? m => ⌜m.WellFormed⌝⦄ := by
  mvcgen [Charmap.parse, Reading.run_spec]
  exact Reading.initial_invariant

theorem Charmap.wellFormed_of_parse {text : String} {opts : Options} {m : Charmap}
    {log : Array Diagnostic} (parsed : (Charmap.parse text opts).run = (.ok m, log)) :
    m.WellFormed :=
  Logged.of_triple (Charmap.parse_spec text opts) parsed

/-- A charmap that reads successfully declares widths with `1 ≤ mb_cur_min ≤ mb_cur_max ≤ 16`,
encodes every character in a number of bytes within them, and gives every character the scalar
value its name spells, which is a Unicode scalar value whenever there is one. -/
theorem Charmap.parse_entries_fit_widths (text : String) (opts : Options) (m : Charmap)
    (log : Array Diagnostic) (parsed : (Charmap.parse text opts).run = (.ok m, log)) :
    1 ≤ m.mbCurMin ∧ m.mbCurMin ≤ m.mbCurMax ∧ m.mbCurMax ≤ 16 ∧
      ∀ e ∈ m.entries, m.mbCurMin ≤ e.bytes.length ∧ e.bytes.length ≤ m.mbCurMax ∧
        e.scalar = scalarOfName e.name ∧ ∀ v, e.scalar = some v → isScalar v = true := by
  have wellFormed := Charmap.wellFormed_of_parse parsed
  refine ⟨wellFormed.widths.1, wellFormed.widths.2.1, wellFormed.widths.2.2, fun e member => ?_⟩
  obtain ⟨least, most, spelled⟩ := wellFormed.fits e member
  refine ⟨least, most, spelled, fun v named => ?_⟩
  rw [spelled] at named
  exact isScalar_of_scalarOfName named

/-- The sample charmap reads to three characters, each of which takes one byte since the sample
declares no widths. -/
theorem Charmap.parse_sampleSource_fits :
    ∃ m log, (Charmap.parse Charmap.sampleSource ⟨false, false⟩).run = (.ok m, log) ∧
      m.names = ["U0041", "U00C5", "U00000041"] ∧
      (1 ≤ m.mbCurMin ∧ m.mbCurMin ≤ m.mbCurMax ∧ m.mbCurMax ≤ 16 ∧
        ∀ e ∈ m.entries, m.mbCurMin ≤ e.bytes.length ∧ e.bytes.length ≤ m.mbCurMax ∧
          e.scalar = scalarOfName e.name ∧ ∀ v, e.scalar = some v → isScalar v = true) ∧
      ∀ e ∈ m.entries, e.bytes.length = 1 := by
  have parsed := Charmap.parse_sampleSource false
  have fits := Charmap.parse_entries_fit_widths _ _ _ _ parsed
  refine ⟨_, _, parsed, rfl, fits, fun e member => ?_⟩
  obtain ⟨least, most, -⟩ := fits.2.2.2 e member
  have atLeastOne : 1 ≤ e.bytes.length := least
  have atMostOne : e.bytes.length ≤ 1 := most
  omega

end LocaleCharmap
