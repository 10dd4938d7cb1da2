import Mathlib
import LocaleCharmap.Proofs.Store
import LocaleCharmap.Proofs.Strictness
import LocaleCharmap.Proofs.LineGroups
/-!
# Widths after the CHARMAP section

After `END CHARMAP` a charmap source may hold `WIDTH_DEFAULT` lines and `WIDTH` sections. No line
there defines a character: the lines give widths to characters already defined and set the
default width, and change nothing else. The settings they make are listed by `widthSettings`,
which follows the sections as a reader does: `WIDTH` opens one and `END WIDTH` closes it; a line
inside gives a name or a range and a width; outside, `WIDTH_DEFAULT` gives the default.

Main statement: a charmap that reads successfully is the charmap as it stood at `END CHARMAP`,
with the escape and comment characters then in force, each character's width the one the last
WIDTH line covering it gives (none if no line covers it), and the default width the one the last
`WIDTH_DEFAULT` line gives (one if there is none). A name covers its character; a range whose two
ends are defined covers the characters defined between them, and any other range covers the
names it expands to. Positions can serve so because no line after `END CHARMAP` adds a character.

The reading is cut at `END CHARMAP` by `Reading.untilTrailer`. Before that point no width is
given; after it, each line's effect is `Reading.after` of the settings it makes, and the run lemma
composes them through `Charmap.withSettings_append`.
-/

namespace LocaleCharmap

open LocaleCharmap.Source LocaleCharmap.Text Std.Do

set_option mvcgen.warning false

/-! ### What the lines after the CHARMAP section set -/

/-- What a line after the CHARMAP section sets: a line of a WIDTH section gives the characters it
names a width, a `WIDTH_DEFAULT` line gives the default width. -/
inductive WidthSetting where
  | width (target : Named) (width : Nat)
  | default (width : Nat)
  deriving DecidableEq, Repr

/-- Whether a WIDTH line naming `target` covers the character at position `i` named `name`: a name
covers its character; a range whose two ends are defined covers the positions between them, and
any other range the names it expands to. -/
def Charmap.covers (m : Charmap) (target : Named) (i : Nat) (name : String) : Bool :=
  match target with
  | .one n => n == name
  | .range range =>
    match m.position? range.first, m.position? range.last with
    | some start, some stop => start ≤ i && i ≤ stop
    | _, _ =>
      match range.expand with
      | .ok expansion => expansion.names.contains name
      | .error _ => false

namespace WidthSetting

/-- The width a setting gives the character at position `i` named `name`, if it covers it. -/
def widthAt (m : Charmap) (i : Nat) (name : String) : WidthSetting → Option Nat
  | .width target w => if m.covers target i name then some w else none
  | .default _ => none

/-- The default width a setting gives, if it gives one. -/
def default? : WidthSetting → Option Nat
  | .width _ _ => none
  | .default w => some w

end WidthSetting

/-- The width the last setting covering the character at position `i` named `name` gives. -/
def lastWidth (m : Charmap) (settings : List WidthSetting) (i : Nat) (name : String) :
    Option Nat :=
  settings.reverse.findSome? (WidthSetting.widthAt m i name)

/-- The default width the last setting that gives one gives. -/
def lastDefault (settings : List WidthSetting) : Option Nat :=
  settings.reverse.findSome? WidthSetting.default?

theorem lastWidth_append (m : Charmap) (earlier later : List WidthSetting) (i : Nat)
    (name : String) :
    lastWidth m (earlier ++ later) i name =
      (lastWidth m later i name).or (lastWidth m earlier i name) := by
  simp only [lastWidth, List.reverse_append, List.findSome?_append]

theorem lastDefault_append (earlier later : List WidthSetting) :
    lastDefault (earlier ++ later) = (lastDefault later).or (lastDefault earlier) := by
  simp only [lastDefault, List.reverse_append, List.findSome?_append]

/-! ### Charmaps after settings -/

namespace Charmap

/-- The charmap after some settings: each character's width the one the last setting covering it
gives, or else its own; the default width the last one given, or else its own. -/
def withSettings (m : Charmap) (settings : List WidthSetting) : Charmap :=
  { m with
    entries := m.entries.mapIdx fun i e =>
      { e with width := (lastWidth m settings i e.name).or e.width }
    widthDefault := (lastDefault settings).getD m.widthDefault }

/-- Gives a width to the characters whose position and name pass a test. -/
def widenWhere (m : Charmap) (picked : Nat → String → Bool) (width : Nat) : Charmap :=
  { m with
    entries := m.entries.mapIdx fun i e =>
      if picked i e.name then { e with width := some width } else e }

theorem modifyEntries_eq (m : Charmap) (f : Array Entry → Array Entry) :
    m.modifyEntries f = { m with entries := f m.entries } := by
  cases m
  rfl

theorem mapIdx_keep {es : Array Entry} {f : Nat → Entry → Entry}
    (keeps : ∀ i e, es[i]? = some e → f i e = e) : es.mapIdx f = es := by
  apply Array.ext_getElem?
  intro i
  rw [Array.getElem?_mapIdx]
  cases found : es[i]? with
  | none => rfl
  | some e => rw [Option.map_some, keeps i e found]

/-- Changing entries without their names keeps the names. -/
theorem names_mapIdx {es : Array Entry} {f : Nat → Entry → Entry}
    (keeps : ∀ i e, (f i e).name = e.name) :
    (es.mapIdx f).toList.map (·.name) = es.toList.map (·.name) := by
  refine List.ext_getElem? fun i => ?_
  rw [List.getElem?_map, List.getElem?_map, Array.toList_mapIdx, List.getElem?_mapIdx]
  cases es.toList[i]? with
  | none => rfl
  | some e => exact congrArg some (keeps i e)

@[simp] theorem addAlias_widthDefault (m : Charmap) (name : String) :
    (m.addAlias name).widthDefault = m.widthDefault := by
  cases m
  rfl

@[simp] theorem withSettings_positions (m : Charmap) (settings : List WidthSetting) :
    (m.withSettings settings).positions = m.positions := rfl

@[simp] theorem widenWhere_positions (m : Charmap) (picked : Nat → String → Bool)
    (width : Nat) : (m.widenWhere picked width).positions = m.positions := rfl

@[simp] theorem withSettings_names (m : Charmap) (settings : List WidthSetting) :
    (m.withSettings settings).names = m.names :=
  names_mapIdx fun _ _ => rfl

@[simp] theorem widenWhere_names (m : Charmap) (picked : Nat → String → Bool) (width : Nat) :
    (m.widenWhere picked width).names = m.names :=
  names_mapIdx fun i e => by split <;> rfl

theorem withSettings_nil (m : Charmap) : m.withSettings [] = m := by
  unfold withSettings
  rw [mapIdx_keep]
  · rfl
  · exact fun _ _ _ => rfl

/-- Settings made one after another are the settings of both, the later ones last. -/
theorem withSettings_append (m : Charmap) (earlier later : List WidthSetting) :
    (m.withSettings earlier).withSettings later = m.withSettings (earlier ++ later) := by
  simp only [withSettings, Array.mapIdx_mapIdx, lastWidth_append, lastDefault_append,
    Option.getD_or, Option.or_assoc]
  rfl

/-- In a charmap where no character has a width, each character's width after settings is the one
the last setting covering it gives. -/
theorem withSettings_entries_of_unset (m : Charmap) (settings : List WidthSetting)
    (unset : ∀ e ∈ m.entries, e.width = none) :
    (m.withSettings settings).entries =
      m.entries.mapIdx fun i e => { e with width := lastWidth m settings i e.name } := by
  apply Array.ext_getElem?
  intro i
  rw [withSettings, Array.getElem?_mapIdx, Array.getElem?_mapIdx]
  cases found : m.entries[i]? with
  | none => rfl
  | some e => rw [Option.map_some, Option.map_some, unset e (Array.mem_of_getElem? found),
      Option.or_none]

theorem withSettings_width (m : Charmap) (target : Named) (width : Nat) :
    m.withSettings [.width target width] = m.widenWhere (m.covers target) width := by
  simp only [withSettings, widenWhere, lastDefault, lastWidth, List.reverse_singleton,
    List.findSome?_singleton, WidthSetting.widthAt, WidthSetting.default?, Option.getD_none]
  congr 2
  funext i e
  split <;> rfl

theorem withSettings_default (m : Charmap) (width : Nat) :
    m.withSettings [.default width] = { m with widthDefault := width } := by
  unfold withSettings
  rw [mapIdx_keep]
  · rfl
  · exact fun _ _ _ => rfl

theorem widenWhere_congr {m : Charmap} {picked picked' : Nat → String → Bool} (width : Nat)
    (same : ∀ i e, m.entries[i]? = some e → picked i e.name = picked' i e.name) :
    m.widenWhere picked width = m.widenWhere picked' width := by
  unfold widenWhere
  congr 1
  apply Array.ext_getElem?
  intro i
  simp only [Array.getElem?_mapIdx]
  cases found : m.entries[i]? with
  | none => rfl
  | some e => rw [Option.map_some, Option.map_some, same i e found]

theorem widenWhere_none (m : Charmap) (width : Nat) :
    m.widenWhere (fun _ _ => false) width = m := by
  unfold widenWhere
  rw [mapIdx_keep]
  exact fun _ _ _ => rfl

theorem widenWhere_widenWhere (m : Charmap) (picked picked' : Nat → String → Bool)
    (width : Nat) :
    (m.widenWhere picked width).widenWhere picked' width =
      m.widenWhere (fun i name => picked i name || picked' i name) width := by
  simp only [widenWhere, Array.mapIdx_mapIdx]
  congr 2
  funext i e
  by_cases first : picked i e.name <;> by_cases second : picked' i e.name <;>
    simp [first, second]

/-- Giving the character named `name` a width, in a charmap whose index is in step, widens the
entry with that name. -/
theorem IndexConsistent.setWidth_eq {m : Charmap} (consistent : m.IndexConsistent)
    (name : String) (width : Nat) :
    m.setWidth name width = m.widenWhere (fun _ n => n == name) width := by
  unfold setWidth
  split
  · next i indexed =>
    rw [modifyEntries_eq, widenWhere]
    congr 1
    apply Array.ext_getElem?
    intro j
    rw [widenAt, Array.getElem?_modify, Array.getElem?_mapIdx]
    cases found : m.entries[j]? with
    | none => simp
    | some e =>
      -- the index holds `name` at `i`, so the entry at `j` has that name exactly when `j = i`
      have named : m.names[j]? = some e.name := by simp [names, found]
      have same : i = j ↔ e.name = name := by
        constructor
        · rintro rfl
          have held := (consistent name i).mp indexed
          rw [named, Option.some_inj] at held
          exact held
        · intro same
          have held := (consistent name j).mpr (same ▸ named)
          rw [indexed, Option.some_inj] at held
          exact held
      by_cases hit : i = j
      · simp [hit, same.mp hit]
      · have miss : e.name ≠ name := fun named => hit (same.mpr named)
        simp [hit, miss]
  · next unindexed =>
    -- no entry has the name, so nothing is widened
    have untouched : m.widenWhere (fun _ n => n == name) width =
        m.widenWhere (fun _ _ => false) width := by
      apply widenWhere_congr
      intro i e found
      have named : m.names[i]? = some e.name := by simp [names, found]
      have different : e.name ≠ name := by
        rintro rfl
        rw [← consistent e.name i, unindexed] at named
        contradiction
      simp [different]
    rw [untouched, widenWhere_none]

/-- Widening positions one after another from `start` widens the run of them. -/
theorem foldl_widenAt (width start : Nat) (es : Array Entry) (n : Nat) :
    (List.range n).foldl (fun es k => widenAt width es (start + k)) es =
      es.mapIdx fun i e => if start ≤ i && i < start + n then { e with width := some width } else e := by
  induction n with
  | zero => exact (mapIdx_keep fun i e _ => by simp).symm
  | succ n inductionHypothesis =>
    rw [List.range_succ, List.foldl_append, List.foldl_cons, List.foldl_nil, inductionHypothesis]
    apply Array.ext_getElem?
    intro j
    rw [widenAt, Array.getElem?_modify, Array.getElem?_mapIdx, Array.getElem?_mapIdx]
    cases es[j]? with
    | none => simp
    | some e =>
      by_cases last : start + n = j
      · subst last
        simp
      · have within : (start ≤ j && j < start + (n + 1)) = (start ≤ j && j < start + n) := by
          simp only [← Bool.decide_and, decide_eq_decide]
          omega
        simp [last, within]

theorem setWidthsIn_eq (m : Charmap) (start stop width : Nat) :
    m.setWidthsIn start stop width = m.widenWhere (fun i _ => start ≤ i && i < stop) width := by
  rw [setWidthsIn, modifyEntries_eq, foldl_widenAt, widenWhere]
  congr 3
  funext i e
  have within : (start ≤ i && i < start + (stop - start)) = (start ≤ i && i < stop) := by
    simp only [← Bool.decide_and, decide_eq_decide]
    omega
  rw [within]

end Charmap

/-! ### The settings the lines make -/


/-- The settings a content line after the CHARMAP section makes, given whether a WIDTH section is
open, and whether one is open after it. -/
def settingOf (escape : Char) (inSection : Bool) (content : List Char) :
    List WidthSetting × Bool :=
  if inSection then
    if isWordsLine content ["END", "WIDTH"] then ([], false)
    else
      match readNamed escape content with
      | .ok (target, rest) => ((readWordValue? (trim rest)).toList.map (.width target), true)
      | .error _ => ([], true)
  else if isWordsLine content ["WIDTH"] then ([], true)
  else
    match words content with
    | first :: more =>
      if first = "WIDTH_DEFAULT".toList then
        ((readWordValue? (more.head?.getD [])).toList.map .default, false)
      else ([], false)
    | [] => ([], false)

/-- The settings a logical line after the CHARMAP section makes: only content lines make any. -/
def lineSettings (escape : Char) (inSection : Bool) (line : Line) : List WidthSetting × Bool :=
  match line.kind with
  | .content text => settingOf escape inSection text.toList
  | _ => ([], inSection)

/-- The settings the lines after the CHARMAP section make, in order. -/
def widthSettings (escape : Char) (inSection : Bool) : List Line → List WidthSetting
  | [] => []
  | line :: more =>
    (lineSettings escape inSection line).1 ++
      widthSettings escape (lineSettings escape inSection line).2 more

namespace Reading

/-- A reading past the CHARMAP section, outside or inside a WIDTH section, with its name index in
step with its characters. -/
structure AfterCharacters (r : Reading) : Prop where
  stage : r.stage = .trailer ∨ r.stage = .widths
  indexed : r.charmap.IndexConsistent

/-- The reading after a line that makes the settings `made.1` and leaves a WIDTH section open
when `made.2`. -/
def after (r : Reading) (made : List WidthSetting × Bool) : Reading :=
  { r with
    stage := if made.2 then .widths else .trailer
    charmap := r.charmap.withSettings made.1 }

theorem trailerLine_after (r : Reading) (opts : Options) (content : List Char) (line : Nat) :
    ⦃⌜r.stage = .trailer⌝⦄ r.trailerLine opts content line
    ⦃⇓? r' => ⌜r' = r.after (settingOf r.escape false content)⌝⦄ := by
  unfold Reading.trailerLine
  mvcgen [Reading.recover, report]
  all_goals
    cases r
    simp_all +zetaDelta [settingOf, after, Charmap.withSettings_nil, Charmap.withSettings_default]

theorem widthFor_widens (opts : Options) (width line : Nat) (r : Reading) (names : List String) :
    ⦃⌜r.charmap.IndexConsistent⌝⦄ widthFor opts width line r names
    ⦃⇓? r' => ⌜r' = { r with charmap := r.charmap.widenWhere (fun _ n => names.contains n) width }⌝⦄ := by
  induction names generalizing r with
  | nil =>
    mvcgen [widthFor]
    simp [Charmap.widenWhere_none]
  | cons name more inductionHypothesis =>
    mvcgen [widthFor, Reading.recover, report, inductionHypothesis]
    case vc1 =>
      rw [mapCharmap_charmap]
      exact ‹r.charmap.IndexConsistent›.of_names (by simp) (by simp)
    case vc2 =>
      -- the name is defined: its character is widened, then the rest
      rintro _ rfl
      have consistent := ‹r.charmap.IndexConsistent›
      obtain ⟨stage, m, escape, comment, firsts⟩ := r
      simp [mapCharmap, consistent.setWidth_eq, Charmap.widenWhere_widenWhere, Bool.beq_eq_decide_eq]
    case vc5 =>
      -- the name is undefined: no character has it, so only the rest are widened
      rintro _ rfl
      have consistent := ‹r.charmap.IndexConsistent›
      have free := ‹¬r.charmap.contains name = true›
      congr 1
      apply Charmap.widenWhere_congr
      intro i e found
      have different : e.name ≠ name := by
        rintro rfl
        have named : e.name ∈ r.charmap.names :=
          List.mem_map.mpr ⟨e, List.mem_of_getElem? (by simpa using found), rfl⟩
        exact free ((consistent.contains_iff e.name).mpr named)
      simp [different]

/-! ### What each WIDTH line does, as settings -/

theorem settingOf_end {escape : Char} {content : List Char}
    (closing : isWordsLine content ["END", "WIDTH"] = true) :
    settingOf escape true content = ([], false) := by
  simp [settingOf, closing]

theorem settingOf_width {escape : Char} {content : List Char} {target : Named}
    {rest : List Char} {width : Nat} (notClosing : ¬isWordsLine content ["END", "WIDTH"] = true)
    (named : readNamed escape content = .ok (target, rest))
    (valued : readWordValue? (trim rest) = some width) :
    settingOf escape true content = ([.width target width], true) := by
  simp [settingOf, notClosing, named, valued]

theorem mapCharmap_eq (r : Reading) (f : Charmap → Charmap) :
    r.mapCharmap f = { r with charmap := f r.charmap } := by
  cases r
  rfl

section Bridges

variable {r : Reading} (widths : r.stage = .widths) (width : Nat)
include widths

/-- Inside a WIDTH section, a line widens the characters its target covers. -/
theorem after_width {target : Named} {picked : Nat → String → Bool}
    (same : ∀ i n, r.charmap.covers target i n = picked i n) :
    r.after ([.width target width], true) =
      { r with charmap := r.charmap.widenWhere picked width } := by
  rw [after, Charmap.withSettings_width]
  congr 1
  · simp [widths]
  · congr 1
    funext i n
    exact same i n

theorem after_one (name : String) :
    r.after ([.width (.one name) width], true) =
      { r with charmap := r.charmap.widenWhere (fun _ n => [name].contains n) width } := by
  refine after_width widths width fun i n => ?_
  simp only [Charmap.covers, List.contains_cons, List.contains_nil, Bool.or_false,
    Bool.beq_eq_decide_eq, eq_comm]

theorem after_between {range : NameRange} {start stop : Nat}
    (first : r.charmap.position? range.first = some start)
    (last : r.charmap.position? range.last = some stop) :
    r.after ([.width (.range range) width], true) =
      r.mapCharmap (·.setWidthsIn start (stop + 1) width) := by
  rw [mapCharmap_eq, Charmap.setWidthsIn_eq]
  refine after_width widths width fun i n => ?_
  simp [Charmap.covers, first, last]

theorem after_expanded {range : NameRange} {expansion : Expansion}
    (undefined : ∀ start stop, r.charmap.position? range.first = some start →
      r.charmap.position? range.last = some stop → False)
    (expanded : range.expand = .ok expansion) :
    r.after ([.width (.range range) width], true) =
      { r with charmap := r.charmap.widenWhere (fun _ n => expansion.names.contains n) width } := by
  refine after_width widths width fun i n => ?_
  -- the equation of a range with an undefined end applies, its side condition being `undefined`
  simp (disch := exact undefined) only [Charmap.covers, expanded]

end Bridges

theorem widthLine_after (r : Reading) (opts : Options) (content : List Char) (line : Nat) :
    ⦃⌜r.stage = .widths ∧ r.charmap.IndexConsistent⌝⦄ r.widthLine opts content line
    ⦃⇓? r' => ⌜r' = r.after (settingOf r.escape true content)⌝⦄ := by
  unfold Reading.widthLine
  mvcgen [atLine, widthFor_widens]
  case vc1 =>
    rename_i closing _ _
    simp [after, settingOf_end closing, Charmap.withSettings_nil]
  case vc3 =>
    rename_i notClosing _ within _ named _ _ valued _ isOne _
    rintro _ rfl
    rw [settingOf_width notClosing named valued, isOne, after_one within.1]
  case vc5 =>
    rename_i notClosing _ within _ named _ _ valued _ isRange _ _ last first _ _
    rw [settingOf_width notClosing named valued, isRange, after_between within.1 _ first last]
  case vc7 =>
    -- a range with an undefined end widens the names it expands to
    rename_i notClosing _ within _ named _ _ valued _ isRange _ _ undefined last first _ expanded _
    rintro _ rfl
    rw [settingOf_width notClosing named valued, isRange,
      after_expanded within.1 _ (fun start stop atFirst atLast =>
        undefined start stop (first.symm.trans atFirst) (last.symm.trans atLast)) expanded]
  all_goals exact ‹r.stage = .widths ∧ r.charmap.IndexConsistent›.2

theorem AfterCharacters.after {r : Reading} (afterCharacters : r.AfterCharacters)
    (made : List WidthSetting × Bool) : (r.after made).AfterCharacters where
  stage := by
    unfold Reading.after
    split <;> simp
  indexed := afterCharacters.indexed.of_names (by simp [Reading.after]) (by simp [Reading.after])

/-- A line that makes no setting and leaves the section as it was changes nothing. -/
theorem after_nil {r : Reading} (stage : r.stage = .trailer ∨ r.stage = .widths) :
    r.after ([], r.stage == .widths) = r := by
  obtain ⟨stage', m, escape, comment, firsts⟩ := r
  simp only at stage
  rcases stage with rfl | rfl <;> simp [after, Charmap.withSettings_nil]

theorem step_after (r : Reading) (opts : Options) (line : Line) :
    ⦃⌜r.AfterCharacters⌝⦄ r.step opts line
    ⦃⇓? r' => ⌜r' = r.after (lineSettings r.escape (r.stage == .widths) line)⌝⦄ := by
  unfold Reading.step
  split
  case h_1 | h_2 =>
    -- blank lines and comments change nothing
    mvcgen
    rename_i kind _ afterCharacters
    simp only [lineSettings, kind]
    exact (after_nil afterCharacters.stage).symm
  case h_3 =>
    -- an alias counts only in the header
    mvcgen
    rename_i name kind _ afterCharacters
    have notHeader : r.stage ≠ .header := by
      rcases afterCharacters.stage with stage | stage <;> simp [stage]
    simp only [lineSettings, kind, if_neg notHeader]
    exact (after_nil afterCharacters.stage).symm
  case h_4 =>
    rename_i text kind
    split
    case h_1 | h_2 =>
      -- past the CHARMAP section the stage is neither the header's nor the characters'
      rename_i stage
      intro log afterCharacters
      rcases afterCharacters.stage with past | past <;> simp [past] at stage
    case h_3 =>
      rename_i trailer
      have made : lineSettings r.escape (r.stage == .widths) line =
          settingOf r.escape false text.toList := by
        simp only [lineSettings, kind, trailer]
        rfl
      rw [made]
      mvcgen [trailerLine_after]
    case h_4 =>
      rename_i widths
      have made : lineSettings r.escape (r.stage == .widths) line =
          settingOf r.escape true text.toList := by
        simp [lineSettings, kind, widths]
      rw [made]
      mvcgen [widthLine_after]
      exact ⟨widths, ‹r.AfterCharacters›.indexed⟩

/-- Ending a reading succeeds only past the CHARMAP section and outside any WIDTH section, and
keeps the charmap, with the escape and comment characters in force. -/
theorem finish_eq (r : Reading) (opts : Options) (lines : Nat) :
    ⦃⌜True⌝⦄ r.finish opts lines
    ⦃⇓? m => ⌜r.stage = .trailer ∧
      m = { r.charmap with escapeChar := r.escape, commentChar := r.comment }⌝⦄ := by
  unfold Reading.finish
  mvcgen [report]

theorem after_stage_widths (r : Reading) (made : List WidthSetting × Bool) :
    ((r.after made).stage == .widths) = made.2 := by
  unfold after
  cases made.2 <;> rfl

/-- The run lemma: a reading past the CHARMAP section returns, if it returns, its charmap after
the settings the remaining lines make, with the escape and comment characters in force. -/
theorem run_after (opts : Options) (r : Reading) (s : Scanner) :
    ⦃⌜r.AfterCharacters⌝⦄ Reading.run opts r s
    ⦃⇓? m => ⌜m = { r.charmap.withSettings
        (widthSettings r.escape (r.stage == .widths) (s.lines r.escape r.comment)) with
      escapeChar := r.escape, commentChar := r.comment }⌝⦄ := by
  fun_induction Reading.run opts r s with
  | case1 r s ended =>
    -- no line is left, so no setting is made
    mvcgen [finish_eq]
    rintro _ _ rfl
    rw [Scanner.lines_eq_nil ended, widthSettings, Charmap.withSettings_nil]
  | case2 r s line rest read inductionHypothesis =>
    -- the line's settings come first, then those of the lines after it
    mvcgen [step_after, inductionHypothesis]
    case vc2 =>
      rename_i afterCharacters _ _ stepped
      rw [stepped]
      exact afterCharacters.after _
    case vc3 =>
      rename_i _ _ _ _ stepped _
      subst stepped
      rintro _ rfl
      rw [Scanner.lines_eq_cons read, widthSettings]
      rw [after_stage_widths]
      simp only [after, Charmap.withSettings_append]

/-! ### Up to the end of the CHARMAP section -/

/-- No width has been given yet: the default width is one, no character has a width, and the
index is in step with the characters. -/
structure Unwidened (r : Reading) : Prop where
  widthDefault : r.charmap.widthDefault = 1
  widths : ∀ e ∈ r.charmap.entries, e.width = none
  indexed : r.charmap.IndexConsistent

theorem Unwidened.of_charmap {r r' : Reading} (unwidened : r.Unwidened)
    (entries : r'.charmap.entries = r.charmap.entries)
    (positions : r'.charmap.positions = r.charmap.positions)
    (widthDefault : r'.charmap.widthDefault = r.charmap.widthDefault) : r'.Unwidened where
  widthDefault := widthDefault.trans unwidened.widthDefault
  widths := entries ▸ unwidened.widths
  indexed := unwidened.indexed.of_names (by simp [Charmap.names, entries]) positions

theorem Unwidened.add {r : Reading} (unwidened : r.Unwidened) {e : Entry}
    (fresh : r.charmap.contains e.name = false) (unset : e.width = none) :
    (r.add e).Unwidened := by
  have added : (r.add e).charmap = r.charmap.push e := by
    rw [add_charmap, Charmap.insert, if_neg (by simp [fresh])]
  refine ⟨?_, ?_, ?_⟩
  · rw [added, Charmap.push, Charmap.modifyIndexed_widthDefault]
    exact unwidened.widthDefault
  · rw [added, Charmap.push_entries]
    intro d member
    rcases Array.mem_push.mp member with old | rfl
    · exact unwidened.widths d old
    · exact unset
  · rw [added]
    exact unwidened.indexed.push fresh

theorem initial_unwidened : initial.Unwidened where
  widthDefault := rfl
  widths := by simp [initial, Charmap.empty]
  indexed := Charmap.indexConsistent_empty

theorem headerLine_unwidened (r : Reading) (opts : Options) (content : List Char) (line : Nat) :
    ⦃⌜r.Unwidened ∧ r.stage = .header⌝⦄ r.headerLine opts content line
    ⦃⇓? r' => ⌜r'.Unwidened ∧ (r'.stage = .header ∨ r'.stage = .characters)⌝⦄ := by
  mvcgen [Reading.headerLine, Reading.recover, atLine, report]
  -- every header line keeps the characters, the index and the default width
  all_goals
    obtain ⟨unwidened, header⟩ := ‹r.Unwidened ∧ r.stage = .header›
    exact ⟨unwidened.of_charmap rfl rfl rfl, by simp [header]⟩

theorem define_unwidened (r : Reading) (opts : Options) (name : String) (bytes : List UInt8)
    (comment : Option String) (line : Nat) :
    ⦃⌜r.Unwidened ∧ r.stage = .characters⌝⦄ r.define opts name bytes comment line
    ⦃⇓? r' => ⌜r'.Unwidened ∧ r'.stage = .characters⌝⦄ := by
  mvcgen [define_cases]
  rename_i _ pre r'
  intro _ outcome
  obtain ⟨unwidened, characters⟩ := pre
  rcases outcome with rfl | ⟨-, fresh, rfl⟩
  · exact ⟨unwidened, characters⟩
  · exact ⟨unwidened.add fresh rfl, (add_stage r _).trans characters⟩

theorem defineRun_unwidened (opts : Options) (range : NameRange) (comment : Option String)
    (line : Nat) (r : Reading) (names : List String) (bytes : List UInt8) :
    ⦃⌜r.Unwidened ∧ r.stage = .characters⌝⦄ defineRun opts range comment line r names bytes
    ⦃⇓? r' => ⌜r'.Unwidened ∧ r'.stage = .characters⌝⦄ := by
  fun_induction defineRun opts range comment line r names bytes with
  | case1 r bytes => mvcgen
  | case2 r name bytes => mvcgen [define_unwidened]
  | case3 r name more bytes _ inductionHypothesis =>
    mvcgen [define_unwidened, inductionHypothesis]

theorem charactersLine_unwidened (r : Reading) (opts : Options) (content : List Char)
    (line : Nat) :
    ⦃⌜r.Unwidened ∧ r.stage = .characters⌝⦄ r.charactersLine opts content line
    ⦃⇓? r' => ⌜r'.Unwidened ∧ (r'.stage = .characters ∨ r'.stage = .trailer)⌝⦄ := by
  mvcgen [Reading.charactersLine, atLine, define_unwidened, defineRun_unwidened]
  case vc1 => exact ⟨‹r.Unwidened ∧ r.stage = .characters›.1.of_charmap rfl rfl rfl, by simp⟩
  all_goals exact fun _ unwidened characters => ⟨unwidened, .inl characters⟩

theorem step_unwidened (r : Reading) (opts : Options) (line : Line) :
    ⦃⌜r.Unwidened ∧ (r.stage = .header ∨ r.stage = .characters)⌝⦄ r.step opts line
    ⦃⇓? r' => ⌜r'.Unwidened ∧ r'.stage ≠ .widths⌝⦄ := by
  unfold Reading.step
  split
  case h_1 | h_2 =>
    mvcgen
    rename_i _ _ pre
    exact ⟨pre.1, by rcases pre.2 with stage | stage <;> simp [stage]⟩
  case h_3 =>
    mvcgen
    rename_i _ _ _ pre
    have early : r.stage ≠ .widths := by rcases pre.2 with stage | stage <;> simp [stage]
    split
    · exact ⟨pre.1.of_charmap (by simp) (by simp) (by simp), by simpa using early⟩
    · exact ⟨pre.1, early⟩
  case h_4 =>
    split
    case h_1 =>
      rename_i header
      mvcgen [headerLine_unwidened]
      case vc1 => exact ⟨‹r.Unwidened ∧ _›.1, header⟩
      case vc2 =>
        rintro _ unwidened stage
        exact ⟨unwidened, by rcases stage with stage | stage <;> simp [stage]⟩
    case h_2 =>
      rename_i characters
      mvcgen [charactersLine_unwidened]
      case vc1 => exact ⟨‹r.Unwidened ∧ _›.1, characters⟩
      case vc2 =>
        rintro _ unwidened stage
        exact ⟨unwidened, by rcases stage with stage | stage <;> simp [stage]⟩
    case h_3 | h_4 =>
      -- before the end of the CHARMAP section the stage is the header's or the characters'
      rename_i stage
      intro log pre
      rcases pre.2 with early | early <;> simp [early] at stage

/-- Up to the end of the CHARMAP section no width is given; the run stops there, or where the
lines run out. -/
theorem untilTrailer_unwidened (opts : Options) (r : Reading) (s : Scanner) :
    ⦃⌜r.Unwidened ∧ (r.stage = .header ∨ r.stage = .characters)⌝⦄ r.untilTrailer opts s
    ⦃⇓? reached => ⌜reached.1.Unwidened ∧
      (reached.1.stage = .trailer ∨ reached.2.next? reached.1.escape reached.1.comment = none)⌝⦄ := by
  fun_induction untilTrailer opts r s with
  | case1 r s ended =>
    mvcgen
    exact ⟨‹r.Unwidened ∧ _›.1, .inr ended⟩
  | case2 r s line rest read inductionHypothesis =>
    mvcgen [step_unwidened, inductionHypothesis]
    case vc2 =>
      rename_i trailer _ stepped
      exact ⟨stepped.1, .inl trailer⟩
    case vc3 =>
      -- a stage that is neither past the section nor in a WIDTH section is an early one
      rename_i r' notTrailer _ stepped
      refine ⟨stepped.1, ?_⟩
      cases stage : r'.stage with
      | header => exact .inl rfl
      | characters => exact .inr rfl
      | trailer => exact absurd stage notTrailer
      | widths => exact absurd stage stepped.2

end Reading

/-! ### Whole readings -/

/-- A run of `x >>= f` that succeeds runs `x` to success, then `f` on its value. -/
theorem Logged.runFrom_bind_ok {α β : Type} {x : Logged α} {f : α → Logged β} {b : β}
    {log log'' : Array Diagnostic} (ran : (x >>= f).runFrom log = (.ok b, log'')) :
    ∃ a log', x.runFrom log = (.ok a, log') ∧ (f a).runFrom log' = (.ok b, log'') := by
  simp only [Logged.runFrom, ExceptT.run_bind, StateT.run_bind] at ran ⊢
  rcases outcome : (ExceptT.run x).run log with ⟨_ | a, middle⟩
  · rw [outcome] at ran
    cases ran
  · rw [outcome] at ran
    exact ⟨a, middle, rfl, ran⟩

/-- What a triple promises of a logged computation holds of the value a run from any log
succeeds with. -/
theorem Logged.of_triple_from {α : Type} {x : Logged α} {pre : Prop} {P : α → Prop} {a : α}
    {log log' : Array Diagnostic} (spec : ⦃⌜pre⌝⦄ x ⦃⇓? a => ⌜P a⌝⦄) (holds : pre)
    (ran : x.runFrom log = (.ok a, log')) : P a := by
  have outcome := Logged.outcome_from_triple spec holds log
  rw [ran] at outcome
  exact outcome

/-- A charmap that reads successfully is its charmap as it stood at `END CHARMAP`, where no width
has been given yet, with the escape and comment characters in force there; each character's
width is the one the last WIDTH line covering it gives, none if no line does, and the default
width the one the last `WIDTH_DEFAULT` line gives, or one. The width of a name is its character's
width, or else the default. -/
theorem Charmap.parse_width_sections {text : String} {opts : Options} {m : Charmap}
    {log : Array Diagnostic} (parsed : (Charmap.parse text opts).run = (.ok m, log)) :
    ∃ r s log', (Reading.initial.untilTrailer opts (Scanner.start text)).run = (.ok (r, s), log') ∧
      r.stage = .trailer ∧ r.charmap.widthDefault = 1 ∧ (∀ e ∈ r.charmap.entries, e.width = none) ∧
      let settings := widthSettings r.escape false (s.lines r.escape r.comment)
      m = { r.charmap with
        escapeChar := r.escape
        commentChar := r.comment
        entries := r.charmap.entries.mapIdx fun i e =>
          { e with width := lastWidth r.charmap settings i e.name }
        widthDefault := (lastDefault settings).getD 1 } ∧
      ∀ name, m.widthOf? name =
        (m.entries.toList.find? (·.name == name)).map fun e => e.width.getD m.widthDefault := by
  have consistent := Charmap.indexConsistent_of_parse parsed
  have ran : (Reading.initial.run opts (Scanner.start text) ).runFrom #[] = (.ok m, log) := parsed
  rw [Reading.run_eq_untilTrailer] at ran
  obtain ⟨⟨r, s⟩, log', reached, rest⟩ := Logged.runFrom_bind_ok ran
  have early := Logged.of_triple_from (Reading.untilTrailer_unwidened opts _ _)
    ⟨Reading.initial_unwidened, .inl rfl⟩ reached
  -- the run stops at END CHARMAP; had the lines run out before, the reading could not end
  have trailer : r.stage = .trailer := by
    rcases early.2 with trailer | ended
    · exact trailer
    · rw [Reading.run, ended] at rest
      exact (Logged.of_triple_from (Reading.finish_eq r opts _) trivial rest).1
  have final := Logged.of_triple_from (Reading.run_after opts r s)
    ⟨.inl trailer, early.1.indexed⟩ rest
  refine ⟨r, s, log', reached, trailer, early.1.widthDefault, early.1.widths, ?_,
    consistent.widthOf?_eq⟩
  have notWidths : (Stage.trailer == Stage.widths) = false := rfl
  rw [final, trailer, notWidths,
    ← Charmap.withSettings_entries_of_unset r.charmap _ early.1.widths, ← early.1.widthDefault]
  rfl

/-- In the sample charmap the first character takes the width of the WIDTH range, the second the
later width given to it alone, and the third, which no WIDTH line covers, the default width. -/
theorem Charmap.parse_width_sections_sample :
    ∃ m log, (Charmap.parse Charmap.sampleSource ⟨false, false⟩).run = (.ok m, log) ∧
      m.widthOf? "U0041" = some 3 ∧ m.widthOf? "U00C5" = some 2 ∧
      m.widthOf? "U00000041" = some 2 ∧ m.widthOf? "U0042" = none := by
  obtain ⟨m, log, parsed⟩ : ∃ m log,
      (Charmap.parse Charmap.sampleSource ⟨false, false⟩).run = (.ok m, log) :=
    ⟨_, _, Charmap.parse_sampleSource false⟩
  refine ⟨m, log, parsed, ?_⟩
  obtain ⟨r, s, log', reached, -, -, -, shape, widths⟩ := Charmap.parse_width_sections parsed
  -- the run to END CHARMAP is known, and with it the reading there and the lines after it
  obtain ⟨s', lines, cut⟩ := Reading.untilTrailer_sampleSource ⟨false, false⟩
  rw [cut, Logged.run_report_pure, Prod.mk.injEq, Except.ok.injEq, Prod.mk.injEq] at reached
  obtain ⟨⟨rfl, rfl⟩, -⟩ := reached
  have settings : widthSettings '\\' false (s'.lines '\\' '#') =
      [.default 2, .width (.range ⟨"U0041", "U00C5", .hex⟩) 3, .width (.one "U00C5") 2] := by
    rw [lines]
    decide +kernel
  dsimp only at shape
  rw [settings] at shape
  subst shape
  simp only [widths]
  -- the range is read through the name index, which the kernel cannot hash: look it up first
  simp only [lastWidth, List.reverse_cons, List.reverse_nil, List.nil_append,
    List.cons_append, List.findSome?_cons, WidthSetting.widthAt, Charmap.covers,
    Charmap.position?, Std.HashMap.getElem?_insert]
  decide

end LocaleCharmap
