import Mathlib
import LocaleCharmap.Proofs.Reading
/-!
# The name index of a charmap

A charmap keeps its characters twice: as the list of entries in definition order, which is what
it means, and as a map from names to positions, which answers lookups. The two agree when every
name is indexed at the position of the one entry that has it and nothing else is indexed
(`Charmap.IndexConsistent`).

Every change a user of the store can make (`Charmap.Change`: adding a character, giving one
character or a run of characters a width, setting the default width) keeps the two in step, and
so does every line a reading takes. On a charmap whose index agrees, names are distinct, and
`find?`, `contains` and `widthOf?` answer what a search through the entries answers. Adding a
character whose name is taken changes nothing and says so; adding any other appends it.
-/

namespace LocaleCharmap

open LocaleCharmap.Source Std.Do

set_option mvcgen.warning false

namespace Charmap

/-- The index agrees with the entries: a name is indexed at a position exactly when the entry
there has that name. -/
def IndexConsistent (m : Charmap) : Prop :=
  ∀ name i, m.position? name = some i ↔ m.names[i]? = some name

/-! ### The store's operations, seen through the names -/

theorem length_names (m : Charmap) : m.names.length = m.size := by
  simp [names, size]

@[simp] theorem names_push (m : Charmap) (e : Entry) : (m.push e).names = m.names ++ [e.name] := by
  simp [names]

theorem position?_push (m : Charmap) (e : Entry) (name : String) :
    (m.push e).position? name = if e.name = name then some m.size else m.position? name := by
  simp only [position?, push_positions, Std.HashMap.getElem?_insert, beq_iff_eq, size]

@[simp] theorem names_setWidth (m : Charmap) (name : String) (width : Nat) :
    (m.setWidth name width).names = m.names :=
  names_eq_of_definitions_eq (setWidth_definitions m name width)

@[simp] theorem names_setWidthsIn (m : Charmap) (start stop width : Nat) :
    (m.setWidthsIn start stop width).names = m.names :=
  names_eq_of_definitions_eq (setWidthsIn_definitions m start stop width)

theorem setWidthBetween_snd (m : Charmap) (first last : String) (width : Nat) :
    (m.setWidthBetween first last width).2 = m ∨
      ∃ start stop, (m.setWidthBetween first last width).2 = m.setWidthsIn start stop width := by
  unfold setWidthBetween
  split
  · split
    · exact .inr ⟨_, _, rfl⟩
    · exact .inl rfl
  · exact .inl rfl

/-- A position holds a name after one more is appended exactly when it held it before, or it is
the new last position and the name is the one appended. -/
theorem getElem?_append_singleton_eq_some {l : List String} {a b : String} {i : Nat} :
    (l ++ [a])[i]? = some b ↔ l[i]? = some b ∨ (i = l.length ∧ a = b) := by
  rw [List.getElem?_append]
  split
  · rename_i below
    have other : i ≠ l.length := by omega
    simp [other]
  · rename_i above
    rw [List.getElem?_singleton, List.getElem?_eq_none (by omega)]
    constructor
    · intro found
      split at found
      · exact .inr ⟨by omega, Option.some_inj.mp found⟩
      · cases found
    · rintro (found | ⟨rfl, rfl⟩)
      · cases found
      · simp

/-! ### Keeping the index in step -/

namespace IndexConsistent

variable {m : Charmap} (consistent : m.IndexConsistent)
include consistent

/-- A charmap with the same names and the same index agrees as well. -/
theorem of_names {m' : Charmap} (names : m'.names = m.names)
    (positions : m'.positions = m.positions) :
    m'.IndexConsistent := by
  intro name i
  rw [position?, positions, names]
  exact consistent name i

theorem contains_iff (name : String) : m.contains name = true ↔ name ∈ m.names := by
  rw [contains, Std.HashMap.contains_eq_isSome_getElem?, Option.isSome_iff_exists,
    List.mem_iff_getElem?]
  exact exists_congr fun i => consistent name i

/-- Appending a character whose name is free keeps the index in step. -/
theorem push {e : Entry} (fresh : m.contains e.name = false) : (m.push e).IndexConsistent := by
  have unnamed : e.name ∉ m.names := by
    rw [← consistent.contains_iff, fresh]
    exact Bool.false_ne_true
  intro name i
  rw [position?_push, names_push, getElem?_append_singleton_eq_some, length_names]
  by_cases same : e.name = name
  · -- the new name sits at the old size and nowhere before
    subst same
    have notBefore : m.names[i]? ≠ some e.name := fun found =>
      unnamed (List.mem_of_getElem? found)
    simp [notBefore, eq_comm]
  · rw [if_neg same, consistent name i]
    simp [same]

/-- Distinct positions hold distinct names. -/
theorem nodup : m.names.Nodup := by
  refine List.nodup_iff_getElem?_ne_getElem?.mpr fun i j before inside same => ?_
  have named : m.names[i]? = some m.names[i] := List.getElem?_eq_getElem _
  have atI := (consistent _ i).mpr named
  have atJ := (consistent _ j).mpr (same ▸ named)
  rw [atI, Option.some_inj] at atJ
  omega

/-- Looking a name up through the index finds what a search through the entries finds. -/
theorem find?_eq (name : String) :
    m.find? name = m.entries.toList.find? (·.name == name) := by
  cases indexed : m.position? name with
  | none =>
    -- no entry has the name, so the search finds nothing either
    rw [find?, indexed, Option.bind_none, eq_comm, List.find?_eq_none]
    intro e member same
    have named : name ∈ m.names := List.mem_map.mpr ⟨e, member, by simpa using same⟩
    obtain ⟨i, found⟩ := List.mem_iff_getElem?.mp named
    rw [← consistent name i, indexed] at found
    contradiction
  | some i =>
    have found := (consistent name i).mp indexed
    simp only [names, List.getElem?_map, Option.map_eq_some_iff] at found
    obtain ⟨e, atI, named⟩ := found
    rw [find?, indexed, Option.bind_some, Array.getElem?_toList.symm.trans atI]
    symm
    -- the entry at the indexed position is the first with the name: an earlier one would be
    -- indexed too
    obtain ⟨inside, atI⟩ := List.getElem?_eq_some_iff.mp atI
    refine List.find?_eq_some_iff_getElem.mpr
      ⟨by simpa using named, i, inside, atI, fun j before => ?_⟩
    simp only [Bool.not_eq_eq_eq_not, Bool.not_true, beq_eq_false_iff_ne]
    intro same
    have atJ : m.names[j]? = some name := by
      rw [names, List.getElem?_map, List.getElem?_eq_getElem (Nat.lt_trans before inside),
        Option.map_some, same]
    rw [← consistent name j, indexed, Option.some_inj] at atJ
    omega

theorem contains_eq (name : String) :
    m.contains name = m.entries.toList.any (·.name == name) := by
  rw [Bool.eq_iff_iff, consistent.contains_iff, List.any_eq_true]
  simp [names]

theorem widthOf?_eq (name : String) :
    m.widthOf? name =
      (m.entries.toList.find? (·.name == name)).map (·.width.getD m.widthDefault) := by
  rw [widthOf?, consistent.find?_eq]

end IndexConsistent

theorem indexConsistent_empty : empty.IndexConsistent := by
  intro name i
  simp [position?, names, empty]

/-! ### Adding a character -/

/-- Adding a character whose name is taken changes nothing and tells so; this is the only way it
gives `false`. -/
theorem insertNew_eq_false_iff {m : Charmap} (consistent : m.IndexConsistent) (e : Entry) :
    m.insertNew e = (false, m) ↔ ∃ d ∈ m.entries, d.name = e.name := by
  have taken : (∃ d ∈ m.entries, d.name = e.name) ↔ m.contains e.name = true := by
    rw [consistent.contains_iff]
    simp [names]
  rw [taken, insertNew]
  split
  · exact iff_of_true rfl ‹_›
  · exact iff_of_false (by simp) ‹_›

/-- Adding a character with a free name appends it, indexed at the old size, and tells so. -/
theorem insertNew_of_free {m : Charmap} (consistent : m.IndexConsistent) {e : Entry}
    (free : ∀ d ∈ m.entries, d.name ≠ e.name) :
    m.insertNew e = (true,
      { m with
        entries := m.entries.push e
        positions := m.positions.insert e.name m.size }) := by
  have fresh : m.contains e.name = false := by
    rw [Bool.eq_false_iff, ne_eq, consistent.contains_iff]
    simpa [names] using free
  rw [insertNew, if_neg (by simp [fresh])]
  cases m
  rfl

/-! ### Runs of changes -/

/-- A change a user of the store makes. Queries change nothing and are left out. -/
inductive Change where
  /-- Adds a character unless its name is taken. -/
  | insert (e : Entry)
  /-- Gives the character with this name a width. -/
  | setWidth (name : String) (width : Nat)
  /-- Gives the characters from one name to another, in definition order, a width. -/
  | setWidthBetween (first last : String) (width : Nat)
  /-- Sets the width of characters that have none. -/
  | setWidthDefault (width : Nat)

/-- Makes a change. -/
def apply (m : Charmap) : Change → Charmap
  | .insert e => (m.insertNew e).2
  | .setWidth name width => m.setWidth name width
  | .setWidthBetween first last width => (m.setWidthBetween first last width).2
  | .setWidthDefault width => { m with widthDefault := width }

/-- The charmap a run of changes makes from the empty one. -/
def ofChanges (changes : List Change) : Charmap :=
  changes.foldl apply empty

/-- Every change keeps the index in step with the entries. -/
theorem IndexConsistent.apply {m : Charmap} (consistent : m.IndexConsistent) :
    ∀ change, (m.apply change).IndexConsistent
  | .insert e => by
    simp only [Charmap.apply, insertNew]
    split
    · exact consistent
    · exact consistent.push (Bool.eq_false_iff.mpr ‹_›)
  | .setWidth name width => consistent.of_names (names_setWidth ..) (setWidth_positions ..)
  | .setWidthBetween first last width => by
    rcases setWidthBetween_snd m first last width with same | ⟨start, stop, widened⟩
    · rw [Charmap.apply, same]
      exact consistent
    · rw [Charmap.apply, widened]
      exact consistent.of_names (names_setWidthsIn ..) (setWidthsIn_positions ..)
  | .setWidthDefault width => consistent.of_names rfl rfl

theorem indexConsistent_foldl_apply {m : Charmap} (consistent : m.IndexConsistent)
    (changes : List Change) : (changes.foldl apply m).IndexConsistent := by
  induction changes generalizing m with
  | nil => exact consistent
  | cons change rest inductionHypothesis =>
    exact inductionHypothesis (consistent.apply change)

theorem indexConsistent_ofChanges (changes : List Change) : (ofChanges changes).IndexConsistent :=
  indexConsistent_foldl_apply indexConsistent_empty changes

end Charmap

/-! ### What a reading does to the index

A reading changes the entries of its charmap only by adding characters with free names and by
giving characters widths; every other line changes fields the index does not depend on. -/

namespace Reading

theorem headerLine_indexConsistent (r : Reading) (opts : Options) (content : List Char)
    (line : Nat) :
    ⦃⌜r.charmap.IndexConsistent⌝⦄ r.headerLine opts content line
    ⦃⇓? r' => ⌜r'.charmap.IndexConsistent⌝⦄ := by
  -- no header line touches the entries or the index
  mvcgen [Reading.headerLine, Reading.recover, atLine, report]

theorem define_indexConsistent (r : Reading) (opts : Options) (name : String)
    (bytes : List UInt8) (comment : Option String) (line : Nat) :
    ⦃⌜r.charmap.IndexConsistent⌝⦄ r.define opts name bytes comment line
    ⦃⇓? r' => ⌜r'.charmap.IndexConsistent⌝⦄ := by
  mvcgen [define_cases]
  rename_i _ consistent r'
  intro _ outcome
  rcases outcome with rfl | ⟨-, fresh, rfl⟩
  · exact consistent
  · rw [add_charmap, Charmap.insert, if_neg (by simp [fresh])]
    exact consistent.push fresh

theorem defineRun_indexConsistent (opts : Options) (range : NameRange) (comment : Option String)
    (line : Nat) (r : Reading) (names : List String) (bytes : List UInt8) :
    ⦃⌜r.charmap.IndexConsistent⌝⦄ defineRun opts range comment line r names bytes
    ⦃⇓? r' => ⌜r'.charmap.IndexConsistent⌝⦄ := by
  fun_induction defineRun opts range comment line r names bytes with
  | case1 r bytes => mvcgen
  | case2 r name bytes => mvcgen [define_indexConsistent]
  | case3 r name more bytes _ inductionHypothesis =>
    mvcgen [define_indexConsistent, inductionHypothesis]

theorem charactersLine_indexConsistent (r : Reading) (opts : Options) (content : List Char)
    (line : Nat) :
    ⦃⌜r.charmap.IndexConsistent⌝⦄ r.charactersLine opts content line
    ⦃⇓? r' => ⌜r'.charmap.IndexConsistent⌝⦄ := by
  mvcgen [Reading.charactersLine, atLine, define_indexConsistent, defineRun_indexConsistent]

theorem trailerLine_indexConsistent (r : Reading) (opts : Options) (content : List Char)
    (line : Nat) :
    ⦃⌜r.charmap.IndexConsistent⌝⦄ r.trailerLine opts content line
    ⦃⇓? r' => ⌜r'.charmap.IndexConsistent⌝⦄ := by
  unfold Reading.trailerLine
  mvcgen [Reading.recover, report]

theorem widthFor_indexConsistent (opts : Options) (width line : Nat) (r : Reading)
    (names : List String) :
    ⦃⌜r.charmap.IndexConsistent⌝⦄ widthFor opts width line r names
    ⦃⇓? r' => ⌜r'.charmap.IndexConsistent⌝⦄ := by
  induction names generalizing r with
  | nil => mvcgen [widthFor]
  | cons name more inductionHypothesis =>
    mvcgen [widthFor, Reading.recover, report, inductionHypothesis]
    rw [mapCharmap_charmap]
    exact ‹r.charmap.IndexConsistent›.of_names (by simp) (by simp)

theorem widthLine_indexConsistent (r : Reading) (opts : Options) (content : List Char)
    (line : Nat) :
    ⦃⌜r.charmap.IndexConsistent⌝⦄ r.widthLine opts content line
    ⦃⇓? r' => ⌜r'.charmap.IndexConsistent⌝⦄ := by
  unfold Reading.widthLine
  mvcgen [atLine, widthFor_indexConsistent]
  all_goals exact ‹r.charmap.IndexConsistent›.of_names (by simp) (by simp)

theorem step_indexConsistent (r : Reading) (opts : Options) (line : Line) :
    ⦃⌜r.charmap.IndexConsistent⌝⦄ r.step opts line
    ⦃⇓? r' => ⌜r'.charmap.IndexConsistent⌝⦄ := by
  unfold Reading.step
  mvcgen [headerLine_indexConsistent, charactersLine_indexConsistent,
    trailerLine_indexConsistent, widthLine_indexConsistent]
  -- an alias line changes only the list of aliases
  split
  · exact ‹r.charmap.IndexConsistent›.of_names (by simp [Charmap.names]) (by simp)
  · exact ‹r.charmap.IndexConsistent›

theorem run_indexConsistent (opts : Options) (r : Reading) (s : Scanner) :
    ⦃⌜r.charmap.IndexConsistent⌝⦄ Reading.run opts r s
    ⦃⇓? m => ⌜m.IndexConsistent⌝⦄ := by
  fun_induction Reading.run opts r s with
  | case1 r s _ =>
    unfold Reading.finish
    mvcgen [report]
  | case2 r s line rest _ inductionHypothesis =>
    mvcgen [step_indexConsistent, inductionHypothesis]

end Reading

namespace Charmap

/-- What a charmap promises the users of its store: distinct names, an index that holds each name
at the position of its entry and nothing else, lookups that answer what a search through the
entries answers, and an insertion that changes nothing exactly when the name is taken and
otherwise appends the character, indexed at the old size. -/
structure StoreContract (m : Charmap) : Prop where
  distinct : m.names.Nodup
  position?_iff : ∀ name i, m.position? name = some i ↔ m.names[i]? = some name
  find?_eq : ∀ name, m.find? name = m.entries.toList.find? (·.name == name)
  contains_eq : ∀ name, m.contains name = m.entries.toList.any (·.name == name)
  widthOf?_eq : ∀ name,
    m.widthOf? name = (m.entries.toList.find? (·.name == name)).map (·.width.getD m.widthDefault)
  insertNew_eq_false_iff : ∀ e, m.insertNew e = (false, m) ↔ ∃ d ∈ m.entries, d.name = e.name
  insertNew_of_free : ∀ e, (∀ d ∈ m.entries, d.name ≠ e.name) →
    m.insertNew e = (true,
      { m with
        entries := m.entries.push e
        positions := m.positions.insert e.name m.size })

theorem IndexConsistent.storeContract {m : Charmap} (consistent : m.IndexConsistent) :
    m.StoreContract where
  distinct := consistent.nodup
  position?_iff := consistent
  find?_eq := consistent.find?_eq
  contains_eq := consistent.contains_eq
  widthOf?_eq := consistent.widthOf?_eq
  insertNew_eq_false_iff := insertNew_eq_false_iff consistent
  insertNew_of_free _ free := insertNew_of_free consistent free

end Charmap

/-- The charmap a successful reading returns keeps its index in step with its entries. -/
theorem Charmap.indexConsistent_of_parse {text : String} {opts : Options} {m : Charmap}
    {log : Array Diagnostic} (parsed : (Charmap.parse text opts).run = (.ok m, log)) :
    m.IndexConsistent := by
  refine Logged.of_triple ?_ parsed
  mvcgen [Charmap.parse, Reading.run_indexConsistent]
  exact Charmap.indexConsistent_empty

/-- Every charmap made by a run of store changes from the empty one, and every charmap a reading
returns, keeps the store's promises. -/
theorem Charmap.storeContract_of_built {m : Charmap}
    (built : (∃ changes, m = Charmap.ofChanges changes) ∨
      ∃ text opts log, (Charmap.parse text opts).run = (.ok m, log)) :
    m.StoreContract := by
  rcases built with ⟨changes, rfl⟩ | ⟨text, opts, log, parsed⟩
  · exact (Charmap.indexConsistent_ofChanges changes).storeContract
  · exact (Charmap.indexConsistent_of_parse parsed).storeContract

/-- A character added, given a width, and then added again under the same name. -/
theorem Charmap.storeContract_of_built_insert_twice :
    ((∃ changes, Charmap.ofChanges [.insert ⟨"A", [0x41], some 0x41, none, none⟩,
        .setWidth "A" 2, .insert ⟨"A", [0x61], some 0x41, none, none⟩] =
          Charmap.ofChanges changes) ∨
      ∃ text opts log, (Charmap.parse text opts).run = (.ok (Charmap.ofChanges
        [.insert ⟨"A", [0x41], some 0x41, none, none⟩, .setWidth "A" 2,
          .insert ⟨"A", [0x61], some 0x41, none, none⟩]), log)) ∧
    (Charmap.ofChanges [.insert ⟨"A", [0x41], some 0x41, none, none⟩, .setWidth "A" 2,
      .insert ⟨"A", [0x61], some 0x41, none, none⟩]).StoreContract :=
  ⟨.inl ⟨_, rfl⟩, Charmap.storeContract_of_built (.inl ⟨_, rfl⟩)⟩

end LocaleCharmap
