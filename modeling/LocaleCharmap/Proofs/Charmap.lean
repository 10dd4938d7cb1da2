import Mathlib
import LocaleCharmap.Charmap.Basic
import LocaleCharmap.Source.Range
/-!
# The charmap store

Every change to a charmap goes through `modifyIndexed`, which replaces the entries and the name
index and keeps the header fields. Adding a character appends it and indexes its name; giving
characters a width changes nothing but their widths. This file states those facts once, so that
the proofs about readings and tables never unfold the store.
-/

namespace LocaleCharmap

open LocaleCharmap.Source

/-- What a character is apart from its display width: its name, bytes, scalar value and
comment. -/
def Entry.definition (e : Entry) : String × List UInt8 × Option Nat × Option String :=
  (e.name, e.bytes, e.scalar, e.comment)

@[simp] theorem Entry.definition_withWidth (e : Entry) (width : Option Nat) :
    ({ e with width := width } : Entry).definition = e.definition := rfl

namespace Charmap

/-- The widths a charmap may declare: `1 ≤ mb_cur_min ≤ mb_cur_max ≤ 16`. -/
def WidthsValid (m : Charmap) : Prop :=
  1 ≤ m.mbCurMin ∧ m.mbCurMin ≤ m.mbCurMax ∧ m.mbCurMax ≤ 16

/-- A character fits a charmap when its encoding has a length within the widths and its scalar
value is the one its name spells. -/
def Fits (m : Charmap) (e : Entry) : Prop :=
  m.mbCurMin ≤ e.bytes.length ∧ e.bytes.length ≤ m.mbCurMax ∧ e.scalar = scalarOfName e.name

theorem fits_of_definition_eq {m : Charmap} {d e : Entry} (same : d.definition = e.definition)
    (fits : m.Fits e) : m.Fits d := by
  simp only [Entry.definition, Prod.mk.injEq] at same
  obtain ⟨name, bytes, scalar, -⟩ := same
  unfold Fits
  rw [name, bytes, scalar]
  exact fits

/-! ### Updates through `modifyIndexed` -/

section modifyIndexed

variable (m : Charmap)
  (f : Array Entry → Std.HashMap String Nat → Array Entry × Std.HashMap String Nat)

@[simp] theorem modifyIndexed_entries :
    (m.modifyIndexed f).entries = (f m.entries m.positions).1 := by
  cases m; rfl

@[simp] theorem modifyIndexed_positions :
    (m.modifyIndexed f).positions = (f m.entries m.positions).2 := by
  cases m; rfl

@[simp] theorem modifyIndexed_mbCurMin : (m.modifyIndexed f).mbCurMin = m.mbCurMin := by
  cases m; rfl

@[simp] theorem modifyIndexed_mbCurMax : (m.modifyIndexed f).mbCurMax = m.mbCurMax := by
  cases m; rfl

@[simp] theorem modifyIndexed_widthDefault : (m.modifyIndexed f).widthDefault = m.widthDefault := by
  cases m; rfl

end modifyIndexed

@[simp] theorem push_entries (m : Charmap) (e : Entry) : (m.push e).entries = m.entries.push e := by
  simp [push]

@[simp] theorem push_positions (m : Charmap) (e : Entry) :
    (m.push e).positions = m.positions.insert e.name m.entries.size := by
  simp [push]

@[simp] theorem push_mbCurMin (m : Charmap) (e : Entry) : (m.push e).mbCurMin = m.mbCurMin := by
  simp [push]

@[simp] theorem push_mbCurMax (m : Charmap) (e : Entry) : (m.push e).mbCurMax = m.mbCurMax := by
  simp [push]

@[simp] theorem modifyEntries_entries (m : Charmap) (f : Array Entry → Array Entry) :
    (m.modifyEntries f).entries = f m.entries := by
  simp [modifyEntries]

@[simp] theorem modifyEntries_positions (m : Charmap) (f : Array Entry → Array Entry) :
    (m.modifyEntries f).positions = m.positions := by
  simp [modifyEntries]

@[simp] theorem modifyEntries_mbCurMin (m : Charmap) (f : Array Entry → Array Entry) :
    (m.modifyEntries f).mbCurMin = m.mbCurMin := by
  simp [modifyEntries]

@[simp] theorem modifyEntries_mbCurMax (m : Charmap) (f : Array Entry → Array Entry) :
    (m.modifyEntries f).mbCurMax = m.mbCurMax := by
  simp [modifyEntries]

@[simp] theorem addAlias_entries (m : Charmap) (name : String) :
    (m.addAlias name).entries = m.entries := by
  cases m; rfl

@[simp] theorem addAlias_positions (m : Charmap) (name : String) :
    (m.addAlias name).positions = m.positions := by
  cases m; rfl

@[simp] theorem addAlias_mbCurMin (m : Charmap) (name : String) :
    (m.addAlias name).mbCurMin = m.mbCurMin := by
  cases m; rfl

@[simp] theorem addAlias_mbCurMax (m : Charmap) (name : String) :
    (m.addAlias name).mbCurMax = m.mbCurMax := by
  cases m; rfl

/-! ### Width updates keep every definition -/

theorem map_modify_of_comp {α β : Type} (g : α → β) (f : α → α)
    (keeps : ∀ a, g (f a) = g a) (l : List α) (i : Nat) : (l.modify i f).map g = l.map g := by
  refine List.ext_getElem? fun j => ?_
  rw [List.getElem?_map, List.getElem?_map, List.getElem?_modify]
  cases l[j]? with
  | none => rfl
  | some a => by_cases same : i = j <;> simp [same, keeps]

theorem widenAt_definitions (width : Nat) (entries : Array Entry) (i : Nat) :
    (widenAt width entries i).toList.map Entry.definition =
      entries.toList.map Entry.definition := by
  rw [widenAt, Array.toList_modify]
  exact map_modify_of_comp _ _ (fun e => Entry.definition_withWidth e _) _ _

theorem setWidth_definitions (m : Charmap) (name : String) (width : Nat) :
    (m.setWidth name width).entries.toList.map Entry.definition =
      m.entries.toList.map Entry.definition := by
  unfold setWidth
  split
  · rw [modifyEntries_entries, widenAt_definitions]
  · rfl

theorem setWidthsIn_definitions (m : Charmap) (start stop width : Nat) :
    (m.setWidthsIn start stop width).entries.toList.map Entry.definition =
      m.entries.toList.map Entry.definition := by
  rw [setWidthsIn, modifyEntries_entries]
  -- the run of positions is folded from the left; each step keeps the definitions
  generalize m.entries = entries
  induction List.range (stop - start) generalizing entries with
  | nil => rfl
  | cons k rest inductionHypothesis =>
    rw [List.foldl_cons, inductionHypothesis, widenAt_definitions]

@[simp] theorem setWidth_positions (m : Charmap) (name : String) (width : Nat) :
    (m.setWidth name width).positions = m.positions := by
  unfold setWidth
  split <;> simp

@[simp] theorem setWidth_mbCurMin (m : Charmap) (name : String) (width : Nat) :
    (m.setWidth name width).mbCurMin = m.mbCurMin := by
  unfold setWidth
  split <;> simp

@[simp] theorem setWidth_mbCurMax (m : Charmap) (name : String) (width : Nat) :
    (m.setWidth name width).mbCurMax = m.mbCurMax := by
  unfold setWidth
  split <;> simp

@[simp] theorem setWidthsIn_positions (m : Charmap) (start stop width : Nat) :
    (m.setWidthsIn start stop width).positions = m.positions := by
  simp [setWidthsIn]

@[simp] theorem setWidthsIn_mbCurMin (m : Charmap) (start stop width : Nat) :
    (m.setWidthsIn start stop width).mbCurMin = m.mbCurMin := by
  simp [setWidthsIn]

@[simp] theorem setWidthsIn_mbCurMax (m : Charmap) (start stop width : Nat) :
    (m.setWidthsIn start stop width).mbCurMax = m.mbCurMax := by
  simp [setWidthsIn]

/-- Entries whose definitions agree list the same names. -/
theorem names_eq_of_definitions_eq {m m' : Charmap}
    (same : m'.entries.toList.map Entry.definition = m.entries.toList.map Entry.definition) :
    m'.names = m.names := by
  have firsts := congrArg (List.map Prod.fst) same
  simp only [List.map_map, Function.comp_def, Entry.definition] at firsts
  exact firsts

/-- A character of `m'` has the definition of a character of `m` when their definitions agree. -/
theorem exists_of_definitions_eq {m m' : Charmap}
    (same : m'.entries.toList.map Entry.definition = m.entries.toList.map Entry.definition)
    {d : Entry} (member : d ∈ m'.entries) : ∃ e ∈ m.entries, d.definition = e.definition := by
  have mapped : d.definition ∈ m.entries.toList.map Entry.definition := by
    rw [← same]
    exact List.mem_map_of_mem (Array.mem_toList_iff.mpr member)
  obtain ⟨e, member', equal⟩ := List.mem_map.mp mapped
  exact ⟨e, Array.mem_toList_iff.mp member', equal.symm⟩

end Charmap

end LocaleCharmap
