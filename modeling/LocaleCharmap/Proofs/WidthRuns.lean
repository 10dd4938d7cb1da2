import Mathlib
import LocaleCharmap.Proofs.WidthSections
/-!
# Giving a run of characters a width

`Charmap.setWidthBetween first last` gives every character from `first` to `last`, in definition
order, a width and tells how many it gave one. In a charmap whose index is in step with its
entries, as every charmap built by the store's operations is, it gives no count and changes
nothing when a name is undefined or `last` stands two or more places before `first`. Otherwise it
gives the number of positions from `first` to `last`, all of which hold characters, and gives
exactly the characters there the width.

The run is taken as the positions from `first` up to and including `last`, which is empty, not
refused, when `last` stands just before `first`: then the count is zero and nothing changes, but a
count is given, although `last` comes before `first`.
-/

namespace LocaleCharmap.Charmap

variable {m : Charmap}

/-- A position the index holds lies within the entries. -/
theorem IndexConsistent.lt_size (consistent : m.IndexConsistent) {name : String} {i : Nat}
    (indexed : m.position? name = some i) : i < m.size := by
  have named := (consistent name i).mp indexed
  rw [← length_names]
  exact (List.getElem?_eq_some_iff.mp named).1

/-- Giving the characters from one name to another a width, in a charmap whose index is in
step: no count, exactly when a name is undefined or the last stands two or more places before
the first, and then nothing changes; otherwise the count of positions from the first to the last,
which all hold characters, and exactly the characters there get the width. -/
theorem IndexConsistent.setWidthBetween_spec (consistent : m.IndexConsistent)
    (first last : String) (width : Nat) :
    ((m.setWidthBetween first last width).1 = none ↔
      m.position? first = none ∨ m.position? last = none ∨
        ∃ start stop, m.position? first = some start ∧ m.position? last = some stop ∧
          stop + 1 < start) ∧
    ((m.setWidthBetween first last width).1 = none → (m.setWidthBetween first last width).2 = m) ∧
    ∀ start stop, m.position? first = some start → m.position? last = some stop →
      start ≤ stop + 1 →
        (m.setWidthBetween first last width).1 = some (stop + 1 - start) ∧ stop < m.size ∧
        (m.setWidthBetween first last width).2 =
          m.widenWhere (fun i _ => start ≤ i && i ≤ stop) width := by
  -- the run reaches up to `stop + 1`, excluded
  have run : ∀ start stop, m.setWidthsIn start (stop + 1) width =
      m.widenWhere (fun i _ => start ≤ i && i ≤ stop) width := by
    intro start stop
    rw [setWidthsIn_eq]
    congr 1
    funext i _
    simp only [Nat.lt_succ_iff]
  unfold setWidthBetween
  cases indexedFirst : m.position? first with
  | none => simp
  | some start =>
    cases indexedLast : m.position? last with
    | none => simp
    | some stop =>
      by_cases within : start ≤ stop + 1
      · simp only [if_pos within, reduceCtorEq, false_iff, false_or, not_exists, not_and,
          Option.some.injEq, false_imp_iff, true_and]
        refine ⟨fun start' stop' same same' => by omega, fun start' stop' same same' _ => ?_⟩
        subst same same'
        exact ⟨rfl, consistent.lt_size indexedLast, run start stop⟩
      · simp only [if_neg within, true_iff, reduceCtorEq, false_or, Option.some.injEq,
          imp_self, true_and]
        refine ⟨⟨start, stop, rfl, rfl, by omega⟩, fun start' stop' same same' _ => ?_⟩
        omega

/-- Two characters, `A` and then `B`, added through the store. -/
def twoLetters : Charmap :=
  ofChanges [.insert ⟨"A", [0x41], none, none, none⟩, .insert ⟨"B", [0x42], none, none, none⟩]

/-- A run whose last name stands just before its first, among two characters. -/
theorem IndexConsistent.setWidthBetween_spec_two_letters :
    twoLetters.IndexConsistent ∧
    ((twoLetters.setWidthBetween "B" "A" 2).1 = none ↔
      twoLetters.position? "B" = none ∨ twoLetters.position? "A" = none ∨
        ∃ start stop, twoLetters.position? "B" = some start ∧
          twoLetters.position? "A" = some stop ∧ stop + 1 < start) ∧
    ((twoLetters.setWidthBetween "B" "A" 2).1 = none →
      (twoLetters.setWidthBetween "B" "A" 2).2 = twoLetters) ∧
    ∀ start stop, twoLetters.position? "B" = some start → twoLetters.position? "A" = some stop →
      start ≤ stop + 1 →
        (twoLetters.setWidthBetween "B" "A" 2).1 = some (stop + 1 - start) ∧
        stop < twoLetters.size ∧
        (twoLetters.setWidthBetween "B" "A" 2).2 =
          twoLetters.widenWhere (fun i _ => start ≤ i && i ≤ stop) 2 :=
  ⟨indexConsistent_ofChanges _,
    IndexConsistent.setWidthBetween_spec (indexConsistent_ofChanges _) "B" "A" 2⟩

/-- Adding a character whose name is free appends its name. -/
theorem IndexConsistent.names_apply_insert (consistent : m.IndexConsistent) {e : Entry}
    (fresh : e.name ∉ m.names) : (m.apply (.insert e)).names = m.names ++ [e.name] := by
  have free : ∀ d ∈ m.entries, d.name ≠ e.name := by
    intro d member same
    exact fresh (List.mem_map.mpr ⟨d, Array.mem_toList_iff.mpr member, same⟩)
  rw [Charmap.apply, insertNew_of_free consistent free]
  simp [names]

/-- The last name standing just before the first is not refused: the run is empty, and a count
of zero is given. -/
theorem setWidthBetween_just_before :
    twoLetters.position? "A" = some 0 ∧ twoLetters.position? "B" = some 1 ∧
      (twoLetters.setWidthBetween "B" "A" 2).1 = some 0 := by
  have one := indexConsistent_empty.apply (.insert ⟨"A", [0x41], none, none, none⟩)
  have firstNames : (empty.apply (.insert ⟨"A", [0x41], none, none, none⟩)).names = ["A"] :=
    indexConsistent_empty.names_apply_insert (by simp [names, empty])
  have named : twoLetters.names = ["A", "B"] := by
    rw [twoLetters, ofChanges, List.foldl_cons, List.foldl_cons, List.foldl_nil,
      one.names_apply_insert (by rw [firstNames]; decide), firstNames]
    rfl
  have consistent : twoLetters.IndexConsistent := indexConsistent_ofChanges _
  have atA := (consistent "A" 0).mpr (by rw [named]; rfl)
  have atB := (consistent "B" 1).mpr (by rw [named]; rfl)
  refine ⟨atA, atB, ?_⟩
  rw [setWidthBetween, atB, atA]
  rfl

end LocaleCharmap.Charmap
