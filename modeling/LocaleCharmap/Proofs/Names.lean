import Mathlib
import LocaleCharmap.Source.Range
/-!
# Names that spell scalar values

A name spells a scalar value when it is `U` followed by four or eight hex digits whose value is a
Unicode scalar value. Since scalar values are below `0x110000`, eight digits start with two
zeros, so such names are spelled in at most `22 ^ 4 + 22 ^ 6` ways: fewer than `2 ^ 32`. A charmap
whose characters have distinct names therefore has fewer than `2 ^ 32` characters with scalar
values.
-/

namespace LocaleCharmap

open LocaleCharmap.Source LocaleCharmap.Text

/-- The characters that are hex digits, in either case. -/
def hexDigits : List Char :=
  ['0', '1', '2', '3', '4', '5', '6', '7', '8', '9', 'a', 'b', 'c', 'd', 'e', 'f',
    'A', 'B', 'C', 'D', 'E', 'F']

/-- A hex digit is an ASCII character. -/
theorem ascii_of_isDigitIn {c : Char} (digit : isDigitIn 16 c = true) : c.toNat < 128 := by
  unfold isDigitIn digitValue at digit
  split_ifs at digit with decimal lower upper <;> simp_all [Char.le_def] <;> omega

/-- A hex digit is one of the twenty-two, and only `0` has the value zero. -/
theorem hexDigit_cases {c : Char} (digit : isDigitIn 16 c = true) :
    c ∈ hexDigits ∧ ((digitValue c).getD 0 = 0 → c = '0') := by
  have ascii := ascii_of_isDigitIn digit
  -- below 128 there are few enough characters to check them all
  have small : ∀ n < 128, isDigitIn 16 (Char.ofNat n) = true →
      Char.ofNat n ∈ hexDigits ∧
        ((digitValue (Char.ofNat n)).getD 0 = 0 → Char.ofNat n = '0') := by
    decide
  rw [← Char.ofNat_toNat c]
  exact small c.toNat ascii (by rwa [Char.ofNat_toNat])

theorem numeralValue_append (radix : Nat) (pre rest : List Char) :
    numeralValue radix (pre ++ rest) =
      numeralValue radix pre * radix ^ rest.length + numeralValue radix rest := by
  -- a fold from any start is the start shifted past the digits, plus the fold from zero
  have shifted : ∀ (acc : Nat) (cs : List Char),
      cs.foldl (fun acc c => acc * radix + (digitValue c).getD 0) acc =
        acc * radix ^ cs.length + numeralValue radix cs := by
    intro acc cs
    induction cs generalizing acc with
    | nil => simp [numeralValue]
    | cons c cs inductionHypothesis =>
      simp only [List.foldl_cons, numeralValue, List.length_cons, Nat.zero_mul, Nat.zero_add]
      rw [inductionHypothesis, inductionHypothesis ((digitValue c).getD 0)]
      simp only [numeralValue]
      ring
  rw [numeralValue, List.foldl_append, shifted]
  rfl

theorem le_of_isScalar {n : Nat} (scalar : isScalar n = true) : n ≤ 0x10FFFF := by
  unfold isScalar at scalar
  simp only [Bool.or_eq_true, decide_eq_true_eq, Bool.and_eq_true] at scalar
  omega

/-- A name that spells a scalar value is `U` and four hex digits, or `U00` and six: the value is
below `0x110000`, so the first two of eight digits are zeros. -/
theorem spelling_of_scalarOfName {name : String} {v : Nat} (spelled : scalarOfName name = some v) :
    ∃ ds, (∀ c ∈ ds, c ∈ hexDigits) ∧
      (ds.length = 4 ∧ name.toList = 'U' :: ds ∨
        ds.length = 6 ∧ name.toList = 'U' :: '0' :: '0' :: ds) := by
  unfold scalarOfName at spelled
  split at spelled
  · rename_i digits named
    split_ifs at spelled with shape
    simp only [Option.ite_none_right_eq_some, Option.some.injEq] at spelled
    simp only [Bool.and_eq_true, Bool.or_eq_true, beq_iff_eq, List.all_eq_true] at shape
    obtain ⟨four | eight, hex⟩ := shape
    · exact ⟨digits, fun c member => (hexDigit_cases (hex c member)).1,
        Or.inl ⟨four, named⟩⟩
    · match digits, eight, hex, spelled.1 with
      | d0 :: d1 :: rest, eight, hex, scalar =>
        have bound := le_of_isScalar scalar
        rw [show d0 :: d1 :: rest = [d0, d1] ++ rest from rfl, numeralValue_append] at bound
        simp only [List.length_cons] at eight
        have leading : numeralValue 16 [d0, d1] = 0 := by
          rw [show rest.length = 6 by omega] at bound
          by_contra nonzero
          have : 16 ^ 6 ≤ numeralValue 16 [d0, d1] * 16 ^ 6 :=
            Nat.le_mul_of_pos_left _ (Nat.pos_of_ne_zero nonzero)
          omega
        simp only [numeralValue, List.foldl_cons, List.foldl_nil] at leading
        have first := (hexDigit_cases (hex d0 (by simp))).2 (by omega)
        have second := (hexDigit_cases (hex d1 (by simp))).2 (by omega)
        refine ⟨rest, fun c member => (hexDigit_cases (hex c (by simp [member]))).1,
          Or.inr ⟨by omega, ?_⟩⟩
        rw [named, first, second]
  · contradiction

/-! ### Counting the spellings -/

theorem length_sections_replicate {α : Type} (l : List α) :
    ∀ n, (List.replicate n l).sections.length = l.length ^ n
  | 0 => rfl
  | n + 1 => by
    rw [List.replicate_succ, List.sections, List.length_flatMap]
    simp [length_sections_replicate l n, pow_succ, mul_comm]

theorem mem_sections_replicate {α : Type} {l : List α} :
    ∀ {ds : List α}, (∀ c ∈ ds, c ∈ l) → ds ∈ (List.replicate ds.length l).sections
  | [], _ => by simp [List.sections]
  | d :: ds, within => by
    rw [List.mem_sections, List.length_cons, List.replicate_succ]
    refine List.Forall₂.cons (within d List.mem_cons_self) ?_
    exact List.mem_sections.mp
      (mem_sections_replicate fun c member => within c (List.mem_cons_of_mem d member))

/-- Every spelling of a scalar value: `U` and four hex digits, or `U00` and six. -/
def scalarSpellings : List (List Char) :=
  (List.replicate 4 hexDigits).sections.map ('U' :: ·) ++
    (List.replicate 6 hexDigits).sections.map (fun ds => 'U' :: '0' :: '0' :: ds)

theorem length_scalarSpellings : scalarSpellings.length = 22 ^ 4 + 22 ^ 6 := by
  rw [scalarSpellings, List.length_append, List.length_map, List.length_map,
    length_sections_replicate, length_sections_replicate]
  rfl

theorem mem_scalarSpellings {name : String} {v : Nat} (spelled : scalarOfName name = some v) :
    name.toList ∈ scalarSpellings := by
  obtain ⟨ds, hex, ⟨four, named⟩ | ⟨six, named⟩⟩ := spelling_of_scalarOfName spelled
  · rw [named, scalarSpellings, List.mem_append]
    exact Or.inl (List.mem_map_of_mem (four ▸ mem_sections_replicate hex))
  · rw [named, scalarSpellings, List.mem_append]
    exact Or.inr (List.mem_map_of_mem (six ▸ mem_sections_replicate hex))

/-- Distinct names that spell scalar values number at most `22 ^ 4 + 22 ^ 6`, fewer than
`2 ^ 32`. -/
theorem length_le_of_scalarOfName {names : List String} (distinct : names.Nodup)
    (spelled : ∀ name ∈ names, (scalarOfName name).isSome) :
    names.length ≤ 22 ^ 4 + 22 ^ 6 := by
  have spellings : (names.map String.toList).Subperm scalarSpellings := by
    refine (distinct.map fun _ _ same => String.toList_injective same).subperm fun cs listed => ?_
    obtain ⟨name, member, rfl⟩ := List.mem_map.mp listed
    obtain ⟨v, named⟩ := Option.isSome_iff_exists.mp (spelled name member)
    exact mem_scalarSpellings named
  simpa [length_scalarSpellings] using spellings.length_le

end LocaleCharmap
