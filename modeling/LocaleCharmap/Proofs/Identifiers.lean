import Mathlib
import LocaleCharmap.Table.CSource
/-!
# C identifiers

The C source of a table names its macros and arrays after the table. The identifier for a name
turns every character that is not an ASCII letter or digit into an underscore and drops leading
underscores, which are reserved at file scope; an empty result becomes `charmap`, and one that
starts with a digit gets the prefix `charmap_`.

Main statement: every identifier is a non-empty C identifier that starts with an ASCII letter
(`LetterLed`), making an identifier of it again changes nothing, and a name whose underscored
form already starts with a letter gets exactly that form. The fixed point rests on one fact: a
text that starts with a letter and has only letters, digits and underscores passes through every
step unchanged.
-/
namespace LocaleCharmap

/-- A C identifier that starts with a letter: an ASCII letter, then ASCII letters, ASCII digits
and underscores, so no reserved leading underscore. -/
structure LetterLed (cs : List Char) : Prop where
  lead : ∃ c rest, cs = c :: rest ∧ c.isAlpha = true
  chars : ∀ c ∈ cs, c.isAlphanum = true ∨ c = '_'

/-- The name with every character that is not an ASCII letter or digit made an underscore, and
its leading underscores dropped. -/
def underscored (name : String) : List Char :=
  (name.toList.map fun c => if c.isAlphanum then c else '_').dropWhile (· = '_')

/-! ### Characters -/

theorem not_isDigit_of_isAlpha {c : Char} (alpha : c.isAlpha = true) : c.isDigit = false := by
  simp only [Char.isAlpha, Char.isUpper, Char.isLower, Char.isDigit, Bool.or_eq_true,
    Bool.and_eq_true, decide_eq_true_eq, UInt32.le_iff_toNat_le] at alpha ⊢
  simp only [Bool.and_eq_false_iff, decide_eq_false_iff_not]
  change (65 ≤ c.toNat ∧ c.toNat ≤ 90) ∨ (97 ≤ c.toNat ∧ c.toNat ≤ 122) at alpha
  change ¬ 48 ≤ c.toNat ∨ ¬ c.toNat ≤ 57
  omega

theorem isAlpha_of_isAlphanum {c : Char} (alnum : c.isAlphanum = true)
    (notDigit : c.isDigit = false) : c.isAlpha = true := by
  simpa [Char.isAlphanum, notDigit] using alnum

/-- The fallback identifier starts with a letter. -/
theorem letterLed_fallback : LetterLed "charmap".toList := by
  refine ⟨⟨'c', _, rfl, by decide⟩, ?_⟩
  change ∀ c ∈ ['c', 'h', 'a', 'r', 'm', 'a', 'p'], _
  simp only [List.forall_mem_cons, List.not_mem_nil, IsEmpty.forall_iff, implies_true, and_true]
  decide

/-- The prefix for an identifier that would start with a digit may stand in an identifier. -/
theorem identifier_chars_prefix : ∀ c ∈ "charmap_".toList, c.isAlphanum = true ∨ c = '_' := by
  change ∀ c ∈ ['c', 'h', 'a', 'r', 'm', 'a', 'p', '_'], _
  simp only [List.forall_mem_cons, List.not_mem_nil, IsEmpty.forall_iff, implies_true, and_true]
  decide

/-! ### The identifier -/

theorem underscored_chars (name : String) :
    ∀ c ∈ underscored name, c.isAlphanum = true ∨ c = '_' := by
  intro c member
  obtain ⟨d, -, rfl⟩ := List.mem_map.mp ((List.dropWhile_sublist _).subset member)
  by_cases kept : d.isAlphanum = true
  · simp [kept]
  · simp [kept]

/-- What is left after the leading underscores starts with a letter or a digit. -/
theorem underscored_head {name : String} {c : Char} {rest : List Char}
    (split : underscored name = c :: rest) : c.isAlphanum = true := by
  have kept := underscored_chars name c (by rw [split]; exact List.mem_cons_self)
  have first := List.head?_dropWhile_not (fun c : Char => decide (c = '_'))
    (name.toList.map fun c => if c.isAlphanum then c else '_')
  rw [← underscored, split, List.head?_cons] at first
  simpa using kept.resolve_right (by simpa using first)

theorem cIdentifier_nil {name : String} (split : underscored name = []) :
    cIdentifier name = "charmap" := by
  unfold cIdentifier
  unfold underscored at split
  simp only [split]

theorem cIdentifier_cons {name : String} {c : Char} {rest : List Char}
    (split : underscored name = c :: rest) :
    cIdentifier name =
      if c.isDigit then "charmap_" ++ String.ofList (c :: rest) else String.ofList (c :: rest) := by
  unfold cIdentifier
  unfold underscored at split
  simp only [split]

theorem letterLed_cIdentifier (name : String) : LetterLed (cIdentifier name).toList := by
  cases split : underscored name with
  | nil =>
    rw [cIdentifier_nil split]
    exact letterLed_fallback
  | cons c rest =>
    have chars := underscored_chars name
    rw [split] at chars
    rw [cIdentifier_cons split]
    split
    · refine ⟨⟨'c', _, by rw [String.toList_append]; rfl, by decide⟩, ?_⟩
      intro d member
      rcases List.mem_append.mp (String.toList_append ▸ member) with fixed | named
      · exact identifier_chars_prefix d fixed
      · rw [String.toList_ofList] at named
        exact chars d named
    · rename_i notDigit
      refine ⟨⟨c, rest, String.toList_ofList,
        isAlpha_of_isAlphanum (underscored_head split) (by simpa using notDigit)⟩, ?_⟩
      rw [String.toList_ofList]
      exact chars

theorem cIdentifier_of_letterLed {cs : List Char} (led : LetterLed cs) :
    cIdentifier (String.ofList cs) = String.ofList cs := by
  obtain ⟨⟨c, rest, rfl, alpha⟩, chars⟩ := led
  have kept : ((c :: rest).map fun c => if c.isAlphanum then c else '_') = c :: rest := by
    conv_rhs => rw [← List.map_id (c :: rest)]
    refine List.map_congr_left fun d member => ?_
    rcases chars d member with alnum | rfl
    · simp [alnum]
    · simp
  have notUnderscore : c ≠ '_' := by
    rintro rfl
    simp at alpha
  have split : underscored (String.ofList (c :: rest)) = c :: rest := by
    rw [underscored, String.toList_ofList, kept,
      List.dropWhile_cons_of_neg (by simpa using notUnderscore)]
  rw [cIdentifier_cons split, not_isDigit_of_isAlpha alpha]
  rfl

/-- The identifier for any name is a non-empty C identifier that starts with an ASCII letter, so
never with a reserved underscore; making an identifier of it again gives it back; and when the name
with its other characters made underscores and its leading underscores dropped starts with a
letter, the identifier is exactly that. -/
theorem cIdentifier_letterLed_fixed (name : String) :
    cIdentifier name ≠ "" ∧ LetterLed (cIdentifier name).toList ∧
    cIdentifier (cIdentifier name) = cIdentifier name ∧
    ((∃ c rest, underscored name = c :: rest ∧ c.isAlpha = true) →
      cIdentifier name = String.ofList (underscored name)) := by
  have led := letterLed_cIdentifier name
  refine ⟨?_, led, ?_, ?_⟩
  · intro empty
    obtain ⟨c, rest, split, -⟩ := led.lead
    simp [empty] at split
  · calc cIdentifier (cIdentifier name)
        = cIdentifier (String.ofList (cIdentifier name).toList) := by rw [String.ofList_toList]
      _ = String.ofList (cIdentifier name).toList := cIdentifier_of_letterLed led
      _ = cIdentifier name := String.ofList_toList
  · rintro ⟨c, rest, split, alpha⟩
    rw [cIdentifier_cons split, not_isDigit_of_isAlpha alpha, split]
    rfl

end LocaleCharmap
