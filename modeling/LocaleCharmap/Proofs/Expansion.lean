import Mathlib
import LocaleCharmap.Proofs.Ranges
/-!
# Expanding a range of names

A range `<pre007>...<pre012>` is split, in its radix, into a prefix and a numeral at each end: the
numeral is the longest run of digits that ends the name (`splitNumeral`). The radix is sixteen for
two dots, and for three dots between two scalar names whose numerals are not both decimal; it is
ten otherwise (`NameRange.radix`).

Main statement: expansion refuses a range exactly when a numeral is empty, the prefixes or the
numerals' widths differ, a numeral's value does not fit in 64 bits, the last value is below the
first, or the values are `maxRangeLength` or more apart. Otherwise it gives one name for each value
from the first to the last, at most `maxRangeLength` of them and all distinct: the prefix followed
by the value written in the radix with the numerals' width. The letters of a hexadecimal numeral
are all written in one case, lowercase when the first numeral has a lowercase letter and uppercase
otherwise, so the first and last names are the range's two ends with their numerals' letters put
in that case.

That case rule rests on one fact about numerals: two numerals of one width and one value have
digits of the same values (`map_digitValue_eq`), so once put in one case they are the same.
-/

namespace LocaleCharmap

open LocaleCharmap.Source LocaleCharmap.Text

/-- Characters put in one case. -/
def inCase (lower : Bool) (cs : List Char) : List Char :=
  cs.map (if lower then Char.toLower else Char.toUpper)

/-! ### Numerals of one width -/

theorem isDigitIn_iff {radix : Nat} {c : Char} :
    isDigitIn radix c = true ↔ ∃ v, digitValue c = some v ∧ v < radix := by
  unfold isDigitIn
  cases digitValue c <;> simp

theorem isDigitIn_of_le {radix radix' : Nat} (le : radix ≤ radix') {c : Char}
    (digit : isDigitIn radix c = true) : isDigitIn radix' c = true := by
  obtain ⟨v, valued, below⟩ := isDigitIn_iff.mp digit
  exact isDigitIn_iff.mpr ⟨v, valued, by omega⟩

/-- The leading digit of a numeral counts the radix raised to the width of the rest. -/
theorem numeralValue_cons {radix : Nat} {c : Char} {v : Nat} (valued : digitValue c = some v)
    (cs : List Char) :
    numeralValue radix (c :: cs) = v * radix ^ cs.length + numeralValue radix cs := by
  rw [← List.singleton_append, numeralValue_append]
  simp [numeralValue, valued]

/-- A numeral's value is below the radix raised to its width. -/
theorem numeralValue_lt {radix : Nat} :
    ∀ {cs : List Char}, (∀ c ∈ cs, isDigitIn radix c = true) →
      numeralValue radix cs < radix ^ cs.length
  | [], _ => by simp [numeralValue]
  | c :: cs, digits => by
    obtain ⟨v, valued, below⟩ := isDigitIn_iff.mp (digits c List.mem_cons_self)
    have rest := numeralValue_lt fun d member => digits d (List.mem_cons_of_mem c member)
    rw [numeralValue_cons valued, List.length_cons, Nat.pow_succ]
    -- the leading digit counts `radix ^ cs.length` times, and the rest stays below that
    calc v * radix ^ cs.length + numeralValue radix cs
        < v * radix ^ cs.length + radix ^ cs.length := by omega
      _ = (v + 1) * radix ^ cs.length := by ring
      _ ≤ radix * radix ^ cs.length := Nat.mul_le_mul_right _ below
      _ = radix ^ cs.length * radix := Nat.mul_comm _ _

/-- Numerals of one width and one value have digits of the same values. -/
theorem map_digitValue_eq {radix : Nat} :
    ∀ {ds es : List Char}, ds.length = es.length → (∀ c ∈ ds, isDigitIn radix c = true) →
      (∀ c ∈ es, isDigitIn radix c = true) → numeralValue radix ds = numeralValue radix es →
      ds.map digitValue = es.map digitValue
  | [], [], _, _, _, _ => rfl
  | d :: ds, e :: es, lengths, digitsD, digitsE, values => by
    obtain ⟨v, valuedD, belowD⟩ := isDigitIn_iff.mp (digitsD d List.mem_cons_self)
    obtain ⟨w, valuedE, belowE⟩ := isDigitIn_iff.mp (digitsE e List.mem_cons_self)
    have restD : ∀ c ∈ ds, isDigitIn radix c = true :=
      fun c member => digitsD c (List.mem_cons_of_mem d member)
    have restE : ∀ c ∈ es, isDigitIn radix c = true :=
      fun c member => digitsE c (List.mem_cons_of_mem e member)
    have width : ds.length = es.length := by simpa using lengths
    have smallD := numeralValue_lt restD
    have smallE := numeralValue_lt restE
    rw [numeralValue_cons valuedD, numeralValue_cons valuedE, width] at values
    rw [width] at smallD
    -- the leading digit is the quotient by the weight of the rest, and the rest the remainder
    have positive : 0 < radix ^ es.length := Nat.pos_of_ne_zero (by omega)
    have splitD : (v * radix ^ es.length + numeralValue radix ds) / radix ^ es.length = v ∧
        (v * radix ^ es.length + numeralValue radix ds) % radix ^ es.length =
          numeralValue radix ds :=
      (Nat.div_mod_unique positive).mpr ⟨by ring, smallD⟩
    have splitE : (w * radix ^ es.length + numeralValue radix es) / radix ^ es.length = w ∧
        (w * radix ^ es.length + numeralValue radix es) % radix ^ es.length =
          numeralValue radix es :=
      (Nat.div_mod_unique positive).mpr ⟨by ring, smallE⟩
    rw [values] at splitD
    have leading : v = w := splitD.1.symm.trans splitE.1
    have trailing : numeralValue radix ds = numeralValue radix es := splitD.2.symm.trans splitE.2
    rw [List.map_cons, List.map_cons, valuedD, valuedE, leading,
      map_digitValue_eq width restD restE trailing]
  | [], _ :: _, lengths, _, _, _ => by simp at lengths
  | _ :: _, [], lengths, _, _, _ => by simp at lengths

/-- Put in one case, a hex digit is the digit of its value in that case. -/
theorem inCase_digit (lower : Bool) {c : Char} (digit : isDigitIn 16 c = true) :
    inCase lower [c] = inCase lower [((digitValue c).getD 0).digitChar] := by
  -- hex digits are ASCII, and below 128 there are few enough characters to check them all
  have spelled : ∀ n < 128, isDigitIn 16 (Char.ofNat n) = true →
      (Char.ofNat n).toLower = ((digitValue (Char.ofNat n)).getD 0).digitChar.toLower ∧
        (Char.ofNat n).toUpper = ((digitValue (Char.ofNat n)).getD 0).digitChar.toUpper := by
    decide
  obtain ⟨lowered, raised⟩ :=
    spelled c.toNat (ascii_of_isDigitIn digit) (by rwa [Char.ofNat_toNat])
  rw [Char.ofNat_toNat] at lowered raised
  cases lower <;> simp [inCase, lowered, raised]

/-- Hex numerals whose digits have the same values are the same once put in one case. -/
theorem inCase_congr (lower : Bool) {ds es : List Char} (digitsD : ∀ c ∈ ds, isDigitIn 16 c = true)
    (digitsE : ∀ c ∈ es, isDigitIn 16 c = true) (values : ds.map digitValue = es.map digitValue) :
    inCase lower ds = inCase lower es := by
  -- each character in the case is a function of its value
  have through : ∀ cs : List Char, (∀ c ∈ cs, isDigitIn 16 c = true) →
      inCase lower cs = inCase lower ((cs.map digitValue).map fun v => (v.getD 0).digitChar) := by
    intro cs digits
    induction cs with
    | nil => rfl
    | cons c cs inductionHypothesis =>
      have first := inCase_digit lower (digits c List.mem_cons_self)
      have rest := inductionHypothesis fun d member => digits d (List.mem_cons_of_mem c member)
      simp only [inCase, List.map_cons, List.map_nil, List.cons.injEq, and_true] at first rest ⊢
      exact ⟨first, rest⟩
  rw [through ds digitsD, through es digitsE, values]

/-! ### The numerals an expansion writes -/

/-- `Nat.toDigits` writes digits of the radix. -/
theorem exists_digitChar_of_mem_toDigits {radix : Nat} (low : 1 < radix) :
    ∀ (n : Nat) {c : Char}, c ∈ Nat.toDigits radix n → ∃ d < radix, c = d.digitChar := by
  intro n
  induction n using Nat.strong_induction_on with
  | _ n inductionHypothesis =>
    intro c member
    by_cases small : n < radix
    · rw [Nat.toDigits_of_lt_base small, List.mem_singleton] at member
      exact ⟨n, small, member⟩
    · -- the leading digits of `n / radix`, then the last digit
      have split := Nat.div_add_mod n radix
      have leading : 0 < n / radix := Nat.div_pos (by omega) (by omega)
      rw [← split, ← Nat.toDigits_append_toDigits low leading (Nat.mod_lt n (by omega)),
        List.mem_append, Nat.toDigits_of_lt_base (Nat.mod_lt n (by omega)),
        List.mem_singleton] at member
      rcases member with member | last
      · exact inductionHypothesis _ (Nat.div_lt_self (by omega) low) member
      · exact ⟨n % radix, Nat.mod_lt n (by omega), last⟩

namespace Source.Expansion

/-- A number below the radix raised to the width is written with exactly the width. -/
theorem length_numeral (e : Expansion) {n : Nat} (wide : 0 < e.width)
    (small : n < e.radix ^ e.width) : (e.numeral n).length = e.width := by
  have fits := Nat.toDigits_length e.radix n e.width wide small
  unfold numeral padZeros
  split <;> simp <;> omega

variable (e : Expansion) (radix : e.radix = 10 ∨ e.radix = 16)
include radix

/-- Every character of a written numeral is a digit of the radix in the expansion's case. -/
theorem mem_numeral {n : Nat} {c : Char} (member : c ∈ e.numeral n) :
    ∃ d < e.radix, c = (if e.lower then id else Char.toUpper) d.digitChar := by
  have low : 1 < e.radix := by omega
  unfold numeral padZeros at member
  rw [List.mem_append] at member
  rcases member with padding | written
  · -- padding zeros are the digit zero in either case
    obtain ⟨-, rfl⟩ := List.mem_replicate.mp padding
    exact ⟨0, by omega, by cases e.lower <;> decide⟩
  · split at written
    · obtain ⟨d, below, rfl⟩ := exists_digitChar_of_mem_toDigits low n written
      exact ⟨d, below, by simp [*]⟩
    · obtain ⟨c, member, rfl⟩ := List.mem_map.mp written
      obtain ⟨d, below, rfl⟩ := exists_digitChar_of_mem_toDigits low n member
      exact ⟨d, below, by simp [*]⟩

/-- A written numeral consists of digits of the radix. -/
theorem isDigitIn_numeral (n : Nat) : ∀ c ∈ e.numeral n, isDigitIn e.radix c = true := by
  intro c member
  obtain ⟨d, below, rfl⟩ := e.mem_numeral radix member
  have valued : ∀ d < 16, digitValue d.digitChar = some d ∧
      digitValue d.digitChar.toUpper = some d := by
    decide
  obtain ⟨lowered, raised⟩ := valued d (by omega)
  apply isDigitIn_iff.mpr
  split
  · exact ⟨d, lowered, below⟩
  · exact ⟨d, raised, below⟩

/-- A written numeral is already in the expansion's case. -/
theorem inCase_numeral (n : Nat) : inCase e.lower (e.numeral n) = e.numeral n := by
  have cased : ∀ d < 16, d.digitChar.toLower = d.digitChar ∧
      d.digitChar.toUpper.toUpper = d.digitChar.toUpper := by
    decide
  unfold inCase
  conv_rhs => rw [← List.map_id (e.numeral n)]
  refine List.map_congr_left fun c member => ?_
  obtain ⟨d, below, rfl⟩ := e.mem_numeral radix member
  obtain ⟨lowered, raised⟩ := cased d (by omega)
  cases e.lower <;> simp [lowered, raised]

/-- A numeral of the expansion's width is written back as itself, put in the expansion's case. -/
theorem numeral_numeralValue (wide : 0 < e.width) {ds : List Char} (length : ds.length = e.width)
    (digits : ∀ c ∈ ds, isDigitIn e.radix c = true) :
    e.numeral (numeralValue e.radix ds) = inCase e.lower ds := by
  have sixteen : e.radix ≤ 16 := by omega
  have small : numeralValue e.radix ds < e.radix ^ e.width := by
    rw [← length]
    exact numeralValue_lt digits
  -- both numerals have the same width and value, so their digits have the same values
  calc e.numeral (numeralValue e.radix ds)
      = inCase e.lower (e.numeral (numeralValue e.radix ds)) := (e.inCase_numeral radix _).symm
    _ = inCase e.lower ds := by
      apply inCase_congr e.lower
        (fun c member => isDigitIn_of_le sixteen (e.isDigitIn_numeral radix _ c member))
        (fun c member => isDigitIn_of_le sixteen (digits c member))
      apply @map_digitValue_eq e.radix
      · rw [e.length_numeral wide small, length]
      · exact e.isDigitIn_numeral radix _
      · exact digits
      · rw [e.numeralValue_numeral radix]

end Source.Expansion

/-! ### Splitting the ends of a range -/

/-- The prefix and the numeral make up the name. -/
theorem splitNumeral_append (radix : Nat) (name : List Char) :
    (splitNumeral radix name).1 ++ (splitNumeral radix name).2 = name := by
  obtain ⟨pre, whole⟩ : ∃ pre,
      name = pre ++ (name.reverse.takeWhile (isDigitIn radix)).reverse :=
    ⟨_, by rw [← List.reverse_append, List.takeWhile_append_dropWhile, List.reverse_reverse]⟩
  simp only [splitNumeral]
  generalize (name.reverse.takeWhile (isDigitIn radix)).reverse = digits at whole ⊢
  subst whole
  simp

theorem isDigitIn_of_mem_splitNumeral {radix : Nat} {name : List Char} :
    ∀ c ∈ (splitNumeral radix name).2, isDigitIn radix c = true := by
  intro c member
  simp only [splitNumeral, List.mem_reverse] at member
  exact List.mem_takeWhile_imp member

namespace Source.NameRange

/-- Why a range whose ends split into `pre` and `firstDigits`, and into `lastPre` and
`lastDigits`, cannot be expanded: a numeral is empty, the prefixes or the numerals' widths
differ, a numeral's value does not fit in 64 bits, the last value is below the first, or the two
are `maxRangeLength` or more apart. -/
def Refused (range : NameRange) (pre firstDigits lastPre lastDigits : List Char) : Prop :=
  firstDigits = [] ∨ lastDigits = [] ∨ pre ≠ lastPre ∨ firstDigits.length ≠ lastDigits.length ∨
    numeralBound ≤ numeralValue range.radix firstDigits ∨
    numeralBound ≤ numeralValue range.radix lastDigits ∨
    numeralValue range.radix lastDigits < numeralValue range.radix firstDigits ∨
    maxRangeLength ≤ numeralValue range.radix lastDigits - numeralValue range.radix firstDigits

/-- What a range whose ends split into `pre` and `firstDigits`, and into some prefix and
`lastDigits`, expands to: one name for each value from the first numeral's to the last's, at most
`maxRangeLength` and all distinct; each is the prefix followed by its value written in the radix
with the first numeral's width, its letters lowercase when the first numeral has a lowercase
letter and uppercase otherwise; the first and last names are the two ends with their numerals
put in that case. -/
structure ExpandsTo (range : NameRange) (pre firstDigits lastDigits : List Char)
    (names : List String) : Prop where
  length_eq : names.length =
    numeralValue range.radix lastDigits - numeralValue range.radix firstDigits + 1
  length_le : names.length ≤ maxRangeLength
  nodup : names.Nodup
  numeral : ∀ i (inside : i < names.length), ∃ digits,
    names[i] = String.ofList (pre ++ digits) ∧ digits.length = firstDigits.length ∧
      (∀ c ∈ digits, isDigitIn range.radix c = true) ∧
      numeralValue range.radix digits = numeralValue range.radix firstDigits + i ∧
      inCase (firstDigits.any Char.isLower) digits = digits
  head? : names.head? = some (String.ofList (pre ++ inCase (firstDigits.any Char.isLower) firstDigits))
  getLast? : names.getLast? =
    some (String.ofList (pre ++ inCase (firstDigits.any Char.isLower) lastDigits))

/-- A check that throws fails, and the checks after it decide otherwise. -/
theorem isOk_ite_throw {ε α : Type} {c : Prop} [Decidable c] {x : ε} {r : Except ε α} :
    (if c then ((throw x : Except ε PUnit) >>= fun _ => r) else r).isOk = (!decide c && r.isOk) := by
  by_cases holds : c
  · rw [if_pos holds, decide_eq_true holds]
    rfl
  · simp [holds]

section

variable {range : NameRange} {pre firstDigits lastPre lastDigits : List Char}
  (splitFirst : splitNumeral range.radix range.first.toList = (pre, firstDigits))
  (splitLast : splitNumeral range.radix range.last.toList = (lastPre, lastDigits))
include splitFirst splitLast

theorem expand_error_of_refused (refused : range.Refused pre firstDigits lastPre lastDigits) :
    ∃ error, range.expand = .error error := by
  have failed : range.expand.isOk = false := by
    simp only [expand, splitFirst, splitLast, isOk_ite_throw]
    rcases refused with c | c | c | c | c | c | c | c <;> simp [c]
  cases expanded : range.expand with
  | error error => exact ⟨error, rfl⟩
  | ok e =>
    rw [expanded] at failed
    cases failed

theorem expand_of_not_refused (accepted : ¬ range.Refused pre firstDigits lastPre lastDigits) :
    range.expand = .ok
      { pre := String.ofList pre
        start := numeralValue range.radix firstDigits
        count := numeralValue range.radix lastDigits - numeralValue range.radix firstDigits + 1
        radix := range.radix
        width := firstDigits.length
        lower := firstDigits.any Char.isLower } := by
  simp only [Refused, not_or, not_le, not_lt, ne_eq, not_not] at accepted
  obtain ⟨c₁, c₂, c₃, c₄, c₅, c₆, c₇, c₈⟩ := accepted
  simp only [expand, splitFirst, splitLast]
  simp [c₁, c₂, c₃, c₄, Nat.not_le.mpr c₅, Nat.not_le.mpr c₆, Nat.not_lt.mpr c₇,
    Nat.not_le.mpr c₈]
  rfl

/-- An expansion holds the names `ExpandsTo` describes. -/
theorem expandsTo_of_expand {e : Expansion} (expanded : range.expand = .ok e) :
    range.ExpandsTo pre firstDigits lastDigits e.names := by
  have accepted : ¬ range.Refused pre firstDigits lastPre lastDigits := by
    intro refused
    obtain ⟨error, failed⟩ := expand_error_of_refused splitFirst splitLast refused
    rw [failed] at expanded
    cases expanded
  have radix := NameRange.expand_radix expanded
  rw [expand_of_not_refused splitFirst splitLast accepted, Except.ok.injEq] at expanded
  have prefixed : e.pre = String.ofList pre := by rw [← expanded]
  have started : e.start = numeralValue range.radix firstDigits := by rw [← expanded]
  have counted : e.count =
      numeralValue range.radix lastDigits - numeralValue range.radix firstDigits + 1 := by
    rw [← expanded]
  have radixed : e.radix = range.radix := by rw [← expanded]
  have widened : e.width = firstDigits.length := by rw [← expanded]
  have lowered : e.lower = firstDigits.any Char.isLower := by rw [← expanded]
  simp only [Refused, not_or, not_le, not_lt, ne_eq, not_not] at accepted
  obtain ⟨nonempty, -, -, sameWidth, -, -, ordered, short⟩ := accepted
  have validFirst : ∀ c ∈ firstDigits, isDigitIn range.radix c = true := by
    have digits := @isDigitIn_of_mem_splitNumeral range.radix range.first.toList
    rwa [splitFirst] at digits
  have validLast : ∀ c ∈ lastDigits, isDigitIn range.radix c = true := by
    have digits := @isDigitIn_of_mem_splitNumeral range.radix range.last.toList
    rwa [splitLast] at digits
  have wide : 0 < e.width := by
    rw [widened]
    exact List.length_pos_iff.mpr nonempty
  have below : numeralValue range.radix lastDigits < e.radix ^ e.width := by
    rw [radixed, widened, sameWidth]
    exact numeralValue_lt validLast
  -- each end's numeral has the expansion's width, so it is written back as itself, in its case
  have writtenAs : ∀ ds : List Char, ds.length = firstDigits.length →
      (∀ c ∈ ds, isDigitIn range.radix c = true) →
      e.numeral (numeralValue range.radix ds) = inCase e.lower ds := by
    intro ds length digits
    rw [← radixed] at digits ⊢
    exact e.numeral_numeralValue radix wide (length.trans widened.symm) digits
  have named : ∀ i, e.nameAt i = String.ofList (pre ++ e.numeral (e.start + i)) := by
    intro i
    rw [Expansion.nameAt, prefixed, String.ofList_append]
  have length : e.names.length = e.count := by simp [Expansion.names]
  refine
    { length_eq := by rw [length, counted]
      length_le := by
        rw [length, counted]
        unfold maxRangeLength at short ⊢
        omega
      nodup := e.names_nodup radix
      numeral := fun i inside => ?_
      head? := ?_
      getLast? := ?_ }
  · rw [length] at inside
    refine ⟨e.numeral (e.start + i), by simp [Expansion.names, named], ?_, ?_, ?_, ?_⟩
    · rw [e.length_numeral wide (by omega), widened]
    · rw [← radixed]
      exact e.isDigitIn_numeral radix _
    · rw [← radixed, e.numeralValue_numeral radix, started, radixed]
    · rw [← lowered, e.inCase_numeral radix]
  · rw [Expansion.names, List.head?_map, List.head?_range, if_neg (by omega), Option.map_some,
      named, Nat.add_zero, started, writtenAs firstDigits rfl validFirst, lowered]
  · have last : e.start + (e.count - 1) = numeralValue range.radix lastDigits := by omega
    rw [Expansion.names, List.getLast?_map, List.getLast?_range, if_neg (by omega),
      Option.map_some, named, last, writtenAs lastDigits sameWidth.symm validLast, lowered]

/-- Expansion refuses a range exactly for the reasons `Refused` lists, and otherwise gives the
names `ExpandsTo` describes; the prefix and numeral of each end make up that end. -/
theorem expand_spec :
    range.first = String.ofList (pre ++ firstDigits) ∧
    range.last = String.ofList (lastPre ++ lastDigits) ∧
    ((∃ error, range.expand = .error error) ↔ range.Refused pre firstDigits lastPre lastDigits) ∧
    ∀ e, range.expand = .ok e → range.ExpandsTo pre firstDigits lastDigits e.names := by
  have firstParts := splitNumeral_append range.radix range.first.toList
  have lastParts := splitNumeral_append range.radix range.last.toList
  rw [splitFirst] at firstParts
  rw [splitLast] at lastParts
  refine ⟨by rw [firstParts, String.ofList_toList], by rw [lastParts, String.ofList_toList],
    ⟨fun ⟨error, failed⟩ => ?_, expand_error_of_refused splitFirst splitLast⟩,
    fun e expanded => expandsTo_of_expand splitFirst splitLast expanded⟩
  by_contra accepted
  rw [expand_of_not_refused splitFirst splitLast accepted] at failed
  cases failed

end

/-- A hexadecimal range whose first numeral has no lowercase letter is written in uppercase. -/
theorem expand_spec_upper_hex :
    splitNumeral (NameRange.radix ⟨"x9", "xB", .hex⟩) "x9".toList = (['x'], ['9']) ∧
    splitNumeral (NameRange.radix ⟨"x9", "xB", .hex⟩) "xB".toList = (['x'], ['B']) ∧
    ("x9" = String.ofList (['x'] ++ ['9']) ∧ "xB" = String.ofList (['x'] ++ ['B']) ∧
      ((∃ error, NameRange.expand ⟨"x9", "xB", .hex⟩ = .error error) ↔
        NameRange.Refused ⟨"x9", "xB", .hex⟩ ['x'] ['9'] ['x'] ['B']) ∧
      ∀ e, NameRange.expand ⟨"x9", "xB", .hex⟩ = .ok e →
        NameRange.ExpandsTo ⟨"x9", "xB", .hex⟩ ['x'] ['9'] ['B'] e.names) :=
  ⟨by decide, by decide,
    @expand_spec ⟨"x9", "xB", .hex⟩ ['x'] ['9'] ['x'] ['B'] (by decide) (by decide)⟩

/-- The last name of a range is not always its last end: the case of the first numeral wins. -/
theorem expand_last_name_lowercased :
    ¬ ∀ e, NameRange.expand ⟨"x0a", "x0B", .hex⟩ = .ok e → e.names.getLast? = some "x0B" := by
  intro claimed
  have listed : (NameRange.expand ⟨"x0a", "x0B", .hex⟩).map Expansion.names =
      .ok ["x0a", "x0b"] := by
    decide
  cases expanded : NameRange.expand ⟨"x0a", "x0B", .hex⟩ with
  | error error =>
    rw [expanded] at listed
    cases listed
  | ok e =>
    simp only [expanded, Except.map, Except.ok.injEq] at listed
    have last := claimed e expanded
    rw [listed] at last
    revert last
    decide

end Source.NameRange

end LocaleCharmap
