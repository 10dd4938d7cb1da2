import Mathlib
import LocaleCharmap.Proofs.Names
import LocaleCharmap.Proofs.Strictness
/-!
# Ranges in the CHARMAP section

A line `<f>..<l> ENC comment` defines every name of the range in order. The encoding counts up
by one from name to name, read as a big-endian number of a fixed length, and counting past the
largest number of that length is an error. A name that is already defined is refused in strict
reading and skipped in lenient reading, and the encoding counts up past it all the same.

Counting is `increment`, a carry through the bytes from the last; `encodingValue` reads bytes as
a big-endian number and `bigEndian` writes one back. The names of a range are distinct, since
their numerals are the numbers of the range written in one radix, so a name is taken during the
line exactly when it was taken before it. Main statement: a range line gets through exactly when
the encoding's length fits the widths, the last name's encoding does not overflow and, in strict
reading, no name of the range is taken; it then appends the names that were free, each with its
encoding and the line's comment.
-/

namespace LocaleCharmap

open LocaleCharmap.Source LocaleCharmap.Text Std.Do

set_option mvcgen.warning false

/-! ### Counting encodings -/

/-- The value of bytes read least significant first. -/
def littleValue : List UInt8 → Nat
  | [] => 0
  | b :: rest => b.toNat + 256 * littleValue rest

/-- The value of an encoding read as a big-endian number. -/
def encodingValue (bytes : List UInt8) : Nat :=
  littleValue bytes.reverse

/-- The `length` bytes of `n` modulo `256 ^ length`, least significant first. -/
def littleBytes : Nat → Nat → List UInt8
  | 0, _ => []
  | length + 1, n => (n % 256).toUInt8 :: littleBytes length (n / 256)

/-- The `length` bytes of `n` modulo `256 ^ length`, most significant first. -/
def bigEndian (length n : Nat) : List UInt8 :=
  (littleBytes length n).reverse

theorem littleValue_lt (bytes : List UInt8) : littleValue bytes < 256 ^ bytes.length := by
  induction bytes with
  | nil => decide
  | cons b rest inductionHypothesis =>
    have := b.toNat_lt
    simp only [littleValue, List.length_cons, Nat.pow_succ]
    omega

theorem littleBytes_littleValue (bytes : List UInt8) :
    littleBytes bytes.length (littleValue bytes) = bytes := by
  induction bytes with
  | nil => rfl
  | cons b rest inductionHypothesis =>
    have := b.toNat_lt
    have low : (b.toNat + 256 * littleValue rest) % 256 = b.toNat := by omega
    have high : (b.toNat + 256 * littleValue rest) / 256 = littleValue rest := by omega
    rw [List.length_cons, littleValue, littleBytes, low, high, inductionHypothesis]
    exact congrArg (· :: rest) UInt8.ofNat_toNat

/-- Counting overflows exactly at the largest number of the length: every byte `0xff`. -/
theorem incrementReversed_eq_none_iff (bytes : List UInt8) :
    incrementReversed bytes = none ↔ littleValue bytes + 1 = 256 ^ bytes.length := by
  induction bytes with
  | nil => simp [incrementReversed, littleValue]
  | cons b rest inductionHypothesis =>
    have := b.toNat_lt
    have := littleValue_lt rest
    simp only [incrementReversed, littleValue, List.length_cons, Nat.pow_succ]
    by_cases full : b = 255
    · rw [if_pos full, Option.map_eq_none_iff, inductionHypothesis, full]
      simp only [UInt8.reduceToNat]
      omega
    · rw [if_neg full]
      have : b.toNat ≠ 255 := fun same => full (UInt8.toNat_inj.mp same)
      simp only [reduceCtorEq, false_iff]
      omega

/-- Counting up keeps the length and adds one. -/
theorem incrementReversed_eq_some {bytes next : List UInt8}
    (counted : incrementReversed bytes = some next) :
    next.length = bytes.length ∧ littleValue next = littleValue bytes + 1 := by
  induction bytes generalizing next with
  | nil => cases counted
  | cons b rest inductionHypothesis =>
    unfold incrementReversed at counted
    split at counted
    · next full =>
      obtain ⟨tail, carried, rfl⟩ := Option.map_eq_some_iff.mp counted
      obtain ⟨length, value⟩ := inductionHypothesis carried
      refine ⟨by rw [List.length_cons, List.length_cons, length], ?_⟩
      simp only [littleValue, value, full, UInt8.reduceToNat, UInt8.toNat_zero]
      omega
    · next notFull =>
      cases counted
      have : b.toNat ≠ 255 := fun same => notFull (UInt8.toNat_inj.mp same)
      refine ⟨rfl, ?_⟩
      simp only [littleValue, UInt8.toNat_add, UInt8.reduceToNat]
      have := b.toNat_lt
      omega

theorem increment_eq_none_iff (bytes : List UInt8) :
    increment bytes = none ↔ encodingValue bytes + 1 = 256 ^ bytes.length := by
  rw [increment, Option.map_eq_none_iff, incrementReversed_eq_none_iff, encodingValue,
    List.length_reverse]

theorem increment_eq_some {bytes next : List UInt8} (counted : increment bytes = some next) :
    next.length = bytes.length ∧ encodingValue next = encodingValue bytes + 1 := by
  unfold increment at counted
  obtain ⟨reversed, countedReversed, rfl⟩ := Option.map_eq_some_iff.mp counted
  obtain ⟨length, value⟩ := incrementReversed_eq_some countedReversed
  rw [List.length_reverse, length, List.length_reverse, encodingValue, encodingValue,
    List.reverse_reverse, value]
  exact ⟨rfl, rfl⟩

/-- One more than a value reaches the next power of the base exactly when every byte is
`0xff`. -/
theorem littleValue_add_one_eq_pow_iff (bytes : List UInt8) :
    littleValue bytes + 1 = 256 ^ bytes.length ↔ ∀ b ∈ bytes, b = 0xff := by
  induction bytes with
  | nil => simp [littleValue]
  | cons b rest inductionHypothesis =>
    have := b.toNat_lt
    have := littleValue_lt rest
    -- the low byte must be the largest and the carry must run through the rest
    rw [littleValue, List.length_cons, Nat.pow_succ, List.forall_mem_cons, ← inductionHypothesis,
      ← UInt8.toNat_inj]
    simp only [UInt8.reduceToNat]
    omega

theorem increment_eq_none_iff_forall (bytes : List UInt8) :
    increment bytes = none ↔ ∀ b ∈ bytes, b = 0xff := by
  rw [increment_eq_none_iff, encodingValue, ← List.length_reverse,
    littleValue_add_one_eq_pow_iff]
  simp only [List.mem_reverse]

/-- Counting up succeeds exactly when some byte is not `0xff`, and then gives the encoding of the
same length whose big-endian value is one more; any length is allowed, the empty encoding
included, which always overflows. -/
theorem increment_big_endian_succ (bytes : List UInt8) :
    ((increment bytes).isSome ↔ ∃ b ∈ bytes, b ≠ 0xff) ∧
      ∀ next, increment bytes = some next →
        next.length = bytes.length ∧ encodingValue next = encodingValue bytes + 1 := by
  refine ⟨?_, fun next counted => increment_eq_some counted⟩
  rw [← not_iff_not, Option.not_isSome_iff_eq_none, increment_eq_none_iff_forall]
  simp only [ne_eq, not_exists, not_and, not_not]

theorem encodingValue_lt (bytes : List UInt8) : encodingValue bytes < 256 ^ bytes.length := by
  rw [encodingValue, ← List.length_reverse]
  exact littleValue_lt _

/-- Bytes are the big-endian form of their value at their length. -/
theorem bigEndian_encodingValue (bytes : List UInt8) :
    bigEndian bytes.length (encodingValue bytes) = bytes := by
  rw [bigEndian, encodingValue, ← List.length_reverse, littleBytes_littleValue,
    List.reverse_reverse]

/-! ### The names of a range are distinct -/

/-- The digits `Nat.toDigits` writes read back as the number, also after a change of case that
keeps each digit's value. -/
theorem numeralValue_map_toDigits {radix : Nat} {f : Char → Char} (low : 1 < radix)
    (high : radix ≤ 16) (keeps : ∀ d < 16, digitValue (f d.digitChar) = some d) (n : Nat) :
    numeralValue radix ((Nat.toDigits radix n).map f) = n := by
  induction n using Nat.strong_induction_on with
  | _ n inductionHypothesis =>
    -- one digit below the radix, and otherwise the leading digits followed by the last
    have single : ∀ d < radix, numeralValue radix ((Nat.toDigits radix d).map f) = d := by
      intro d small
      rw [Nat.toDigits_of_lt_base small, List.map_singleton, numeralValue, List.foldl_cons,
        List.foldl_nil, keeps d (by omega)]
      simp
    by_cases small : n < radix
    · exact single n small
    · have split := Nat.div_add_mod n radix
      have leading : 0 < n / radix := Nat.div_pos (by omega) (by omega)
      rw [← split, ← Nat.toDigits_append_toDigits low leading (Nat.mod_lt n (by omega)),
        List.map_append, numeralValue_append, inductionHypothesis _ (Nat.div_lt_self (by omega) low),
        single _ (Nat.mod_lt n (by omega)), List.length_map,
        Nat.toDigits_of_lt_base (Nat.mod_lt n (by omega)), List.length_singleton, Nat.pow_one,
        Nat.mul_comm]

theorem numeralValue_replicate_zero (radix k : Nat) :
    numeralValue radix (List.replicate k '0') = 0 := by
  induction k with
  | zero => rfl
  | succ k inductionHypothesis =>
    have zero : digitValue '0' = some 0 := by decide
    rw [List.replicate_succ', numeralValue_append, inductionHypothesis]
    simp [numeralValue, zero]

/-- Leading zeros do not change a numeral's value. -/
theorem numeralValue_padZeros (radix width : Nat) (cs : List Char) :
    numeralValue radix (padZeros width cs) = numeralValue radix cs := by
  rw [padZeros, numeralValue_append, numeralValue_replicate_zero, Nat.zero_mul, Nat.zero_add]

namespace Source.Expansion

/-- The numeral an expansion writes for a number reads back as the number. -/
theorem numeralValue_numeral (e : Expansion) (radix : e.radix = 10 ∨ e.radix = 16) (n : Nat) :
    numeralValue e.radix (e.numeral n) = n := by
  have low : 1 < e.radix := by omega
  have high : e.radix ≤ 16 := by omega
  unfold numeral
  rw [numeralValue_padZeros]
  split
  · simpa using @numeralValue_map_toDigits _ id low high (by decide) n
  · exact numeralValue_map_toDigits low high (by decide) n

/-- Distinct positions of an expansion hold distinct names. -/
theorem nameAt_injective (e : Expansion) (radix : e.radix = 10 ∨ e.radix = 16) :
    Function.Injective e.nameAt := by
  intro i j same
  unfold nameAt at same
  have numerals := String.ofList_inj.mp ((String.append_right_inj e.pre).mp same)
  have values := congrArg (numeralValue e.radix) numerals
  rw [numeralValue_numeral e radix, numeralValue_numeral e radix] at values
  omega

theorem names_nodup (e : Expansion) (radix : e.radix = 10 ∨ e.radix = 16) : e.names.Nodup :=
  List.nodup_range.map (e.nameAt_injective radix)

end Source.Expansion

/-- A check that fails by throwing: when the whole succeeds, what follows the check does. -/
theorem ite_throw_ok {ε α : Type} {c : Prop} [Decidable c] {x : ε} {k : Unit → Except ε α}
    {a : α} (ran : (if c then (throw x >>= k) else k ()) = .ok a) : k () = .ok a := by
  split at ran
  · cases ran
  · exact ran

/-- An expansion counts in the radix of its range and holds at least one name. -/
theorem NameRange.expand_ok {range : NameRange} {e : Expansion}
    (expanded : range.expand = .ok e) : e.radix = range.radix ∧ 0 < e.count := by
  -- the checks are join points of the do-block: pass each one, then read the result
  unfold NameRange.expand at expanded
  extract_lets radix at expanded
  split at expanded
  split at expanded
  extract_lets start stop built tooLong backwards stopTooLarge startTooLarge unlike at expanded
  repeat
    first
    | (replace expanded := ite_throw_ok expanded)
    | (dsimp only [unlike, startTooLarge, stopTooLarge, backwards, tooLong] at expanded)
  dsimp only [built] at expanded
  cases expanded
  exact ⟨rfl, Nat.succ_pos _⟩

/-- An expansion counts in ten or sixteen. -/
theorem NameRange.expand_radix {range : NameRange} {e : Expansion}
    (expanded : range.expand = .ok e) : e.radix = 10 ∨ e.radix = 16 := by
  rw [(NameRange.expand_ok expanded).1, NameRange.radix]
  split
  · exact .inr rfl
  · split
    · exact .inr rfl
    · exact .inl rfl

/-! ### Defining a run of names -/

namespace Reading

@[simp] theorem add_mbCurMin (r : Reading) (e : Entry) :
    (r.add e).charmap.mbCurMin = r.charmap.mbCurMin := by
  rw [add_charmap, Charmap.insert]
  split <;> simp

@[simp] theorem add_mbCurMax (r : Reading) (e : Entry) :
    (r.add e).charmap.mbCurMax = r.charmap.mbCurMax := by
  rw [add_charmap, Charmap.insert]
  split <;> simp

theorem contains_add (r : Reading) (e : Entry) (name : String) :
    (r.add e).charmap.contains name = (e.name == name || r.charmap.contains name) := by
  rw [add_charmap, Charmap.insert]
  split
  · next taken =>
    by_cases same : e.name = name
    · subst same
      simp [taken]
    · simp [same]
  · simp [Charmap.contains, Std.HashMap.contains_insert]

theorem entries_add_of_free (r : Reading) {e : Entry} (free : r.charmap.contains e.name = false) :
    (r.add e).charmap.entries.toList = r.charmap.entries.toList ++ [e] := by
  rw [add_charmap, Charmap.insert, if_neg (by simp [free]), Charmap.push_entries,
    Array.toList_push]

/-- When defining one character gets through: the length of its encoding is within the widths
and, in strict reading, its name is free. -/
def DefineFits (r : Reading) (opts : Options) (name : String) (bytes : List UInt8) : Prop :=
  r.charmap.mbCurMin ≤ bytes.length ∧ bytes.length ≤ r.charmap.mbCurMax ∧
    (opts.strict = true → r.charmap.contains name = false)

/-- What defining a character does: it fails when the length of the encoding is outside the
widths, or when strict reading meets a taken name; otherwise it appends the character unless
the name is taken. -/
theorem define_outcome (r : Reading) (opts : Options) (name : String) (bytes : List UInt8)
    (comment : Option String) (line : Nat) :
    ⦃⌜True⌝⦄ r.define opts name bytes comment line
    ⦃post⟨fun r' => ⌜r.DefineFits opts name bytes ∧
        r' = if r.charmap.contains name then r
          else r.add ⟨name, bytes, scalarOfName name, comment, none⟩⌝,
      fun _ => ⌜¬r.DefineFits opts name bytes⌝⟩⦄ := by
  mvcgen [Reading.define, Reading.recover, report]
  case vc1.h_1 =>
    -- a length outside the widths is refused first
    rename_i problem computed _
    rintro ⟨low, high, -⟩
    rw [encodedLengthProblem_eq_none.mpr ⟨low, high⟩] at computed
    cases computed
  all_goals simp_all [DefineFits, ← Option.eq_none_iff_forall_ne_some,
    encodedLengthProblem_eq_none]

/-- The reading a definition leaves: the characters with the new one appended unless its name
is taken. -/
theorem defined_entries (r : Reading) (name : String) (bytes : List UInt8)
    (scalar : Option Nat) (comment : Option String) (width : Option Nat) :
    (if r.charmap.contains name then r
      else r.add ⟨name, bytes, scalar, comment, width⟩).charmap.entries.toList =
      r.charmap.entries.toList ++
        if r.charmap.contains name then [] else [⟨name, bytes, scalar, comment, width⟩] := by
  split
  · rw [List.append_nil]
  · next free => exact entries_add_of_free r (by simpa using free)

/-- A definition leaves every other name as taken or free as it was. -/
theorem defined_contains (r : Reading) (e : Entry) {name : String} (other : e.name ≠ name) :
    (if r.charmap.contains e.name then r else r.add e).charmap.contains name =
      r.charmap.contains name := by
  split
  · rfl
  · rw [contains_add]
    simp [other]

/-- With distinct names, the first definition of a run leaves the other names of the run as
taken or free as they were. -/
theorem defined_rest (r : Reading) {name : String} {more : List String}
    (distinct : (name :: more).Nodup) (bytes : List UInt8) (comment : Option String) :
    ∀ n ∈ more, (if r.charmap.contains name then r
      else r.add ⟨name, bytes, scalarOfName name, comment, none⟩).charmap.contains n =
        r.charmap.contains n := fun n member =>
  defined_contains r ⟨name, bytes, scalarOfName name, comment, none⟩
    fun (same : name = n) => (List.nodup_cons.mp distinct).1 (same ▸ member)

@[simp] theorem defined_mbCurMin (r : Reading) (e : Entry) (c : Prop) [Decidable c] :
    (if c then r else r.add e).charmap.mbCurMin = r.charmap.mbCurMin := by
  split
  · rfl
  · exact add_mbCurMin r e

@[simp] theorem defined_mbCurMax (r : Reading) (e : Entry) (c : Prop) [Decidable c] :
    (if c then r else r.add e).charmap.mbCurMax = r.charmap.mbCurMax := by
  split
  · rfl
  · exact add_mbCurMax r e

/-- When defining a run of names from an encoding gets through: there are no names, or the
length of the encoding is within the widths, counting up once per name after the first stays
within that length, and in strict reading no name is taken. -/
def RunFits (r : Reading) (opts : Options) (names : List String) (bytes : List UInt8) : Prop :=
  names = [] ∨ (r.charmap.mbCurMin ≤ bytes.length ∧ bytes.length ≤ r.charmap.mbCurMax ∧
    encodingValue bytes + names.length - 1 < 256 ^ bytes.length ∧
    (opts.strict = true → ∀ name ∈ names, r.charmap.contains name = false))

/-- The characters a run of names appends: each name that is not taken, with the encoding
counted up once per name, taken names included. -/
def runEntries (taken : String → Bool) (comment : Option String) (length : Nat) :
    List String → Nat → List Entry
  | [], _ => []
  | name :: more, value =>
    (if taken name then [] else [⟨name, bigEndian length value, scalarOfName name, comment, none⟩])
      ++ runEntries taken comment length more (value + 1)

theorem runEntries_congr {taken taken' : String → Bool} (comment : Option String) (length : Nat) :
    ∀ {names : List String}, (∀ name ∈ names, taken name = taken' name) → ∀ value,
      runEntries taken comment length names value = runEntries taken' comment length names value
  | [], _, _ => rfl
  | name :: more, agree, value => by
    rw [runEntries, runEntries, agree name List.mem_cons_self,
      runEntries_congr comment length (fun n member => agree n (List.mem_cons_of_mem name member))]

/-- A run that fits lets its first definition through. -/
theorem RunFits.head {r : Reading} {opts : Options} {name : String} {more : List String}
    {bytes : List UInt8} (fits : r.RunFits opts (name :: more) bytes) :
    r.DefineFits opts name bytes := by
  rcases fits with empty | ⟨low, high, -, fresh⟩
  · cases empty
  · exact ⟨low, high, fun strict => fresh strict name List.mem_cons_self⟩

/-- A run of more than one name fits exactly when its first definition does and the rest fits,
from the next encoding, in the reading the first definition leaves. -/
theorem runFits_cons {r r' : Reading} {opts : Options} {name : String} {more : List String}
    {bytes next : List UInt8} (several : more ≠ []) (counted : increment bytes = some next)
    (least : r'.charmap.mbCurMin = r.charmap.mbCurMin)
    (most : r'.charmap.mbCurMax = r.charmap.mbCurMax)
    (others : ∀ n ∈ more, r'.charmap.contains n = r.charmap.contains n) :
    r.RunFits opts (name :: more) bytes ↔
      r.DefineFits opts name bytes ∧ r'.RunFits opts more next := by
  obtain ⟨length, value⟩ := increment_eq_some counted
  have longer : 1 ≤ more.length := List.length_pos_iff.mpr several
  unfold RunFits DefineFits
  simp only [reduceCtorEq, false_or, several, List.length_cons, length, value, least, most,
    List.forall_mem_cons]
  constructor
  · rintro ⟨low, high, within, fresh⟩
    exact ⟨⟨low, high, fun strict => (fresh strict).1⟩, low, high, by omega,
      fun strict n member => (others n member).trans ((fresh strict).2 n member)⟩
  · rintro ⟨⟨low, high, first⟩, -, -, within, fresh⟩
    exact ⟨low, high, by omega, fun strict =>
      ⟨first strict, fun n member => (others n member).symm.trans (fresh strict n member)⟩⟩

/-- A run of more than one name does not fit when counting up from its first encoding
overflows. -/
theorem not_runFits_of_overflow {r : Reading} {opts : Options} {name : String}
    {more : List String} {bytes : List UInt8} (several : more ≠ [])
    (overflow : increment bytes = none) : ¬r.RunFits opts (name :: more) bytes := by
  have full := (increment_eq_none_iff bytes).mp overflow
  have longer : 1 ≤ more.length := List.length_pos_iff.mpr several
  rintro (empty | ⟨-, -, within, -⟩)
  · cases empty
  · rw [List.length_cons] at within
    omega

/-- Defining a run of distinct names gets through exactly when the run fits, and then appends
the characters of `runEntries`. -/
theorem defineRun_outcome (opts : Options) (range : NameRange) (comment : Option String)
    (line : Nat) (r : Reading) (names : List String) (bytes : List UInt8) :
    ⦃⌜names.Nodup⌝⦄ defineRun opts range comment line r names bytes
    ⦃post⟨fun r' => ⌜RunFits r opts names bytes ∧ r'.charmap.entries.toList =
        r.charmap.entries.toList ++
          runEntries r.charmap.contains comment bytes.length names (encodingValue bytes)⌝,
      fun _ => ⌜¬RunFits r opts names bytes⌝⟩⦄ := by
  fun_induction defineRun opts range comment line r names bytes with
  | case1 r bytes =>
    mvcgen
    rw [runEntries, List.append_nil]
    exact ⟨.inl rfl, rfl⟩
  | case2 r name bytes =>
    mvcgen [define_outcome]
    · rintro _ ⟨low, high, fresh⟩ rfl
      refine ⟨.inr ⟨low, high, ?_, fun strict n member => ?_⟩, ?_⟩
      · simpa using encodingValue_lt bytes
      · rw [List.mem_singleton.mp member]
        exact fresh strict
      · rw [defined_entries, runEntries, runEntries, List.append_nil, bigEndian_encodingValue]
    · exact fun _ unfit fits => unfit fits.head
  | case3 r name more bytes several inductionHypothesis =>
    mvcgen [define_outcome, inductionHypothesis]
    case vc1 => exact (List.nodup_cons.mp ‹(name :: more).Nodup›).2
    case vc2 =>
      rename_i r₁ next counted _ defined r'
      intro _ restFits entries
      obtain ⟨fits, rfl⟩ := defined
      have others := defined_rest r ‹(name :: more).Nodup› bytes comment
      refine ⟨(runFits_cons several counted (by simp) (by simp) others).mpr ⟨fits, restFits⟩, ?_⟩
      obtain ⟨length, value⟩ := increment_eq_some counted
      rw [entries, defined_entries, runEntries_congr comment next.length others, length, value,
        runEntries, bigEndian_encodingValue, List.append_assoc]
    case vc3 =>
      rename_i r₁ next counted _ defined _
      intro _ restUnfit fits
      obtain ⟨-, rfl⟩ := defined
      exact restUnfit ((runFits_cons several counted (by simp) (by simp)
        (defined_rest r ‹(name :: more).Nodup› bytes comment)).mp fits).2
    case vc4 =>
      rename_i _ overflow _ _
      exact not_runFits_of_overflow several overflow
    case vc5 => exact fun _ unfit fits => unfit fits.head

/-- The characters a run of consecutive positions appends, as the positions whose names are free,
each with the encoding counted up to it. -/
theorem runEntries_range' (taken : String → Bool) (comment : Option String) (length : Nat)
    (f : Nat → String) (value : Nat) : ∀ start k : Nat,
    runEntries taken comment length ((List.range' start k).map f) (value + start) =
      ((List.range' start k).filter fun i => !taken (f i)).map fun i =>
        ⟨f i, bigEndian length (value + i), scalarOfName (f i), comment, none⟩
  | _, 0 => rfl
  | start, k + 1 => by
    rw [List.range'_succ, List.map_cons, runEntries, Nat.add_assoc,
      runEntries_range' taken comment length f value (start + 1) k, List.filter_cons]
    cases taken (f start) <;> rfl

end Reading

/-! ### Range lines -/

/-- A name between brackets starts with `<`. -/
theorem readSymbol_ok {escape : Char} {cs : List Char} {read : String × List Char}
    (ok : readSymbol escape cs = .ok read) : ∃ body, cs = '<' :: body := by
  unfold readSymbol at ok
  split at ok
  · exact ⟨_, rfl⟩
  · cases ok

theorem readNamed_ok {escape : Char} {cs : List Char} {read : Named × List Char}
    (ok : readNamed escape cs = .ok read) : ∃ body, cs = '<' :: body := by
  unfold readNamed at ok
  cases symbol : readSymbol escape cs with
  | error e =>
    rw [symbol] at ok
    cases ok
  | ok first => exact readSymbol_ok symbol

/-- A word being collected is the start of the first word. -/
theorem wordsFrom_of_ne_nil : ∀ (cs : List Char) {current : List Char}, current ≠ [] →
    ∃ w ws, wordsFrom cs current = (current.reverse ++ w) :: ws
  | [], current, collecting => ⟨[], [], by simp [wordsFrom, collecting]⟩
  | c :: rest, current, collecting => by
    unfold wordsFrom
    split
    · exact ⟨[], wordsFrom rest [], by simp [collecting]⟩
    · obtain ⟨w, ws, split⟩ := wordsFrom_of_ne_nil rest (List.cons_ne_nil c current)
      exact ⟨c :: w, ws, by simp [split]⟩

/-- A line that starts with `<` is no keyword line whose first word does not. -/
theorem isWordsLine_angle (body : List Char) (word : String) (more : List String)
    (plain : word.toList.head? ≠ some '<') : isWordsLine ('<' :: body) (word :: more) = false := by
  have notBlank : isBlank '<' = false := by decide
  obtain ⟨w, ws, split⟩ := wordsFrom_of_ne_nil body (List.cons_ne_nil '<' [])
  rw [isWordsLine, words, wordsFrom, if_neg (by simp [notBlank]), split]
  simp only [List.reverse_cons, List.reverse_nil, List.nil_append, List.cons_append,
    List.map_cons]
  rw [Bool.eq_false_iff, ne_eq, beq_iff_eq, List.cons.injEq, not_and]
  intro first
  rw [← first] at plain
  exact fun _ => plain rfl

/-- A line of the CHARMAP section made of a range, an encoding and a comment defines the names of
the range from that encoding. -/
theorem charactersLine_range {r : Reading} {opts : Options} {content : List Char} {line : Nat}
    {range : NameRange} {rest after : List Char} {bytes : List UInt8} {e : Expansion}
    (named : readNamed r.escape content = .ok (.range range, rest))
    (encoded : readEncoding r.escape opts.strict (trimStart rest) = .ok (bytes, after))
    (expanded : range.expand = .ok e) :
    r.charactersLine opts content line =
      Reading.defineRun opts range (if after.isEmpty then none else some (String.ofList after))
        line r e.names bytes := by
  obtain ⟨body, rfl⟩ := readNamed_ok named
  have notEnd := isWordsLine_angle body "END" ["CHARMAP"] (by decide)
  simp only [Reading.charactersLine, notEnd, named, encoded, expanded, atLine, Bool.false_eq_true,
    if_false, pure_bind]

/-- A triple whose failure condition is the negation of a proposition that its success condition
asserts decides, from any log, when the computation succeeds, and says what it then returns. -/
theorem Logged.runFrom_of_triple {α : Type} {x : Logged α} {pre P : Prop} {Q : α → Prop}
    (spec : ⦃⌜pre⌝⦄ x ⦃post⟨fun a => ⌜P ∧ Q a⌝, fun _ => ⌜¬P⌝⟩⦄) (holds : pre)
    (log : Array Diagnostic) :
    ((∃ a log', x.runFrom log = (.ok a, log')) ↔ P) ∧
      ∀ a log', x.runFrom log = (.ok a, log') → Q a := by
  have decided := Logged.outcome_from_triple spec holds log
  rcases ran : x.runFrom log with ⟨outcome, log'⟩
  rw [ran] at decided
  cases outcome with
  | error f =>
    refine ⟨⟨fun ⟨a, _, same⟩ => ?_, fun holds => absurd holds decided⟩, fun a _ same => ?_⟩
    · cases same
    · cases same
  | ok a =>
    refine ⟨⟨fun _ => decided.1, fun _ => ⟨a, log', rfl⟩⟩, fun b _ same => ?_⟩
    cases same
    exact decided.2

/-- A line of the CHARMAP section made of a range whose expansion names `n₀, …, nₖ₋₁`, an
encoding of `L` bytes and an optional comment gets through exactly when `L` lies within the
widths, the encoding's value plus `k - 1` stays below `256 ^ L`, and, in strict reading, no
`nᵢ` is defined yet. It then appends, in order, the `nᵢ` that are not defined yet, each with the
`L`-byte big-endian encoding of the value plus `i`, the line's comment and the scalar value its
name spells. -/
theorem charactersLine_range_outcome {r : Reading} {opts : Options} {content : List Char}
    {line : Nat} {range : NameRange} {rest after : List Char} {bytes : List UInt8}
    {e : Expansion}
    (named : readNamed r.escape content = .ok (.range range, rest))
    (encoded : readEncoding r.escape opts.strict (trimStart rest) = .ok (bytes, after))
    (expanded : range.expand = .ok e) (log : Array Diagnostic) :
    ((∃ r' log', (r.charactersLine opts content line).runFrom log = (.ok r', log')) ↔
      r.charmap.mbCurMin ≤ bytes.length ∧ bytes.length ≤ r.charmap.mbCurMax ∧
        encodingValue bytes + e.count - 1 < 256 ^ bytes.length ∧
        (opts.strict = true → ∀ i < e.count, r.charmap.contains (e.nameAt i) = false)) ∧
    ∀ r' log', (r.charactersLine opts content line).runFrom log = (.ok r', log') →
      r'.charmap.entries.toList = r.charmap.entries.toList ++
        ((List.range e.count).filter fun i => !r.charmap.contains (e.nameAt i)).map fun i =>
          ⟨e.nameAt i, bigEndian bytes.length (encodingValue bytes + i), scalarOfName (e.nameAt i),
            if after.isEmpty then none else some (String.ofList after), none⟩ := by
  obtain ⟨radix, several⟩ := NameRange.expand_ok expanded
  have distinct := e.names_nodup (NameRange.expand_radix expanded)
  -- the names of the range are those at its positions, and there is at least one
  have fits : r.RunFits opts e.names bytes ↔
      r.charmap.mbCurMin ≤ bytes.length ∧ bytes.length ≤ r.charmap.mbCurMax ∧
        encodingValue bytes + e.count - 1 < 256 ^ bytes.length ∧
        (opts.strict = true → ∀ i < e.count, r.charmap.contains (e.nameAt i) = false) := by
    simp [Reading.RunFits, Expansion.names, Nat.pos_iff_ne_zero.mp several]
  have appended : Reading.runEntries r.charmap.contains (if after.isEmpty then none
      else some (String.ofList after)) bytes.length e.names (encodingValue bytes) =
      ((List.range e.count).filter fun i => !r.charmap.contains (e.nameAt i)).map fun i =>
        ⟨e.nameAt i, bigEndian bytes.length (encodingValue bytes + i), scalarOfName (e.nameAt i),
          if after.isEmpty then none else some (String.ofList after), none⟩ := by
    rw [Expansion.names, List.range_eq_range', ← Reading.runEntries_range' _ _ _ _ _ 0,
      Nat.add_zero]
  have outcome := Logged.runFrom_of_triple (Reading.defineRun_outcome opts range
    (if after.isEmpty then none else some (String.ofList after)) line r e.names bytes) distinct log
  rw [← charactersLine_range named encoded expanded, fits, appended] at outcome
  exact outcome

/-- The line `<a0>..<a2> \x41` of a reading with one-byte widths defines three names from one
byte on. -/
theorem charactersLine_range_outcome_letters :
    readNamed Reading.initial.escape
        ['<', 'a', '0', '>', '.', '.', '<', 'a', '2', '>', ' ', '\\', 'x', '4', '1'] =
      .ok (.range ⟨String.ofList ['a', '0'], String.ofList ['a', '2'], .hex⟩,
        [' ', '\\', 'x', '4', '1']) ∧
    readEncoding Reading.initial.escape (⟨false, false⟩ : Options).strict
        (trimStart [' ', '\\', 'x', '4', '1']) = .ok ([0x41], []) ∧
    NameRange.expand ⟨String.ofList ['a', '0'], String.ofList ['a', '2'], .hex⟩ =
      .ok ⟨String.ofList [], 160, 3, 16, 2, true⟩ ∧
    (((∃ r' log', (Reading.initial.charactersLine ⟨false, false⟩
          ['<', 'a', '0', '>', '.', '.', '<', 'a', '2', '>', ' ', '\\', 'x', '4', '1'] 1).runFrom
          #[] = (.ok r', log')) ↔
        Reading.initial.charmap.mbCurMin ≤ [(0x41 : UInt8)].length ∧
          [(0x41 : UInt8)].length ≤ Reading.initial.charmap.mbCurMax ∧
          encodingValue [0x41] + (⟨String.ofList [], 160, 3, 16, 2, true⟩ : Expansion).count - 1 <
            256 ^ [(0x41 : UInt8)].length ∧
          ((⟨false, false⟩ : Options).strict = true →
            ∀ i < (⟨String.ofList [], 160, 3, 16, 2, true⟩ : Expansion).count,
              Reading.initial.charmap.contains
                ((⟨String.ofList [], 160, 3, 16, 2, true⟩ : Expansion).nameAt i) = false)) ∧
      ∀ r' log', (Reading.initial.charactersLine ⟨false, false⟩
          ['<', 'a', '0', '>', '.', '.', '<', 'a', '2', '>', ' ', '\\', 'x', '4', '1'] 1).runFrom
          #[] = (.ok r', log') →
        r'.charmap.entries.toList = Reading.initial.charmap.entries.toList ++
          ((List.range (⟨String.ofList [], 160, 3, 16, 2, true⟩ : Expansion).count).filter
            fun i => !Reading.initial.charmap.contains
              ((⟨String.ofList [], 160, 3, 16, 2, true⟩ : Expansion).nameAt i)).map fun i =>
            ⟨(⟨String.ofList [], 160, 3, 16, 2, true⟩ : Expansion).nameAt i,
              bigEndian [(0x41 : UInt8)].length (encodingValue [0x41] + i),
              scalarOfName ((⟨String.ofList [], 160, 3, 16, 2, true⟩ : Expansion).nameAt i),
              if ([] : List Char).isEmpty then none else some (String.ofList []), none⟩) := by
  have named : readNamed Reading.initial.escape
      ['<', 'a', '0', '>', '.', '.', '<', 'a', '2', '>', ' ', '\\', 'x', '4', '1'] =
      .ok (.range ⟨String.ofList ['a', '0'], String.ofList ['a', '2'], .hex⟩,
        [' ', '\\', 'x', '4', '1']) := by decide +kernel
  have encoded : readEncoding Reading.initial.escape (⟨false, false⟩ : Options).strict
      (trimStart [' ', '\\', 'x', '4', '1']) = .ok ([0x41], []) := by decide +kernel
  have expanded : NameRange.expand ⟨String.ofList ['a', '0'], String.ofList ['a', '2'], .hex⟩ =
      .ok ⟨String.ofList [], 160, 3, 16, 2, true⟩ := by decide +kernel
  exact ⟨named, encoded, expanded, charactersLine_range_outcome named encoded expanded #[]⟩

end LocaleCharmap
