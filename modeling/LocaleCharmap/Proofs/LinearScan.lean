import Mathlib
import LocaleCharmap.Proofs.Lookup
/-!
# Lookups against linear scans

Decoding tries only the prefix lengths that lie within the table's widths and within the input,
and when none of them is the encoding of a record it looks at a single record, the first that
does not sort before the input, to tell an incomplete input from an invalid one. Encoding stops
at the first entry of the second index whose scalar value reaches the one asked for. On a
well-formed table both answer what a plain scan of the records answers: `scanDecode` tries every
prefix length from one byte on and then asks whether any record's bytes properly extend the
input, and `scanEncode` walks the records in the order of the second index.

Besides the width bounds, decoding rests on one fact about the byte order: a byte string that
sorts between the input and an extension of the input extends the input as well. The first
record that does not sort before the input is therefore an extension whenever some record is.
-/

namespace LocaleCharmap

/-! ### Searches -/

/-- Searches agree on a list when their functions agree on its members. -/
theorem findSome?_congr_of_mem {α β : Type} {f g : α → Option β} :
    ∀ {l : List α}, (∀ x ∈ l, f x = g x) → l.findSome? f = l.findSome? g
  | [], _ => rfl
  | x :: rest, agree => by
    rw [List.findSome?_cons, List.findSome?_cons, agree x List.mem_cons_self,
      findSome?_congr_of_mem fun y member => agree y (List.mem_cons_of_mem x member)]

/-- Searching the numbers from `a` on finds what searching an inner run of them finds, when no
number outside the run gives anything. -/
theorem findSome?_range'_inner {β : Type} {f : Nat → Option β} {a k b j : Nat}
    (start : a ≤ b) (stop : b + j ≤ a + k)
    (outside : ∀ n, a ≤ n → n < a + k → (n < b ∨ b + j ≤ n) → f n = none) :
    (List.range' a k).findSome? f = (List.range' b j).findSome? f := by
  obtain ⟨before, after, rfl, rfl⟩ : ∃ before after, b = a + before ∧ k = before + j + after :=
    ⟨b - a, a + k - b - j, by omega, by omega⟩
  have split : List.range' a (before + j + after) =
      List.range' a before ++ List.range' (a + before) j ++ List.range' (a + before + j) after := by
    rw [List.range'_append_1, Nat.add_assoc a before j, List.range'_append_1]
  have first : (List.range' a before).findSome? f = none := by
    refine List.findSome?_eq_none_iff.mpr fun n member => ?_
    rw [List.mem_range'_1] at member
    exact outside n member.1 (by omega) (Or.inl member.2)
  have last : (List.range' (a + before + j) after).findSome? f = none := by
    refine List.findSome?_eq_none_iff.mpr fun n member => ?_
    rw [List.mem_range'_1] at member
    exact outside n (by omega) (by omega) (Or.inr member.1)
  rw [split, List.findSome?_append, List.findSome?_append, first, last, Option.none_or,
    Option.or_none]

/-! ### The byte order and extensions -/

/-- A byte string that sorts between a string and one of its extensions extends it as well. -/
theorem prefix_of_between : ∀ {as bs cs : List UInt8}, bytesBefore as bs = true →
    bytesBefore bs cs = true → as <+: cs → as <+: bs
  | [], _, _, _, _, _ => List.nil_prefix
  | _ :: _, [], _, first, _, _ => by simp at first
  | _ :: _, _ :: _, [], _, _, prefixed => by simp at prefixed
  | a :: as, b :: bs, c :: cs, first, second, prefixed => by
    obtain ⟨rfl, restPrefixed⟩ := List.cons_prefix_cons.mp prefixed
    simp only [bytesBefore_cons_cons, Bool.or_eq_true, decide_eq_true_eq, Bool.and_eq_true,
      beq_iff_eq] at first second
    rcases first with less | ⟨rfl, restFirst⟩
    · -- past a larger first byte the order cannot come back down to the extension
      rcases second with greater | ⟨rfl, -⟩
      · simp only [UInt8.lt_iff_toNat_lt] at less greater
        omega
      · exact absurd less (UInt8.lt_irrefl _)
    · rcases second with greater | ⟨-, restSecond⟩
      · exact absurd greater (UInt8.lt_irrefl _)
      · exact List.cons_prefix_cons.mpr ⟨rfl, prefix_of_between restFirst restSecond restPrefixed⟩

namespace LocaleTable

/-! ### The scans -/

/-- Decoding by a scan of the records: the least prefix length of the input that is the bytes of
a record gives that record; otherwise the input is incomplete when it is a proper prefix of some
record's bytes, and invalid when not. -/
def scanDecode (t : LocaleTable) (input : List UInt8) : Decoded :=
  if input.isEmpty then .incomplete
  else
    match (List.range' 1 input.length).findSome? fun n =>
        (t.recordWith? (input.take n)).map (·, n) with
    | some (r, n) => .char r.scalar n
    | none =>
      if t.records.any fun r => input.isPrefixOf r.bytes && input.length < r.bytes.length then
        .incomplete
      else .invalid

example : (⟨"DB", 1, 2, [⟨0x41, [0x41]⟩, ⟨0x3000, [0x81, 0x40]⟩], [0, 1]⟩ : LocaleTable).scanDecode
    [0x81] = .incomplete := by decide

/-- The records in the order of the second index. -/
def indexedRecords (t : LocaleTable) : List Record :=
  t.byScalar.filterMap fun i => t.records[i]?

/-- Encoding by a scan of the records in the order of the second index: the bytes of the first
one with the scalar value. -/
def scanEncode (t : LocaleTable) (u : Nat) : Option (List UInt8) :=
  (t.indexedRecords.find? fun r => r.scalar == u).map (·.bytes)

/-! ### Decoding -/

theorem recordWith?_eq_some {t : LocaleTable} {bytes : List UInt8} {r : Record}
    (found : t.recordWith? bytes = some r) : r ∈ t.records ∧ r.bytes = bytes := by
  unfold recordWith? at found
  exact ⟨List.mem_of_find?_eq_some found, by simpa using List.find?_some found⟩

/-- In a well-formed table only a length within the widths can be that of a record's bytes. -/
theorem WellFormed.length_of_recordWith? {t : LocaleTable} (wellFormed : t.WellFormed)
    {bytes : List UInt8} {r : Record} (found : t.recordWith? bytes = some r) :
    t.mbCurMin ≤ bytes.length ∧ bytes.length ≤ t.mbCurMax := by
  obtain ⟨member, rfl⟩ := recordWith?_eq_some found
  exact wellFormed.lengths r member

/-- The prefix lengths decoding tries, those within the widths and within the input, find what
trying every length of the input finds. -/
theorem decode_search_eq {t : LocaleTable} (wellFormed : t.WellFormed) (input : List UInt8) :
    (List.range' (max t.mbCurMin 1) ((input.take t.mbCurMax).length + 1 - max t.mbCurMin 1)).findSome?
        (fun n => (t.recordWith? ((input.take t.mbCurMax).take n)).map (·, n)) =
      (List.range' 1 input.length).findSome? fun n => (t.recordWith? (input.take n)).map (·, n) := by
  rw [List.length_take]
  have ordered := wellFormed.least_le_most
  -- a length that finds a record lies within the widths and the input
  have within : ∀ n, 1 ≤ n → n ≤ input.length →
      (t.recordWith? (input.take n)).map (·, n) ≠ none →
        max t.mbCurMin 1 ≤ n ∧ n ≤ min t.mbCurMax input.length := by
    intro n positive short found
    obtain ⟨r, found⟩ := Option.ne_none_iff_exists'.mp (by simpa using found)
    have fits := wellFormed.length_of_recordWith? found
    rw [List.length_take] at fits
    omega
  -- the lengths tried never reach past the window
  have window : ∀ n ∈ List.range' (max t.mbCurMin 1) (min t.mbCurMax input.length + 1 -
      max t.mbCurMin 1), (t.recordWith? ((input.take t.mbCurMax).take n)).map (·, n) =
        (t.recordWith? (input.take n)).map (·, n) := by
    intro n member
    rw [List.mem_range'_1] at member
    rw [List.take_take, Nat.min_eq_left (by omega)]
  rw [findSome?_congr_of_mem window]
  by_cases tried : max t.mbCurMin 1 ≤ min t.mbCurMax input.length
  · refine (findSome?_range'_inner (by omega) (by omega) fun n low high out => ?_).symm
    by_contra found
    have := within n low (by omega) found
    omega
  · rw [show min t.mbCurMax input.length + 1 - max t.mbCurMin 1 = 0 by omega, List.range'_zero,
      List.findSome?_nil]
    refine (List.findSome?_eq_none_iff.mpr fun n member => ?_).symm
    rw [List.mem_range'_1] at member
    by_contra found
    have := within n member.1 (by omega) found
    omega

/-- In a well-formed table where some record's bytes properly extend the input and none equals
it, the first record that does not sort before the input extends it. -/
theorem first_not_before_extends {t : LocaleTable} (wellFormed : t.WellFormed)
    {input : List UInt8} {r : Record} (member : r ∈ t.records) (prefixed : input <+: r.bytes)
    (longer : input.length < r.bytes.length) (unequal : ∀ r' ∈ t.records, r'.bytes ≠ input) :
    ∃ first, t.records.find? (fun r => !bytesBefore r.bytes input) = some first ∧
      input <+: first.bytes ∧ input.length < first.bytes.length := by
  have extension : bytesBefore input r.bytes = true :=
    bytesBefore_of_prefix prefixed fun same => by rw [same] at longer; exact lt_irrefl _ longer
  have notBefore : (!bytesBefore r.bytes input) = true := by
    rw [bytesBefore_asymm extension]
    rfl
  have some : (t.records.find? fun r => !bytesBefore r.bytes input).isSome :=
    List.find?_isSome.mpr ⟨r, member, notBefore⟩
  obtain ⟨first, found⟩ := Option.isSome_iff_exists.mp some
  obtain ⟨firstNotBefore, earlier, later, split, skipped⟩ := List.find?_eq_some_iff_append.mp found
  have inputBefore : bytesBefore input first.bytes = true := by
    rcases bytesBefore_trichotomy input first.bytes with before | same | after
    · exact before
    · exact absurd same.symm (unequal first (List.mem_of_find?_eq_some found))
    · simp [after] at firstNotBefore
  -- the record found comes no later than `r`, and sorts between the input and `r`
  have firstExtends : input <+: first.bytes := by
    have sorted := wellFormed.sorted
    rw [split] at member sorted
    rcases List.mem_append.mp member with inEarlier | inLater
    · simpa [notBefore] using skipped r inEarlier
    · rcases List.mem_cons.mp inLater with rfl | inRest
      · exact prefixed
      · have between : bytesBefore first.bytes r.bytes = true :=
          (List.pairwise_cons.mp (List.pairwise_append.mp sorted).2.1).1 r inRest
        exact prefix_of_between inputBefore between prefixed
  refine ⟨first, found, firstExtends, ?_⟩
  have shorter := firstExtends.length_le
  have unequalLength : input.length ≠ first.bytes.length := fun same =>
    unequal first (List.mem_of_find?_eq_some found) (firstExtends.eq_of_length same).symm
  omega

/-- When no prefix of the input is the bytes of a record, looking at the first record that does
not sort before the input tells an incomplete input from an invalid one as a look at every record
does. -/
theorem undecided_eq {t : LocaleTable} (wellFormed : t.WellFormed) {input : List UInt8}
    (nonempty : input ≠ [])
    (unmatched : ∀ n, 1 ≤ n → n ≤ input.length → t.recordWith? (input.take n) = none) :
    (if (input.take t.mbCurMax).length < t.mbCurMax then
        match t.records.find? fun r => !bytesBefore r.bytes input with
        | some r =>
          if input.length < r.bytes.length && input.isPrefixOf r.bytes then Decoded.incomplete
          else .invalid
        | none => .invalid
      else .invalid) =
      if t.records.any fun r => input.isPrefixOf r.bytes && input.length < r.bytes.length then
        .incomplete
      else .invalid := by
  by_cases extended : ∃ r ∈ t.records, input <+: r.bytes ∧ input.length < r.bytes.length
  · obtain ⟨r, member, prefixed, longer⟩ := extended
    -- the whole input is no record's bytes: that is the prefix of its own length
    have unequal : ∀ r' ∈ t.records, r'.bytes ≠ input := by
      intro r' member' same
      have found := unmatched input.length
        (List.length_pos_iff.mpr nonempty) le_rfl
      rw [List.take_length, ← same, recordWith?_bytes wellFormed member'] at found
      cases found
    obtain ⟨first, found, firstPrefixed, firstLonger⟩ :=
      first_not_before_extends wellFormed member prefixed longer unequal
    have short : (input.take t.mbCurMax).length < t.mbCurMax := by
      have := (wellFormed.lengths r member).2
      rw [List.length_take]
      omega
    have anyExtends : (t.records.any fun r =>
        input.isPrefixOf r.bytes && input.length < r.bytes.length) = true :=
      List.any_eq_true.mpr ⟨r, member, by simp [List.isPrefixOf_iff_prefix, prefixed, longer]⟩
    rw [if_pos short, found, anyExtends, if_pos rfl]
    simp [List.isPrefixOf_iff_prefix, firstPrefixed, firstLonger]
  · have noneExtends : (t.records.any fun r =>
        input.isPrefixOf r.bytes && input.length < r.bytes.length) = false := by
      rw [List.any_eq_false]
      intro r member both
      simp only [Bool.and_eq_true, List.isPrefixOf_iff_prefix, decide_eq_true_eq] at both
      exact extended ⟨r, member, both⟩
    rw [noneExtends, if_neg Bool.false_ne_true]
    split
    · split
      · next r found =>
        -- the record looked at is one of all records, none of which extends the input
        have member := List.mem_of_find?_eq_some found
        have notExtends :
            ¬(input.length < r.bytes.length && input.isPrefixOf r.bytes) = true := by
          simp only [Bool.and_eq_true, decide_eq_true_eq, List.isPrefixOf_iff_prefix]
          exact fun both => extended ⟨r, member, both.2, both.1⟩
        rw [if_neg notExtends]
      · rfl
    · rfl

/-- On a well-formed table decoding gives what a scan of all records gives. -/
theorem decode_eq_scanDecode {t : LocaleTable} (wellFormed : t.WellFormed) (input : List UInt8) :
    t.decode input = t.scanDecode input := by
  by_cases empty : input = []
  · subst empty
    rfl
  have searched := decode_search_eq wellFormed input
  unfold decode scanDecode
  simp only [List.isEmpty_iff, empty, if_false, ← List.range'_eq_map_range, searched]
  cases found : (List.range' 1 input.length).findSome? fun n =>
      (t.recordWith? (input.take n)).map (·, n) with
  | some hit => rfl
  | none =>
    refine undecided_eq wellFormed empty fun n positive short => ?_
    have missed := List.findSome?_eq_none_iff.mp found n
      (List.mem_range'_1.mpr ⟨positive, by omega⟩)
    simpa using missed

/-! ### Encoding -/

/-- On a well-formed table encoding gives the bytes of the first record, in the order of the
second index, with the scalar value. -/
theorem encode_eq_scanEncode {t : LocaleTable} (wellFormed : t.WellFormed) (u : Nat) :
    t.encode u = t.scanEncode u := by
  rw [encode_eq wellFormed, scanEncode, indexedRecords, List.find?_filterMap]
  -- every entry of the second index is the position of a record
  have inside : ∀ i ∈ t.byScalar, i < t.records.length := fun i member =>
    List.mem_range.mp (wellFormed.index_perm.mem_iff.mp member)
  have same : ∀ i ∈ t.byScalar,
      (t.scalarAt i == u) = (t.records[i]?).any fun r => r.scalar == u := by
    intro i member
    simp [scalarAt, List.getElem?_eq_getElem (inside i member)]
  rw [List.find?_congr same]
  cases found : t.byScalar.find? (fun i => (t.records[i]?).any fun r => r.scalar == u) with
  | none => rfl
  | some i =>
    have located := inside i (List.mem_of_find?_eq_some found)
    simp [bytesAt, List.getElem?_eq_getElem located]

/-- On a well-formed table, decoding, which tries only the prefix lengths within the widths and
looks at a single record to tell an incomplete input from an invalid one, answers what a scan of
all records answers; and encoding through the sorted second index gives the bytes of the first
record in that index with the scalar value. -/
theorem lookups_agree_with_scans {t : LocaleTable} (wellFormed : t.WellFormed) :
    (∀ input, t.decode input = t.scanDecode input) ∧ ∀ u, t.encode u = t.scanEncode u :=
  ⟨decode_eq_scanDecode wellFormed, encode_eq_scanEncode wellFormed⟩

/-- A table of one single-byte and two double-byte characters is well formed, so its lookups
agree with the scans. -/
theorem lookups_agree_with_scans_double_byte :
    (⟨"DB", 1, 2, [⟨0x41, [0x41]⟩, ⟨0x3000, [0x81, 0x40]⟩, ⟨0x3001, [0x81, 0x41]⟩],
      [0, 1, 2]⟩ : LocaleTable).WellFormed ∧
    (∀ input, (⟨"DB", 1, 2, [⟨0x41, [0x41]⟩, ⟨0x3000, [0x81, 0x40]⟩, ⟨0x3001, [0x81, 0x41]⟩],
      [0, 1, 2]⟩ : LocaleTable).decode input =
        (⟨"DB", 1, 2, [⟨0x41, [0x41]⟩, ⟨0x3000, [0x81, 0x40]⟩, ⟨0x3001, [0x81, 0x41]⟩],
          [0, 1, 2]⟩ : LocaleTable).scanDecode input) ∧
    ∀ u, (⟨"DB", 1, 2, [⟨0x41, [0x41]⟩, ⟨0x3000, [0x81, 0x40]⟩, ⟨0x3001, [0x81, 0x41]⟩],
      [0, 1, 2]⟩ : LocaleTable).encode u =
        (⟨"DB", 1, 2, [⟨0x41, [0x41]⟩, ⟨0x3000, [0x81, 0x40]⟩, ⟨0x3001, [0x81, 0x41]⟩],
          [0, 1, 2]⟩ : LocaleTable).scanEncode u := by
  have wellFormed : (⟨"DB", 1, 2, [⟨0x41, [0x41]⟩, ⟨0x3000, [0x81, 0x40]⟩,
      ⟨0x3001, [0x81, 0x41]⟩], [0, 1, 2]⟩ : LocaleTable).WellFormed :=
    ⟨by decide, by decide, by decide, by decide, by decide, by decide, by decide, by decide,
      by decide⟩
  exact ⟨wellFormed, lookups_agree_with_scans wellFormed⟩

end LocaleTable

end LocaleCharmap
