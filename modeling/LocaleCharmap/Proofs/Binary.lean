import Mathlib
import LocaleCharmap.Proofs.Table
import LocaleCharmap.Proofs.Utf8
/-!
# Reading a packed table back

Reading the packed form of a well-formed table gives the table back, whatever bytes follow it; only
the name changes, cut to eight bytes on a character boundary and before its first `U+0000`.

Each read of the cursor gets a lemma that takes one field off the front of the bytes, so the header
is read by rewriting. The records and the second index are read by a loop each: one lemma reads
one record (one index entry) and passes every check on it, and the loop lemma follows by induction
on the records (the index), carrying the record before (the positions already listed and the
scalar value before).
-/

namespace LocaleCharmap

open LocaleCharmap.Text

/-! ### Numbers and fields -/

theorem toNat_toUInt8 {n : Nat} (small : n < 256) : n.toUInt8.toNat = n := by
  simp only [Nat.toUInt8, UInt8.toNat_ofNat']
  omega

theorem wordValue_word {n : Nat} (small : n < 2 ^ 32) : wordValue (word n) = n := by
  simp only [word, wordValue, List.foldr_cons, List.foldr_nil, Nat.toUInt8, UInt8.toNat_ofNat']
  omega

@[simp] theorem length_word (n : Nat) : (word n).length = 4 := rfl

@[simp] theorem length_tableMagic : tableMagic.length = 4 := rfl

@[simp] theorem length_slot (width : Nat) (bytes : List UInt8) :
    (slot width bytes).length = width := by
  simp [slot]
  omega

theorem take_slot {width : Nat} {bytes : List UInt8} (fits : bytes.length ≤ width) :
    (slot width bytes).take bytes.length = bytes := by
  simp [slot, List.take_take, Nat.min_eq_left fits]

theorem lt_of_isScalarValue {n : Nat} (scalar : isScalarValue n = true) : n < 2 ^ 32 := by
  unfold isScalarValue at scalar
  simp only [Bool.or_eq_true, decide_eq_true_eq, Bool.and_eq_true] at scalar
  omega

/-! ### The cursor -/

theorem Cursor.take_append {n : Nat} {taken : List UInt8} (length : taken.length = n)
    (more : List UInt8) (offset : Nat) :
    Cursor.take ⟨taken ++ more, offset⟩ n = .ok (taken, ⟨more, offset + n⟩) := by
  subst length
  simp [Cursor.take]

theorem Cursor.byte_cons (b : UInt8) (more : List UInt8) (offset : Nat) :
    Cursor.byte ⟨b :: more, offset⟩ = .ok (b.toNat, ⟨more, offset + 1⟩) := by
  have taken := Cursor.take_append (List.length_singleton : [b].length = 1) more offset
  rw [List.singleton_append] at taken
  simp only [Cursor.byte, taken]
  simp [wordValue]

theorem Cursor.word_append {n : Nat} (small : n < 2 ^ 32) (more : List UInt8) (offset : Nat) :
    Cursor.word ⟨LocaleCharmap.word n ++ more, offset⟩ = .ok (n, ⟨more, offset + 4⟩) := by
  simp only [Cursor.word, Cursor.take_append (length_word n) more offset]
  simp [wordValue_word small]

/-! ### The records -/

/-- One record as the packed format lays it out: its scalar value, its length and its slot. -/
def packedRecord (width : Nat) (r : Record) : List UInt8 :=
  word r.scalar ++ [r.bytes.length.toUInt8] ++ slot width r.bytes

/-- A record that fits the widths and comes after the one before reads back, and the loop goes
on after its slot. -/
theorem readRecords_record {least width : Nat} (small : width < 256) {r : Record}
    (fits : least ≤ r.bytes.length ∧ r.bytes.length ≤ width)
    (scalar : isScalarValue r.scalar = true)
    {previous : Option (List UInt8)} (after : ∀ p ∈ previous, bytesBefore p r.bytes = true)
    (count i : Nat) (more : List UInt8) (offset : Nat) :
    readRecords least width (count + 1) i previous ⟨packedRecord width r ++ more, offset⟩ =
      (fun read => (r :: read.1, read.2)) <$>
        readRecords least width count (i + 1) (some r.bytes)
          ⟨more, offset + 4 + 1 + width⟩ := by
  have length : r.bytes.length.toUInt8.toNat = r.bytes.length := toNat_toUInt8 (by omega)
  simp only [packedRecord, List.append_assoc, List.cons_append, List.nil_append, readRecords,
    Cursor.word_append (lt_of_isScalarValue scalar), Cursor.byte_cons,
    Cursor.take_append (length_slot width r.bytes), length, take_slot fits.2, scalar, bind,
    Except.bind]
  have inRange : (decide (r.bytes.length < least) || decide (width < r.bytes.length)) = false := by
    simp only [Bool.or_eq_false_iff, decide_eq_false_iff_not, Nat.not_lt]
    exact fits
  rw [if_neg (by rw [inRange]; exact Bool.false_ne_true), if_neg (by decide)]
  -- the order check runs only when there is a record before
  cases previous with
  | none => cases readRecords least width count (i + 1) (some r.bytes) _ <;> rfl
  | some p =>
    simp only [after p rfl, Bool.not_true, Bool.false_eq_true, if_false]
    cases readRecords least width count (i + 1) (some r.bytes) _ <;> rfl

/-- Records packed one after another read back as they were, each past the one before. -/
theorem readRecords_packed (least : Nat) {width : Nat} (small : width < 256) :
    ∀ {records : List Record} (previous : Option (List UInt8)),
    (∀ r ∈ records, least ≤ r.bytes.length ∧ r.bytes.length ≤ width) →
    (∀ r ∈ records, isScalarValue r.scalar = true) →
    records.Pairwise (fun a b => bytesBefore a.bytes b.bytes = true) →
    (∀ p ∈ previous, ∀ r ∈ records, bytesBefore p r.bytes = true) →
    ∀ (i : Nat) (more : List UInt8) (offset : Nat),
    readRecords least width records.length i previous
      ⟨records.flatMap (packedRecord width) ++ more, offset⟩ =
      .ok (records, ⟨more, offset + records.length * (5 + width)⟩)
  | [], _, _, _, _, _, i, more, offset => by simp [readRecords]
  | r :: rest, previous, fits, scalars, sorted, after, i, more, offset => by
    have sortedRest := List.pairwise_cons.mp sorted
    have step := readRecords_record small (fits r List.mem_cons_self)
      (scalars r List.mem_cons_self) (fun p member => after p member r List.mem_cons_self)
      rest.length i (rest.flatMap (packedRecord width) ++ more) offset
    -- the record just read is the one before every later record
    have later := readRecords_packed least small (some r.bytes)
      (fun r' member => fits r' (List.mem_cons_of_mem r member))
      (fun r' member => scalars r' (List.mem_cons_of_mem r member)) sortedRest.2
      (fun p same => Option.some_inj.mp same ▸ sortedRest.1) (i + 1) more (offset + 4 + 1 + width)
    rw [List.length_cons, List.flatMap_cons, List.append_assoc _ (rest.flatMap _), step, later]
    simp only [Except.map_ok]
    congr 3
    ring

/-! ### The second index -/

theorem scalarAt_eq (t : LocaleTable) (i : Nat) :
    (t.records.toArray[i]?.map (·.scalar)).getD 0 = t.scalarAt i := by
  simp [LocaleTable.scalarAt]

/-- A fresh position whose scalar value is not below the one before reads back, and the loop goes
on with the position marked. -/
theorem readIndex_entry (t : LocaleTable) {i : Nat} (small : i < 2 ^ 32) {seen : Array Bool}
    (fresh : seen[i]? = some false) {previous : Nat} (ordered : previous ≤ t.scalarAt i)
    (count : Nat) (more : List UInt8) (offset : Nat) :
    readIndex t.records.toArray (count + 1) seen previous ⟨word i ++ more, offset⟩ =
      (i :: ·) <$> readIndex t.records.toArray count (seen.setIfInBounds i true) (t.scalarAt i)
        ⟨more, offset + 4⟩ := by
  simp only [readIndex, Cursor.word_append small, fresh, scalarAt_eq, bind, Except.bind,
    Bool.false_eq_true, if_false, if_neg (Nat.not_lt.mpr ordered)]
  cases readIndex t.records.toArray count (seen.setIfInBounds i true) (t.scalarAt i) _ <;> rfl

/-- Index entries packed one after another read back as they were, given that each is a fresh
position and the scalar values do not decrease. -/
theorem readIndex_packed (t : LocaleTable) :
    ∀ (index : List Nat) (seen : Array Bool) (previous : Nat),
    (∀ i ∈ index, i < 2 ^ 32 ∧ seen[i]? = some false ∧ previous ≤ t.scalarAt i) →
    index.Nodup → (index.map t.scalarAt).Pairwise (· ≤ ·) →
    ∀ (more : List UInt8) (offset : Nat),
    readIndex t.records.toArray index.length seen previous
      ⟨index.flatMap word ++ more, offset⟩ = .ok index
  | [], _, _, _, _, _, more, offset => by simp [readIndex]
  | i :: rest, seen, previous, fresh, distinct, sorted, more, offset => by
    obtain ⟨small, unseen, ordered⟩ := fresh i List.mem_cons_self
    have distinctRest := List.nodup_cons.mp distinct
    have sortedRest := List.pairwise_cons.mp (List.map_cons ▸ sorted)
    -- marking position i keeps every later position fresh, and its scalar bounds the later ones
    have later := readIndex_packed t rest (seen.setIfInBounds i true) (t.scalarAt i)
      (fun j member => by
        obtain ⟨smallJ, unseenJ, -⟩ := fresh j (List.mem_cons_of_mem i member)
        have different : i ≠ j := fun same => distinctRest.1 (same ▸ member)
        refine ⟨smallJ, ?_, sortedRest.1 _ (List.mem_map_of_mem member)⟩
        rw [Array.getElem?_setIfInBounds_ne different]
        exact unseenJ)
      distinctRest.2 sortedRest.2 more (offset + 4)
    rw [List.length_cons, List.flatMap_cons, List.append_assoc,
      readIndex_entry t small unseen ordered, later]
    rfl

/-! ### The name -/

theorem nameField_eq (name : String) :
    nameField name = (prefixWithinBytes 8 name.toList).flatMap String.utf8EncodeChar ++
      List.replicate (8 - ((prefixWithinBytes 8 name.toList).flatMap
        String.utf8EncodeChar).length) 0 := by
  simp only [nameField, utf8Bytes_ofList]

@[simp] theorem length_nameField (name : String) : (nameField name).length = 8 := by
  have fits := prefixWithinBytes_fits 8 name.toList
  rw [nameField_eq, List.length_append, List.length_replicate, length_flatMap_utf8EncodeChar]
  omega

/-- The name field reads back as the name cut to eight bytes and before its first `U+0000`. -/
theorem decodeReplacing_nameField (name : String) :
    decodeReplacing ((nameField name).takeWhile (· != 0)) =
      String.ofList ((prefixWithinBytes 8 name.toList).takeWhile (· != '\x00')) := by
  rw [nameField_eq, takeWhile_flatMap_utf8EncodeChar, decodeReplacing_flatMap_utf8EncodeChar]

/-! ### The whole table -/

namespace LocaleTable

/-- The packed table field by field, as the reader takes it apart. -/
theorem toBytes_append (t : LocaleTable) (junk : List UInt8) :
    t.toBytes ++ junk = nameField t.name ++ (tableMagic ++
      (tableVersion.toUInt8 :: t.mbCurMin.toUInt8 :: t.mbCurMax.toUInt8 :: 0 ::
        (word t.records.length ++ (t.records.flatMap (packedRecord t.mbCurMax) ++
          (t.byScalar.flatMap word ++ junk))))) := by
  have packed : (fun r : Record => word r.scalar ++ [r.bytes.length.toUInt8] ++
      slot t.mbCurMax r.bytes) = packedRecord t.mbCurMax := rfl
  rw [toBytes, packed]
  simp only [List.append_assoc, List.cons_append, List.nil_append]

theorem length_toBytes (t : LocaleTable) :
    t.toBytes.length =
      headerLength + t.records.length * (5 + t.mbCurMax) + 4 * t.byScalar.length := by
  simp [toBytes, List.length_flatMap, headerLength, tableMagic]
  ring

theorem WellFormed.length_byScalar {t : LocaleTable} (wellFormed : t.WellFormed) :
    t.byScalar.length = t.records.length := by
  rw [wellFormed.index_perm.length_eq, List.length_range]

/-- A well-formed table packs into `encodedLength` bytes. -/
theorem WellFormed.length_toBytes {t : LocaleTable} (wellFormed : t.WellFormed) :
    t.toBytes.length = t.encodedLength := by
  rw [LocaleTable.length_toBytes, wellFormed.length_byScalar, encodedLength]
  ring

/-- Reading the packed form of a well-formed table, followed by any bytes, gives the table back
with its name cut to eight bytes and before its first `U+0000`. -/
theorem ofBytes_toBytes_append {t : LocaleTable} (wellFormed : t.WellFormed)
    (junk : List UInt8) :
    ofBytes (t.toBytes ++ junk) = .ok
      { t with name := String.ofList ((prefixWithinBytes 8 t.name.toList).takeWhile
          (· != '\x00')) } := by
  have mostSmall : t.mbCurMax < 256 := by
    have := wellFormed.most_le
    omega
  have leastSmall : t.mbCurMin < 256 := by
    have := wellFormed.least_le_most
    omega
  have widths : (decide (t.mbCurMin = 0) || decide (t.mbCurMax < t.mbCurMin) ||
      decide (16 < t.mbCurMax)) = false := by
    have := wellFormed.least_pos
    have := wellFormed.least_le_most
    have := wellFormed.most_le
    simp only [Bool.or_eq_false_iff, decide_eq_false_iff_not]
    omega
  have longEnough : ¬ (t.toBytes ++ junk).length <
      t.records.length * (5 + t.mbCurMax + 4) + headerLength := by
    rw [List.length_append, wellFormed.length_toBytes, encodedLength]
    omega
  have records := readRecords_packed t.mbCurMin mostSmall none
    wellFormed.lengths wellFormed.scalars wellFormed.sorted (by simp) 0
    (t.byScalar.flatMap word ++ junk)
  -- the index lists positions of records, each once, so all are fresh in the initial marks
  have positions : ∀ i ∈ t.byScalar, i < t.records.length := fun i member =>
    List.mem_range.mp (wellFormed.index_perm.mem_iff.mp member)
  have index := readIndex_packed t t.byScalar (Array.replicate t.records.length false) 0
    (fun i member => ⟨by have := positions i member; have := wellFormed.size_lt; omega,
      by simp [positions i member], Nat.zero_le _⟩)
    (wellFormed.index_perm.nodup_iff.mpr List.nodup_range) wellFormed.index_sorted junk
  rw [wellFormed.length_byScalar] at index
  unfold ofBytes
  rw [toBytes_append] at longEnough ⊢
  simp only [Cursor.take_append (length_nameField t.name), decodeReplacing_nameField, bind,
    Except.bind, Cursor.take_append length_tableMagic, bne_self_eq_false,
    Bool.false_eq_true, if_false, Cursor.byte_cons, Cursor.word_append wellFormed.size_lt,
    toNat_toUInt8 (by decide : tableVersion < 256), toNat_toUInt8 leastSmall,
    toNat_toUInt8 mostSmall, widths, longEnough, records, index]
  rfl

/-- What reading a packed table back promises: after any bytes, it gives the table back with its
name cut to the longest prefix of at most eight bytes on a character boundary, and then before its
first `U+0000`. -/
def ReadsBack (t : LocaleTable) : Prop :=
  ∀ junk : List UInt8, ∃ cut, LongestPrefixWithin 8 t.name.toList cut ∧
    ofBytes (t.toBytes ++ junk) = .ok { t with name := String.ofList (cut.takeWhile (· != '\x00')) }

theorem WellFormed.readsBack {t : LocaleTable} (wellFormed : t.WellFormed) : t.ReadsBack :=
  fun junk => ⟨prefixWithinBytes 8 t.name.toList,
    longestPrefixWithin_prefixWithinBytes 8 t.name.toList, ofBytes_toBytes_append wellFormed junk⟩

end LocaleTable

end LocaleCharmap
