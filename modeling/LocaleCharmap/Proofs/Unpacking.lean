import Mathlib
import LocaleCharmap.Proofs.Binary
/-!
# What reading packed bytes accepts

Reading packed bytes succeeds only on a well-formed table, and the bytes it read are the packed form
of that table wherever the table's contents decide them: everywhere but the name field, the
reserved header byte and the padding after each record's bytes. Packing the table and reading it
again gives it back with its name cut to eight bytes on a character boundary, so with the same name
whenever the name takes at most eight bytes. A name field that is not UTF-8 can read as a longer
name: each malformed byte stands for a replacement character of three bytes.

The proofs run the reader backwards. Each read of the cursor takes its field off the front of the
bytes; the record loop and the index loop are inverted by induction on the count, each step
collecting the checks the reader made on one record (one index entry).
-/

namespace LocaleCharmap

open LocaleCharmap.Text

/-! ### Reading off the cursor -/

theorem exists_of_bind_eq_ok {ε α β : Type} {x : Except ε α} {f : α → Except ε β} {b : β}
    (ran : (x >>= f) = .ok b) : ∃ a, x = .ok a ∧ f a = .ok b := by
  cases x with
  | error e => cases ran
  | ok a => exact ⟨a, rfl, ran⟩

theorem toUInt8_toNat (b : UInt8) : b.toNat.toUInt8 = b := by
  simp [Nat.toUInt8, UInt8.ofNat_toNat]

theorem word_wordValue {bs : List UInt8} (four : bs.length = 4) :
    word (wordValue bs) = bs ∧ wordValue bs < 2 ^ 32 := by
  match bs, four with
  | [a, b, c, d], _ =>
    have := a.toNat_lt
    have := b.toNat_lt
    have := c.toNat_lt
    have := d.toNat_lt
    simp only [word, wordValue, List.foldr_cons, List.foldr_nil, List.cons.injEq, and_true]
    refine ⟨⟨?_, ?_, ?_, ?_⟩, by omega⟩ <;> apply UInt8.toNat_inj.mp <;>
      simp [Nat.toUInt8, UInt8.toNat_ofNat'] <;> omega

theorem Cursor.take_ok {c c' : Cursor} {n : Nat} {taken : List UInt8}
    (read : c.take n = .ok (taken, c')) : taken.length = n ∧ c.rest = taken ++ c'.rest := by
  unfold Cursor.take at read
  dsimp only at read
  split at read
  · rename_i length
    cases read
    exact ⟨length, (List.take_append_drop n c.rest).symm⟩
  · cases read

theorem Cursor.byte_ok {c c' : Cursor} {v : Nat} (read : c.byte = .ok (v, c')) :
    ∃ b : UInt8, c.rest = b :: c'.rest ∧ v = b.toNat := by
  obtain ⟨⟨bs, c₁⟩, taken, read⟩ := exists_of_bind_eq_ok read
  cases read
  obtain ⟨one, split⟩ := Cursor.take_ok taken
  obtain ⟨b, rfl⟩ := List.length_eq_one_iff.mp one
  exact ⟨b, split, by simp [wordValue]⟩

theorem Cursor.word_ok {c c' : Cursor} {v : Nat} (read : c.word = .ok (v, c')) :
    c.rest = LocaleCharmap.word v ++ c'.rest ∧ v < 2 ^ 32 := by
  obtain ⟨⟨bs, c₁⟩, taken, read⟩ := exists_of_bind_eq_ok read
  cases read
  obtain ⟨four, split⟩ := Cursor.take_ok taken
  obtain ⟨same, small⟩ := word_wordValue four
  exact ⟨by rw [same, split], small⟩

/-! ### The records -/

/-- A record as it stands in bytes it is read from: its scalar value, its length and its bytes,
then padding up to the width. -/
def LaidOut (width : Nat) (r : Record) (field : List UInt8) : Prop :=
  ∃ pad : List UInt8, pad.length = width - r.bytes.length ∧
    field = word r.scalar ++ [r.bytes.length.toUInt8] ++ r.bytes ++ pad

/-- What the record loop checks of the records it reads, `previous` being the bytes of the
record before them. -/
structure RecordsChecked (least width : Nat) (previous : Option (List UInt8))
    (records : List Record) : Prop where
  fits : ∀ r ∈ records, least ≤ r.bytes.length ∧ r.bytes.length ≤ width
  scalars : ∀ r ∈ records, isScalarValue r.scalar = true
  sorted : records.Pairwise fun a b => bytesBefore a.bytes b.bytes = true
  after : ∀ p ∈ previous, ∀ r ∈ records, bytesBefore p r.bytes = true

theorem RecordsChecked.cons {least width : Nat} {previous : Option (List UInt8)} {r : Record}
    {more : List Record} (checked : RecordsChecked least width (some r.bytes) more)
    (fits : least ≤ r.bytes.length ∧ r.bytes.length ≤ width)
    (scalar : isScalarValue r.scalar = true)
    (after : ∀ p ∈ previous, bytesBefore p r.bytes = true) :
    RecordsChecked least width previous (r :: more) where
  fits := List.forall_mem_cons.mpr ⟨fits, checked.fits⟩
  scalars := List.forall_mem_cons.mpr ⟨scalar, checked.scalars⟩
  sorted := List.pairwise_cons.mpr ⟨checked.after r.bytes rfl, checked.sorted⟩
  after p member := List.forall_mem_cons.mpr ⟨after p member, fun r' later =>
    bytesBefore_trans (after p member) (checked.after r.bytes rfl r' later)⟩

/-- One round of the record loop reads a record and its slot off the front of the bytes, and
passes its checks only when the record fits the widths, has a scalar value and comes after the
record before. -/
theorem readRecords_succ_ok {least width count i : Nat} {previous : Option (List UInt8)}
    {c c' : Cursor} {records : List Record}
    (read : readRecords least width (count + 1) i previous c = .ok (records, c')) :
    ∃ (r : Record) (field : List UInt8) (c₃ : Cursor) (more : List Record),
      LaidOut width r field ∧ c.rest = field ++ c₃.rest ∧
      (least ≤ r.bytes.length ∧ r.bytes.length ≤ width) ∧ isScalarValue r.scalar = true ∧
      (∀ p ∈ previous, bytesBefore p r.bytes = true) ∧
      readRecords least width count (i + 1) (some r.bytes) c₃ = .ok (more, c') ∧
      records = r :: more := by
  rw [readRecords] at read
  obtain ⟨⟨scalar, c₁⟩, wordRead, read⟩ := exists_of_bind_eq_ok read
  obtain ⟨⟨length, c₂⟩, byteRead, read⟩ := exists_of_bind_eq_ok read
  obtain ⟨⟨field, c₃⟩, fieldRead, read⟩ := exists_of_bind_eq_ok read
  dsimp only at read
  split at read
  · cases read
  rename_i lengthChecked
  split at read
  · cases read
  rename_i scalarChecked
  -- the order check runs only when there is a record before
  obtain ⟨ordered, read⟩ :
      (∀ p ∈ previous, bytesBefore p (field.take length) = true) ∧ _ := by
    cases previous with
    | none => exact ⟨fun p member => (by cases member), read⟩
    | some p =>
      by_cases before : bytesBefore p (field.take length) = true
      · simp only [before, Bool.not_true, Bool.false_eq_true, if_false] at read
        exact ⟨fun p' same => Option.some_inj.mp same ▸ before, read⟩
      · simp only [before, Bool.not_false, if_true] at read
        cases read
  obtain ⟨⟨more, c₄⟩, later, read⟩ := exists_of_bind_eq_ok read
  cases read
  obtain ⟨wordSplit, -⟩ := Cursor.word_ok wordRead
  obtain ⟨b, byteSplit, rfl⟩ := Cursor.byte_ok byteRead
  obtain ⟨fieldLength, fieldSplit⟩ := Cursor.take_ok fieldRead
  have fits : least ≤ b.toNat ∧ b.toNat ≤ width := by
    simp only [Bool.or_eq_true, decide_eq_true_eq, not_or, Nat.not_lt] at lengthChecked
    exact lengthChecked
  have bytesLength : (field.take b.toNat).length = b.toNat := by
    rw [List.length_take]
    omega
  refine ⟨⟨scalar, field.take b.toNat⟩, word scalar ++ [b] ++ field, c₃, more,
    ⟨field.drop b.toNat, ?_, ?_⟩, ?_, by rw [bytesLength]; exact fits,
    by simpa using scalarChecked, ordered, later, rfl⟩
  · simp [bytesLength, fieldLength]
  · simp [bytesLength, Nat.toUInt8, UInt8.ofNat_toNat]
  · rw [wordSplit, byteSplit, fieldSplit]
    simp

/-- The records read are as many as asked, pass every check, and are laid out one after another
at the front of the bytes. -/
theorem readRecords_ok (least width : Nat) :
    ∀ {count i : Nat} {previous : Option (List UInt8)} {c c' : Cursor} {records : List Record},
    readRecords least width count i previous c = .ok (records, c') →
    records.length = count ∧ RecordsChecked least width previous records ∧
      ∃ fields, List.Forall₂ (LaidOut width) records fields ∧
        c.rest = fields.flatten ++ c'.rest
  | 0, _, _, c, c', records, read => by
    simp only [readRecords, Except.ok.injEq, Prod.mk.injEq] at read
    obtain ⟨rfl, rfl⟩ := read
    exact ⟨rfl, ⟨by simp, by simp, .nil, by simp⟩, [], .nil, rfl⟩
  | count + 1, i, previous, c, c', records, read => by
    obtain ⟨r, field, c₃, more, laidOut, split, fits, valid, ordered, later, rfl⟩ :=
      readRecords_succ_ok read
    obtain ⟨counted, checked, fields, laidOuts, rest⟩ := readRecords_ok least width later
    refine ⟨by simp [counted], checked.cons fits valid ordered, field :: fields,
      .cons laidOut laidOuts, ?_⟩
    rw [split, rest, List.flatten_cons, List.append_assoc]

/-! ### The second index -/

/-- One round of the index loop reads a position off the front of the bytes, and passes its
checks only when the position is unmarked and its scalar value is not below the one before. -/
theorem readIndex_succ_ok {t : LocaleTable} {count : Nat} {seen : Array Bool} {previous : Nat}
    {c : Cursor} {index : List Nat}
    (read : readIndex t.records.toArray (count + 1) seen previous c = .ok index) :
    ∃ (i : Nat) (c₁ : Cursor) (more : List Nat),
      c.rest = word i ++ c₁.rest ∧ seen[i]? = some false ∧ previous ≤ t.scalarAt i ∧
      readIndex t.records.toArray count (seen.setIfInBounds i true) (t.scalarAt i) c₁ =
        .ok more ∧
      index = i :: more := by
  rw [readIndex] at read
  obtain ⟨⟨i, c₁⟩, wordRead, read⟩ := exists_of_bind_eq_ok read
  dsimp only at read
  split at read
  case h_2 => simp [throw, throwThe, MonadExceptOf.throw] at read
  rename_i wasSeen lookup
  split at read
  · cases read
  rename_i unseen
  split at read
  · cases read
  rename_i ordered
  obtain ⟨more, later, read⟩ := exists_of_bind_eq_ok read
  cases read
  rw [scalarAt_eq] at ordered later
  refine ⟨i, c₁, more, (Cursor.word_ok wordRead).1, ?_, Nat.not_lt.mp ordered, later, rfl⟩
  simpa using lookup.trans (by simpa using unseen)

/-- What the index loop checks of the positions it reads: as many as asked, each once, each
unmarked in `seen` and with a scalar value not below `previous`, in order of scalar value; and
they are the words at the front of the bytes. -/
theorem readIndex_ok (t : LocaleTable) :
    ∀ {count : Nat} {seen : Array Bool} {previous : Nat} {c : Cursor} {index : List Nat},
    readIndex t.records.toArray count seen previous c = .ok index →
    index.length = count ∧ index.Nodup ∧
      (∀ i ∈ index, seen[i]? = some false ∧ previous ≤ t.scalarAt i) ∧
      (index.map t.scalarAt).Pairwise (· ≤ ·) ∧ ∃ rest, c.rest = index.flatMap word ++ rest
  | 0, _, _, c, index, read => by
    cases read
    exact ⟨rfl, .nil, by simp, .nil, c.rest, rfl⟩
  | count + 1, seen, previous, c, index, read => by
    obtain ⟨i, c₁, more, split, unmarked, ordered, later, rfl⟩ := readIndex_succ_ok read
    obtain ⟨counted, distinct, fresh, sorted, rest, restSplit⟩ := readIndex_ok t later
    have inside : i < seen.size := (Array.getElem?_eq_some_iff.mp unmarked).1
    -- position `i` is marked for the rest of the loop, so it is not listed again
    have unlisted : i ∉ more := fun member => by
      have marked := (fresh i member).1
      rw [Array.getElem?_setIfInBounds_self_of_lt inside] at marked
      cases marked
    refine ⟨by simp [counted], List.nodup_cons.mpr ⟨unlisted, distinct⟩, ?_,
      List.pairwise_cons.mpr ⟨?_, sorted⟩, rest,
      by rw [split, restSplit, List.flatMap_cons, List.append_assoc]⟩
    · intro j member
      rcases List.mem_cons.mp member with rfl | later
      · exact ⟨unmarked, ordered⟩
      · obtain ⟨marks, bound⟩ := fresh j later
        have different : i ≠ j := fun same => unlisted (same ▸ later)
        rw [Array.getElem?_setIfInBounds_ne different] at marks
        exact ⟨marks, ordered.trans bound⟩
    · intro s member
      obtain ⟨j, later, rfl⟩ := List.mem_map.mp member
      exact (fresh j later).2

/-- Positions read against marks that start all unset, none repeated and as many as the records,
list every record position once. -/
theorem perm_range_of_unmarked {index : List Nat} {n : Nat} (length : index.length = n)
    (distinct : index.Nodup)
    (unmarked : ∀ i ∈ index, (Array.replicate n false)[i]? = some false) :
    index.Perm (List.range n) := by
  have bound : ∀ i ∈ index, i < n := fun i member => by
    have mark := unmarked i member
    simp only [Array.getElem?_replicate] at mark
    split at mark
    · assumption
    · cases mark
  exact (List.subperm_of_subset distinct fun i member =>
    List.mem_range.mpr (bound i member)).perm_of_length_le (by simp [length])

/-! ### The whole table -/

namespace LocaleTable

/-- The bytes a table is read from: a name field of eight bytes that reads as its name, the header
with any reserved byte, each record followed by padding to the width, the second index, then any
bytes. -/
def LaidOutIn (t : LocaleTable) (d : List UInt8) : Prop :=
  ∃ rawName reserved fields junk, rawName.length = 8 ∧
    t.name = decodeReplacing (rawName.takeWhile (· != 0)) ∧
    List.Forall₂ (LaidOut t.mbCurMax) t.records fields ∧
    d = rawName ++ tableMagic ++
      [tableVersion.toUInt8, t.mbCurMin.toUInt8, t.mbCurMax.toUInt8, reserved] ++
      word t.records.length ++ fields.flatten ++ t.byScalar.flatMap word ++ junk

/-- A table read from bytes is well formed and laid out in them. -/
theorem ofBytes_ok {d : List UInt8} {t : LocaleTable} (read : ofBytes d = .ok t) :
    t.WellFormed ∧ t.LaidOutIn d := by
  unfold ofBytes at read
  obtain ⟨⟨rawName, c₁⟩, nameRead, read⟩ := exists_of_bind_eq_ok read
  obtain ⟨⟨magic, c₂⟩, magicRead, read⟩ := exists_of_bind_eq_ok read
  dsimp only at read
  split at read
  · cases read
  rename_i magicChecked
  obtain ⟨⟨version, c₃⟩, versionRead, read⟩ := exists_of_bind_eq_ok read
  split at read
  · cases read
  rename_i versionChecked
  obtain ⟨⟨least, c₄⟩, leastRead, read⟩ := exists_of_bind_eq_ok read
  obtain ⟨⟨most, c₅⟩, mostRead, read⟩ := exists_of_bind_eq_ok read
  obtain ⟨⟨reserved, c₆⟩, reservedRead, read⟩ := exists_of_bind_eq_ok read
  split at read
  · cases read
  rename_i widthsChecked
  obtain ⟨⟨count, c₇⟩, countRead, read⟩ := exists_of_bind_eq_ok read
  split at read
  · cases read
  obtain ⟨⟨records, c₈⟩, recordsRead, read⟩ := exists_of_bind_eq_ok read
  obtain ⟨index, indexRead, read⟩ := exists_of_bind_eq_ok read
  cases read
  dsimp only at *
  obtain ⟨nameLength, nameSplit⟩ := Cursor.take_ok nameRead
  obtain ⟨magicLength, magicSplit⟩ := Cursor.take_ok magicRead
  obtain ⟨v, versionSplit, rfl⟩ := Cursor.byte_ok versionRead
  obtain ⟨lo, leastSplit, rfl⟩ := Cursor.byte_ok leastRead
  obtain ⟨hi, mostSplit, rfl⟩ := Cursor.byte_ok mostRead
  obtain ⟨r, reservedSplit, rfl⟩ := Cursor.byte_ok reservedRead
  obtain ⟨countSplit, countSmall⟩ := Cursor.word_ok countRead
  obtain ⟨counted, checked, fields, laidOut, recordsSplit⟩ := readRecords_ok _ _ recordsRead
  obtain ⟨indexed, distinct, fresh, sorted, junk, indexSplit⟩ :=
    readIndex_ok
      ⟨decodeReplacing (rawName.takeWhile (· != 0)), lo.toNat, hi.toNat, records, index⟩
      indexRead
  simp only [bne_iff_ne, ne_eq, Decidable.not_not] at magicChecked versionChecked
  simp only [Bool.or_eq_true, decide_eq_true_eq, not_or, Nat.not_lt] at widthsChecked
  subst counted
  refine ⟨⟨Nat.one_le_iff_ne_zero.mpr widthsChecked.1.1, widthsChecked.1.2, widthsChecked.2,
    countSmall, checked.sorted, checked.fits, checked.scalars,
    perm_range_of_unmarked indexed distinct fun i member => (fresh i member).1, sorted⟩,
    rawName, r, fields, junk, nameLength, rfl, laidOut, ?_⟩
  have start : d = rawName ++ c₁.rest := nameSplit
  rw [start, magicSplit, versionSplit, leastSplit, mostSplit, reservedSplit, countSplit,
    recordsSplit, indexSplit, magicChecked, ← versionChecked, toUInt8_toNat, toUInt8_toNat,
    toUInt8_toNat]
  simp

end LocaleTable

/-! ### Agreement with the packed form -/

/-- Two byte strings agree wherever the mask is `true`. -/
def AgreeWhere (mask : List Bool) (xs ys : List UInt8) : Prop :=
  ∀ p : Nat, mask[p]? = some true → xs[p]? = ys[p]?

namespace AgreeWhere

theorem refl (mask : List Bool) (xs : List UInt8) : AgreeWhere mask xs xs := fun _ _ => rfl

theorem replicate_false (n : Nat) (xs ys : List UInt8) :
    AgreeWhere (List.replicate n false) xs ys := fun p marked => by
  simp [List.getElem?_replicate] at marked

theorem append {m₁ m₂ : List Bool} {x₁ x₂ y₁ y₂ : List UInt8}
    (first : AgreeWhere m₁ x₁ y₁) (second : AgreeWhere m₂ x₂ y₂)
    (left : x₁.length = m₁.length) (right : y₁.length = m₁.length) :
    AgreeWhere (m₁ ++ m₂) (x₁ ++ x₂) (y₁ ++ y₂) := fun p marked => by
  by_cases inside : p < m₁.length
  · rw [List.getElem?_append_left inside] at marked
    rw [List.getElem?_append_left (left ▸ inside), List.getElem?_append_left (right ▸ inside)]
    exact first p marked
  · rw [List.getElem?_append_right (Nat.le_of_not_lt inside)] at marked
    rw [List.getElem?_append_right (by omega), List.getElem?_append_right (by omega), left, right]
    exact second _ marked

theorem append_right {mask : List Bool} {xs ys : List UInt8} (agree : AgreeWhere mask xs ys)
    (short : mask.length ≤ ys.length) (junk : List UInt8) :
    AgreeWhere mask xs (ys ++ junk) := fun p marked => by
  have inside : p < mask.length := (List.getElem?_eq_some_iff.mp marked).1
  rw [List.getElem?_append_left (by omega)]
  exact agree p marked

end AgreeWhere

/-- The bytes of a record's place that its contents fix: all but the padding after its bytes. -/
def recordMask (width : Nat) (r : Record) : List Bool :=
  List.replicate (5 + r.bytes.length) true ++ List.replicate (width - r.bytes.length) false

theorem LaidOut.length {width : Nat} {r : Record} {field : List UInt8}
    (laidOut : LaidOut width r field) : field.length = (recordMask width r).length := by
  obtain ⟨pad, padLength, rfl⟩ := laidOut
  simp [recordMask, padLength]
  omega

/-- Two places of one record agree on all but their padding. -/
theorem LaidOut.agree {width : Nat} {r : Record} {f g : List UInt8} (first : LaidOut width r f)
    (second : LaidOut width r g) : AgreeWhere (recordMask width r) f g := by
  obtain ⟨pad, padLength, rfl⟩ := first
  obtain ⟨pad', padLength', rfl⟩ := second
  refine AgreeWhere.append (AgreeWhere.refl _ _) (AgreeWhere.replicate_false _ pad pad') ?_ ?_ <;>
    simp <;> omega

theorem agreeWhere_flatten {width : Nat} :
    ∀ {records : List Record} {fs gs : List (List UInt8)},
    List.Forall₂ (LaidOut width) records fs → List.Forall₂ (LaidOut width) records gs →
    AgreeWhere (records.flatMap (recordMask width)) fs.flatten gs.flatten
  | [], [], [], .nil, .nil => AgreeWhere.refl _ _
  | _ :: _, _ :: _, _ :: _, .cons first firsts, .cons second seconds =>
    AgreeWhere.append (first.agree second) (agreeWhere_flatten firsts seconds) first.length
      second.length

theorem length_flatten_of_laidOut {width : Nat} :
    ∀ {records : List Record} {fs : List (List UInt8)},
    List.Forall₂ (LaidOut width) records fs →
    fs.flatten.length = (records.flatMap (recordMask width)).length
  | [], [], .nil => rfl
  | _ :: _, _ :: _, .cons first firsts => by
    simp only [List.flatten_cons, List.flatMap_cons, List.length_append, first.length,
      length_flatten_of_laidOut firsts]

theorem packedRecord_laidOut {width : Nat} {r : Record} (fits : r.bytes.length ≤ width) :
    LaidOut width r (packedRecord width r) := by
  refine ⟨List.replicate (width - r.bytes.length) 0, by simp, ?_⟩
  rw [packedRecord, slot, List.take_of_length_le (by simp; omega)]
  simp only [List.append_assoc]

/-- The header bytes that a table's contents fix: all but the name field and the reserved byte. -/
def headerMask : List Bool :=
  List.replicate 8 false ++ List.replicate 4 true ++ [true, true, true, false] ++
    List.replicate 4 true

theorem agreeWhere_header {nameBytes rawName : List UInt8} (name : nameBytes.length = 8)
    (raw : rawName.length = 8) (version least most reserved : UInt8) (count : Nat) :
    AgreeWhere headerMask (nameBytes ++ tableMagic ++ [version, least, most, 0] ++ word count)
      (rawName ++ tableMagic ++ [version, least, most, reserved] ++ word count) := by
  have widths : AgreeWhere [true, true, true, false] [version, least, most, 0]
      [version, least, most, reserved] := fun p marked => by
    match p, marked with
    | 0, _ | 1, _ | 2, _ => rfl
    | 3, marked => cases marked
    | _ + 4, marked => cases marked
  refine AgreeWhere.append (AgreeWhere.append (AgreeWhere.append
    (AgreeWhere.replicate_false 8 _ _) (AgreeWhere.refl _ _) ?_ ?_) widths ?_ ?_)
    (AgreeWhere.refl _ _) ?_ ?_ <;> simp [name, raw]

namespace LocaleTable

/-- The bytes of the packed form that a table's contents fix: all but the name field, the
reserved header byte and the padding after each record's bytes. -/
def fixedBytes (t : LocaleTable) : List Bool :=
  headerMask ++ t.records.flatMap (recordMask t.mbCurMax) ++
    List.replicate (4 * t.byScalar.length) true

/-- The packed form of a well-formed table agrees with bytes the table is laid out in wherever
its contents fix a byte, and is no longer than them. -/
theorem LaidOutIn.agree {t : LocaleTable} {d : List UInt8} (wellFormed : t.WellFormed)
    (laidOut : t.LaidOutIn d) :
    AgreeWhere t.fixedBytes t.toBytes d ∧ t.fixedBytes.length = t.toBytes.length ∧
      t.toBytes.length ≤ d.length := by
  obtain ⟨rawName, reserved, fields, junk, nameLength, -, records, rfl⟩ := laidOut
  have packed : List.Forall₂ (LaidOut t.mbCurMax) t.records
      (t.records.map (packedRecord t.mbCurMax)) :=
    List.forall₂_map_right_iff.mpr (List.forall₂_same.mpr fun r member =>
      packedRecord_laidOut (wellFormed.lengths r member).2)
  have header := agreeWhere_header (length_nameField t.name) nameLength tableVersion.toUInt8
    t.mbCurMin.toUInt8 t.mbCurMax.toUInt8 reserved t.records.length
  have body := agreeWhere_flatten packed records
  have bytes : t.toBytes = nameField t.name ++ tableMagic ++
      [tableVersion.toUInt8, t.mbCurMin.toUInt8, t.mbCurMax.toUInt8, 0] ++
      word t.records.length ++ (t.records.map (packedRecord t.mbCurMax)).flatten ++
      t.byScalar.flatMap word := by
    rw [toBytes, ← List.flatMap_def]
    rfl
  have packedLength := length_flatten_of_laidOut packed
  have fieldsLength := length_flatten_of_laidOut records
  rw [bytes]
  refine ⟨AgreeWhere.append_right (AgreeWhere.append (AgreeWhere.append header body ?_ ?_)
    (AgreeWhere.refl _ _) ?_ ?_) ?_ junk, ?_, ?_⟩ <;>
    simp [fixedBytes, headerMask, packedLength, fieldsLength, nameLength] <;> omega

end LocaleTable

/-! ### The name -/

/-- No malformed part reads as `U+0000`, and a well-formed sequence reads as `U+0000` only from a
zero byte. -/
theorem some_null_not_mem_decodePieces {bytes : List UInt8} (nonzero : ∀ b ∈ bytes, b ≠ 0) :
    some '\x00' ∉ decodePieces bytes := by
  induction bytes using decodePieces.induct with
  | case1 =>
    rw [decodePieces]
    simp
  | case2 lead rest step =>
    rename_i inductionHypothesis
    rw [decodePieces]
    intro member
    rcases List.mem_cons.mp member with first | later
    · have sequence : decodeSequence lead rest = (some '\x00', step.2) := by
        rw [first]
      have encoded := utf8EncodeChar_append_of_decodeSequence sequence
      rw [utf8EncodeChar_null, List.singleton_append, List.cons.injEq] at encoded
      exact nonzero lead List.mem_cons_self encoded.1.symm
    · exact inductionHypothesis (fun b member => nonzero b
        (List.mem_cons_of_mem lead (List.mem_of_mem_drop member))) later

theorem null_not_mem_decodeReplacing {bytes : List UInt8} (nonzero : ∀ b ∈ bytes, b ≠ 0) :
    '\x00' ∉ (decodeReplacing bytes).toList := by
  rw [decodeReplacing, String.toList_ofList]
  intro member
  obtain ⟨piece, mem, read⟩ := List.mem_map.mp member
  cases piece with
  | none => cases read
  | some c =>
    cases read
    exact some_null_not_mem_decodePieces nonzero mem

/-- A text that fits in the limit is its own longest prefix within it. -/
theorem prefixWithinBytes_of_fits {limit : Nat} {cs : List Char}
    (fits : (cs.map Char.utf8Size).sum ≤ limit) : prefixWithinBytes limit cs = cs := by
  induction cs generalizing limit with
  | nil => rfl
  | cons c cs inductionHypothesis =>
    simp only [List.map_cons, List.sum_cons] at fits
    rw [prefixWithinBytes, if_pos (by omega), inductionHypothesis (by omega)]

theorem length_utf8Bytes (s : String) :
    (utf8Bytes s).length = (s.toList.map Char.utf8Size).sum := by
  have bytes := utf8Bytes_ofList s.toList
  rw [String.ofList_toList] at bytes
  rw [bytes, length_flatMap_utf8EncodeChar]

namespace LocaleTable

/-- A table read from bytes has a name without `U+0000`: the name field is read up to its first
zero byte. -/
theorem null_not_mem_name {d : List UInt8} {t : LocaleTable} (laidOut : t.LaidOutIn d) :
    '\x00' ∉ t.name.toList := by
  obtain ⟨rawName, -, -, -, -, named, -⟩ := laidOut
  rw [named]
  exact null_not_mem_decodeReplacing fun b member => by
    simpa using List.mem_takeWhile_imp member

/-- Packing a well-formed table without `U+0000` in its name and reading it back gives the table
with its name cut to the longest prefix of at most eight bytes on a character boundary. -/
theorem ofBytes_toBytes_of_null_not_mem {t : LocaleTable} (wellFormed : t.WellFormed)
    (noNull : '\x00' ∉ t.name.toList) :
    ofBytes t.toBytes =
      .ok { t with name := String.ofList (prefixWithinBytes 8 t.name.toList) } := by
  have cut := prefixWithinBytes_prefix 8 t.name.toList
  have whole : (prefixWithinBytes 8 t.name.toList).takeWhile (· != '\x00') =
      prefixWithinBytes 8 t.name.toList :=
    List.takeWhile_eq_self_iff.mpr fun c member => by
      have inName := cut.subset member
      simpa using fun same : c = '\x00' => noNull (same ▸ inName)
  have read := ofBytes_toBytes_append wellFormed []
  rw [List.append_nil, whole] at read
  exact read

/-! ### What reading accepts -/

/-- Reading packed bytes accepts only well-formed tables. The packed form of the table read takes
`encodedLength` of the bytes and agrees with them wherever the table's contents fix a byte. Packing
and reading again gives the table back with its name cut to the longest prefix of at most eight
bytes on a character boundary, which is the table itself when its name takes at most eight
bytes. -/
theorem ofBytes_sound {d : List UInt8} {t : LocaleTable} (read : ofBytes d = .ok t) :
    t.WellFormed ∧
      (t.fixedBytes.length = t.encodedLength ∧ t.toBytes.length = t.encodedLength ∧
        t.encodedLength ≤ d.length ∧
        ∀ p : Nat, t.fixedBytes[p]? = some true → t.toBytes[p]? = d[p]?) ∧
      (∃ cut, LongestPrefixWithin 8 t.name.toList cut ∧
        ofBytes t.toBytes = .ok { t with name := String.ofList cut }) ∧
      ((utf8Bytes t.name).length ≤ 8 → ofBytes t.toBytes = .ok t) := by
  obtain ⟨wellFormed, laidOut⟩ := ofBytes_ok read
  obtain ⟨agree, maskLength, short⟩ := laidOut.agree wellFormed
  have encoded := wellFormed.length_toBytes
  have again := ofBytes_toBytes_of_null_not_mem wellFormed (null_not_mem_name laidOut)
  refine ⟨wellFormed, ⟨maskLength.trans encoded, encoded, encoded ▸ short, agree⟩,
    ⟨_, longestPrefixWithin_prefixWithinBytes 8 t.name.toList, again⟩, fun fits => ?_⟩
  rw [again, prefixWithinBytes_of_fits (length_utf8Bytes t.name ▸ fits), String.ofList_toList]

/-- A reserved byte, padding and trailing bytes that the packed form does not keep. -/
theorem ofBytes_sound_padded_record :
    ofBytes ([0x41, 0x42, 0, 0, 0, 0, 0, 0] ++ tableMagic ++ [1, 1, 2, 7] ++ word 1 ++
        word 0x41 ++ [1, 0x41, 0xEE] ++ word 0 ++ [0x99]) =
      .ok ⟨"AB", 1, 2, [⟨0x41, [0x41]⟩], [0]⟩ ∧
    LocaleTable.WellFormed ⟨"AB", 1, 2, [⟨0x41, [0x41]⟩], [0]⟩ := by
  refine ⟨?read, (ofBytes_sound ?read).1⟩
  decide +kernel

/-- Eight bytes that are not UTF-8 read as eight replacement characters, twenty-four bytes, which
the packed form cuts to two: packing the table read and reading again does not give it back. -/
theorem ofBytes_toBytes_replaced_name :
    ofBytes ([0xFF, 0xFF, 0xFF, 0xFF, 0xFF, 0xFF, 0xFF, 0xFF] ++ tableMagic ++ [1, 1, 1, 0] ++
        word 0) = .ok ⟨String.ofList (List.replicate 8 '\uFFFD'), 1, 1, [], []⟩ ∧
      ofBytes (toBytes ⟨String.ofList (List.replicate 8 '\uFFFD'), 1, 1, [], []⟩) ≠
        .ok ⟨String.ofList (List.replicate 8 '\uFFFD'), 1, 1, [], []⟩ := by
  constructor <;> decide +kernel

end LocaleTable

end LocaleCharmap
