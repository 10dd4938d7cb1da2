import Mathlib
import LocaleCharmap.Proofs.Unpacking
/-!
# The size check covers the body

Reading a packed table checks, right after the header, that the bytes hold `count` records of
`5 + mb_cur_max` bytes and `count` index entries of four bytes. Main statement: reading fails for
want of bytes (`truncated`) only inside the twenty header bytes, and only when the bytes end there;
and once the header passes its checks and the size check holds, no read of the record loop or of
the index loop runs past the end, so what can still fail is a record's length, scalar value or
order, or an index entry (`TableFault.InBody`).

Each loop gets one lemma for one round with enough bytes left: its reads succeed, so it fails only
by its own checks or in the rounds after it, which have the bytes they need. The header is read
field by field, at offsets that end within the header.
-/

namespace LocaleCharmap

/-- The faults found in the records and the second index, once their bytes are all there. -/
def TableFault.InBody : TableFault → Prop
  | .recordLength _ _ | .notScalar _ _ | .outOfOrder _ | .indexOutOfRange _ | .indexRepeated _
  | .indexUnordered => True
  | _ => False

/-! ### Reading off the cursor -/

/-- A read with enough bytes left takes them and moves past them. -/
theorem Cursor.take_of_le {c : Cursor} {n : Nat} (fits : n ≤ c.rest.length) :
    c.take n = .ok (c.rest.take n, ⟨c.rest.drop n, c.offset + n⟩) := by
  simp [Cursor.take, List.length_take, Nat.min_eq_left fits]

/-- A read past the end fails at the cursor's offset. -/
theorem Cursor.take_of_lt {c : Cursor} {n : Nat} (short : c.rest.length < n) :
    c.take n = .error (.truncated c.offset) := by
  simp [Cursor.take, short]

theorem Cursor.byte_of_le {c : Cursor} (fits : 1 ≤ c.rest.length) :
    c.byte = .ok (wordValue (c.rest.take 1), ⟨c.rest.drop 1, c.offset + 1⟩) := by
  simp [Cursor.byte, Cursor.take_of_le fits, bind, Except.bind, pure, Except.pure]

theorem Cursor.word_of_le {c : Cursor} (fits : 4 ≤ c.rest.length) :
    c.word = .ok (wordValue (c.rest.take 4), ⟨c.rest.drop 4, c.offset + 4⟩) := by
  simp [Cursor.word, Cursor.take_of_le fits, bind, Except.bind, pure, Except.pure]

theorem except_ok_bind {ε α β : Type} (a : α) (f : α → Except ε β) :
    (Except.ok a >>= f) = f a := rfl

theorem bind_eq_error_cases {ε α β : Type} {x : Except ε α} {f : α → Except ε β} {e : ε}
    (failed : (x >>= f) = .error e) : x = .error e ∨ ∃ a, x = .ok a ∧ f a = .error e := by
  cases x with
  | error e' => exact .inl (by cases failed; rfl)
  | ok a => exact .inr ⟨a, rfl, failed⟩

/-- A computation whose continuation always succeeds fails only where its first part fails. -/
theorem eq_error_of_bind_eq_error {ε α β : Type} {x : Except ε α} {f : α → Except ε β} {e : ε}
    (failed : (x >>= f) = .error e) (total : ∀ a, ∃ b, f a = .ok b) : x = .error e := by
  rcases bind_eq_error_cases failed with first | ⟨a, -, finished⟩
  · exact first
  · obtain ⟨b, succeeded⟩ := total a
    rw [succeeded] at finished
    cases finished

theorem Cursor.byte_bind {α : Type} (c : Cursor) (f : Nat × Cursor → Except TableFault α) :
    (c.byte >>= f) = (c.take 1 >>= fun read => f (wordValue read.1, read.2)) := by
  unfold Cursor.byte
  cases c.take 1 <;> rfl

theorem Cursor.word_bind {α : Type} (c : Cursor) (f : Nat × Cursor → Except TableFault α) :
    (c.word >>= f) = (c.take 4 >>= fun read => f (wordValue read.1, read.2)) := by
  unfold Cursor.word
  cases c.take 4 <;> rfl

/-- A read of the header, which ends within the first `headerLength` bytes, either fails inside
the header, because the bytes end there, or takes its bytes and goes on. -/
theorem Cursor.take_bind_truncated {α : Type} (d : List UInt8) (o : Nat) {n : Nat}
    (positive : 0 < n) (within : o + n ≤ headerLength)
    {f : List UInt8 × Cursor → Except TableFault α} {m : Nat}
    (failed : (Cursor.take ⟨d.drop o, o⟩ n >>= f) = .error (.truncated m)) :
    (m < headerLength ∧ d.length < headerLength) ∨
      f ((d.drop o).take n, ⟨d.drop (o + n), o + n⟩) = .error (.truncated m) := by
  by_cases fits : o + n ≤ d.length
  · have read : Cursor.take ⟨d.drop o, o⟩ n = _ := Cursor.take_of_le (by simp; omega)
    rw [read, except_ok_bind, List.drop_drop] at failed
    exact .inr failed
  · have read : Cursor.take ⟨d.drop o, o⟩ n = _ := Cursor.take_of_lt (by simp; omega)
    rw [read] at failed
    have same : m = o := by cases failed; rfl
    exact .inl ⟨by omega, by omega⟩

/-! ### The record loop and the index loop -/

/-- One round of the record loop with the bytes of a record left fails only by its own checks or
in the rounds after it, which read on right after the record. -/
theorem readRecords_succ_error {least width count i : Nat} {previous : Option (List UInt8)}
    {c : Cursor} {e : TableFault} (fits : 5 + width ≤ c.rest.length)
    (failed : readRecords least width (count + 1) i previous c = .error e) :
    e.InBody ∨ ∃ bytes, readRecords least width count (i + 1) (some bytes)
      ⟨c.rest.drop (5 + width), c.offset + (5 + width)⟩ = .error e := by
  have wordFits : 4 ≤ c.rest.length := by omega
  have byteFits : 1 ≤ (c.rest.drop 4).length := by simp; omega
  have slotFits : width ≤ ((c.rest.drop 4).drop 1).length := by simp; omega
  have after : (⟨((c.rest.drop 4).drop 1).drop width, c.offset + 4 + 1 + width⟩ : Cursor) =
      ⟨c.rest.drop (5 + width), c.offset + (5 + width)⟩ := by
    have five : 4 + (1 + width) = 5 + width := by omega
    rw [List.drop_drop, List.drop_drop, Nat.add_assoc, Nat.add_assoc, five]
  rw [readRecords, Cursor.word_of_le wordFits] at failed
  change (Cursor.byte _ >>= _) = _ at failed
  rw [Cursor.byte_of_le byteFits] at failed
  change (Cursor.take _ width >>= _) = _ at failed
  rw [Cursor.take_of_le slotFits] at failed
  change (if _ then _ else _) = _ at failed
  split at failed
  · cases failed
    exact .inl trivial
  split at failed
  · cases failed
    exact .inl trivial
  dsimp only at failed
  -- the order check runs only when there is a record before
  cases previous with
  | none =>
    have later := eq_error_of_bind_eq_error failed fun _ => ⟨_, rfl⟩
    exact .inr ⟨_, after ▸ later⟩
  | some p =>
    dsimp only at failed
    split at failed
    · cases failed
      exact .inl trivial
    have later := eq_error_of_bind_eq_error failed fun _ => ⟨_, rfl⟩
    exact .inr ⟨_, after ▸ later⟩

/-- The record loop with the bytes of all its records left fails only by its checks. -/
theorem readRecords_error_of_fits {least width : Nat} :
    ∀ {count i : Nat} {previous : Option (List UInt8)} {c : Cursor} {e : TableFault},
    count * (5 + width) ≤ c.rest.length →
    readRecords least width count i previous c = .error e → e.InBody
  | 0, _, _, _, _, _, failed => by cases failed
  | count + 1, i, previous, c, e, fits, failed => by
    rw [Nat.succ_mul] at fits
    rcases readRecords_succ_error (by omega) failed with body | ⟨bytes, later⟩
    · exact body
    · exact readRecords_error_of_fits (by simp only [List.length_drop]; omega) later

/-- The record loop, when it succeeds, takes `5 + width` bytes per record. -/
theorem readRecords_rest_length {least width : Nat} :
    ∀ {count i : Nat} {previous : Option (List UInt8)} {c c' : Cursor} {records : List Record},
    readRecords least width count i previous c = .ok (records, c') →
    c.rest.length = count * (5 + width) + c'.rest.length
  | 0, _, _, c, c', records, read => by
    cases read
    simp
  | count + 1, i, previous, c, c', records, read => by
    obtain ⟨r, field, c₃, more, laidOut, split, fits, -, -, later, -⟩ := readRecords_succ_ok read
    have fieldLength : field.length = 5 + width := by
      rw [laidOut.length, recordMask, List.length_append, List.length_replicate,
        List.length_replicate]
      omega
    rw [split, List.length_append, fieldLength, readRecords_rest_length later, Nat.succ_mul]
    ring

/-- One round of the index loop with four bytes left fails only by its own checks or in the rounds
after it, which read on right after the entry. -/
theorem readIndex_succ_error {records : Array Record} {count : Nat} {seen : Array Bool}
    {previous : Nat} {c : Cursor} {e : TableFault} (fits : 4 ≤ c.rest.length)
    (failed : readIndex records (count + 1) seen previous c = .error e) :
    e.InBody ∨ ∃ seen' previous', readIndex records count seen' previous'
      ⟨c.rest.drop 4, c.offset + 4⟩ = .error e := by
  rw [readIndex, Cursor.word_of_le fits, except_ok_bind] at failed
  dsimp only at failed
  split at failed
  · split at failed
    · cases failed
      exact .inl trivial
    split at failed
    · cases failed
      exact .inl trivial
    exact .inr ⟨_, _, eq_error_of_bind_eq_error failed fun _ => ⟨_, rfl⟩⟩
  · cases failed
    exact .inl trivial

/-- The index loop with four bytes left per entry fails only by its checks. -/
theorem readIndex_error_of_fits {records : Array Record} :
    ∀ {count : Nat} {seen : Array Bool} {previous : Nat} {c : Cursor} {e : TableFault},
    count * 4 ≤ c.rest.length → readIndex records count seen previous c = .error e → e.InBody
  | 0, _, _, _, _, _, failed => by cases failed
  | count + 1, seen, previous, c, e, fits, failed => by
    rw [Nat.succ_mul] at fits
    rcases readIndex_succ_error (by omega) failed with body | ⟨seen', previous', later⟩
    · exact body
    · exact readIndex_error_of_fits (by simp only [List.length_drop]; omega) later

/-- Once the record count passed the size check, the records and the second index are read
without running out of bytes: whatever fails is a fault of the records or the index. -/
theorem readBody_error {least most count : Nat} {c : Cursor} {e : TableFault}
    {make : List Record × Cursor → List Nat → LocaleTable}
    (fits : count * (5 + most + 4) ≤ c.rest.length)
    (failed : (readRecords least most count 0 none c >>= fun read =>
      readIndex read.1.toArray count (Array.replicate count false) 0 read.2 >>= fun index =>
        pure (make read index)) = .error e) :
    e.InBody := by
  rcases bind_eq_error_cases failed with recordsFailed | ⟨⟨records, c'⟩, recordsRead, failed⟩
  · exact readRecords_error_of_fits (by rw [Nat.mul_add] at fits; omega) recordsFailed
  have consumed := readRecords_rest_length recordsRead
  have indexFits : count * 4 ≤ c'.rest.length := by
    rw [Nat.mul_add] at fits
    omega
  exact readIndex_error_of_fits indexFits (eq_error_of_bind_eq_error failed fun _ => ⟨_, rfl⟩)

/-! ### The whole table -/

/-- Reading fails for want of bytes only inside the header, and only when the bytes end there. -/
theorem ofBytes_truncated {d : List UInt8} {n : Nat}
    (failed : LocaleTable.ofBytes d = .error (.truncated n)) :
    n < headerLength ∧ d.length < headerLength := by
  unfold LocaleTable.ofBytes at failed
  simp only [Cursor.byte_bind, Cursor.word_bind] at failed
  -- the header's fields one by one, each read where the one before ended
  rcases Cursor.take_bind_truncated d 0 (by decide) (by decide) failed with inside | failed
  · exact inside
  dsimp only at failed
  rcases Cursor.take_bind_truncated d 8 (by decide) (by decide) failed with inside | failed
  · exact inside
  dsimp only at failed
  split at failed
  · cases failed
  rcases Cursor.take_bind_truncated d 12 (by decide) (by decide) failed with inside | failed
  · exact inside
  dsimp only at failed
  split at failed
  · cases failed
  rcases Cursor.take_bind_truncated d 13 (by decide) (by decide) failed with inside | failed
  · exact inside
  dsimp only at failed
  rcases Cursor.take_bind_truncated d 14 (by decide) (by decide) failed with inside | failed
  · exact inside
  dsimp only at failed
  rcases Cursor.take_bind_truncated d 15 (by decide) (by decide) failed with inside | failed
  · exact inside
  dsimp only at failed
  split at failed
  · cases failed
  rcases Cursor.take_bind_truncated d 16 (by decide) (by decide) failed with inside | failed
  · exact inside
  dsimp only at failed
  split at failed
  · cases failed
  -- past the size check the records and the index have all their bytes
  rename_i fits
  have body := readBody_error (by simp [headerLength] at fits ⊢; omega) failed
  cases body

/-- Bytes that start with a header the reader accepts and go on with at least as many bytes as the
header's record count calls for: a name field of eight bytes, the magic, the version, widths with
`1 ≤ mb_cur_min ≤ mb_cur_max ≤ 16`, any reserved byte, and a count whose records and index
entries, `9 + mb_cur_max` bytes each, fit in the bytes after the header. -/
def HeaderFits (d : List UInt8) : Prop :=
  ∃ (name body : List UInt8) (least most reserved : UInt8) (count : Nat),
    name.length = 8 ∧ 0 < least.toNat ∧ least.toNat ≤ most.toNat ∧ most.toNat ≤ 16 ∧
    count < 2 ^ 32 ∧ count * (9 + most.toNat) ≤ body.length ∧
    d = name ++ tableMagic ++ [tableVersion.toUInt8, least, most, reserved] ++ word count ++ body

/-- After a header that passes its checks and a size check that holds, reading fails only on a
record or on the second index. -/
theorem ofBytes_error_of_headerFits {d : List UInt8} {e : TableFault} (fits : HeaderFits d)
    (failed : LocaleTable.ofBytes d = .error e) : e.InBody := by
  obtain ⟨name, body, least, most, reserved, count, named, positive, ordered, bounded, small,
    enough, rfl⟩ := fits
  have bodyFits : count * (5 + most.toNat + 4) ≤ body.length := by
    have nine : count * (5 + most.toNat + 4) = count * (9 + most.toNat) := by ring
    omega
  have widths : (decide (least.toNat = 0) || decide (most.toNat < least.toNat) ||
      decide (16 < most.toNat)) = false := by
    simp only [Bool.or_eq_false_iff, decide_eq_false_iff_not]
    omega
  have sized : ¬ (name ++ tableMagic ++ [tableVersion.toUInt8, least, most, reserved] ++
      word count ++ body).length < count * (5 + most.toNat + 4) + headerLength := by
    simp only [List.length_append, named, length_tableMagic, length_word, headerLength,
      List.length_cons, List.length_nil]
    omega
  unfold LocaleTable.ofBytes at failed
  simp only [List.append_assoc, List.cons_append, List.nil_append] at failed sized
  simp only [Cursor.take_append named, except_ok_bind, Cursor.take_append length_tableMagic,
    bne_self_eq_false, Bool.false_eq_true, if_false, Cursor.byte_cons,
    Cursor.word_append small, toNat_toUInt8 (by decide : tableVersion < 256), widths, sized]
    at failed
  exact readBody_error bodyFits failed

/-- Reading a packed table fails for want of bytes only inside the header, and only when the
bytes end there; and once the header passes its checks and the bytes after it hold the records
and index entries its count calls for, every read of the two loops stays within the bytes, so a
failure is a fault of a record or of the second index. -/
theorem ofBytes_truncated_only_in_header {d : List UInt8} {e : TableFault}
    (failed : LocaleTable.ofBytes d = .error e) :
    (∀ n, e = .truncated n → n < headerLength ∧ d.length < headerLength) ∧
    (HeaderFits d → e.InBody) := by
  refine ⟨?_, fun fits => ofBytes_error_of_headerFits fits failed⟩
  rintro n rfl
  exact ofBytes_truncated failed

/-- One record whose length byte is zero, below `mb_cur_min`: reading fails on the record, not for
want of bytes. -/
theorem ofBytes_truncated_only_in_header_empty_record :
    LocaleTable.ofBytes [0x41, 0, 0, 0, 0, 0, 0, 0, 0x4C, 0x43, 0x4D, 0x50, 1, 1, 1, 0, 1, 0, 0, 0,
        0x41, 0, 0, 0, 0, 0x41, 0, 0, 0, 0] = .error (.recordLength 0 0) ∧
    HeaderFits [0x41, 0, 0, 0, 0, 0, 0, 0, 0x4C, 0x43, 0x4D, 0x50, 1, 1, 1, 0, 1, 0, 0, 0,
        0x41, 0, 0, 0, 0, 0x41, 0, 0, 0, 0] ∧
    (TableFault.recordLength 0 0).InBody := by
  have failed : LocaleTable.ofBytes [0x41, 0, 0, 0, 0, 0, 0, 0, 0x4C, 0x43, 0x4D, 0x50, 1, 1, 1, 0,
      1, 0, 0, 0, 0x41, 0, 0, 0, 0, 0x41, 0, 0, 0, 0] = .error (.recordLength 0 0) := by
    decide +kernel
  have fits : HeaderFits [0x41, 0, 0, 0, 0, 0, 0, 0, 0x4C, 0x43, 0x4D, 0x50, 1, 1, 1, 0, 1, 0, 0, 0,
      0x41, 0, 0, 0, 0, 0x41, 0, 0, 0, 0] :=
    ⟨[0x41, 0, 0, 0, 0, 0, 0, 0], [0x41, 0, 0, 0, 0, 0x41, 0, 0, 0, 0], 1, 1, 0, 1, rfl,
      by decide, by decide, by decide, by decide, by decide, rfl⟩
  exact ⟨failed, fits, (ofBytes_truncated_only_in_header failed).2 fits⟩

end LocaleCharmap
