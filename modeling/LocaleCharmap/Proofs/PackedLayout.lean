import Mathlib
import LocaleCharmap.Proofs.Build
/-!
# Where the packed form puts each part

Packing writes the header, each record in a slot of `mb_cur_max` bytes after its scalar value and
length byte, and the second index. Main statement: for every table whose second index lists one
position per record, as every table built from a charmap or read from bytes does, the packed form
takes exactly `encodedLength` bytes, whatever the lengths of the records. A record longer than
`mb_cur_max` keeps its first `mb_cur_max` bytes and a shorter one is padded with zeros, so every
record takes the same `5 + mb_cur_max` bytes and record `i` starts `i` records after the header;
the length byte holds the record's length modulo 256; and the name field is the name cut on a
character boundary to its longest prefix of at most eight bytes, padded with zeros.

The offsets come from one fact about lists of blocks of one length (`take_drop_flatMap`).
-/

namespace LocaleCharmap

open LocaleCharmap.Text Std.Do

set_option mvcgen.warning false

/-! ### Slots and blocks of one length -/

/-- A record's slot holds its bytes cut to the width, then zeros up to the width. -/
theorem slot_eq (width : Nat) (bytes : List UInt8) :
    slot width bytes = bytes.take width ++ List.replicate (width - bytes.length) 0 := by
  rw [slot, List.take_append, List.take_replicate, Nat.min_self]

/-- Blocks of one length: the block at position `i` starts `i` blocks in. -/
theorem take_drop_flatMap {α β : Type} {f : α → List β} {k : Nat}
    (sized : ∀ x, (f x).length = k) :
    ∀ {xs : List α} {i : Nat} {x : α}, xs[i]? = some x → ∀ rest : List β,
    ((xs.flatMap f ++ rest).drop (i * k)).take k = f x
  | [], _, _, found, _ => by simp at found
  | head :: tail, 0, x, found, rest => by
    simp only [List.getElem?_cons_zero, Option.some.injEq] at found
    subst found
    rw [Nat.zero_mul, List.drop_zero, List.flatMap_cons, List.append_assoc]
    exact List.take_left' (sized head)
  | head :: tail, i + 1, x, found, rest => by
    simp only [List.getElem?_cons_succ] at found
    rw [List.flatMap_cons, List.append_assoc, Nat.succ_mul, Nat.add_comm, ← List.drop_drop,
      List.drop_left' (sized head)]
    exact take_drop_flatMap sized found rest

@[simp] theorem length_packedRecord (width : Nat) (r : Record) :
    (packedRecord width r).length = 5 + width := by
  simp [packedRecord]
  omega

theorem length_header (t : LocaleTable) :
    (nameField t.name ++ tableMagic ++ [tableVersion.toUInt8, t.mbCurMin.toUInt8,
      t.mbCurMax.toUInt8, 0] ++ word t.records.length).length = headerLength := by
  simp [headerLength]

/-! ### The packed form -/

namespace LocaleTable

/-- Past the twenty header bytes come the records and then the second index. -/
theorem toBytes_drop_header (t : LocaleTable) :
    t.toBytes.drop headerLength =
      t.records.flatMap (packedRecord t.mbCurMax) ++ t.byScalar.flatMap word := by
  have packed : (fun r : Record => word r.scalar ++ [r.bytes.length.toUInt8] ++
      slot t.mbCurMax r.bytes) = packedRecord t.mbCurMax := rfl
  rw [toBytes, packed, List.append_assoc]
  exact List.drop_left' (length_header t)

theorem toBytes_take_name (t : LocaleTable) : t.toBytes.take 8 = nameField t.name := by
  rw [← List.append_nil t.toBytes, toBytes_append]
  exact List.take_left' (length_nameField t.name)

/-- The record at position `i` takes the `5 + mb_cur_max` bytes from `20 + i * (5 + mb_cur_max)`
on, whatever the lengths of the records before it. -/
theorem toBytes_record (t : LocaleTable) {i : Nat} {r : Record} (found : t.records[i]? = some r) :
    (t.toBytes.drop (headerLength + i * (5 + t.mbCurMax))).take (5 + t.mbCurMax) =
      packedRecord t.mbCurMax r := by
  rw [← List.drop_drop, toBytes_drop_header]
  exact take_drop_flatMap (length_packedRecord t.mbCurMax) found _

/-- The index entry at position `j` takes the four bytes from `20 + len * (5 + mb_cur_max) + j * 4`
on. -/
theorem toBytes_index (t : LocaleTable) {j k : Nat} (found : t.byScalar[j]? = some k) :
    (t.toBytes.drop (headerLength + t.records.length * (5 + t.mbCurMax) + j * 4)).take 4 =
      word k := by
  have records : (t.records.flatMap (packedRecord t.mbCurMax)).length =
      t.records.length * (5 + t.mbCurMax) := by
    simp [List.length_flatMap]
  rw [← List.drop_drop, ← List.drop_drop, toBytes_drop_header, List.drop_left' records,
    ← List.append_nil (t.byScalar.flatMap word)]
  exact take_drop_flatMap length_word found []

/-- Where the packed form of a table puts each part: it takes `encodedLength`, that is
`20 + len * (9 + mb_cur_max)`, bytes; the first eight are the name cut on a character boundary to
its longest prefix of at most eight bytes, padded with zeros; record `i` takes the
`5 + mb_cur_max` bytes from `20 + i * (5 + mb_cur_max)` on, namely its scalar value, a length byte
holding its length modulo 256, and its bytes cut or padded with zeros to `mb_cur_max`; and index
entry `j` takes the four bytes after the records and the `j` entries before it. -/
structure PackedLayout (t : LocaleTable) : Prop where
  length : t.toBytes.length = t.encodedLength
  encodedLength_eq : t.encodedLength = headerLength + t.records.length * (9 + t.mbCurMax)
  name : ∃ cut, LongestPrefixWithin 8 t.name.toList cut ∧
    t.toBytes.take 8 = utf8Bytes (String.ofList cut) ++
      List.replicate (8 - (utf8Bytes (String.ofList cut)).length) 0
  record : ∀ i r, t.records[i]? = some r → ∃ lengthByte : UInt8,
    lengthByte.toNat = r.bytes.length % 256 ∧
    (t.toBytes.drop (headerLength + i * (5 + t.mbCurMax))).take (5 + t.mbCurMax) =
      word r.scalar ++ lengthByte :: (r.bytes.take t.mbCurMax ++
        List.replicate (t.mbCurMax - r.bytes.length) 0)
  index : ∀ j k, t.byScalar[j]? = some k →
    (t.toBytes.drop (headerLength + t.records.length * (5 + t.mbCurMax) + j * 4)).take 4 = word k

/-- Every table whose second index lists one position per record packs as `PackedLayout` says. -/
theorem packedLayout_of_indexed (t : LocaleTable) (indexed : t.byScalar.length = t.records.length) :
    t.PackedLayout where
  length := by
    rw [length_toBytes, indexed, encodedLength]
    ring
  encodedLength_eq := by
    rw [encodedLength]
    ring
  name := by
    refine ⟨prefixWithinBytes 8 t.name.toList, longestPrefixWithin_prefixWithinBytes 8 _, ?_⟩
    rw [toBytes_take_name, nameField]
  record i r found := by
    refine ⟨r.bytes.length.toUInt8, by simp [Nat.toUInt8], ?_⟩
    rw [t.toBytes_record found, packedRecord, slot_eq]
    simp
  index _ _ found := t.toBytes_index found

/-- Building a table from any charmap, also one whose characters have bytes of any length, gives a
second index with one position per record. -/
theorem ofCharmap_indexed {m : Charmap} {name : String} {t : LocaleTable}
    {log : Array Diagnostic} (built : (ofCharmap m name).run = (.ok t, log)) :
    t.byScalar.length = t.records.length := by
  have spec : ⦃⌜True⌝⦄ ofCharmap m name
      ⦃post⟨fun t => ⌜t.byScalar.length = t.records.length⌝, fun _ => ⌜True⌝⟩⦄ := by
    have collected := collectCandidates_spec m.entries.toList m.entries.toList 0 {} #[] rfl
      (by simp [Std.HashMap.contains_empty]) (by simp)
    mvcgen [ofCharmap, collected]
    -- the second index numbers the sorted candidates, which are the records
    simp +zetaDelta
  have outcome := Logged.outcome_of_triple spec
  rw [built] at outcome
  exact outcome

/-- Every table whose second index lists one position per record packs as `PackedLayout` says,
whatever the lengths of its records; every table built from a charmap is such a table, also when
its characters have bytes longer than the charmap's widths, as a charmap assembled by inserting
characters may. -/
theorem toBytes_layout :
    (∀ t : LocaleTable, t.byScalar.length = t.records.length → t.PackedLayout) ∧
    ∀ (m : Charmap) (name : String) (t : LocaleTable) (log : Array Diagnostic),
      (ofCharmap m name).run = (.ok t, log) → t.PackedLayout :=
  ⟨packedLayout_of_indexed, fun _ _ t _ built => packedLayout_of_indexed t (ofCharmap_indexed built)⟩

/-- A table with an empty record and one longer than `mb_cur_max`, whose name takes nine bytes,
packs as laid out; so does the table built from a charmap of one character two bytes long and
widths of one byte. -/
theorem toBytes_layout_uneven_records :
    (⟨"ABCDEFGé", 1, 1, [⟨0x41, []⟩, ⟨0xE9, [0xC3, 0xA9]⟩], [0, 1]⟩ : LocaleTable).byScalar.length =
      (⟨"ABCDEFGé", 1, 1, [⟨0x41, []⟩, ⟨0xE9, [0xC3, 0xA9]⟩], [0, 1]⟩ :
        LocaleTable).records.length ∧
    (⟨"ABCDEFGé", 1, 1, [⟨0x41, []⟩, ⟨0xE9, [0xC3, 0xA9]⟩], [0, 1]⟩ : LocaleTable).PackedLayout ∧
    (ofCharmap (Charmap.empty.insert ⟨"U0041", [0x41, 0x42], some 0x41, none, none⟩) "long").run =
      (.ok ⟨"long", 1, 1, [⟨0x41, [0x41, 0x42]⟩], [0]⟩, #[]) ∧
    (⟨"long", 1, 1, [⟨0x41, [0x41, 0x42]⟩], [0]⟩ : LocaleTable).PackedLayout := by
  have built : (ofCharmap (Charmap.empty.insert ⟨"U0041", [0x41, 0x42], some 0x41, none, none⟩)
      "long").run = (.ok ⟨"long", 1, 1, [⟨0x41, [0x41, 0x42]⟩], [0]⟩, #[]) := by
    simp [ofCharmap, collectCandidates, Charmap.insert, Charmap.contains, Charmap.empty,
      Charmap.push, Charmap.modifyIndexed]
    rfl
  exact ⟨rfl, toBytes_layout.1 _ rfl, built, toBytes_layout.2 _ _ _ _ built⟩

end LocaleTable

end LocaleCharmap
