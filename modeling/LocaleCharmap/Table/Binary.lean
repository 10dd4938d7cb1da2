import LocaleCharmap.Table.Basic
import LocaleCharmap.Text.Utf8
/-!
# The packed table format

A table packs into bytes, numbers little-endian:

* the name, cut to at most eight bytes on a character boundary and padded with zero bytes;
* the magic `LCMP`, the version 1, `mb_cur_min`, `mb_cur_max` and a reserved zero byte;
* the number of records as four bytes, making a header of twenty bytes;
* per record its scalar value as four bytes, its length as one byte and its bytes, padded with
  zeros (or cut) to `mb_cur_max`;
* the second index, four bytes per record position.

Reading checks each field in that order and ignores bytes after the index. The name reads up to
its first zero byte, a malformed UTF-8 part standing for one replacement character.
-/

namespace LocaleCharmap

open LocaleCharmap.Text

/-- The length of the header in bytes. -/
def headerLength : Nat := 20

/-- The four bytes that mark a packed table. -/
def tableMagic : List UInt8 := [0x4C, 0x43, 0x4D, 0x50]

/-- The version of the format. -/
def tableVersion : Nat := 1

/-- The four little-endian bytes of a number below `2 ^ 32`. -/
def word (n : Nat) : List UInt8 :=
  [n.toUInt8, (n / 256).toUInt8, (n / 65536).toUInt8, (n / 16777216).toUInt8]

/-- The number that four little-endian bytes stand for. -/
def wordValue (bs : List UInt8) : Nat :=
  bs.foldr (fun b acc => b.toNat + 256 * acc) 0

/-- The name field: the name cut to at most eight bytes on a character boundary, padded with
zeros. -/
def nameField (name : String) : List UInt8 :=
  let bytes := utf8Bytes (String.ofList (prefixWithinBytes 8 name.toList))
  bytes ++ List.replicate (8 - bytes.length) 0

/-- A record slot: the bytes padded with zeros, or cut, to the width. -/
def slot (width : Nat) (bytes : List UInt8) : List UInt8 :=
  (bytes ++ List.replicate (width - bytes.length) 0).take width

namespace LocaleTable

/-- The number of bytes the packed table takes. -/
def encodedLength (t : LocaleTable) : Nat :=
  headerLength + t.records.length * (5 + t.mbCurMax + 4)

/-- The packed form of the table. -/
def toBytes (t : LocaleTable) : List UInt8 :=
  nameField t.name ++ tableMagic ++
    [tableVersion.toUInt8, t.mbCurMin.toUInt8, t.mbCurMax.toUInt8, 0] ++ word t.records.length ++
    t.records.flatMap (fun r => word r.scalar ++ [r.bytes.length.toUInt8] ++ slot t.mbCurMax r.bytes) ++
    t.byScalar.flatMap word

end LocaleTable

/-- The bytes not read yet and the offset of the first of them. -/
structure Cursor where
  rest : List UInt8
  offset : Nat

/-- Takes `n` bytes, or fails at the current offset when fewer are left. Only the bytes taken
are counted, so a step costs its own length and not that of the rest. -/
def Cursor.take (c : Cursor) (n : Nat) : Except TableFault (List UInt8 × Cursor) :=
  let taken := c.rest.take n
  if taken.length = n then .ok (taken, ⟨c.rest.drop n, c.offset + n⟩)
  else .error (.truncated c.offset)

/-- Takes one byte. -/
def Cursor.byte (c : Cursor) : Except TableFault (Nat × Cursor) := do
  let (bs, c) ← c.take 1
  pure (wordValue bs, c)

/-- Takes a four-byte number. -/
def Cursor.word (c : Cursor) : Except TableFault (Nat × Cursor) := do
  let (bs, c) ← c.take 4
  pure (wordValue bs, c)

/-- Whether a number is a Unicode scalar value. -/
def isScalarValue (n : Nat) : Bool :=
  n < 0xD800 || (0xE000 ≤ n && n ≤ 0x10FFFF)

/-- Reads `count` records of the given widths, the `i`-th first; `previous` is the bytes of the
record before. -/
def readRecords (least width : Nat) : Nat → Nat → Option (List UInt8) → Cursor →
    Except TableFault (List Record × Cursor)
  | 0, _, _, c => .ok ([], c)
  | count + 1, i, previous, c => do
    let (scalar, c) ← c.word
    let (length, c) ← c.byte
    let (field, c) ← c.take width
    if length < least || width < length then throw (.recordLength i length)
    if !isScalarValue scalar then throw (.notScalar i scalar)
    let bytes := field.take length
    if let some p := previous then
      if !bytesBefore p bytes then throw (.outOfOrder i)
    let (more, c) ← readRecords least width count (i + 1) (some bytes) c
    pure (⟨scalar, bytes⟩ :: more, c)

/-- Reads `count` entries of the second index over `records`; `seen` marks the positions already
listed and `previous` is the scalar value of the entry before. -/
def readIndex (records : Array Record) : Nat → Array Bool → Nat → Cursor →
    Except TableFault (List Nat)
  | 0, _, _, _ => .ok []
  | count + 1, seen, previous, c => do
    let (i, c) ← c.word
    let some wasSeen := seen[i]? | throw (.indexOutOfRange i)
    if wasSeen then throw (.indexRepeated i)
    let scalar := (records[i]?.map (·.scalar)).getD 0
    if scalar < previous then throw .indexUnordered
    let more ← readIndex records count (seen.setIfInBounds i true) scalar c
    pure (i :: more)

namespace LocaleTable

/-- Reads a packed table. -/
def ofBytes (data : List UInt8) : Except TableFault LocaleTable := do
  let c : Cursor := ⟨data, 0⟩
  let (rawName, c) ← c.take 8
  let name := decodeReplacing (rawName.takeWhile (· != 0))
  let (magic, c) ← c.take 4
  if magic != tableMagic then throw .badMagic
  let (version, c) ← c.byte
  if version != tableVersion then throw (.unsupportedVersion version)
  let (least, c) ← c.byte
  let (most, c) ← c.byte
  let (_, c) ← c.byte
  if least = 0 || most < least || 16 < most then throw (.badWidths least most)
  let (count, c) ← c.word
  if data.length < count * (5 + most + 4) + headerLength then
    throw (.overfull count data.length)
  let (records, c) ← readRecords least most count 0 none c
  let index ← readIndex records.toArray count (Array.replicate count false) 0 c
  pure ⟨name, least, most, records, index⟩

end LocaleTable

end LocaleCharmap
