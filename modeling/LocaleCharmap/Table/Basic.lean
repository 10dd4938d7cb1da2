import LocaleCharmap.Charmap.Basic
import LocaleCharmap.Diagnostic
/-!
# Locale tables

A locale table maps byte sequences to Unicode scalar values and back. Its records are sorted by
their bytes, and a second index lists the records by scalar value, ties in the order the charmap
defined them. A table is built from the characters of a charmap that have a scalar value: the
first character with a given encoding wins, and a later one with the same bytes and another
scalar value is reported.

Decoding reads the shortest prefix of the input that is the encoding of a record; input that
could still grow into one is incomplete, anything else is invalid. Encoding looks a scalar value
up through the second index.
-/

namespace LocaleCharmap

/-- A character of a table: its scalar value and its bytes. -/
structure Record where
  scalar : Nat
  bytes : List UInt8
  deriving DecidableEq, Repr, Inhabited

/-- A lookup table between byte sequences and scalar values. -/
structure LocaleTable where
  name : String
  mbCurMin : Nat
  mbCurMax : Nat
  records : List Record
  byScalar : List Nat
  deriving DecidableEq, Repr, Inhabited

/-- Lexicographic order on byte sequences, a proper prefix first. -/
def bytesBefore : List UInt8 → List UInt8 → Bool
  | [], [] => false
  | [], _ :: _ => true
  | _ :: _, [] => false
  | a :: as, b :: bs => a < b || (a == b && bytesBefore as bs)

/-- What the start of some input decodes to. -/
inductive Decoded where
  /-- A character with this scalar value, taking this many bytes. -/
  | char (scalar length : Nat)
  /-- The input is the start of an encoding but too short. -/
  | incomplete
  /-- No encoding starts the input. -/
  | invalid
  deriving DecidableEq, Repr, Inhabited

/-- A record kept while building: its bytes, scalar value and definition position. -/
structure Candidate where
  bytes : List UInt8
  scalar : Nat
  order : Nat

/-- Goes through the entries from position `order`, keeping the first candidate for each encoding
in `kept` and reporting entries that are left out. -/
def collectCandidates : List Entry → Nat → Std.HashMap (List UInt8) Nat → Array Candidate →
    Logged (Array Candidate)
  | [], _, _, kept => pure kept
  | e :: rest, order, seen, kept => do
    match e.scalar with
    | none =>
      report (.noScalar e.name)
      collectCandidates rest (order + 1) seen kept
    | some v =>
      match seen[e.bytes]? with
      | some earlier =>
        if earlier != v then report (.reusedEncoding e.name earlier)
        collectCandidates rest (order + 1) seen kept
      | none =>
        collectCandidates rest (order + 1) (seen.insert e.bytes v) (kept.push ⟨e.bytes, v, order⟩)

namespace LocaleTable

/-- Builds the table of a charmap's characters that have scalar values. -/
def ofCharmap (m : Charmap) (name : String) : Logged LocaleTable := do
  let kept ← collectCandidates m.entries.toList 0 {} #[]
  if kept.isEmpty then throw (.table .noScalars)
  let sorted := kept.toList.mergeSort fun a b => !bytesBefore b.bytes a.bytes
  let records := sorted.map fun c => Record.mk c.scalar c.bytes
  let keyed := sorted.zipIdx.mergeSort fun a b =>
    a.1.scalar < b.1.scalar || (a.1.scalar == b.1.scalar && a.1.order ≤ b.1.order)
  return ⟨name, m.mbCurMin, m.mbCurMax, records, keyed.map (·.2)⟩

/-- The number of records. -/
def size (t : LocaleTable) : Nat :=
  t.records.length

/-- The record whose bytes are exactly these. -/
def recordWith? (t : LocaleTable) (bytes : List UInt8) : Option Record :=
  t.records.find? fun r => r.bytes == bytes

/-- Decodes the start of the input. -/
def decode (t : LocaleTable) (input : List UInt8) : Decoded :=
  if input.isEmpty then .incomplete
  else
    -- only the first `mbCurMax` bytes are looked at, so decoding a long input step by step
    -- never walks its whole rest
    let window := input.take t.mbCurMax
    let least := max t.mbCurMin 1
    let most := window.length
    let lengths := (List.range (most + 1 - least)).map (least + ·)
    match lengths.findSome? fun n => (t.recordWith? (window.take n)).map (·, n) with
    | some (r, n) => .char r.scalar n
    | none =>
      if window.length < t.mbCurMax then
        match t.records.find? fun r => !bytesBefore r.bytes input with
        | some r =>
          if input.length < r.bytes.length && input.isPrefixOf r.bytes then .incomplete else .invalid
        | none => .invalid
      else .invalid

/-- The bytes of the first record, in the order of the second index, with this scalar value. -/
def encode (t : LocaleTable) (scalar : Nat) : Option (List UInt8) :=
  let records := t.records.toArray
  let scalarAt (i : Nat) := (records[i]?.map (·.scalar)).getD 0
  match t.byScalar.find? fun i => scalar ≤ scalarAt i with
  | some i =>
    match records[i]? with
    | some r => if r.scalar = scalar then some r.bytes else none
    | none => none
  | none => none

/-- Decodes the whole input from `offset` on, collecting scalar values in reverse; the error is
the offset of the first place that does not decode. -/
def decodeFrom (t : LocaleTable) (input : List UInt8) (offset : Nat) (acc : List Nat) :
    Except Nat (List Nat) :=
  match input with
  | [] => .ok acc.reverse
  | b :: bs =>
    match t.decode (b :: bs) with
    | .char v n =>
      if n = 0 then .error offset
      else t.decodeFrom ((b :: bs).drop n) (offset + n) (v :: acc)
    | _ => .error offset
termination_by input.length
decreasing_by simp only [List.length_drop, List.length_cons]; omega

/-- Decodes the whole input into scalar values, or gives the offset where decoding stops. -/
def decodeAll (t : LocaleTable) (input : List UInt8) : Except Nat (List Nat) :=
  t.decodeFrom input 0 []

end LocaleTable

end LocaleCharmap
