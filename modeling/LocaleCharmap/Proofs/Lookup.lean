import Mathlib
import LocaleCharmap.Proofs.Binary
/-!
# Lookups in a well-formed table

Encoding goes through the second index: it gives the bytes of the first record, in the index's
order, with the scalar value, because the index lists scalar values in non-decreasing order.
Decoding tries the lengths from `mb_cur_min` on and takes the first that is the encoding of a
record; when no record's bytes are a proper prefix of another's, the bytes of a record decode to
that record whatever follows. Decoding a whole input is then one step per record, and decoding
the concatenated encodings of scalar values gives the values back.
-/

namespace LocaleCharmap

/-- In a list along which a key does not decrease, the first element whose key reaches a value
has that value exactly when some element has it, and is then the first with that value. -/
theorem find?_reaching {l : List Nat} {f : Nat → Nat} (sorted : (l.map f).Pairwise (· ≤ ·))
    (u : Nat) :
    (l.find? fun i => u ≤ f i).bind (fun i => if f i = u then some i else none) =
      l.find? fun i => f i == u := by
  induction l with
  | nil => rfl
  | cons i rest inductionHypothesis =>
    rw [List.map_cons, List.pairwise_cons] at sorted
    by_cases reached : u ≤ f i
    · rw [List.find?_cons_of_pos (by simpa using reached)]
      by_cases exact : f i = u
      · simp [exact]
      · -- every later key is at least this one, so above the value
        have none : rest.find? (fun j => f j == u) = none := by
          refine List.find?_eq_none.mpr fun j member => ?_
          have := sorted.1 (f j) (List.mem_map_of_mem member)
          simp only [beq_iff_eq]
          omega
        simp [exact, none]
    · rw [List.find?_cons_of_neg (by simpa using reached), inductionHypothesis sorted.2,
        List.find?_cons_of_neg (by simp only [beq_iff_eq]; omega)]

/-- Trying consecutive lengths from `least` on finds the first that gives something. -/
theorem findSome?_range' {β : Type} {f : Nat → Option β} {least target k : Nat} {b : β}
    (below : ∀ n, least ≤ n → n < target → f n = none) (hit : f target = some b)
    (atLeast : least ≤ target) (within : target < least + k) :
    (List.range' least k).findSome? f = some b := by
  -- split the lengths at the target: none before it gives anything
  obtain ⟨rest, rfl⟩ : ∃ rest, k = (target - least) + (rest + 1) :=
    ⟨k - (target - least) - 1, by omega⟩
  have start : least + 1 * (target - least) = target := by omega
  rw [← List.range'_append, start, List.range'_succ, List.findSome?_append, List.findSome?_cons,
    hit]
  have none : (List.range' least (target - least)).findSome? f = none := by
    refine List.findSome?_eq_none_iff.mpr fun n member => ?_
    rw [List.mem_range'_1] at member
    exact below n member.1 (by omega)
  rw [none]
  rfl

namespace LocaleTable

/-- Encoding gives the bytes of the first record, in the order of the second index, with the
scalar value. -/
theorem encode_eq {t : LocaleTable} (wellFormed : t.WellFormed) (u : Nat) :
    t.encode u = (t.byScalar.find? fun i => t.scalarAt i == u).map t.bytesAt := by
  rw [← find?_reaching wellFormed.index_sorted u]
  unfold encode
  simp only [scalarAt_eq]
  cases found : t.byScalar.find? fun i => u ≤ t.scalarAt i with
  | none => rfl
  | some i =>
    have inside : i < t.records.length :=
      List.mem_range.mp (wellFormed.index_perm.mem_iff.mp (List.mem_of_find?_eq_some found))
    simp only [Option.bind_some, List.getElem?_toArray, List.getElem?_eq_getElem inside]
    by_cases exact : t.records[i].scalar = u
    · simp [exact, scalarAt, bytesAt, List.getElem?_eq_getElem inside]
    · simp [exact, scalarAt, List.getElem?_eq_getElem inside]

/-- In a well-formed table a record is the only one with its bytes. -/
theorem recordWith?_bytes {t : LocaleTable} (wellFormed : t.WellFormed) {r : Record}
    (member : r ∈ t.records) : t.recordWith? r.bytes = some r := by
  unfold recordWith?
  obtain ⟨r', found⟩ : ∃ r', t.records.find? (fun r' => r'.bytes == r.bytes) = some r' :=
    Option.isSome_iff_exists.mp (List.find?_isSome.mpr ⟨r, member, by simp⟩)
  have same : r' = r := List.inj_on_of_nodup_map wellFormed.bytes_injective
    (List.mem_of_find?_eq_some found) member (by simpa using List.find?_some found)
  rw [found, same]

/-- In a table where no record's bytes are a proper prefix of another's, no record has a proper
prefix of a record's bytes. -/
theorem recordWith?_take {t : LocaleTable} (prefixFree : t.PrefixFree) {r : Record}
    (member : r ∈ t.records) {n : Nat} (shorter : n < r.bytes.length) :
    t.recordWith? (r.bytes.take n) = none := by
  unfold recordWith?
  refine List.find?_eq_none.mpr fun r' member' same => ?_
  have prefixed : r'.bytes <+: r.bytes := by
    rw [beq_iff_eq.mp same]
    exact List.take_prefix n r.bytes
  have := congrArg List.length (prefixFree r' member' r member prefixed)
  rw [beq_iff_eq.mp same, List.length_take] at this
  omega

/-- Decoding the bytes of a record, followed by anything, gives the record's scalar value and
length, when no record's bytes are a proper prefix of another's. -/
theorem decode_record_append {t : LocaleTable} (wellFormed : t.WellFormed)
    (prefixFree : t.PrefixFree) {r : Record} (member : r ∈ t.records) (s : List UInt8) :
    t.decode (r.bytes ++ s) = .char r.scalar r.bytes.length := by
  obtain ⟨longEnough, shortEnough⟩ := wellFormed.lengths r member
  have least := wellFormed.least_pos
  have nonempty : r.bytes ++ s ≠ [] := by
    refine List.append_ne_nil_of_left_ne_nil (fun empty => ?_) s
    rw [empty, List.length_nil] at longEnough
    omega
  -- within the window, the first lengths give prefixes of the record's bytes
  have window : ∀ n ≤ r.bytes.length,
      ((r.bytes ++ s).take t.mbCurMax).take n = r.bytes.take n := by
    intro n short
    have within : min n t.mbCurMax ≤ r.bytes.length := by omega
    rw [List.take_take, List.take_append_of_le_length within]
    congr 1
    omega
  have found : (List.range' (max t.mbCurMin 1) (((r.bytes ++ s).take t.mbCurMax).length + 1 -
      max t.mbCurMin 1)).findSome? (fun n =>
        (t.recordWith? (((r.bytes ++ s).take t.mbCurMax).take n)).map (·, n)) =
      some (r, r.bytes.length) := by
    have hit : (t.recordWith? (((r.bytes ++ s).take t.mbCurMax).take r.bytes.length)).map
        (·, r.bytes.length) = some (r, r.bytes.length) := by
      rw [window _ le_rfl, List.take_length, recordWith?_bytes wellFormed member]
      rfl
    refine findSome?_range' (fun n _ shorter => ?_) hit (by omega) ?_
    · rw [window n shorter.le, recordWith?_take prefixFree member shorter]
      rfl
    · simp only [List.length_take, List.length_append]
      omega
  unfold decode
  simp only [List.isEmpty_iff, nonempty, if_false, ← List.range'_eq_map_range, found]

/-- What encoding gives is the bytes of a record with the scalar value. -/
theorem exists_record_of_encode {t : LocaleTable} (wellFormed : t.WellFormed) {u : Nat}
    {bytes : List UInt8} (encoded : t.encode u = some bytes) :
    ∃ r ∈ t.records, r.scalar = u ∧ r.bytes = bytes := by
  rw [encode_eq wellFormed] at encoded
  obtain ⟨i, found, rfl⟩ := Option.map_eq_some_iff.mp encoded
  obtain ⟨r, member, scalar, bytes⟩ :=
    wellFormed.exists_record (List.mem_of_find?_eq_some found)
  have named := List.find?_some found
  rw [beq_iff_eq, scalar] at named
  exact ⟨r, member, named, bytes.symm⟩

/-- One step of decoding a whole input: a record's bytes at the front decode to its scalar value,
and decoding goes on after them. -/
theorem decodeFrom_record_append {t : LocaleTable} (wellFormed : t.WellFormed)
    (prefixFree : t.PrefixFree) {r : Record} (member : r ∈ t.records) (more : List UInt8)
    (offset : Nat) (acc : List Nat) :
    t.decodeFrom (r.bytes ++ more) offset acc =
      t.decodeFrom more (offset + r.bytes.length) (r.scalar :: acc) := by
  have long := (wellFormed.lengths r member).1
  have least := wellFormed.least_pos
  obtain ⟨b, bs, split⟩ : ∃ b bs, r.bytes ++ more = b :: bs := by
    cases bytes : r.bytes with
    | nil =>
      rw [bytes, List.length_nil] at long
      omega
    | cons b bs => exact ⟨b, bs ++ more, rfl⟩
  have decoded := decode_record_append wellFormed prefixFree member more
  rw [split] at decoded
  rw [split, decodeFrom, decoded]
  dsimp only
  rw [if_neg (by omega), ← split, List.drop_left]

/-- Decoding the concatenated encodings of scalar values gives the values back. -/
theorem decodeFrom_encoded {t : LocaleTable} (wellFormed : t.WellFormed)
    (prefixFree : t.PrefixFree) :
    ∀ (us : List Nat), (∀ u ∈ us, (t.encode u).isSome) →
    ∀ (offset : Nat) (acc : List Nat),
    t.decodeFrom (us.flatMap fun u => (t.encode u).getD []) offset acc =
      .ok (acc.reverse ++ us)
  | [], _, offset, acc => by simp [decodeFrom]
  | u :: rest, encodable, offset, acc => by
    obtain ⟨bytes, encoded⟩ := Option.isSome_iff_exists.mp (encodable u List.mem_cons_self)
    obtain ⟨r, member, scalar, rfl⟩ := exists_record_of_encode wellFormed encoded
    rw [List.flatMap_cons, encoded, Option.getD_some,
      decodeFrom_record_append wellFormed prefixFree member,
      decodeFrom_encoded wellFormed prefixFree rest
        (fun u' member' => encodable u' (List.mem_cons_of_mem u member')),
      scalar, List.reverse_cons, List.append_assoc, List.singleton_append]

/-- In a well-formed table where no record's bytes are a proper prefix of another's, in particular
one whose encodings all have one length, decoding the concatenated encodings of scalar values that
encode gives the values back, and the bytes of a record followed by anything decode to that
record's scalar value and length. -/
theorem decodeAll_flatMap_encode {t : LocaleTable} (wellFormed : t.WellFormed)
    (prefixFree : t.PrefixFree ∨ t.mbCurMin = t.mbCurMax) :
    (∀ us : List Nat, (∀ u ∈ us, (t.encode u).isSome) →
      t.decodeAll (us.flatMap fun u => (t.encode u).getD []) = .ok us) ∧
    ∀ r ∈ t.records, ∀ s, t.decode (r.bytes ++ s) = .char r.scalar r.bytes.length := by
  have free : t.PrefixFree := prefixFree.elim id (prefixFree_of_widths_eq wellFormed)
  refine ⟨fun us encodable => ?_,
    fun r member s => decode_record_append wellFormed free member s⟩
  rw [decodeAll, decodeFrom_encoded wellFormed free us encodable]
  rfl

/-- A table of two one-byte letters meets the hypotheses, and its lookups read back. -/
theorem decodeAll_flatMap_encode_two_letters :
    (⟨"AB", 1, 1, [⟨0x41, [0x41]⟩, ⟨0x42, [0x42]⟩], [0, 1]⟩ : LocaleTable).WellFormed ∧
    ((⟨"AB", 1, 1, [⟨0x41, [0x41]⟩, ⟨0x42, [0x42]⟩], [0, 1]⟩ : LocaleTable).PrefixFree ∨
      (⟨"AB", 1, 1, [⟨0x41, [0x41]⟩, ⟨0x42, [0x42]⟩], [0, 1]⟩ : LocaleTable).mbCurMin =
        (⟨"AB", 1, 1, [⟨0x41, [0x41]⟩, ⟨0x42, [0x42]⟩], [0, 1]⟩ : LocaleTable).mbCurMax) ∧
    ((∀ us : List Nat,
      (∀ u ∈ us, ((⟨"AB", 1, 1, [⟨0x41, [0x41]⟩, ⟨0x42, [0x42]⟩], [0, 1]⟩ :
        LocaleTable).encode u).isSome) →
      (⟨"AB", 1, 1, [⟨0x41, [0x41]⟩, ⟨0x42, [0x42]⟩], [0, 1]⟩ : LocaleTable).decodeAll
        (us.flatMap fun u => ((⟨"AB", 1, 1, [⟨0x41, [0x41]⟩, ⟨0x42, [0x42]⟩], [0, 1]⟩ :
          LocaleTable).encode u).getD []) = .ok us) ∧
    ∀ r ∈ (⟨"AB", 1, 1, [⟨0x41, [0x41]⟩, ⟨0x42, [0x42]⟩], [0, 1]⟩ : LocaleTable).records, ∀ s,
      (⟨"AB", 1, 1, [⟨0x41, [0x41]⟩, ⟨0x42, [0x42]⟩], [0, 1]⟩ : LocaleTable).decode
        (r.bytes ++ s) = .char r.scalar r.bytes.length) := by
  have wellFormed : (⟨"AB", 1, 1, [⟨0x41, [0x41]⟩, ⟨0x42, [0x42]⟩], [0, 1]⟩ :
      LocaleTable).WellFormed :=
    ⟨by decide, by decide, by decide, by decide, by decide, by decide, by decide, by decide,
      by decide⟩
  exact ⟨wellFormed, Or.inr rfl, decodeAll_flatMap_encode wellFormed (Or.inr rfl)⟩

end LocaleTable

end LocaleCharmap
