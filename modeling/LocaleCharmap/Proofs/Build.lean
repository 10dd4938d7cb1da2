import Mathlib
import LocaleCharmap.Proofs.Candidates
import LocaleCharmap.Proofs.Lookup
/-!
# Building a table from a charmap

Building a table sorts the candidates of a charmap by their bytes into the records, and sorts
the positions of the records by scalar value, ties by the position of the character behind each,
into the second index. `LocaleTable.BuiltFrom` says what the result is without the sorts: a
well-formed table with the charmap's widths, one record for each byte string that a character
with a scalar value has, with the scalar value of the first such character, and a second index
ordered by scalar value and then by the position of that first character. Any two orders the
sorts may give lead to such a table, so the proof depends only on the sorts' results being
permutations that are sorted.

Encoding in such a table is then described by the charmap alone: it gives the bytes of the first
character with the scalar value whose bytes no earlier character with a scalar value has. Both
sides find a first element among corresponding ones, ordered by the same key.

A table built from a charmap that reads successfully is well formed, so it reads back from its
packed form.
-/

namespace LocaleCharmap

open Std.Do

set_option mvcgen.warning false

/-! ### The first element found -/

/-- Of the elements that pass a test, `find?` gives the one of least key, when keys increase along
the list among them. -/
theorem lt_of_find?_eq_some {α : Type} {l : List α} {p : α → Bool} {g : α → Nat}
    (sorted : l.Pairwise fun a a' => p a = true → p a' = true → g a < g a') {x : α}
    (found : l.find? p = some x) : ∀ y ∈ l, p y = true → y ≠ x → g x < g y := by
  obtain ⟨passes, before, after, split, skipped⟩ := List.find?_eq_some_iff_append.mp found
  intro y member passesY different
  rw [split] at member sorted
  rcases List.mem_append.mp member with early | late
  · have := skipped y early
    rw [passesY] at this
    contradiction
  · rcases List.mem_cons.mp late with same | later
    · exact absurd same different
    · have tail := (List.pairwise_append.mp sorted).2.1
      exact (List.pairwise_cons.mp tail).1 y later passes passesY

/-- Two lists whose elements that pass a test correspond one to one, with the same key and value,
give the same value for the first element that passes, when keys increase along both lists among
the elements that pass. -/
theorem find?_map_eq_of_correspond {α β γ : Type} {l₁ : List α} {l₂ : List β}
    {p₁ : α → Bool} {p₂ : β → Bool} (g₁ : α → Nat) (g₂ : β → Nat)
    {v₁ : α → γ} {v₂ : β → γ}
    (sorted₁ : l₁.Pairwise fun a a' => p₁ a = true → p₁ a' = true → g₁ a < g₁ a')
    (sorted₂ : l₂.Pairwise fun b b' => p₂ b = true → p₂ b' = true → g₂ b < g₂ b')
    (forth : ∀ a ∈ l₁, p₁ a = true →
      ∃ b ∈ l₂, p₂ b = true ∧ g₂ b = g₁ a ∧ v₂ b = v₁ a)
    (back : ∀ b ∈ l₂, p₂ b = true →
      ∃ a ∈ l₁, p₁ a = true ∧ g₁ a = g₂ b ∧ v₁ a = v₂ b) :
    (l₁.find? p₁).map v₁ = (l₂.find? p₂).map v₂ := by
  cases found₁ : l₁.find? p₁ with
  | none =>
    cases found₂ : l₂.find? p₂ with
    | none => rfl
    | some b =>
      obtain ⟨a, member, passes, -⟩ :=
        back b (List.mem_of_find?_eq_some found₂) (List.find?_some found₂)
      have := List.find?_eq_none.mp found₁ a member
      rw [passes] at this
      contradiction
  | some a =>
    obtain ⟨b, memberB, passesB, keyB, -⟩ :=
      forth a (List.mem_of_find?_eq_some found₁) (List.find?_some found₁)
    obtain ⟨b₁, found₂⟩ : ∃ b₁, l₂.find? p₂ = some b₁ :=
      Option.isSome_iff_exists.mp (List.find?_isSome.mpr ⟨b, memberB, passesB⟩)
    obtain ⟨a', memberA', passesA', keyA', value⟩ :=
      back b₁ (List.mem_of_find?_eq_some found₂) (List.find?_some found₂)
    -- each side's first has the least key there, so the two firsts correspond
    have least₂ : g₂ b₁ ≤ g₂ b := by
      by_cases same : b = b₁
      · rw [same]
      · exact (lt_of_find?_eq_some sorted₂ found₂ b memberB passesB same).le
    have same : a' = a := by
      by_contra different
      have := lt_of_find?_eq_some sorted₁ found₁ a' memberA' passesA' different
      omega
    rw [found₂, Option.map_some, Option.map_some, ← same, value]

namespace LocaleTable

/-- What building a table from a charmap promises: a well-formed table with the charmap's widths,
one record for each byte string that a character with a scalar value has, with the scalar value
of the first such character, and a second index that lists the records by scalar value and, for
equal values, by the position of that first character. -/
structure BuiltFrom (m : Charmap) (name : String) (t : LocaleTable) : Prop where
  wellFormed : t.WellFormed
  name_eq : t.name = name
  least_eq : t.mbCurMin = m.mbCurMin
  most_eq : t.mbCurMax = m.mbCurMax
  covers : ∀ bytes, (∃ r ∈ t.records, r.bytes = bytes) ↔
    ∃ e ∈ m.entries, e.scalar.isSome ∧ e.bytes = bytes
  first : ∀ r ∈ t.records,
    (m.entries.toList.find? (Entry.carries r.bytes)).bind (·.scalar) = some r.scalar
  index_order : t.byScalar.Pairwise fun i j => t.scalarAt i < t.scalarAt j ∨
    (t.scalarAt i = t.scalarAt j ∧
      firstCarrier m.entries.toList (t.bytesAt i) < firstCarrier m.entries.toList (t.bytesAt j))

end LocaleTable

section Assembly

variable {entries : List Entry} {sorted : List Candidate}

/-- Candidates in an order that puts no bytes after later bytes are strictly increasing in bytes,
since no two have the same bytes. -/
theorem strictly_of_sorted (perm : sorted.Perm (candidatesOf entries))
    (ordered : sorted.Pairwise fun a b => (!bytesBefore b.bytes a.bytes) = true) :
    sorted.Pairwise fun a b => bytesBefore a.bytes b.bytes = true := by
  have distinct : sorted.Pairwise fun a b => a.bytes ≠ b.bytes :=
    (perm.pairwise_iff fun different => Ne.symm different).mpr (candidatesOf_bytes entries)
  refine (ordered.and distinct).imp fun {a b} ⟨notAfter, different⟩ => ?_
  rcases bytesBefore_trichotomy a.bytes b.bytes with before | same | after
  · exact before
  · exact absurd same different
  · simp [after] at notAfter

/-- A position listed with a candidate in the keyed list holds that candidate. -/
theorem getElem?_of_mem_keyed {keyed : List (Candidate × Nat)}
    (keyedPerm : keyed.Perm sorted.zipIdx)
    {p : Candidate × Nat} (member : p ∈ keyed) : sorted[p.2]? = some p.1 :=
  List.mem_zipIdx_iff_getElem?.mp (keyedPerm.mem_iff.mp member)

/-- The table the candidates in these two orders give, as building a table assembles it. -/
def assembled (m : Charmap) (name : String) (sorted : List Candidate)
    (keyed : List (Candidate × Nat)) : LocaleTable :=
  ⟨name, m.mbCurMin, m.mbCurMax, sorted.map fun c => ⟨c.scalar, c.bytes⟩, keyed.map (·.2)⟩

@[simp] theorem assembled_records (m : Charmap) (name : String) (sorted : List Candidate)
    (keyed : List (Candidate × Nat)) :
    (assembled m name sorted keyed).records = sorted.map fun c => ⟨c.scalar, c.bytes⟩ := rfl

@[simp] theorem assembled_byScalar (m : Charmap) (name : String) (sorted : List Candidate)
    (keyed : List (Candidate × Nat)) :
    (assembled m name sorted keyed).byScalar = keyed.map (·.2) := rfl

variable {m : Charmap} (wellFormed : m.WellFormed) {name : String}
  {keyed : List (Candidate × Nat)}
  (perm : sorted.Perm (candidatesOf m.entries.toList))
  (ordered : sorted.Pairwise fun a b => (!bytesBefore b.bytes a.bytes) = true)
  (keyedPerm : keyed.Perm sorted.zipIdx)
  (keyOrdered : keyed.Pairwise fun a b =>
    (a.1.scalar < b.1.scalar || (a.1.scalar == b.1.scalar && a.1.order ≤ b.1.order)) = true)

include perm in
/-- A sorted candidate is a character with a scalar value, the first with its bytes. -/
theorem entry_of_mem_sorted {c : Candidate} (member : c ∈ sorted) :
    ∃ e ∈ m.entries, m.entries.toList[c.order]? = some e ∧ e.scalar = some c.scalar ∧
      e.bytes = c.bytes ∧ firstCarrier m.entries.toList c.bytes = c.order := by
  obtain ⟨e, located, scalar, bytes, first⟩ := mem_candidatesOf.mp (perm.mem_iff.mp member)
  exact ⟨e, Array.mem_toList_iff.mp (List.mem_of_getElem? located), located, scalar, bytes,
    first⟩

include perm in
/-- Every record comes from the first character with a scalar value and the record's bytes, and
has that character's scalar value. -/
theorem entry_of_mem_records {r : Record} (listed : r ∈ (assembled m name sorted keyed).records) :
    ∃ e ∈ m.entries, m.entries.toList[firstCarrier m.entries.toList r.bytes]? = some e ∧
      e.scalar = some r.scalar ∧ e.bytes = r.bytes := by
  obtain ⟨c, member, rfl⟩ := List.mem_map.mp listed
  obtain ⟨e, entry, located, scalar, bytes, first⟩ := entry_of_mem_sorted perm member
  refine ⟨e, entry, ?_, scalar, bytes⟩
  rw [first]
  exact located

theorem scalarAt_assembled {p : Candidate × Nat} (located : sorted[p.2]? = some p.1) :
    (assembled m name sorted keyed).scalarAt p.2 = p.1.scalar := by
  simp [assembled, LocaleTable.scalarAt, located]

theorem bytesAt_assembled {p : Candidate × Nat} (located : sorted[p.2]? = some p.1) :
    (assembled m name sorted keyed).bytesAt p.2 = p.1.bytes := by
  simp [assembled, LocaleTable.bytesAt, located]

include wellFormed perm ordered keyedPerm keyOrdered in
theorem wellFormed_assembled : (assembled m name sorted keyed).WellFormed where
  least_pos := wellFormed.widths.1
  least_le_most := wellFormed.widths.2.1
  most_le := wellFormed.widths.2.2
  size_lt := by
    rw [assembled_records, List.length_map, perm.length_eq]
    exact length_candidatesOf_lt wellFormed.distinct fun e member =>
      (wellFormed.fits e (Array.mem_toList_iff.mp member)).2.2
  sorted := List.pairwise_map.mpr (strictly_of_sorted perm ordered)
  lengths := by
    intro r listed
    obtain ⟨e, entry, -, -, bytes⟩ := entry_of_mem_records perm listed
    rw [← bytes]
    exact ⟨(wellFormed.fits e entry).1, (wellFormed.fits e entry).2.1⟩
  scalars := by
    intro r listed
    obtain ⟨e, entry, -, scalar, -⟩ := entry_of_mem_records perm listed
    rw [(wellFormed.fits e entry).2.2] at scalar
    exact isScalar_of_scalarOfName scalar
  index_perm := by
    have positions := keyedPerm.map Prod.snd
    rwa [List.zipIdx_map_snd, ← List.range_eq_range', ← List.length_map
      (fun c : Candidate => (⟨c.scalar, c.bytes⟩ : Record))] at positions
  index_sorted := by
    rw [assembled_byScalar, List.map_map, List.pairwise_map]
    refine keyOrdered.imp_of_mem fun {p q} member member' keyLe => ?_
    simp only [Function.comp_apply, scalarAt_assembled (getElem?_of_mem_keyed keyedPerm member),
      scalarAt_assembled (getElem?_of_mem_keyed keyedPerm member')]
    simp only [Bool.or_eq_true, decide_eq_true_eq, Bool.and_eq_true, beq_iff_eq] at keyLe
    omega

include perm in
theorem covers_assembled (bytes : List UInt8) :
    (∃ r ∈ (assembled m name sorted keyed).records, r.bytes = bytes) ↔
      ∃ e ∈ m.entries, e.scalar.isSome ∧ e.bytes = bytes := by
  constructor
  · rintro ⟨r, listed, rfl⟩
    obtain ⟨e, entry, -, scalar, same⟩ := entry_of_mem_records perm listed
    exact ⟨e, entry, by simp [scalar], same⟩
  · rintro ⟨e, entry, scalar, rfl⟩
    obtain ⟨c, candidate, same⟩ :=
      exists_candidate_of_carried (Array.mem_toList_iff.mpr entry) scalar
    exact ⟨⟨c.scalar, c.bytes⟩, List.mem_map.mpr ⟨c, perm.mem_iff.mpr candidate, rfl⟩,
      same⟩

include perm in
theorem first_assembled {r : Record} (listed : r ∈ (assembled m name sorted keyed).records) :
    (m.entries.toList.find? (Entry.carries r.bytes)).bind (·.scalar) = some r.scalar := by
  obtain ⟨e, -, located, scalar, -⟩ := entry_of_mem_records perm listed
  rw [List.find?_eq_getElem?_findIdx]
  change (m.entries.toList[firstCarrier m.entries.toList r.bytes]?).bind (·.scalar) = _
  rw [located, Option.bind_some, scalar]

include perm keyedPerm keyOrdered in
theorem index_order_assembled :
    (assembled m name sorted keyed).byScalar.Pairwise fun i j =>
      (assembled m name sorted keyed).scalarAt i < (assembled m name sorted keyed).scalarAt j ∨
      ((assembled m name sorted keyed).scalarAt i = (assembled m name sorted keyed).scalarAt j ∧
        firstCarrier m.entries.toList ((assembled m name sorted keyed).bytesAt i) <
          firstCarrier m.entries.toList ((assembled m name sorted keyed).bytesAt j)) := by
  -- the positions of the characters behind the keyed candidates are distinct
  have distinct : keyed.Pairwise fun p q => p.1.order ≠ q.1.order := by
    have orders : sorted.Pairwise fun c d => c.order ≠ d.order :=
      (perm.pairwise_iff fun different => Ne.symm different).mpr
        ((candidatesOf_orders m.entries.toList).imp Nat.ne_of_lt)
    rw [← List.zipIdx_map_fst 0 sorted, List.pairwise_map] at orders
    exact (keyedPerm.pairwise_iff fun different => Ne.symm different).mpr orders
  rw [assembled_byScalar, List.pairwise_map]
  refine (keyOrdered.and distinct).imp_of_mem fun {p q} member member' ⟨keyLe, different⟩ => ?_
  have located := getElem?_of_mem_keyed keyedPerm member
  have located' := getElem?_of_mem_keyed keyedPerm member'
  obtain ⟨-, -, -, -, -, first⟩ := entry_of_mem_sorted perm (List.mem_of_getElem? located)
  obtain ⟨-, -, -, -, -, first'⟩ := entry_of_mem_sorted perm (List.mem_of_getElem? located')
  rw [scalarAt_assembled located, scalarAt_assembled located', bytesAt_assembled located,
    bytesAt_assembled located', first, first']
  simp only [Bool.or_eq_true, decide_eq_true_eq, Bool.and_eq_true, beq_iff_eq] at keyLe
  omega

include wellFormed perm ordered keyedPerm keyOrdered in
theorem builtFrom_assembled : (assembled m name sorted keyed).BuiltFrom m name where
  wellFormed := wellFormed_assembled wellFormed perm ordered keyedPerm keyOrdered
  name_eq := rfl
  least_eq := rfl
  most_eq := rfl
  covers := covers_assembled perm
  first _ listed := first_assembled perm listed
  index_order := index_order_assembled perm keyedPerm keyOrdered

end Assembly

/-! ### The sorts and the build -/

theorem notAfter_trans (a b c : Candidate) :
    (!bytesBefore b.bytes a.bytes) = true → (!bytesBefore c.bytes b.bytes) = true →
      (!bytesBefore c.bytes a.bytes) = true := by
  simp only [Bool.not_eq_eq_eq_not, Bool.not_true]
  intro notBA notCB
  cases before : bytesBefore c.bytes a.bytes
  · rfl
  · rcases bytesBefore_trichotomy a.bytes b.bytes with ab | same | ba
    · rw [bytesBefore_trans before ab] at notCB
      contradiction
    · rw [← same, before] at notCB
      contradiction
    · rw [ba] at notBA
      contradiction

theorem notAfter_total (a b : Candidate) :
    ((!bytesBefore b.bytes a.bytes) || (!bytesBefore a.bytes b.bytes)) = true := by
  cases before : bytesBefore a.bytes b.bytes
  · simp
  · simp [bytesBefore_asymm before]

theorem keyLe_trans (a b c : Candidate × Nat) :
    (a.1.scalar < b.1.scalar || (a.1.scalar == b.1.scalar && a.1.order ≤ b.1.order)) = true →
    (b.1.scalar < c.1.scalar || (b.1.scalar == c.1.scalar && b.1.order ≤ c.1.order)) = true →
    (a.1.scalar < c.1.scalar || (a.1.scalar == c.1.scalar && a.1.order ≤ c.1.order)) = true := by
  simp only [Bool.or_eq_true, decide_eq_true_eq, Bool.and_eq_true, beq_iff_eq]
  omega

theorem keyLe_total (a b : Candidate × Nat) :
    ((a.1.scalar < b.1.scalar || (a.1.scalar == b.1.scalar && a.1.order ≤ b.1.order)) ||
      (b.1.scalar < a.1.scalar || (b.1.scalar == a.1.scalar && b.1.order ≤ a.1.order))) =
      true := by
  simp only [Bool.or_eq_true, decide_eq_true_eq, Bool.and_eq_true, beq_iff_eq]
  omega

/-- Building a table from a well-formed charmap fails, with the table error, only when no character
has a scalar value, and otherwise gives a table built from the charmap. -/
theorem ofCharmap_spec {m : Charmap} (wellFormed : m.WellFormed) (name : String) :
    ⦃⌜True⌝⦄ LocaleTable.ofCharmap m name
    ⦃post⟨fun t => ⌜(∃ e ∈ m.entries, e.scalar.isSome) ∧ t.BuiltFrom m name⌝,
      fun f => ⌜f = .table .noScalars ∧ ∀ e ∈ m.entries, e.scalar = none⌝⟩⦄ := by
  have collected := collectCandidates_spec m.entries.toList m.entries.toList 0 {} #[] rfl
    (by simp [Std.HashMap.contains_empty]) (by simp)
  mvcgen [LocaleTable.ofCharmap, collected]
  case vc1 =>
    -- no candidates: the build fails, and no character has a scalar value
    rename_i _ kept _ empty _ listed
    have none : candidatesOf m.entries.toList = [] := by
      rw [← listed]
      simpa using empty
    exact ⟨trivial, fun e member =>
      candidatesOf_eq_nil_iff.mp none e (Array.mem_toList_iff.mpr member)⟩
  case vc2 =>
    rename_i _ kept _ nonempty _ _ _ _ listed
    have some : candidatesOf m.entries.toList ≠ [] := by
      rw [← listed]
      simpa using nonempty
    have scalared : ∃ e ∈ m.entries, e.scalar.isSome := by
      by_contra none
      refine some (candidatesOf_eq_nil_iff.mpr fun e member => ?_)
      exact Option.not_isSome_iff_eq_none.mp fun scalar =>
        none ⟨e, Array.mem_toList_iff.mp member, scalar⟩
    have sortedPerm := (List.mergeSort_perm kept.toList
      fun a b => !bytesBefore b.bytes a.bytes).trans (by rw [listed])
    exact ⟨scalared, builtFrom_assembled wellFormed sortedPerm
      (List.pairwise_mergeSort notAfter_trans notAfter_total _) (List.mergeSort_perm _ _)
      (List.pairwise_mergeSort keyLe_trans keyLe_total _)⟩

namespace LocaleTable

variable {m : Charmap} {name : String} {t : LocaleTable}

/-- The first character with a record's bytes and a scalar value has the record's value. -/
theorem BuiltFrom.carrier (built : t.BuiltFrom m name) {r : Record} (member : r ∈ t.records) :
    ∃ e, m.entries.toList[firstCarrier m.entries.toList r.bytes]? = some e ∧
      e.scalar = some r.scalar ∧ e.bytes = r.bytes := by
  have first := built.first r member
  rw [List.find?_eq_getElem?_findIdx] at first
  change (m.entries.toList[firstCarrier m.entries.toList r.bytes]?).bind (·.scalar) =
    some r.scalar at first
  cases located : m.entries.toList[firstCarrier m.entries.toList r.bytes]? with
  | none =>
    rw [located] at first
    contradiction
  | some e =>
    rw [located, Option.bind_some] at first
    have carried := carries_of_firstCarrier_eq located rfl
    exact ⟨e, rfl, first, beq_iff_eq.mp (Bool.and_eq_true_iff.mp carried).2⟩

/-- Encoding in a table built from a charmap gives the bytes of the first character with the
scalar value whose bytes no earlier character with a scalar value has. -/
theorem BuiltFrom.encode_eq (built : t.BuiltFrom m name) (u : Nat) :
    t.encode u = (m.entries.toList.zipIdx.find? fun p =>
      p.1.scalar == some u && firstCarrier m.entries.toList p.1.bytes == p.2).map (·.1.bytes) := by
  rw [LocaleTable.encode_eq built.wellFormed]
  refine find?_map_eq_of_correspond (fun i => firstCarrier m.entries.toList (t.bytesAt i)) (·.2)
    ?_ ((zipIdx_positions _).imp fun before _ _ => before) ?_ ?_
  · -- among records of one scalar value the index follows their first characters
    refine built.index_order.imp fun {i j} order same same' => ?_
    simp only [beq_iff_eq] at same same'
    omega
  · intro i member same
    obtain ⟨r, record, scalar, bytes⟩ := built.wellFormed.exists_record member
    obtain ⟨e, located, named, carried⟩ := built.carrier record
    refine ⟨(e, firstCarrier m.entries.toList r.bytes), List.mem_zipIdx_iff_getElem?.mpr located,
      ?_, by simp [bytes], by simp [bytes, carried]⟩
    simp only [beq_iff_eq] at same
    simp [named, carried, ← scalar, same]
  · rintro ⟨e, k⟩ member passes
    simp only [Bool.and_eq_true, beq_iff_eq] at passes
    obtain ⟨named, first⟩ := passes
    have located := List.mem_zipIdx_iff_getElem?.mp member
    obtain ⟨r, record, carried⟩ := (built.covers e.bytes).mpr
      ⟨e, Array.mem_toList_iff.mp (List.mem_of_getElem? located), by simp [named], rfl⟩
    obtain ⟨e', located', named', -⟩ := built.carrier record
    rw [carried, first, located, Option.some_inj] at located'
    subst located'
    obtain ⟨i, index, scalar, bytes⟩ := built.wellFormed.exists_index record
    refine ⟨i, index, ?_, by simp [bytes, carried, first], by simp [bytes, carried]⟩
    rw [named, Option.some_inj] at named'
    simp [scalar, named']

/-- Building a table from a charmap that reads successfully fails, with the table error, exactly
when no character has a scalar value; otherwise it gives a well-formed table with the charmap's
widths, one record per byte string that a character with a scalar value has, with the scalar
value of the first such character, and a second index ordered by scalar value and then by the
position of that first character. Encoding a scalar value in that table gives the bytes of the
first character with that value whose bytes no earlier character with a scalar value has. -/
theorem ofCharmap_parsed (text : String) (opts : Options) (m : Charmap) (log : Array Diagnostic)
    (parsed : (Charmap.parse text opts).run = (.ok m, log)) (name : String) :
    match (LocaleTable.ofCharmap m name).run.1 with
    | .ok t => (∃ e ∈ m.entries, e.scalar.isSome) ∧ t.BuiltFrom m name ∧
        ∀ u, t.encode u = (m.entries.toList.zipIdx.find? fun p =>
          p.1.scalar == some u && firstCarrier m.entries.toList p.1.bytes == p.2).map (·.1.bytes)
    | .error f => f = .table .noScalars ∧ ∀ e ∈ m.entries, e.scalar = none := by
  have outcome :=
    Logged.outcome_of_triple (ofCharmap_spec (Charmap.wellFormed_of_parse parsed) name)
  split
  · rename_i t built
    rw [built] at outcome
    exact ⟨outcome.1, outcome.2, outcome.2.encode_eq⟩
  · rename_i f failed
    rw [failed] at outcome
    exact outcome

/-- Building the table of the sample charmap succeeds. Encoding `U+0041` gives the bytes of the
first character with it, though the third has it too with bytes that sort first; `U+00C5` has no
encoding, since its character repeats the bytes of the first. -/
theorem ofCharmap_parsed_sample :
    ∃ m log, (Charmap.parse Charmap.sampleSource ⟨false, false⟩).run = (.ok m, log) ∧
      ∃ t, (LocaleTable.ofCharmap m "sample").run.1 = .ok t ∧ t.BuiltFrom m "sample" ∧
        t.encode 0x41 = some [0x41] ∧ t.encode 0xC5 = none := by
  have parsed := Charmap.parse_sampleSource false
  have outcome := ofCharmap_parsed _ _ _ _ parsed "sample"
  refine ⟨_, _, parsed, ?_⟩
  split at outcome
  · next t built =>
    obtain ⟨-, fromCharmap, encoded⟩ := outcome
    exact ⟨t, built, fromCharmap, by rw [encoded]; decide, by rw [encoded]; decide⟩
  · -- the first character has a scalar value, so the build cannot fail
    next f failed =>
    have scalarless := outcome.2 ⟨"U0041", [0x41], some 0x41, none, some 3⟩ (by decide +kernel)
    cases scalarless

/-- Reading the packed form of a well-formed table back, whatever bytes follow it, gives the table
with its name cut to eight bytes on a character boundary and before its first `U+0000`; every
table built from a charmap that reads successfully is such a table. -/
theorem ofBytes_toBytes :
    (∀ t : LocaleTable, t.WellFormed → t.ReadsBack) ∧
    ∀ (text : String) (opts : Options) (m : Charmap) (log : Array Diagnostic) (name : String)
      (t : LocaleTable) (log' : Array Diagnostic),
      (Charmap.parse text opts).run = (.ok m, log) →
      (LocaleTable.ofCharmap m name).run = (.ok t, log') → t.ReadsBack := by
  refine ⟨fun t wellFormed => wellFormed.readsBack,
    fun text opts m log name t log' parsed built => ?_⟩
  have outcome :=
    Logged.outcome_of_triple (ofCharmap_spec (Charmap.wellFormed_of_parse parsed) name)
  rw [built] at outcome
  exact outcome.2.wellFormed.readsBack

/-- A table whose name is nine bytes long and that has a two-byte record reads back. -/
theorem ofBytes_toBytes_long_name :
    (⟨"ABCDEFGé", 1, 2, [⟨0x20, [0x20]⟩, ⟨0x41, [0x41]⟩, ⟨0xE9, [0xC3, 0xA9]⟩], [0, 1, 2]⟩ :
      LocaleTable).WellFormed ∧
    (⟨"ABCDEFGé", 1, 2, [⟨0x20, [0x20]⟩, ⟨0x41, [0x41]⟩, ⟨0xE9, [0xC3, 0xA9]⟩], [0, 1, 2]⟩ :
      LocaleTable).ReadsBack := by
  have wellFormed : (⟨"ABCDEFGé", 1, 2, [⟨0x20, [0x20]⟩, ⟨0x41, [0x41]⟩, ⟨0xE9, [0xC3, 0xA9]⟩],
      [0, 1, 2]⟩ : LocaleTable).WellFormed :=
    ⟨by decide, by decide, by decide, by decide, by decide, by decide, by decide, by decide,
      by decide⟩
  exact ⟨wellFormed, ofBytes_toBytes.1 _ wellFormed⟩

end LocaleTable

end LocaleCharmap
