import Mathlib
import LocaleCharmap.Proofs.Reading
import LocaleCharmap.Proofs.Names
import LocaleCharmap.Table.Basic
/-!
# The candidates of a charmap

Building a table goes through a charmap's characters in order and keeps, for each byte string,
the first character with a scalar value that has it. The kept candidates are described here
without the walk: the candidate of the character at position `k` is kept exactly when `k` is the
position of the first character with a scalar value and its bytes (`firstCarrier`). The walk
keeps a map of the bytes seen so far, which holds exactly the bytes whose first carrier comes
before the current position; one step of the walk keeps that invariant, and the whole walk keeps
the candidates in the order of their characters.

Since the characters of a charmap that reads have distinct names, and a character with a scalar
value is named by a spelling of it, there are fewer than `2 ^ 32` candidates.
-/

namespace LocaleCharmap

open Std.Do LocaleCharmap.Source

set_option mvcgen.warning false

/-- The positions of a list, listed with its elements, increase. -/
theorem zipIdx_positions {α : Type} (l : List α) : l.zipIdx.Pairwise fun p q => p.2 < q.2 := by
  have increasing : (List.range' 0 l.length).Pairwise (· < ·) :=
    List.pairwise_lt_range' 1 (by decide)
  rw [← List.zipIdx_map_snd 0 l, List.pairwise_map] at increasing
  exact increasing

/-- Whether a character has a scalar value and these bytes. -/
def Entry.carries (bytes : List UInt8) (e : Entry) : Bool :=
  e.scalar.isSome && e.bytes == bytes

/-- The position of the first character with a scalar value and these bytes, or the number of
characters when there is none. -/
def firstCarrier (entries : List Entry) (bytes : List UInt8) : Nat :=
  entries.findIdx (Entry.carries bytes)

/-- The candidate the character at a position gives: itself with its scalar value, when it has one
and no earlier character with a scalar value has its bytes. -/
def candidateAt (entries : List Entry) (p : Entry × Nat) : Option Candidate :=
  if firstCarrier entries p.1.bytes = p.2 then p.1.scalar.map fun v => ⟨p.1.bytes, v, p.2⟩
  else none

/-- The candidates of a list of characters, in their order. -/
def candidatesOf (entries : List Entry) : List Candidate :=
  entries.zipIdx.filterMap (candidateAt entries)

theorem firstCarrier_le {entries : List Entry} {k : Nat} {e : Entry} {bytes : List UInt8}
    (located : entries[k]? = some e) (carried : e.carries bytes = true) :
    firstCarrier entries bytes ≤ k := by
  by_contra later
  obtain ⟨inside, rfl⟩ := List.getElem?_eq_some_iff.mp located
  have := List.not_of_lt_findIdx (Nat.lt_of_not_le later)
  simp_all

theorem carries_of_firstCarrier_eq {entries : List Entry} {k : Nat} {e : Entry}
    {bytes : List UInt8} (located : entries[k]? = some e) (first : firstCarrier entries bytes = k) :
    e.carries bytes = true := by
  obtain ⟨inside, rfl⟩ := List.getElem?_eq_some_iff.mp located
  exact ((List.findIdx_eq inside).mp first).1

/-- The first carrier is before the next position when it is before this one or is this one. -/
theorem firstCarrier_lt_succ {entries : List Entry} {k : Nat} {e : Entry}
    (located : entries[k]? = some e) (bytes : List UInt8) :
    firstCarrier entries bytes < k + 1 ↔
      firstCarrier entries bytes < k ∨ e.carries bytes = true := by
  constructor
  · intro before
    rcases Nat.lt_succ_iff_lt_or_eq.mp before with earlier | here
    · exact Or.inl earlier
    · exact Or.inr (carries_of_firstCarrier_eq located here)
  · rintro (earlier | carried)
    · omega
    · have := firstCarrier_le located carried
      omega

theorem take_succ_zipIdx {entries : List Entry} {k : Nat} {e : Entry}
    (located : entries[k]? = some e) :
    (entries.take (k + 1)).zipIdx = (entries.take k).zipIdx ++ [(e, k)] := by
  have inside : k < entries.length := (List.getElem?_eq_some_iff.mp located).1
  rw [List.take_add_one, located, Option.toList_some, List.zipIdx_append, List.length_take,
    Nat.min_eq_left inside.le, Nat.zero_add]
  rfl

/-- Going through the characters from position `k` keeps, after the candidates of the first `k`,
exactly the candidates of the rest; `seen` holds the bytes of the first `k` characters with a
scalar value. -/
theorem collectCandidates_spec (entries : List Entry) :
    ∀ (rest : List Entry) (k : Nat) (seen : Std.HashMap (List UInt8) Nat)
      (kept : Array Candidate),
    entries.drop k = rest →
    (∀ b, seen.contains b = true ↔ firstCarrier entries b < k) →
    kept.toList = (entries.take k).zipIdx.filterMap (candidateAt entries) →
    ⦃⌜True⌝⦄ collectCandidates rest k seen kept
    ⦃⇓ kept' => ⌜kept'.toList = candidatesOf entries⌝⦄
  | [], k, seen, kept, dropped, _, keptList => by
    have whole : entries.take k = entries :=
      List.take_of_length_le (List.drop_eq_nil_iff.mp dropped)
    rw [whole] at keptList
    mvcgen [collectCandidates]
  | e :: rest, k, seen, kept, dropped, seenKeys, keptList => by
    have located : entries[k]? = some e := by
      rw [← List.head?_drop, dropped]
      rfl
    have droppedRest : entries.drop (k + 1) = rest := by
      rw [← List.drop_drop, dropped]
      rfl
    have step := take_succ_zipIdx located
    cases scalar : e.scalar with
    | none =>
      have next := collectCandidates_spec entries rest (k + 1) seen kept droppedRest
        (fun b => by simp [seenKeys, firstCarrier_lt_succ located, Entry.carries, scalar])
        (by simp [step, keptList, candidateAt, scalar])
      simp only [collectCandidates, scalar]
      mvcgen [report, next]
    | some v =>
      cases found : seen[e.bytes]? with
      | some earlier =>
        have before : firstCarrier entries e.bytes < k := by
          rw [← seenKeys, ← Std.HashMap.isSome_getElem?_eq_contains, found]
          rfl
        have next := collectCandidates_spec entries rest (k + 1) seen kept droppedRest
          (fun b => by
            rw [seenKeys, firstCarrier_lt_succ located]
            by_cases same : e.bytes = b
            · subst same
              simp [before]
            · simp [Entry.carries, same])
          (by simp [step, keptList, candidateAt, Nat.ne_of_lt before])
        simp only [collectCandidates, scalar, found]
        mvcgen [report, next]
      | none =>
        have fresh : firstCarrier entries e.bytes = k := by
          have notBefore : ¬ firstCarrier entries e.bytes < k := by
            rw [← seenKeys, ← Std.HashMap.isSome_getElem?_eq_contains, found]
            simp
          have := firstCarrier_le located
            (show e.carries e.bytes = true by simp [Entry.carries, scalar])
          omega
        have next := collectCandidates_spec entries rest (k + 1) (seen.insert e.bytes v)
          (kept.push ⟨e.bytes, v, k⟩) droppedRest
          (fun b => by
            rw [Std.HashMap.contains_insert, Bool.or_eq_true, seenKeys,
              firstCarrier_lt_succ located]
            simp [Entry.carries, scalar, or_comm])
          (by simp [step, keptList, candidateAt, fresh, scalar])
        simp only [collectCandidates, scalar, found]
        mvcgen [next]

theorem candidateAt_eq_some {entries : List Entry} {e : Entry} {k : Nat} {c : Candidate} :
    candidateAt entries (e, k) = some c ↔
      firstCarrier entries e.bytes = k ∧ e.scalar = some c.scalar ∧ e.bytes = c.bytes ∧
        c.order = k := by
  unfold candidateAt
  split_ifs with first
  · cases c
    constructor
    · intro made
      obtain ⟨v, scalar, equal⟩ := Option.map_eq_some_iff.mp made
      cases equal
      exact ⟨first, scalar, rfl, rfl⟩
    · rintro ⟨-, scalar, rfl, rfl⟩
      simp [scalar]
  · simp [first]

/-- A candidate is a character with a scalar value at its position, the first with its bytes. -/
theorem mem_candidatesOf {entries : List Entry} {c : Candidate} :
    c ∈ candidatesOf entries ↔ ∃ e, entries[c.order]? = some e ∧
      e.scalar = some c.scalar ∧ e.bytes = c.bytes ∧
        firstCarrier entries c.bytes = c.order := by
  simp only [candidatesOf, List.mem_filterMap]
  constructor
  · rintro ⟨⟨e, k⟩, member, made⟩
    obtain ⟨first, scalar, bytes, rfl⟩ := candidateAt_eq_some.mp made
    exact ⟨e, List.mem_zipIdx_iff_getElem?.mp member, scalar, bytes, bytes ▸ first⟩
  · rintro ⟨e, located, scalar, bytes, first⟩
    exact ⟨(e, c.order), List.mem_zipIdx_iff_getElem?.mpr located,
      candidateAt_eq_some.mpr ⟨bytes ▸ first, scalar, bytes, rfl⟩⟩

/-- The candidates come in the order of their characters. -/
theorem candidatesOf_orders (entries : List Entry) :
    (candidatesOf entries).Pairwise fun c d => c.order < d.order := by
  refine List.pairwise_filterMap.mpr ((zipIdx_positions entries).imp
    fun {p q} before c made d made' => ?_)
  rw [(candidateAt_eq_some.mp made).2.2.2, (candidateAt_eq_some.mp made').2.2.2]
  exact before

/-- No two candidates have the same bytes. -/
theorem candidatesOf_bytes (entries : List Entry) :
    (candidatesOf entries).Pairwise fun c d => c.bytes ≠ d.bytes := by
  refine (candidatesOf_orders entries).imp_of_mem fun {c d} member member' before same => ?_
  obtain ⟨-, -, -, -, first⟩ := mem_candidatesOf.mp member
  obtain ⟨-, -, -, -, first'⟩ := mem_candidatesOf.mp member'
  rw [same, first'] at first
  omega

/-- Fewer than `2 ^ 32` candidates: each is a character of its own with a scalar value, and the
names of such characters are distinct spellings of scalar values. -/
theorem length_candidatesOf_lt {entries : List Entry} (distinct : (entries.map (·.name)).Nodup)
    (spelled : ∀ e ∈ entries, e.scalar = scalarOfName e.name) :
    (candidatesOf entries).length < 2 ^ 32 := by
  let nameAt : Candidate → String := fun c => ((entries[c.order]?).map (·.name)).getD ""
  -- candidates sit at different positions, and the names there are different
  have distinctNames : ((candidatesOf entries).map nameAt).Nodup := by
    refine List.pairwise_map.mpr ((candidatesOf_orders entries).imp_of_mem
      fun {c d} member member' before same => ?_)
    obtain ⟨e, located, -⟩ := mem_candidatesOf.mp member
    obtain ⟨e', located', -⟩ := mem_candidatesOf.mp member'
    have inside : c.order < (entries.map (·.name)).length := by
      simpa using (List.getElem?_eq_some_iff.mp located).1
    have equal : (entries.map (·.name))[c.order]? = (entries.map (·.name))[d.order]? := by
      simpa [nameAt, located, located'] using same
    have := (List.getElem?_inj inside distinct).mp equal
    omega
  have named : ∀ name ∈ (candidatesOf entries).map nameAt, (scalarOfName name).isSome := by
    intro name listed
    obtain ⟨c, member, rfl⟩ := List.mem_map.mp listed
    obtain ⟨e, located, scalar, -, -⟩ := mem_candidatesOf.mp member
    simp only [nameAt, located, Option.map_some, Option.getD_some]
    rw [← spelled e (List.mem_of_getElem? located), scalar]
    rfl
  have bound := length_le_of_scalarOfName distinctNames named
  rw [List.length_map] at bound
  omega

/-- The first character with a scalar value and some bytes gives a candidate with those bytes. -/
theorem exists_candidate_of_carried {entries : List Entry} {e : Entry} (member : e ∈ entries)
    (scalar : e.scalar.isSome) : ∃ c ∈ candidatesOf entries, c.bytes = e.bytes := by
  have carried : ∃ d ∈ entries, d.carries e.bytes = true :=
    ⟨e, member, by simp [Entry.carries, scalar]⟩
  have inside := List.findIdx_lt_length_of_exists carried
  have first := @List.findIdx_getElem _ _ _ inside
  obtain ⟨v, named⟩ := Option.isSome_iff_exists.mp (Bool.and_eq_true_iff.mp first).1
  have same := beq_iff_eq.mp (Bool.and_eq_true_iff.mp first).2
  exact ⟨⟨e.bytes, v, firstCarrier entries e.bytes⟩,
    mem_candidatesOf.mpr ⟨_, List.getElem?_eq_getElem inside, named, same, rfl⟩, rfl⟩

/-- There are no candidates exactly when no character has a scalar value. -/
theorem candidatesOf_eq_nil_iff {entries : List Entry} :
    candidatesOf entries = [] ↔ ∀ e ∈ entries, e.scalar = none := by
  constructor
  · intro empty e member
    by_contra scalar
    obtain ⟨c, candidate, -⟩ :=
      exists_candidate_of_carried member (Option.ne_none_iff_isSome.mp scalar)
    rw [empty] at candidate
    exact List.not_mem_nil candidate
  · intro none
    refine List.eq_nil_iff_forall_not_mem.mpr fun c candidate => ?_
    obtain ⟨e, located, scalar, -⟩ := mem_candidatesOf.mp candidate
    rw [none e (List.mem_of_getElem? located)] at scalar
    contradiction

end LocaleCharmap
