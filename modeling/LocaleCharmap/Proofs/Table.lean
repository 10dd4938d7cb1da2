import Mathlib
import LocaleCharmap.Table.Binary
/-!
# Well-formed tables

A table is well formed when its widths satisfy `1 ≤ mb_cur_min ≤ mb_cur_max ≤ 16`, it has
fewer than `2 ^ 32` records, the records are strictly increasing in the byte order, each record's
bytes have a length within the widths and its scalar value is a Unicode scalar value, and the
second index lists every record position once, in non-decreasing order of scalar value. These are
the tables the packed format carries, and the ones building a table from a charmap produces.

The byte order is lexicographic with a proper prefix first; it is a strict total order.
-/

namespace LocaleCharmap

/-! ### The byte order -/

@[simp] theorem bytesBefore_nil_left (bs : List UInt8) : bytesBefore [] bs = !bs.isEmpty := by
  cases bs <;> rfl

@[simp] theorem bytesBefore_nil_right (bs : List UInt8) : bytesBefore bs [] = false := by
  cases bs <;> rfl

theorem bytesBefore_cons_cons (a b : UInt8) (as bs : List UInt8) :
    bytesBefore (a :: as) (b :: bs) = (a < b || (a == b && bytesBefore as bs)) := rfl

theorem bytesBefore_irrefl : ∀ bs : List UInt8, bytesBefore bs bs = false
  | [] => rfl
  | b :: bs => by
    rw [bytesBefore_cons_cons, bytesBefore_irrefl bs]
    simp

theorem bytesBefore_trans : ∀ {as bs cs : List UInt8},
    bytesBefore as bs = true → bytesBefore bs cs = true → bytesBefore as cs = true
  | [], _ :: _, _ :: _, _, _ => rfl
  | _, [], _, first, _ => by simp at first
  | _, _ :: _, [], _, second => by simp at second
  | a :: as, b :: bs, c :: cs, first, second => by
    simp only [bytesBefore_cons_cons, Bool.or_eq_true, decide_eq_true_eq, Bool.and_eq_true,
      beq_iff_eq] at first second ⊢
    rcases first with first | ⟨rfl, first⟩ <;> rcases second with second | ⟨rfl, second⟩
    · exact Or.inl (UInt8.lt_trans first second)
    · exact Or.inl first
    · exact Or.inl second
    · exact Or.inr ⟨rfl, bytesBefore_trans first second⟩

theorem bytesBefore_asymm {as bs : List UInt8} (before : bytesBefore as bs = true) :
    bytesBefore bs as = false := by
  cases after : bytesBefore bs as
  · rfl
  · have := bytesBefore_trans before after
    rw [bytesBefore_irrefl] at this
    exact absurd this Bool.false_ne_true

/-- Two different byte strings are ordered one way or the other. -/
theorem bytesBefore_trichotomy : ∀ as bs : List UInt8,
    bytesBefore as bs = true ∨ as = bs ∨ bytesBefore bs as = true
  | [], [] => Or.inr (Or.inl rfl)
  | [], _ :: _ => Or.inl rfl
  | _ :: _, [] => Or.inr (Or.inr rfl)
  | a :: as, b :: bs => by
    simp only [bytesBefore_cons_cons, Bool.or_eq_true, decide_eq_true_eq, Bool.and_eq_true,
      beq_iff_eq, List.cons.injEq]
    have trichotomy : a < b ∨ a = b ∨ b < a := by
      simp only [UInt8.lt_iff_toNat_lt, ← UInt8.toNat_inj]
      omega
    rcases trichotomy with less | rfl | greater
    · exact Or.inl (Or.inl less)
    · rcases bytesBefore_trichotomy as bs with before | same | after
      · exact Or.inl (Or.inr ⟨rfl, before⟩)
      · exact Or.inr (Or.inl ⟨rfl, same⟩)
      · exact Or.inr (Or.inr (Or.inr ⟨rfl, after⟩))
    · exact Or.inr (Or.inr (Or.inl greater))

/-- A proper prefix comes first. -/
theorem bytesBefore_of_prefix : ∀ {as bs : List UInt8}, as <+: bs → as ≠ bs →
    bytesBefore as bs = true
  | [], [], _, different => absurd rfl different
  | [], _ :: _, _, _ => rfl
  | _ :: _, [], prefixed, _ => by simp at prefixed
  | a :: as, b :: bs, prefixed, different => by
    obtain ⟨rfl, restPrefixed⟩ := List.cons_prefix_cons.mp prefixed
    rw [bytesBefore_cons_cons,
      bytesBefore_of_prefix restPrefixed (fun same => different (same ▸ rfl))]
    simp

namespace LocaleTable

/-- The scalar value of the record at a position, read as the reader and the encoder read it. -/
def scalarAt (t : LocaleTable) (i : Nat) : Nat :=
  (t.records[i]?.map (·.scalar)).getD 0

/-- The bytes of the record at a position. -/
def bytesAt (t : LocaleTable) (i : Nat) : List UInt8 :=
  (t.records[i]?.map (·.bytes)).getD []

/-- A table the packed format can carry and the lookups are correct on. -/
structure WellFormed (t : LocaleTable) : Prop where
  least_pos : 1 ≤ t.mbCurMin
  least_le_most : t.mbCurMin ≤ t.mbCurMax
  most_le : t.mbCurMax ≤ 16
  size_lt : t.records.length < 2 ^ 32
  sorted : t.records.Pairwise fun a b => bytesBefore a.bytes b.bytes = true
  lengths : ∀ r ∈ t.records, t.mbCurMin ≤ r.bytes.length ∧ r.bytes.length ≤ t.mbCurMax
  scalars : ∀ r ∈ t.records, isScalarValue r.scalar = true
  index_perm : t.byScalar.Perm (List.range t.records.length)
  index_sorted : (t.byScalar.map t.scalarAt).Pairwise (· ≤ ·)

/-- No record's bytes are a proper prefix of another record's bytes. -/
def PrefixFree (t : LocaleTable) : Prop :=
  ∀ r ∈ t.records, ∀ r' ∈ t.records, r.bytes <+: r'.bytes → r.bytes = r'.bytes

/-- With all encodings of one length no encoding is a proper prefix of another. -/
theorem prefixFree_of_widths_eq {t : LocaleTable} (wellFormed : t.WellFormed)
    (equal : t.mbCurMin = t.mbCurMax) : t.PrefixFree := by
  intro r member r' member' prefixed
  have same : r.bytes.length = r'.bytes.length := by
    have := wellFormed.lengths r member
    have := wellFormed.lengths r' member'
    omega
  exact prefixed.eq_of_length same

/-- The records of a well-formed table have pairwise different bytes. -/
theorem WellFormed.bytes_injective {t : LocaleTable} (wellFormed : t.WellFormed) :
    (t.records.map (·.bytes)).Nodup := by
  refine List.Pairwise.map _ (fun a b before same => ?_) wellFormed.sorted
  rw [same, bytesBefore_irrefl] at before
  exact Bool.false_ne_true before

/-- Every record has a position in the second index. -/
theorem WellFormed.exists_index {t : LocaleTable} (wellFormed : t.WellFormed) {r : Record}
    (member : r ∈ t.records) :
    ∃ i ∈ t.byScalar, t.scalarAt i = r.scalar ∧ t.bytesAt i = r.bytes := by
  obtain ⟨i, inside, rfl⟩ := List.getElem_of_mem member
  refine ⟨i, wellFormed.index_perm.mem_iff.mpr (List.mem_range.mpr inside), ?_, ?_⟩
  · simp [scalarAt, List.getElem?_eq_getElem inside]
  · simp [bytesAt, List.getElem?_eq_getElem inside]

/-- Every position in the second index is that of a record. -/
theorem WellFormed.exists_record {t : LocaleTable} (wellFormed : t.WellFormed) {i : Nat}
    (member : i ∈ t.byScalar) :
    ∃ r ∈ t.records, t.scalarAt i = r.scalar ∧ t.bytesAt i = r.bytes := by
  have inside := List.mem_range.mp (wellFormed.index_perm.mem_iff.mp member)
  refine ⟨t.records[i], List.getElem_mem inside, ?_, ?_⟩
  · simp [scalarAt, List.getElem?_eq_getElem inside]
  · simp [bytesAt, List.getElem?_eq_getElem inside]

end LocaleTable

end LocaleCharmap
