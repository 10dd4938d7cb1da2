import Mathlib
import LocaleCharmap.Table.Basic
/-!
# Decoding a whole input

Decoding a whole input is the greedy iteration of decoding at the front: decode the character at
the start, step over its bytes, and go on until the input is used up or its front does not
decode. `ReadsAs t input us` says that the iteration reads the whole input as the values `us`;
`StopsAt t input k` says that it decodes a character at every step before offset `k` and finds
the front incomplete or invalid at `k`.

The iteration ends on every table, well formed or not, whatever lengths its records have: a
character decoded from a non-empty input takes at least one byte and no more bytes than the input
has, because the lengths decoding tries start at `mbCurMin` or one, whichever is larger, and stop
at the input's length. Main statement: decoding a whole input gives the values exactly when the
iteration reads it to its end, and otherwise the offset where the iteration stops, which lies
inside the input.
-/

namespace LocaleCharmap.LocaleTable

variable (t : LocaleTable)

/-- The greedy iteration of `decode` reads the whole input as these values. -/
inductive ReadsAs : List UInt8 → List Nat → Prop
  /-- Nothing is left to read. -/
  | finished : ReadsAs [] []
  /-- The front decodes to a character, and the iteration goes on after its bytes. -/
  | char {input : List UInt8} {v n : Nat} {us : List Nat} :
      t.decode input = .char v n → ReadsAs (input.drop n) us → ReadsAs input (v :: us)

/-- The greedy iteration of `decode` stops at this offset of the input: every step before decodes
a character, and the front at the offset is incomplete or invalid. -/
inductive StopsAt : List UInt8 → Nat → Prop
  /-- The front of what is left does not decode. -/
  | stuck {input : List UInt8} : input ≠ [] →
      (t.decode input = .incomplete ∨ t.decode input = .invalid) → StopsAt input 0
  /-- The front decodes to a character, and the iteration stops after its bytes. -/
  | char {input : List UInt8} {v n k : Nat} :
      t.decode input = .char v n → StopsAt (input.drop n) k → StopsAt input (n + k)

variable {t}

theorem decode_nil : t.decode [] = .incomplete := rfl

/-- A decoded character takes at least one byte and no more than the input has. -/
theorem decode_char_length {input : List UInt8} {v n : Nat} (decoded : t.decode input = .char v n) :
    0 < n ∧ n ≤ input.length := by
  unfold decode at decoded
  split at decoded
  · cases decoded
  · extract_lets window least most lengths at decoded
    -- a character comes from the search over the lengths from `least` to the window's
    cases found : lengths.findSome? fun n => (t.recordWith? (window.take n)).map (·, n) with
    | some hit =>
      rw [found] at decoded
      obtain ⟨tried, member, hit⟩ := List.exists_of_findSome?_eq_some found
      obtain ⟨k, below, rfl⟩ := List.mem_map.mp member
      obtain ⟨r, -, same⟩ := Option.map_eq_some_iff.mp hit
      cases same
      cases decoded
      have leastPos : 1 ≤ least := le_max_right _ _
      have short : most ≤ input.length := List.length_take_le' _ _
      rw [List.mem_range] at below
      omega
    | none =>
      -- otherwise the answer is incomplete or invalid
      rw [found] at decoded
      dsimp only at decoded
      by_cases shorter : window.length < t.mbCurMax
      · rw [if_pos shorter] at decoded
        cases first : t.records.find? fun r => !bytesBefore r.bytes input with
        | none =>
          rw [first] at decoded
          cases decoded
        | some r =>
          rw [first] at decoded
          dsimp only at decoded
          split at decoded <;> cases decoded
      · rw [if_neg shorter] at decoded
        cases decoded

/-- What is not a character is incomplete or invalid. -/
theorem incomplete_or_invalid {d : Decoded} (other : ∀ v n, d ≠ .char v n) :
    d = .incomplete ∨ d = .invalid := by
  cases d with
  | char v n => exact absurd rfl (other v n)
  | incomplete => exact .inl rfl
  | invalid => exact .inr rfl

/-! ### One step of the iteration -/

theorem readsAs_nil_iff {us : List Nat} : t.ReadsAs [] us ↔ us = [] := by
  constructor
  · rintro (_ | ⟨decoded, _⟩)
    · rfl
    · rw [decode_nil] at decoded
      cases decoded
  · rintro rfl
    exact .finished

theorem not_stopsAt_nil (k : Nat) : ¬ t.StopsAt [] k := by
  rintro (⟨nonempty, _⟩ | ⟨decoded, _⟩)
  · exact nonempty rfl
  · rw [decode_nil] at decoded
    cases decoded

/-- After a character at the front, the iteration reads on after its bytes. -/
theorem readsAs_iff_of_char {input : List UInt8} {v n : Nat} (decoded : t.decode input = .char v n)
    {us : List Nat} :
    t.ReadsAs input us ↔ ∃ rest, us = v :: rest ∧ t.ReadsAs (input.drop n) rest := by
  constructor
  · rintro (_ | ⟨decoded', reads⟩)
    · rw [decode_nil] at decoded
      cases decoded
    · rw [decoded, Decoded.char.injEq] at decoded'
      obtain ⟨rfl, rfl⟩ := decoded'
      exact ⟨_, rfl, reads⟩
  · rintro ⟨rest, rfl, reads⟩
    exact .char decoded reads

/-- After a character at the front, the iteration stops after its bytes. -/
theorem stopsAt_iff_of_char {input : List UInt8} {v n : Nat} (decoded : t.decode input = .char v n)
    {k : Nat} :
    t.StopsAt input k ↔ ∃ j, k = n + j ∧ t.StopsAt (input.drop n) j := by
  constructor
  · rintro (⟨_, stuck⟩ | ⟨decoded', stops⟩)
    · rw [decoded] at stuck
      simp at stuck
    · rw [decoded, Decoded.char.injEq] at decoded'
      obtain ⟨rfl, rfl⟩ := decoded'
      exact ⟨_, rfl, stops⟩
  · rintro ⟨j, rfl, stops⟩
    exact .char decoded stops

/-- A front that does not decode ends the iteration there. -/
theorem stopsAt_iff_of_not_char {input : List UInt8} (nonempty : input ≠ [])
    (other : ∀ v n, t.decode input ≠ .char v n) {k : Nat} : t.StopsAt input k ↔ k = 0 := by
  constructor
  · rintro (_ | ⟨decoded, _⟩)
    · rfl
    · exact absurd decoded (other _ _)
  · rintro rfl
    exact .stuck nonempty (incomplete_or_invalid (other · ·))

theorem not_readsAs_of_not_char {input : List UInt8} (nonempty : input ≠ [])
    (other : ∀ v n, t.decode input ≠ .char v n) (us : List Nat) : ¬ t.ReadsAs input us := by
  rintro (_ | ⟨decoded, _⟩)
  · exact nonempty rfl
  · exact other _ _ decoded

/-- Where the iteration stops lies inside the input, and the front there does not decode. -/
theorem StopsAt.offset {input : List UInt8} {k : Nat} (stops : t.StopsAt input k) :
    k < input.length ∧
      (t.decode (input.drop k) = .incomplete ∨ t.decode (input.drop k) = .invalid) := by
  induction stops with
  | stuck nonempty stuck => exact ⟨List.length_pos_iff.mpr nonempty, stuck⟩
  | @char input v n k decoded _ inductionHypothesis =>
    obtain ⟨inside, stuck⟩ := inductionHypothesis
    have short := (decode_char_length decoded).2
    rw [List.length_drop] at inside
    rw [List.drop_drop] at stuck
    exact ⟨by omega, stuck⟩

/-! ### The whole iteration -/

/-- Decoding from an offset with values already collected gives those values followed by what the
iteration reads, or the offset moved by where the iteration stops. -/
theorem decodeFrom_eq_iff (input : List UInt8) (offset : Nat) (acc : List Nat) :
    (∀ us, t.decodeFrom input offset acc = .ok us ↔
      ∃ rest, us = acc.reverse ++ rest ∧ t.ReadsAs input rest) ∧
    (∀ k, t.decodeFrom input offset acc = .error k ↔ ∃ j, k = offset + j ∧ t.StopsAt input j) := by
  -- one case per step of the loop; the induction hypothesis covers what follows the character
  fun_induction t.decodeFrom input offset acc with
  | case1 offset acc =>
    refine ⟨fun us => ?_, fun k => ?_⟩
    · rw [Except.ok.injEq]
      simp only [readsAs_nil_iff, exists_eq_right, List.append_nil, eq_comm]
    · simp [not_stopsAt_nil]
  | case2 offset acc b bs v decoded =>
    -- a character of no bytes is never decoded
    have := (decode_char_length decoded).1
    omega
  | case3 offset acc b bs v n decoded _ inductionHypothesis =>
    obtain ⟨reads, stops⟩ := inductionHypothesis
    refine ⟨fun us => ?_, fun k => ?_⟩
    · rw [reads]
      simp only [readsAs_iff_of_char decoded]
      constructor
      · rintro ⟨rest, rfl, readsRest⟩
        exact ⟨v :: rest, by simp, rest, rfl, readsRest⟩
      · rintro ⟨_, rfl, rest, rfl, readsRest⟩
        exact ⟨rest, by simp, readsRest⟩
    · rw [stops]
      simp only [stopsAt_iff_of_char decoded]
      constructor
      · rintro ⟨j, rfl, stopsRest⟩
        exact ⟨n + j, by omega, j, rfl, stopsRest⟩
      · rintro ⟨_, rfl, j, rfl, stopsRest⟩
        exact ⟨j, by omega, stopsRest⟩
  | case4 offset acc b bs other =>
    have nonempty := List.cons_ne_nil b bs
    refine ⟨fun us => ?_, fun k => ?_⟩
    · simp only [reduceCtorEq, false_iff, not_exists, not_and]
      exact fun rest _ => not_readsAs_of_not_char nonempty other rest
    · rw [Except.error.injEq, eq_comm]
      simp [stopsAt_iff_of_not_char nonempty other]

/-- Decoding a whole input is the greedy iteration of `decode`, which always ends: it reads the
input to its end or stops at an offset inside it where the front is incomplete or invalid.
Decoding gives the values read in the first case and that offset in the second. -/
theorem decodeAll_greedy (t : LocaleTable) (input : List UInt8) :
    ((∃ us, t.ReadsAs input us) ∨ ∃ k, t.StopsAt input k) ∧
    (∀ us, t.decodeAll input = .ok us ↔ t.ReadsAs input us) ∧
    (∀ k, t.decodeAll input = .error k ↔ t.StopsAt input k) ∧
    (∀ k, t.StopsAt input k → k < input.length ∧
      (t.decode (input.drop k) = .incomplete ∨ t.decode (input.drop k) = .invalid)) := by
  obtain ⟨reads, stops⟩ := @decodeFrom_eq_iff t input 0 []
  have readsAll : ∀ us, t.decodeAll input = .ok us ↔ t.ReadsAs input us := by
    intro us
    rw [decodeAll, reads]
    simp
  have stopsAll : ∀ k, t.decodeAll input = .error k ↔ t.StopsAt input k := by
    intro k
    rw [decodeAll, stops]
    simp
  refine ⟨?_, readsAll, stopsAll, fun k stopped => stopped.offset⟩
  -- decoding returns one way or the other, so the iteration ends one way or the other
  cases decoded : t.decodeAll input with
  | ok us => exact .inl ⟨us, (readsAll us).mp decoded⟩
  | error k => exact .inr ⟨k, (stopsAll k).mp decoded⟩

end LocaleCharmap.LocaleTable
