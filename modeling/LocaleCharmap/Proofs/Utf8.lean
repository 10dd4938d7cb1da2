import Mathlib
import LocaleCharmap.Text.Utf8
/-!
# Reading back what was encoded

Reading bytes with replacement gives back every text that was encoded as UTF-8: the lead byte of
each encoded character announces its length, the following bytes fall in the ranges that lead byte
allows, and the bits reassemble into the character. Only the character `U+0000` encodes to a zero
byte, so cutting an encoding at its first zero cuts the text before its first `U+0000`. The cut of
a text to a number of bytes keeps the longest prefix that fits.
-/

namespace LocaleCharmap.Text

/-! ### Bytes of a byte array -/

theorem toList_loop (bs : ByteArray) (i : Nat) (r : List UInt8) (within : i ≤ bs.size) :
    ByteArray.toList.loop bs i r = r.reverse ++ bs.data.toList.drop i := by
  fun_induction ByteArray.toList.loop bs i r with
  | case1 i r inside inductionHypothesis =>
    have dropped : bs.data.toList.drop i = bs.get! i :: bs.data.toList.drop (i + 1) := by
      rw [List.drop_eq_getElem_cons (by simpa using inside)]
      simp [ByteArray.get!, inside]
    rw [inductionHypothesis (by omega), dropped, List.reverse_cons, List.append_assoc,
      List.singleton_append]
  | case2 i r outside =>
    have ended : i = bs.size := by omega
    subst ended
    simp

theorem byteArray_toList (bs : ByteArray) : bs.toList = bs.data.toList := by
  rw [ByteArray.toList, toList_loop bs 0 [] (Nat.zero_le _)]
  simp

/-- The UTF-8 bytes of a text are the encodings of its characters, one after the other. -/
theorem utf8Bytes_ofList (cs : List Char) :
    utf8Bytes (String.ofList cs) = cs.flatMap String.utf8EncodeChar := by
  rw [utf8Bytes, String.toUTF8_eq_toByteArray, String.toByteArray_ofList, byteArray_toList,
    List.utf8Encode, List.toList_data_toByteArray]

/-! ### One character -/

theorem char_toNat_valid (c : Char) :
    c.toNat < 0xD800 ∨ (0xDFFF < c.toNat ∧ c.toNat < 0x110000) := by
  have valid := c.valid
  simp only [UInt32.isValidChar, Nat.isValidChar] at valid
  exact valid

theorem toNat_ofNat_of_lt {n : Nat} (small : n < 256) : (UInt8.ofNat n).toNat = n := by
  simp [UInt8.toNat_ofNat', Nat.mod_eq_of_lt small]

/-- The second byte of a three-byte encoding lies in the range its lead byte allows: this is
where overlong forms and surrogates would be refused. -/
theorem fitsSecond_three (v : Nat) (large : 0x7FF < v) (small : v ≤ 0xFFFF)
    (notSurrogate : v < 0xD800 ∨ 0xDFFF < v) :
    fitsSecond (v / 4096 % 16 + 0xE0) (UInt8.ofNat (v / 64 % 64 + 0x80)) = true := by
  unfold fitsSecond secondByteRange
  rw [toNat_ofNat_of_lt (by omega)]
  split_ifs <;> simp only [Bool.and_eq_true, decide_eq_true_eq] <;> omega

theorem fitsSecond_four (v : Nat) (large : 0xFFFF < v) (small : v < 0x110000) :
    fitsSecond (v / 262144 % 8 + 0xF0) (UInt8.ofNat (v / 4096 % 64 + 0x80)) = true := by
  unfold fitsSecond secondByteRange
  rw [toNat_ofNat_of_lt (by omega)]
  split_ifs <;> simp only [Bool.and_eq_true, decide_eq_true_eq] <;> omega

/-- Decoding the encoding of a character, whatever follows it, gives the character and takes
exactly the bytes after the lead byte. -/
theorem decodeSequence_utf8EncodeChar (c : Char) (more : List UInt8) :
    ∃ lead rest, String.utf8EncodeChar c = lead :: rest ∧
      decodeSequence lead (rest ++ more) = (some c, rest.length) := by
  have valid := char_toNat_valid c
  unfold String.utf8EncodeChar
  simp only [Char.toNat_val] at valid ⊢
  split_ifs with one two three
  · refine ⟨_, _, rfl, ?_⟩
    simp only [decodeSequence, toNat_ofNat_of_lt (show c.toNat < 256 by omega),
      show c.toNat < 0x80 by omega, if_true, Char.ofNat_toNat, List.length_nil]
  · refine ⟨_, _, rfl, ?_⟩
    have value : (c.toNat / 64 % 32 + 192) % 32 * 64 + (c.toNat % 64 + 128) % 64 = c.toNat := by
      omega
    simp only [decodeSequence, isContinuation, List.cons_append, List.nil_append,
      toNat_ofNat_of_lt (show c.toNat / 64 % 32 + 192 < 256 by omega),
      toNat_ofNat_of_lt (show c.toNat % 64 + 128 < 256 by omega)]
    simp (disch := omega) only [Bool.and_eq_true, decide_eq_true_eq, if_pos, if_neg]
    rw [value, Char.ofNat_toNat, List.length_singleton]
  · refine ⟨_, _, rfl, ?_⟩
    have second := fitsSecond_three c.toNat (by omega) (by omega) (by omega)
    have value : (c.toNat / 4096 % 16 + 224) % 16 * 4096 + (c.toNat / 64 % 64 + 128) % 64 * 64 +
        (c.toNat % 64 + 128) % 64 = c.toNat := by
      omega
    simp only [decodeSequence, isContinuation, List.cons_append, List.nil_append, second,
      toNat_ofNat_of_lt (show c.toNat / 4096 % 16 + 224 < 256 by omega),
      toNat_ofNat_of_lt (show c.toNat / 64 % 64 + 128 < 256 by omega),
      toNat_ofNat_of_lt (show c.toNat % 64 + 128 < 256 by omega)]
    simp (disch := omega) only [Bool.and_eq_true, decide_eq_true_eq, if_pos, if_neg, if_true]
    rw [value, Char.ofNat_toNat]
    rfl
  · refine ⟨_, _, rfl, ?_⟩
    have second := fitsSecond_four c.toNat (by omega) (by omega)
    have value : (c.toNat / 262144 % 8 + 240) % 8 * 262144 +
        (c.toNat / 4096 % 64 + 128) % 64 * 4096 + (c.toNat / 64 % 64 + 128) % 64 * 64 +
        (c.toNat % 64 + 128) % 64 = c.toNat := by
      omega
    simp only [decodeSequence, isContinuation, List.cons_append, List.nil_append, second,
      toNat_ofNat_of_lt (show c.toNat / 262144 % 8 + 240 < 256 by omega),
      toNat_ofNat_of_lt (show c.toNat / 4096 % 64 + 128 < 256 by omega),
      toNat_ofNat_of_lt (show c.toNat / 64 % 64 + 128 < 256 by omega),
      toNat_ofNat_of_lt (show c.toNat % 64 + 128 < 256 by omega)]
    simp (disch := omega) only [Bool.and_eq_true, decide_eq_true_eq, if_pos, if_neg, if_true]
    rw [value, Char.ofNat_toNat]
    rfl

/-! ### Whole texts -/

theorem decodePieces_flatMap_utf8EncodeChar (cs : List Char) :
    decodePieces (cs.flatMap String.utf8EncodeChar) = cs.map some := by
  induction cs with
  | nil => simp [decodePieces]
  | cons c cs inductionHypothesis =>
    obtain ⟨lead, rest, encoded, decoded⟩ :=
      decodeSequence_utf8EncodeChar c (cs.flatMap String.utf8EncodeChar)
    rw [List.flatMap_cons, encoded, List.cons_append, decodePieces, decoded]
    simp only [List.drop_left, inductionHypothesis, List.map_cons]

/-- Reading the UTF-8 bytes of a text with replacement gives the text back. -/
theorem decodeReplacing_flatMap_utf8EncodeChar (cs : List Char) :
    decodeReplacing (cs.flatMap String.utf8EncodeChar) = String.ofList cs := by
  rw [decodeReplacing, decodePieces_flatMap_utf8EncodeChar, List.map_map]
  simp

/-! ### Zero bytes -/

theorem utf8EncodeChar_null : String.utf8EncodeChar '\x00' = [0] := by
  decide

/-- No byte of the encoding of a character other than `U+0000` is zero. -/
theorem utf8EncodeChar_ne_zero {c : Char} (notNull : c ≠ '\x00') :
    ∀ b ∈ String.utf8EncodeChar c, b ≠ 0 := by
  have positive : 0 < c.toNat := by
    rcases Nat.eq_zero_or_pos c.toNat with zero | positive
    · exact absurd (Char.ext (UInt32.toNat_inj.mp (by simpa using zero))) notNull
    · exact positive
  have valid := char_toNat_valid c
  have nonzero : ∀ n, 0 < n → n < 256 → UInt8.ofNat n ≠ 0 := fun n positive small zero => by
    have toNat := congrArg UInt8.toNat zero
    rw [toNat_ofNat_of_lt small, UInt8.toNat_zero] at toNat
    omega
  intro b member
  unfold String.utf8EncodeChar at member
  simp only [Char.toNat_val] at member
  -- every byte is the value itself, below `0x80`, or a marked byte from `0x80` on
  split_ifs at member <;> simp only [List.mem_cons, List.not_mem_nil, or_false] at member <;>
    rcases member with rfl | rfl | rfl | rfl <;> exact nonzero _ (by omega) (by omega)

/-- Cutting the encoding of a text, padded with zeros, at its first zero byte cuts the text
before its first `U+0000`. -/
theorem takeWhile_flatMap_utf8EncodeChar (cs : List Char) (padding : Nat) :
    (cs.flatMap String.utf8EncodeChar ++ List.replicate padding 0).takeWhile (· != 0) =
      (cs.takeWhile (· != '\x00')).flatMap String.utf8EncodeChar := by
  induction cs with
  | nil =>
    cases padding with
    | zero => rfl
    | succ padding => simp [List.replicate_succ]
  | cons c cs inductionHypothesis =>
    by_cases null : c = '\x00'
    · subst null
      simp [utf8EncodeChar_null]
    · have nonzero := utf8EncodeChar_ne_zero null
      rw [List.flatMap_cons, List.append_assoc, List.takeWhile_append_of_pos
        (fun b member => by simpa using nonzero b member), inductionHypothesis]
      simp [null]

/-! ### Cutting a text to a number of bytes -/

/-- The number of bytes the text takes in UTF-8. -/
theorem length_flatMap_utf8EncodeChar (cs : List Char) :
    (cs.flatMap String.utf8EncodeChar).length = (cs.map Char.utf8Size).sum := by
  simp [List.length_flatMap]

theorem prefixWithinBytes_prefix (limit : Nat) (cs : List Char) :
    prefixWithinBytes limit cs <+: cs := by
  induction cs generalizing limit with
  | nil => exact List.prefix_rfl
  | cons c cs inductionHypothesis =>
    unfold prefixWithinBytes
    split
    · exact List.cons_prefix_cons.mpr ⟨rfl, inductionHypothesis _⟩
    · exact List.nil_prefix

theorem prefixWithinBytes_fits (limit : Nat) (cs : List Char) :
    ((prefixWithinBytes limit cs).map Char.utf8Size).sum ≤ limit := by
  induction cs generalizing limit with
  | nil => simp [prefixWithinBytes]
  | cons c cs inductionHypothesis =>
    unfold prefixWithinBytes
    split
    · have rest := inductionHypothesis (limit - c.utf8Size)
      simp only [List.map_cons, List.sum_cons]
      omega
    · simp

/-- Every prefix of the text that fits in `limit` bytes is a prefix of the cut: the cut is the
longest prefix that fits. -/
theorem prefix_prefixWithinBytes {limit : Nat} {cs ds : List Char} (prefixed : ds <+: cs)
    (fits : (ds.map Char.utf8Size).sum ≤ limit) : ds <+: prefixWithinBytes limit cs := by
  induction cs generalizing limit ds with
  | nil =>
    rw [List.prefix_nil.mp prefixed]
    exact List.nil_prefix
  | cons c cs inductionHypothesis =>
    cases ds with
    | nil => exact List.nil_prefix
    | cons d ds =>
      obtain ⟨rfl, restPrefixed⟩ := List.cons_prefix_cons.mp prefixed
      simp only [List.map_cons, List.sum_cons] at fits
      unfold prefixWithinBytes
      rw [if_pos (by omega)]
      exact List.cons_prefix_cons.mpr ⟨rfl, inductionHypothesis restPrefixed (by omega)⟩

/-- `ds` is the longest prefix of `cs` whose UTF-8 encoding takes at most `limit` bytes: the text
cut to `limit` bytes on a character boundary. -/
def LongestPrefixWithin (limit : Nat) (cs ds : List Char) : Prop :=
  ds <+: cs ∧ (ds.map Char.utf8Size).sum ≤ limit ∧
    ∀ es, es <+: cs → (es.map Char.utf8Size).sum ≤ limit → es <+: ds

theorem longestPrefixWithin_prefixWithinBytes (limit : Nat) (cs : List Char) :
    LongestPrefixWithin limit cs (prefixWithinBytes limit cs) := by
  refine ⟨?_, prefixWithinBytes_fits limit cs,
    fun _ prefixed fits => prefix_prefixWithinBytes prefixed fits⟩
  exact prefixWithinBytes_prefix limit cs

/-! ### Strict reading accepts exactly the encodings of texts -/

theorem isContinuation_bounds {b : UInt8} (continues : isContinuation b = true) :
    0x80 ≤ b.toNat ∧ b.toNat ≤ 0xBF := by
  simpa [isContinuation] using continues

/-- What the range a lead byte allows for the byte after it excludes: overlong forms after `0xE0`
and `0xF0`, surrogates after `0xED`, and code points past `U+10FFFF` after `0xF4`. -/
theorem fitsSecond_bounds {lead : Nat} {b : UInt8} (fits : fitsSecond lead b = true) :
    0x80 ≤ b.toNat ∧ b.toNat ≤ 0xBF ∧ (lead = 0xE0 → 0xA0 ≤ b.toNat) ∧
      (lead = 0xED → b.toNat ≤ 0x9F) ∧ (lead = 0xF0 → 0x90 ≤ b.toNat) ∧
      (lead = 0xF4 → b.toNat ≤ 0x8F) := by
  unfold fitsSecond secondByteRange at fits
  split_ifs at fits <;> simp only [Bool.and_eq_true, decide_eq_true_eq] at fits <;> omega

theorem toNat_ofNat_char {v : Nat} (valid : v < 0xD800 ∨ (0xDFFF < v ∧ v < 0x110000)) :
    (Char.ofNat v).toNat = v := by
  rw [Char.toNat_ofNat, if_pos valid]

theorem uint8_eq_ofNat {b : UInt8} {n : Nat} (same : b.toNat = n) : UInt8.ofNat n = b := by
  rw [← same, UInt8.ofNat_toNat]

/-- A well-formed sequence is the encoding of the character it decodes to. -/
theorem utf8EncodeChar_append_of_decodeSequence {lead : UInt8} {rest : List UInt8} {c : Char}
    {n : Nat} (decoded : decodeSequence lead rest = (some c, n)) :
    String.utf8EncodeChar c ++ rest.drop n = lead :: rest := by
  have leadSmall := lead.toNat_lt
  unfold decodeSequence at decoded
  dsimp only at decoded
  unfold String.utf8EncodeChar
  simp only [Char.toNat_val]
  split_ifs at decoded with one two three four
  · -- one byte
    simp only [Prod.mk.injEq, Option.some.injEq] at decoded
    obtain ⟨rfl, rfl⟩ := decoded
    have value := toNat_ofNat_char (Or.inl (show lead.toNat < 0xD800 by omega))
    simp only [value, if_pos (show lead.toNat ≤ 127 by omega), UInt8.ofNat_toNat, List.drop_zero,
      List.singleton_append]
  · -- two bytes
    simp only [Bool.and_eq_true, decide_eq_true_eq] at two
    rcases rest with _ | ⟨b1, tail⟩
    · simp at decoded
    · dsimp only at decoded
      split_ifs at decoded with continues
      · simp only [Prod.mk.injEq, Option.some.injEq] at decoded
        obtain ⟨rfl, rfl⟩ := decoded
        have b1Bounds := isContinuation_bounds continues
        have value := toNat_ofNat_char
          (Or.inl (show lead.toNat % 32 * 64 + b1.toNat % 64 < 0xD800 by omega))
        rw [value, if_neg (by omega), if_pos (by omega)]
        simp only [List.cons_append, List.nil_append, List.drop_one, List.tail_cons,
          List.cons.injEq]
        refine ⟨uint8_eq_ofNat ?_, uint8_eq_ofNat ?_, trivial⟩ <;> omega
      · simp at decoded
  · -- three bytes
    simp only [Bool.and_eq_true, decide_eq_true_eq] at three
    rcases rest with _ | ⟨b1, _ | ⟨b2, tail⟩⟩
    · simp at decoded
    · dsimp only at decoded
      split_ifs at decoded <;> simp at decoded
    · dsimp only at decoded
      split_ifs at decoded with fits continues
      · simp only [Prod.mk.injEq, Option.some.injEq] at decoded
        obtain ⟨rfl, rfl⟩ := decoded
        have b1Bounds := fitsSecond_bounds fits
        have b2Bounds := isContinuation_bounds continues
        have value := toNat_ofNat_char (show lead.toNat % 16 * 4096 + b1.toNat % 64 * 64 +
          b2.toNat % 64 < 0xD800 ∨ (0xDFFF < lead.toNat % 16 * 4096 + b1.toNat % 64 * 64 +
            b2.toNat % 64 ∧
              lead.toNat % 16 * 4096 + b1.toNat % 64 * 64 + b2.toNat % 64 < 0x110000)
          by omega)
        rw [value, if_neg (by omega), if_neg (by omega), if_pos (by omega)]
        simp only [List.cons_append, List.nil_append, List.drop_succ_cons, List.drop_zero,
          List.cons.injEq]
        refine ⟨uint8_eq_ofNat ?_, uint8_eq_ofNat ?_, uint8_eq_ofNat ?_, trivial⟩ <;> omega
      · simp at decoded
      · simp at decoded
  · -- four bytes
    simp only [Bool.and_eq_true, decide_eq_true_eq] at four
    rcases rest with _ | ⟨b1, _ | ⟨b2, _ | ⟨b3, tail⟩⟩⟩
    · simp at decoded
    · dsimp only at decoded
      split_ifs at decoded <;> simp at decoded
    · dsimp only at decoded
      split_ifs at decoded <;> simp at decoded
    · dsimp only at decoded
      split_ifs at decoded with fits continues continues'
      · simp only [Prod.mk.injEq, Option.some.injEq] at decoded
        obtain ⟨rfl, rfl⟩ := decoded
        have b1Bounds := fitsSecond_bounds fits
        have b2Bounds := isContinuation_bounds continues
        have b3Bounds := isContinuation_bounds continues'
        have value := toNat_ofNat_char (show lead.toNat % 8 * 262144 + b1.toNat % 64 * 4096 +
          b2.toNat % 64 * 64 + b3.toNat % 64 < 0xD800 ∨ (0xDFFF < lead.toNat % 8 * 262144 +
            b1.toNat % 64 * 4096 + b2.toNat % 64 * 64 + b3.toNat % 64 ∧ lead.toNat % 8 * 262144 +
            b1.toNat % 64 * 4096 + b2.toNat % 64 * 64 + b3.toNat % 64 < 0x110000)
          by omega)
        rw [value, if_neg (by omega), if_neg (by omega), if_neg (by omega)]
        simp only [List.cons_append, List.nil_append, List.drop_succ_cons, List.drop_zero,
          List.cons.injEq]
        refine ⟨uint8_eq_ofNat ?_, uint8_eq_ofNat ?_, uint8_eq_ofNat ?_, uint8_eq_ofNat ?_,
          trivial⟩ <;> omega
      all_goals simp at decoded
  · simp at decoded

/-- Pieces that are all characters come from the encodings of those characters. -/
theorem flatMap_utf8EncodeChar_of_decodePieces {bytes : List UInt8} {cs : List Char}
    (decoded : decodePieces bytes = cs.map some) : cs.flatMap String.utf8EncodeChar = bytes := by
  induction bytes using decodePieces.induct generalizing cs with
  | case1 =>
    rw [decodePieces] at decoded
    rw [List.eq_nil_of_map_eq_nil decoded.symm]
    rfl
  | case2 lead rest step =>
    rename_i inductionHypothesis
    rw [decodePieces] at decoded
    cases cs with
    | nil => cases decoded
    | cons c more =>
      simp only [List.map_cons, List.cons.injEq] at decoded
      obtain ⟨first, later⟩ := decoded
      have sequence : decodeSequence lead rest = (some c, step.2) := by
        rw [← first]
      rw [List.flatMap_cons, inductionHypothesis later,
        utf8EncodeChar_append_of_decodeSequence sequence]

theorem mapM_id_eq_some_iff : ∀ {pieces : List (Option Char)} {cs : List Char},
    pieces.mapM id = some cs ↔ pieces = cs.map some
  | [], cs => by cases cs <;> simp
  | piece :: more, cs => by
    simp only [List.mapM_cons, Option.bind_eq_bind, Option.bind_eq_some_iff, Option.pure_def,
      Option.some.injEq, id, mapM_id_eq_some_iff]
    constructor
    · rintro ⟨c, rfl, cs', rfl, rfl⟩
      rfl
    · intro same
      cases cs with
      | nil => cases same
      | cons c cs' =>
        simp only [List.map_cons, List.cons.injEq] at same
        exact ⟨c, same.1, cs', same.2, rfl⟩

/-- Strict reading accepts exactly the UTF-8 encodings of texts, and gives the text back. -/
theorem decodeStrict?_eq_some_iff {bytes : List UInt8} {text : String} :
    decodeStrict? bytes = some text ↔ utf8Bytes text = bytes := by
  constructor
  · intro decoded
    simp only [decodeStrict?, Option.map_eq_some_iff, mapM_id_eq_some_iff] at decoded
    obtain ⟨cs, pieces, rfl⟩ := decoded
    rw [utf8Bytes_ofList, flatMap_utf8EncodeChar_of_decodePieces pieces]
  · rintro rfl
    have encoded := utf8Bytes_ofList text.toList
    rw [String.ofList_toList] at encoded
    rw [decodeStrict?, encoded, decodePieces_flatMap_utf8EncodeChar, (mapM_id_eq_some_iff).mpr rfl,
      Option.map_some, String.ofList_toList]


end LocaleCharmap.Text
