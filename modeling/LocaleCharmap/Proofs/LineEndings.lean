import Mathlib
import LocaleCharmap.Charmap.Parse
import LocaleCharmap.Proofs.Utf8
/-!
# Line endings

A charmap can be read from a text, from a stream of bytes, or from a file. The file is read line by
line: each line loses the line feed that ends it and one carriage return before that, and the
lines are joined again with a line feed after each. The scanner therefore sees other physical lines
than it sees in the text itself: a line may have had a carriage return dropped twice, and a last
line without a line feed gains one.

The scanner cannot tell: it looks at a physical line only through the line with its trailing
blanks trimmed, and a carriage return is blank. Scanners whose lines agree once trimmed at the end
(`Scanner.Alike`) give the same logical lines, so a reading goes the same way over both, and the
three ways of reading give the same charmap, the same reports, and the same faults at the same
lines.
-/

namespace LocaleCharmap

open LocaleCharmap.Text LocaleCharmap.Source

/-! ### Trailing blanks -/

namespace Text

theorem isBlank_carriageReturn : isBlank '\r' = true := by decide

/-- Blanks at the end are what `trimEnd` removes. -/
theorem trimEnd_append_blank (cs : List Char) {blanks : List Char}
    (blank : ∀ c ∈ blanks, isBlank c = true) : trimEnd (cs ++ blanks) = trimEnd cs := by
  have dropped : blanks.reverse.dropWhile isBlank = [] :=
    List.dropWhile_eq_nil_iff.mpr fun c member => blank c (List.mem_reverse.mp member)
  rw [trimEnd, trimEnd, List.reverse_append, List.dropWhile_append, dropped]
  rfl

/-- A line is its trimmed form followed by blanks. -/
theorem eq_trimEnd_append (cs : List Char) :
    ∃ blanks, (∀ c ∈ blanks, isBlank c = true) ∧ cs = trimEnd cs ++ blanks := by
  refine ⟨(cs.reverse.takeWhile isBlank).reverse, fun c member => ?_, ?_⟩
  · exact List.mem_takeWhile_imp (List.mem_reverse.mp member)
  · calc cs = cs.reverse.reverse := (List.reverse_reverse cs).symm
      _ = (cs.reverse.takeWhile isBlank ++ cs.reverse.dropWhile isBlank).reverse := by
        rw [@List.takeWhile_append_dropWhile _ isBlank cs.reverse]
      _ = trimEnd cs ++ (cs.reverse.takeWhile isBlank).reverse := by
        rw [List.reverse_append]
        rfl

/-- Trimming both ends ignores blanks at the end. -/
theorem trim_append_blank (cs : List Char) {blanks : List Char}
    (blank : ∀ c ∈ blanks, isBlank c = true) : trim (cs ++ blanks) = trim cs := by
  rw [trim, trim, trimStart, trimStart, List.dropWhile_append]
  split
  · -- nothing but blanks is left once the start is trimmed
    rename_i empty
    rw [List.isEmpty_iff] at empty
    rw [empty, List.dropWhile_eq_nil_iff.mpr blank]
  · exact trimEnd_append_blank _ blank

/-- Lines that agree once trimmed at the end agree once trimmed at both ends. -/
theorem trim_eq_of_trimEnd_eq {cs ds : List Char} (same : trimEnd cs = trimEnd ds) :
    trim cs = trim ds := by
  obtain ⟨blanks, blank, split⟩ := eq_trimEnd_append cs
  obtain ⟨blanks', blank', split'⟩ := eq_trimEnd_append ds
  rw [split, split', trim_append_blank _ blank, trim_append_blank _ blank', same]

/-- Lines that agree once trimmed at the end still agree after the same text is put before them. -/
theorem trimEnd_append_eq_of_trimEnd_eq (acc : List Char) {cs ds : List Char}
    (same : trimEnd cs = trimEnd ds) : trimEnd (acc ++ cs) = trimEnd (acc ++ ds) := by
  obtain ⟨blanks, blank, split⟩ := eq_trimEnd_append cs
  obtain ⟨blanks', blank', split'⟩ := eq_trimEnd_append ds
  rw [split, split', ← List.append_assoc, ← List.append_assoc, trimEnd_append_blank _ blank,
    trimEnd_append_blank _ blank', same]

end Text

theorem trimEnd_dropCarriageReturn (cs : List Char) :
    trimEnd (dropCarriageReturn cs) = trimEnd cs := by
  unfold dropCarriageReturn
  split
  · rename_i last
    conv_rhs => rw [← List.dropLast_append_getLast? _ last]
    exact (trimEnd_append_blank _ (by simp [isBlank_carriageReturn])).symm
  · rfl

/-! ### Scanning lines that agree once trimmed -/

namespace Source

/-- Two scanners that have read as many lines, and whose lines left agree once trimmed at the
end. -/
def Scanner.Alike (s t : Scanner) : Prop :=
  s.consumed = t.consumed ∧ s.pending.map trimEnd = t.pending.map trimEnd

theorem continued_congr (escape : Char) {raw raw' : List Char} (same : trimEnd raw = trimEnd raw') :
    continued escape raw = continued escape raw' := by
  simp only [continued, same]

/-- Joining continuation lines that agree once trimmed gives texts that agree once trimmed, takes
as many lines, and leaves lines that agree. -/
theorem joinContinued_congr (escape : Char) :
    ∀ {lines lines' : List (List Char)} (acc : List Char),
      lines.map trimEnd = lines'.map trimEnd →
      trimEnd (joinContinued escape lines acc).1 = trimEnd (joinContinued escape lines' acc).1 ∧
      (joinContinued escape lines acc).2.1.map trimEnd =
        (joinContinued escape lines' acc).2.1.map trimEnd ∧
      (joinContinued escape lines acc).2.2 = (joinContinued escape lines' acc).2.2
  | [], [], _, _ => ⟨rfl, rfl, rfl⟩
  | [], _ :: _, _, same => by simp at same
  | _ :: _, [], _, same => by simp at same
  | next :: more, next' :: more', acc, same => by
    simp only [List.map_cons, List.cons.injEq] at same
    obtain ⟨sameNext, sameMore⟩ := same
    rw [joinContinued, joinContinued, continued_congr escape sameNext]
    split
    · -- a continued line is joined without its trailing blanks, and the join goes on
      obtain ⟨joined, rest, count⟩ := joinContinued_congr escape (acc ++ ‹_›) sameMore
      exact ⟨joined, rest, congrArg (· + 1) count⟩
    · -- the last line is joined as it is, and only the trimmed join is looked at
      exact ⟨trimEnd_append_eq_of_trimEnd_eq acc sameNext, sameMore, rfl⟩

theorem classify_congr (escape comment : Char) {raw raw' : List Char}
    {more more' : List (List Char)} (sameRaw : trimEnd raw = trimEnd raw')
    (sameMore : more.map trimEnd = more'.map trimEnd) :
    (classify escape comment raw more).1 = (classify escape comment raw' more').1 ∧
    (classify escape comment raw more).2.1.map trimEnd =
      (classify escape comment raw' more').2.1.map trimEnd ∧
    (classify escape comment raw more).2.2 = (classify escape comment raw' more').2.2 := by
  unfold classify
  rw [trim_eq_of_trimEnd_eq sameRaw, continued_congr escape sameRaw]
  dsimp only
  -- both lines go through the same tests; only a line that continues reads further lines
  split
  · exact ⟨rfl, sameMore, rfl⟩
  · split
    · exact ⟨rfl, sameMore, rfl⟩
    · split
      · next head _ =>
        split
        · exact ⟨rfl, sameMore, rfl⟩
        · obtain ⟨joined, rest, count⟩ := joinContinued_congr escape head sameMore
          rw [trim_eq_of_trimEnd_eq joined]
          exact ⟨rfl, rest, count⟩
      · exact ⟨rfl, sameMore, rfl⟩

theorem Scanner.Alike.next?_eq_none {s t : Scanner} (alike : s.Alike t) {escape comment : Char}
    (ended : s.next? escape comment = none) : t.next? escape comment = none := by
  unfold Scanner.next? at ended ⊢
  split at ended
  · rename_i none
    have empty := alike.2
    rw [none, List.map_nil, eq_comm, List.map_eq_nil_iff] at empty
    rw [empty]
  · cases ended

theorem Scanner.Alike.next?_eq_some {s t : Scanner} (alike : s.Alike t) {escape comment : Char}
    {line : Line} {s' : Scanner} (found : s.next? escape comment = some (line, s')) :
    ∃ t', t.next? escape comment = some (line, t') ∧ s'.Alike t' := by
  obtain ⟨consumed, same⟩ := alike
  unfold Scanner.next? at found ⊢
  split at found
  · cases found
  · rename_i raw more pending
    rw [pending] at same
    cases pending' : t.pending with
    | nil => simp [pending'] at same
    | cons raw' more' =>
      rw [pending', List.map_cons, List.map_cons, List.cons.injEq] at same
      obtain ⟨group, rest, count⟩ := classify_congr escape comment same.1 same.2
      simp only [Option.some.injEq, Prod.mk.injEq] at found
      obtain ⟨rfl, rfl⟩ := found
      refine ⟨⟨(classify escape comment raw' more').2.1,
        t.consumed + 1 + (classify escape comment raw' more').2.2⟩, ?_, ?_, rest⟩
      · rw [group, consumed]
      · show s.consumed + 1 + _ = t.consumed + 1 + _
        rw [count, consumed]

end Source

/-- A reading goes the same way over scanners whose lines agree once trimmed. -/
theorem Reading.run_alike (opts : Options) (r : Reading) (s : Scanner) :
    ∀ {t : Scanner}, s.Alike t → Reading.run opts r s = Reading.run opts r t := by
  fun_induction Reading.run opts r s with
  | case1 r s ended =>
    intro t alike
    rw [Reading.run]
    split
    · rw [alike.1]
    · rename_i found
      rw [alike.next?_eq_none ended] at found
      cases found
  | case2 r s line rest found inductionHypothesis =>
    intro t alike
    obtain ⟨rest', found', alike'⟩ := alike.next?_eq_some found
    rw [Reading.run]
    split
    · rename_i ended
      rw [found'] at ended
      cases ended
    · rename_i line' rest'' found''
      rw [found', Option.some.injEq, Prod.mk.injEq] at found''
      obtain ⟨rfl, rfl⟩ := found''
      exact congrArg _ (funext fun r' => inductionHypothesis r' alike')

/-! ### Reading a file line by line -/

namespace Source

theorem splitLines_append_of_not_mem {cs : List Char} (noFeed : '\n' ∉ cs)
    (rest current : List Char) :
    splitLines (cs ++ rest) current = splitLines rest (cs.reverse ++ current) := by
  induction cs generalizing current with
  | nil => rfl
  | cons c cs inductionHypothesis =>
    have notFeed : c ≠ '\n' := fun same => noFeed (same ▸ List.mem_cons_self)
    rw [List.cons_append, splitLines, if_neg notFeed,
      inductionHypothesis (fun member => noFeed (List.mem_cons_of_mem c member))]
    simp

/-- Lines without line feeds, each followed by one, split back into the same lines. -/
theorem splitLines_flatMap {lines : List (List Char)} (noFeed : ∀ l ∈ lines, '\n' ∉ l) :
    splitLines (lines.flatMap (· ++ ['\n'])) [] = lines := by
  induction lines with
  | nil => rfl
  | cons l more inductionHypothesis =>
    rw [List.flatMap_cons, List.append_assoc,
      splitLines_append_of_not_mem (noFeed l List.mem_cons_self), List.singleton_append, splitLines,
      if_pos rfl, inductionHypothesis (fun l' member => noFeed l' (List.mem_cons_of_mem l member))]
    simp

/-- The pieces between line feeds hold none. -/
theorem not_mem_splitLines : ∀ (cs current : List Char), '\n' ∉ current →
    ∀ l ∈ splitLines cs current, '\n' ∉ l
  | [], current, noFeed, l, member => by
    unfold splitLines at member
    split at member
    · cases member
    · rw [List.mem_singleton] at member
      rw [member, List.mem_reverse]
      exact noFeed
  | c :: rest, current, noFeed, l, member => by
    unfold splitLines at member
    split at member
    · rcases List.mem_cons.mp member with rfl | later
      · rw [List.mem_reverse]
        exact noFeed
      · exact not_mem_splitLines rest [] (List.not_mem_nil) l later
    · rename_i notFeed
      refine not_mem_splitLines rest (c :: current) (fun member => ?_) l member
      rcases List.mem_cons.mp member with same | old
      · exact notFeed same.symm
      · exact noFeed old

theorem not_mem_dropCarriageReturn {cs : List Char} {c : Char} (absent : c ∉ cs) :
    c ∉ dropCarriageReturn cs := by
  unfold dropCarriageReturn
  split
  · exact fun member => absent (List.mem_of_mem_dropLast member)
  · exact absent

/-- The file's lines, trimmed at the end, are the text's. -/
theorem Scanner.start_relinedText_alike (text : String) :
    (Scanner.start (relinedText text)).Alike (Scanner.start text) := by
  refine ⟨rfl, ?_⟩
  simp only [Scanner.start, physicalLines, relinedText, String.toList_ofList]
  -- the joined lines split back into the lines the file was read as
  rw [splitLines_flatMap]
  · refine List.ext_getElem (by simp) fun i inside _ => ?_
    simp only [List.getElem_map, List.getElem_mapIdx, trimEnd_dropCarriageReturn]
    split <;> simp only [trimEnd_dropCarriageReturn]
  · intro l member
    obtain ⟨i, inside, rfl⟩ := List.getElem_of_mem member
    have piece := not_mem_splitLines text.toList [] List.not_mem_nil _ (List.getElem_mem
      (by simpa using inside))
    rw [List.getElem_mapIdx]
    split
    · exact piece
    · exact not_mem_dropCarriageReturn piece

end Source

/-- Reading the lines a file is read as gives what reading the text gives. -/
theorem Charmap.parse_relinedText (text : String) (opts : Options) :
    Charmap.parse (relinedText text) opts = Charmap.parse text opts :=
  Reading.run_alike opts _ _ (Scanner.start_relinedText_alike text)

theorem Charmap.parseFile_eq_parseBytes (bytes : List UInt8) (opts : Options) :
    Charmap.parseFile bytes opts = Charmap.parseBytes bytes opts := by
  unfold Charmap.parseFile Charmap.parseBytes
  split
  · exact Charmap.parse_relinedText _ opts
  · rfl

/-- The three ways of reading a charmap agree. Bytes that are the UTF-8 encoding of a text read,
from a stream and from a file, exactly as the text reads: the same charmap, or the same fault at
the same line, with the same reports. Any other bytes are refused as unreadable before anything is
reported. -/
theorem Charmap.parseBytes_parseFile_agree (bytes : List UInt8) (opts : Options) :
    (∀ text, utf8Bytes text = bytes →
      (Charmap.parseBytes bytes opts).run = (Charmap.parse text opts).run ∧
      (Charmap.parseFile bytes opts).run = (Charmap.parse text opts).run) ∧
    ((∀ text, utf8Bytes text ≠ bytes) →
      (Charmap.parseBytes bytes opts).run = (.error (.unreadable .notText), #[]) ∧
      (Charmap.parseFile bytes opts).run = (.error (.unreadable .notText), #[])) := by
  rw [Charmap.parseFile_eq_parseBytes]
  refine ⟨fun text encoded => ?_, fun notText => ?_⟩
  · have decoded := decodeStrict?_eq_some_iff.mpr encoded
    simp only [Charmap.parseBytes, decoded, and_self]
  · cases decoded : decodeStrict? bytes with
    | some text => exact absurd (decodeStrict?_eq_some_iff.mp decoded) (notText text)
    | none =>
      simp only [Charmap.parseBytes, decoded]
      exact ⟨rfl, rfl⟩

/-- A file with carriage returns before its line feeds reads as its text does. -/
theorem Charmap.parseBytes_parseFile_agree_crlf :
    utf8Bytes "CHARMAP\r\r\nEND CHARMAP\r\n" = utf8Bytes "CHARMAP\r\r\nEND CHARMAP\r\n" ∧
      (Charmap.parseBytes (utf8Bytes "CHARMAP\r\r\nEND CHARMAP\r\n") ⟨true, false⟩).run =
        (Charmap.parse "CHARMAP\r\r\nEND CHARMAP\r\n" ⟨true, false⟩).run ∧
      (Charmap.parseFile (utf8Bytes "CHARMAP\r\r\nEND CHARMAP\r\n") ⟨true, false⟩).run =
        (Charmap.parse "CHARMAP\r\r\nEND CHARMAP\r\n" ⟨true, false⟩).run :=
  ⟨rfl, (Charmap.parseBytes_parseFile_agree _ _).1 _ rfl⟩

end LocaleCharmap
