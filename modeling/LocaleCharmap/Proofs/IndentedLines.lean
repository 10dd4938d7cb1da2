import Mathlib
import LocaleCharmap.Text.Layout
/-!
# Writing indented lines

A `LineWriter` keeps a run of spaces and indents each line with a prefix of it, lengthening the
run when a line asks for more spaces than it holds. The run holds spaces only
(`LineWriter.SpacesKept`): a new writer's run is empty, and lengthening it adds spaces. So every
line is indented by exactly the spaces it asks for, whatever indentations came before, and a line
is written as `plainLine` says.

A wrapped list is cut by `chunksOf` into the blocks of `max perLine 1` consecutive items,
`⌈|items| / max perLine 1⌉` of them, which hold every item once and in order. Main statement: any
run of calls on a new writer writes what the calls render to one after another
(`LineCall.render`), which is the plain text with no state kept between calls.
-/

namespace LocaleCharmap.Text

/-- A call on a line writer. -/
inductive LineCall where
  | line (indent : Nat) (text : String)
  | blank
  | wrappedList (indent : Nat) (items : List String) (perLine : Nat)

/-- A line written plainly: `indent` spaces, the text and a line feed. -/
def plainLine (indent : Nat) (text : String) : String :=
  String.ofList (List.replicate indent ' ') ++ text ++ "\n"

/-- The `j`-th block of `size` consecutive items. -/
def block {α : Type} (items : List α) (size j : Nat) : List α :=
  (items.drop (j * size)).take size

/-- What a call writes with no state kept: a plain line, an empty line, or a wrapped list as
`⌈|items| / max perLine 1⌉` lines, none for no items, the `j`-th holding the `j`-th block of
`max perLine 1` items joined by `", "`, every line but the last ending in a comma. -/
def LineCall.render : LineCall → String
  | .line indent text => plainLine indent text
  | .blank => "\n"
  | .wrappedList indent items perLine =>
    let size := max perLine 1
    let count := (items.length + size - 1) / size
    String.join ((List.range count).map fun j =>
      plainLine indent (", ".intercalate (block items size j) ++ if j + 1 < count then "," else ""))

/-! ### Cutting a list into blocks -/

theorem flatten_chunksOf {α : Type} (size : Nat) (xs : List α) :
    (chunksOf size xs).flatten = xs := by
  fun_induction chunksOf size xs with
  | case1 => rfl
  | case2 x rest inductionHypothesis =>
    rw [List.flatten_cons, inductionHypothesis, List.take_append_drop]

/-- A list of at least one item takes one block more than what is left after its first block. -/
theorem blockCount_cons (size rest : Nat) :
    (rest + 1 + size) / (size + 1) = (rest + 1 - (size + 1) + size) / (size + 1) + 1 := by
  by_cases longer : size ≤ rest
  · have split : rest + 1 + size = rest + 1 - (size + 1) + size + (size + 1) := by omega
    rw [split, Nat.add_div_right _ (Nat.succ_pos size)]
  · -- the first block takes every item
    have rest_empty : rest + 1 - (size + 1) + size = size := by omega
    have one : (rest + 1 + size) / (size + 1) = 1 :=
      Nat.div_eq_of_lt_le (by omega) (by omega)
    rw [rest_empty, one, Nat.div_eq_of_lt (Nat.lt_succ_self size)]

/-- `chunksOf` cuts a list into its `⌈|xs| / (size + 1)⌉` blocks of `size + 1` items. -/
theorem chunksOf_eq_blocks {α : Type} (size : Nat) (xs : List α) :
    chunksOf size xs =
      (List.range ((xs.length + size) / (size + 1))).map (block xs (size + 1)) := by
  fun_induction chunksOf size xs with
  | case1 => simp [Nat.div_eq_of_lt]
  | case2 x rest inductionHypothesis =>
    rw [inductionHypothesis, List.length_drop, List.length_cons, blockCount_cons,
      List.range_succ_eq_map, List.map_cons, List.map_map]
    -- the first block is the head piece; every later one is a block of what is left
    congr 1
    · simp [block]
    · refine List.map_congr_left fun j _ => ?_
      simp only [Function.comp_apply, block, List.drop_drop, Nat.succ_mul]
      congr 2
      omega

/-- A writer wrapping at `perLine` items cuts the list into its blocks of `max perLine 1`. -/
theorem chunksOf_perLine {α : Type} (items : List α) (perLine : Nat) :
    chunksOf (max perLine 1 - 1) items =
      (List.range ((items.length + max perLine 1 - 1) / max perLine 1)).map
        (block items (max perLine 1)) := by
  have positive : 1 ≤ max perLine 1 := Nat.le_max_right _ _
  rw [chunksOf_eq_blocks, Nat.sub_add_cancel positive, ← Nat.add_sub_assoc positive]

/-- Every item lies in exactly one block, in order. -/
theorem flatten_blocks {α : Type} (items : List α) (perLine : Nat) :
    ((List.range ((items.length + max perLine 1 - 1) / max perLine 1)).map
      (block items (max perLine 1))).flatten = items := by
  rw [← chunksOf_perLine, flatten_chunksOf]

theorem zipIdx_map_range {α : Type} (f : Nat → α) (n : Nat) :
    ((List.range n).map f).zipIdx = (List.range n).map fun j => (f j, j) := by
  refine List.ext_getElem (by simp) fun i _ _ => ?_
  simp [List.getElem_zipIdx]

namespace LineWriter

/-- Makes one call. -/
def perform (w : LineWriter) : LineCall → LineWriter
  | .line indent text => w.line indent text
  | .blank => w.blank
  | .wrappedList indent items perLine => w.wrappedList indent items perLine

/-- The kept run holds spaces only. -/
def SpacesKept (w : LineWriter) : Prop :=
  w.indentCache.toList = List.replicate w.indentCache.length ' '

theorem new_spacesKept : new.SpacesKept := rfl

/-! ### One call at a time -/

/-- Indenting writes exactly the spaces asked for, and leaves a run of spaces as long as the
longest indentation so far. -/
theorem SpacesKept.writeIndent {w : LineWriter} (kept : w.SpacesKept) (indent : Nat) :
    (w.writeIndent indent).out = w.out ++ String.ofList (List.replicate indent ' ') ∧
      (w.writeIndent indent).indentCache.toList =
        List.replicate (max w.indentCache.length indent) ' ' := by
  obtain ⟨out, cache⟩ := w
  unfold SpacesKept at kept
  unfold LineWriter.writeIndent
  dsimp only at kept ⊢
  by_cases zero : indent = 0
  · subst zero
    simp [kept]
  · rw [if_neg zero]
    -- lengthened or not, the run is `max cache.length indent` spaces
    have grown : (if cache.length < indent then
        cache ++ String.ofList (List.replicate (indent - cache.length) ' ')
        else cache).toList = List.replicate (max cache.length indent) ' ' := by
      split
      · rw [String.toList_append, String.toList_ofList, kept, List.replicate_append_replicate]
        congr 1
        omega
      · rw [kept]
        congr 1
        omega
    refine ⟨?_, grown⟩
    simp only
    rw [grown, List.take_replicate, Nat.min_eq_left (Nat.le_max_right _ _)]

theorem SpacesKept.of_toList {w : LineWriter} {n : Nat}
    (spaces : w.indentCache.toList = List.replicate n ' ') : w.SpacesKept := by
  unfold SpacesKept
  rw [← String.length_toList, spaces, List.length_replicate]

theorem SpacesKept.line_out {w : LineWriter} (kept : w.SpacesKept) (indent : Nat) (s : String) :
    (w.line indent s).out = w.out ++ plainLine indent s ∧ (w.line indent s).SpacesKept := by
  obtain ⟨written, grown⟩ := kept.writeIndent indent
  unfold LineWriter.line
  rcases indented : w.writeIndent indent with ⟨out, cache⟩
  rw [indented] at written grown
  refine ⟨?_, SpacesKept.of_toList grown⟩
  simp only at written ⊢
  rw [written, plainLine, String.push_eq_append]
  simp only [String.append_assoc]
  rfl

theorem SpacesKept.blank_out {w : LineWriter} (kept : w.SpacesKept) :
    w.blank.out = w.out ++ "\n" ∧ w.blank.SpacesKept := by
  obtain ⟨out, cache⟩ := w
  exact ⟨String.push_eq_append _, kept⟩

/-- Lines written one after another, from a run of spaces, write their plain lines. -/
theorem SpacesKept.foldl_line {α : Type} {w : LineWriter} (kept : w.SpacesKept) (indent : Nat)
    (text : α → String) (pieces : List α) :
    (pieces.foldl (fun w a => w.line indent (text a)) w).out =
        w.out ++ String.join (pieces.map fun a => plainLine indent (text a)) ∧
      (pieces.foldl (fun w a => w.line indent (text a)) w).SpacesKept := by
  induction pieces generalizing w with
  | nil => simp [kept]
  | cons a rest inductionHypothesis =>
    obtain ⟨written, kept'⟩ := kept.line_out indent (text a)
    obtain ⟨out, keeps⟩ := inductionHypothesis kept'
    refine ⟨?_, keeps⟩
    rw [List.foldl_cons, out, written, List.map_cons, String.join_cons, String.append_assoc]

/-- A wrapped list writes the lines of its blocks. -/
theorem SpacesKept.wrappedList_out {w : LineWriter} (kept : w.SpacesKept) (indent : Nat)
    (items : List String) (perLine : Nat) :
    (w.wrappedList indent items perLine).out =
        w.out ++ (LineCall.wrappedList indent items perLine).render ∧
      (w.wrappedList indent items perLine).SpacesKept := by
  -- each chunk is a line, numbered by `zipIdx` and compared with the number of chunks
  obtain ⟨written, keeps⟩ := kept.foldl_line indent
    (fun piece : List String × Nat => ", ".intercalate piece.1 ++
      if piece.2 + 1 < (chunksOf (max perLine 1 - 1) items).length then "," else "")
    (chunksOf (max perLine 1 - 1) items).zipIdx
  refine ⟨written.trans ?_, keeps⟩
  rw [chunksOf_perLine, zipIdx_map_range, List.map_map, List.length_map, List.length_range]
  rfl

theorem SpacesKept.perform_out {w : LineWriter} (kept : w.SpacesKept) (call : LineCall) :
    (w.perform call).out = w.out ++ call.render ∧ (w.perform call).SpacesKept := by
  cases call with
  | line indent text => exact kept.line_out indent text
  | blank => exact kept.blank_out
  | wrappedList indent items perLine => exact kept.wrappedList_out indent items perLine

/-- A run of calls from a run of spaces writes what the calls render to, one after another. -/
theorem SpacesKept.foldl_perform_out {w : LineWriter} (kept : w.SpacesKept)
    (calls : List LineCall) :
    (calls.foldl perform w).out = w.out ++ String.join (calls.map LineCall.render) ∧
      (calls.foldl perform w).SpacesKept := by
  induction calls generalizing w with
  | nil => simp [kept]
  | cons call rest inductionHypothesis =>
    obtain ⟨written, kept'⟩ := kept.perform_out call
    obtain ⟨out, keeps⟩ := inductionHypothesis kept'
    refine ⟨?_, keeps⟩
    rw [List.foldl_cons, out, written, List.map_cons, String.join_cons, String.append_assoc]

end LineWriter

/-- Any run of calls on a new writer writes the plain rendering of the calls, one after another:
each line indented by exactly the spaces it asks for, whatever indentations came before, and each
wrapped list as the lines of its blocks; and the blocks of a wrapped list hold every item once, in
order. -/
theorem LineWriter.foldl_perform_eq_render (calls : List LineCall) :
    (calls.foldl LineWriter.perform LineWriter.new).intoString =
        String.join (calls.map LineCall.render) ∧
      ∀ (items : List String) (perLine : Nat),
        ((List.range ((items.length + max perLine 1 - 1) / max perLine 1)).map
          (block items (max perLine 1))).flatten = items := by
  refine ⟨?_, flatten_blocks⟩
  rw [LineWriter.intoString, (LineWriter.new_spacesKept.foldl_perform_out calls).1]
  exact String.empty_append

end LocaleCharmap.Text
