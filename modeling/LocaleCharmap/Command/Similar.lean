/-!
# Similar words

When a command line holds an unknown option or value, the closest known one is suggested if it is
similar enough. Similarity is the Jaro measure: characters of the two words match when they are
equal and no further apart than half the longer word's length less one, and the measure averages
the share of matched characters in each word and the share of matches that are not transposed.
-/

namespace LocaleCharmap.Command

/-- For each character of `a` in turn, the first unmatched equal character of `b` within reach
is matched. Gives which positions of `a` and of `b` matched. -/
def matchPositions (a b : List Char) (reach : Nat) : Array Bool × Array Bool :=
  let bs := b.toArray
  a.zipIdx.foldl (fun (aFlags, bFlags) (c, i) =>
    let lo := i - reach
    let hi := min bs.size (i + reach + 1)
    match (List.range (hi - lo)).find? fun k =>
        bs.getD (lo + k) ' ' == c && !bFlags.getD (lo + k) true with
    | some k => (aFlags.setIfInBounds i true, bFlags.setIfInBounds (lo + k) true)
    | none => (aFlags, bFlags))
    (Array.replicate a.length false, Array.replicate bs.size false)

/-- The Jaro similarity of two words, between 0 and 1. -/
def jaro (a b : List Char) : Float :=
  if a.isEmpty && b.isEmpty then 1.0
  else if a.isEmpty || b.isEmpty then 0.0
  else
    let reach := max a.length b.length / 2 - 1
    let (aFlags, bFlags) := matchPositions a b reach
    let fromA := (a.zipIdx.filter fun (_, i) => aFlags.getD i false).map (·.1)
    let fromB := (b.zipIdx.filter fun (_, i) => bFlags.getD i false).map (·.1)
    let matched := fromA.length
    if matched = 0 then 0.0
    else
      let transposed := ((fromA.zip fromB).filter fun (x, y) => x != y).length / 2
      let m := matched.toFloat
      (m / a.length.toFloat + m / b.length.toFloat + (matched - transposed).toFloat / m) / 3.0

/-- The most similar candidate whose similarity is above 0.7; of equally similar ones, the last. -/
def mostSimilar (word : String) (candidates : List String) : Option String :=
  (candidates.foldl (fun best c =>
    let score := jaro word.toList c.toList
    if 0.7 < score then
      match best with
      | some (_, s) => if s ≤ score then some (c, score) else best
      | none => some (c, score)
    else best) none).map (·.1)

end LocaleCharmap.Command
