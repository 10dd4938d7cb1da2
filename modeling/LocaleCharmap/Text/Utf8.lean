/-!
# UTF-8

Bytes that should hold UTF-8 text are read in one of two ways: strictly, where any malformed
sequence refuses the whole input, or with replacement, where each maximal malformed part of a
sequence becomes one `U+FFFD`. A sequence is well formed when its lead byte announces its length
and each following byte lies in the range that the lead byte allows, which excludes overlong
forms, surrogates and code points past `U+10FFFF`.
-/

namespace LocaleCharmap.Text

/-- A byte that continues a sequence: `0x80` to `0xBF`. -/
def isContinuation (b : UInt8) : Bool :=
  0x80 ≤ b.toNat && b.toNat ≤ 0xBF

/-- The range allowed for the byte after a lead byte. -/
def secondByteRange (lead : Nat) : Nat × Nat :=
  if lead = 0xE0 then (0xA0, 0xBF)
  else if lead = 0xED then (0x80, 0x9F)
  else if lead = 0xF0 then (0x90, 0xBF)
  else if lead = 0xF4 then (0x80, 0x8F)
  else (0x80, 0xBF)

/-- Whether `b` may follow the lead byte `lead`. -/
def fitsSecond (lead : Nat) (b : UInt8) : Bool :=
  let r := secondByteRange lead
  r.1 ≤ b.toNat && b.toNat ≤ r.2

/-- Decodes the sequence that starts with `lead`: the character, or `none` for a malformed part,
together with how many of the following bytes it takes. -/
def decodeSequence (lead : UInt8) (rest : List UInt8) : Option Char × Nat :=
  let l := lead.toNat
  if l < 0x80 then (some (Char.ofNat l), 0)
  else if 0xC2 ≤ l && l ≤ 0xDF then
    match rest with
    | b1 :: _ =>
      if isContinuation b1 then (some (Char.ofNat ((l % 32) * 64 + b1.toNat % 64)), 1)
      else (none, 0)
    | [] => (none, 0)
  else if 0xE0 ≤ l && l ≤ 0xEF then
    match rest with
    | b1 :: r1 =>
      if fitsSecond l b1 then
        match r1 with
        | b2 :: _ =>
          if isContinuation b2 then
            (some (Char.ofNat ((l % 16) * 4096 + (b1.toNat % 64) * 64 + b2.toNat % 64)), 2)
          else (none, 1)
        | [] => (none, 1)
      else (none, 0)
    | [] => (none, 0)
  else if 0xF0 ≤ l && l ≤ 0xF4 then
    match rest with
    | b1 :: r1 =>
      if fitsSecond l b1 then
        match r1 with
        | b2 :: r2 =>
          if isContinuation b2 then
            match r2 with
            | b3 :: _ =>
              if isContinuation b3 then
                (some (Char.ofNat ((l % 8) * 262144 + (b1.toNat % 64) * 4096 +
                  (b2.toNat % 64) * 64 + b3.toNat % 64)), 3)
              else (none, 2)
            | [] => (none, 2)
          else (none, 1)
        | [] => (none, 1)
      else (none, 0)
    | [] => (none, 0)
  else (none, 0)

/-- The pieces of the input: a character for each well-formed sequence, `none` for each maximal
malformed part. -/
def decodePieces : List UInt8 → List (Option Char)
  | [] => []
  | lead :: rest =>
    let step := decodeSequence lead rest
    step.1 :: decodePieces (rest.drop step.2)
termination_by bytes => bytes.length
decreasing_by simp only [List.length_drop, List.length_cons]; omega

/-- Reads the bytes with every malformed part replaced by `U+FFFD`. -/
def decodeReplacing (bytes : List UInt8) : String :=
  String.ofList ((decodePieces bytes).map fun piece => piece.getD '�')

/-- Reads well-formed UTF-8, refusing any malformed part. -/
def decodeStrict? (bytes : List UInt8) : Option String :=
  ((decodePieces bytes).mapM id).map String.ofList

/-- The UTF-8 bytes of the text. -/
def utf8Bytes (s : String) : List UInt8 :=
  s.toUTF8.toList

/-- The longest prefix whose UTF-8 form takes at most `limit` bytes. -/
def prefixWithinBytes (limit : Nat) : List Char → List Char
  | [] => []
  | c :: cs => if c.utf8Size ≤ limit then c :: prefixWithinBytes (limit - c.utf8Size) cs else []

end LocaleCharmap.Text
