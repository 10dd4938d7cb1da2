import Std.Data.HashMap
/-!
# Charmaps

A charmap describes a coded character set: an optional name, the least and greatest number of
bytes a character takes, the escape and comment characters of its source, aliases, a default
display width, and its characters in the order they were defined. Each character has a symbolic
name, its bytes, the Unicode scalar value its name spells if any, an optional comment and an
optional display width.

Names are unique: inserting a name that is already defined changes nothing. A map from names to
positions answers lookups; the list of entries is what the charmap means.
-/

namespace LocaleCharmap

/-- One character of a charmap. -/
structure Entry where
  name : String
  bytes : List UInt8
  scalar : Option Nat
  comment : Option String
  width : Option Nat
  deriving DecidableEq, Repr, Inhabited

/-- A coded character set read from a charmap. -/
structure Charmap where
  codeSetName : Option String
  mbCurMin : Nat
  mbCurMax : Nat
  escapeChar : Char
  commentChar : Char
  aliases : Array String
  widthDefault : Nat
  entries : Array Entry
  positions : Std.HashMap String Nat

namespace Charmap

/-- The charmap with no characters: one byte per character, escape `\`, comment `#`, width 1. -/
def empty : Charmap where
  codeSetName := none
  mbCurMin := 1
  mbCurMax := 1
  escapeChar := '\\'
  commentChar := '#'
  aliases := #[]
  widthDefault := 1
  entries := #[]
  positions := {}

instance : Inhabited Charmap := ⟨empty⟩

/-- The number of characters. -/
def size (m : Charmap) : Nat :=
  m.entries.size

/-- The position of the character with this name, counting from zero in definition order. -/
def position? (m : Charmap) (name : String) : Option Nat :=
  m.positions[name]?

/-- Whether a character has this name. -/
def contains (m : Charmap) (name : String) : Bool :=
  m.positions.contains name

/-- The character with this name. -/
def find? (m : Charmap) (name : String) : Option Entry :=
  (m.position? name).bind fun i => m.entries[i]?

/-- Changes the entries and the name index together, the other fields kept. The two are taken
out of the charmap before the change is made, so an unshared charmap is changed in place. -/
def modifyIndexed (m : Charmap)
    (f : Array Entry → Std.HashMap String Nat → Array Entry × Std.HashMap String Nat) : Charmap :=
  match m with
  | ⟨codeSetName, least, most, escape, comment, aliases, widthDefault, entries, positions⟩ =>
    let (entries, positions) := f entries positions
    ⟨codeSetName, least, most, escape, comment, aliases, widthDefault, entries, positions⟩

/-- Changes the entries, the other fields kept; see modifyIndexed. -/
def modifyEntries (m : Charmap) (f : Array Entry → Array Entry) : Charmap :=
  m.modifyIndexed fun entries positions => (f entries, positions)

/-- Adds a character at the end and indexes its name, which is taken to be free. -/
def push (m : Charmap) (e : Entry) : Charmap :=
  m.modifyIndexed fun entries positions =>
    let position := entries.size
    (entries.push e, positions.insert e.name position)

/-- Adds a character unless its name is taken; a taken name leaves the charmap as it is. -/
def insert (m : Charmap) (e : Entry) : Charmap :=
  if m.contains e.name then m else m.push e

/-- Adds a character unless its name is taken, and tells whether it was added. -/
def insertNew (m : Charmap) (e : Entry) : Bool × Charmap :=
  if m.contains e.name then (false, m) else (true, m.push e)

/-- Adds an alias at the end of the list of aliases. -/
def addAlias (m : Charmap) (name : String) : Charmap :=
  match m with
  | ⟨codeSetName, least, most, escape, comment, aliases, widthDefault, entries, positions⟩ =>
    ⟨codeSetName, least, most, escape, comment, aliases.push name, widthDefault, entries, positions⟩

/-- Gives the entry at a position the display width, if there is one at that position. -/
def widenAt (width : Nat) (entries : Array Entry) (i : Nat) : Array Entry :=
  entries.modify i fun e => { e with width := some width }

/-- Sets the display width of the character with this name, if there is one. -/
def setWidth (m : Charmap) (name : String) (width : Nat) : Charmap :=
  match m.position? name with
  | some i => m.modifyEntries fun entries => widenAt width entries i
  | none => m

/-- Sets the display width of the characters at positions `start` up to but not including
`stop`. -/
def setWidthsIn (m : Charmap) (start stop : Nat) (width : Nat) : Charmap :=
  m.modifyEntries fun entries =>
    (List.range (stop - start)).foldl (fun es k => widenAt width es (start + k)) entries

/-- Sets the display width of every character from `first` to `last` in definition order, and
gives how many there are. Gives no count, and changes nothing, when a name is undefined or `last`
stands before `first`; when `last` stands just before `first` the run is empty. -/
def setWidthBetween (m : Charmap) (first last : String) (width : Nat) : Option Nat × Charmap :=
  match m.position? first, m.position? last with
  | some start, some stop =>
    if start ≤ stop + 1 then (some (stop + 1 - start), m.setWidthsIn start (stop + 1) width)
    else (none, m)
  | _, _ => (none, m)

/-- The display width of the character with this name: its own, or the default. -/
def widthOf? (m : Charmap) (name : String) : Option Nat :=
  (m.find? name).map fun e => e.width.getD m.widthDefault

/-- The characters whose bytes are exactly these, in definition order. -/
def withBytes (m : Charmap) (bytes : List UInt8) : List Entry :=
  m.entries.toList.filter fun e => e.bytes == bytes

/-- The names of all characters, in definition order. -/
def names (m : Charmap) : List String :=
  m.entries.toList.map (·.name)

end Charmap

end LocaleCharmap
