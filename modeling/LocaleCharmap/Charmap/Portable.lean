import LocaleCharmap.Charmap.Basic
/-!
# The portable character set

Every POSIX locale must define the portable characters: the controls NUL, alert, backspace, tab,
newline, vertical tab, form feed and carriage return, the space, and the printable ASCII
characters. Each has one or more POSIX names. A charmap defines a portable character when some
entry carries its code point as scalar value or when one of its names is defined.
-/

namespace LocaleCharmap

/-- The portable characters: code point and POSIX names, the preferred name first. -/
def portableCharacters : List (Nat × List String) := [
  (0x00, ["NUL"]), (0x07, ["alert", "BEL"]), (0x08, ["backspace", "BS"]), (0x09, ["tab", "HT"]),
  (0x0a, ["newline", "LF"]), (0x0b, ["vertical-tab", "VT"]), (0x0c, ["form-feed", "FF"]),
  (0x0d, ["carriage-return", "CR"]), (0x20, ["space", "SP"]), (0x21, ["exclamation-mark"]),
  (0x22, ["quotation-mark"]), (0x23, ["number-sign"]), (0x24, ["dollar-sign"]),
  (0x25, ["percent-sign"]), (0x26, ["ampersand"]), (0x27, ["apostrophe"]),
  (0x28, ["left-parenthesis"]), (0x29, ["right-parenthesis"]), (0x2a, ["asterisk"]),
  (0x2b, ["plus-sign"]), (0x2c, ["comma"]), (0x2d, ["hyphen", "hyphen-minus"]),
  (0x2e, ["period", "full-stop"]), (0x2f, ["slash", "solidus"]), (0x30, ["zero"]),
  (0x31, ["one"]), (0x32, ["two"]), (0x33, ["three"]), (0x34, ["four"]), (0x35, ["five"]),
  (0x36, ["six"]), (0x37, ["seven"]), (0x38, ["eight"]), (0x39, ["nine"]), (0x3a, ["colon"]),
  (0x3b, ["semicolon"]), (0x3c, ["less-than-sign"]), (0x3d, ["equals-sign"]),
  (0x3e, ["greater-than-sign"]), (0x3f, ["question-mark"]), (0x40, ["commercial-at"]),
  (0x41, ["A"]), (0x42, ["B"]), (0x43, ["C"]), (0x44, ["D"]), (0x45, ["E"]), (0x46, ["F"]),
  (0x47, ["G"]), (0x48, ["H"]), (0x49, ["I"]), (0x4a, ["J"]), (0x4b, ["K"]), (0x4c, ["L"]),
  (0x4d, ["M"]), (0x4e, ["N"]), (0x4f, ["O"]), (0x50, ["P"]), (0x51, ["Q"]), (0x52, ["R"]),
  (0x53, ["S"]), (0x54, ["T"]), (0x55, ["U"]), (0x56, ["V"]), (0x57, ["W"]), (0x58, ["X"]),
  (0x59, ["Y"]), (0x5a, ["Z"]), (0x5b, ["left-square-bracket", "left-bracket"]),
  (0x5c, ["backslash", "reverse-solidus"]), (0x5d, ["right-square-bracket", "right-bracket"]),
  (0x5e, ["circumflex", "circumflex-accent"]), (0x5f, ["underscore", "low-line"]),
  (0x60, ["grave-accent"]), (0x61, ["a"]), (0x62, ["b"]), (0x63, ["c"]), (0x64, ["d"]),
  (0x65, ["e"]), (0x66, ["f"]), (0x67, ["g"]), (0x68, ["h"]), (0x69, ["i"]), (0x6a, ["j"]),
  (0x6b, ["k"]), (0x6c, ["l"]), (0x6d, ["m"]), (0x6e, ["n"]), (0x6f, ["o"]), (0x70, ["p"]),
  (0x71, ["q"]), (0x72, ["r"]), (0x73, ["s"]), (0x74, ["t"]), (0x75, ["u"]), (0x76, ["v"]),
  (0x77, ["w"]), (0x78, ["x"]), (0x79, ["y"]), (0x7a, ["z"]),
  (0x7b, ["left-brace", "left-curly-bracket"]), (0x7c, ["vertical-line"]),
  (0x7d, ["right-brace", "right-curly-bracket"]), (0x7e, ["tilde"])
]

/-- The preferred name of each portable character the charmap leaves undefined, in table
order. -/
def Charmap.missingPortable (m : Charmap) : List String :=
  let scalars := m.entries.toList.filterMap (·.scalar)
  portableCharacters.filterMap fun (point, names) =>
    if scalars.contains point || names.any m.contains then none else names.head?

end LocaleCharmap
