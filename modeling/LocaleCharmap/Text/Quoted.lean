import LocaleCharmap.Text.Escaped
import LocaleCharmap.Text.Digits
/-!
# Quoted text

Messages quote a piece of input between double quotes so that every character can be seen. A
backslash introduces an escape: the null character, tab, carriage return and line feed have
letter escapes, a quote and a backslash are preceded by a backslash, and a character that is
unprintable or that extends a grapheme is written by its code point in hexadecimal between
braces. Every other character stands as it is.
-/

namespace LocaleCharmap.Text

/-- A character written by its code point: backslash, `u`, and lowercase hex between braces. -/
def codePointEscape (c : Char) : List Char :=
  ['\\', 'u', '\x7b'] ++ Nat.toDigits 16 c.toNat ++ ['\x7d']

/-- How one character is written between double quotes. -/
def quotedChar (c : Char) : List Char :=
  if c = '\x00' then ['\\', '0']
  else if c = '\t' then ['\\', 't']
  else if c = '\r' then ['\\', 'r']
  else if c = '\n' then ['\\', 'n']
  else if c = '\\' then ['\\', '\\']
  else if c = '"' then ['\\', '"']
  else if isGraphemeExtend c || !isPrintable c then codePointEscape c
  else [c]

/-- The text between double quotes, each character written as `quotedChar` says. -/
def quoted (s : String) : String :=
  String.ofList ('"' :: s.toList.flatMap quotedChar ++ ['"'])

end LocaleCharmap.Text
