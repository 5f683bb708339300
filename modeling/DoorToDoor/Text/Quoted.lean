import DoorToDoor.Text.Unprintable

/-!
# Quoted text

A message shows a piece of its input between double quotes. Quotes and backslashes are escaped, and
so is each character that has no glyph of its own: a few by a letter, the rest by their code point
in hexadecimal. A single quote stands as it is.
-/

namespace DoorToDoor.Text

/-- The code point of a character between braces, in hexadecimal. -/
def codePoint (c : Char) : String :=
  "\\u\x7b" ++ String.ofList (Nat.toDigits 16 c.toNat) ++ "\x7d"

/-- A character as it stands in quoted text. -/
def escape (c : Char) : String :=
  match c with
  | '\x00' => "\\0"
  | '\t' => "\\t"
  | '\n' => "\\n"
  | '\r' => "\\r"
  | '"' => "\\\""
  | '\\' => "\\\\"
  | c => if isUnprintable c then codePoint c else c.toString

/-- A text between double quotes. -/
def quote (text : String) : String := "\"" ++ String.join (text.toList.map escape) ++ "\""

end DoorToDoor.Text
