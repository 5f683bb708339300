import DoorToDoor.Number.Numeral

/-!
# Quoted texts of TOML

A basic text stands between double quotes and has escapes; a literal text stands between single
quotes and has none. Both also come between three quotes each, and may then run over several lines.
Each reader is given the characters behind the opening quotes and answers with the text and with the
characters behind the closing quotes.
-/

namespace DoorToDoor.Toml

/-- Whether a character may stand in a comment or, quotes and backslashes apart, in a quoted
text. -/
def isPrintable (c : Char) : Bool := c == '\t' || (' ' ≤ c && c != '\x7f')

/-- The character of a code point given in hexadecimal, unless the code point is none of a
character. -/
def ofCodePoint? (digits : List Char) : Option Char := do
  let values ← digits.mapM (Numeral.digitValue? 16)
  let n := values.foldl (fun n d ↦ n * 16 + d) 0
  if n.isValidChar then some (Char.ofNat n) else none

/-- The character of an escape that is a single letter. -/
def shortEscape? : Char → Option Char
  | 'b' => some '\x08'
  | 't' => some '\t'
  | 'n' => some '\n'
  | 'f' => some '\x0c'
  | 'r' => some '\r'
  | 'e' => some '\x1b'
  | '"' => some '"'
  | '\\' => some '\\'
  | _ => none

/-- How many hexadecimal digits follow the letter of an escape. -/
def escapeDigits? : Char → Option Nat
  | 'x' => some 2
  | 'u' => some 4
  | 'U' => some 8
  | _ => none

/-- Reads an escape behind its backslash. -/
def escape? (cs : List Char) : Option (Char × List Char) :=
  match cs with
  | [] => none
  | c :: rest =>
    match shortEscape? c, escapeDigits? c with
    | some e, _ => some (e, rest)
    | none, some count =>
      if rest.length < count then none
      else (ofCodePoint? (rest.take count)).map (·, rest.drop count)
    | none, none => none

/-- A line end in front of other characters. -/
def lineEnd? : List Char → Option (List Char)
  | '\n' :: rest => some rest
  | '\r' :: '\n' :: rest => some rest
  | _ => none

/-- Whether a character is a blank within a line. -/
def isSpace (c : Char) : Bool := c == ' ' || c == '\t'

/-- Skips blanks within a line. -/
def skipSpaces (cs : List Char) : List Char := cs.dropWhile isSpace

/-- Skips blanks and line ends; the first argument bounds their number. -/
def skipLines : Nat → List Char → List Char
  | 0, cs => cs
  | fuel + 1, cs =>
    let rest := skipSpaces cs
    match lineEnd? rest with
    | some more => skipLines fuel more
    | none => rest

/-- Reads a basic text. -/
def basic? : Nat → List Char → List Char → Option (List Char × List Char)
  | 0, _, _ => none
  | fuel + 1, read, cs =>
    match cs with
    | [] => none
    | '"' :: rest => some (read.reverse, rest)
    | '\\' :: rest => do
      let (c, rest) ← escape? rest
      basic? fuel (c :: read) rest
    | c :: rest => if isPrintable c then basic? fuel (c :: read) rest else none

/-- Reads a literal text. -/
def literal? : List Char → List Char → Option (List Char × List Char)
  | _, [] => none
  | read, '\'' :: rest => some (read.reverse, rest)
  | read, c :: rest => if isPrintable c then literal? (c :: read) rest else none

/-- The characters in front of three quotes that close a text, given how many quotes there are: up
to two more of them belong to the text. -/
def closing? (quote : Char) (read : List Char) (count : Nat) : Option (List Char) :=
  if count ≤ 5 then some ((List.replicate (count - 3) quote ++ read).reverse) else none

/-- Reads a text between three quotes each; only a basic one has escapes. A backslash at the end of
a line joins the line to the next character that is no blank. -/
def lines? (quote : Char) (escapes : Bool) : Nat → List Char → List Char →
    Option (List Char × List Char)
  | 0, _, _ => none
  | fuel + 1, read, cs =>
    match cs with
    | [] => none
    | c :: rest =>
      if c = quote then
        let quotes := cs.takeWhile (· == quote)
        let rest := cs.dropWhile (· == quote)
        if quotes.length < 3 then lines? quote escapes fuel (quotes ++ read) rest
        else (closing? quote read quotes.length).map (·, rest)
      else if c = '\\' ∧ escapes then
        match lineEnd? (skipSpaces rest) with
        | some more => lines? quote escapes fuel read (skipLines more.length more)
        | none => do
          let (e, rest) ← escape? rest
          lines? quote escapes fuel (e :: read) rest
      else
        match lineEnd? cs with
        | some more => lines? quote escapes fuel ('\n' :: read) more
        | none => if isPrintable c then lines? quote escapes fuel (c :: read) rest else none

/-- Skips the line end right behind the three opening quotes. -/
def openLines (cs : List Char) : List Char := (lineEnd? cs).getD cs

/-- Reads a text in quotes of any kind, the opening ones included. -/
def quoted? (cs : List Char) : Option (List Char × List Char) :=
  match cs with
  | '"' :: '"' :: '"' :: rest => lines? '"' true (rest.length + 1) [] (openLines rest)
  | '"' :: rest => basic? (rest.length + 1) [] rest
  | '\'' :: '\'' :: '\'' :: rest => lines? '\'' false (rest.length + 1) [] (openLines rest)
  | '\'' :: rest => literal? [] rest
  | _ => none

end DoorToDoor.Toml
