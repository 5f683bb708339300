import DoorToDoor.Toml.Quoted
import DoorToDoor.Toml.Scalar
import DoorToDoor.Toml.Tables

/-!
# Reading TOML

A text is a list of lines: headers of tables, assignments, comments and blank lines. Arrays and
tables between brackets may run over several lines and end with a comma. Brackets stand only so deep
inside each other, and keys have only so many parts. Readers answer with what they have read and
with the characters behind it; each one is given more steps than it has characters.
-/

namespace DoorToDoor.Toml

open Document (Value)

/-- How deep brackets may stand inside each other, and how many parts a key may have. -/
def depthLimit : Nat := 80

/-- Whether a character may stand in a key without quotes. -/
def isBare (c : Char) : Bool := c.isAlphanum || c == '_' || c == '-'

/-- Skips a comment up to the end of its line. A control character in it is refused. -/
def skipComment? (cs : List Char) : Option (List Char) :=
  match cs with
  | '#' :: rest =>
    let rest := rest.dropWhile isPrintable
    match rest with
    | [] => some rest
    | _ => (lineEnd? rest).map fun _ ↦ rest
  | _ => some cs

/-- Skips blanks, comments and line ends. -/
def skipBlankLines? : Nat → List Char → Option (List Char)
  | 0, cs => some cs
  | fuel + 1, cs => do
    let rest ← skipComment? (skipSpaces cs)
    match lineEnd? rest with
    | some more => skipBlankLines? fuel more
    | none => some rest

/-- Ends a line: blanks, perhaps a comment, then a line end or the end of the text. -/
def endLine? (cs : List Char) : Option (List Char) := do
  match ← skipComment? (skipSpaces cs) with
  | [] => some []
  | rest => lineEnd? rest

/-- Reads a key without dots. A key in quotes stays on one line. -/
def simpleKey? (cs : List Char) : Option (String × List Char) :=
  match cs with
  | '"' :: rest =>
    (basic? (rest.length + 1) [] rest).map fun (key, rest) ↦ (String.ofList key, rest)
  | '\'' :: rest => (literal? [] rest).map fun (key, rest) ↦ (String.ofList key, rest)
  | _ =>
    let (key, rest) := cs.span isBare
    if key.isEmpty then none else some (String.ofList key, rest)

/-- Reads a key with dots: its parts, the latest first. Blanks around the dots do not count. -/
def dottedKey? : Nat → List String → List Char → Option (List String × List Char)
  | 0, _, _ => none
  | fuel + 1, parts, cs => do
    let (key, rest) ← simpleKey? (skipSpaces cs)
    let rest := skipSpaces rest
    match rest with
    | '.' :: more => dottedKey? fuel (key :: parts) more
    | _ => some (key :: parts, rest)

/-- Reads a key: its last part, the parts before it, and what follows. -/
def key? (cs : List Char) : Option (String × List String × List Char) := do
  let (parts, rest) ← dottedKey? (cs.length + 1) [] cs
  match parts with
  | [] => none
  | last :: before =>
    if parts.length ≤ depthLimit then some (last, before.reverse, rest) else none

/-- Whether a character belongs to a plain value that it stands in or behind. Whether the value may
have it is asked later. -/
def isScalarChar (c : Char) : Bool := !"=,#[]\x7b\x7d \t\r\n".toList.contains c

/-- Reads a plain value. A date and a time may be joined by a space. -/
def plain? (cs : List Char) : Option (Value × List Char) :=
  let (word, rest) := cs.span isScalarChar
  let joined? :=
    match rest with
    | ' ' :: more =>
      let (time, rest) := more.span isScalarChar
      if isDate word && isZonedTime time then some (Value.moment, rest) else none
    | _ => none
  joined?.or ((scalar? word).map (·, rest))

mutual

/-- Reads a value, with room for so many brackets inside each other. -/
def value? : Nat → Nat → List Char → Option (Value × List Char)
  | 0, _, _ => none
  | fuel + 1, room, cs =>
    match cs, room with
    | '[' :: _, 0 | '\x7b' :: _, 0 => none
    | '[' :: rest, room + 1 => items? fuel room [] rest
    | '\x7b' :: rest, room + 1 => fields? fuel room [] rest
    | '"' :: _, _ | '\'' :: _, _ =>
      (quoted? cs).map fun (text, rest) ↦ (.text (String.ofList text), rest)
    | _, _ => plain? cs

/-- Reads the items of an array up to its closing bracket, after the ones read so far. -/
def items? : Nat → Nat → List Value → List Char → Option (Value × List Char)
  | 0, _, _, _ => none
  | fuel + 1, room, read, cs => do
    let cs ← skipBlankLines? cs.length cs
    match cs with
    | ']' :: rest => some (.array read.reverse, rest)
    | _ => do
      let (item, rest) ← value? fuel room cs
      let rest ← skipBlankLines? rest.length rest
      match rest with
      | ',' :: more => items? fuel room (item :: read) more
      | ']' :: more => some (.array (item :: read).reverse, more)
      | _ => none

/-- Reads the assignments between braces, after the ones read so far. An assignment may run over
several lines. -/
def fields? : Nat → Nat → Entries → List Char → Option (Value × List Char)
  | 0, _, _, _ => none
  | fuel + 1, room, read, cs => do
    let cs ← skipBlankLines? cs.length cs
    match cs with
    | '\x7d' :: rest => some (.table (valuesOf read), rest)
    | _ => do
      let (key, path, rest) ← key? cs
      let '=' :: rest ← skipBlankLines? rest.length rest | none
      let (value, rest) ← value? fuel room (← skipBlankLines? rest.length rest)
      let read ← Entries.assignDotted value key path read
      let rest ← skipBlankLines? rest.length rest
      match rest with
      | ',' :: more => fields? fuel room read more
      | '\x7d' :: more => some (.table (valuesOf read), more)
      | _ => none

end

/-- What a line adds to a document. -/
inductive Line
  /-- Opens a table. -/
  | table (path : List String) (key : String)
  /-- Opens the next table of an array. -/
  | next (path : List String) (key : String)
  | assignment (path : List String) (key : String) (value : Value)

/-- A document in the making: its entries and the path of the table that is open. -/
structure Draft where
  entries : Entries
  here : List String

/-- Adds a line to a document. -/
def Draft.add (d : Draft) : Line → Option Draft
  | .table path key =>
    (Entries.descend (Entries.openTable key) path d.entries).map (⟨·, path ++ [key]⟩)
  | .next path key =>
    (Entries.descend (Entries.openNext key) path d.entries).map (⟨·, path ++ [key]⟩)
  | .assignment path key value =>
    (Entries.descend (Entries.assignDotted value key path) d.here d.entries).map (⟨·, d.here⟩)

/-- Reads a line that is not blank. -/
def line? (cs : List Char) : Option (Line × List Char) :=
  match cs with
  | '[' :: '[' :: rest => do
    let (key, path, rest) ← key? rest
    let ']' :: ']' :: rest := rest | none
    some (.next path key, rest)
  | '[' :: rest => do
    let (key, path, rest) ← key? rest
    let ']' :: rest := rest | none
    some (.table path key, rest)
  | _ => do
    let (key, path, rest) ← key? cs
    let '=' :: rest := rest | none
    let rest := skipSpaces rest
    let (value, rest) ← value? (rest.length + 1) depthLimit rest
    some (.assignment path key value, rest)

/-- Reads lines to the end of the text. -/
def lines : Nat → Draft → List Char → Option Draft
  | 0, _, _ => none
  | fuel + 1, d, cs => do
    let cs ← skipBlankLines? cs.length cs
    if cs.isEmpty then some d
    else
      let (line, rest) ← line? cs
      let d ← d.add line
      lines fuel d (← endLine? rest)

/-- Skips a byte order mark. -/
def dropMark : List Char → List Char
  | '\ufeff' :: rest => rest
  | cs => cs

/-- The table that a text stands for, unless the text is not well formed. -/
def read (text : String) : Option Value :=
  let cs := dropMark text.toList
  (lines (cs.length + 1) ⟨[], []⟩ cs).map fun d ↦ .table (valuesOf d.entries)

end DoorToDoor.Toml
