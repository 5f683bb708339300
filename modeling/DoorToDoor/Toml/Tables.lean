import DoorToDoor.Document.Value

/-!
# Tables of TOML

A text fills a tree of tables, one header or assignment after the other. A table remembers how it
came to be, because this decides what may be added to it later: no table is opened twice, and what
stands between braces or brackets is closed.
-/

namespace DoorToDoor.Toml

open Document (Value)

/-- How a table came to be. -/
inductive Origin
  /-- By a header of its own, or as the table of the whole text. -/
  | header
  /-- By the header of a table inside it. -/
  | passed
  /-- By a dotted key. -/
  | dotted
  deriving DecidableEq, Repr

/-- A tree of tables that can still grow. -/
inductive Tree
  /-- A closed value. -/
  | leaf (value : Value)
  | table (origin : Origin) (entries : List (String × Tree))
  /-- An array of tables, of which the last one is open, with the latest table first. -/
  | tables (latest : List (List (String × Tree)))

/-- The entries of a table. -/
abbrev Entries := List (String × Tree)

instance : Inhabited Tree := ⟨.leaf .null⟩

namespace Entries

/-- The entry of a key. -/
def entry? (es : Entries) (key : String) : Option Tree := es.lookup key

/-- Replaces the entry of a key, or adds it at the end. -/
def put (es : Entries) (key : String) (tree : Tree) : Entries :=
  if es.any (·.1 == key) then es.map fun e ↦ if e.1 == key then (key, tree) else e
  else es ++ [(key, tree)]

/-- Changes the table that a path of headers leads to. Tables that are not there are opened on the
way as passed; an array of tables stands for its last one. -/
def descend (change : Entries → Option Entries) : List String → Entries → Option Entries
  | [], es => change es
  | key :: path, es =>
    match es.entry? key with
    | none => (descend change path []).map fun inner ↦ es.put key (.table .passed inner)
    | some (.table origin inner) =>
      (descend change path inner).map fun inner ↦ es.put key (.table origin inner)
    | some (.tables (last :: older)) =>
      (descend change path last).map fun inner ↦ es.put key (.tables (inner :: older))
    | some _ => none

/-- Opens the table of a header. It may have been passed before, but not opened in any way. -/
def openTable (key : String) (es : Entries) : Option Entries :=
  match es.entry? key with
  | none => some (es.put key (.table .header []))
  | some (.table .passed inner) => some (es.put key (.table .header inner))
  | some _ => none

/-- Opens the next table of an array of tables. -/
def openNext (key : String) (es : Entries) : Option Entries :=
  match es.entry? key with
  | none => some (es.put key (.tables [[]]))
  | some (.tables latest) => some (es.put key (.tables ([] :: latest)))
  | some _ => none

/-- Assigns a value to a key that is not there yet. -/
def assign (key : String) (value : Value) (es : Entries) : Option Entries :=
  if es.any (·.1 == key) then none else some (es ++ [(key, .leaf value)])

/-- Whether a dotted key may go through a table into another table, or into it to stay. -/
def admits (origin : Origin) (through : Bool) : Bool :=
  match origin with
  | .header => false
  | .passed => through
  | .dotted => true

/-- Assigns a value to a dotted key. Its tables are opened on the way; a table opened by a header is
left alone. -/
def assignDotted (value : Value) (key : String) : List String → Entries → Option Entries
  | [], es => assign key value es
  | first :: path, es =>
    match es.entry? first with
    | none =>
      (assignDotted value key path []).map fun inner ↦ es.put first (.table .dotted inner)
    | some (.table origin inner) =>
      if admits origin (!path.isEmpty) then
        (assignDotted value key path inner).map fun inner ↦ es.put first (.table origin inner)
      else none
    | some (.tables (last :: older)) =>
      if path.isEmpty then none
      else
        (assignDotted value key path last).map fun inner ↦
          es.put first (.tables (inner :: older))
    | some _ => none

end Entries

mutual

/-- The value of a tree. -/
def Tree.toValue : Tree → Value
  | .leaf value => value
  | .table _ entries => .table (valuesOf entries)
  | .tables latest => .array (arrayOf latest).reverse

/-- The values of the entries of a table. -/
def valuesOf : Entries → List (String × Value)
  | [] => []
  | (key, tree) :: rest => (key, tree.toValue) :: valuesOf rest

/-- The values of tables. -/
def arrayOf : List Entries → List Value
  | [] => []
  | entries :: rest => .table (valuesOf entries) :: arrayOf rest

end

end DoorToDoor.Toml
