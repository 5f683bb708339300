import DoorToDoor.Document.Value

/-!
# Reading domain types from documents

A record is written as a table, or as an array that holds its fields in order. A field of a table
may be absent where the record says so; unknown keys are passed over, but what stands behind them
has to be sound. Items behind the last field of an array are not looked at. A name from a list may
also be written as the key of a table with nothing behind it. Text formats differ in small things,
which a `Dialect` settles.
-/

namespace DoorToDoor.Document

/-- What text formats settle differently. -/
structure Dialect where
  /-- Whether a record written as an array may have items behind its fields. -/
  spareItems : Bool
  /-- What counts as nothing behind a name written as a key. -/
  isNothing : Value → Bool
  /-- The integers that stand for words of the document and so for numbers with a fraction. -/
  isWord : Int → Bool

/-- Reads a value of a type. -/
abbrev Reader (τ : Type) := Dialect → Value → Option τ

/-- A field of a record: written, left out of a table, or beyond the end of an array. -/
inductive Slot
  | written (value : Value)
  | leftOut
  | beyondEnd

/-- The fields of a record, by name. -/
abbrev Record := List (String × Slot)

/-- The slots of fields that are written in order. -/
def slotsInOrder : List String → List Value → Record
  | [], _ => []
  | name :: names, [] => (name, .beyondEnd) :: slotsInOrder names []
  | name :: names, item :: items => (name, .written item) :: slotsInOrder names items

/-- The slot of a field that is written under its name. -/
def slotByName (entries : List (String × Value)) (name : String) : Slot :=
  match entries.lookup name with
  | some value => .written value
  | none => .leftOut

/-- Whether the values behind unknown keys are sound. -/
def restIsSound (names : List String) (entries : List (String × Value)) : Bool :=
  haveSound (entries.filter fun e ↦ !names.contains e.1)

/-- The fields of a record. A date or a time counts as a table without known keys. -/
def record (d : Dialect) (names : List String) : Value → Option Record
  | .table entries =>
    if restIsSound names entries then
      some (names.map fun name ↦ (name, slotByName entries name))
    else none
  | .array items =>
    if d.spareItems || items.length ≤ names.length then some (slotsInOrder names items) else none
  | .moment => some (names.map (·, .leftOut))
  | _ => none

namespace Record

variable {τ : Type}

/-- The slot of a field. -/
def slot (r : Record) (name : String) : Slot := (r.lookup name).getD .leftOut

/-- A field that has to be written. -/
def required (r : Record) (d : Dialect) (name : String) (read : Reader τ) : Option τ :=
  match r.slot name with
  | .written value => read d value
  | _ => none

/-- A field with a value to fall back on. -/
def optional (r : Record) (d : Dialect) (name : String) (read : Reader τ) (fallback : τ) :
    Option τ :=
  match r.slot name with
  | .written value => read d value
  | _ => some fallback

/-- A field that may be left out of a table or be null. -/
def nullable (r : Record) (d : Dialect) (name : String) (read : Reader τ) : Option (Option τ) :=
  match r.slot name with
  | .written .null => some none
  | .written value => (read d value).map some
  | .leftOut => some none
  | .beyondEnd => none

end Record

/-- Reads a truth value. -/
def readBool : Reader Bool := fun _ v ↦
  match v with
  | .bool b => some b
  | _ => none

/-- Reads a text. -/
def readText : Reader String := fun _ v ↦
  match v with
  | .text s => some s
  | _ => none

/-- Reads a number with a fraction, or an integer as the nearest such number. -/
def readFloat : Reader Float := fun d v ↦
  match v with
  | .float x => some x
  | .negativeUndefined => some (0 / 0)
  | .integer n => if d.isWord n then some (Float.ofInt n) else none
  | _ => none

/-- Reads a natural number below a bound. -/
def readNat (bound : Nat) : Reader Nat := fun _ v ↦
  match v with
  | .integer n => if 0 ≤ n ∧ n < bound then some n.toNat else none
  | _ => none

/-- Reads the items of an array. -/
def readList {τ : Type} (read : Reader τ) : Reader (List τ) := fun d v ↦
  match v with
  | .array items => items.mapM (read d)
  | _ => none

/-- Reads a name: a text, or the only key of a table with nothing behind it. -/
def readName : Reader String := fun d v ↦
  match v with
  | .text s => some s
  | .table [(key, content)] => if d.isNothing content then some key else none
  | _ => none

/-- Reads a choice: the only key of a table, and the table that stands behind it. -/
def readChoice : Value → Option (String × Value)
  | .table [(key, .table entries)] => some (key, .table entries)
  | _ => none

end DoorToDoor.Document
