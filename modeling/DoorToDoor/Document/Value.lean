/-!
# Document values

Settings and stored data are trees of tables, arrays and plain values. A text format yields such a
tree, and domain types are read from it and written to it.
-/

namespace DoorToDoor.Document

/-- A tree of tables, arrays and plain values. The keys of a table differ from each other. -/
inductive Value
  | null
  | bool (value : Bool)
  | integer (value : Int)
  | float (value : Float)
  /-- The undefined number with a minus sign. It ranks below all numbers, and the one without the
  sign, which is a `float`, above them. -/
  | negativeUndefined
  /-- A number that no document can hold, because of its size or its digits. It does no harm where
  nothing reads it. -/
  | badNumber
  | text (value : String)
  /-- A date, a time, or both. No domain type is read from it, so it is not kept. -/
  | moment
  | array (items : List Value)
  | table (entries : List (String × Value))

instance : Inhabited Value := ⟨.null⟩

mutual

/-- Whether a value can be read to its end: no number in it is bad. -/
def Value.isSound : Value → Bool
  | .badNumber => false
  | .array items => areSound items
  | .table entries => haveSound entries
  | _ => true

/-- Whether values are sound. -/
def areSound : List Value → Bool
  | [] => true
  | item :: rest => item.isSound && areSound rest

/-- Whether the values of entries are sound. -/
def haveSound : List (String × Value) → Bool
  | [] => true
  | (_, value) :: rest => value.isSound && haveSound rest

end

end DoorToDoor.Document
