/-!
# Records of comma-separated text

A text is a list of records and a record a list of fields. Commas end fields; a carriage return, a
line feed or both end records, and lines without any character are no records. A field may stand
between quote marks: commas and line ends in it stand for themselves, and two quote marks in a row
for one. A byte order mark in front of the text is skipped.
-/

namespace DoorToDoor.Csv

/-- A field, as the bytes between its separators. -/
abbrev Field := List UInt8

/-- The byte that ends a field. -/
def comma : UInt8 := 44

/-- The byte around a field that may hold commas and line ends. -/
def quote : UInt8 := 34

/-- Whether a byte ends a record: it is a carriage return or a line feed. -/
def isLineEnd (b : UInt8) : Bool := b == 13 || b == 10

/-- Where in a record a reader stands. -/
inductive Place
  /-- Before the first character of a record. -/
  | recordStart
  /-- Before the first character of a later field. -/
  | fieldStart
  /-- After characters outside quotes. -/
  | plain
  /-- Between quotes. -/
  | quoted
  /-- After a quote mark that ends the quotes unless a second one follows. -/
  | quoteMark
  deriving DecidableEq, Repr

/-- A reader: the finished records, the finished fields of the current record and the bytes of the
current field, each with the latest first. -/
structure Reader where
  records : List (List Field)
  fields : List Field
  bytes : List UInt8
  place : Place

namespace Reader

/-- A reader before the text. -/
def start : Reader := ⟨[], [], [], .recordStart⟩

/-- Takes a byte into the current field. -/
def take (r : Reader) (b : UInt8) (place : Place) : Reader :=
  { r with bytes := b :: r.bytes, place := place }

/-- Ends the current field. -/
def endField (r : Reader) : Reader :=
  { r with fields := r.bytes.reverse :: r.fields, bytes := [], place := .fieldStart }

/-- Ends the current field and the record. -/
def endRecord (r : Reader) : Reader :=
  ⟨(r.endField.fields.reverse) :: r.records, [], [], .recordStart⟩

/-- Reads a byte that is not between quotes. -/
def stepOutside (r : Reader) (b : UInt8) : Reader :=
  if b == comma then r.endField
  else if isLineEnd b then r.endRecord
  else r.take b .plain

/-- Reads one byte. -/
def step (r : Reader) (b : UInt8) : Reader :=
  match r.place with
  | .recordStart =>
    if isLineEnd b then r
    else if b == quote then { r with place := .quoted }
    else r.stepOutside b
  | .fieldStart => if b == quote then { r with place := .quoted } else r.stepOutside b
  | .plain => r.stepOutside b
  | .quoted => if b == quote then { r with place := .quoteMark } else r.take b .quoted
  | .quoteMark => if b == quote then r.take b .quoted else r.stepOutside b

/-- The records when the text ends here. A record that has begun is ended, with or without a quote
mark that is missing. -/
def finish (r : Reader) : List (List Field) :=
  let r := if r.place = .recordStart then r else r.endRecord
  r.records.reverse

end Reader

/-- Skips a byte order mark. -/
def dropMark : List UInt8 → List UInt8
  | 0xef :: 0xbb :: 0xbf :: rest => rest
  | bytes => bytes

/-- The records of a text. -/
def records (bytes : List UInt8) : List (List Field) :=
  ((dropMark bytes).foldl Reader.step Reader.start).finish

end DoorToDoor.Csv
