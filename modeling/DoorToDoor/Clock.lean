import DoorToDoor.Number.Numeral
import DoorToDoor.Text.Blank
import DoorToDoor.Text.Padding
import DoorToDoor.Text.Quoted

/-!
# Times of day

A time is a number of seconds since the midnight on which the simulated day starts; later days go on
counting. `Clock.text` writes a time as hours, minutes and seconds, and `Clock.parse` reads it.
-/

namespace DoorToDoor.Clock

variable {α : Type} [Scalar α]

/-- How many seconds a day has. -/
def secondsPerDay : Nat := 86400

/-- The length of a day. -/
def day : α := Scalar.ofNat secondsPerDay

/-- The seconds of a time given in hours, minutes and seconds. -/
def seconds (hours minutes seconds : Nat) : Nat := hours * 3600 + minutes * 60 + seconds

/-- A time given in hours, minutes and seconds. -/
def time (hours minutes seconds : Nat) : α := Scalar.ofNat (Clock.seconds hours minutes seconds)

/-- Writes a whole number of seconds as hours, minutes and seconds of two digits each. The hours
take more digits when they need them. -/
def textOfSeconds (total : Nat) : String :=
  Text.twoDigits (total / 3600) ++ ":" ++ Text.twoDigits (total % 3600 / 60) ++ ":" ++
    Text.twoDigits (total % 60)

/-- Writes a time. Fractions of a second are dropped, and a negative time is written as midnight. -/
def text (t : α) : String := textOfSeconds (Scalar.wholePart t)

/-- The fields of a written time. -/
inductive Field
  | hours
  | minutes
  | seconds
  deriving DecidableEq, Repr

/-- The word for a field. -/
def Field.name : Field → String
  | .hours => "hours"
  | .minutes => "minutes"
  | .seconds => "seconds"

/-- What is wrong with a written time. -/
inductive Fault
  /-- A field is no natural number below the bound. -/
  | bad (field : Field) (reason : Numeral.NatError)
  /-- The text ends before a field that has to be there. -/
  | missing (field : Field)
  /-- The minutes or the seconds are not below sixty. -/
  | outOfRange
  deriving DecidableEq, Repr

/-- A text that is no time. -/
structure ParseError where
  text : String
  fault : Fault
  deriving DecidableEq, Repr

/-- The wording of a `ParseError`. -/
def ParseError.message (e : ParseError) : String :=
  "parse error: " ++
    match e.fault with
    | .bad field reason =>
      "bad " ++ field.name ++ " in time " ++ Text.quote e.text ++ ": " ++ reason.message
    | .missing field => "missing " ++ field.name ++ " in time " ++ Text.quote e.text
    | .outOfRange => "time " ++ Text.quote e.text ++ " out of range"

/-- Cuts a text at each occurrence of a character. -/
def cut (separator : Char) : List Char → List (List Char)
  | [] => [[]]
  | c :: rest =>
    if c = separator then [] :: cut separator rest
    else
      match cut separator rest with
      | [] => [[c]]
      | part :: parts => (c :: part) :: parts

/-- Reads a field that is there. -/
def readField (field : Field) (cs : List Char) : Except Fault Nat :=
  match Numeral.readNat 10 Numeral.wordBound cs with
  | .ok n => .ok n
  | .error reason => .error (.bad field reason)

/-- Reads the parts of a written time, of which the third may be absent. The parts are judged from
left to right, and parts after the third are not looked at. -/
def secondsOfParts (parts : List (List Char)) : Except Fault Nat := do
  let required (field : Field) (part? : Option (List Char)) : Except Fault Nat :=
    match part? with
    | some part => readField field part
    | none => .error (.missing field)
  let h ← required .hours parts[0]?
  let m ← required .minutes parts[1]?
  let s ← match parts[2]? with
    | some part => readField .seconds part
    | none => .ok 0
  if 60 ≤ m ∨ 60 ≤ s then .error .outOfRange else .ok (seconds h m s)

/-- Reads hours and minutes, with or without seconds, between colons. Blanks around the text do not
count. -/
def parseSeconds (text : String) : Except ParseError Nat :=
  match secondsOfParts (cut ':' (Text.trimmed text.toList)) with
  | .ok n => .ok n
  | .error fault => .error ⟨text, fault⟩

/-- Reads a time. -/
def parse (text : String) : Except ParseError α := (parseSeconds text).map Scalar.ofNat

end DoorToDoor.Clock
