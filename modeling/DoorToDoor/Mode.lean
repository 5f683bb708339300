import DoorToDoor.Text.Blank
import DoorToDoor.Text.Quoted

/-!
# Modes

The means of transport of a leg. The modes on foot are priced alike; every other mode outside the
timetable needs a price of its own.
-/

namespace DoorToDoor

/-- The means of transport of a leg. -/
inductive Mode
  /-- On foot from door to door. -/
  | walk
  /-- On foot between two stops, or between a stop and the end of an access leg. -/
  | transitWalk
  /-- On foot from the origin to the first stop. -/
  | accessWalk
  /-- On foot from the last stop to the destination. -/
  | egressWalk
  /-- A ride by the timetable. -/
  | transit
  /-- Transport on demand. -/
  | onDemand
  /-- A taxi. -/
  | taxi
  /-- A private car. -/
  | car
  /-- A bicycle. -/
  | bike
  deriving DecidableEq, Repr, Inhabited

namespace Mode

/-- All modes. -/
def all : List Mode :=
  [walk, transitWalk, accessWalk, egressWalk, transit, onDemand, taxi, car, bike]

/-- The name of a mode in settings and messages. -/
def name : Mode → String
  | walk => "walk"
  | transitWalk => "transit_walk"
  | accessWalk => "access_walk"
  | egressWalk => "egress_walk"
  | transit => "pt"
  | onDemand => "drt"
  | taxi => "taxi"
  | car => "car"
  | bike => "bike"

/-- Whether the traveller goes on foot. -/
def isOnFoot : Mode → Bool
  | walk | transitWalk | accessWalk | egressWalk => true
  | _ => false

/-- The mode of a name. -/
def ofName? (text : String) : Option Mode := all.find? (·.name == text)

/-- A text that names no mode. -/
structure ParseError where
  text : String
  deriving DecidableEq, Repr

/-- The wording of a `ParseError`. -/
def ParseError.message (e : ParseError) : String :=
  "parse error: unknown transport mode " ++ Text.quote e.text

/-- Reads the name of a mode between blanks. -/
def parse (text : String) : Except ParseError Mode :=
  let inner := Text.trim text
  (ofName? inner).elim (.error ⟨inner⟩) .ok

/-- Every mode is found under its own name. -/
theorem ofName?_name (m : Mode) : ofName? m.name = some m := by cases m <;> decide +kernel

end Mode

end DoorToDoor
