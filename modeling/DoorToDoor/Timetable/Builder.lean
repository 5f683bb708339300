import DoorToDoor.Clock
import DoorToDoor.Timetable.Basic

/-!
# Building timetables

A timetable grows from the empty one by adding stops, lines and routes. A route is added only when
its line and its stops are there, it calls at two stops or more, and it has a departure.
-/

namespace DoorToDoor.Timetable

/-- What keeps a route out of a timetable although its line and its stops are known. -/
inductive RouteFault
  | fewerThanTwoStops
  | noDepartures
  /-- Departures are given for a route without calls. -/
  | departureWithoutStops
  deriving DecidableEq, Repr

/-- The wording of a `RouteFault`. -/
def RouteFault.message : RouteFault → String
  | .fewerThanTwoStops => "fewer than two stops"
  | .noDepartures => "no departures"
  | .departureWithoutStops => "departure for a route without stops"

/-- Why a timetable is not built. -/
inductive Error
  /-- A route belongs to a line that is not there. -/
  | unknownLine (line : LineId)
  /-- A route calls at a stop that is not there. -/
  | unknownStop (stop : StopId)
  /-- A row calls at a stop whose key no stop row has. -/
  | unknownStopKey (key : String)
  | invalidRoute (route : String) (fault : RouteFault)
  /-- Two stop rows have one key. -/
  | duplicateStopKey (key : String)
  /-- A time in a row cannot be read. -/
  | badTime (error : Clock.ParseError)
  /-- A table is not well formed or a row of it does not have the fields it should. -/
  | malformedTable
  /-- A file is not there. -/
  | missingFile
  deriving DecidableEq, Repr

/-- The wording of an error, where this library words it. -/
def Error.message? : Error → Option String
  | .unknownLine line => some ("line " ++ line.text ++ " not found in schedule")
  | .unknownStop stop => some ("stop " ++ stop.text ++ " not found in schedule")
  | .unknownStopKey key => some ("stop " ++ key ++ " not found in schedule")
  | .invalidRoute route fault => some ("invalid route " ++ route ++ ": " ++ fault.message)
  | .duplicateStopKey key => some ("schedule parse error: duplicate stop_id " ++ Text.quote key)
  | .badTime error => some error.message
  | .malformedTable | .missingFile => none

variable {α : Type}

/-- Adds a stop. -/
def addStop (t : Timetable α) (coord : Point α) (link : LinkId) (name : String) :
    StopId × Timetable α :=
  let id : StopId := ⟨t.stops.size⟩
  (id, { t with stops := t.stops.push ⟨id, coord, link, name⟩ })

/-- A stop that is added is found under its identifier. -/
theorem stop?_addStop (t : Timetable α) (coord : Point α) (link : LinkId) (name : String) :
    (t.addStop coord link name).2.stop? (t.addStop coord link name).1 =
      some ⟨(t.addStop coord link name).1, coord, link, name⟩ := by
  simp [addStop, stop?]

/-- Adds a line without routes. -/
def addLine (t : Timetable α) (name : String) : LineId × Timetable α :=
  let id : LineId := ⟨t.lines.size⟩
  (id, { t with lines := t.lines.push ⟨id, name, []⟩ })

/-- A line that is added is found under its identifier. -/
theorem line?_addLine (t : Timetable α) (name : String) :
    (t.addLine name).2.line? (t.addLine name).1 = some ⟨(t.addLine name).1, name, []⟩ := by
  simp [addLine, line?]

/-- Adds a route to a line. The first reason against it is reported: an unknown line, the first
unknown stop, too few calls, no departures. -/
def addRoute (t : Timetable α) (line : LineId) (name : String) (calls : List (Call α))
    (departures : List α) : Except Error (RouteId × Timetable α) :=
  if t.lines.size ≤ line.index then .error (.unknownLine line)
  else
    match calls.find? (fun c ↦ t.stops.size ≤ c.stop.index) with
    | some c => .error (.unknownStop c.stop)
    | none =>
      if calls.length < 2 then .error (.invalidRoute name .fewerThanTwoStops)
      else if departures.isEmpty then .error (.invalidRoute name .noDepartures)
      else
        let id : RouteId := ⟨t.routes.size⟩
        .ok (id, { t with
          lines := t.lines.modify line.index fun l ↦ { l with routes := l.routes ++ [id] }
          routes := t.routes.push ⟨id, line, name, calls, departures⟩ })

end DoorToDoor.Timetable
