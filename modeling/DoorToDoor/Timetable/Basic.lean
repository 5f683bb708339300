import DoorToDoor.Id
import DoorToDoor.Point

/-!
# Timetables

A timetable has stops, lines and routes. A route is one stop pattern of a line: it calls at stops,
and its vehicles leave the first of them at the departures. The calls give times relative to that
departure. Identifiers are positions: the stop at position `i` has the identifier `i`.
-/

namespace DoorToDoor

/-- A place where vehicles are boarded and left. -/
structure Stop (α : Type) where
  id : StopId
  coord : Point α
  /-- The link of the road network at which the stop lies. -/
  link : LinkId
  name : String
  deriving DecidableEq, Repr, Inhabited

/-- A stop as a route serves it, with times after the departure from the first stop. The first call
of a route usually has no arrival and the last one no departure. -/
structure Call (α : Type) where
  stop : StopId
  arrival : Option α
  departure : Option α
  deriving DecidableEq, Repr, Inhabited

namespace Call

variable {α : Type} [Scalar α]

/-- When the vehicle is there: the arrival, or else the departure. -/
def arrives (c : Call α) : α := (c.arrival.or c.departure).getD Scalar.zero

/-- When the vehicle leaves: the departure, or else the arrival. -/
def departs (c : Call α) : α := (c.departure.or c.arrival).getD Scalar.zero

end Call

/-- A line, with its routes in the order in which they were added. -/
structure Line where
  id : LineId
  name : String
  routes : List RouteId
  deriving DecidableEq, Repr, Inhabited

/-- One stop pattern of a line, with the departures of its vehicles from the first stop in the order
in which they were given. -/
structure Route (α : Type) where
  id : RouteId
  line : LineId
  name : String
  calls : List (Call α)
  departures : List α
  deriving DecidableEq, Repr, Inhabited

/-- The stops, lines and routes that a planner works with. -/
structure Timetable (α : Type) where
  stops : Array (Stop α)
  lines : Array Line
  routes : Array (Route α)
  deriving DecidableEq, Repr

namespace Timetable

variable {α : Type}

/-- The timetable without stops, lines and routes. -/
def empty : Timetable α := ⟨#[], #[], #[]⟩

instance : Inhabited (Timetable α) := ⟨empty⟩

/-- The stop of an identifier. -/
def stop? (t : Timetable α) (id : StopId) : Option (Stop α) := t.stops[id.index]?

/-- The line of an identifier. -/
def line? (t : Timetable α) (id : LineId) : Option Line := t.lines[id.index]?

/-- The route of an identifier. -/
def route? (t : Timetable α) (id : RouteId) : Option (Route α) := t.routes[id.index]?

/-- The first stop of a name. -/
def stopNamed? (t : Timetable α) (name : String) : Option (Stop α) := t.stops.find? (·.name == name)

end Timetable

end DoorToDoor
