import DoorToDoor.Network.Basic
import DoorToDoor.Parameters
import DoorToDoor.Person
import DoorToDoor.Timetable.Departures

/-!
# Costs of edges

A cost model tells how long an edge takes and what it costs when it is entered at a time. A ride
costs the wait for the next vehicle and the time in it, a transfer the walk and the change of line;
both cost their distance. Costs are disutilities: utilities with the sign reversed.
-/

namespace DoorToDoor

/-- How long edges and walks take and what edges cost a traveller, at the time at which they are
entered. -/
structure CostModel (α : Type) where
  travelTime : Person → Edge α → α → α
  disutility : Person → Edge α → α → α
  walkTime : Person → Point α → Point α → α

namespace Cost

variable {α : Type} [Scalar α]

/-- The wait at a call from a time on until the next vehicle of a route leaves. -/
def wait (lookup : DepartureLookup α) (e : Edge α) (time : α) : α :=
  lookup.next e.tail.route e.tail.call time - time

/-- The time in the vehicle along a ride. A ride that seems to end before it starts runs past
midnight. -/
def inVehicle (e : Edge α) : α :=
  let run := e.head.call.arrives - e.tail.call.departs
  if run < Scalar.zero then run + Clock.day else run

/-- The time of a transfer. -/
def transferTime (p : Parameters α) (e : Edge α) : α := e.length / p.walkSpeed + p.transferMargin

/-- The cost of the distance of an edge. -/
def distanceCost (p : Parameters α) (e : Edge α) : α := -e.length * p.distance

/-- How long an edge takes when it is entered at a time. -/
def travelTime (lookup : DepartureLookup α) (p : Parameters α) (e : Edge α) (time : α) : α :=
  match e.kind with
  | .ride _ _ => wait lookup e time + inVehicle e
  | .transfer => transferTime p e

/-- What an edge costs when it is entered at a time. -/
def disutility (lookup : DepartureLookup α) (p : Parameters α) (e : Edge α) (time : α) : α :=
  match e.kind with
  | .ride _ _ =>
    -wait lookup e time * p.waitTime - inVehicle e * p.rideTime + distanceCost p e
  | .transfer => -transferTime p e * p.walkTime + distanceCost p e - p.lineSwitch

/-- How long the walk along a straight line takes. -/
def walkTime (p : Parameters α) (a b : Point α) : α := a.distance b / p.walkSpeed

/-- The costs by a timetable and parameters, alike for all travellers. -/
def byTimetable (lookup : DepartureLookup α) (p : Parameters α) : CostModel α where
  travelTime _ := travelTime lookup p
  disutility _ := disutility lookup p
  walkTime _ := walkTime p

end Cost

end DoorToDoor
