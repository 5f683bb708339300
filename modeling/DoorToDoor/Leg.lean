import DoorToDoor.Id
import DoorToDoor.Mode
import DoorToDoor.Point

/-!
# Legs

A leg is one piece of a journey: a ride on a route of the timetable, or a way between two points. A
journey is a list of legs, each departing when the one before it arrives.
-/

namespace DoorToDoor

/-- A ride from one stop of a route to another. -/
structure Ride where
  accessStop : StopId
  line : LineId
  route : RouteId
  egressStop : StopId
  deriving DecidableEq, Repr

/-- A way between two points, with the links of the road network at its ends where they are
known. -/
structure Way (α : Type) where
  start : Point α
  finish : Point α
  startLink : Option LinkId
  finishLink : Option LinkId
  deriving DecidableEq, Repr

/-- Where a leg runs. -/
inductive Course (α : Type)
  | way (w : Way α)
  | ride (r : Ride)
  deriving DecidableEq, Repr

/-- One piece of a journey. The travel time of a ride includes the wait for the vehicle. -/
structure Leg (α : Type) where
  mode : Mode
  departure : α
  travelTime : α
  distance : α
  course : Course α
  deriving DecidableEq, Repr

namespace Leg

variable {α : Type}

/-- A leg between two points without links. -/
def between (mode : Mode) (start finish : Point α) (departure travelTime distance : α) : Leg α where
  mode := mode
  departure := departure
  travelTime := travelTime
  distance := distance
  course := .way ⟨start, finish, none, none⟩

/-- A leg on a vehicle. -/
def riding (ride : Ride) (departure travelTime distance : α) : Leg α where
  mode := .transit
  departure := departure
  travelTime := travelTime
  distance := distance
  course := .ride ride

/-- When the leg ends. -/
def arrival [Scalar α] (leg : Leg α) : α := leg.departure + leg.travelTime

/-- The way of the leg, unless it is a ride. -/
def way? (leg : Leg α) : Option (Way α) :=
  match leg.course with
  | .way w => some w
  | .ride _ => none

/-- Whether the leg is a ride. -/
def isRide (leg : Leg α) : Bool := leg.way?.isNone

/-- The point at which the leg starts, unless it is a ride. -/
def start? (leg : Leg α) : Option (Point α) := leg.way?.map (·.start)

/-- The point at which the leg ends, unless it is a ride. -/
def finish? (leg : Leg α) : Option (Point α) := leg.way?.map (·.finish)

/-- The known link at the start of the leg. -/
def startLink? (leg : Leg α) : Option LinkId := leg.way?.bind (·.startLink)

/-- The known link at the end of the leg. -/
def finishLink? (leg : Leg α) : Option LinkId := leg.way?.bind (·.finishLink)

/-- Changes the way of the leg; a ride stays as it is. -/
def mapWay (f : Way α → Way α) (leg : Leg α) : Leg α :=
  match leg.course with
  | .way w => { leg with course := .way (f w) }
  | .ride _ => leg

/-- Sets the link at the start. -/
def withStartLink (link : LinkId) (leg : Leg α) : Leg α :=
  leg.mapWay fun w ↦ { w with startLink := some link }

/-- Sets the link at the end. -/
def withFinishLink (link : LinkId) (leg : Leg α) : Leg α :=
  leg.mapWay fun w ↦ { w with finishLink := some link }

/-- Sets both links, to nothing where none is given. -/
def withLinks (start finish : Option LinkId) (leg : Leg α) : Leg α :=
  leg.mapWay fun w ↦ { w with startLink := start, finishLink := finish }

/-- The same leg at another time. -/
def departingAt (time : α) (leg : Leg α) : Leg α := { leg with departure := time }

/-- A leg between two points has a way. -/
@[simp] theorem way?_between (mode : Mode) (start finish : Point α)
    (departure travelTime distance : α) :
    (between mode start finish departure travelTime distance).way? =
      some ⟨start, finish, none, none⟩ := rfl

/-- A leg on a vehicle has no way. -/
@[simp] theorem way?_riding (ride : Ride) (departure travelTime distance : α) :
    (riding ride departure travelTime distance).way? = none := rfl

/-- A leg with a way is no ride. -/
theorem course_ne_ride_of_way? {leg : Leg α} {w : Way α} (h : leg.way? = some w) (ride : Ride) :
    leg.course ≠ .ride ride := by
  intro hcourse
  rw [way?, hcourse] at h
  cases h

/-- Changing the way of a leg changes its way and no ride. -/
@[simp] theorem way?_mapWay (f : Way α → Way α) (leg : Leg α) :
    (leg.mapWay f).way? = leg.way?.map f := by
  cases leg with
  | mk mode departure travelTime distance course => cases course <;> rfl

/-- Changing the way of a leg makes no ride of it, nor of a ride anything else. -/
@[simp] theorem isRide_mapWay (f : Way α → Way α) (leg : Leg α) :
    (leg.mapWay f).isRide = leg.isRide := by
  rw [isRide, way?_mapWay, Option.isNone_map, isRide]

/-- Changing the way of a leg keeps its travel time. -/
@[simp] theorem travelTime_mapWay (f : Way α → Way α) (leg : Leg α) :
    (leg.mapWay f).travelTime = leg.travelTime := by
  cases leg with
  | mk mode departure travelTime distance course => cases course <;> rfl

/-- Changing the way of a leg keeps its mode. -/
@[simp] theorem mode_mapWay (f : Way α → Way α) (leg : Leg α) :
    (leg.mapWay f).mode = leg.mode := by
  cases leg with
  | mk mode departure travelTime distance course => cases course <;> rfl

/-- Moving a leg to another time keeps its way. -/
@[simp] theorem way?_departingAt (time : α) (leg : Leg α) :
    (leg.departingAt time).way? = leg.way? := rfl

/-- Moving a leg to another time and changing its way may be done in either order. -/
theorem mapWay_departingAt (f : Way α → Way α) (time : α) (leg : Leg α) :
    (leg.departingAt time).mapWay f = (leg.mapWay f).departingAt time := by
  cases leg with
  | mk mode departure travelTime distance course => cases course <;> rfl

/-- A leg that departs at another time arrives later by as much. -/
theorem arrival_departingAt [Scalar α] (time : α) (leg : Leg α) :
    (leg.departingAt time).arrival = time + leg.travelTime := rfl

end Leg

end DoorToDoor
