import DoorToDoor.Access.Model
import DoorToDoor.Routing.Error
import DoorToDoor.Search.Path

/-!
# Itineraries

An itinerary turns the edges of a path into legs. The traveller stands at the start, has alighted at
a stop, or rides a route. A ride edge boards when the traveller is not riding, and continues a ride
of its own route; a ride edge of another route and a transfer end the ride where the traveller is.
Boarding adds the way to the stop: from the origin by the access model, or from another stop on
foot. At the end the ride is closed and the way to the destination added. A path that never boards
gives the direct leg.

Each leg departs at the clock when it is added, and the clock moves on to its arrival.
-/

namespace DoorToDoor.Routing

/-- What the legs of an itinerary are made of: the timetable, the costs of walks, the access model
and the parameters. -/
structure Setting (α : Type) where
  lookup : DepartureLookup α
  costs : CostModel α
  access : AccessModel α
  parameters : Parameters α

/-- A request for a journey: who goes from where to where, and departs when. -/
structure Request (α : Type) where
  person : Person
  start : Point α
  finish : Point α
  departure : α
  deriving DecidableEq, Repr

/-- The error that a path does not fit a request. -/
def Request.inconsistent {α : Type} (r : Request α) (what : Inconsistency) : Error α :=
  .inconsistent r.person.id r.start r.finish r.departure what

/-- A ride in progress: the node at which the traveller boarded and the one reached so far. -/
structure Boarded (α : Type) where
  line : LineId
  route : RouteId
  boarding : Node α
  reached : Node α

/-- Where a traveller is. -/
inductive Stage (α : Type)
  /-- At the start of the journey. -/
  | atStart
  /-- At the stop of the node at which a ride ended. -/
  | alighted (node : Node α)
  /-- In a vehicle. -/
  | riding (ride : Boarded α)

/-- A journey in the making: the legs so far, and when the last of them arrives. -/
structure Trip (α : Type) where
  clock : α
  legs : List (Leg α)

namespace Trip

variable {α : Type} [Scalar α]

/-- A journey without legs. -/
def start (time : α) : Trip α := ⟨time, []⟩

/-- Adds a leg that departs at the clock. -/
def push (t : Trip α) (leg : Leg α) : Trip α :=
  let leg := leg.departingAt t.clock
  ⟨leg.arrival, t.legs ++ [leg]⟩

/-- A leg is added at the end and departs at the clock. -/
@[simp] theorem legs_push (t : Trip α) (leg : Leg α) :
    (t.push leg).legs = t.legs ++ [leg.departingAt t.clock] := rfl

/-- The clock moves on by the travel time of the leg. -/
@[simp] theorem clock_push (t : Trip α) (leg : Leg α) :
    (t.push leg).clock = t.clock + leg.travelTime := rfl

end Trip

namespace Setting

variable {α : Type} [Scalar α]

/-- A walk between two points, one of them a stop, with the links that are known. -/
def walk (s : Setting α) (person : Person) (start : Point α) (startLink : Option LinkId)
    (finish : Point α) (finishLink : Option LinkId) : Leg α :=
  let time := s.costs.walkTime person start finish + s.parameters.transferMargin
  let distance := s.parameters.walkDistance (start.distance finish)
  (Leg.between .transitWalk start finish Scalar.zero time distance).withLinks startLink finishLink

/-- The leg from the start of a journey to its end without the timetable. -/
def direct (s : Setting α) (r : Request α) : Leg α :=
  s.access.leg r.person r.start r.finish r.departure false

/-- Adds the way from the start of the journey to a stop. Unless the mode takes the traveller all
the way, a walk leads from where the leg ends to the stop. -/
def addAccess (s : Setting α) (r : Request α) (t : Trip α) (stop : Node α) : Trip α :=
  let leg := s.access.leg r.person r.start stop.coord t.clock false
  if s.access.teleports leg.mode then t.push (leg.withFinishLink stop.link)
  else
    let joint := leg.finish?.getD stop.coord
    (t.push leg).push (s.walk r.person joint leg.finishLink? stop.coord (some stop.link))

/-- Adds the way from a stop to the end of the journey. Unless the mode takes the traveller all the
way, a walk leads from the stop to where the leg starts. -/
def addEgress (s : Setting α) (r : Request α) (t : Trip α) (stop : Node α) : Trip α :=
  let leg := s.access.leg r.person stop.coord r.finish t.clock false
  if s.access.teleports leg.mode then t.push (leg.withStartLink stop.link)
  else
    let joint := leg.start?.getD stop.coord
    (t.push (s.walk r.person stop.coord (some stop.link) joint leg.startLink?)).push leg

/-- Adds the walk from the stop at which a ride ended to the one at which the next begins. -/
def addChange (s : Setting α) (r : Request α) (t : Trip α) (alighted boarding : Node α) : Trip α :=
  t.push (s.walk r.person alighted.coord (some alighted.link) boarding.coord (some boarding.link))

/-- Adds the way to the stop at which a traveller boards. There is none from a stop to itself. -/
def approach (s : Setting α) (r : Request α) (t : Trip α) (alighted? : Option (Node α))
    (boarding : Node α) : Trip α :=
  match alighted? with
  | none => s.addAccess r t boarding
  | some alighted => if alighted.stop = boarding.stop then t else s.addChange r t alighted boarding

/-- The walking distance between the stops of a ride that ends at a node. -/
def rideDistance (s : Setting α) (boarding alighting : Node α) : α :=
  s.parameters.walkDistance (boarding.coord.distance alighting.coord)

/-- When the vehicle that the traveller takes arrives at a node. -/
def rideArrival (s : Setting α) (ride : Boarded α) (alighting : Node α) (time : α) : α :=
  let departure := s.lookup.next ride.route ride.boarding.call time
  departure + (alighting.call.arrives - ride.boarding.call.departs)

/-- The leg of a ride that ends at a node, for a traveller who waits from a time on. -/
def rideLeg (s : Setting α) (ride : Boarded α) (alighting : Node α) (time distance : α) : Leg α :=
  .riding ⟨ride.boarding.stop, ride.line, ride.route, alighting.stop⟩ time
    (s.rideArrival ride alighting time - time) distance

/-- Ends a ride at a node, which has to be one of its route. -/
def closeRide (s : Setting α) (r : Request α) (t : Trip α) (ride : Boarded α) (alighting : Node α)
    (distance : α) : Except (Error α) (Trip α) :=
  if alighting.route = ride.route then .ok (t.push (s.rideLeg ride alighting t.clock distance))
  else .error (r.inconsistent (.rideEndsElsewhere ride.route alighting.route))

/-- The ride that an edge of a route begins. -/
def board (line : LineId) (route : RouteId) (e : Edge α) : Stage α :=
  .riding ⟨line, route, e.tail, e.head⟩

/-- Follows one edge of the path. -/
def follow (s : Setting α) (r : Request α) (state : Trip α × Stage α) (e : Edge α) :
    Except (Error α) (Trip α × Stage α) :=
  let (t, stage) := state
  match e.kind, stage with
  | .transfer, .riding ride =>
    (s.closeRide r t ride e.tail e.length).map fun t ↦ (t, .alighted e.tail)
  | .transfer, walking => .ok (t, walking)
  | .ride line route, .atStart => .ok (s.approach r t none e.tail, board line route e)
  | .ride line route, .alighted node => .ok (s.approach r t (some node) e.tail, board line route e)
  | .ride line route, .riding ride =>
    if route = ride.route then .ok (t, .riding { ride with reached := e.head })
    else
      (s.closeRide r t ride ride.reached (s.rideDistance ride.boarding ride.reached)).map fun t ↦
        (s.approach r t (some ride.reached) e.tail, board line route e)

/-- Ends a journey whose path ends at a node. -/
def conclude (s : Setting α) (r : Request α) (last : Node α) (t : Trip α) (stage : Stage α) :
    Except (Error α) (List (Leg α)) :=
  match stage with
  | .atStart => .ok [s.direct r]
  | .alighted node => .ok (s.addEgress r t node).legs
  | .riding ride =>
    (s.closeRide r t ride last (s.rideDistance ride.boarding last)).map fun t ↦
      (s.addEgress r t last).legs

/-- The legs of a journey along a path. -/
def itinerary (s : Setting α) (r : Request α) (path : Path α) :
    Except (Error α) (List (Leg α)) := do
  let (t, stage) ← path.edges.foldlM (s.follow r) (Trip.start r.departure, Stage.atStart)
  s.conclude r path.last t stage

end Setting

end DoorToDoor.Routing
