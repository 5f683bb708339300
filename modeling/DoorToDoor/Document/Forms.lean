import DoorToDoor.Document.Read
import DoorToDoor.Leg
import DoorToDoor.Person
import DoorToDoor.Settings
import DoorToDoor.Timetable.Basic

/-!
# Document forms of the domain types

Each domain type has one form in documents: the names of its fields, how it is read and how it is
written. Identifiers are bare numbers, modes are names, and a record is a table of its fields.
-/

namespace DoorToDoor.Document

/-- Writes an optional value, as null when there is none. -/
def writeNullable {τ : Type} (write : τ → Value) : Option τ → Value
  | some x => write x
  | none => .null

/-- Writes a list. -/
def writeList {τ : Type} (write : τ → Value) (xs : List τ) : Value := .array (xs.map write)

/-- Reads an identifier. -/
def readId {k : Kind} : Reader (Id k) := fun d v ↦ (readNat Numeral.wordBound d v).map Id.mk

/-- Writes an identifier. -/
def writeId {k : Kind} (i : Id k) : Value := .integer i.index

/-- Reads a mode. -/
def readMode : Reader Mode := fun d v ↦ (readName d v).bind Mode.ofName?

/-- Writes a mode. -/
def writeMode (m : Mode) : Value := .text m.name

/-- Reads a person. -/
def readPerson : Reader Person := fun d v ↦ do
  let r ← record d ["id"] v
  return ⟨← r.required d "id" readId⟩

/-- Writes a person. -/
def writePerson (p : Person) : Value := .table [("id", writeId p.id)]

/-- Reads a point. -/
def readPoint : Reader (Point Float) := fun d v ↦ do
  let r ← record d ["x", "y"] v
  return ⟨← r.required d "x" readFloat, ← r.required d "y" readFloat⟩

/-- Writes a point. -/
def writePoint (p : Point Float) : Value := .table [("x", .float p.x), ("y", .float p.y)]

/-- Reads a way, without its name. -/
def readWay : Reader (Way Float) := fun d v ↦ do
  let r ← record d ["start", "end", "start_link", "end_link"] v
  return {
    start := ← r.required d "start" readPoint
    finish := ← r.required d "end" readPoint
    startLink := ← r.nullable d "start_link" readId
    finishLink := ← r.nullable d "end_link" readId }

/-- Writes a way, without its name. -/
def writeWay (w : Way Float) : Value :=
  .table [("start", writePoint w.start), ("end", writePoint w.finish),
    ("start_link", writeNullable writeId w.startLink),
    ("end_link", writeNullable writeId w.finishLink)]

/-- Reads a ride, without its name. -/
def readRide : Reader Ride := fun d v ↦ do
  let r ← record d ["access_stop", "line", "route", "egress_stop"] v
  return {
    accessStop := ← r.required d "access_stop" readId
    line := ← r.required d "line" readId
    route := ← r.required d "route" readId
    egressStop := ← r.required d "egress_stop" readId }

/-- Writes a ride, without its name. -/
def writeRide (r : Ride) : Value :=
  .table [("access_stop", writeId r.accessStop), ("line", writeId r.line),
    ("route", writeId r.route), ("egress_stop", writeId r.egressStop)]

/-- Reads the course of a leg: a way or a ride behind its name. -/
def readCourse : Reader (Course Float) := fun d v ↦
  match readChoice v with
  | some ("Generic", content) => (readWay d content).map .way
  | some ("Transit", content) => (readRide d content).map .ride
  | _ => none

/-- Writes the course of a leg. -/
def writeCourse : Course Float → Value
  | .way w => .table [("Generic", writeWay w)]
  | .ride r => .table [("Transit", writeRide r)]

/-- Reads a leg. -/
def readLeg : Reader (Leg Float) := fun d v ↦ do
  let r ← record d ["mode", "departure_time", "travel_time", "distance", "route"] v
  return {
    mode := ← r.required d "mode" readMode
    departure := ← r.required d "departure_time" readFloat
    travelTime := ← r.required d "travel_time" readFloat
    distance := ← r.required d "distance" readFloat
    course := ← r.required d "route" readCourse }

/-- Writes a leg. -/
def writeLeg (l : Leg Float) : Value :=
  .table [("mode", writeMode l.mode), ("departure_time", .float l.departure),
    ("travel_time", .float l.travelTime), ("distance", .float l.distance),
    ("route", writeCourse l.course)]

/-- Reads the utilities of a mode. -/
def readModeUtility : Reader (ModeUtility Float) := fun d v ↦ do
  let time := "marginal_utility_of_travel_time_utl_s"
  let distance := "marginal_utility_of_travel_distance_utl_m"
  let r ← record d ["mode", time, distance] v
  return {
    mode := ← r.required d "mode" readMode
    time := ← r.required d time readFloat
    distance := ← r.required d distance readFloat }

/-- Writes the utilities of a mode. -/
def writeModeUtility (u : ModeUtility Float) : Value :=
  .table [("mode", writeMode u.mode), ("marginal_utility_of_travel_time_utl_s", .float u.time),
    ("marginal_utility_of_travel_distance_utl_m", .float u.distance)]

/-- The fields of the parameters. -/
def parameterNames : List String :=
  ["search_radius", "extension_radius", "marginal_utility_of_travel_time_walk_utl_s",
    "marginal_utility_of_travel_time_pt_utl_s", "marginal_utility_of_waiting_pt_utl_s",
    "marginal_utility_of_travel_distance_pt_utl_m", "utility_of_line_switch_utl",
    "additional_transfer_time", "beeline_distance_factor", "beeline_walk_speed",
    "direct_walk_factor", "max_beeline_walk_connection_distance", "teleported_modes"]

/-- Reads parameters. Those left out keep their default. -/
def readParameters : Reader (Parameters Float) := fun d v ↦ do
  let r ← record d parameterNames v
  let usual : Parameters Float := .default
  let float (name : String) (fallback : Float) := r.optional d name readFloat fallback
  return {
    searchRadius := ← float "search_radius" usual.searchRadius
    extensionRadius := ← float "extension_radius" usual.extensionRadius
    walkTime := ← float "marginal_utility_of_travel_time_walk_utl_s" usual.walkTime
    rideTime := ← float "marginal_utility_of_travel_time_pt_utl_s" usual.rideTime
    waitTime := ← float "marginal_utility_of_waiting_pt_utl_s" usual.waitTime
    distance := ← float "marginal_utility_of_travel_distance_pt_utl_m" usual.distance
    lineSwitch := ← float "utility_of_line_switch_utl" usual.lineSwitch
    transferMargin := ← float "additional_transfer_time" usual.transferMargin
    beelineFactor := ← float "beeline_distance_factor" usual.beelineFactor
    walkSpeed := ← float "beeline_walk_speed" usual.walkSpeed
    directFactor := ← float "direct_walk_factor" usual.directFactor
    transferReach := ← float "max_beeline_walk_connection_distance" usual.transferReach
    modeUtilities :=
      ← r.optional d "teleported_modes" (readList readModeUtility) usual.modeUtilities }

/-- Writes parameters. -/
def writeParameters (p : Parameters Float) : Value :=
  .table (parameterNames.zip
    [.float p.searchRadius, .float p.extensionRadius, .float p.walkTime, .float p.rideTime,
      .float p.waitTime, .float p.distance, .float p.lineSwitch, .float p.transferMargin,
      .float p.beelineFactor, .float p.walkSpeed, .float p.directFactor, .float p.transferReach,
      writeList writeModeUtility p.modeUtilities])

/-- Reads a limit. The undefined distance with a minus sign leads nowhere. -/
def readLimit : Reader (Limit Float) := fun d v ↦
  match v with
  | .negativeUndefined => some .nowhere
  | _ => (readFloat d v).map .upTo

/-- Writes a limit. -/
def writeLimit : Limit Float → Value
  | .upTo distance => .float distance
  | .nowhere => .negativeUndefined

/-- Reads an access mode. Without a speed it has none, and it does not go all the way unless it says
so. -/
def readAccessMode : Reader (AccessMode Float) := fun d v ↦ do
  let r ← record d ["mode", "max_distance", "speed", "teleported"] v
  return {
    mode := ← r.required d "mode" readMode
    limit := ← r.required d "max_distance" readLimit
    speed := ← r.optional d "speed" readFloat 0
    teleports := ← r.optional d "teleported" readBool false }

/-- Writes an access mode. -/
def writeAccessMode (a : AccessMode Float) : Value :=
  .table [("mode", writeMode a.mode), ("max_distance", writeLimit a.limit),
    ("speed", .float a.speed), ("teleported", .bool a.teleports)]

/-- Reads a discouraged stop. -/
def readDiscouraged : Reader (DiscouragedStop Float) := fun d v ↦ do
  let r ← record d ["coord", "surcharge_s"] v
  return ⟨← r.required d "coord" readPoint, ← r.required d "surcharge_s" readFloat⟩

/-- Writes a discouraged stop. -/
def writeDiscouraged (s : DiscouragedStop Float) : Value :=
  .table [("coord", writePoint s.coord), ("surcharge_s", .float s.surcharge)]

/-- Reads settings. Parts left out keep their default. -/
def readSettings : Reader (Settings Float) := fun d v ↦ do
  let r ← record d ["router", "access_modes", "discouraged_stops"] v
  return {
    parameters := ← r.optional d "router" readParameters .default
    accessModes := ← r.optional d "access_modes" (readList readAccessMode) []
    discouraged := ← r.optional d "discouraged_stops" (readList readDiscouraged) [] }

/-- Writes settings. -/
def writeSettings (s : Settings Float) : Value :=
  .table [("router", writeParameters s.parameters),
    ("access_modes", writeList writeAccessMode s.accessModes),
    ("discouraged_stops", writeList writeDiscouraged s.discouraged)]

/-- Reads a stop. -/
def readStop : Reader (Stop Float) := fun d v ↦ do
  let r ← record d ["id", "coord", "link", "name"] v
  return {
    id := ← r.required d "id" readId
    coord := ← r.required d "coord" readPoint
    link := ← r.required d "link" readId
    name := ← r.required d "name" readText }

/-- Writes a stop. -/
def writeStop (s : Stop Float) : Value :=
  .table [("id", writeId s.id), ("coord", writePoint s.coord), ("link", writeId s.link),
    ("name", .text s.name)]

/-- Reads a call. -/
def readCall : Reader (Call Float) := fun d v ↦ do
  let r ← record d ["stop", "arrival_offset", "departure_offset"] v
  return {
    stop := ← r.required d "stop" readId
    arrival := ← r.nullable d "arrival_offset" readFloat
    departure := ← r.nullable d "departure_offset" readFloat }

/-- Writes a call. -/
def writeCall (c : Call Float) : Value :=
  .table [("stop", writeId c.stop), ("arrival_offset", writeNullable .float c.arrival),
    ("departure_offset", writeNullable .float c.departure)]

/-- Reads a line. -/
def readLine : Reader Line := fun d v ↦ do
  let r ← record d ["id", "name", "routes"] v
  return {
    id := ← r.required d "id" readId
    name := ← r.required d "name" readText
    routes := ← r.required d "routes" (readList readId) }

/-- Writes a line. -/
def writeLine (l : Line) : Value :=
  .table [("id", writeId l.id), ("name", .text l.name), ("routes", writeList writeId l.routes)]

/-- Reads a route. -/
def readRoute : Reader (Route Float) := fun d v ↦ do
  let r ← record d ["id", "line", "name", "stops", "departures"] v
  return {
    id := ← r.required d "id" readId
    line := ← r.required d "line" readId
    name := ← r.required d "name" readText
    calls := ← r.required d "stops" (readList readCall)
    departures := ← r.required d "departures" (readList readFloat) }

/-- Writes a route. -/
def writeRoute (r : Route Float) : Value :=
  .table [("id", writeId r.id), ("line", writeId r.line), ("name", .text r.name),
    ("stops", writeList writeCall r.calls), ("departures", writeList .float r.departures)]

/-- Reads a timetable as it was written, without checking it again. -/
def readTimetable : Reader (Timetable Float) := fun d v ↦ do
  let r ← record d ["stops", "lines", "routes"] v
  return {
    stops := (← r.required d "stops" (readList readStop)).toArray
    lines := (← r.required d "lines" (readList readLine)).toArray
    routes := (← r.required d "routes" (readList readRoute)).toArray }

/-- Writes a timetable. -/
def writeTimetable (t : Timetable Float) : Value :=
  .table [("stops", writeList writeStop t.stops.toList),
    ("lines", writeList writeLine t.lines.toList),
    ("routes", writeList writeRoute t.routes.toList)]

end DoorToDoor.Document
