import DoorToDoor.Network.OfTimetable
import DoorToDoor.Routing.Planner
import DoorToDoor.Settings.Text
import DoorToDoor.Timetable.Sheets

/-!
# The corridor

A small example from one end to the other: a railway from west to east and a bus to the north meet
at a short walk, and a few travellers go their ways in the morning. `Corridor.run` plans their
journeys and reports them line by line.
-/

namespace DoorToDoor.Corridor

/-- The bytes of a text. -/
def bytes (text : String) : List UInt8 := text.toUTF8.toList

/-- The stops. -/
def stopSheet : String := String.intercalate "\n" [
  "stop_id,x,y,link_id,name",
  "w,0.0,0.0,100,West Terminal",
  "c,2500.0,0.0,101,Central",
  "x,5000.0,0.0,102,Exchange",
  "e,8000.0,0.0,103,East Terminal",
  "bx,5060.0,20.0,200,Exchange Bus Bay",
  "n1,5060.0,2000.0,201,North Mill",
  "n2,5060.0,4500.0,202,North Campus"]

/-- The calls of the two routes. -/
def callSheet : String := String.intercalate "\n" [
  "line_id,route_id,seq,stop_id,arrival,departure",
  "rail,rail-east,0,w,,00:00:00",
  "rail,rail-east,1,c,00:03:00,00:03:30",
  "rail,rail-east,2,x,00:07:00,00:07:30",
  "rail,rail-east,3,e,00:12:00,",
  "bus,bus-north,0,bx,,00:00:00",
  "bus,bus-north,1,n1,00:05:00,00:05:20",
  "bus,bus-north,2,n2,00:11:00,"]

/-- The departures of the two routes. -/
def departureSheet : String := String.intercalate "\n" [
  "line_id,route_id,departure",
  "rail,rail-east,07:00:00",
  "rail,rail-east,07:15:00",
  "rail,rail-east,07:30:00",
  "rail,rail-east,07:45:00",
  "rail,rail-east,08:00:00",
  "bus,bus-north,07:10:00",
  "bus,bus-north,07:30:00",
  "bus,bus-north,07:50:00",
  "bus,bus-north,08:10:00"]

/-- The settings of the example. -/
def settingsText : String := String.intercalate "\n" [
  "[router]",
  "search_radius    = 800.0",
  "extension_radius = 300.0",
  "",
  "[[access_modes]]",
  "mode         = \"walk\"",
  "max_distance = 1200.0",
  "",
  "[[access_modes]]",
  "mode         = \"drt\"",
  "max_distance = 1.0e9",
  "speed        = 7.0",
  "teleported   = true",
  "",
  "[[discouraged_stops]]",
  "coord       = \x7b x = 2500.0, y = 0.0 \x7d",
  "surcharge_s = 300.0"]

/-- The seed of the coin for the surcharge. -/
def seed : UInt64 := 42

/-- Where the travellers go, in turn. -/
def trips : List (Point Float × Point Float) := [
  (⟨-300, 150⟩, ⟨8100, -200⟩),
  (⟨400, -500⟩, ⟨5000, 4600⟩),
  (⟨2400, 900⟩, ⟨4900, 2100⟩),
  (⟨7600, 300⟩, ⟨7900, 500⟩),
  (⟨-2500, 0⟩, ⟨5100, 1900⟩),
  (⟨5200, 4400⟩, ⟨0, 100⟩)]

/-- The requests of the travellers, ten minutes apart. -/
def requests : List (Routing.Request Float) :=
  trips.mapIdx fun i (start, finish) ↦
    ⟨⟨⟨i⟩⟩, start, finish, Clock.time 7 5 0 + 600 * Float.ofNat i⟩

/-- Where the settings come from. -/
inductive Source
  /-- The settings of the example. -/
  | builtIn
  /-- A file, given by its bytes if it is there. -/
  | file (bytes? : Option ByteArray)

/-- The settings of a source. -/
def Source.settings : Source → Except (Settings.Error Float) (Settings Float)
  | .builtIn => Settings.ofText settingsText
  | .file bytes? => Settings.ofFile bytes?

/-- What went wrong in a run. -/
inductive Error
  | settings (error : Settings.Error Float)
  | timetable (error : Timetable.Error)
  | routing (error : Routing.Error Float)

/-- The wording of an error. -/
def Error.message : Error → String
  | .settings e => e.message?.getD "the settings cannot be read"
  | .timetable e => e.message?.getD "the timetable cannot be read"
  | .routing e => e.message

/-- The lines of a run, and the error at which it ends early. -/
structure Report where
  lines : List String
  error? : Option Error

/-- A decimal number. -/
def number (n : Nat) : String := String.ofList (Decimal.digits n)

/-- Names the ends of a leg, and the line of a ride. -/
def describe (t : Timetable Float) (leg : Leg Float) : String :=
  match leg.course with
  | .way w => w.start.text ++ " → " ++ w.finish.text
  | .ride r =>
    ((t.line? r.line).map (·.name)).getD "" ++ " " ++
      ((t.stop? r.accessStop).map (·.name)).getD "" ++ " → " ++
      ((t.stop? r.egressStop).map (·.name)).getD ""

/-- The line of a leg. -/
def legLine (t : Timetable Float) (leg : Leg Float) : String :=
  "  " ++ Text.padBack ' ' 8 leg.mode.name ++ " " ++ Clock.text leg.departure ++ " – " ++
    Clock.text leg.arrival ++ "  " ++ Text.padFront ' ' 7 (Decimal.fixed 0 leg.distance) ++
    " m  " ++ describe t leg

/-- The line of a request. -/
def requestLine (r : Routing.Request Float) : String :=
  r.person.id.text ++ " " ++ r.start.text ++ " → " ++ r.finish.text ++ " departing " ++
    Clock.text r.departure

/-- The lines of an answered request. -/
def answerLines (t : Timetable Float) : Option (List (Leg Float)) → List String
  | none => ["  no route", ""]
  | some legs => legs.map (legLine t) ++ [""]

/-- The answers to requests, up to the first error. -/
def answers (t : Timetable Float) : List (Routing.Request Float ×
    Except (Routing.Error Float) (Option (List (Leg Float)))) → Report
  | [] => ⟨[], none⟩
  | (r, .error e) :: _ => ⟨[requestLine r], some (.routing e)⟩
  | (r, .ok answer) :: rest =>
    let report := answers t rest
    { report with lines := requestLine r :: answerLines t answer ++ report.lines }

/-- The first line of every run. -/
def banner : String := "=== corridor: variable-access transit router ==="

/-- The lines about the timetable and its network. -/
def networkLine (t : Timetable Float) (n : Network Float) : String :=
  "Schedule: " ++ number t.stops.size ++ " stops, " ++ number t.lines.size ++
    " lines  |  router graph: " ++ number n.nodeCount ++ " nodes, " ++ number n.edgeCount ++
    " edges"

/-- Plans the journeys of all travellers with checked settings. -/
def runWith (s : Settings Float) (t : Timetable Float) : Report :=
  let network := Network.ofTimetable t s.parameters.transferReach
  let lookup := (Departures.ofTimetable t).lookup
  let planner :=
    Routing.Planner.flipped network lookup s.access.model s.parameters (Coin.ofSeed seed)
  let report := answers t (requests.zip (planner.planAll Labels.empty requests).1)
  let surcharge := "Stop surcharge: " ++ if planner.surcharged then "on" else "off"
  { report with lines := networkLine t network :: surcharge :: "" :: report.lines }

/-- Plans the journeys of all travellers. -/
def run (source : Source) : Report :=
  let report : Report :=
    match source.settings with
    | .error e => ⟨[], some (.settings e)⟩
    | .ok s =>
      match Timetable.ofTexts (bytes stopSheet) (bytes callSheet) (bytes departureSheet) with
      | .error e => ⟨[], some (.timetable e)⟩
      | .ok t => runWith s t
  { report with lines := banner :: report.lines }

end DoorToDoor.Corridor
