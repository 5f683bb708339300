import DoorToDoor.Csv.Sheet
import DoorToDoor.OrderedMap
import DoorToDoor.Timetable.Builder

/-!
# Timetables from rows

A timetable is written as three sheets: stops, the calls of routes, and departures. Rows refer to
stops, lines and routes by keys, which are texts of any kind. Identifiers follow the order in which
keys first appear; a route takes its calls in the order of their sequence numbers.
-/

namespace DoorToDoor.Timetable

/-- A row of the sheet of stops. -/
structure StopRow (α : Type) where
  key : String
  coord : Point α
  link : LinkId
  name : String
  deriving DecidableEq, Repr

/-- The keys of a line and of one of its routes. -/
structure RouteKey where
  line : String
  route : String
  deriving DecidableEq, Hashable, Repr

instance : LawfulHashable RouteKey where
  hash_eq a b h := by rw [eq_of_beq h]

/-- A row of the sheet of calls. -/
structure CallRow where
  key : RouteKey
  sequence : Nat
  stop : String
  arrival : Option String
  departure : Option String
  deriving DecidableEq, Repr

/-- A row of the sheet of departures. -/
structure DepartureRow where
  key : RouteKey
  departure : String
  deriving DecidableEq, Repr

/-- What the rows say about one route: its calls with their sequence numbers, and its departures. -/
structure Draft (α : Type) where
  calls : List (Nat × Call α)
  departures : List α
  deriving DecidableEq, Repr, Inhabited

variable {α : Type}

/-- Refuses a sheet that has a malformed row behind its rows. -/
def requireIntact {ρ : Type} (sheet : Csv.Sheet ρ) : Except Error Unit :=
  if sheet.intact then .ok () else .error .malformedTable

/-- The stops so far and the identifier of each key. -/
abbrev StopIndex (α : Type) := Timetable α × Std.HashMap String StopId

/-- Adds the stop of a row. -/
def addStopRow (index : StopIndex α) (row : StopRow α) : Except Error (StopIndex α) :=
  let (id, t) := index.1.addStop row.coord row.link row.name
  if index.2.contains row.key then .error (.duplicateStopKey row.key)
  else .ok (t, index.2.insert row.key id)

/-- The drafts of all routes in the order in which their keys first appear. -/
abbrev Drafts (α : Type) := OrderedMap RouteKey (Draft α)

variable [Scalar α]

/-- Reads a time relative to the first departure; a blank cell gives none. -/
def readOffset (cell : Option String) : Except Error (Option α) :=
  match cell.map Text.trim with
  | none => .ok none
  | some text =>
    if text.isEmpty then .ok none
    else
      match Clock.parse text with
      | .ok time => .ok (some time)
      | .error e => .error (.badTime e)

/-- Adds the call of a row to the draft of its route. An unknown stop is reported before a bad
arrival and that before a bad departure. -/
def addCallRow (stops : Std.HashMap String StopId) (drafts : Drafts α) (row : CallRow) :
    Except Error (Drafts α) := do
  match stops[row.stop]? with
  | none => .error (.unknownStopKey row.stop)
  | some stop =>
    let arrival ← readOffset row.arrival
    let departure ← readOffset row.departure
    let call := (row.sequence, (⟨stop, arrival, departure⟩ : Call α))
    return drafts.update row.key fun draft? ↦
      let draft := draft?.getD default
      { draft with calls := draft.calls ++ [call] }

/-- Adds the departure of a row to the draft of its route, which calls have to have opened. -/
def addDepartureRow (drafts : Drafts α) (row : DepartureRow) : Except Error (Drafts α) :=
  match drafts.get? row.key with
  | none =>
    .error (.invalidRoute (row.key.line ++ "/" ++ row.key.route) .departureWithoutStops)
  | some draft =>
    match Clock.parse row.departure with
    | .error e => .error (.badTime e)
    | .ok time =>
      .ok (drafts.insert row.key { draft with departures := draft.departures ++ [time] })

/-- The calls of a draft by sequence number; calls with equal numbers keep their order. -/
def Draft.ordered (draft : Draft α) : List (Call α) :=
  (draft.calls.mergeSort fun a b ↦ a.1 ≤ b.1).map (·.2)

/-- Adds the route of a draft, and its line when this is the first of its routes. -/
def addDraft (state : Timetable α × Std.HashMap String LineId) (entry : RouteKey × Draft α) :
    Except Error (Timetable α × Std.HashMap String LineId) := do
  let (key, draft) := entry
  let (line, t, lines) :=
    match state.2[key.line]? with
    | some line => (line, state.1, state.2)
    | none =>
      let (line, t) := state.1.addLine key.line
      (line, t, state.2.insert key.line line)
  let (_, t) ← t.addRoute line key.route draft.ordered draft.departures
  return (t, lines)

/-- The timetable of three sheets. The sheets are read one after the other, each row by row, and the
routes are added at the end, so the first thing wrong in this order is the one reported. -/
def ofRows (stopRows : Csv.Sheet (StopRow α)) (callRows : Csv.Sheet CallRow)
    (departureRows : Csv.Sheet DepartureRow) : Except Error (Timetable α) := do
  let (t, stops) ← stopRows.rows.foldlM addStopRow (empty, ∅)
  requireIntact stopRows
  let drafts ← callRows.rows.foldlM (addCallRow stops) OrderedMap.empty
  requireIntact callRows
  let drafts ← departureRows.rows.foldlM addDepartureRow drafts
  requireIntact departureRows
  let (t, _) ← drafts.toList.foldlM addDraft (t, ∅)
  return t

end DoorToDoor.Timetable
