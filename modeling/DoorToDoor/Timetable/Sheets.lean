import DoorToDoor.Number.Numeral
import DoorToDoor.Timetable.Rows

/-!
# The sheets of a timetable

The columns of the three sheets and how their cells are read. Unknown columns are ignored. The
columns of arrivals and departures may be absent or empty; every other column has to be there.
-/

namespace DoorToDoor.Timetable

/-- Reads a natural number below the bound of identifiers, in decimal or behind `0x` in
hexadecimal. -/
def readWordCell (cell : String) : Option Nat :=
  let read :=
    match cell.toList with
    | '0' :: 'x' :: rest => Numeral.readNat 16 Numeral.wordBound rest
    | cs => Numeral.readNat 10 Numeral.wordBound cs
  read.toOption

/-- An empty cell holds nothing. -/
def filled (cell : Option String) : Option String := cell.filter (!·.isEmpty)

/-- The columns of the sheet of stops. -/
def stopColumns : List String := ["stop_id", "x", "y", "link_id", "name"]

/-- Reads a row of the sheet of stops. -/
def readStopRow : List (Option String) → Option (StopRow Float)
  | [some key, some x, some y, some link, some name] => do
    return ⟨key, ⟨← Numeral.readFloat x, ← Numeral.readFloat y⟩, ⟨← readWordCell link⟩, name⟩
  | _ => none

/-- The columns of the sheet of calls. -/
def callColumns : List String := ["line_id", "route_id", "seq", "stop_id", "arrival", "departure"]

/-- Reads a row of the sheet of calls. -/
def readCallRow : List (Option String) → Option CallRow
  | [some line, some route, some sequence, some stop, arrival, departure] => do
    return ⟨⟨line, route⟩, ← readWordCell sequence, stop, filled arrival, filled departure⟩
  | _ => none

/-- The columns of the sheet of departures. -/
def departureColumns : List String := ["line_id", "route_id", "departure"]

/-- Reads a row of the sheet of departures. -/
def readDepartureRow : List (Option String) → Option DepartureRow
  | [some line, some route, some departure] => some ⟨⟨line, route⟩, departure⟩
  | _ => none

/-- The timetable of three texts: stops, calls and departures. -/
def ofTexts (stops calls departures : List UInt8) : Except Error (Timetable Float) :=
  ofRows (Csv.sheet stopColumns readStopRow stops) (Csv.sheet callColumns readCallRow calls)
    (Csv.sheet departureColumns readDepartureRow departures)

/-- The names of the files of a timetable: stops, calls and departures. -/
def fileNames : String × String × String := ("stops.csv", "route_stops.csv", "departures.csv")

/-- The timetable in a folder, given by what it holds under each name. All three files have to be
there. -/
def ofFolder (file? : String → Option (List UInt8)) : Except Error (Timetable Float) :=
  match file? fileNames.1, file? fileNames.2.1, file? fileNames.2.2 with
  | some stops, some calls, some departures => ofTexts stops calls departures
  | _, _, _ => .error .missingFile

end DoorToDoor.Timetable
