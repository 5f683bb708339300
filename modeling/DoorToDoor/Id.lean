import DoorToDoor.Number.Numeral

/-!
# Identifiers

Stops, lines, routes, nodes, edges, links and travellers are numbered from zero, each kind for
itself. The kind is part of the type, so a stop never stands where a node is meant. The largest
number of a word marks an identifier that is not set.
-/

namespace DoorToDoor

/-- The kinds of things that are numbered. -/
inductive Kind
  | person
  | stop
  | line
  | route
  | node
  | edge
  | link
  deriving DecidableEq, Repr

/-- The word for a kind. -/
def Kind.name : Kind → String
  | .person => "person"
  | .stop => "stop"
  | .line => "line"
  | .route => "route"
  | .node => "node"
  | .edge => "edge"
  | .link => "link"

/-- The number of a thing among those of its kind. -/
structure Id (k : Kind) where
  index : Nat
  deriving DecidableEq, Hashable, Repr

namespace Id

variable {k : Kind}

/-- The identifier that is not set. -/
def unset : Id k := ⟨Numeral.wordBound - 1⟩

instance : Inhabited (Id k) := ⟨unset⟩

/-- Whether the identifier is set. -/
def isSet (i : Id k) : Bool := i != unset

/-- The kind and the number, such as `stop 4`. -/
def text (i : Id k) : String :=
  k.name ++ " " ++ (if i.isSet then String.ofList (Nat.toDigits 10 i.index) else "<invalid>")

instance : LawfulHashable (Id k) where
  hash_eq a b h := by rw [eq_of_beq h]

end Id

/-- A traveller. -/
abbrev PersonId := Id .person

/-- A stop of the timetable. -/
abbrev StopId := Id .stop

/-- A line of the timetable. -/
abbrev LineId := Id .line

/-- A route of the timetable, one stop pattern of its line. -/
abbrev RouteId := Id .route

/-- A node of the network. -/
abbrev NodeId := Id .node

/-- An edge of the network. -/
abbrev EdgeId := Id .edge

/-- A link of the road network, which the library refers to and never looks into. -/
abbrev LinkId := Id .link

end DoorToDoor
