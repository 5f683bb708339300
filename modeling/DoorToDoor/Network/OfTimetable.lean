import DoorToDoor.Network.Basic

/-!
# The network of a timetable

The nodes are listed route by route in the order of the calls. From each node but the last of its
route a ride leads to the next one. A transfer leads from a node at which one can arrive to a node
from which one can depart, if the two lie within reach of each other; it does not join two calls of
one line at one stop.
-/

namespace DoorToDoor.Network

variable {α : Type} [Scalar α]

/-- The place and the link of a stop. A stop that is not there lies at the origin. -/
def siteOf (t : Timetable α) (stop : StopId) : Point α × LinkId :=
  match t.stop? stop with
  | some s => (s.coord, s.link)
  | none => (⟨Scalar.zero, Scalar.zero⟩, .unset)

/-- The node of the call at a position of a route whose first node is given. -/
def nodeOf (t : Timetable α) (r : Route α) (first position : Nat) (call : Call α) : Node α where
  id := ⟨first + position⟩
  stop := call.stop
  link := (siteOf t call.stop).2
  coord := (siteOf t call.stop).1
  line := r.line
  route := r.id
  position := position
  call := call

/-- The nodes of each route in turn, numbered on from the given one. -/
def stretches (t : Timetable α) : Nat → List (Route α) → List (List (Node α))
  | _, [] => []
  | first, r :: rest =>
    r.calls.mapIdx (nodeOf t r first) :: stretches t (first + r.calls.length) rest

/-- How many calls the route of a node has. -/
def routeLength (t : Timetable α) (node : Node α) : Nat :=
  ((t.route? node.route).map (·.calls.length)).getD 0

/-- Whether a vehicle of its route brings travellers to a node: it is not the first call. -/
def canArrive (node : Node α) : Bool := node.position != 0

/-- Whether a vehicle of its route takes travellers from a node: it is not the last call. -/
def canDepart (t : Timetable α) (node : Node α) : Bool := node.position + 1 < routeLength t node

/-- Whether two nodes lie at most so far apart. -/
def withinReach (reach : α) (a b : Node α) : Bool := b.coord.squareTo a.coord ≤ reach * reach

/-- Whether a transfer leads from one node to another. -/
def joins (t : Timetable α) (reach : α) (a b : Node α) : Bool :=
  canArrive a && a.id != b.id && canDepart t b && !(a.line == b.line && a.stop == b.stop) &&
    withinReach reach a b

/-- An edge that is not numbered yet. -/
def connect (kind : EdgeKind) (a b : Node α) : Edge α :=
  ⟨.unset, a, b, a.coord.distance b.coord, kind⟩

/-- The ride from a node to the next one of its route. -/
def ride (a b : Node α) : Edge α := connect (.ride a.line a.route) a b

/-- The transfers from a node, by the node they lead to. -/
def transfers (t : Timetable α) (reach : α) (nodes : List (Node α)) (a : Node α) : List (Edge α) :=
  (nodes.filter (joins t reach a)).map (connect .transfer a)

/-- The edges that leave each node of a route in turn, the ride before the transfers. -/
def fans (t : Timetable α) (reach : α) (nodes : List (Node α)) :
    List (Node α) → List (List (Edge α))
  | [] => []
  | a :: rest =>
    ((rest.head?.map (ride a)).toList ++ transfers t reach nodes a) :: fans t reach nodes rest

/-- The running totals of a list of counts from a given one on. -/
def totals : Nat → List Nat → List Nat
  | total, [] => [total]
  | total, count :: rest => total :: totals (total + count) rest

/-- There is one more running total than there are counts. -/
@[simp] theorem length_totals (total : Nat) (counts : List Nat) :
    (totals total counts).length = counts.length + 1 := by
  induction counts generalizing total with
  | nil => rfl
  | cons count rest ih => rw [totals, List.length_cons, ih, List.length_cons]

/-- The network of a timetable, with transfers between nodes at most so far apart. -/
def ofTimetable (t : Timetable α) (reach : α) : Network α :=
  let runs := stretches t 0 t.routes.toList
  let nodes := runs.flatten
  let outs := runs.flatMap (fans t reach nodes)
  { nodes := nodes.toArray
    edges := (outs.flatten.mapIdx fun i e ↦ { e with id := ⟨i⟩ }).toArray
    offsets := (totals 0 (outs.map List.length)).toArray }

end DoorToDoor.Network
