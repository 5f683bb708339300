import DoorToDoor.Timetable.Basic

/-!
# Networks

A network has a node for every call of every route, so a stop that three routes serve has three
nodes. Its edges are rides from one call of a route to the next, and transfers on foot. The edges
stand in an array ordered by the node they leave, and a table of offsets says where those of each
node begin.
-/

namespace DoorToDoor

/-- A call of a route as a node of the network. -/
structure Node (α : Type) where
  id : NodeId
  stop : StopId
  /-- The link of the road network at the stop. -/
  link : LinkId
  coord : Point α
  line : LineId
  route : RouteId
  /-- The place of the call in its route, counted from zero. -/
  position : Nat
  call : Call α
  deriving DecidableEq, Repr, Inhabited

/-- What an edge stands for. -/
inductive EdgeKind
  /-- Riding to the next call of a route. -/
  | ride (line : LineId) (route : RouteId)
  /-- Walking to another node. -/
  | transfer
  deriving DecidableEq, Repr, Inhabited

/-- An edge from the node `tail` to the node `head`, with the straight-line distance in metres. -/
structure Edge (α : Type) where
  id : EdgeId
  tail : Node α
  head : Node α
  length : α
  kind : EdgeKind
  deriving DecidableEq, Repr, Inhabited

/-- A directed network. The edges that leave the node at position `v` are those from `offsets[v]` up
to `offsets[v + 1]`. -/
structure Network (α : Type) where
  nodes : Array (Node α)
  edges : Array (Edge α)
  offsets : Array Nat
  deriving DecidableEq, Repr, Inhabited

namespace Network

variable {α : Type}

/-- How many nodes there are. -/
def nodeCount (n : Network α) : Nat := n.nodes.size

/-- How many edges there are. -/
def edgeCount (n : Network α) : Nat := n.edges.size

/-- Whether there are no nodes. -/
def isEmpty (n : Network α) : Bool := n.nodes.isEmpty

/-- The node of an identifier. -/
def node? (n : Network α) (id : NodeId) : Option (Node α) := n.nodes[id.index]?

/-- Where the edges of the node at a position begin. -/
def offset (n : Network α) (position : Nat) : Nat := n.offsets.getD position n.edgeCount

/-- The edges that leave a node. -/
def outEdges (n : Network α) (id : NodeId) : List (Edge α) :=
  (n.edges.extract (n.offset id.index) (n.offset (id.index + 1))).toList

end Network

end DoorToDoor
