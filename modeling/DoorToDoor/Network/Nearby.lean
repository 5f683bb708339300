import DoorToDoor.Network.Basic

/-!
# Nodes near a point

The nodes around a point are found by their straight-line distance and listed by distance; nodes at
one distance are listed by number.
-/

namespace DoorToDoor.Network

variable {α : Type} [Scalar α]

/-- A node and the square of its distance from a point. -/
structure Hit (α : Type) where
  square : α
  node : Node α

/-- The hit of a node. -/
def hit (p : Point α) (node : Node α) : Hit α := ⟨node.coord.squareTo p, node⟩

/-- Whether one hit may stand before another: it is nearer, or as near with no larger number. -/
def Hit.before (a b : Hit α) : Bool :=
  match Scalar.order a.square b.square with
  | .lt => true
  | .eq => a.node.id.index ≤ b.node.id.index
  | .gt => false

/-- The nodes at most so far from a point, the nearest first. -/
def within (n : Network α) (p : Point α) (radius : α) : List (Node α) :=
  let hits := (n.nodes.toList.map (hit p)).filter fun h ↦ h.square ≤ radius * radius
  (hits.mergeSort Hit.before).map (·.node)

/-- The nearer of two hits, and the first when neither is nearer. -/
def Hit.nearer (a b : Hit α) : Hit α := if Scalar.order b.square a.square = .lt then b else a

/-- The node nearest to a point, unless there are no nodes. -/
def nearest? (n : Network α) (p : Point α) : Option (Node α) :=
  match n.nodes.toList.map (hit p) with
  | [] => none
  | first :: rest => some (rest.foldl Hit.nearer first).node

end DoorToDoor.Network
