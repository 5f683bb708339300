import DoorToDoor.Access.Price
import DoorToDoor.Network.Nearby
import DoorToDoor.Search.Candidate

/-!
# Candidates around a point

The nodes around an end of a journey become candidates for the search, with the cost and the time of
the leg between the point and the node. There is always one, unless the network is empty.
-/

namespace DoorToDoor.Routing

variable {α : Type} [Scalar α]

/-- The node nearest to a point. -/
def nearest (n : Network α) (point : Point α) : Except (Error α) (Node α) :=
  match n.nearest? point with
  | some node => .ok node
  | none => .error .emptyNetwork

/-- The nodes around a point, the nearest first: those within the search radius, or when these are
fewer than two, those at most the extension radius farther than the nearest node. -/
def nodesAround (n : Network α) (p : Parameters α) (point : Point α) :
    Except (Error α) (List (Node α)) :=
  let found := n.within point p.searchRadius
  if 2 ≤ found.length then .ok found
  else
    (nearest n point).map fun node ↦
      n.within point (node.coord.distance point + p.extensionRadius)

/-- Adds a node to candidates with the cost of the leg from a point, and with the time at which the
leg arrives. -/
def addCandidate (model : AccessModel α) (p : Parameters α) (person : Person) (point : Point α)
    (time : α) (surcharged : Bool) (set : CandidateSet α) (node : Node α) :
    Except (Error α) (CandidateSet α) :=
  (Access.price model p person point node.coord time surcharged).map fun (leg, cost) ↦
    set.insert ⟨node.id, cost, time + leg.travelTime⟩

/-- The candidates around a point, in the order of their nodes. -/
def candidates (n : Network α) (model : AccessModel α) (p : Parameters α) (person : Person)
    (point : Point α) (time : α) (surcharged : Bool) : Except (Error α) (CandidateSet α) := do
  let nodes ← nodesAround n p point
  nodes.foldlM (addCandidate model p person point time surcharged) .empty

end DoorToDoor.Routing
