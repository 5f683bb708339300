import DoorToDoor.Cost
import DoorToDoor.Search.Candidate

/-!
# Paths and search engines

A path is what a search finds: the nodes it visits, the edges between them, and what the edges cost
and take together. Any engine may be asked for paths, so a path promises no more than that it has a
node; an engine may keep a state of its own from one search to the next.
-/

namespace DoorToDoor

/-- A path from an origin candidate to a destination candidate. -/
structure Path (α : Type) where
  nodes : List (Node α)
  edges : List (Edge α)
  /-- The cost of the edges, without the costs of the candidates. -/
  travelCost : α
  /-- The time from the first node to the last. -/
  travelTime : α
  nodes_ne : nodes ≠ []

namespace Path

variable {α : Type}

/-- The node at which the path starts. -/
def first (p : Path α) : Node α := p.nodes.head p.nodes_ne

/-- The node at which the path ends. -/
def last (p : Path α) : Node α := p.nodes.getLast p.nodes_ne

end Path

/-- A search for paths from origin to destination candidates. It answers with a path or none and
with the state for its next search. -/
structure PathEngine (α σ : Type) where
  run : σ → Network α → CostModel α → (origins destinations : CandidateSet α) → Person →
    Option (Path α) × σ

/-- The engine that always gives the same answer. -/
def PathEngine.fixed {α : Type} (answer : Option (Path α)) : PathEngine α Unit where
  run _ _ _ _ _ _ := (answer, ())

end DoorToDoor
