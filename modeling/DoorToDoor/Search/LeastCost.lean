import DoorToDoor.Search.Heap
import DoorToDoor.Search.Labels
import DoorToDoor.Search.Path

/-!
# The search for the least cost

Nodes are expanded by rising cost, from all origin candidates at once; the cost of an edge may
depend on the time at which it is entered. A destination candidate counts with its cost added. The
search ends once the next node costs at least as much as the best destination found, because
candidates and edges do not cost less than nothing, and gives the path to that destination.
-/

namespace DoorToDoor.LeastCost

variable {α : Type} [Scalar α]

/-- A node to expand, at the cost at which it was reached. -/
structure Entry (α : Type) where
  cost : α
  node : NodeId

/-- Entries come by cost, and at one cost by the number of the node. -/
def Entry.before (a b : Entry α) : Bool :=
  match Scalar.order a.cost b.cost with
  | .lt => true
  | .eq => a.node.index ≤ b.node.index
  | .gt => false

/-- A destination that has been reached, and its whole cost. -/
structure Best (α : Type) where
  total : α
  node : NodeId

/-- The state of a search. -/
structure Frontier (α : Type) where
  labels : Labels α
  queue : Heap (Entry α)
  best : Option (Best α)

/-- Labels a node and queues it, if the label is an improvement. -/
def Frontier.reach (f : Frontier α) (node : NodeId) (label : Label α) : Frontier α :=
  if f.labels.improves node label.cost then
    { f with
      labels := f.labels.set node label
      queue := f.queue.push Entry.before ⟨label.cost, node⟩ }
  else f

/-- The state before the first step: the origins are reached at their own cost and time. -/
def Frontier.start (labels : Labels α) (origins : CandidateSet α) : Frontier α :=
  origins.toList.foldl (fun f c ↦ f.reach c.node ⟨c.cost, c.time, none⟩) ⟨labels, .empty, none⟩

/-- The better of the best destination so far and a node reached at a cost; the earlier one stays
unless the later is cheaper. -/
def bestWith (destinations : CandidateSet α) (best : Option (Best α)) (entry : Entry α) :
    Option (Best α) :=
  match destinations.get? entry.node with
  | none => best
  | some c =>
    let total := entry.cost + c.cost
    match best with
    | none => some ⟨total, entry.node⟩
    | some b => if total < b.total then some ⟨total, entry.node⟩ else some b

/-- Follows one edge from a node left at a cost and a time. An edge without a finite cost cannot be
used. -/
def Frontier.follow (costs : CostModel α) (person : Person) (cost now : α) (f : Frontier α)
    (e : Edge α) : Frontier α :=
  let edgeCost := costs.disutility person e now
  if Scalar.isFinite edgeCost then
    f.reach e.head.id ⟨cost + edgeCost, now + costs.travelTime person e now, some e⟩
  else f

/-- When a search may end although nodes are left: by the cost of the next node and the best
destination so far. -/
abbrev StopRule (α : Type) := α → Option (Best α) → Bool

/-- Ends once the next node costs at least as much as the best destination. -/
def stopAtBest : StopRule α := fun cost best ↦
  match best with
  | some b => b.total ≤ cost
  | none => false

/-- Never ends before all nodes are expanded. -/
def neverStop : StopRule α := fun _ _ ↦ false

/-- What a search works on: the network and the costs, the traveller, and the destinations. -/
structure Task (α : Type) where
  network : Network α
  costs : CostModel α
  person : Person
  destinations : CandidateSet α

/-- Expands a node that was reached at a cost and a time. -/
def Task.expand (task : Task α) (f : Frontier α) (entry : Entry α) (now : α) : Frontier α :=
  (task.network.outEdges entry.node).foldl
    (fun f e ↦ f.follow task.costs task.person entry.cost now e)
    { f with best := bestWith task.destinations f.best entry }

/-- One step: takes the next entry and expands its node. There is no next state when the queue is
empty or the rule lets the search end. An entry above the label of its node is passed over. -/
def Task.step? (task : Task α) (rule : StopRule α) (f : Frontier α) : Option (Frontier α) :=
  match f.queue.pop? Entry.before with
  | none => none
  | some (entry, queue) =>
    let f := { f with queue := queue }
    match f.labels.get? entry.node with
    | none => some f
    | some label =>
      if label.cost < entry.cost then some f
      else if rule entry.cost f.best then none
      else some (task.expand f entry label.time)

/-- Repeats steps until there is no next state, at most so many as the first argument says. -/
def Task.run (task : Task α) (rule : StopRule α) : Nat → Frontier α → Frontier α
  | 0, f => f
  | steps + 1, f =>
    match task.step? rule f with
    | none => f
    | some next => task.run rule steps next

/-- A number of steps that no search exceeds. Every step takes an entry from the queue, and every
entry lowers the label of its node. Without negative costs each origin and each edge brings one
entry at most; with them a node still has no more labels than there are binary64 numbers. -/
def Task.stepBound (task : Task α) (origins : CandidateSet α) : Nat :=
  origins.size + task.network.edgeCount + task.network.nodeCount * UInt64.size + 1

/-- The edges on which a node was reached, from the origin on, together with those that follow it.
The first argument bounds their number. -/
def edgesTo (labels : Labels α) : Nat → NodeId → List (Edge α) → List (Edge α)
  | 0, _, rest => rest
  | bound + 1, node, rest =>
    match (labels.get? node).bind (·.via) with
    | none => rest
    | some e => edgesTo labels bound e.tail.id (e :: rest)

/-- The path along edges to a node with a label, from the origin candidate at its first node. -/
def pathAlong (origins : CandidateSet α) (edges : List (Edge α)) (last : Node α)
    (label : Label α) : Option (Path α) :=
  let nodes := edges.map (·.tail) ++ [last]
  have nodes_ne : nodes ≠ [] := by simp [nodes]
  (origins.get? (nodes.head nodes_ne).id).map fun origin ↦
    ⟨nodes, edges, label.cost - origin.cost, label.time - origin.time, nodes_ne⟩

/-- The path to the best destination. -/
def pathTo (network : Network α) (labels : Labels α) (origins : CandidateSet α) (best : Best α) :
    Option (Path α) := do
  let last ← network.node? best.node
  let label ← labels.get? best.node
  pathAlong origins (edgesTo labels network.nodeCount best.node []) last label

/-- The state at the end of a search that uses the given labels again. -/
def finalState (rule : StopRule α) (labels : Labels α) (task : Task α) (origins : CandidateSet α) :
    Frontier α :=
  task.run rule (task.stepBound origins)
    (Frontier.start (labels.reset task.network.nodeCount) origins)

/-- The path of least cost from an origin to a destination candidate, if there is one, and the
labels for the next search. -/
def searchWith (rule : StopRule α) (labels : Labels α) (task : Task α) (origins : CandidateSet α) :
    Option (Path α) × Labels α :=
  let final := finalState rule labels task origins
  (final.best.bind (pathTo task.network final.labels origins), final.labels)

/-- The path of least cost from an origin to a destination candidate, if there is one, and the
labels for the next search. -/
def search (labels : Labels α) (task : Task α) (origins : CandidateSet α) :
    Option (Path α) × Labels α :=
  searchWith stopAtBest labels task origins

/-- The search as an engine that keeps its labels. -/
def engine : PathEngine α (Labels α) where
  run labels network costs origins destinations person :=
    search labels ⟨network, costs, person, destinations⟩ origins

end DoorToDoor.LeastCost
