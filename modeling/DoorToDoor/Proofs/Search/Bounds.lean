import DoorToDoor.Proofs.Search.Trace

/-!
# The bounds of a search

Whatever the scalars are and whatever edges cost, a search that starts at nodes of the network looks
up labels of nodes of the network only (`inside_run`), and the path that it finds leads from an
origin to a destination through nodes and along edges of the network (`exists_ends_of_searchWith`).
-/

namespace DoorToDoor.LeastCost

variable {α : Type} [Scalar α] {task : Task α} {origins : CandidateSet α} {f : Frontier α}

/-- There is a label slot for each node, nodes of the network wait in the queue, and the best
destination is a destination at a node of the network. -/
structure Inside (task : Task α) (f : Frontier α) : Prop where
  whole : f.queue.isWhole = true
  size_slots : f.labels.slots.size = task.network.nodeCount
  waiting : ∀ x ∈ f.queue.toList, x.node.index < task.network.nodeCount
  best : ∀ b, f.best = some b → b.node.index < task.network.nodeCount ∧
    ∃ c, task.destinations.get? b.node = some c

namespace Inside

/-- Reaching a node of the network stays inside. -/
theorem reach (h : Inside task f) {v : NodeId} (hv : v.index < task.network.nodeCount)
    (label : Label α) : Inside task (f.reach v label) := by
  unfold Frontier.reach
  split
  · constructor
    case whole => exact Heap.isWhole_push Entry.before h.whole _
    case size_slots => rw [Labels.size_slots_set, h.size_slots]
    case waiting =>
      intro x hx
      rw [(Heap.perm_push Entry.before h.whole _).mem_iff, List.mem_cons] at hx
      rcases hx with rfl | hx
      · exact hv
      · exact h.waiting x hx
    case best => exact h.best
  · exact h

private theorem mem_of_pop? (h : Inside task f) {entry : Entry α} {queue : Heap (Entry α)}
    (hpop : f.queue.pop? Entry.before = some (entry, queue)) :
    queue.isWhole = true ∧ ∀ x ∈ entry :: queue.toList, x.node.index < task.network.nodeCount :=
  ⟨Heap.isWhole_pop? Entry.before hpop, fun x hx ↦
    h.waiting x ((Heap.perm_pop? Entry.before h.whole hpop).mem_iff.mp hx)⟩

end Inside

/-- A search stays inside the network. -/
theorem keeps_inside (wf : task.network.WellFormed) : task.Keeps (Inside task) where
  pass f entry queue h hpop := by
    obtain ⟨hwhole, hinside⟩ := h.mem_of_pop? hpop
    exact { h with whole := hwhole, waiting := (List.forall_mem_cons.mp hinside).2 }
  settle f entry queue h hpop := by
    obtain ⟨hwhole, hinside⟩ := h.mem_of_pop? hpop
    obtain ⟨hentry, hrest⟩ := List.forall_mem_cons.mp hinside
    refine ⟨hwhole, h.size_slots, hrest, fun b hb ↦ ?_⟩
    rcases bestWith_eq_some hb with hb | ⟨c, hc, rfl⟩
    · exact h.best b hb
    · exact ⟨hentry, c, hc⟩
  follow f cost now e he h := by
    rw [follow_eq]
    split
    · exact h.reach (wf.head_lt he) _
    · exact h

/-- After any number of steps a search from nodes of the network is inside the network. -/
theorem inside_run (wf : task.network.WellFormed) (rule : StopRule α) (labels : Labels α)
    (within : ∀ c ∈ origins.toList, c.node.index < task.network.nodeCount) (steps : Nat) :
    Inside task (task.run rule steps
      (Frontier.start (labels.reset task.network.nodeCount) origins)) := by
  rw [Labels.reset_eq_blank]
  refine (keeps_inside wf).run steps (Frontier.start_keeps ?_ ?_)
  · exact ⟨rfl, Array.size_replicate, fun x hx ↦ absurd hx List.not_mem_nil, fun b hb ↦ nomatch hb⟩
  · exact fun f c hc hf ↦ hf.reach (within c hc) _

/-- The path that a search finds leads from an origin to a destination. -/
theorem exists_ends_of_searchWith {rule : StopRule α} {labels : Labels α}
    (wf : task.network.WellFormed)
    (within : ∀ c ∈ origins.toList, c.node.index < task.network.nodeCount) {path : Path α}
    (found : (searchWith rule labels task origins).1 = some path) :
    ∃ origin destination, origins.get? path.first.id = some origin ∧
      task.destinations.get? path.last.id = some destination := by
  obtain ⟨best, hbest, hpath⟩ := Option.bind_eq_some_iff.mp found
  obtain ⟨-, origin, hlast, -, horigin, -⟩ := pathTo_eq_some hpath
  obtain ⟨-, destination, hdestination⟩ := (inside_run wf rule labels within _).best best hbest
  have hid : path.last.id = best.node := wf.id_eq_of_node? hlast
  exact ⟨origin, destination, horigin, hid ▸ hdestination⟩

/-- A search that looks up nodes and edges of its network only, at each of its steps and along the
path that it finds. -/
structure Bounded (labels : Labels α) (task : Task α) (origins : CandidateSet α) : Prop where
  departs : ∀ c ∈ origins.toList, c.node.index < task.network.nodeCount
  inside : ∀ steps, Inside task (task.run stopAtBest steps
    (Frontier.start (labels.reset task.network.nodeCount) origins))
  path : ∀ path, (search labels task origins).1 = some path →
    (∀ node ∈ path.nodes, node ∈ task.network.nodes) ∧ ∀ e ∈ path.edges, e ∈ task.network.edges

/-- Searches from nodes of the network are bounded. -/
theorem bounded_of_within (wf : task.network.WellFormed) (labels : Labels α)
    (within : ∀ c ∈ origins.toList, c.node.index < task.network.nodeCount) :
    Bounded labels task origins where
  departs := within
  inside := inside_run wf stopAtBest labels within
  path path found := by
    obtain ⟨walk, hnodes, hlast⟩ := isWalk_of_searchWith wf found
    have hedges := walk.mem_edges
    refine ⟨fun node hnode ↦ ?_, hedges⟩
    rw [hnodes, List.mem_append, List.mem_map, List.mem_singleton] at hnode
    rcases hnode with ⟨e, he, rfl⟩ | rfl
    · exact Array.mem_of_getElem? (wf.node?_tail e (hedges e he))
    · exact Array.mem_of_getElem? hlast

end DoorToDoor.LeastCost
