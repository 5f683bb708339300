import DoorToDoor.Proofs.Search.Optimality

/-!
# Paths that are found

A path that a search finds is what it says: its edges join its nodes one after the other
(`joined_of_searchWith`, whatever edges cost), it comes to no node twice, and replaying it from the
origin at its first node meets only edges that can be used and takes what the path says:
`replays_of_search`. Labels are overwritten while the search runs, but not those of expanded nodes,
and the path is traced back through expanded nodes only.
-/

namespace DoorToDoor

variable {α : Type}

/-- Whether the edges of a path are edges of the network and join its nodes one after the other. -/
structure Path.Joined (network : Network α) (p : Path α) : Prop where
  length_nodes : p.nodes.length = p.edges.length + 1
  mem_edges : ∀ e ∈ p.edges, e ∈ network.edges
  joins : ∀ (i : Nat) (e : Edge α), p.edges[i]? = some e →
    p.nodes[i]? = some e.tail ∧ p.nodes[i + 1]? = some e.head

namespace LeastCost

private theorem head_of_isWalk {network : Network α} (wf : network.WellFormed) {last : Node α}
    (found : network.node? last.id = some last) {es : List (Edge α)} {a : NodeId}
    (walk : network.IsWalk a es last.id) {i : Nat} {e : Edge α} (he : es[i]? = some e) :
    (es.map (·.tail) ++ [last])[i + 1]? = some e.head := by
  induction es generalizing a i with
  | nil => cases he
  | cons first rest ih =>
    obtain ⟨hmem, -, hrest⟩ := walk
    rw [List.map_cons, List.cons_append, List.getElem?_cons_succ]
    cases i with
    | succ i => exact ih hrest he
    | zero =>
      obtain rfl : first = e := Option.some.inj he
      have hhead := wf.node?_head first hmem
      cases rest with
      | nil =>
        obtain ⟨hid, -⟩ := hrest
        rw [hid, found] at hhead
        exact hhead
      | cons next others =>
        obtain ⟨hnext, hid, -⟩ := hrest
        rw [← hid, wf.node?_tail next hnext] at hhead
        exact hhead

/-- The path that a search finds joins its nodes, whatever edges cost. -/
theorem joined_of_searchWith [Scalar α] {rule : StopRule α} {labels : Labels α} {task : Task α}
    {origins : CandidateSet α} (wf : task.network.WellFormed) {path : Path α}
    (found : (searchWith rule labels task origins).1 = some path) :
    path.Joined task.network := by
  obtain ⟨walk, hnodes, hlast⟩ := isWalk_of_searchWith wf found
  constructor
  case length_nodes => rw [hnodes, List.length_append, List.length_map, List.length_singleton]
  case mem_edges => exact walk.mem_edges
  case joins =>
    intro i e he
    rw [hnodes]
    refine ⟨?_, head_of_isWalk wf hlast walk he⟩
    have hlt := (List.getElem?_eq_some_iff.mp he).1
    rw [List.getElem?_append_left (by rwa [List.length_map]), List.getElem?_map, he,
      Option.map_some]

variable {task : Task EReal} {origins : CandidateSet EReal}

/-- A path that a search finds joins its nodes and comes to none of them twice; it leads from an
origin to a destination; and replaying it from the origin, by the clock that runs along it, meets
only edges that can be used, and adds to the cost and to the time of the origin what the path says
that it costs and takes. -/
theorem replays_of_search (labels : Labels EReal) (wf : task.network.WellFormed)
    (nonNegative : task.NonNegative)
    (originsFinite : ∀ s ∈ origins.toList, Scalar.isFinite s.cost = true) {path : Path EReal}
    (found : (search labels task origins).1 = some path) :
    path.Joined task.network ∧ (path.nodes.map (·.id)).Nodup ∧
      ∃ o d, origins.get? path.first.id = some o ∧
        task.destinations.get? path.last.id = some d ∧ task.CanFollow o.arrival path.edges ∧
        (task.costs.along task.person o.arrival path.edges).cost = o.cost + path.travelCost ∧
        (task.costs.along task.person o.arrival path.edges).cost - o.cost = path.travelCost ∧
        (task.costs.along task.person o.arrival path.edges).time - o.time = path.travelTime ∧
        (Scalar.isFinite o.time = true →
          (task.costs.along task.person o.arrival path.edges).time = o.time + path.travelTime) := by
  obtain ⟨done, best, o, d, earlier, label, hexplored, -, -, ho, hd, hsuffix, -, hway, hcost,
    htime, -⟩ := exists_retraces_of_search wf (nonNegative.noRefundsFrom origins) found
  obtain ⟨-, hnodes, -⟩ := isWalk_of_searchWith wf found
  have hlast : path.last.id = d.node := ((task.destinations.get?_eq_some_iff _ d).mp hd).2.symm
  have hids : path.nodes.map (·.id) = path.edges.map (·.tail.id) ++ [d.node] := by
    rw [hnodes, List.map_append, List.map_map, List.map_singleton, hlast]
    rfl
  have hfinite := originsFinite o ((origins.get?_eq_some_iff _ o).mp ho).1
  refine ⟨joined_of_searchWith wf found, hids ▸ hexplored.nodup_of_retraces hsuffix hway, o, d, ho,
    hd, hway.followed, ?_⟩
  rw [hway.replay, hcost, htime, Scalar.add_sub_cancel_of_isFinite hfinite]
  exact ⟨rfl, rfl, rfl, fun hclock ↦ (Scalar.add_sub_cancel_of_isFinite hclock _).symm⟩

open Detour in
/-- The path from the node 0 to the node 2 can be replayed. -/
theorem replays_of_search_detour : ∃ path,
    (search .empty (detourTask (detourEnd ⟨2⟩)) detourOrigins).1 = some path ∧
    path.Joined detourNetwork ∧ (path.nodes.map (·.id)).Nodup ∧
      ∃ o d, detourOrigins.get? path.first.id = some o ∧
        (detourEnd ⟨2⟩).get? path.last.id = some d ∧
        (detourTask (detourEnd ⟨2⟩)).CanFollow o.arrival path.edges ∧
        ((detourTask (detourEnd ⟨2⟩)).costs.along ⟨⟨0⟩⟩ o.arrival path.edges).cost =
          o.cost + path.travelCost := by
  obtain ⟨path, found⟩ := exists_path isWalk_detour
  obtain ⟨hjoined, hnodup, o, d, ho, hd, hfollow, hcost, -⟩ :=
    replays_of_search .empty wellFormed (static_detour _).nonNegative isFinite_origins found
  exact ⟨path, found, hjoined, hnodup, o, d, ho, hd, hfollow, hcost⟩

end LeastCost

end DoorToDoor
