import DoorToDoor.Proofs.Search.Step

/-!
# Tracing a path back

A label says on which edge its node was reached. This edge is one of the network and leads to the
node (`Labels.Traced`), through all steps of a search, so the edges that are traced back from a
destination form a walk: `isWalk_of_searchWith`. Costs do not matter for this, nor does the
arithmetic.
-/

namespace DoorToDoor

variable {α : Type}

/-- Every label that names an edge names one of the network that leads to its node. -/
def Labels.Traced (network : Network α) (labels : Labels α) : Prop :=
  ∀ v label e, labels.get? v = some label → label.via = some e → e ∈ network.edges ∧ e.head.id = v

namespace LeastCost

variable [Scalar α] {network : Network α}

private theorem traced_reach {f : Frontier α} (h : f.labels.Traced network) {v : NodeId}
    {label : Label α} (via : ∀ e, label.via = some e → e ∈ network.edges ∧ e.head.id = v) :
    (f.reach v label).labels.Traced network := by
  intro u l e hl he
  rw [get?_reach] at hl
  split at hl
  · next better =>
    cases hl
    exact better.2 ▸ via e he
  · exact h u l e hl he

private theorem traced_follow {task : Task α} {f : Frontier α} (h : f.labels.Traced task.network)
    {cost now : α} {e : Edge α} (he : e ∈ task.network.edges) :
    (f.follow task.costs task.person cost now e).labels.Traced task.network := by
  rw [follow_eq]
  split
  · exact traced_reach h fun e' he' ↦ by
      cases he'
      exact ⟨he, rfl⟩
  · exact h

private theorem keeps_traced (task : Task α) :
    task.Keeps fun f ↦ f.labels.Traced task.network where
  pass _ _ _ h _ := h
  settle _ _ _ h _ := h
  follow _ _ _ _ he h := traced_follow h he

/-- At the end of a search, labels name edges that lead to their nodes. -/
theorem traced_finalState (rule : StopRule α) (labels : Labels α) (task : Task α)
    (origins : CandidateSet α) :
    (finalState rule labels task origins).labels.Traced task.network := by
  rw [finalState, Labels.reset_eq_blank]
  refine (keeps_traced task).run _ (Frontier.start_keeps
    (P := fun f ↦ f.labels.Traced task.network) (fun v label e h ↦ ?_) ?_)
  · rw [Labels.get?_blank] at h
    cases h
  · exact fun f c _ hf ↦ traced_reach hf fun e he ↦ nomatch he

omit [Scalar α] in
private theorem exists_isWalk_edgesTo {labels : Labels α} (h : labels.Traced network) (bound : Nat)
    {v b : NodeId} {rest : List (Edge α)} (hrest : network.IsWalk v rest b) :
    ∃ a, network.IsWalk a (edgesTo labels bound v rest) b := by
  induction bound generalizing v rest with
  | zero => exact ⟨v, hrest⟩
  | succ bound ih =>
    rw [edgesTo]
    split
    · exact ⟨v, hrest⟩
    · next e he =>
      obtain ⟨label, hlabel, hvia⟩ := Option.bind_eq_some_iff.mp he
      obtain ⟨hmem, hhead⟩ := h v label e hlabel hvia
      exact ih ⟨hmem, rfl, hhead ▸ hrest⟩

omit [Scalar α] in
/-- Tracing back from a node reads only on which edges nodes were reached, and no other nodes than
those that tracing comes to. -/
theorem edgesTo_congr {labels labels' : Labels α} {P : NodeId → Prop}
    (traced : ∀ v label e, labels.get? v = some label → label.via = some e → P e.tail.id)
    (same : ∀ v, P v → (labels'.get? v).bind (·.via) = (labels.get? v).bind (·.via)) (bound : Nat)
    {v : NodeId} (hv : P v) (rest : List (Edge α)) :
    edgesTo labels' bound v rest = edgesTo labels bound v rest := by
  induction bound generalizing v rest with
  | zero => rfl
  | succ bound ih =>
    rw [edgesTo, edgesTo, same v hv]
    cases hvia : (labels.get? v).bind (·.via) with
    | none => rfl
    | some e =>
      obtain ⟨label, hlabel, he⟩ := Option.bind_eq_some_iff.mp hvia
      exact ih (traced v label e hlabel he) (e :: rest)

/-- The path to a node depends only on the labels that tracing back comes to, and on what the
origins are. -/
theorem pathTo_congr {labels labels' : Labels α} {origins origins' : CandidateSet α}
    {P : NodeId → Prop}
    (traced : ∀ v label e, labels.get? v = some label → label.via = some e → P e.tail.id)
    (same : ∀ v, P v → labels'.get? v = labels.get? v)
    (sources : ∀ v, origins'.get? v = origins.get? v) {best : Best α} (hbest : P best.node) :
    pathTo network labels' origins' best = pathTo network labels origins best := by
  have hedges := edgesTo_congr traced (fun v hv ↦ congrArg (·.bind (·.via)) (same v hv))
    network.nodeCount hbest []
  simp only [pathTo, pathAlong, hedges, same _ hbest, sources]

/-- What the path to the best destination consists of. -/
theorem pathTo_eq_some {labels : Labels α} {origins : CandidateSet α} {best : Best α}
    {path : Path α} (h : pathTo network labels origins best = some path) :
    ∃ label origin, network.node? best.node = some path.last ∧
      labels.get? best.node = some label ∧ origins.get? path.first.id = some origin ∧
      path.edges = edgesTo labels network.nodeCount best.node [] ∧
      path.nodes = path.edges.map (·.tail) ++ [path.last] ∧
      path.travelCost = label.cost - origin.cost ∧ path.travelTime = label.time - origin.time := by
  simp only [pathTo, Option.bind_eq_bind, Option.bind_eq_some_iff, pathAlong,
    Option.map_eq_some_iff] at h
  obtain ⟨last, hlast, label, hlabel, origin, horigin, rfl⟩ := h
  refine ⟨label, origin, ?_, hlabel, horigin, rfl, ?_, rfl, rfl⟩
  · simpa [Path.last] using hlast
  · simp [Path.last]

omit [Scalar α] in
/-- A walk starts at the tail of its first edge, or at its end when it has no edges. -/
theorem head_id_of_isWalk {es : List (Edge α)} {last : Node α} {a : NodeId}
    (h : network.IsWalk a es last.id) :
    ((es.map (·.tail) ++ [last]).head (by simp)).id = a := by
  cases es with
  | nil => exact h.1.symm
  | cons e rest => exact h.2.1

/-- The path that a search finds is a walk through its nodes, whatever edges cost. -/
theorem isWalk_of_searchWith {rule : StopRule α} {labels : Labels α} {task : Task α}
    {origins : CandidateSet α} (wf : task.network.WellFormed) {path : Path α}
    (found : (searchWith rule labels task origins).1 = some path) :
    task.network.IsWalk path.first.id path.edges path.last.id ∧
      path.nodes = path.edges.map (·.tail) ++ [path.last] ∧
      task.network.node? path.last.id = some path.last := by
  obtain ⟨best, -, hpath⟩ := Option.bind_eq_some_iff.mp found
  obtain ⟨label, origin, hlast, -, -, hedges, hnodes, -, -⟩ := pathTo_eq_some hpath
  have hid := wf.id_eq_of_node? hlast
  have hin : best.node.index < task.network.nodeCount := (Array.getElem?_eq_some_iff.mp hlast).1
  have hend : task.network.IsWalk best.node [] best.node := ⟨rfl, hin⟩
  obtain ⟨a, ha⟩ := exists_isWalk_edgesTo (traced_finalState rule labels task origins)
    task.network.nodeCount hend
  rw [← hedges, ← hid] at ha
  have hfirst : path.first.id = a := by
    rw [← head_id_of_isWalk ha]
    simp only [Path.first, hnodes]
  rw [hfirst]
  exact ⟨ha, hnodes, hid ▸ hlast⟩

end LeastCost

end DoorToDoor
