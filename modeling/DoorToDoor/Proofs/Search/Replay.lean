import DoorToDoor.Proofs.Search.Progress
import DoorToDoor.Proofs.Search.Trace

/-!
# Walks on their own clock

A walk can be replayed from an origin edge by edge, each edge entered when the walk comes to it and
charged what it costs then (`CostModel.along`). A label is worth what it says: the walk that is
traced back from an expanded node can be used from the origin at which it starts and comes to the
node at the cost and the time of its label (`Explored.exists_retraces`). It leaves nodes that were
expanded one after the other, so it leaves none of them twice.
-/

namespace DoorToDoor

variable {α : Type}

/-- At what cost and at what time a traveller comes to a node. -/
structure Arrival (α : Type) where
  cost : α
  time : α

/-- How a traveller comes to the node of a candidate. -/
def Candidate.arrival (c : Candidate α) : Arrival α := ⟨c.cost, c.time⟩

/-- How a traveller comes to the node of a label. -/
def Label.arrival (l : Label α) : Arrival α := ⟨l.cost, l.time⟩

namespace CostModel

variable [Scalar α] (costs : CostModel α) (person : Person)

/-- How a traveller comes to the head of an edge whose tail was come to. -/
def onward (a : Arrival α) (e : Edge α) : Arrival α :=
  ⟨a.cost + costs.disutility person e a.time, a.time + costs.travelTime person e a.time⟩

/-- How a traveller comes to the end of a walk, by the clock that runs along it. -/
def along (a : Arrival α) (es : List (Edge α)) : Arrival α := es.foldl (costs.onward person) a

/-- No edges lead nowhere. -/
@[simp] theorem along_nil (a : Arrival α) : costs.along person a [] = a := rfl

/-- The first edge is entered first. -/
@[simp] theorem along_cons (a : Arrival α) (e : Edge α) (es : List (Edge α)) :
    costs.along person a (e :: es) = costs.along person (costs.onward person a e) es := rfl

/-- The clock runs on from one walk to the next. -/
@[simp] theorem along_append (a : Arrival α) (es es' : List (Edge α)) :
    costs.along person a (es ++ es') = costs.along person (costs.along person a es) es' :=
  List.foldl_append

end CostModel

namespace LeastCost

variable [Scalar α]

/-- Whether each edge of a walk can be used when it is entered by the clock that runs along it. -/
def Task.CanFollow (task : Task α) (a : Arrival α) : List (Edge α) → Prop
  | [] => True
  | e :: rest => Scalar.isFinite (task.charge e a.time) = true ∧
    task.CanFollow (task.costs.onward task.person a e) rest

private theorem Task.canFollow_append (task : Task α) (a : Arrival α) (es es' : List (Edge α)) :
    task.CanFollow a (es ++ es') ↔
      task.CanFollow a es ∧ task.CanFollow (task.costs.along task.person a es) es' := by
  induction es generalizing a with
  | nil => exact ⟨fun h ↦ ⟨trivial, h⟩, fun h ↦ h.2⟩
  | cons e rest ih =>
    rw [List.cons_append, CanFollow, CanFollow, ih, CostModel.along_cons, and_assoc]

/-- A walk that is traced back from a node to an origin, through nodes that were expanded earlier:
it can be followed, it comes to the node as the label says, and it leaves nodes that were expanded
one after the other. -/
structure Task.Retraces (task : Task α) (origin : Candidate α) (earlier : List NodeId)
    (v : NodeId) (label : Label α) (way : List (Edge α)) : Prop where
  walk : task.network.IsWalk origin.node way v
  followed : task.CanFollow origin.arrival way
  replay : task.costs.along task.person origin.arrival way = label.arrival
  in_turn : (way.map (·.tail.id)).reverse.Sublist earlier

variable {task : Task α} {origins : CandidateSet α} {done : List NodeId}
  {f : Frontier α}

/-- What holds of an arrival and is kept by every edge holds at the end of every walk. -/
theorem along_keeps {P : Arrival α → Prop}
    (keeps : ∀ e ∈ task.network.edges, ∀ a, P a → P (task.costs.onward task.person a e))
    {es : List (Edge α)} (mem : ∀ e ∈ es, e ∈ task.network.edges) {a : Arrival α}
    (h : P a) : P (task.costs.along task.person a es) :=
  List.foldlRecOn es _ h fun a ha e he ↦ keeps e (mem e he) a ha

namespace Explored

private theorem length_done_le (h : Explored task origins done f) :
    done.length ≤ task.network.nodeCount :=
  Network.length_le_nodeCount h.distinct h.inside

/-- Tracing back from an expanded node ends at an origin, within as many edges as nodes were
expanded before it. -/
theorem exists_retraces_of_suffix (h : Explored task origins done f) (bound : Nat) {v : NodeId}
    {earlier : List NodeId} (hsuffix : v :: earlier <:+ done) (hbound : earlier.length ≤ bound)
    {label : Label α} (hlabel : f.labels.get? v = some label) :
    ∃ c ∈ origins.toList, ∃ way, task.Retraces c earlier v label way ∧
      ∀ rest, edgesTo f.labels bound v rest = way ++ rest := by
  have hinside := h.inside v (hsuffix.subset List.mem_cons_self)
  induction bound generalizing v earlier label with
  | zero =>
    obtain rfl : earlier = [] := List.eq_nil_of_length_eq_zero (Nat.le_zero.mp hbound)
    cases h.rooted v [] hsuffix label hlabel with
    | @origin v c hc =>
      obtain ⟨hmem, hnode⟩ := (origins.get?_eq_some_iff v c).mp hc
      exact ⟨c, hmem, [], ⟨⟨hnode, hnode ▸ hinside⟩, trivial, rfl, List.Sublist.refl _⟩,
        fun _ ↦ rfl⟩
    | edge mem tail => cases tail
  | succ bound ih =>
    have hedges : ∀ rest, edgesTo f.labels (bound + 1) v rest =
        label.via.elim rest fun e ↦ edgesTo f.labels bound e.tail.id (e :: rest) := by
      intro rest
      cases hvia : label.via with
      | none => simp only [edgesTo, hlabel, Option.bind_some, hvia, Option.elim_none]
      | some e => simp only [edgesTo, hlabel, Option.bind_some, hvia, Option.elim_some]
    cases h.rooted v earlier hsuffix label hlabel with
    | @origin v c hc =>
      obtain ⟨hmem, hnode⟩ := (origins.get?_eq_some_iff v c).mp hc
      exact ⟨c, hmem, [], ⟨⟨hnode, hnode ▸ hinside⟩, trivial, rfl, List.nil_sublist _⟩, hedges⟩
    | @edge e l mem tail hl usable =>
      obtain ⟨later, earlier', rfl⟩ := List.append_of_mem tail
      have hlength : earlier'.length ≤ bound := by
        rw [List.length_append, List.length_cons] at hbound
        omega
      have hsuffix' : e.tail.id :: earlier' <:+ done :=
        (List.suffix_append _ _).trans ((List.suffix_cons _ _).trans hsuffix)
      obtain ⟨c, hc, way, hway, htrace⟩ := ih hsuffix' hlength hl
        (h.inside _ (hsuffix'.subset List.mem_cons_self))
      have hreplay := hway.replay
      refine ⟨c, hc, way ++ [e], ⟨?_, ?_, ?_, ?_⟩, fun rest ↦ ?_⟩
      · exact hway.walk.append ⟨mem, rfl, rfl, hinside⟩
      · rw [Task.canFollow_append, hreplay]
        exact ⟨hway.followed, usable, trivial⟩
      · rw [CostModel.along_append, hreplay]
        rfl
      · rw [List.map_append, List.reverse_append]
        exact (hway.in_turn.cons_cons _).trans (List.sublist_append_right _ _)
      · rw [hedges rest, List.append_assoc]
        exact htrace (e :: rest)

/-- Tracing back from an expanded node leads to an origin. -/
theorem exists_retraces (h : Explored task origins done f) {v : NodeId} (hv : v ∈ done)
    {label : Label α} (hlabel : f.labels.get? v = some label) :
    ∃ c ∈ origins.toList, ∃ earlier way, v :: earlier <:+ done ∧
      task.Retraces c earlier v label way ∧
      edgesTo f.labels task.network.nodeCount v [] = way := by
  obtain ⟨later, earlier, hsplit⟩ := List.append_of_mem hv
  have hbound : earlier.length ≤ task.network.nodeCount := by
    have hle := h.length_done_le
    rw [hsplit, List.length_append, List.length_cons] at hle
    omega
  have hsuffix : v :: earlier <:+ done := hsplit ▸ List.suffix_append _ _
  obtain ⟨c, hc, way, hway, htrace⟩ :=
    h.exists_retraces_of_suffix task.network.nodeCount hsuffix hbound hlabel
  exact ⟨c, hc, earlier, way, hsuffix, hway, by rw [htrace, List.append_nil]⟩

/-- A walk that is traced back from an expanded node comes to no node twice. -/
theorem nodup_of_retraces (h : Explored task origins done f) {c : Candidate α} {v : NodeId}
    {earlier : List NodeId} {label : Label α} {way : List (Edge α)}
    (hsuffix : v :: earlier <:+ done) (hway : task.Retraces c earlier v label way) :
    (way.map (·.tail.id) ++ [v]).Nodup := by
  rw [← List.nodup_reverse, List.reverse_append]
  exact h.distinct.sublist ((hway.in_turn.cons_cons v).trans hsuffix.sublist)

/-- Tracing back from an expanded node leads to an origin, and replaying the walk gives the label of
the node. -/
theorem exists_replay (h : Explored task origins done f) {v : NodeId} (hv : v ∈ done)
    {label : Label α} (hlabel : f.labels.get? v = some label) :
    ∃ c ∈ origins.toList, ∃ way, task.network.IsWalk c.node way v ∧
      task.costs.along task.person c.arrival way = label.arrival ∧
      edgesTo f.labels task.network.nodeCount v [] = way := by
  obtain ⟨c, hc, earlier, way, -, hway, htrace⟩ := h.exists_retraces hv hlabel
  exact ⟨c, hc, way, hway.walk, hway.replay, htrace⟩

end Explored

/-- A path that a search finds ends at the best destination of the state in which the search has
ended. Its edges are traced back from its last node to the candidate at its first node, and the path
says what they cost and take together. -/
theorem exists_retraces_of_search [MonotoneScalar α] (wf : task.network.WellFormed)
    (noRefunds : task.NoRefundsFrom origins) {labels : Labels α} {path : Path α}
    (found : (search labels task origins).1 = some path) :
    let final := finalState stopAtBest labels task origins
    ∃ done best o d earlier label, Explored task origins done final ∧
      task.step? stopAtBest final = none ∧ final.best = some best ∧
      origins.get? path.first.id = some o ∧ task.destinations.get? path.last.id = some d ∧
      d.node :: earlier <:+ done ∧ final.labels.get? d.node = some label ∧
      task.Retraces o earlier d.node label path.edges ∧ path.travelCost = label.cost - o.cost ∧
      path.travelTime = label.time - o.time ∧ best.total = label.cost + d.cost := by
  obtain ⟨done, hexplored, hended⟩ := explored_finalState stopAtBest labels wf noRefunds
  obtain ⟨best, hbest, hpath⟩ := Option.bind_eq_some_iff.mp found
  obtain ⟨label, o, hlast, hlabel, ho, hedges, hnodes, hcost, htime⟩ := pathTo_eq_some hpath
  obtain ⟨hdone, label', d, hlabel', hd, htotal⟩ := hexplored.best_eq best hbest
  cases hlabel.symm.trans hlabel'
  obtain ⟨o', ho', earlier, way, hsuffix, hway, htrace⟩ := hexplored.exists_retraces hdone hlabel
  obtain rfl : path.edges = way := hedges.trans htrace
  have hid : path.last.id = best.node := wf.id_eq_of_node? hlast
  -- The traced walk and the path start at one origin.
  have hfirst : path.first.id = o'.node := by
    have hwalk := hway.walk
    rw [← hid] at hwalk
    rw [← head_id_of_isWalk hwalk]
    simp only [Path.first, hnodes]
  obtain rfl : o' = o := by
    have hget := (origins.get?_eq_some_iff o'.node o').mpr ⟨ho', rfl⟩
    rw [← hfirst, ho] at hget
    exact (Option.some.inj hget).symm
  obtain ⟨-, hdnode⟩ := (task.destinations.get?_eq_some_iff best.node d).mp hd
  rw [← hdnode] at hway hlabel hsuffix
  exact ⟨done, best, o', d, earlier, label, hexplored, hended, hbest, ho, hid ▸ hd, hsuffix, hlabel,
    hway, hcost, htime, htotal⟩

/-- A path that a search finds ends at the best destination of the state in which the search has
ended. Its walk, replayed from the candidate at its first node, comes to its last node as the label
of this node says, and the path says what it costs and takes between the two. -/
theorem exists_best_of_search [MonotoneScalar α] (wf : task.network.WellFormed)
    (noRefunds : task.NoRefundsFrom origins) {labels : Labels α} {path : Path α}
    (found : (search labels task origins).1 = some path) :
    let final := finalState stopAtBest labels task origins
    ∃ done best o d label, Explored task origins done final ∧
      task.step? stopAtBest final = none ∧ final.best = some best ∧
      origins.get? path.first.id = some o ∧ task.destinations.get? path.last.id = some d ∧
      task.network.IsWalk o.node path.edges d.node ∧
      task.costs.along task.person o.arrival path.edges = label.arrival ∧
      final.labels.get? d.node = some label ∧ path.travelCost = label.cost - o.cost ∧
      path.travelTime = label.time - o.time ∧ best.total = label.cost + d.cost := by
  obtain ⟨done, best, o, d, earlier, label, hexplored, hended, hbest, ho, hd, -, hlabel, hway,
    hcost, htime, htotal⟩ := exists_retraces_of_search wf noRefunds found
  exact ⟨done, best, o, d, label, hexplored, hended, hbest, ho, hd, hway.walk, hway.replay, hlabel,
    hcost, htime, htotal⟩

end LeastCost

end DoorToDoor
