import DoorToDoor.Proofs.Itinerary.Walks
import DoorToDoor.Proofs.Network.Nearby
import DoorToDoor.Proofs.Planning

/-!
# When a planner fails

A planner for the network of a timetable fails when the network has no nodes, or when a leg between
an end of the journey and a node around it has a mode without a price; the first such mode is
reported. In all other cases it answers, with a journey or without one: `outcome_of_plan`. This
holds of all scalars, also of rounded ones. Everything that the planner looks up on its way is there
(`Network.Grounded`, `Planner.Bounded`), and accepted settings have a price for each of their modes.
-/

namespace DoorToDoor

variable {α : Type} [Scalar α]

/-- Whether a leg of a mode has a price: the mode is on foot or has utilities of its own. -/
def Parameters.prices (p : Parameters α) (mode : Mode) : Bool :=
  mode.isOnFoot || (p.utilityOf? mode).isSome

/-- The first of some modes that has no price. -/
def Parameters.unpriced? (p : Parameters α) (modes : List Mode) : Option Mode :=
  modes.find? fun mode ↦ !p.prices mode

namespace AccessByDistance

/-- Taking modes leaves those that are taken, or the former ones when none are. -/
theorem mem_modes_withModes {m : AccessByDistance α} {modes : List (AccessMode α)}
    {a : AccessMode α} (h : a ∈ (m.withModes modes).modes) : a ∈ modes ∨ a ∈ m.modes := by
  unfold withModes at h
  split at h
  · exact .inr h
  · exact .inl ((List.mergeSort_perm _ _).mem_iff.mp h)

/-- Every leg has a mode of the access. -/
theorem exists_mode_leg (m : AccessByDistance α) (start finish : Point α) (time : α)
    (surcharged : Bool) : ∃ a ∈ m.modes, (m.leg start finish time surcharged).mode = a.mode := by
  refine ⟨m.modeFor (start.distance finish), ?_, rfl⟩
  unfold modeFor
  cases hfound : m.modes.find? fun a ↦ a.limit.covers (start.distance finish) with
  | none => exact List.getLast_mem m.modes_ne
  | some a => exact List.mem_of_find?_eq_some hfound

/-- Every leg has a price if the modes of the access do. -/
theorem prices_leg {m : AccessByDistance α} {p : Parameters α}
    (priced : ∀ a ∈ m.modes, p.prices a.mode = true) (start finish : Point α) (time : α)
    (surcharged : Bool) : p.prices (m.leg start finish time surcharged).mode = true := by
  obtain ⟨a, ha, hmode⟩ := m.exists_mode_leg start finish time surcharged
  rw [hmode, priced a ha]

end AccessByDistance

namespace Settings

private theorem prices_of_accessModeFault {p : Parameters α} {a : AccessMode α}
    (h : accessModeFault p a = none) : p.prices a.mode = true := by
  unfold accessModeFault at h
  split at h
  · cases h
  · next priced =>
    rw [not_not] at priced
    rw [Parameters.prices, Bool.or_eq_true]
    exact priced

/-- Accepted settings have a price for each mode of their access. -/
theorem prices_of_validate {s : Settings α} (valid : s.validate = .ok ()) :
    ∀ a ∈ s.access.modes, s.parameters.prices a.mode = true := by
  intro a ha
  obtain ⟨-, -, -, -, haccess⟩ := validate_eq_ok.mp valid
  rcases AccessByDistance.mem_modes_withModes ha with ha | ha
  · exact prices_of_accessModeFault (haccess a ha)
  · rw [List.mem_singleton.mp ha]
    rfl

end Settings

namespace Routing

variable {access : AccessModel α} {p : Parameters α} {person : Person} {point : Point α} {time : α}
  {surcharged : Bool}

/-- A leg has a cost if its mode has a price. -/
theorem exists_legCost {leg : Leg α} (h : p.prices leg.mode = true) :
    ∃ cost, Access.legCost p leg = .ok cost := by
  unfold Access.legCost
  cases hfoot : leg.mode.isOnFoot with
  | true => exact ⟨_, rfl⟩
  | false =>
    obtain ⟨u, hu⟩ : ∃ u, p.utilityOf? leg.mode = some u := by
      simpa [Parameters.prices, hfoot, Option.isSome_iff_exists] using h
    exact ⟨_, by rw [hu]; rfl⟩

private theorem legCost_eq_error {leg : Leg α} (h : p.prices leg.mode = false) :
    Access.legCost p leg = .error (.unpricedMode leg.mode) := by
  rw [Parameters.prices, Bool.or_eq_false_iff, Option.isSome_eq_false_iff,
    Option.isNone_iff_eq_none] at h
  unfold Access.legCost
  rw [h.1, h.2]
  rfl

/-- The modes of the legs from a point to nodes, in the order of the nodes. -/
def legModes (access : AccessModel α) (person : Person) (point : Point α) (time : α)
    (surcharged : Bool) (nodes : List (Node α)) : List Mode :=
  nodes.map fun node ↦ (access.leg person point node.coord time surcharged).mode

/-- If the modes of an access have a price, so have the legs from a point to any nodes. -/
theorem unpriced?_legModes_of_prices {m : AccessByDistance α}
    (priced : ∀ a ∈ m.modes, p.prices a.mode = true) (person : Person) (point : Point α) (time : α)
    (surcharged : Bool) (nodes : List (Node α)) :
    p.unpriced? (legModes m.model person point time surcharged nodes) = none := by
  rw [Parameters.unpriced?, List.find?_eq_none]
  intro mode hmode
  obtain ⟨node, -, rfl⟩ := List.mem_map.mp hmode
  change ¬(!p.prices (m.leg point node.coord time surcharged).mode) = true
  rw [AccessByDistance.prices_leg priced]
  exact Bool.false_ne_true

/-- Accepted settings have a price for the legs from a point to any nodes. -/
theorem unpriced?_legModes_of_validate {s : Settings α} (valid : s.validate = .ok ())
    (person : Person) (point : Point α) (time : α) (surcharged : Bool) (nodes : List (Node α)) :
    s.parameters.unpriced? (legModes s.access.model person point time surcharged nodes) = none :=
  unpriced?_legModes_of_prices (Settings.prices_of_validate valid) person point time surcharged
    nodes

omit [Scalar α] in
/-- A set has the candidate that was added last and those that it had. -/
theorem mem_toList_insert {set : CandidateSet α} {c c' : Candidate α}
    (h : c' ∈ (set.insert c).toList) : c' = c ∨ c' ∈ set.toList := by
  have hget := (CandidateSet.get?_eq_some_iff _ c'.node c').mpr ⟨h, rfl⟩
  rw [CandidateSet.get?_insert] at hget
  split at hget
  · exact .inl (Option.some.inj hget).symm
  · exact .inr ((CandidateSet.get?_eq_some_iff _ _ _).mp hget).1

/-- A node becomes a candidate if the leg to it has a price. -/
theorem exists_addCandidate {node : Node α}
    (h : p.prices (access.leg person point node.coord time surcharged).mode = true)
    (set : CandidateSet α) :
    ∃ c, addCandidate access p person point time surcharged set node = .ok (set.insert c) := by
  obtain ⟨cost, hcost⟩ := exists_legCost h
  have hprice : Access.price access p person point node.coord time surcharged =
      .ok (access.leg person point node.coord time surcharged, cost) :=
    Result.map_eq_ok.mpr ⟨cost, hcost, rfl⟩
  exact ⟨_, Result.map_eq_ok.mpr ⟨_, hprice, rfl⟩⟩

/-- A leg without a price is reported. -/
theorem addCandidate_eq_error {node : Node α}
    (h : p.prices (access.leg person point node.coord time surcharged).mode = false)
    (set : CandidateSet α) :
    addCandidate access p person point time surcharged set node =
      .error (.unpricedMode (access.leg person point node.coord time surcharged).mode) := by
  have hprice : Access.price access p person point node.coord time surcharged =
      .error (.unpricedMode (access.leg person point node.coord time surcharged).mode) := by
    simp only [Access.price, legCost_eq_error h, Except.map]
  rw [addCandidate, hprice]
  rfl

/-- When all legs have a price, the nodes become candidates. -/
theorem exists_candidates (nodes : List (Node α)) (set : CandidateSet α)
    (priced : p.unpriced? (legModes access person point time surcharged nodes) = none) :
    ∃ set', nodes.foldlM (addCandidate access p person point time surcharged) set = .ok set' := by
  have hpriced : ∀ node ∈ nodes,
      p.prices (access.leg person point node.coord time surcharged).mode = true := by
    intro node hnode
    have hmode := List.find?_eq_none.mp priced _ (List.mem_map_of_mem hnode)
    simpa using hmode
  obtain ⟨set', hset', -⟩ := Result.exists_foldlM
    (f := addCandidate access p person point time surcharged)
    (P := fun rest _ ↦ ∀ node ∈ rest,
      p.prices (access.leg person point node.coord time surcharged).mode = true)
    (by
      intro node rest set hrest
      obtain ⟨hnode, hrest⟩ := List.forall_mem_cons.mp hrest
      obtain ⟨c, hadd⟩ := exists_addCandidate hnode set
      exact ⟨_, hadd, hrest⟩)
    nodes (x := set) hpriced
  exact ⟨set', hset'⟩

/-- The first leg without a price is reported. -/
theorem candidates_eq_error (nodes : List (Node α)) (set : CandidateSet α) {mode : Mode}
    (h : p.unpriced? (legModes access person point time surcharged nodes) = some mode) :
    nodes.foldlM (addCandidate access p person point time surcharged) set =
      .error (.unpricedMode mode) := by
  induction nodes generalizing set with
  | nil => cases h
  | cons node rest ih =>
    rw [legModes, List.map_cons, Parameters.unpriced?, List.find?_cons] at h
    rw [List.foldlM_cons]
    split at h
    · next hmode =>
      cases h
      rw [addCandidate_eq_error (by simpa using hmode)]
      rfl
    · next hmode =>
      obtain ⟨c, hadd⟩ := exists_addCandidate (by simpa using hmode) set
      rw [hadd]
      exact ih (set.insert c) h

/-- In a network with nodes those around a point are found. -/
theorem exists_nodesAround {n : Network α} (ne : n.isEmpty = false) (p : Parameters α)
    (point : Point α) : ∃ nodes, nodesAround n p point = .ok nodes := by
  have hnearest : ∃ node, nearest n point = .ok node := by
    unfold nearest Network.nearest?
    cases hhits : n.nodes.toList.map (Network.hit point) with
    | nil =>
      rw [List.map_eq_nil_iff, Array.toList_eq_nil_iff] at hhits
      rw [Network.isEmpty, hhits] at ne
      cases ne
    | cons first rest => exact ⟨_, rfl⟩
  obtain ⟨node, hnode⟩ := hnearest
  unfold nodesAround
  dsimp only
  split
  · exact ⟨_, rfl⟩
  · exact ⟨_, Result.map_eq_ok.mpr ⟨node, hnode, rfl⟩⟩

/-- The nodes around a point are those within some radius. -/
theorem exists_radius_of_nodesAround {n : Network α} {nodes : List (Node α)}
    (h : nodesAround n p point = .ok nodes) : ∃ radius, nodes = n.within point radius := by
  unfold nodesAround at h
  dsimp only at h
  split at h
  · exact ⟨_, (Except.ok.inj h).symm⟩
  · obtain ⟨_, -, hnodes⟩ := Result.map_eq_ok.mp h
    exact ⟨_, hnodes.symm⟩

private theorem mem_nodes_of_nodesAround {n : Network α} {nodes : List (Node α)}
    (h : nodesAround n p point = .ok nodes) : ∀ node ∈ nodes, node ∈ n.nodes := by
  obtain ⟨radius, rfl⟩ := exists_radius_of_nodesAround h
  exact fun _ hnode ↦ (Network.mem_within_iff.mp hnode).1

/-- Each of the nodes becomes a candidate. -/
theorem exists_get?_of_candidates {nodes : List (Node α)} {set set' : CandidateSet α}
    (h : nodes.foldlM (addCandidate access p person point time surcharged) set = .ok set')
    {node : Node α} (hnode : node ∈ nodes) : ∃ c, set'.get? node.id = some c := by
  have hkept := Result.inv_of_foldlM
    (P := fun rest set ↦ node ∈ rest ∨ ∃ c, set.get? node.id = some c)
    (fun other rest set set' hset hadd ↦ ?_) nodes (.inl hnode) h
  · exact hkept.resolve_left List.not_mem_nil
  · obtain ⟨⟨leg, cost⟩, -, rfl⟩ := Result.map_eq_ok.mp hadd
    dsimp only
    rw [CandidateSet.get?_insert]
    split
    · exact .inr ⟨_, rfl⟩
    · next different =>
      rcases hset with hmem | hset
      · rcases List.mem_cons.mp hmem with rfl | hmem
        · exact absurd (beq_self_eq_true node.id) different
        · exact .inl hmem
      · exact .inr hset

/-- When all nodes of a network lie within a radius, they are all found. -/
theorem perm_within {n : Network α} {radius : α}
    (covers : ∀ node ∈ n.nodes, node.coord.squareTo point ≤ radius * radius) :
    (n.within point radius).Perm n.nodes.toList := by
  have hall : n.nodes.toList.filter (fun node ↦ node.coord.squareTo point ≤ radius * radius) =
      n.nodes.toList :=
    List.filter_eq_self.mpr fun node hnode ↦
      decide_eq_true (covers node (Array.mem_toList_iff.mp hnode))
  rw [Network.within_eq_mergeSort, hall]
  exact List.mergeSort_perm _ _

/-- A candidate stands for a node of the network, with the time at which the leg to it arrives and
the cost of this leg. -/
theorem exists_node_of_candidates {n : Network α} {set : CandidateSet α}
    (h : candidates n access p person point time surcharged = .ok set) {c : Candidate α}
    (hc : c ∈ set.toList) : ∃ node ∈ n.nodes, node.id = c.node ∧
      c.time = time + (access.leg person point node.coord time surcharged).travelTime ∧
      Access.legCost p (access.leg person point node.coord time surcharged) = .ok c.cost := by
  obtain ⟨nodes, hnodes, hset⟩ := Result.bind_eq_ok.mp h
  refine Result.inv_of_foldlM (P := fun rest set ↦ (∀ node ∈ rest, node ∈ n.nodes) ∧
      ∀ c ∈ set.toList, ∃ node ∈ n.nodes, node.id = c.node ∧
        c.time = time + (access.leg person point node.coord time surcharged).travelTime ∧
        Access.legCost p (access.leg person point node.coord time surcharged) = .ok c.cost)
    (fun node rest set set' hset hadd ↦ ?_) nodes ⟨mem_nodes_of_nodesAround hnodes, by simp⟩ hset
    |>.2 c hc
  obtain ⟨⟨leg, cost⟩, hprice, rfl⟩ := Result.map_eq_ok.mp hadd
  obtain ⟨_, hcost, hleg⟩ := Result.map_eq_ok.mp hprice
  cases hleg
  obtain ⟨hnode, hrest⟩ := List.forall_mem_cons.mp hset.1
  refine ⟨hrest, fun c hc ↦ ?_⟩
  rcases mem_toList_insert hc with rfl | hc
  · exact ⟨node, hnode, rfl, rfl, hcost⟩
  · exact hset.2 c hc

/-- Without nodes there are none around a point. -/
theorem nodesAround_eq_error {n : Network α} (empty : n.isEmpty = true) (p : Parameters α)
    (point : Point α) : nodesAround n p point = .error .emptyNetwork := by
  have hnodes : n.nodes.toList = [] := by
    rw [Network.isEmpty, Array.isEmpty_iff] at empty
    rw [empty]
  simp [nodesAround, nearest, Network.nearest?, Network.within, hnodes, Except.map]

end Routing

/-- Whatever a network names is there: its nodes and edges stand at their numbers, the stops and
routes of its nodes are in the timetable, the lookup of departures knows the routes, and the
offsets of each node are a stretch of the edges. -/
structure Network.Grounded (t : Timetable α) (n : Network α) : Prop where
  node : ∀ node ∈ n.nodes, n.node? node.id = some node
  stop : ∀ node ∈ n.nodes, ∃ stop, t.stop? node.stop = some stop
  route : ∀ node ∈ n.nodes, ∃ route, t.route? node.route = some route
  departures : ∀ node ∈ n.nodes, node.route.index < (Departures.ofTimetable t).ofRoute.size
  edge : ∀ e ∈ n.edges, n.edges[e.id.index]? = some e ∧ e.tail ∈ n.nodes ∧ e.head ∈ n.nodes
  offsets : ∀ v < n.nodeCount, v + 1 < n.offsets.size ∧ n.offset v ≤ n.offset (v + 1) ∧
    n.offset (v + 1) ≤ n.edges.size

/-- The network of a timetable is grounded in it. -/
theorem Network.grounded_ofTimetable {t : Timetable α} (wf : t.WellFormed) (reach : α) :
    (Network.ofTimetable t reach).Grounded t where
  node _ h := node?_of_mem_nodes h
  stop node h := by
    obtain ⟨stop, hstop, -⟩ := exists_stop?_of_mem_nodes wf h
    exact ⟨stop, hstop⟩
  route node h := by
    obtain ⟨route, hroute, -⟩ := exists_route?_of_mem_nodes wf h
    exact ⟨route, hroute⟩
  departures node h := by
    obtain ⟨route, hroute, -⟩ := exists_route?_of_mem_nodes wf h
    have hlt := (Array.getElem?_eq_some_iff.mp hroute).1
    simpa [Departures.ofTimetable] using hlt
  edge e h := by
    refine ⟨?_, mem_nodes_of_mem_edges h⟩
    obtain ⟨i, hi⟩ := Array.mem_iff_getElem?.mp h
    have hat := hi
    rw [← Array.getElem?_toList, toList_edges, List.getElem?_mapIdx, Option.map_eq_some_iff] at hat
    obtain ⟨e', -, rfl⟩ := hat
    exact hi
  offsets v hv := by
    have wfNetwork := wellFormed_ofTimetable t reach
    refine ⟨?_, wfNetwork.offset_le v hv, wfNetwork.offset_succ_le hv⟩
    have hsize : (ofTimetable t reach).offsets.size = (outLists t reach).length + 1 := by
      change (totals 0 ((outLists t reach).map List.length)).toArray.size = _
      rw [List.size_toArray, length_totals, List.length_map]
    rw [hsize, length_outLists]
    omega

namespace Routing.Planner

variable {t : Timetable α} {reach : α} {access : AccessModel α} {p : Parameters α}
  {surcharged : Bool} {r : Request α}

/-- The planner for a timetable. -/
def ofTimetable (t : Timetable α) (reach : α) (access : AccessModel α) (p : Parameters α)
    (surcharged : Bool) : Planner α (Labels α) :=
  make (Network.ofTimetable t reach) (Departures.ofTimetable t).lookup access p surcharged

/-- Between candidates that are there, a planner finds the legs along the path of its search. -/
theorem exists_legsAlong (labels : Labels α) {origins destinations : CandidateSet α}
    (within : ∀ c ∈ origins.toList, c.node.index < (Network.ofTimetable t reach).nodeCount)
    {path : Path α}
    (found : ((ofTimetable t reach access p surcharged).engine.run labels
      (ofTimetable t reach access p surcharged).network
      (ofTimetable t reach access p surcharged).setting.costs origins destinations r.person).1 =
        some path) :
    ∃ legs, (ofTimetable t reach access p surcharged).legsAlong r origins destinations path =
      .ok legs := by
  have wf := Network.wellFormed_ofTimetable t reach
  obtain ⟨walk, -, hlast⟩ := LeastCost.isWalk_of_searchWith wf found
  obtain ⟨o, d, ho, hd⟩ := LeastCost.exists_ends_of_searchWith wf within found
  obtain ⟨legs, hlegs⟩ := Setting.exists_itinerary_of_isWalk
    (s := (ofTimetable t reach access p surcharged).setting) (r := r) walk
    (Array.mem_of_getElem? hlast)
  simp only [legsAlong_eq_ok]
  by_cases direct : (ofTimetable t reach access p surcharged).prefersDirect r
      (path.travelCost + o.cost + d.cost) = true
  · exact ⟨_, o, d, ho, hd, (if_pos direct).mpr rfl⟩
  · exact ⟨legs, o, d, ho, hd, (if_neg direct).mpr hlegs⟩

omit [Scalar α] in
private theorem unpriced?_append (p : Parameters α) (modes more : List Mode) :
    p.unpriced? (modes ++ more) = (p.unpriced? modes).or (p.unpriced? more) := by
  simp only [Parameters.unpriced?, List.find?_append]

/-- The candidates around a point come of the nodes around it. -/
theorem candidatesAt_eq {point : Point α} {nodes : List (Node α)}
    (h : nodesAround (Network.ofTimetable t reach) p point = .ok nodes) :
    (ofTimetable t reach access p surcharged).candidatesAt r point =
      nodes.foldlM (addCandidate access p r.person point r.departure surcharged) .empty := by
  change (nodesAround (Network.ofTimetable t reach) p point >>= _) = _
  rw [h]
  rfl

/-- Candidates are nodes of the network. -/
theorem within_of_candidatesAt {point : Point α} {set : CandidateSet α}
    (h : (ofTimetable t reach access p surcharged).candidatesAt r point = .ok set) :
    ∀ c ∈ set.toList, c.node.index < (Network.ofTimetable t reach).nodeCount := by
  intro c hc
  obtain ⟨node, hnode, hid, -⟩ := exists_node_of_candidates h hc
  rw [← hid]
  exact (Array.getElem?_eq_some_iff.mp (Network.node?_of_mem_nodes hnode)).1

/-- In a network without nodes nothing is planned. -/
theorem plan_of_isEmpty (empty : (Network.ofTimetable t reach).isEmpty = true)
    (labels : Labels α) :
    ((ofTimetable t reach access p surcharged).plan labels r).1 = .error .emptyNetwork := by
  have hstart : (ofTimetable t reach access p surcharged).candidatesAt r r.start =
      .error .emptyNetwork := by
    rw [candidatesAt, candidates]
    change (nodesAround (Network.ofTimetable t reach) p r.start >>= _) = _
    rw [nodesAround_eq_error empty]
    rfl
  rw [plan_fst, hstart]
  rfl

/-- The modes of the legs between both ends of a journey and the nodes around them, those at the
start first. -/
def endModes (access : AccessModel α) (r : Request α) (surcharged : Bool)
    (starts finishes : List (Node α)) : List Mode :=
  legModes access r.person r.start r.departure surcharged starts ++
    legModes access r.person r.finish r.departure surcharged finishes

/-- Accepted settings have a price for all modes of their access. -/
theorem unpriced?_endModes_of_validate {s : Settings α} (valid : s.validate = .ok ())
    (r : Request α) (surcharged : Bool) (starts finishes : List (Node α)) :
    s.parameters.unpriced? (endModes s.access.model r surcharged starts finishes) = none := by
  rw [endModes, unpriced?_append, unpriced?_legModes_of_validate valid,
    unpriced?_legModes_of_validate valid, Option.none_or]

section

variable {starts finishes : List (Node α)}
  (around_start : nodesAround (Network.ofTimetable t reach) p r.start = .ok starts)
  (around_finish : nodesAround (Network.ofTimetable t reach) p r.finish = .ok finishes)

include around_start around_finish

/-- The first leg without a price at the ends of a journey is reported. -/
theorem plan_of_unpriced {mode : Mode}
    (h : p.unpriced? (endModes access r surcharged starts finishes) = some mode)
    (labels : Labels α) :
    ((ofTimetable t reach access p surcharged).plan labels r).1 = .error (.unpricedMode mode) := by
  rw [endModes, unpriced?_append] at h
  rw [plan_fst, candidatesAt_eq around_start, candidatesAt_eq around_finish]
  cases hstart : p.unpriced?
      (legModes access r.person r.start r.departure surcharged starts) with
  | some mode' =>
    rw [hstart, Option.some_or, Option.some.injEq] at h
    rw [candidates_eq_error starts .empty hstart, h]
    rfl
  | none =>
    rw [hstart, Option.none_or] at h
    obtain ⟨origins, horigins⟩ := exists_candidates starts .empty hstart
    rw [horigins, candidates_eq_error finishes .empty h]
    rfl

/-- When all legs at the ends of a journey have a price, there is an answer. -/
theorem exists_plan_of_priced
    (h : p.unpriced? (endModes access r surcharged starts finishes) = none) (labels : Labels α) :
    ∃ legs?, ((ofTimetable t reach access p surcharged).plan labels r).1 = .ok legs? := by
  rw [endModes, unpriced?_append, Option.or_eq_none_iff] at h
  obtain ⟨origins, horigins⟩ := exists_candidates starts .empty h.1
  obtain ⟨destinations, hdestinations⟩ := exists_candidates finishes .empty h.2
  rw [← candidatesAt_eq around_start] at horigins
  rw [← candidatesAt_eq around_finish] at hdestinations
  cases found : ((ofTimetable t reach access p surcharged).engine.run labels
      (ofTimetable t reach access p surcharged).network
      (ofTimetable t reach access p surcharged).setting.costs origins destinations r.person).1 with
  | none =>
    refine ⟨none, ?_⟩
    rw [plan_fst, Result.bind_eq_ok]
    refine ⟨origins, horigins, Result.bind_eq_ok.mpr ⟨destinations, hdestinations, ?_⟩⟩
    rw [found]
  | some path =>
    obtain ⟨legs, hlegs⟩ := exists_legsAlong labels (within_of_candidatesAt horigins) found
    exact ⟨some legs, plan_eq_ok_some.mpr
      ⟨origins, destinations, path, horigins, hdestinations, found, hlegs⟩⟩

end

end Routing.Planner

end DoorToDoor
