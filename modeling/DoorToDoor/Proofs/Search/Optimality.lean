import DoorToDoor.Proofs.Search.Reachability

/-!
# The least cost

When what an edge costs does not depend on the time at which it is entered, the path that a search
finds costs no more than any walk from an origin to a destination, with the costs at both ends
added: `search_cost_le`. The argument follows a walk as long as its nodes have been expanded. Either
its end has been expanded, and the best destination costs no more; or the walk leaves the expanded
nodes, and the next entry of the queue costs no more than the walk, while the search ended because
it costs no less than the best destination.
-/

namespace DoorToDoor.LeastCost

/-- Every edge of the network has one cost at all times, which is at least zero unless the edge
cannot be used. -/
structure Task.Static (task : Task EReal) (cost : Edge EReal → EReal) : Prop where
  charge_eq : ∀ e ∈ task.network.edges, ∀ now, task.charge e now = cost e
  nonneg : ∀ e ∈ task.network.edges, Scalar.isFinite (cost e) = true → 0 ≤ cost e

section

variable {task : Task EReal} {origins : CandidateSet EReal} {done : List NodeId}
  {f : Frontier EReal} {cost : Edge EReal → EReal} {es : List (Edge EReal)} {a b : NodeId}

/-- Costs that are never negative are not negative at any time. -/
theorem Task.Static.nonNegative (static : task.Static cost) : task.NonNegative := by
  intro e he now finite
  rw [static.charge_eq e he now] at finite ⊢
  exact static.nonneg e he finite

/-- A walk along usable edges costs at least zero. -/
theorem Task.Static.sum_nonneg (static : task.Static cost) (walk : task.network.IsWalk a es b)
    (usable : ∀ e ∈ es, Scalar.isFinite (cost e) = true) : 0 ≤ (es.map cost).sum := by
  refine List.sum_nonneg fun x hx ↦ ?_
  obtain ⟨e, he, rfl⟩ := List.mem_map.mp hx
  exact static.nonneg e (walk.mem_edges e he) (usable e he)

namespace Explored

/-- A walk whose start is labelled at most at what has been paid ends at an expanded node, labelled
at most at what the walk costs in addition, or an entry that costs no more than the walk waits. -/
theorem reaches_or_waits (h : Explored task origins done f) (wf : task.network.WellFormed)
    (static : task.Static cost) (walk : task.network.IsWalk a es b)
    (usable : ∀ e ∈ es, Scalar.isFinite (cost e) = true) {paid : EReal}
    (start : f.labels.Reaches a paid) :
    b ∈ done ∧ f.labels.Reaches b (paid + (es.map cost).sum) ∨
      ∃ x ∈ f.queue.toList, x.cost ≤ paid + (es.map cost).sum := by
  obtain ⟨label, hlabel, hle⟩ := start
  -- The walk is followed along expanded nodes; at the first other node its label waits.
  induction es generalizing a paid label with
  | nil =>
    obtain ⟨rfl, -⟩ := walk
    rw [List.map_nil, List.sum_nil, add_zero]
    by_cases ha : a ∈ done
    · exact .inl ⟨ha, label, hlabel, hle⟩
    · exact .inr ⟨_, h.awaited a label hlabel ha, hle⟩
  | cons e rest ih =>
    by_cases ha : a ∈ done
    · obtain ⟨hmem, rfl, hrest⟩ := walk
      have hout : e ∈ task.network.outEdges e.tail.id :=
        (wf.mem_outEdges_iff (wf.tail_lt hmem) e).mpr ⟨hmem, rfl⟩
      have hcharge := static.charge_eq e hmem label.time
      have hfinite : Scalar.isFinite (task.charge e label.time) = true :=
        hcharge ▸ usable e List.mem_cons_self
      obtain ⟨label', hlabel', hle'⟩ := h.followed _ ha label hlabel e hout hfinite
        (h.add_charge_lt_top hlabel hfinite)
      rw [hcharge] at hle'
      rw [List.map_cons, List.sum_cons, ← add_assoc]
      exact ih hrest (fun e' he' ↦ usable e' (List.mem_cons_of_mem e he')) label' hlabel'
        (hle'.trans (add_le_add_left hle _))
    · have hnonneg := static.sum_nonneg walk usable
      exact .inr ⟨_, h.awaited a label hlabel ha,
        hle.trans (le_add_of_nonneg_right hnonneg)⟩

/-- A search that has ended at its best destination leaves no cheaper entry. -/
theorem total_le_of_mem_queue (h : Explored task origins done f)
    (ended : task.step? stopAtBest f = none) {best : Best EReal} (hbest : f.best = some best)
    {x : Entry EReal} (hx : x ∈ f.queue.toList) : best.total ≤ x.cost := by
  rcases step?_eq_none ended with hempty | ⟨entry, queue, hpop, hstop⟩
  · rw [hempty] at hx
    cases hx
  · have htotal : best.total ≤ entry.cost := by
      rw [hbest] at hstop
      exact of_decide_eq_true hstop
    rcases List.mem_cons.mp ((Heap.perm_pop? Entry.before h.whole hpop).mem_iff.mpr hx) with
      rfl | hx
    · exact htotal
    · exact htotal.trans ((h.of_pop? hpop).2 x hx).2

/-- When a search has ended, its best destination costs no more than any walk from an origin to a
destination. -/
theorem total_le (h : Explored task origins done f) (wf : task.network.WellFormed)
    (static : task.Static cost) (ended : task.step? stopAtBest f = none) {best : Best EReal}
    (hbest : f.best = some best) {s c : Candidate EReal} (hs : s ∈ origins.toList)
    (hfinite : s.cost < ⊤) (hc : c ∈ task.destinations.toList) (hnonneg : 0 ≤ c.cost)
    (walk : task.network.IsWalk s.node es c.node)
    (usable : ∀ e ∈ es, Scalar.isFinite (cost e) = true) :
    best.total ≤ s.cost + (es.map cost).sum + c.cost := by
  have hstart := h.departed s hs (wf.lt_of_isWalk walk) hfinite
  rcases h.reaches_or_waits wf static walk usable hstart with ⟨hdone, hreached⟩ | ⟨x, hx, hle⟩
  · obtain ⟨label, hlabel, hle⟩ := hreached
    have hget := (task.destinations.get?_eq_some_iff c.node c).mpr ⟨hc, rfl⟩
    obtain ⟨best', hbest', htotal⟩ := h.best_le c.node hdone label hlabel c hget
    cases hbest.symm.trans hbest'
    exact (le_of_not_gt htotal).trans (add_le_add_left hle _)
  · calc best.total
      _ ≤ x.cost := h.total_le_of_mem_queue ended hbest hx
      _ ≤ s.cost + (es.map cost).sum := hle
      _ ≤ s.cost + (es.map cost).sum + c.cost := le_add_of_nonneg_right hnonneg

end Explored

/-- The path that a search finds costs no more than any walk along usable edges from an origin to a
destination, with the costs of the candidates at both ends added. -/
theorem search_cost_le (labels : Labels EReal) (task : Task EReal)
    (wf : task.network.WellFormed) (cost : Edge EReal → EReal) (static : task.Static cost)
    (origins : CandidateSet EReal)
    (originsFinite : ∀ s ∈ origins.toList, Scalar.isFinite s.cost = true)
    (destinationsNonneg : ∀ c ∈ task.destinations.toList, 0 ≤ c.cost) (path : Path EReal)
    (found : (search labels task origins).1 = some path) :
    ∃ origin destination, origins.get? path.first.id = some origin ∧
      task.destinations.get? path.last.id = some destination ∧
      ∀ s ∈ origins.toList, ∀ c ∈ task.destinations.toList, ∀ es,
        task.network.IsWalk s.node es c.node → (∀ e ∈ es, Scalar.isFinite (cost e) = true) →
          origin.cost + path.travelCost + destination.cost ≤
            s.cost + (es.map cost).sum + c.cost := by
  obtain ⟨done, hexplored, hended⟩ :=
    explored_finalState stopAtBest labels wf (static.nonNegative.noRefundsFrom origins)
  obtain ⟨best, hbest, hpath⟩ := Option.bind_eq_some_iff.mp found
  obtain ⟨label, origin, hlast, hlabel, horigin, -, -, hcost, -⟩ := pathTo_eq_some hpath
  obtain ⟨-, label', destination, hlabel', hdestination, htotal⟩ := hexplored.best_eq best hbest
  cases hlabel.symm.trans hlabel'
  have hid : path.last.id = best.node := wf.id_eq_of_node? hlast
  refine ⟨origin, destination, horigin, hid ▸ hdestination, fun s hs c hc es walk usable ↦ ?_⟩
  have horiginFinite :=
    originsFinite origin ((origins.get?_eq_some_iff _ origin).mp horigin).1
  obtain ⟨r, hr⟩ := Scalar.isFinite_iff_exists.mp horiginFinite
  have hwhole : origin.cost + path.travelCost = label.cost := by
    rw [hcost, ← hr, add_comm, EReal.sub_add_cancel]
  have hsFinite : s.cost < ⊤ :=
    lt_top_iff_ne_top.mpr (Scalar.isFinite_exact.mp (originsFinite s hs)).2
  rw [hwhole, ← htotal]
  exact hexplored.total_le wf static hended hbest hs hsFinite hc (destinationsNonneg c hc) walk
    usable

end

/-- A node of which nothing matters but its number. -/
noncomputable def numberedNode (number : Nat) : Node EReal where
  id := ⟨number⟩
  stop := ⟨number⟩
  link := .unset
  coord := ⟨0, 0⟩
  line := ⟨0⟩
  route := ⟨0⟩
  position := number
  call := ⟨⟨number⟩, none, none⟩

namespace Detour

/-- The edge of length one from the node 0 to the node 1. -/
noncomputable def out : Edge EReal := ⟨⟨0⟩, numberedNode 0, numberedNode 1, 1, .transfer⟩

/-- The edge of length three from the node 0 to the node 2. -/
noncomputable def direct : Edge EReal := ⟨⟨1⟩, numberedNode 0, numberedNode 2, 3, .transfer⟩

/-- The edge of length one from the node 1 to the node 2. -/
noncomputable def onward : Edge EReal := ⟨⟨2⟩, numberedNode 1, numberedNode 2, 1, .transfer⟩

end Detour

open Detour

/-- The network of these edges. From the node 0 to the node 2 the detour over the node 1 is shorter
than the direct edge. -/
noncomputable def detourNetwork : Network EReal :=
  ⟨#[numberedNode 0, numberedNode 1, numberedNode 2], #[out, direct, onward], #[0, 2, 3, 3]⟩

/-- The search along these edges, each of which costs its length. -/
noncomputable def detourTask (destinations : CandidateSet EReal) : Task EReal where
  network := detourNetwork
  costs := ⟨fun _ _ _ ↦ 0, fun _ e _ ↦ e.length, fun _ _ _ ↦ 0⟩
  person := ⟨⟨0⟩⟩
  destinations := destinations

/-- The node 0 as the only origin. -/
noncomputable def detourOrigins : CandidateSet EReal := .ofList [⟨⟨0⟩, 0, 0⟩]

/-- A node as the only destination, at no further cost. -/
noncomputable def detourEnd (node : NodeId) : CandidateSet EReal := .ofList [⟨node, 0, 0⟩]

namespace Detour

/-- The detour has these three edges. -/
theorem mem_edges {e : Edge EReal} (he : e ∈ detourNetwork.edges) :
    e = out ∨ e = direct ∨ e = onward := by simpa [detourNetwork] using he

/-- The network is well formed. -/
theorem wellFormed : detourNetwork.WellFormed where
  numbered i node h := by
    rcases i with _ | _ | _ | i
    · cases h; rfl
    · cases h; rfl
    · cases h; rfl
    · simp [detourNetwork] at h
  node?_tail e he := by rcases mem_edges he with rfl | rfl | rfl <;> rfl
  node?_head e he := by rcases mem_edges he with rfl | rfl | rfl <;> rfl
  offset_zero := rfl
  offset_le v hv := by
    rcases v with _ | _ | _ | v
    · decide
    · decide
    · decide
    · change v + 3 < 3 at hv
      omega
  offset_nodeCount := rfl
  placed i e h := by
    rcases i with _ | _ | _ | i
    · cases h; decide
    · cases h; decide
    · cases h; decide
    · simp [detourNetwork] at h

/-- The edges have finite lengths, which are not negative. -/
theorem length_of_mem_edges {e : Edge EReal} (he : e ∈ detourNetwork.edges) :
    Scalar.isFinite e.length = true ∧ 0 ≤ e.length := by
  rcases mem_edges he with rfl | rfl | rfl
  · exact ⟨Scalar.isFinite_coe 1, zero_le_one⟩
  · exact ⟨Scalar.isFinite_coe 3, by norm_num [direct]⟩
  · exact ⟨Scalar.isFinite_coe 1, zero_le_one⟩

/-- The edges cost their lengths. -/
theorem static_detour (destinations : CandidateSet EReal) :
    (detourTask destinations).Static (·.length) where
  charge_eq _ _ _ := rfl
  nonneg _ he _ := (length_of_mem_edges he).2

/-- There is one origin. -/
theorem toList_origins : detourOrigins.toList = [⟨⟨0⟩, 0, 0⟩] :=
  CandidateSet.toList_ofList_singleton _

/-- There is one destination. -/
theorem toList_destination (node : NodeId) : (detourEnd node).toList = [⟨node, 0, 0⟩] :=
  CandidateSet.toList_ofList_singleton _

/-- The cost of the origin is finite. -/
theorem isFinite_origins : ∀ s ∈ detourOrigins.toList, Scalar.isFinite s.cost = true := by
  rw [toList_origins]
  intro s hs
  rw [List.mem_singleton.mp hs]
  exact Scalar.isFinite_coe 0

/-- The cost of the destination is finite and not negative. -/
theorem cost_destination (node : NodeId) : ∀ c ∈ (detourEnd node).toList,
    Scalar.isFinite c.cost = true ∧ 0 ≤ c.cost := by
  rw [toList_destination]
  intro c hc
  rw [List.mem_singleton.mp hc]
  exact ⟨Scalar.isFinite_coe 0, le_rfl⟩

/-- One can go to the node between. -/
theorem isWalk_out : detourNetwork.IsWalk ⟨0⟩ [out] ⟨1⟩ :=
  ⟨Array.mem_of_getElem? (i := 0) rfl, rfl, rfl, by decide⟩

/-- One can go directly. -/
theorem isWalk_direct : detourNetwork.IsWalk ⟨0⟩ [direct] ⟨2⟩ :=
  ⟨Array.mem_of_getElem? (i := 1) rfl, rfl, rfl, by decide⟩

/-- One can make the detour. -/
theorem isWalk_detour : detourNetwork.IsWalk ⟨0⟩ [out, onward] ⟨2⟩ :=
  ⟨Array.mem_of_getElem? (i := 0) rfl, rfl, Array.mem_of_getElem? (i := 2) rfl, rfl, rfl,
    by decide⟩

/-- A search finds a path where a walk leads. -/
theorem exists_path {node : NodeId} {es : List (Edge EReal)}
    (walk : detourNetwork.IsWalk ⟨0⟩ es node) :
    ∃ path, (search .empty (detourTask (detourEnd node)) detourOrigins).1 = some path := by
  have hs : ⟨⟨0⟩, 0, 0⟩ ∈ detourOrigins.toList := toList_origins ▸ List.mem_singleton_self _
  have hc : ⟨node, 0, 0⟩ ∈ (detourTask (detourEnd node)).destinations.toList :=
    toList_destination node ▸ List.mem_singleton_self _
  exact exists_path_of_isWalk .empty wellFormed (static_detour _).nonNegative (fun _ ↦ True)
    (fun _ _ ↦ trivial) (fun _ _ _ _ ↦ trivial) hs (EReal.coe_lt_top 0) hc walk
    fun e he _ _ ↦ (length_of_mem_edges (walk.mem_edges e he)).1

end Detour

/-- The search from the node 0 to the node 2 finds a path that costs no more than the detour, and so
less than the direct edge. -/
theorem search_cost_le_detour : ∃ path,
    (search .empty (detourTask (detourEnd ⟨2⟩)) detourOrigins).1 = some path ∧
    ∃ o d, detourOrigins.get? path.first.id = some o ∧ (detourEnd ⟨2⟩).get? path.last.id = some d ∧
      o.cost + path.travelCost + d.cost ≤ 0 + ([out, onward].map (·.length)).sum + 0 ∧
      o.cost + path.travelCost + d.cost < 0 + ([direct].map (·.length)).sum + 0 := by
  obtain ⟨path, found⟩ := exists_path isWalk_detour
  have hs : ⟨⟨0⟩, 0, 0⟩ ∈ detourOrigins.toList := toList_origins ▸ List.mem_singleton_self _
  have hc : ⟨⟨2⟩, 0, 0⟩ ∈ (detourEnd ⟨2⟩).toList :=
    toList_destination ⟨2⟩ ▸ List.mem_singleton_self _
  obtain ⟨o, d, ho, hd, hle⟩ := search_cost_le .empty (detourTask (detourEnd ⟨2⟩)) wellFormed
    (·.length) (static_detour _) detourOrigins isFinite_origins
    (fun c hc ↦ (cost_destination ⟨2⟩ c hc).2) path found
  have hdetour := hle _ hs _ hc [out, onward] isWalk_detour fun e he ↦
    (length_of_mem_edges (isWalk_detour.mem_edges e he)).1
  refine ⟨path, found, o, d, ho, hd, hdetour, hdetour.trans_lt ?_⟩
  have hless : (0 : ℝ) + (1 + (1 + 0)) + 0 < 0 + (3 + 0) + 0 := by norm_num
  exact EReal.coe_lt_coe_iff.mpr hless

end DoorToDoor.LeastCost
