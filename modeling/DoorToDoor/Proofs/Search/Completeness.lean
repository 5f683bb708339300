import DoorToDoor.Proofs.Costs
import DoorToDoor.Proofs.Planning
import DoorToDoor.Proofs.Search.Reachability
import DoorToDoor.Proofs.Search.Work

/-!
# Destinations that cannot be missed

A search finds nothing only if no walk leads from an origin to a destination: `search_eq_none_iff`.
What an edge costs matters only when a walk from an origin comes to it (`Task.ComesTo`), because the
label of a node shows the cost and the time of such a walk (`Explored.comesTo`). As long as edges
then cost a number that is not negative, and no sum overflows, each label can be continued along
each edge, and the search has not ended before a destination on the walk has been expanded. In exact
arithmetic no sum overflows: `search_eq_none_iff_of_isFinite`. Where one does, a destination can be
missed: `search_eq_none_overflow`.
-/

namespace DoorToDoor.LeastCost

/-- The task to go to destinations by a timetable. -/
def Task.ofTimetable {α : Type} [Scalar α] (t : Timetable α) (reach : α) (p : Parameters α)
    (person : Person) (destinations : CandidateSet α) : Task α where
  network := Network.ofTimetable t reach
  costs := Cost.byTimetable (Departures.ofTimetable t).lookup p
  person := person
  destinations := destinations

section

variable {α : Type} [Scalar α]

/-- Whether some walk from an origin that comes to no node twice comes to a node at a cost and at a
time, by the clock that runs along the walk. -/
def Task.ComesTo (task : Task α) (origins : CandidateSet α) (v : NodeId) (come : Arrival α) :
    Prop :=
  ∃ s ∈ origins.toList, ∃ es, task.network.IsWalk s.node es v ∧
    (es.map (·.tail.id) ++ [v]).Nodup ∧ task.costs.along task.person s.arrival es = come

/-- No usable edge costs less than nothing when a walk from an origin comes to it. -/
def Task.NoRefundsAlong (task : Task α) (origins : CandidateSet α) : Prop :=
  ∀ e ∈ task.network.edges, ∀ come, task.ComesTo origins e.tail.id come →
    Scalar.isFinite (task.charge e come.time) = true → Scalar.zero ≤ task.charge e come.time

/-- Whenever a walk from an origin comes to an edge, this costs a number that is not negative. -/
structure Task.Charges (task : Task α) (origins : CandidateSet α) : Prop where
  usable : ∀ e ∈ task.network.edges, ∀ come, task.ComesTo origins e.tail.id come →
    Scalar.isFinite (task.charge e come.time) = true
  noRefund : ∀ e ∈ task.network.edges, ∀ come, task.ComesTo origins e.tail.id come →
    Scalar.zero ≤ task.charge e come.time

/-- Along each walk from an origin, what has been paid stays below infinity. -/
structure Task.Affords (task : Task α) (origins : CandidateSet α) : Prop
    extends task.Charges origins where
  below : ∀ e ∈ task.network.edges, ∀ come, task.ComesTo origins e.tail.id come →
    come.cost + task.charge e come.time < Scalar.infinity

/-- Whether a walk leads from an origin to a destination. -/
def Task.Connects (task : Task α) (origins : CandidateSet α) : Prop :=
  ∃ s ∈ origins.toList, ∃ c ∈ task.destinations.toList, ∃ es,
    task.network.IsWalk s.node es c.node

variable {task : Task α} {origins : CandidateSet α} {done : List NodeId} {f : Frontier α}

namespace Explored

private theorem comesTo_of_mem_done (h : Explored task origins done f) {v : NodeId} (hv : v ∈ done)
    {label : Label α} (hlabel : f.labels.get? v = some label) :
    ∃ s ∈ origins.toList, ∃ es, task.network.IsWalk s.node es v ∧
      (es.map (·.tail.id) ++ [v]).Nodup ∧ (∀ u ∈ es.map (·.tail.id), u ∈ done) ∧
      task.costs.along task.person s.arrival es = label.arrival := by
  obtain ⟨s, hs, earlier, way, hsuffix, hway, -⟩ := h.exists_retraces hv hlabel
  refine ⟨s, hs, way, hway.walk, h.nodup_of_retraces hsuffix hway, fun u hu ↦ ?_, hway.replay⟩
  have hearlier := hway.in_turn.subset (List.mem_reverse.mpr hu)
  exact hsuffix.subset (List.mem_cons_of_mem v hearlier)

/-- A walk from an origin that comes to no node twice comes to each labelled node as its label
says. -/
theorem comesTo (h : Explored task origins done f) (wf : task.network.WellFormed) {v : NodeId}
    {label : Label α} (hlabel : f.labels.get? v = some label) :
    task.ComesTo origins v label.arrival := by
  by_cases hv : v ∈ done
  · obtain ⟨s, hs, es, walk, hnodup, -, hreplay⟩ := h.comesTo_of_mem_done hv hlabel
    exact ⟨s, hs, es, walk, hnodup, hreplay⟩
  · cases h.grown v label hlabel with
    | @origin v c hc =>
      obtain ⟨hmem, hnode⟩ := (origins.get?_eq_some_iff v c).mp hc
      have hin : c.node.index < task.network.nodeCount := by
        rw [hnode, ← h.size_slots]
        exact Labels.lt_of_get? hlabel
      exact ⟨c, hmem, [], ⟨hnode, hin⟩, List.nodup_singleton v, rfl⟩
    | @edge e l mem tail hl =>
      -- The walk to the tail leaves expanded nodes only, and the head is not one of them.
      obtain ⟨s, hs, es, walk, hnodup, hdone, hreplay⟩ := h.comesTo_of_mem_done tail hl
      refine ⟨s, hs, es ++ [e], walk.append ⟨mem, rfl, rfl, wf.head_lt mem⟩, ?_, ?_⟩
      · rw [List.map_append, List.map_singleton, ← List.concat_eq_append, List.nodup_concat]
        refine ⟨fun hmem ↦ ?_, hnodup⟩
        rcases List.mem_append.mp hmem with hmem | hmem
        · exact hv (hdone _ hmem)
        · exact hv (List.mem_singleton.mp hmem ▸ tail)
      · rw [CostModel.along_append, hreplay]
        rfl

/-- The best destination of a search is connected with an origin. -/
theorem connects_of_best (h : Explored task origins done f) {best : Best α}
    (hbest : f.best = some best) : task.Connects origins := by
  obtain ⟨hdone, label, c, hlabel, hc, -⟩ := h.best_eq best hbest
  obtain ⟨s, hs, es, walk, -⟩ := h.exists_replay hdone hlabel
  obtain ⟨hmem, hnode⟩ := (task.destinations.get?_eq_some_iff best.node c).mp hc
  exact ⟨s, hs, c, hmem, es, hnode ▸ walk⟩

end Explored

/-- What walks are charged is what labels are charged. -/
theorem Task.NoRefundsAlong.noRefundsFrom (along : task.NoRefundsAlong origins)
    (wf : task.network.WellFormed) : task.NoRefundsFrom origins := by
  intro done f h v label hlabel _ e he usable
  have hin : v.index < task.network.nodeCount := h.size_slots ▸ Labels.lt_of_get? hlabel
  obtain ⟨hmem, rfl⟩ := (wf.mem_outEdges_iff hin e).mp he
  exact along e hmem _ (h.comesTo wf hlabel) usable

private theorem Task.Charges.noRefundsAlong (charges : task.Charges origins) :
    task.NoRefundsAlong origins :=
  fun e he come hcome _ ↦ charges.noRefund e he come hcome

/-- In exact arithmetic no sum overflows. -/
theorem Task.Charges.affords {task : Task EReal} {origins : CandidateSet EReal}
    (charges : task.Charges origins) (wf : task.network.WellFormed)
    (departs : ∀ s ∈ origins.toList, s.cost < ⊤) : task.Affords origins := by
  have hcost {s : Candidate EReal} (hs : s ∈ origins.toList) (es : List (Edge EReal)) :
      ∀ v, task.network.IsWalk s.node es v → (es.map (·.tail.id) ++ [v]).Nodup →
        (task.costs.along task.person s.arrival es).cost < ⊤ := by
    induction es using List.reverseRecOn with
    | nil => exact fun _ _ _ ↦ departs s hs
    | append_singleton es e ih =>
      intro v walk hnodup
      obtain ⟨_, hwalk, hmem, rfl, -⟩ := wf.of_isWalk_append walk
      have hinit : (es.map (·.tail.id) ++ [e.tail.id]).Nodup := by
        rw [List.map_append, List.map_singleton] at hnodup
        exact hnodup.sublist (List.sublist_append_left _ _)
      have hcharge := charges.usable e hmem _ ⟨s, hs, es, hwalk, hinit, rfl⟩
      rw [CostModel.along_append]
      exact EReal.add_lt_top (ih _ hwalk hinit).ne (Scalar.isFinite_exact.mp hcharge).2
  refine { charges with below := ?_ }
  rintro e he come ⟨s, hs, es, walk, hnodup, rfl⟩
  have hcharge := charges.usable e he _ ⟨s, hs, es, walk, hnodup, rfl⟩
  exact EReal.add_lt_top (hcost hs es _ walk hnodup).ne (Scalar.isFinite_exact.mp hcharge).2

/-- On a well-formed network a search finds nothing exactly if no walk leads from an origin to a
destination. -/
theorem search_eq_none_iff_not_connects [MonotoneScalar α] (wf : task.network.WellFormed)
    (affords : task.Affords origins)
    (departs : ∀ s ∈ origins.toList, s.cost < Scalar.infinity) (labels : Labels α) :
    (search labels task origins).1 = none ↔ ¬task.Connects origins := by
  have noRefunds := affords.noRefundsAlong.noRefundsFrom wf
  constructor
  · rintro hnone ⟨s, hs, c, hc, es, walk⟩
    obtain ⟨path, found⟩ := exists_path_of_usable labels wf noRefunds hs (departs s hs) hc walk
      fun done f h e he _ label hlabel ↦
        ⟨affords.usable e (walk.mem_edges e he) _ (h.comesTo wf hlabel),
          affords.below e (walk.mem_edges e he) _ (h.comesTo wf hlabel)⟩
    rw [hnone] at found
    cases found
  · intro apart
    refine Option.eq_none_iff_forall_ne_some.mpr fun path found ↦ apart ?_
    obtain ⟨done, hexplored, -⟩ := explored_finalState stopAtBest labels wf noRefunds
    obtain ⟨best, hbest, -⟩ := Option.bind_eq_some_iff.mp found
    exact hexplored.connects_of_best hbest

/-- By a timetable, a search from origins of finite cost comes to its end by itself and finds
nothing exactly if no walk, be it empty, leads through the network from an origin to a destination.
Times, and the costs of destinations, do not matter as long as, whenever a walk from an origin comes
to a node, the lookups of departures end by themselves and each edge that leaves the node costs a
number that is not negative and does not overflow in the sum. -/
theorem search_eq_none_iff [MonotoneScalar α] (t : Timetable α) (reach : α) (p : Parameters α)
    (person : Person) (labels : Labels α) (origins destinations : CandidateSet α)
    (ends : ∀ v come, (Task.ofTimetable t reach p person destinations).ComesTo origins v come →
      t.LookupsEnd reach come.time)
    (affords : (Task.ofTimetable t reach p person destinations).Affords origins)
    (departs : ∀ s ∈ origins.toList, s.cost < Scalar.infinity) :
    Terminates (t.LookupsEnd reach) labels (.ofTimetable t reach p person destinations) origins ∧
      ((search labels (.ofTimetable t reach p person destinations) origins).1 = none ↔
        ¬∃ s ∈ origins.toList, ∃ c ∈ destinations.toList, ∃ es,
          (Network.ofTimetable t reach).IsWalk s.node es c.node) := by
  have wf : (Task.ofTimetable t reach p person destinations).network.WellFormed :=
    Network.wellFormed_ofTimetable t reach
  exact ⟨terminates_of_noRefundsFrom labels wf (affords.noRefundsAlong.noRefundsFrom wf)
      fun done f h v label hlabel ↦ ends v _ (h.comesTo wf hlabel),
    search_eq_none_iff_not_connects wf affords departs labels⟩

end

section

variable {t : Timetable EReal} {reach : EReal} {p : Parameters EReal} {person : Person}
  {origins destinations : CandidateSet EReal}

/-- From finite times on, and by finite times of a timetable, walks come to nodes at finite
times. -/
theorem isFinite_time_of_comesTo (wf : t.WellFormed) (finite : t.IsFinite)
    (valid : Settings.validate ⟨p, [], []⟩ = .ok ())
    (margin : Scalar.isFinite p.transferMargin = true)
    (times : ∀ s ∈ origins.toList, Scalar.isFinite s.time = true) {v : NodeId}
    {come : Arrival EReal}
    (h : (Task.ofTimetable t reach p person destinations).ComesTo origins v come) :
    Scalar.isFinite come.time = true := by
  obtain ⟨s, hs, es, walk, -, rfl⟩ := h
  exact along_keeps (P := fun come ↦ Scalar.isFinite come.time = true)
    (fun e he come hcome ↦ Scalar.isFinite_add hcome
      (Cost.isFinite_travelTime wf finite he valid margin hcome)) walk.mem_edges (times s hs)

/-- In exact arithmetic, a search by a timetable of finite times from origins of finite costs and
times comes to its end by itself, and finds nothing exactly if no walk leads from an origin to a
destination, if each edge costs a number that is not negative whenever a walk comes to it. -/
theorem search_eq_none_iff_of_isFinite (wf : t.WellFormed) (finite : t.IsFinite)
    (valid : Settings.validate ⟨p, [], []⟩ = .ok ())
    (margin : Scalar.isFinite p.transferMargin = true) (labels : Labels EReal)
    (costs : ∀ s ∈ origins.toList, s.cost < ⊤)
    (times : ∀ s ∈ origins.toList, Scalar.isFinite s.time = true)
    (charges : (Task.ofTimetable t reach p person destinations).Charges origins) :
    Terminates (t.LookupsEnd reach) labels (.ofTimetable t reach p person destinations) origins ∧
      ((search labels (.ofTimetable t reach p person destinations) origins).1 = none ↔
        ¬(Task.ofTimetable t reach p person destinations).Connects origins) := by
  have hnetwork : (Task.ofTimetable t reach p person destinations).network.WellFormed :=
    Network.wellFormed_ofTimetable t reach
  refine ⟨terminates_of_noRefundsFrom labels hnetwork
    (charges.noRefundsAlong.noRefundsFrom hnetwork) fun _ _ h _ _ hlabel ↦ ?_,
    search_eq_none_iff_not_connects hnetwork (charges.affords hnetwork costs) costs labels⟩
  exact Departures.lookupsEnd_of_isFinite wf finite reach
    (isFinite_time_of_comesTo wf finite valid margin times (h.comesTo hnetwork hlabel))

end

open Network (east shuttleRide west)

/-- Parameters by which only the time in vehicles costs anything, at a rate. -/
def ridesAt (rate : Float) : Parameters Float where
  searchRadius := 1
  extensionRadius := 1
  walkTime := 0
  rideTime := rate
  waitTime := 0
  distance := 0
  lineSwitch := 0
  transferMargin := 0
  beelineFactor := 1
  walkSpeed := 1
  directFactor := 1
  transferReach := 0
  modeUtilities := []

/-- The task to go by shuttle to its second stop while only the time in it costs anything. -/
def shuttleTask (rate : Float) : Task Float :=
  .ofTimetable .shuttle 0 (ridesAt rate) ⟨⟨0⟩⟩ (.ofList [⟨⟨1⟩, 0, 0⟩])

/-- The first stop of the shuttle as the only origin, at midnight and at a cost. -/
def westOrigin (cost : Float) : CandidateSet Float := .ofList [⟨⟨0⟩, cost, 0⟩]

variable {rate cost : Float}

private theorem toList_westOrigin : (westOrigin cost).toList = [⟨⟨0⟩, cost, 0⟩] :=
  CandidateSet.toList_ofList_singleton _

private theorem mem_westOrigin : ⟨⟨0⟩, cost, 0⟩ ∈ (westOrigin cost).toList := by
  rw [toList_westOrigin]
  exact List.mem_singleton_self _

private theorem eq_of_mem_westOrigin {s : Candidate Float} (hs : s ∈ (westOrigin cost).toList) :
    s = ⟨⟨0⟩, cost, 0⟩ := by
  rw [toList_westOrigin] at hs
  exact List.mem_singleton.mp hs

private theorem eq_shuttleRide {e : Edge Float} (he : e ∈ (shuttleTask rate).network.edges) :
    e = shuttleRide := by
  have apart : Network.withinReach (0 : Float) east west = false := by decide +kernel
  have hedges : (shuttleTask rate).network.edges = #[shuttleRide] :=
    Network.edges_shuttleAt .morning apart
  rw [hedges] at he
  simpa using he

private theorem eq_of_isWalk {a b : NodeId} {es : List (Edge Float)}
    (walk : (shuttleTask rate).network.IsWalk a es b) :
    a = b ∧ es = [] ∨ b = ⟨1⟩ ∧ es = [shuttleRide] := by
  match es with
  | [] => exact .inl ⟨walk.1, rfl⟩
  | [e] =>
    obtain ⟨he, -, hhead, -⟩ := walk
    obtain rfl := eq_shuttleRide he
    exact .inr ⟨hhead.symm, rfl⟩
  | e :: e' :: rest =>
    obtain ⟨he, -, he', hmeet, -⟩ := walk
    rw [eq_shuttleRide he, eq_shuttleRide he'] at hmeet
    have hapart : (⟨0⟩ : NodeId) ≠ ⟨1⟩ := by decide
    exact absurd hmeet hapart

private theorem eq_of_comesTo {v : NodeId} {come : Arrival Float}
    (h : (shuttleTask rate).ComesTo (westOrigin cost) v come) :
    v = ⟨0⟩ ∧ come = ⟨cost, 0⟩ ∨ v = ⟨1⟩ ∧
      come = (shuttleTask rate).costs.onward (shuttleTask rate).person ⟨cost, 0⟩ shuttleRide := by
  obtain ⟨s, hs, es, walk, -, rfl⟩ := h
  obtain rfl := eq_of_mem_westOrigin hs
  rcases eq_of_isWalk walk with ⟨rfl, rfl⟩ | ⟨rfl, rfl⟩
  · exact .inl ⟨rfl, rfl⟩
  · exact .inr ⟨rfl, rfl⟩

private theorem isWalk_shuttleRide :
    (shuttleTask rate).network.IsWalk ⟨0⟩ [shuttleRide] ⟨1⟩ :=
  ⟨Network.shuttleRide_mem_edges, rfl, rfl, Nat.one_lt_two⟩

private theorem toList_destinations_shuttleTask :
    (shuttleTask rate).destinations.toList = [⟨⟨1⟩, 0, 0⟩] :=
  CandidateSet.toList_ofList_singleton _

private theorem connects_shuttle : (shuttleTask rate).Connects (westOrigin cost) :=
  ⟨_, mem_westOrigin, ⟨⟨1⟩, 0, 0⟩,
    by rw [toList_destinations_shuttleTask]; exact List.mem_singleton_self _, _, isWalk_shuttleRide⟩

private theorem eq_of_comesTo_tail {e : Edge Float} (he : e ∈ (shuttleTask rate).network.edges)
    {come : Arrival Float} (h : (shuttleTask rate).ComesTo (westOrigin cost) e.tail.id come) :
    come = ⟨cost, 0⟩ := by
  rcases eq_of_comesTo h with ⟨-, rfl⟩ | ⟨hv, -⟩
  · rfl
  · rw [eq_shuttleRide he] at hv
    cases hv

private theorem charges_of_shuttleRide
    (usable : Scalar.isFinite ((shuttleTask rate).charge shuttleRide 0) = true)
    (noRefund : Scalar.zero ≤ (shuttleTask rate).charge shuttleRide 0) :
    (shuttleTask rate).Charges (westOrigin cost) where
  usable e he come hcome := by
    rw [eq_shuttleRide he, eq_of_comesTo_tail he hcome]
    exact usable
  noRefund e he come hcome := by
    rw [eq_shuttleRide he, eq_of_comesTo_tail he hcome]
    exact noRefund

private theorem ends_shuttle {v : NodeId} {come : Arrival Float}
    (h : (shuttleTask rate).ComesTo (westOrigin cost) v come) :
    Timetable.shuttle.LookupsEnd 0 come.time := by
  have htime : come.time = 0 ∨ come.time = 29400 := by
    rcases eq_of_comesTo h with ⟨-, rfl⟩ | ⟨-, rfl⟩
    · exact .inl rfl
    · have htime : (0 : Float) + Cost.travelTime (Departures.ofTimetable .shuttle).lookup
          (ridesAt 0) shuttleRide 0 = 29400 := by decide +kernel
      exact .inr htime
  intro node hnode
  rw [Network.nodes_shuttle] at hnode
  have hnode : node = west ∨ node = east := by simpa using hnode
  rw [Departures.ends_iff]
  refine .inr ?_
  rcases hnode with rfl | rfl <;> rcases htime with htime | htime <;> rw [htime] <;> decide +kernel

/-- By shuttle one comes from the first stop to the second one. -/
theorem search_eq_none_iff_shuttle :
    (∀ v come, (shuttleTask (-1)).ComesTo (westOrigin 0) v come →
      Timetable.shuttle.LookupsEnd 0 come.time) ∧
    (shuttleTask (-1)).Affords (westOrigin 0) ∧
    (search .empty (shuttleTask (-1)) (westOrigin 0)).1 ≠ none := by
  have hcharge : Scalar.isFinite ((shuttleTask (-1)).charge shuttleRide 0) = true ∧
      Scalar.zero ≤ (shuttleTask (-1)).charge shuttleRide 0 ∧
      0 + (shuttleTask (-1)).charge shuttleRide 0 < Scalar.infinity := by decide +kernel
  have affords : (shuttleTask (-1)).Affords (westOrigin 0) :=
    { charges_of_shuttleRide hcharge.1 hcharge.2.1 with
      below := fun e he come hcome ↦ by
        rw [eq_shuttleRide he, eq_of_comesTo_tail he hcome]
        exact hcharge.2.2 }
  have departs : ∀ s ∈ (westOrigin 0).toList, s.cost < Scalar.infinity := by
    intro s hs
    rw [eq_of_mem_westOrigin hs]
    decide +kernel
  refine ⟨fun v come ↦ ends_shuttle, affords, fun hnone ↦ ?_⟩
  obtain ⟨-, hiff⟩ := search_eq_none_iff .shuttle 0 (ridesAt (-1)) ⟨⟨0⟩⟩ .empty (westOrigin 0)
    (.ofList [⟨⟨1⟩, 0, 0⟩]) (fun v come ↦ ends_shuttle) affords departs
  have connects : (shuttleTask (-1)).Connects (westOrigin 0) := connects_shuttle
  exact hiff.mp hnone connects

private theorem search_eq_none_of_overflow (charges : (shuttleTask rate).Charges (westOrigin cost))
    (overflows : ¬cost + (shuttleTask rate).charge shuttleRide 0 < Scalar.infinity) :
    (search .empty (shuttleTask rate) (westOrigin cost)).1 = none := by
  refine Option.eq_none_iff_forall_ne_some.mpr fun path found ↦ ?_
  have wf : (shuttleTask rate).network.WellFormed := Network.wellFormed_ofTimetable .shuttle 0
  obtain ⟨done, hexplored, -⟩ :=
    explored_finalState stopAtBest .empty wf (charges.noRefundsAlong.noRefundsFrom wf)
  obtain ⟨best, hbest, -⟩ := Option.bind_eq_some_iff.mp found
  obtain ⟨hdone, label, c, hlabel, hc, -⟩ := hexplored.best_eq best hbest
  obtain ⟨hmem, hnode⟩ := (CandidateSet.get?_eq_some_iff _ best.node c).mp hc
  -- The label of the second stop would show the sum.
  have hlt := hexplored.label_lt _ label hlabel
  have hcome := hexplored.comesTo wf hlabel
  rw [toList_destinations_shuttleTask, List.mem_singleton] at hmem
  rw [← hnode, hmem] at hcome
  rcases eq_of_comesTo hcome with ⟨hwest, -⟩ | ⟨-, hlabel⟩
  · cases hwest
  · have hcost : label.cost = _ := congrArg Arrival.cost hlabel
    rw [hcost] at hlt
    exact overflows hlt

/-- The ride and its origin both cost a finite number, but their sum overflows, and the search finds
nothing where a walk leads. -/
theorem search_eq_none_overflow : (Timetable.shuttle : Timetable Float).Built ∧
    (∀ v come, (shuttleTask (-2e305)).ComesTo (westOrigin 1.2e308) v come →
      Timetable.shuttle.LookupsEnd 0 come.time) ∧
    (shuttleTask (-2e305)).Charges (westOrigin 1.2e308) ∧
    (∀ s ∈ (westOrigin 1.2e308).toList, Scalar.isFinite s.cost = true) ∧
    (shuttleTask (-2e305)).Connects (westOrigin 1.2e308) ∧
    (search .empty (shuttleTask (-2e305)) (westOrigin 1.2e308)).1 = none := by
  have hcharge : Scalar.isFinite ((shuttleTask (-2e305)).charge shuttleRide 0) = true ∧
      Scalar.zero ≤ (shuttleTask (-2e305)).charge shuttleRide 0 ∧
      ¬1.2e308 + (shuttleTask (-2e305)).charge shuttleRide 0 < Scalar.infinity := by decide +kernel
  have charges : (shuttleTask (-2e305)).Charges (westOrigin 1.2e308) :=
    charges_of_shuttleRide hcharge.1 hcharge.2.1
  have departs : ∀ s ∈ (westOrigin 1.2e308).toList, Scalar.isFinite s.cost = true := by
    intro s hs
    rw [eq_of_mem_westOrigin hs]
    decide +kernel
  exact ⟨Timetable.built_shuttle, fun v come ↦ ends_shuttle, charges, departs, connects_shuttle,
    search_eq_none_of_overflow charges hcharge.2.2⟩

end DoorToDoor.LeastCost
