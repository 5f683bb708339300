import DoorToDoor.Proofs.Decision
import DoorToDoor.Proofs.Itinerary.Runs

/-!
# Rides along runs

An itinerary along a walk through the network of a timetable takes the runs of its ride edges one
after the other: the way to where a run begins, and one ride to where it ends
(`itinerary_eq_of_isWalk`). So its rides are those along the runs, in order: `rides_of_itinerary`.
-/

namespace DoorToDoor.Routing

variable {α : Type} [Scalar α] {t : Timetable α} {reach : α} {s : Setting α} {r : Request α}
  {run : Run α}

namespace Setting

/-- How long the ride along a run is: as the transfer behind it, or as the walk between its stops
where the path ends. -/
def runDistance (s : Setting α) (run : Run α) : α :=
  match run.behind with
  | some e => e.length
  | none => s.rideDistance run.boarding run.alighting

/-- Goes to where a run begins, from where the last ride ended if there was one, and rides along
it. -/
def takeRun (s : Setting α) (r : Request α) (x : Trip α × Option (Node α)) (run : Run α) :
    Trip α × Option (Node α) :=
  (s.alight (s.approach r x.1 x.2 run.boarding) (boarded run) run.alighting (s.runDistance run),
    some run.alighting)

/-- The legs of a journey whose last ride, if it has one, has ended at a node. -/
def finish (s : Setting α) (r : Request α) (x : Trip α × Option (Node α)) : List (Leg α) :=
  match x.2 with
  | none => [s.direct r]
  | some node => (s.addEgress r x.1 node).legs

private theorem move_onFoot {trip : Trip α} {place : Option (Node α)} {e : Edge α} {line : LineId}
    {route : RouteId} (kind : e.kind = .ride line route) :
    s.Move r (trip, .onFoot place) e
      (s.approach r trip place e.tail, .riding ⟨line, route, e.tail, e.head⟩) := by
  cases place with
  | none => exact .depart kind
  | some node => exact .change kind

private theorem move_onFoot_of_transfer {trip : Trip α} {place : Option (Node α)} {e : Edge α}
    (kind : e.kind = .transfer) :
    s.Move r (trip, .onFoot place) e (trip, .onFoot place) := by
  refine .walkOn kind fun ride heq ↦ ?_
  cases place <;> cases heq

/-- Along what is left of a walk the runs are taken one after the other. This holds on foot, and
aboard, where the run in progress goes on. -/
theorem scanFrom_eq (wf : t.WellFormed) {last : Node α}
    (hlast : last ∈ (Network.ofTimetable t reach).nodes) (es : List (Edge α)) :
    (∀ trip place v, (Network.ofTimetable t reach).IsWalk v es last.id →
      s.scanFrom r last es (trip, .onFoot place) =
        .ok (s.finish r ((runs es).foldl (s.takeRun r) (trip, place)))) ∧
    ∀ trip place run, AlongRoute t reach run →
      (Network.ofTimetable t reach).IsWalk run.alighting.id es last.id →
      s.scanFrom r last es (s.approach r trip place run.boarding, .riding (boarded run)) =
        .ok (s.finish r ((run.followedBy es).foldl (s.takeRun r) (trip, place))) := by
  induction es with
  | nil =>
    refine ⟨fun trip place _ _ ↦ ?_, fun trip place run h walk ↦ ?_⟩
    · rw [runs_nil]
      cases place <;> rfl
    · have hend : run.alighting = last := Network.eq_of_mem_nodes h.onRoute.reached hlast walk.1
      subst hend
      rw [Run.followedBy_nil]
      exact conclude_of_ending (.riding h.onRoute.reached_route)
  | cons e rest ih =>
    obtain ⟨hwalking, hriding⟩ := ih
    cases kind : e.kind with
    | transfer =>
      refine ⟨fun trip place v walk ↦ ?_, fun trip place run h walk ↦ ?_⟩
      · rw [scanFrom_of_move (move_onFoot_of_transfer kind), runs_cons_of_transfer kind]
        exact hwalking trip place _ walk.2.2
      · obtain ⟨he, hmeet, hrest⟩ := walk
        have hend : run.alighting = e.tail := h.onRoute.reached_eq he hmeet.symm
        have hroute : e.tail.route = run.route := hend ▸ h.onRoute.reached_route
        rw [scanFrom_of_move (.alight kind hroute),
          Run.followedBy_cons_of_transfer kind, ← hend]
        exact hwalking _ (some run.alighting) _ hrest
    | ride line route =>
      refine ⟨fun trip place v walk ↦ ?_, fun trip place run h walk ↦ ?_⟩
      · obtain ⟨he, -, hrest⟩ := walk
        rw [scanFrom_of_move (move_onFoot kind), runs_cons_of_ride kind]
        exact hriding trip place _ (.single he kind) hrest
      · obtain ⟨he, hmeet, hrest⟩ := walk
        obtain ⟨rfl, rfl⟩ := h.ride_eq wf he hmeet.symm kind
        have hlonger := hriding trip place _ (h.extend he hmeet.symm kind)
          (run.alighting_extend e ▸ hrest)
        rw [boarded_extend] at hlonger
        rw [scanFrom_of_move (.stayOn kind), Run.followedBy_cons_of_ride kind]
        exact hlonger

/-- The itinerary along a walk takes the runs of its rides one after the other. -/
theorem itinerary_eq_of_isWalk (wf : t.WellFormed) {path : Path α}
    (walk : (Network.ofTimetable t reach).IsWalk path.first.id path.edges path.last.id)
    (last : path.last ∈ (Network.ofTimetable t reach).nodes) :
    s.itinerary r path =
      .ok (s.finish r ((runs path.edges).foldl (s.takeRun r) (.start r.departure, none))) :=
  (scanFrom_eq wf last path.edges).1 (.start r.departure) none path.first.id walk

end Setting

/-- Whether a leg is the ride along a run: on the line and the route of all its edges, from the stop
at which the run begins to the one to which it leads, a later call of the route. It is as long as
the transfer behind the run, or as a walk along the straight line between the two stops where none
is behind it. -/
structure IsRideAlong (t : Timetable α) (p : Parameters α) (run : Run α) (leg : Leg α) :
    Prop where
  mode : leg.mode = .transit
  course : leg.course = .ride ⟨run.boarding.stop, run.line, run.route, run.alighting.stop⟩
  kind : ∀ e ∈ run.edges, e.kind = .ride run.line run.route
  before : run.boarding.position < run.alighting.position
  calls : ∃ route, t.route? run.route = some route ∧ route.line = run.line ∧
    route.calls[run.boarding.position]? = some run.boarding.call ∧
    run.boarding.call.stop = run.boarding.stop ∧
    route.calls[run.alighting.position]? = some run.alighting.call ∧
    run.alighting.call.stop = run.alighting.stop
  distance : ∃ start finish, t.coord? run.boarding.stop = some start ∧
    t.coord? run.alighting.stop = some finish ∧
    leg.distance = (run.behind.map (·.length)).getD (p.walkDistance (start.distance finish))

/-- The ride along a run is a ride. -/
theorem IsRideAlong.isRide {p : Parameters α} {leg : Leg α} (h : IsRideAlong t p run leg) :
    leg.isRide = true := by
  rw [Leg.isRide, Leg.way?, h.course]
  rfl

namespace Setting

/-- Taking a run adds the ride along it behind the way to where it begins. The ride departs at the
end of the way, and the clock shows when it arrives. -/
theorem exists_takeRun (s : Setting α) (r : Request α) (wf : t.WellFormed)
    (along : AlongRoute t reach run) (trip : Trip α) (place : Option (Node α)) :
    ∃ leg, (s.takeRun r (trip, place) run).1.legs =
        (s.approach r trip place run.boarding).legs ++ [leg] ∧
      IsRideAlong t s.parameters run leg ∧
      leg.departure = (s.approach r trip place run.boarding).clock ∧
      leg.arrival = (s.takeRun r (trip, place) run).1.clock := by
  obtain ⟨route, hroute, -, hline, hcalls⟩ := along.onRoute.exists_route? wf
  refine ⟨_, Trip.legs_push _ _, ?_, rfl, rfl⟩
  constructor
  case mode => rfl
  case course => rfl
  case kind => exact along.kind
  case before => exact along.onRoute.before
  case calls => exact ⟨route, hroute, hline, hcalls⟩
  case distance =>
    refine ⟨_, _, (located_of_mem_nodes wf along.onRoute.boarding).1,
      (located_of_mem_nodes wf along.onRoute.reached).1, ?_⟩
    change s.runDistance run = _
    unfold runDistance
    cases run.behind <;> rfl

/-- Taking runs from where a ride has ended adds the rides along them, and no others. -/
theorem exists_foldl_takeRun (wf : t.WellFormed) (rs : List (Run α))
    (along : ∀ run ∈ rs, AlongRoute t reach run) (trip : Trip α) (node : Node α) :
    ∃ legs, (rs.foldl (s.takeRun r) (trip, some node)).1.legs = trip.legs ++ legs ∧
      List.Forall₂ (IsRideAlong t s.parameters) rs (legs.filter Leg.isRide) := by
  induction rs generalizing trip node with
  | nil => exact ⟨[], (List.append_nil _).symm, .nil⟩
  | cons run rest ih =>
    obtain ⟨hrun, hrest⟩ := List.forall_mem_cons.mp along
    obtain ⟨change, hchange, hnone⟩ := s.exists_approach r trip node run.boarding
    obtain ⟨leg, hleg, hride, -⟩ := s.exists_takeRun r wf hrun trip (some node)
    obtain ⟨legs, hlegs, hrides⟩ := ih hrest (s.takeRun r (trip, some node) run).1 run.alighting
    refine ⟨change ++ leg :: legs, ?_, ?_⟩
    · refine hlegs.trans ?_
      rw [hleg, hchange]
      simp only [List.append_assoc, List.cons_append, List.nil_append]
    · rw [List.filter_append, hnone, List.nil_append, List.filter_cons_of_pos hride.isRide]
      exact .cons hride hrides

private theorem exists_foldl_takeRun_start (wf : t.WellFormed) (run : Run α) (rest : List (Run α))
    (along : ∀ x ∈ run :: rest, AlongRoute t reach x) :
    ∃ rides, ((run :: rest).foldl (s.takeRun r) (.start r.departure, none)).1.legs =
        (s.addAccess r (.start r.departure) run.boarding).legs ++ rides ∧
      List.Forall₂ (IsRideAlong t s.parameters) (run :: rest) (rides.filter Leg.isRide) := by
  obtain ⟨hrun, hrest⟩ := List.forall_mem_cons.mp along
  obtain ⟨leg, hleg, hride, -⟩ := s.exists_takeRun r wf hrun (.start r.departure) none
  obtain ⟨legs, hlegs, hothers⟩ := s.exists_foldl_takeRun wf rest hrest
    (s.takeRun r (.start r.departure, none) run).1 run.alighting
  refine ⟨leg :: legs, hlegs.trans ?_, ?_⟩
  · rw [hleg, List.append_assoc]
    rfl
  · rw [List.filter_cons_of_pos hride.isRide]
    exact .cons hride hothers

/-- Runs that are taken from where a ride has ended, and the way from the last of them, add legs. -/
theorem isPrefix_finish (s : Setting α) (r : Request α) (rs : List (Run α)) (trip : Trip α)
    (node : Node α) : trip.legs <+: s.finish r (rs.foldl (s.takeRun r) (trip, some node)) := by
  induction rs generalizing trip node with
  | nil => exact (s.continues_addEgress r trip node).isPrefix
  | cons run rest ih =>
    exact ((s.continues_approach r trip (some node) run.boarding).push _).isPrefix.trans (ih _ _)

/-- The last run that is taken leads to where the traveller is then. -/
theorem place_foldl_takeRun {rs : List (Run α)} (h : rs.getLast? = some run)
    (x : Trip α × Option (Node α)) : (rs.foldl (s.takeRun r) x).2 = some run.alighting := by
  obtain ⟨before, rfl⟩ := List.getLast?_eq_some_iff.mp h
  rw [List.foldl_append]
  rfl

/-- Along every walk with a ride through the network of a timetable there is an itinerary, and its
rides are those along the maximal runs of rides of the walk, one for each and in order: behind the
way to where the first run begins, and in front of the way from where the last one leads. Only an
access model that rides would add others there. Two rides in a row on the walk are always along the
same route. -/
theorem rides_of_itinerary (t : Timetable α) (built : t.Built) (reach : α) (s : Setting α)
    (r : Request α) (path : Path α)
    (walk : (Network.ofTimetable t reach).IsWalk path.first.id path.edges path.last.id)
    (last : path.last ∈ (Network.ofTimetable t reach).nodes)
    (ridden : ∃ e ∈ path.edges, e.isRide = true) :
    (path.edges.IsChain fun e e' ↦
      e.isRide = true → e'.isRide = true → e'.route? = e.route?) ∧
    ∃ boarding alighting access rides egress,
      (runs path.edges).head?.map Run.boarding = some boarding ∧
      (runs path.edges).getLast?.map Run.alighting = some alighting ∧
      s.itinerary r path = .ok (access ++ rides ++ egress) ∧
      access = (s.addAccess r (.start r.departure) boarding).legs ∧
      (∃ trip, trip.legs = access ++ rides ∧
        (s.addEgress r trip alighting).legs = access ++ rides ++ egress) ∧
      List.Forall₂ (IsRideAlong t s.parameters) (runs path.edges) (rides.filter Leg.isRide) ∧
      (s.access.NeverRides →
        (access ++ rides ++ egress).filter Leg.isRide = rides.filter Leg.isRide) := by
  have wf := built.wellFormed
  refine ⟨(isChain_of_isWalk wf walk).imp fun e e' hkind hride hride' ↦ ?_, ?_⟩
  · rw [Edge.route?, Edge.route?, hkind hride hride']
  have hrides : runs path.edges ≠ [] := by
    intro hnone
    obtain ⟨e, he, hride⟩ := ridden
    have hmem : e ∈ path.edges.filter Edge.isRide := List.mem_filter.mpr ⟨he, hride⟩
    rw [← flatMap_edges_runs, hnone] at hmem
    cases hmem
  obtain ⟨run, rest, hruns⟩ := List.exists_cons_of_ne_nil hrides
  have hfinal := List.getLast?_eq_some_getLast hrides
  have hplace := s.place_foldl_takeRun (r := r) hfinal (.start r.departure, none)
  obtain ⟨rides, hbefore, hmatch⟩ := s.exists_foldl_takeRun_start (r := r) wf run rest
    (hruns ▸ (AlongRoute.of_mem_followedBy wf).1 path.first.id walk)
  rw [← hruns] at hbefore hmatch
  obtain ⟨egress, hegress⟩ := (s.continues_addEgress r
    ((runs path.edges).foldl (s.takeRun r) (.start r.departure, none)).1
    ((runs path.edges).getLast hrides).alighting).isPrefix
  rw [hbefore] at hegress
  refine ⟨run.boarding, _, _, rides, egress, by rw [hruns]; rfl, by rw [hfinal]; rfl, ?_, rfl,
    ⟨_, hbefore, hegress.symm⟩, hmatch, fun never ↦ ?_⟩
  · rw [itinerary_eq_of_isWalk wf walk last, finish, hplace]
    exact congrArg Except.ok hegress.symm
  · rw [hegress, filter_addEgress _ (never ..), hbefore, List.filter_append,
      filter_addAccess _ (never ..)]
    rfl

/-- The one ride of a journey by shuttle is along the one run of its path. -/
theorem rides_of_itinerary_shuttle : ∃ access rides egress : List (Leg Float),
    shuttleByTaxi.itinerary shuttleRequest shuttlePath = .ok (access ++ rides ++ egress) ∧
      List.Forall₂ (IsRideAlong .shuttle Parameters.default)
        [⟨⟨0⟩, ⟨0⟩, Network.shuttleRide, [], none⟩] (rides.filter Leg.isRide) ∧
      (access ++ rides ++ egress).filter Leg.isRide = rides.filter Leg.isRide := by
  have walk : (Network.ofTimetable .shuttle (0 : Float)).IsWalk
      (shuttlePath : Path Float).first.id shuttlePath.edges shuttlePath.last.id :=
    ⟨Network.shuttleRide_mem_edges, rfl, rfl, Nat.one_lt_two⟩
  have last : (shuttlePath : Path Float).last ∈ (Network.ofTimetable .shuttle 0).nodes := by
    rw [Network.nodes_shuttle]
    exact Array.mem_of_getElem? (i := 1) rfl
  obtain ⟨-, -, -, access, rides, egress, -, -, found, -, -, along, rest⟩ :=
    rides_of_itinerary .shuttle Timetable.built_shuttle 0 shuttleByTaxi shuttleRequest shuttlePath
      walk last ⟨Network.shuttleRide, List.mem_singleton_self _, rfl⟩
  have hruns : runs (shuttlePath : Path Float).edges =
      [⟨⟨0⟩, ⟨0⟩, Network.shuttleRide, [], none⟩] := by
    have kind : (Network.shuttleRide : Edge Float).kind = .ride ⟨0⟩ ⟨0⟩ := rfl
    exact (runs_cons_of_ride kind).trans Run.followedBy_nil
  rw [hruns] at along
  exact ⟨access, rides, egress, found, along, rest fun _ _ _ _ _ ↦ rfl⟩

end Setting

end DoorToDoor.Routing
