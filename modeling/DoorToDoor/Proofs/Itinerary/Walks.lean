import DoorToDoor.Proofs.Itinerary.Moves

/-!
# Journeys along walks

When the edges of a path meet, a ride in progress has always come to the node that the next edge
leaves (`OnWay.move`). So no ride ends at a node of another route, and there is an itinerary along
every walk through the network of a timetable: `Setting.exists_itinerary_of_isWalk`.
-/

namespace DoorToDoor.Routing

variable {α : Type} [Scalar α] {t : Timetable α} {reach : α} {s : Setting α} {r : Request α}

/-- A ride in progress: it was boarded at a node of its route, has reached a later one, and belongs
to the line of the route. -/
structure OnRoute (t : Timetable α) (reach : α) (ride : Boarded α) : Prop where
  boarding : ride.boarding ∈ (Network.ofTimetable t reach).nodes
  reached : ride.reached ∈ (Network.ofTimetable t reach).nodes
  boarding_route : ride.boarding.route = ride.route
  reached_route : ride.reached.route = ride.route
  line : ride.boarding.line = ride.line
  before : ride.boarding.position < ride.reached.position

/-- Where a traveller is when the path has led to a node: a ride has come to this node. -/
def OnWay (t : Timetable α) (reach : α) (v : NodeId) : Stage α → Prop
  | .atStart => True
  | .alighted node => node ∈ (Network.ofTimetable t reach).nodes
  | .riding ride => OnRoute t reach ride ∧ ride.reached.id = v

/-- Boarding at a ride edge begins a ride on its route. -/
theorem onRoute_board {e : Edge α} (he : e ∈ (Network.ofTimetable t reach).edges)
    {line : LineId} {route : RouteId} (kind : e.kind = .ride line route) :
    OnRoute t reach ⟨line, route, e.tail, e.head⟩ := by
  obtain ⟨htail, hhead, hline, hposition⟩ := Network.route_of_ride_mem_edges he kind
  obtain ⟨htailMem, hheadMem⟩ := Network.mem_nodes_of_mem_edges he
  refine ⟨htailMem, hheadMem, htail, hhead, hline, ?_⟩
  change e.tail.position < e.head.position
  omega

namespace OnRoute

variable {ride : Boarded α} {e : Edge α}

/-- A ride runs from one call of its route to a later one. -/
theorem exists_route? (h : OnRoute t reach ride) (wf : t.WellFormed) :
    ∃ route, t.route? ride.route = some route ∧ route ∈ t.routes ∧ route.line = ride.line ∧
      route.calls[ride.boarding.position]? = some ride.boarding.call ∧
      ride.boarding.call.stop = ride.boarding.stop ∧
      route.calls[ride.reached.position]? = some ride.reached.call ∧
      ride.reached.call.stop = ride.reached.stop := by
  obtain ⟨route, hroute, hmem, hline, hboarding, hboardingStop⟩ :=
    Network.exists_route?_of_mem_nodes wf h.boarding
  obtain ⟨route', hroute', -, -, hreached, hreachedStop⟩ :=
    Network.exists_route?_of_mem_nodes wf h.reached
  rw [h.boarding_route] at hroute
  rw [h.reached_route, hroute] at hroute'
  cases hroute'
  exact ⟨route, hroute, hmem, hline.trans h.line, hboarding, hboardingStop, hreached, hreachedStop⟩

/-- A ride has reached the node that the next edge leaves. -/
theorem reached_eq (h : OnRoute t reach ride) (he : e ∈ (Network.ofTimetable t reach).edges)
    (hmeet : ride.reached.id = e.tail.id) : ride.reached = e.tail :=
  Network.eq_of_mem_nodes h.reached (Network.mem_nodes_of_mem_edges he).1 hmeet

/-- A ride goes on along an edge of its route that leaves the node it has come to. -/
theorem stayOn (h : OnRoute t reach ride) (he : e ∈ (Network.ofTimetable t reach).edges)
    (hmeet : ride.reached.id = e.tail.id) {line : LineId} (kind : e.kind = .ride line ride.route) :
    OnRoute t reach { ride with reached := e.head } := by
  obtain ⟨-, hhead, -, hposition⟩ := Network.route_of_ride_mem_edges he kind
  have hbefore := h.before
  rw [h.reached_eq he hmeet] at hbefore
  refine ⟨h.boarding, (Network.mem_nodes_of_mem_edges he).2, h.boarding_route, hhead, h.line, ?_⟩
  change ride.boarding.position < e.head.position
  omega

end OnRoute

/-- Every move along an edge that leaves the node to which the path has led brings a ride to the
node to which the edge leads. -/
theorem OnWay.move {x y : Trip α × Stage α} {e : Edge α} (h : OnWay t reach e.tail.id x.2)
    (he : e ∈ (Network.ofTimetable t reach).edges) (hmove : s.Move r x e y) :
    OnWay t reach e.head.id y.2 := by
  cases hmove with
  | @walkOn trip stage e kind walking =>
    cases stage with
    | atStart => trivial
    | alighted node => exact h
    | riding ride => exact absurd rfl (walking ride)
  | alight => exact (Network.mem_nodes_of_mem_edges he).1
  | depart kind => exact ⟨onRoute_board he kind, rfl⟩
  | change kind => exact ⟨onRoute_board he kind, rfl⟩
  | stayOn kind => exact ⟨h.1.stayOn he h.2 kind, rfl⟩
  | switch kind => exact ⟨onRoute_board he kind, rfl⟩

namespace Setting

/-- An edge that leaves the node to which the path has led can be followed. -/
theorem exists_follow {x : Trip α × Stage α} {e : Edge α} (h : OnWay t reach e.tail.id x.2)
    (he : e ∈ (Network.ofTimetable t reach).edges) : ∃ y, s.follow r x e = .ok y := by
  obtain ⟨trip, stage⟩ := x
  unfold follow
  cases kind : e.kind with
  | transfer =>
    cases stage with
    | atStart => exact ⟨_, rfl⟩
    | alighted node => exact ⟨_, rfl⟩
    | riding ride =>
      have hroute : e.tail.route = ride.route := by
        rw [← h.1.reached_eq he h.2, h.1.reached_route]
      exact ⟨_, Result.map_eq_ok.mpr ⟨_, closeRide_eq_ok.mpr ⟨hroute, rfl⟩, rfl⟩⟩
  | ride line route =>
    cases stage with
    | atStart => exact ⟨_, rfl⟩
    | alighted node => exact ⟨_, rfl⟩
    | riding ride =>
      by_cases same : route = ride.route
      · exact ⟨_, if_pos same⟩
      · have hclosed : s.closeRide r trip ride ride.reached
            (s.rideDistance ride.boarding ride.reached) = .ok _ :=
          closeRide_eq_ok.mpr ⟨h.1.reached_route, rfl⟩
        exact ⟨_, (if_neg same).trans (Result.map_eq_ok.mpr ⟨_, hclosed, rfl⟩)⟩

/-- A journey can be concluded at the node to which the path has led. -/
theorem exists_conclude {last : Node α} (hlast : last ∈ (Network.ofTimetable t reach).nodes)
    {trip : Trip α} {stage : Stage α} (h : OnWay t reach last.id stage) :
    ∃ legs, s.conclude r last trip stage = .ok legs := by
  cases stage with
  | atStart => exact ⟨_, rfl⟩
  | alighted node => exact ⟨_, rfl⟩
  | riding ride =>
    have hroute : last.route = ride.route := by
      rw [← Network.eq_of_mem_nodes h.1.reached hlast h.2, h.1.reached_route]
    exact ⟨_, Result.map_eq_ok.mpr ⟨_, closeRide_eq_ok.mpr ⟨hroute, rfl⟩, rfl⟩⟩

/-- There is an itinerary along every walk through the network of a timetable. -/
theorem exists_itinerary_of_isWalk {path : Path α}
    (walk : (Network.ofTimetable t reach).IsWalk path.first.id path.edges path.last.id)
    (last : path.last ∈ (Network.ofTimetable t reach).nodes) :
    ∃ legs, s.itinerary r path = .ok legs := by
  -- While edges are left, they are a walk from the node to which the path has led.
  obtain ⟨⟨trip, stage⟩, hfold, v, ⟨rfl, -⟩, hstage⟩ := Result.exists_foldlM
    (f := s.follow r)
    (P := fun es x ↦ ∃ v, (Network.ofTimetable t reach).IsWalk v es path.last.id ∧
      OnWay t reach v x.2)
    (by
      rintro e rest x ⟨v, ⟨he, rfl, hrest⟩, hstage⟩
      obtain ⟨y, hy⟩ := exists_follow (s := s) (r := r) hstage he
      exact ⟨y, hy, e.head.id, hrest, hstage.move he (move_of_follow hy)⟩)
    path.edges (x := (Trip.start r.departure, .atStart)) ⟨_, walk, trivial⟩
  obtain ⟨legs, hlegs⟩ : ∃ legs, s.conclude r path.last trip stage = .ok legs :=
    exists_conclude last hstage
  exact ⟨legs, Result.bind_eq_ok.mpr ⟨_, hfold, hlegs⟩⟩

end Setting

end DoorToDoor.Routing
