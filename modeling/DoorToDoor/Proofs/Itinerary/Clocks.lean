import DoorToDoor.Proofs.Costs
import DoorToDoor.Proofs.Failures
import DoorToDoor.Proofs.Itinerary.RideEnds
import DoorToDoor.Proofs.Itinerary.VehicleRuns
import DoorToDoor.Proofs.Search.RunningClock
import DoorToDoor.Proofs.Timetable.Dwells

/-!
# Two clocks

The clock of a search runs along the edges of a walk and asks for the next vehicle at every call.
The clock of an itinerary runs along the legs, asks for one vehicle for each ride, and calculates
the walks between stops anew. In exact arithmetic and without a transfer margin both show the same
time wherever a ride ends (`rideArrivals_of_itinerary`), because a traveller who has come to a call
in a vehicle is told of this vehicle again unless it stays too long (`Departures.next_of_startsAt`).
-/

namespace DoorToDoor.Routing

/-- A journey in the making is in step with a clock that has run to a node and still has to run
along some edges: the rides so far end at the first of the given times, and those to come will end
at the others. On foot the traveller would board at the node when the clock shows the time; in a
vehicle, the vehicle is at the node at this time. -/
inductive InStep (t : Timetable EReal) (reach : EReal) (s : Setting EReal) (r : Request EReal)
    (ends : List EReal) : NodeId → EReal → List (Edge EReal) → Trip EReal × Stage EReal → Prop
  | afoot {v : NodeId} {now : EReal} {es : List (Edge EReal)} {trip : Trip EReal}
    {alighted? : Option (Node EReal)} (journey : IsJourney es)
    (boards : ∀ stop ∈ (Network.ofTimetable t reach).nodes, stop.id = v →
      (s.approach r trip alighted? stop).clock = now)
    (ended : ends = trip.rideArrivals ++ s.costs.rideEnds r.person now es) :
    InStep t reach s r ends v now es (trip, .onFoot alighted?)
  | aboard {v : NodeId} {now starts : EReal} {es : List (Edge EReal)} {trip : Trip EReal}
    {ride : Boarded EReal} (rest : EndsRiding es) (run : t.StartsAt ride.route starts)
    (next : s.lookup.next ride.route ride.boarding.call trip.clock =
      starts + ride.boarding.call.departs)
    (arrives : now = starts + ride.reached.call.arrives)
    (ended : ends = trip.rideArrivals ++ s.costs.rideEndsAboard r.person ride.route now es) :
    InStep t reach s r ends v now es (trip, .riding ride)

section

variable {t : Timetable EReal} {reach : EReal} {access : AccessModel EReal}
  {p : Parameters EReal} {r : Request EReal} {ends : List EReal} {e : Edge EReal}
  {rest : List (Edge EReal)} {now starts : EReal} {trip : Trip EReal} {ride : Boarded EReal}
  {line : LineId} {route : RouteId} (wf : t.WellFormed) (finite : t.IsFinite)
  (he : e ∈ (Network.ofTimetable t reach).edges)

include wf finite

/-- When a ride ends where it has come to, the clock shows when the vehicle is there. -/
theorem clock_alight (onRoute : OnRoute t reach ride)
    (clock : Scalar.isFinite trip.clock = true)
    (next : (Departures.ofTimetable t).lookup.next ride.route ride.boarding.call trip.clock =
      starts + ride.boarding.call.departs) (distance : EReal) :
    ((Setting.ofTimetable t access p).alight trip ride ride.reached distance).clock =
      starts + ride.reached.call.arrives := by
  have harrival : (Setting.ofTimetable t access p).rideArrival ride ride.reached trip.clock =
      starts + ride.reached.call.arrives :=
    rideArrival_eq (finite.call wf onRoute.boarding).2 (finite.call wf onRoute.reached).1 next
  rw [Setting.alight, Trip.clock_push]
  change trip.clock + ((Setting.ofTimetable t access p).rideArrival ride ride.reached trip.clock -
    trip.clock) = _
  rw [Scalar.add_sub_cancel_of_isFinite clock, harrival]

include he

omit wf finite in
/-- The walk that is added between two stops takes as long as the transfer between them. -/
theorem travelTime_walk_of_transfer (person : Person) (startLink finishLink : Option LinkId) :
    ((Setting.ofTimetable t access p).walk person e.tail.coord startLink e.head.coord
      finishLink).travelTime = Cost.transferTime p e := by
  rw [Cost.transferTime, Network.length_of_mem_edges he, Setting.walk, Leg.withLinks,
    Leg.travelTime_mapWay]
  rfl

/-- Without a margin the way that is added between two stops takes as long as the transfer between
them. -/
theorem clock_approach_of_transfer (margin : p.transferMargin = 0) :
    ((Setting.ofTimetable t access p).approach r trip (some e.tail) e.head).clock =
      trip.clock + Cost.transferTime p e := by
  rw [Setting.approach]
  split
  · next same => rw [Cost.transferTime_of_stop_eq wf he finite.coord same, margin, add_zero]
  · exact congrArg (trip.clock + ·)
      (travelTime_walk_of_transfer he r.person (some e.tail.link) (some e.head.link))

namespace InStep

/-- Who boards a vehicle when the clock shows it stays in step. -/
theorem board (ordered : t.Ordered) (ways : access.RunsBetween) (kind : e.kind = .ride line route)
    {alighted? : Option (Node EReal)} (journey : IsJourney (e :: rest))
    (boards : ∀ stop ∈ (Network.ofTimetable t reach).nodes, stop.id = e.tail.id →
      ((Setting.ofTimetable t access p).approach r trip alighted? stop).clock = now)
    (ended : ends = trip.rideArrivals ++
      (Setting.ofTimetable t access p).costs.rideEnds r.person now (e :: rest))
    (hnow : Scalar.isFinite now = true) :
    InStep t reach (.ofTimetable t access p) r ends e.head.id
      (now + (Setting.ofTimetable t access p).costs.travelTime r.person e now) rest
      ((Setting.ofTimetable t access p).approach r trip alighted? e.tail,
        Setting.board line route e) := by
  have hmem := (Network.mem_nodes_of_mem_edges he).1
  have hride : e.route? = some route := by rw [Edge.route?, kind]
  obtain ⟨rfl, -⟩ := Network.route_of_ride_mem_edges he kind
  obtain ⟨starts, hrun, hnext⟩ := Departures.exists_startsAt_of_mem_nodes wf finite hmem hnow
  refine .aboard journey.tail hrun ?_ ?_ ?_
  · rw [boards e.tail hmem rfl]
    exact hnext
  · have onward := Cost.departs_le_arrives wf he kind fun r hr ↦
      ordered r (Array.mem_of_getElem? hr)
    exact Cost.add_travelTime_of_next wf finite he onward kind hnow hrun.isFinite hnext
  · rw [ended, Setting.rideArrivals_approach ways, CostModel.rideEnds_cons_of_ride hride]

/-- Who stays in a vehicle stays in step, unless the vehicle stays too long at a call. -/
theorem stayOn (ordered : t.Ordered) (gaps : t.DwellsWithinGaps) (day : t.DwellsWithinDay)
    (onRoute : OnRoute t reach ride) (meet : ride.reached.id = e.tail.id)
    (kind : e.kind = .ride line ride.route) (ending : EndsRiding (e :: rest))
    (run : t.StartsAt ride.route starts)
    (next : (Departures.ofTimetable t).lookup.next ride.route ride.boarding.call trip.clock =
      starts + ride.boarding.call.departs)
    (arrives : now = starts + ride.reached.call.arrives)
    (ended : ends = trip.rideArrivals ++
      (Setting.ofTimetable t access p).costs.rideEndsAboard r.person ride.route now (e :: rest)) :
    InStep t reach (.ofTimetable t access p) r ends e.head.id
      (now + (Setting.ofTimetable t access p).costs.travelTime r.person e now) rest
      (trip, .riding { ride with reached := e.head }) := by
  have hmem := (Network.mem_nodes_of_mem_edges he).1
  have hride : e.route? = some ride.route := by rw [Edge.route?, kind]
  have hreached := onRoute.reached_eq he meet
  have hroute : e.tail.route = ride.route := by rw [← hreached, onRoute.reached_route]
  have hbehind : 0 < e.tail.position := by
    have hbefore := onRoute.before
    rw [hreached] at hbefore
    exact Nat.zero_lt_of_lt hbefore
  have hrun : t.StartsAt e.tail.route starts := hroute ▸ run
  obtain ⟨r, hfound, hr, -⟩ := Network.exists_route?_of_mem_nodes wf hmem
  have hagain := Departures.next_of_startsAt wf finite hmem hfound (ordered r hr) (gaps r hr)
    (day r hr) hrun hbehind (Network.canDepart_of_ride wf he kind)
  rw [hreached] at arrives
  subst arrives
  have hnow := Scalar.isFinite_add hrun.isFinite (finite.call wf hmem).1
  refine .aboard ending.tail run next ?_ ?_
  · have onward := Cost.departs_le_arrives wf he kind fun r hr ↦
      ordered r (Array.mem_of_getElem? hr)
    exact Cost.add_travelTime_of_next wf finite he onward kind hnow hrun.isFinite hagain
  · rw [ended, CostModel.rideEndsAboard_cons_of_ride hride]

/-- Who alights for a transfer stays in step, because the way to the next boarding is added as the
transfer says. -/
theorem alight (margin : p.transferMargin = 0) (onRoute : OnRoute t reach ride)
    (meet : ride.reached.id = e.tail.id) (kind : e.kind = .transfer)
    (clock : Scalar.isFinite trip.clock = true) (ending : EndsRiding (e :: rest))
    (next : (Departures.ofTimetable t).lookup.next ride.route ride.boarding.call trip.clock =
      starts + ride.boarding.call.departs)
    (arrives : now = starts + ride.reached.call.arrives)
    (ended : ends = trip.rideArrivals ++
      (Setting.ofTimetable t access p).costs.rideEndsAboard r.person ride.route now (e :: rest)) :
    InStep t reach (.ofTimetable t access p) r ends e.head.id
      (now + (Setting.ofTimetable t access p).costs.travelTime r.person e now) rest
      ((Setting.ofTimetable t access p).alight trip ride e.tail e.length, .alighted e.tail) := by
  have htransfer : e.route? = none := by rw [Edge.route?, kind]
  have hreached := onRoute.reached_eq he meet
  have htime : (Setting.ofTimetable t access p).costs.travelTime r.person e now =
      Cost.transferTime p e := Cost.travelTime_of_transfer _ p kind now
  have hclock :
      ((Setting.ofTimetable t access p).alight trip ride e.tail e.length).clock = now := by
    rw [← hreached, clock_alight wf finite onRoute clock next, arrives]
  change InStep t reach _ r ends e.head.id _ rest (_, Stage.onFoot (some e.tail))
  refine .afoot (ending.isJourney_of_transfer htransfer) ?_ ?_
  · intro stop hstop hid
    obtain rfl := Network.eq_of_mem_nodes hstop (Network.mem_nodes_of_mem_edges he).2 hid
    rw [clock_approach_of_transfer wf finite he margin, hclock, htime]
  · rw [ended, CostModel.rideEndsAboard_cons_of_transfer htransfer,
      Setting.rideArrivals_alight, hclock, List.append_assoc]
    rfl

/-- Every move along the next edge of a walk keeps a journey in step. -/
theorem move (ordered : t.Ordered) (gaps : t.DwellsWithinGaps) (day : t.DwellsWithinDay)
    (margin : p.transferMargin = 0) (ways : access.RunsBetween)
    {x y : Trip EReal × Stage EReal} (onWay : OnWay t reach e.tail.id x.2)
    (clock : Scalar.isFinite x.1.clock = true) (clock' : Scalar.isFinite y.1.clock = true)
    (hmove : (Setting.ofTimetable t access p).Move r x e y)
    (h : InStep t reach (.ofTimetable t access p) r ends e.tail.id now (e :: rest) x) :
    InStep t reach (.ofTimetable t access p) r ends e.head.id
      (now + (Setting.ofTimetable t access p).costs.travelTime r.person e now) rest y := by
  have hmem := (Network.mem_nodes_of_mem_edges he).1
  cases h with
  | @afoot _ _ alighted? journey boards ended =>
    have hride : e.kind ≠ .transfer := by
      intro htransfer
      obtain ⟨first, hfirst, hride⟩ := journey.first
      cases hfirst
      rw [Edge.route?, htransfer] at hride
      cases hride
    cases alighted? with
    | none =>
      cases hmove with
      | walkOn kind => exact absurd kind hride
      | depart kind =>
        have hnow : Scalar.isFinite now = true := boards e.tail hmem rfl ▸ clock'
        exact board wf finite he ordered ways kind journey boards ended hnow
    | some node =>
      cases hmove with
      | walkOn kind => exact absurd kind hride
      | change kind =>
        have hnow : Scalar.isFinite now = true := boards e.tail hmem rfl ▸ clock'
        exact board wf finite he ordered ways kind journey boards ended hnow
  | aboard ending run next arrives ended =>
    obtain ⟨onRoute, meet⟩ := onWay
    cases hmove with
    | walkOn _ walking => exact absurd rfl (walking _)
    | alight kind =>
      exact alight wf finite he margin onRoute meet kind clock ending next arrives ended
    | stayOn kind =>
      exact stayOn wf finite he ordered gaps day onRoute meet kind ending run next arrives ended
    | switch kind _ other =>
      -- The next edge leaves the node that the vehicle has come to, on the route of the vehicle.
      obtain ⟨hroute, -⟩ := Network.route_of_ride_mem_edges he kind
      rw [← onRoute.reached_eq he meet, onRoute.reached_route] at hroute
      exact absurd hroute.symm other

omit he in
/-- When a journey in step ends with its path, its rides have ended at the given times. -/
theorem ending (ways : access.RunsBetween) {last : Node EReal}
    (hlast : last ∈ (Network.ofTimetable t reach).nodes) {x : Trip EReal × Stage EReal}
    (onWay : OnWay t reach last.id x.2) (clock : Scalar.isFinite x.1.clock = true)
    {legs : List (Leg EReal)} (hending : (Setting.ofTimetable t access p).Ending r last x legs)
    (h : InStep t reach (.ofTimetable t access p) r ends last.id now [] x) :
    (legs.filter Leg.isRide).map Leg.arrival = ends := by
  cases h with
  | afoot journey =>
    obtain ⟨e, he, -⟩ := journey.first
    cases he
  | @aboard _ _ trip ride _ _ next arrives ended =>
    obtain ⟨onRoute, meet⟩ := onWay
    have hsame : ride.reached = last := Network.eq_of_mem_nodes onRoute.reached hlast meet
    cases hending with
    | riding route =>
      change (Setting.addEgress _ r _ _).rideArrivals = _
      rw [Setting.rideArrivals_addEgress ways, Setting.rideArrivals_alight, ← hsame,
        clock_alight wf finite onRoute clock next, ← arrives, ended]
      rfl

end InStep

omit he in
/-- Without a margin the way to a stop takes as long as the leg to it. -/
theorem clock_addAccess (margin : p.transferMargin = 0) (ways : access.RunsBetween)
    {stop : Node EReal} (hstop : stop ∈ (Network.ofTimetable t reach).nodes) :
    ((Setting.ofTimetable t access p).addAccess r trip stop).clock =
      trip.clock + (access.leg r.person r.start stop.coord trip.clock false).travelTime := by
  have hwalk (link link' : Option LinkId) : ((Setting.ofTimetable t access p).walk r.person
      stop.coord link stop.coord link').travelTime = 0 := by
    rw [Setting.walk, Leg.withLinks, Leg.travelTime_mapWay]
    change stop.coord.distance stop.coord / p.walkSpeed + p.transferMargin = 0
    rw [(finite.node wf hstop).distance_self, EReal.zero_div, margin, add_zero]
  rw [Setting.addAccess_eq ways]
  dsimp only
  split
  · rw [Trip.clock_push, Leg.withFinishLink, Leg.travelTime_mapWay]
    rfl
  · rw [Trip.clock_push, Trip.clock_push, hwalk, add_zero]
    rfl

namespace InStep

omit he in
/-- At the start a journey is in step with the clock of the candidate at its first node. -/
theorem start (margin : p.transferMargin = 0) (ways : access.RunsBetween)
    {origins : CandidateSet EReal} (around : candidates (Network.ofTimetable t reach) access p
      r.person r.start r.departure false = .ok origins)
    {v : NodeId} {c : Candidate EReal} (hc : origins.get? v = some c) {es : List (Edge EReal)}
    (journey : IsJourney es) :
    InStep t reach (.ofTimetable t access p) r
      ((Setting.ofTimetable t access p).costs.rideEnds r.person c.time es) v c.time es
      (Trip.start r.departure, .atStart) := by
  obtain ⟨hmem, hcandidate⟩ := (origins.get?_eq_some_iff v c).mp hc
  obtain ⟨node, hnode, hid, htime, -⟩ := exists_node_of_candidates around hmem
  change InStep t reach _ r _ v c.time es (_, Stage.onFoot none)
  refine .afoot journey (fun stop hstop hstopId ↦ ?_) rfl
  obtain rfl : stop = node :=
    Network.eq_of_mem_nodes hstop hnode (hstopId.trans (hcandidate.symm.trans hid.symm))
  exact (clock_addAccess wf finite margin ways hstop).trans htime.symm

omit he in
/-- A journey that is in step at the start stays in step along its path, so its rides end at the
given times. -/
theorem rideArrivals (ordered : t.Ordered) (gaps : t.DwellsWithinGaps) (day : t.DwellsWithinDay)
    (margin : p.transferMargin = 0) (ways : access.RunsBetween)
    (timely : (Setting.ofTimetable t access p).Timely) (isFinite_start : r.start.IsFinite)
    (departure : Scalar.isFinite r.departure = true) {path : Path EReal}
    (walk : (Network.ofTimetable t reach).IsWalk path.first.id path.edges path.last.id)
    (last : path.last ∈ (Network.ofTimetable t reach).nodes)
    (h : InStep t reach (.ofTimetable t access p) r ends path.first.id now path.edges
      (Trip.start r.departure, .atStart)) {legs : List (Leg EReal)}
    (hlegs : (Setting.ofTimetable t access p).itinerary r path = .ok legs) :
    (legs.filter Leg.isRide).map Leg.arrival = ends := by
  obtain ⟨x, ⟨v, now, ⟨rfl, -⟩, htimed, honWay, hstep⟩, hending⟩ := Setting.exists_ending
    (P := fun es x ↦ ∃ v now, (Network.ofTimetable t reach).IsWalk v es path.last.id ∧
      Timed t x.1 ∧ OnWay t reach v x.2 ∧
        InStep t reach (.ofTimetable t access p) r ends v now es x) hlegs
    ⟨_, _, walk, .start departure, trivial, h⟩ (by
      rintro e rest x y ⟨v, now, ⟨he, rfl, hrest⟩, htimed, honWay, hstep⟩ hmove
      have htimed' := htimed.move wf finite timely rfl honWay he isFinite_start hmove
      exact ⟨e.head.id, _, hrest, htimed', honWay.move he hmove,
        hstep.move wf finite he ordered gaps day margin ways honWay htimed.clock htimed'.clock
          hmove⟩)
  exact hstep.ending wf finite ways last honWay htimed.clock hending

end InStep

omit he in
private theorem isFinite_time_of_candidates (timely : (Setting.ofTimetable t access p).Timely)
    (isFinite_start : r.start.IsFinite) (departure : Scalar.isFinite r.departure = true)
    {origins : CandidateSet EReal} (around : candidates (Network.ofTimetable t reach) access p
      r.person r.start r.departure false = .ok origins)
    {c : Candidate EReal} (hc : c ∈ origins.toList) : Scalar.isFinite c.time = true := by
  obtain ⟨node, hnode, -, htime, -⟩ := exists_node_of_candidates around hc
  rw [htime]
  exact Scalar.isFinite_add departure
    (timely.access r.person _ _ _ isFinite_start (finite.node wf hnode))

end

/-- The clock of a search and that of an itinerary agree: along a journey through the network, rides
end by the clock that runs along the edges, from the time of the candidate at the first node on,
just when the legs of the itinerary arrive. So the last ride arrives with the whole walk, and as
late as the path says if it was found by a search. -/
theorem rideArrivals_of_itinerary (t : Timetable EReal) (built : t.Built) (finite : t.IsFinite)
    (ordered : t.Ordered) (gaps : t.DwellsWithinGaps) (day : t.DwellsWithinDay) (reach : EReal)
    (p : Parameters EReal) (valid : Settings.validate ⟨p, [], []⟩ = .ok ())
    (margin : p.transferMargin = 0) (m : AccessByDistance EReal)
    (speed : m.walkSpeed = p.walkSpeed) (detour : m.beelineFactor = p.beelineFactor)
    (r : Request EReal) (start : r.start.IsFinite)
    (departure : Scalar.isFinite r.departure = true) (path : Path EReal)
    (walk : (Network.ofTimetable t reach).IsWalk path.first.id path.edges path.last.id)
    (last : path.last ∈ (Network.ofTimetable t reach).nodes) (journey : IsJourney path.edges)
    (origins : CandidateSet EReal)
    (around : candidates (Network.ofTimetable t reach) m.model p r.person r.start r.departure
      false = .ok origins)
    (c : Candidate EReal) (hc : origins.get? path.first.id = some c) :
    let s : Setting EReal := .ofTimetable t m.model p
    ∃ legs, s.itinerary r path = .ok legs ∧
      (legs.filter Leg.isRide).map Leg.arrival = s.costs.rideEnds r.person c.time path.edges ∧
      ((legs.filter Leg.isRide).map Leg.arrival).getLast? =
        some (s.costs.along r.person c.arrival path.edges).time ∧
      ∀ labels destinations, (LeastCost.search labels
          ⟨Network.ofTimetable t reach, s.costs, r.person, destinations⟩ origins).1 = some path →
        ((legs.filter Leg.isRide).map Leg.arrival).getLast? = some (c.time + path.travelTime) := by
  intro s
  have wf := built.wellFormed
  have hmargin : Scalar.isFinite p.transferMargin = true := margin ▸ Scalar.isFinite_coe 0
  have ways : m.model.RunsBetween := m.runsBetween_model
  have timely : s.Timely :=
    timely_of_validate valid hmargin speed detour (Departures.ofTimetable t).lookup
  have hclock : Scalar.isFinite c.time = true :=
    isFinite_time_of_candidates wf finite timely start departure around
      ((origins.get?_eq_some_iff _ c).mp hc).1
  obtain ⟨legs, hlegs⟩ := Setting.exists_itinerary_of_isWalk (s := s) (r := r) walk last
  have harrivals : (legs.filter Leg.isRide).map Leg.arrival =
      s.costs.rideEnds r.person c.time path.edges :=
    (InStep.start wf finite margin ways around hc journey).rideArrivals wf finite ordered gaps day
      margin ways timely start departure walk last hlegs
  have hlast : ((legs.filter Leg.isRide).map Leg.arrival).getLast? =
      some (s.costs.along r.person c.arrival path.edges).time := by
    rw [harrivals]
    exact CostModel.getLast?_rideEnds journey.exists_getLast?
  refine ⟨legs, hlegs, harrivals, hlast, fun labels destinations found ↦ ?_⟩
  have paced :=
    LeastCost.paced_byTimetable wf finite ordered reach valid hmargin r.person destinations
  obtain ⟨_, _, o, _, label, -, -, -, ho, -, -, halong, -, -, hduration, -⟩ :=
    LeastCost.exists_best_of_search (Network.wellFormed_ofTimetable t reach)
      (paced.nonNegative.noRefundsFrom _) found
  cases hc.symm.trans ho
  rw [hlast, hduration, Scalar.add_sub_cancel_of_isFinite hclock]
  exact congrArg (fun come ↦ some come.time) halong

open Network (tramNode tramRide)
open Planner (freeRides validate_freeRides)

/-- Parameters by which only walking costs anything, and stops are looked for far around. -/
noncomputable def wideSearch : Parameters EReal := { freeRides with searchRadius := (5000 : ℝ) }

/-- These parameters are accepted. -/
theorem validate_wideSearch : Settings.validate ⟨wideSearch, [], []⟩ = .ok () := by
  obtain ⟨hpositives, hnonNegatives, hutilities, hmodes, haccess⟩ :=
    Settings.validate_eq_ok.mp validate_freeRides
  refine Settings.validate_eq_ok.mpr ⟨?_, hnonNegatives, hutilities, hmodes, haccess⟩
  have hradius : (0 : EReal) < ((5000 : ℝ) : EReal) := EReal.coe_pos.mpr (by norm_num)
  intro item hitem
  rcases List.mem_cons.mp hitem with rfl | hrest
  · refine Settings.positiveFault_eq_none.mpr ⟨?_, Scalar.isFinite_coe 5000⟩
    rwa [Scalar.zero_exact]
  · exact hpositives item (List.mem_cons_of_mem _ hrest)

/-- The request to go from the first stop of the tram to the last one, at the minute at which the
tram leaves on the second day. -/
noncomputable def tramTrip : Request EReal where
  person := ⟨⟨0⟩⟩
  start := ⟨((0 : ℝ) : EReal), ((0 : ℝ) : EReal)⟩
  finish := ⟨((2000 : ℝ) : EReal), ((0 : ℝ) : EReal)⟩
  departure := ((87300 : ℝ) : EReal)

/-- The path along both rides on the tram. -/
noncomputable def tramPath (dwell : ℕ) : Path EReal where
  nodes := [tramNode dwell 0, tramNode dwell 1, tramNode dwell 2]
  edges := [tramRide dwell 0, tramRide dwell 1]
  travelCost := 0
  travelTime := 0
  nodes_ne := List.cons_ne_nil _ _

private theorem isFinite_start : tramTrip.start.IsFinite :=
  ⟨Scalar.isFinite_coe 0, Scalar.isFinite_coe 0⟩

private theorem coord_first (dwell : ℕ) :
    (tramNode dwell 0 : Node EReal).coord = tramTrip.start := by
  rw [Cost.coord_tramNode dwell (Nat.succ_pos 2), Nat.cast_zero, mul_zero, tramTrip]

private theorem covers_wideSearch (dwell : ℕ) :
    ∀ node ∈ (Network.ofTimetable (.tram dwell) (0 : EReal)).nodes,
      node.coord.squareTo tramTrip.start ≤ ((5000 : ℝ) : EReal) * ((5000 : ℝ) : EReal) := by
  intro node hnode
  obtain ⟨position, hposition, rfl⟩ := Network.mem_nodes_tram.mp hnode
  have hle : (position : ℝ) ≤ 2 := by exact_mod_cast Nat.le_of_lt_succ hposition
  have hnonneg : (0 : ℝ) ≤ position := Nat.cast_nonneg position
  rw [Cost.coord_tramNode dwell hposition, tramTrip, Point.squareTo_coe, ← EReal.coe_mul,
    EReal.coe_le_coe_iff]
  nlinarith

private theorem first_mem_nodes_tram (dwell : ℕ) :
    tramNode dwell 0 ∈ (Network.ofTimetable (.tram dwell) (0 : EReal)).nodes :=
  Network.mem_nodes_tram.mpr ⟨0, Nat.succ_pos 2, rfl⟩

private theorem nodesAround_tram (dwell : ℕ) :
    nodesAround (Network.ofTimetable (.tram dwell) 0) wideSearch tramTrip.start =
      .ok ((Network.ofTimetable (.tram dwell) 0).within tramTrip.start ((5000 : ℝ) : EReal)) := by
  have hnodes : (Network.ofTimetable (.tram dwell) (0 : EReal)).nodes =
      #[tramNode dwell 0, tramNode dwell 1, tramNode dwell 2] := Network.nodes_tram dwell
  refine if_pos ?_
  change 2 ≤ ((Network.ofTimetable (.tram dwell) 0).within tramTrip.start
    ((5000 : ℝ) : EReal)).length
  rw [(perm_within (covers_wideSearch dwell)).length_eq, hnodes]
  exact Nat.le_succ 2

private theorem unpriced?_walks (nodes : List (Node EReal)) :
    wideSearch.unpriced? (legModes (AccessByDistance.ofParameters wideSearch).model
      tramTrip.person tramTrip.start tramTrip.departure false nodes) = none := by
  refine unpriced?_legModes_of_prices (fun a ha ↦ ?_) _ _ _ _ _
  rw [List.mem_singleton.mp ha]
  rfl

private theorem exists_candidate_tram (dwell : ℕ) : ∃ origins c,
    candidates (Network.ofTimetable (.tram dwell) 0)
      (AccessByDistance.ofParameters wideSearch).model wideSearch tramTrip.person tramTrip.start
      tramTrip.departure false = .ok origins ∧
    origins.get? (tramPath dwell).first.id = some c ∧ c.time = ((87300 : ℝ) : EReal) := by
  obtain ⟨origins, horigins⟩ := exists_candidates _ .empty (unpriced?_walks _)
  have hcandidates : candidates (Network.ofTimetable (.tram dwell) 0)
      (AccessByDistance.ofParameters wideSearch).model wideSearch tramTrip.person tramTrip.start
      tramTrip.departure false = .ok origins :=
    Result.bind_eq_ok.mpr ⟨_, nodesAround_tram dwell, horigins⟩
  obtain ⟨c, hc⟩ := exists_get?_of_candidates horigins
    ((perm_within (covers_wideSearch dwell)).mem_iff.mpr
      (Array.mem_toList_iff.mpr (first_mem_nodes_tram dwell)))
  refine ⟨origins, c, hcandidates, hc, ?_⟩
  -- The first stop lies at the start.
  obtain ⟨hmem, hid⟩ := (origins.get?_eq_some_iff _ c).mp hc
  obtain ⟨node, hnode, hnodeId, htime, -⟩ := exists_node_of_candidates hcandidates hmem
  obtain rfl :=
    Network.eq_of_mem_nodes hnode (first_mem_nodes_tram dwell) (hnodeId.trans hid)
  rw [htime, coord_first, Planner.leg_self wideSearch isFinite_start]
  exact add_zero _

private theorem isWalk_tramPath (dwell : ℕ) :
    (Network.ofTimetable (.tram dwell) (0 : EReal)).IsWalk
      (tramPath dwell).first.id (tramPath dwell).edges (tramPath dwell).last.id :=
  ⟨Cost.tramRide_mem_edges dwell Nat.zero_lt_two, rfl,
    Cost.tramRide_mem_edges dwell Nat.one_lt_two, rfl, rfl, Nat.lt_succ_self 2⟩

private theorem last_mem_tramPath (dwell : ℕ) :
    (tramPath dwell).last ∈ (Network.ofTimetable (.tram dwell) (0 : EReal)).nodes :=
  Network.mem_nodes_tram.mpr ⟨2, Nat.lt_succ_self 2, rfl⟩

private theorem isJourney_tramPath (dwell : ℕ) : IsJourney (tramPath dwell).edges where
  first := ⟨_, rfl, rfl⟩
  apart := List.isChain_pair.mpr (.inl rfl)
  last e he := by
    cases he
    rfl

/-- On a tram that stays at its second stop for a minute both clocks agree. -/
theorem rideArrivals_of_itinerary_tram :
    let s : Setting EReal :=
      .ofTimetable (.tram 60) (AccessByDistance.ofParameters wideSearch).model wideSearch
    ∃ legs, s.itinerary tramTrip (tramPath 60) = .ok legs ∧
      (legs.filter Leg.isRide).map Leg.arrival =
        s.costs.rideEnds tramTrip.person ((87300 : ℝ) : EReal) (tramPath 60).edges := by
  obtain ⟨origins, c, horigins, hc, htime⟩ := exists_candidate_tram 60
  obtain ⟨legs, hlegs, harrivals, -⟩ := rideArrivals_of_itinerary (.tram 60)
    (Timetable.built_tram 60) (Timetable.isFinite_tram 60) (Timetable.ordered_tram 60)
    (Timetable.dwellsWithinGaps_tram 60) (Timetable.dwellsWithinDay_tram (by norm_num)) 0 wideSearch
    validate_wideSearch rfl (.ofParameters wideSearch) rfl rfl tramTrip isFinite_start
    (Scalar.isFinite_coe 87300) (tramPath 60) (isWalk_tramPath 60) (last_mem_tramPath 60)
    (isJourney_tramPath 60) origins horigins c hc
  exact ⟨legs, hlegs, htime ▸ harrivals⟩

private theorem itinerary_tram (s : Setting EReal) (dwell : ℕ) :
    s.itinerary tramTrip (tramPath dwell) = .ok (s.addEgress tramTrip
      (s.alight (s.addAccess tramTrip (.start tramTrip.departure) (tramNode dwell 0))
        ⟨⟨0⟩, ⟨0⟩, tramNode dwell 0, tramNode dwell 2⟩ (tramNode dwell 2)
        (s.rideDistance (tramNode dwell 0) (tramNode dwell 2))) (tramNode dwell 2)).legs := rfl

private theorem rideArrivals_tram (dwell : ℕ) :
    let s : Setting EReal :=
      .ofTimetable (.tram dwell) (AccessByDistance.ofParameters wideSearch).model wideSearch
    ∃ legs, s.itinerary tramTrip (tramPath dwell) = .ok legs ∧
      (legs.filter Leg.isRide).map Leg.arrival =
        [((87300 + (200 + dwell) : ℝ) : EReal)] := by
  intro s
  have wf := (Timetable.built_tram (α := EReal) dwell).wellFormed
  have finite := Timetable.isFinite_tram dwell
  have ways : s.access.RunsBetween := AccessByDistance.runsBetween_model _
  have hfirst := first_mem_nodes_tram dwell
  have onRoute : OnRoute (.tram dwell) (0 : EReal)
      ⟨⟨0⟩, ⟨0⟩, tramNode dwell 0, tramNode dwell 2⟩ :=
    ⟨hfirst, last_mem_tramPath dwell, rfl, rfl, rfl, Nat.zero_lt_two⟩
  have hclock : (s.addAccess tramTrip (.start tramTrip.departure) (tramNode dwell 0)).clock =
      ((87300 : ℝ) : EReal) := by
    refine (clock_addAccess wf finite (p := wideSearch) rfl ways hfirst).trans ?_
    change tramTrip.departure + ((AccessByDistance.ofParameters wideSearch).model.leg _ _
      (tramNode dwell 0).coord _ false).travelTime = _
    rw [coord_first, Planner.leg_self wideSearch isFinite_start]
    exact add_zero _
  have hnext : s.lookup.next ⟨0⟩ (tramNode dwell 0 : Node EReal).call
      (s.addAccess tramTrip (.start tramTrip.departure) (tramNode dwell 0)).clock =
      ((87300 : ℝ) : EReal) + (tramNode dwell 0 : Node EReal).call.departs := by
    have hdeparts : (tramNode dwell 0 : Node EReal).call.departs = 0 := Scalar.zero_exact
    rw [hclock, hdeparts, add_zero]
    refine (Departures.next_tram dwell 0 87300 1 (by simp [Timetable.tramDeparts]; norm_num)
      (by norm_num [Timetable.tramDeparts])).trans (congrArg Real.toEReal ?_)
    norm_num [Timetable.tramDeparts]
  have harrives : (tramNode dwell 2 : Node EReal).call.arrives = ((200 + dwell : ℝ) : EReal) := by
    refine (Timetable.arrives_tramCall dwell 2).trans (congrArg Real.toEReal ?_)
    norm_num [Timetable.tramArrives]
  refine ⟨_, itinerary_tram s dwell, ?_⟩
  change (s.addEgress tramTrip _ _).rideArrivals = _
  rw [Setting.rideArrivals_addEgress ways, Setting.rideArrivals_alight,
    Setting.rideArrivals_addAccess ways]
  have hends : (s.alight (s.addAccess tramTrip (.start tramTrip.departure) (tramNode dwell 0))
      ⟨⟨0⟩, ⟨0⟩, tramNode dwell 0, tramNode dwell 2⟩ (tramNode dwell 2)
      (s.rideDistance (tramNode dwell 0) (tramNode dwell 2))).clock = _ :=
    clock_alight wf finite onRoute (hclock ▸ Scalar.isFinite_coe 87300) hnext _
  rw [harrives, ← EReal.coe_add] at hends
  exact congrArg (fun time ↦ [time]) hends

/-- A tram that stays at its second stop for a whole day is there again when the next one comes, and
the clock of a search changes over to the tram that has come the day before. So it shows that the
ride ends a day earlier than the itinerary says. -/
theorem clocks_differ_tram :
    let t : Timetable EReal := .tram 86400
    let s : Setting EReal :=
      .ofTimetable t (AccessByDistance.ofParameters wideSearch).model wideSearch
    t.Built ∧ t.IsFinite ∧ t.Ordered ∧ t.DwellsWithinGaps ∧
      Settings.validate ⟨wideSearch, [], []⟩ = .ok () ∧ wideSearch.transferMargin = 0 ∧
      (Network.ofTimetable t 0).IsWalk (tramPath 86400).first.id (tramPath 86400).edges
        (tramPath 86400).last.id ∧
      (tramPath 86400).last ∈ (Network.ofTimetable t 0).nodes ∧ IsJourney (tramPath 86400).edges ∧
      ∃ origins c, candidates (Network.ofTimetable t 0)
          (AccessByDistance.ofParameters wideSearch).model wideSearch tramTrip.person
          tramTrip.start tramTrip.departure false = .ok origins ∧
        origins.get? (tramPath 86400).first.id = some c ∧
        ∃ legs, s.itinerary tramTrip (tramPath 86400) = .ok legs ∧
          (legs.filter Leg.isRide).map Leg.arrival ≠
            s.costs.rideEnds tramTrip.person c.time (tramPath 86400).edges := by
  intro t s
  obtain ⟨origins, c, horigins, hc, htime⟩ := exists_candidate_tram 86400
  obtain ⟨legs, hlegs, harrivals⟩ := rideArrivals_tram 86400
  refine ⟨Timetable.built_tram 86400, Timetable.isFinite_tram 86400, Timetable.ordered_tram 86400,
    Timetable.dwellsWithinGaps_tram 86400, validate_wideSearch, rfl, isWalk_tramPath 86400,
    last_mem_tramPath 86400, isJourney_tramPath 86400, origins, c, horigins, hc, legs, hlegs, ?_⟩
  have hfirst : s.costs.travelTime tramTrip.person (tramRide 86400 0) ((87300 : ℝ) : EReal) =
      ((100 : ℝ) : EReal) :=
    Cost.travelTime_tramRide_of_leaves wideSearch 86400 Nat.zero_lt_two 87300 1
      (by norm_num [Timetable.tramDeparts])
  have hsecond : s.costs.travelTime tramTrip.person (tramRide 86400 1) ((87400 : ℝ) : EReal) =
      ((100 : ℝ) : EReal) :=
    Cost.travelTime_tramRide_of_leaves wideSearch 86400 Nat.one_lt_two 87400 0
      (by norm_num [Timetable.tramDeparts])
  have hends : s.costs.rideEnds tramTrip.person ((87300 : ℝ) : EReal) (tramPath 86400).edges =
      [((87500 : ℝ) : EReal)] := by
    have hride : (tramRide 86400 0 : Edge EReal).route? = some ⟨0⟩ := rfl
    have hnext : ((87300 : ℝ) : EReal) + ((100 : ℝ) : EReal) = ((87400 : ℝ) : EReal) := by
      rw [← EReal.coe_add]
      norm_num
    rw [tramPath, CostModel.rideEnds_cons_of_ride hride, hfirst, hnext,
      CostModel.rideEndsAboard_cons_of_ride rfl, hsecond, ← EReal.coe_add]
    change [_] = _
    norm_num
  rw [harrivals, htime, hends]
  intro hsame
  rw [List.singleton_inj, EReal.coe_eq_coe_iff] at hsame
  norm_num at hsame

end DoorToDoor.Routing
