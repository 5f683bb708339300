import DoorToDoor.Proofs.Itinerary.Grammar
import DoorToDoor.Proofs.Itinerary.Walks
import DoorToDoor.Proofs.Planning
import DoorToDoor.Proofs.Search.Trace
import DoorToDoor.Proofs.Timetable.Times
import DoorToDoor.Proofs.ValidSettings

/-!
# Rides that vehicles make

Every ride of a planned journey is made by a vehicle of the timetable: a vehicle of the route calls
at the access stop no earlier than the traveller is there, and at the egress stop, farther along the
route, when the ride ends (`isRun_of_plan`). Times are exact: the timetable, the request and the
transfer margin give real numbers, which infinity is not.
-/

namespace DoorToDoor

namespace Timetable

/-- Whether a ride that a traveller waits for from a time on, and that ends at another, is made by a
vehicle of its route: it leaves the first stop at a departure of the route on some day, calls at the
access stop, leaves it no earlier than the traveller is there, and is at the egress stop, which
comes later on the route, when the ride ends. -/
def IsRun (t : Timetable EReal) (ride : Ride) (waits ends : EReal) : Prop :=
  ∃ route, t.route? ride.route = some route ∧ ride.line = route.line ∧
    ∃ (b e : ℕ) (boarding alighting : Call EReal), b < e ∧
      route.calls[b]? = some boarding ∧ boarding.stop = ride.accessStop ∧
      route.calls[e]? = some alighting ∧ alighting.stop = ride.egressStop ∧
      ∃ d ∈ route.departures, ∃ k : ℕ,
        waits ≤ Scalar.remEuclid d Clock.day + Scalar.ofNat k * Clock.day + boarding.departs ∧
        ends = Scalar.remEuclid d Clock.day + Scalar.ofNat k * Clock.day + alighting.arrives

end Timetable

namespace Routing

variable {t : Timetable EReal} {reach : EReal} {s : Setting EReal} {r : Request EReal}

/-- A ride ends at the time of the call at which it ends, counted from the start of its vehicle. -/
theorem rideArrival_eq {ride : Boarded EReal} {alighting : Node EReal} {time starts : EReal}
    (departs : Scalar.isFinite ride.boarding.call.departs = true)
    (arrives : Scalar.isFinite alighting.call.arrives = true)
    (next : s.lookup.next ride.route ride.boarding.call time =
      starts + ride.boarding.call.departs) :
    s.rideArrival ride alighting time = starts + alighting.call.arrives := by
  obtain ⟨o, ho⟩ := Scalar.isFinite_iff_exists.mp departs
  obtain ⟨a, ha⟩ := Scalar.isFinite_iff_exists.mp arrives
  have hspan : (o : EReal) + ((a : EReal) - (o : EReal)) = a := by
    rw [← EReal.coe_sub, ← EReal.coe_add, add_sub_cancel]
  rw [Setting.rideArrival, next, ← ho, ← ha, add_assoc, hspan]

/-- A ride that ends where it has come to is made by a vehicle. -/
theorem OnRoute.isRun (wf : t.WellFormed) (finite : t.IsFinite) {ride : Boarded EReal}
    (h : OnRoute t reach ride) (lookup : s.lookup = (Departures.ofTimetable t).lookup)
    {time : EReal} (htime : Scalar.isFinite time = true) :
    t.IsRun ⟨ride.boarding.stop, ride.line, ride.route, ride.reached.stop⟩ time
        (s.rideArrival ride ride.reached time) ∧
      Scalar.isFinite (s.rideArrival ride ride.reached time) = true := by
  obtain ⟨route, hroute, hmem, hline, hboarding, hboardingStop, hreached, hreachedStop⟩ :=
    h.exists_route? wf
  have hdeparts := finite.departs hmem (List.mem_of_getElem? hboarding)
  have harrives := finite.arrives hmem (List.mem_of_getElem? hreached)
  obtain ⟨d, hd, k, hnext, hle⟩ := Departures.exists_vehicle_of_nextOf (wf.departs route hmem)
    (finite.departures route hmem) hdeparts htime
  have hlookup : s.lookup.next ride.route ride.boarding.call time =
      Departures.nextOf (Departures.daily route.departures) ride.boarding.call time := by
    rw [lookup, Departures.next_ofTimetable hroute]
  have harrival : s.rideArrival ride ride.reached time =
      Scalar.remEuclid d Clock.day + Scalar.ofNat k * Clock.day + ride.reached.call.arrives :=
    rideArrival_eq hdeparts harrives (hlookup.trans hnext)
  have hfinite : Scalar.isFinite (s.rideArrival ride ride.reached time) = true := by
    rw [harrival]
    refine Scalar.isFinite_add (Scalar.isFinite_add (Scalar.isFinite_remEuclid _ _) ?_) harrives
    exact Scalar.isFinite_mul (Scalar.isFinite_ofNat k) (Scalar.isFinite_ofNat _)
  refine ⟨⟨route, hroute, hline.symm, _, _, _, _, h.before, hboarding, hboardingStop, hreached,
    hreachedStop, d, hd, k, ?_, harrival⟩, hfinite⟩
  rw [← hnext]
  exact hle

/-- Legs between finite points take a finite time. -/
structure Setting.Timely (s : Setting EReal) : Prop where
  ways : s.access.RunsBetween
  access : ∀ person start finish time, start.IsFinite → finish.IsFinite →
    Scalar.isFinite (s.access.leg person start finish time false).travelTime = true
  walk : ∀ person start startLink finish finishLink, start.IsFinite → finish.IsFinite →
    Scalar.isFinite (s.walk person start startLink finish finishLink).travelTime = true

/-- A journey whose clock is finite and whose rides are made by vehicles. -/
structure Timed (t : Timetable EReal) (trip : Trip EReal) : Prop where
  clock : Scalar.isFinite trip.clock = true
  runs : ∀ leg ∈ trip.legs, ∀ ride, leg.course = .ride ride →
    t.IsRun ride leg.departure leg.arrival

namespace Timed

variable {trip : Trip EReal}

/-- A journey without legs is timed. -/
theorem start {time : EReal} (htime : Scalar.isFinite time = true) : Timed t (.start time) where
  clock := htime
  runs _ hleg := absurd hleg List.not_mem_nil

private theorem push_way (h : Timed t trip) {leg : Leg EReal} {w : Way EReal}
    (way : leg.way? = some w)
    (htime : Scalar.isFinite leg.travelTime = true) : Timed t (trip.push leg) where
  clock := Scalar.isFinite_add h.clock htime
  runs := by
    intro leg' hleg' ride hride
    rw [Trip.legs_push, List.mem_append, List.mem_singleton] at hleg'
    rcases hleg' with hleg' | rfl
    · exact h.runs leg' hleg' ride hride
    · exact absurd hride (Leg.course_ne_ride_of_way? way ride)

/-- The way to a stop keeps a journey timed. -/
theorem addAccess (h : Timed t trip) (timely : s.Timely) (hstart : r.start.IsFinite)
    {stop : Node EReal} (hstop : stop.coord.IsFinite) : Timed t (s.addAccess r trip stop) := by
  obtain ⟨w, hway, -, -⟩ := timely.ways r.person r.start stop.coord trip.clock
  have htime := timely.access r.person r.start stop.coord trip.clock hstart hstop
  rw [Setting.addAccess_eq timely.ways]
  dsimp only
  split
  · refine h.push_way ((Leg.way?_mapWay _ _).trans (congrArg _ hway)) ?_
    rw [Leg.withFinishLink, Leg.travelTime_mapWay]
    exact htime
  · exact (h.push_way hway htime).push_way rfl (timely.walk _ _ _ _ _ hstop hstop)

/-- The way from a stop keeps a journey timed. -/
theorem addEgress (h : Timed t trip) (timely : s.Timely) {stop : Node EReal}
    (hstop : stop.coord.IsFinite) (hfinish : r.finish.IsFinite) :
    Timed t (s.addEgress r trip stop) := by
  obtain ⟨w, hway, -, -⟩ := timely.ways r.person stop.coord r.finish trip.clock
  have htime := timely.access r.person stop.coord r.finish trip.clock hstop hfinish
  rw [Setting.addEgress_eq timely.ways]
  dsimp only
  split
  · refine h.push_way ((Leg.way?_mapWay _ _).trans (congrArg _ hway)) ?_
    rw [Leg.withStartLink, Leg.travelTime_mapWay]
    exact htime
  · exact (h.push_way rfl (timely.walk _ _ _ _ _ hstop hstop)).push_way hway htime

/-- The way from a stop to the next boarding keeps a journey timed. -/
theorem approach (h : Timed t trip) (timely : s.Timely) {alighted boarding : Node EReal}
    (halighted : alighted.coord.IsFinite) (hboarding : boarding.coord.IsFinite) :
    Timed t (s.approach r trip (some alighted) boarding) := by
  unfold Setting.approach
  dsimp only
  split
  · exact h
  · exact h.push_way rfl (timely.walk _ _ _ _ _ halighted hboarding)

/-- A ride that ends where it has come to keeps a journey timed. -/
theorem alight (h : Timed t trip) (wf : t.WellFormed) (finite : t.IsFinite)
    {ride : Boarded EReal} (hride : OnRoute t reach ride)
    (lookup : s.lookup = (Departures.ofTimetable t).lookup) (distance : EReal) :
    Timed t (s.alight trip ride ride.reached distance) := by
  obtain ⟨hrun, hends⟩ := hride.isRun wf finite lookup h.clock
  have harrival : trip.clock + (s.rideArrival ride ride.reached trip.clock - trip.clock) =
      s.rideArrival ride ride.reached trip.clock := by
    obtain ⟨c, hc⟩ := Scalar.isFinite_iff_exists.mp h.clock
    rw [← hc, add_comm, EReal.sub_add_cancel]
  constructor
  case clock =>
    change Scalar.isFinite (trip.clock + _) = true
    rwa [← harrival] at hends
  case runs =>
    intro leg hleg ride' hride'
    unfold Setting.alight at hleg
    rw [Trip.legs_push, List.mem_append, List.mem_singleton] at hleg
    rcases hleg with hleg | rfl
    · exact h.runs leg hleg ride' hride'
    · cases hride'
      rw [Leg.arrival_departingAt]
      change t.IsRun _ trip.clock (trip.clock + _)
      rwa [← harrival] at hrun

end Timed

section

variable (wf : t.WellFormed) (finite : t.IsFinite) (timely : s.Timely)
  (lookup : s.lookup = (Departures.ofTimetable t).lookup)

include wf finite timely lookup

/-- Along an edge that leaves the node to which the path has led a journey stays timed. -/
theorem Timed.move {x y : Trip EReal × Stage EReal} {e : Edge EReal} (h : Timed t x.1)
    (hstage : OnWay t reach e.tail.id x.2) (he : e ∈ (Network.ofTimetable t reach).edges)
    (hstart : r.start.IsFinite) (hmove : s.Move r x e y) : Timed t y.1 := by
  have htail := finite.node wf (Network.mem_nodes_of_mem_edges he).1
  cases hmove with
  | walkOn => exact h
  | @alight trip ride =>
    obtain ⟨hride, hmeet⟩ := hstage
    rw [← hride.reached_eq he hmeet]
    exact h.alight wf finite hride lookup _
  | depart => exact h.addAccess timely hstart htail
  | change => exact h.approach timely (finite.node wf hstage) htail
  | stayOn => exact h
  | switch =>
    obtain ⟨hride, -⟩ := hstage
    exact (h.alight wf finite hride lookup _).approach timely (finite.node wf hride.reached) htail

/-- Every ride of an itinerary along a walk through the network is made by a vehicle. -/
theorem isRun_of_itinerary (hstart : r.start.IsFinite) (hfinish : r.finish.IsFinite)
    (hdeparture : Scalar.isFinite r.departure = true) {path : Path EReal}
    (walk : (Network.ofTimetable t reach).IsWalk path.first.id path.edges path.last.id)
    (last : path.last ∈ (Network.ofTimetable t reach).nodes) {legs : List (Leg EReal)}
    (h : s.itinerary r path = .ok legs) :
    ∀ leg ∈ legs, ∀ ride, leg.course = .ride ride → t.IsRun ride leg.departure leg.arrival := by
  obtain ⟨x, ⟨v, hv, htimed, hstage⟩, hending⟩ := Setting.exists_ending
    (P := fun es x ↦ ∃ v, (Network.ofTimetable t reach).IsWalk v es path.last.id ∧
      Timed t x.1 ∧ OnWay t reach v x.2) h
    ⟨_, walk, .start hdeparture, trivial⟩ (by
      rintro e rest x y ⟨v, ⟨he, rfl, hrest⟩, htimed, hstage⟩ hmove
      exact ⟨e.head.id, hrest, htimed.move wf finite timely lookup hstage he hstart hmove,
        hstage.move he hmove⟩)
  obtain ⟨rfl, -⟩ := hv
  cases hending with
  | direct =>
    intro leg hleg ride hride
    obtain ⟨w, hway, -, -⟩ := timely.ways r.person r.start r.finish r.departure
    rw [List.mem_singleton.mp hleg] at hride
    exact absurd hride (Leg.course_ne_ride_of_way? hway ride)
  | alighted => exact (htimed.addEgress timely (finite.node wf hstage) hfinish).runs
  | @riding trip ride =>
    obtain ⟨hride, hmeet⟩ := hstage
    have hsame : ride.reached = path.last := Network.eq_of_mem_nodes hride.reached last hmeet
    rw [← hsame]
    exact ((htimed.alight wf finite hride lookup _).addEgress timely
      (finite.node wf hride.reached) hfinish).runs

end

/-- With access by distance and accepted parameters all legs between finite points take a finite
time. -/
theorem timely_of_isFinite {p : Parameters EReal} (valid : Settings.validate ⟨p, [], []⟩ = .ok ())
    (margin : Scalar.isFinite p.transferMargin = true) {m : AccessByDistance EReal}
    (speed : 0 < m.walkSpeed) (detour : Scalar.isFinite m.beelineFactor = true)
    (lookup : DepartureLookup EReal) :
    (⟨lookup, Cost.byTimetable lookup p, m.model, p⟩ : Setting EReal).Timely := by
  obtain ⟨⟨hspeed, -⟩, -⟩ := Settings.positive_of_validate valid
  rw [Scalar.zero_exact] at hspeed
  constructor
  case ways => exact m.runsBetween_model
  case access =>
    intro person start finish time hstart hfinish
    exact AccessByDistance.isFinite_travelTime_leg speed detour hstart hfinish time nofun
  case walk =>
    intro person start startLink finish finishLink hstart hfinish
    exact Scalar.isFinite_add (Scalar.isFinite_div (hstart.distance hfinish) hspeed) margin

/-- Access at the pace of accepted parameters takes a finite time. -/
theorem timely_of_validate {p : Parameters EReal} (valid : Settings.validate ⟨p, [], []⟩ = .ok ())
    (margin : Scalar.isFinite p.transferMargin = true) {m : AccessByDistance EReal}
    (speed : m.walkSpeed = p.walkSpeed) (detour : m.beelineFactor = p.beelineFactor)
    (lookup : DepartureLookup EReal) :
    (⟨lookup, Cost.byTimetable lookup p, m.model, p⟩ : Setting EReal).Timely := by
  obtain ⟨⟨hspeed, -⟩, -, hdetour⟩ := Settings.positive_of_validate valid
  rw [Scalar.zero_exact] at hspeed
  exact timely_of_isFinite valid margin (speed ▸ hspeed) (detour ▸ hdetour) lookup

/-- Every ride of a planned journey is made by a vehicle of the timetable. -/
theorem isRun_of_plan (t : Timetable EReal) (built : t.Built) (finite : t.IsFinite)
    (reach : EReal) (p : Parameters EReal) (valid : Settings.validate ⟨p, [], []⟩ = .ok ())
    (margin : Scalar.isFinite p.transferMargin = true) (m : AccessByDistance EReal)
    (speed : m.walkSpeed = p.walkSpeed) (detour : m.beelineFactor = p.beelineFactor)
    (surcharged : Bool) (labels : Labels EReal) (r : Request EReal) (start : r.start.IsFinite)
    (finish : r.finish.IsFinite) (departure : Scalar.isFinite r.departure = true)
    (legs : List (Leg EReal))
    (found : ((Planner.make (Network.ofTimetable t reach) (Departures.ofTimetable t).lookup m.model
      p surcharged).plan labels r).1 = .ok (some legs)) :
    ∀ leg ∈ legs, ∀ ride, leg.course = .ride ride → t.IsRun ride leg.departure leg.arrival := by
  have timely := timely_of_validate valid margin speed detour (Departures.ofTimetable t).lookup
  obtain ⟨origins, destinations, path, -, -, hpath, hlegs⟩ := Planner.plan_eq_ok_some.mp found
  obtain ⟨o, d, -, -, hends⟩ := Planner.legsAlong_eq_ok.mp hlegs
  split at hends
  · subst hends
    intro leg hleg ride hride
    rw [List.mem_singleton.mp hleg] at hride
    cases hride
  · obtain ⟨walk, -, hlast⟩ :=
      LeastCost.isWalk_of_searchWith (Network.wellFormed_ofTimetable t reach) hpath
    exact isRun_of_itinerary built.wellFormed finite timely rfl start finish departure walk
      (Array.mem_of_getElem? hlast) hends

/-- A planned journey by shuttle has a ride, and a vehicle makes it. -/
theorem isRun_of_plan_shuttle : ∃ legs,
    (Planner.shuttlePlanner.plan .empty Planner.shuttleTrip).1 = .ok (some legs) ∧
      (∃ leg ∈ legs, ∃ ride, leg.course = .ride ride) ∧
      ∀ leg ∈ legs, ∀ ride, leg.course = .ride ride →
        Timetable.shuttle.IsRun ride leg.departure leg.arrival := by
  refine ⟨_, Planner.plan_shuttle, ?_, ?_⟩
  · exact ⟨_, (Setting.continues_addEgress _ _ _ _).mem_legs, _, rfl⟩
  · exact isRun_of_plan .shuttle Timetable.built_shuttle
      Timetable.isFinite_shuttle 0 Planner.freeRides
      Planner.validate_freeRides (Scalar.isFinite_coe 0) (.ofParameters Planner.freeRides) rfl rfl
      false .empty Planner.shuttleTrip ⟨Scalar.isFinite_zero, Scalar.isFinite_zero⟩
      ⟨Scalar.isFinite_ofNat 1000, Scalar.isFinite_zero⟩ (Scalar.isFinite_ofNat _) _
      Planner.plan_shuttle

end Routing

end DoorToDoor
