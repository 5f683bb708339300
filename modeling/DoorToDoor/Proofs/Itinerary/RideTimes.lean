import DoorToDoor.Proofs.Itinerary.Clocks
import DoorToDoor.Proofs.Itinerary.Runs
import DoorToDoor.Proofs.Network.Fans

/-!
# The time of a ride

In the network a ride over several calls is a row of ride edges (`Network.LeadsByRides`), and each
of them waits for a vehicle anew; in an itinerary it is one leg, for which one vehicle is looked up.
Along a route in order whose vehicles do not stay too long both take the same time
(`Routing.closeRide_of_leadsByRides`): the vehicle in which a traveller comes to a call is the one
that is found there.
-/

namespace DoorToDoor

/-- How long the edges of a walk take together, each entered when the clock has come to it. -/
def CostModel.duration {α : Type} [Scalar α] (costs : CostModel α) (person : Person) :
    α → List (Edge α) → α
  | _, [] => Scalar.zero
  | time, e :: rest =>
    costs.travelTime person e time +
      costs.duration person (time + costs.travelTime person e time) rest

namespace Network

/-- Whether edges are rides that lead from one node to another. -/
structure LeadsByRides {α : Type} (n : Network α) (a : Node α) (es : List (Edge α)) (b : Node α) :
    Prop where
  walk : n.IsWalk a.id es b.id
  rides : ∀ e ∈ es, e.isRide = true

section

variable {α : Type} [Scalar α] {t : Timetable α} {reach : α} {a b : Node α} {e : Edge α}
  {es : List (Edge α)}

private theorem LeadsByRides.uncons (ha : a ∈ (ofTimetable t reach).nodes)
    (h : (ofTimetable t reach).LeadsByRides a (e :: es) b) :
    e ∈ (ofTimetable t reach).edges ∧ e.tail = a ∧ (∃ line, e.kind = .ride line a.route) ∧
      e.head ∈ (ofTimetable t reach).nodes ∧ place e.head = (a.route, a.position + 1) ∧
      (ofTimetable t reach).LeadsByRides e.head es b := by
  obtain ⟨he, htail, hrest⟩ := h.walk
  obtain ⟨hnode, hhead⟩ := mem_nodes_of_mem_edges he
  obtain rfl : e.tail = a := eq_of_mem_nodes hnode ha htail
  obtain ⟨line, route, kind⟩ := Edge.exists_kind_of_isRide (h.rides e List.mem_cons_self)
  obtain ⟨rfl, hroute, -, hposition⟩ := route_of_ride_mem_edges he kind
  exact ⟨he, rfl, ⟨line, kind⟩, hhead, Prod.ext hroute hposition, hrest,
    fun e' he' ↦ h.rides e' (List.mem_cons_of_mem e he')⟩

/-- Such edges leave the calls of one route in turn. -/
theorem LeadsByRides.positions (ha : a ∈ (ofTimetable t reach).nodes)
    (hb : b ∈ (ofTimetable t reach).nodes) (h : (ofTimetable t reach).LeadsByRides a es b) :
    b.position = a.position + es.length ∧
      es.map (·.tail.position) = List.range' a.position es.length := by
  induction es generalizing a with
  | nil =>
    rw [eq_of_mem_nodes ha hb h.walk.1]
    exact ⟨rfl, rfl⟩
  | cons e rest ih =>
    obtain ⟨-, rfl, -, hhead, hplace, hrest⟩ := h.uncons ha
    obtain ⟨hposition, hrange⟩ := ih hhead hrest
    obtain ⟨-, hnext⟩ := Prod.mk.inj hplace
    rw [hnext] at hposition hrange
    rw [List.length_cons, List.map_cons, List.range'_succ, hrange, hposition]
    exact ⟨by omega, rfl⟩

/-- From each call of a route rides lead to all later ones. -/
theorem exists_leadsByRides (wf : t.WellFormed) (ha : a ∈ (ofTimetable t reach).nodes)
    (hb : b ∈ (ofTimetable t reach).nodes) (k : Nat)
    (hplace : place b = (a.route, a.position + k)) :
    ∃ es, (ofTimetable t reach).LeadsByRides a es b := by
  induction k generalizing a with
  | zero =>
    obtain rfl : b = a := eq_of_place_eq wf hb ha hplace
    have hlt := (Array.getElem?_eq_some_iff.mp (node?_of_mem_nodes ha)).1
    exact ⟨[], ⟨rfl, hlt⟩, nofun⟩
  | succ k ih =>
    obtain ⟨hroute, hposition⟩ := Prod.mk.inj hplace
    obtain ⟨r, hr, -, -, hcall, -⟩ := exists_route?_of_mem_nodes wf hb
    have goes : ¬IsLast t a := by
      rintro ⟨r', hr', hlength⟩
      rw [← hroute, hr, Option.some.injEq] at hr'
      obtain ⟨hlt, -⟩ := List.getElem?_eq_some_iff.mp hcall
      subst hr'
      omega
    obtain ⟨e, he, rfl, kind, hhead⟩ := exists_ride wf ha goes
    obtain ⟨hheadRoute, hheadPosition⟩ := Prod.mk.inj hhead
    obtain ⟨es, hes⟩ := ih (mem_nodes_of_mem_edges he).2 (by
      rw [hplace, hheadRoute, hheadPosition, Nat.add_assoc, Nat.add_comm 1])
    refine ⟨e :: es, ⟨he, rfl, hes.walk⟩, fun e' he' ↦ ?_⟩
    rcases List.mem_cons.mp he' with rfl | he'
    · exact Edge.isRide_of_ride kind
    · exact hes.rides e' he'

end

end Network

namespace Routing

section

variable {t : Timetable EReal} {reach : EReal} {p : Parameters EReal} (wf : t.WellFormed)
  (finite : t.IsFinite) {route : Route EReal} (hroute : route ∈ t.routes)
  (ordered : route.Ordered) {a b : Node EReal}
  (ha : a ∈ (Network.ofTimetable t reach).nodes) (hb : b ∈ (Network.ofTimetable t reach).nodes)
  (here : a.route = route.id) (person : Person) {starts : EReal}

include wf finite hroute ordered ha here

private theorem add_travelTime_of_leadsByRides {e : Edge EReal} {es : List (Edge EReal)}
    (h : (Network.ofTimetable t reach).LeadsByRides a (e :: es) b) {now : EReal}
    (hnow : Scalar.isFinite now = true) (run : t.StartsAt a.route starts)
    (next : (Departures.ofTimetable t).lookup.next a.route a.call now = starts + a.call.departs) :
    now + Cost.travelTime (Departures.ofTimetable t).lookup p e now =
      starts + e.head.call.arrives := by
  obtain ⟨he, rfl, ⟨line, kind⟩, -, -, -⟩ := h.uncons ha
  have onward : e.tail.call.departs ≤ e.head.call.arrives :=
    Cost.departs_le_arrives wf he kind fun r hr ↦ by
      rw [here, wf.route?_of_mem hroute, Option.some.injEq] at hr
      exact hr ▸ ordered
  exact Cost.add_travelTime_of_next wf finite he onward kind hnow run.isFinite next

include hb

private theorem add_duration_of_startsAt (gaps : route.DwellsWithinGaps)
    (day : route.DwellsWithinDay) (behind : 0 < a.position) (run : t.StartsAt a.route starts)
    {es : List (Edge EReal)} (h : (Network.ofTimetable t reach).LeadsByRides a es b) :
    starts + a.call.arrives + (Cost.byTimetable (Departures.ofTimetable t).lookup p).duration
        person (starts + a.call.arrives) es = starts + b.call.arrives := by
  induction es generalizing a with
  | nil =>
    rw [Network.eq_of_mem_nodes ha hb h.walk.1, CostModel.duration, Scalar.zero_exact, add_zero]
  | cons e rest ih =>
    obtain ⟨he, rfl, ⟨line, kind⟩, hhead, hplace, hrest⟩ := h.uncons ha
    obtain ⟨hheadRoute, hheadPosition⟩ := Prod.mk.inj hplace
    have hnow := Scalar.isFinite_add run.isFinite (finite.call wf ha).1
    have hagain := Departures.next_of_startsAt wf finite ha
      (here ▸ wf.route?_of_mem hroute) ordered gaps day run behind
      (Network.canDepart_of_ride wf he kind)
    have hlater := add_travelTime_of_leadsByRides wf finite hroute ordered ha here h hnow run hagain
      (p := p)
    rw [CostModel.duration, ← add_assoc]
    change starts + e.tail.call.arrives + Cost.travelTime _ p e _ +
      CostModel.duration _ person (_ + Cost.travelTime _ p e _) rest = _
    rw [hlater]
    exact ih hhead (hheadRoute.trans here) (by omega) (hheadRoute ▸ run) hrest

/-- Who waits for a vehicle is in the same vehicle at the end of the edges. -/
theorem add_duration_of_next (gaps : route.DwellsWithinGaps) (day : route.DwellsWithinDay)
    (before : a.position < b.position) {now : EReal} (hnow : Scalar.isFinite now = true)
    (run : t.StartsAt a.route starts)
    (next : (Departures.ofTimetable t).lookup.next a.route a.call now = starts + a.call.departs)
    {es : List (Edge EReal)} (h : (Network.ofTimetable t reach).LeadsByRides a es b) :
    now + (Cost.byTimetable (Departures.ofTimetable t).lookup p).duration person now es =
      starts + b.call.arrives := by
  cases es with
  | nil =>
    obtain rfl := Network.eq_of_mem_nodes ha hb h.walk.1
    exact absurd before (Nat.lt_irrefl _)
  | cons e rest =>
    have hlater := add_travelTime_of_leadsByRides wf finite hroute ordered ha here h hnow run next
      (p := p)
    obtain ⟨-, -, -, hhead, hplace, hrest⟩ := h.uncons ha
    obtain ⟨hheadRoute, hheadPosition⟩ := Prod.mk.inj hplace
    rw [CostModel.duration, ← add_assoc]
    change now + Cost.travelTime _ p e _ +
      CostModel.duration _ person (_ + Cost.travelTime _ p e _) rest = _
    rw [hlater]
    exact add_duration_of_startsAt wf finite hroute ordered hhead hb (hheadRoute.trans here) person
      gaps day (by omega) (hheadRoute ▸ run) hrest

end

/-- Along a route in order whose vehicles stay at an intermediate call neither until another one
follows nor for a day, the edges of a ride take together as long as its leg. -/
theorem closeRide_of_leadsByRides (t : Timetable EReal) (built : t.Built) (finite : t.IsFinite)
    (reach : EReal) (access : AccessModel EReal) (p : Parameters EReal) (route : Route EReal)
    (hroute : route ∈ t.routes) (ordered : route.Ordered) (gaps : route.DwellsWithinGaps)
    (day : route.DwellsWithinDay) (boarding alighting : Node EReal)
    (hboarding : boarding ∈ (Network.ofTimetable t reach).nodes)
    (halighting : alighting ∈ (Network.ofTimetable t reach).nodes)
    (begins : boarding.route = route.id) (ends : alighting.route = route.id)
    (before : boarding.position < alighting.position) :
    let n := Network.ofTimetable t reach
    let s := Setting.ofTimetable t access p
    (∃ es, n.LeadsByRides boarding es alighting) ∧
    ∀ es, n.LeadsByRides boarding es alighting →
      es.map (·.tail.position) =
        List.range' boarding.position (alighting.position - boarding.position) ∧
      ∀ (r : Request EReal) (trip : Trip EReal) (ride : Boarded EReal) (distance : EReal),
        Scalar.isFinite trip.clock = true → ride.route = route.id → ride.boarding = boarding →
        ∃ leg, s.closeRide r trip ride alighting distance = .ok (trip.push leg) ∧
          leg.travelTime = s.lookup.next route.id boarding.call trip.clock +
            alighting.call.arrives - boarding.call.departs - trip.clock ∧
          s.costs.duration r.person trip.clock es = leg.travelTime := by
  intro n s
  have wf := built.wellFormed
  refine ⟨?_, fun es h ↦ ?_⟩
  · refine Network.exists_leadsByRides wf hboarding halighting
      (alighting.position - boarding.position) (Prod.ext (ends.trans begins.symm) ?_)
    change alighting.position = _
    omega
  obtain ⟨hlength, hpositions⟩ := h.positions hboarding halighting
  refine ⟨?_, fun r trip ride distance hclock hride hstart ↦ ?_⟩
  · rw [hpositions, hlength, Nat.add_sub_cancel_left]
  obtain ⟨starts, run, hnext⟩ :=
    Departures.exists_startsAt_of_mem_nodes wf finite hboarding hclock
  have hdeparts := (finite.call wf hboarding).2
  have harrives := (finite.call wf halighting).1
  have harrival : s.rideArrival ride alighting trip.clock = starts + alighting.call.arrives := by
    refine rideArrival_eq (hstart ▸ hdeparts) harrives ?_
    rw [hride, hstart, ← begins]
    exact hnext
  have hduration := add_duration_of_next wf finite hroute ordered hboarding halighting begins
    r.person gaps day before hclock run hnext h (p := p)
  have htime : (s.rideLeg ride alighting trip.clock distance).travelTime =
      starts + alighting.call.arrives - trip.clock := congrArg (· - trip.clock) harrival
  refine ⟨s.rideLeg ride alighting trip.clock distance, if_pos (ends.trans hride.symm), ?_, ?_⟩
  · obtain ⟨o, ho⟩ := Scalar.isFinite_iff_exists.mp hdeparts
    obtain ⟨x, hx⟩ := Scalar.isFinite_iff_exists.mp harrives
    obtain ⟨σ, rfl⟩ := Scalar.isFinite_iff_exists.mp run.isFinite
    rw [htime, ← begins]
    change _ = (Departures.ofTimetable t).lookup.next _ _ _ + _ - _ - _
    rw [hnext, ← ho, ← hx, ← EReal.coe_add, ← EReal.coe_add, ← EReal.coe_add, ← EReal.coe_sub]
    congr 2
    ring
  · obtain ⟨now, hnow⟩ := Scalar.isFinite_iff_exists.mp hclock
    rw [htime, ← hduration, ← hnow, add_comm, EReal.add_sub_cancel_right]
    rfl

open Network (tramNode tramRide)

private theorem leadsByRides_tram (dwell : ℕ) :
    (Network.ofTimetable (.tram dwell) (0 : EReal)).LeadsByRides (tramNode dwell 0)
      [tramRide dwell 0, tramRide dwell 1] (tramNode dwell 2) where
  walk := ⟨Cost.tramRide_mem_edges dwell Nat.zero_lt_two, rfl,
    Cost.tramRide_mem_edges dwell Nat.one_lt_two, rfl, rfl, Nat.lt_succ_self 2⟩
  rides e he := by
    rcases List.mem_pair.mp he with rfl | rfl
    · rfl
    · rfl

private theorem tramRoute_mem_routes (dwell : ℕ) :
    (Timetable.tramRoute dwell : Route EReal) ∈ (Timetable.tram dwell : Timetable EReal).routes :=
  Array.mem_toList_iff.mp List.mem_cons_self

/-- On a tram that stays at its second stop for a minute the two rides take together as long as the
leg. -/
theorem closeRide_of_leadsByRides_tram :
    let s : Setting EReal :=
      .ofTimetable (.tram 60) (AccessByDistance.ofParameters wideSearch).model wideSearch
    let trip : Trip EReal := .start tramTrip.departure
    ∃ leg, s.closeRide tramTrip trip ⟨⟨0⟩, ⟨0⟩, tramNode 60 0, tramNode 60 2⟩ (tramNode 60 2) 0 =
        .ok (trip.push leg) ∧
      s.costs.duration tramTrip.person trip.clock [tramRide 60 0, tramRide 60 1] =
        leg.travelTime := by
  intro s trip
  have hroute := tramRoute_mem_routes 60
  obtain ⟨-, htimes⟩ := closeRide_of_leadsByRides (.tram 60) (Timetable.built_tram 60)
    (Timetable.isFinite_tram 60) 0 (AccessByDistance.ofParameters wideSearch).model wideSearch
    (Timetable.tramRoute 60) hroute (Timetable.ordered_tram 60 _ hroute)
    (Timetable.dwellsWithinGaps_tram 60 _ hroute)
    (Timetable.dwellsWithinDay_tram (by norm_num) _ hroute) (tramNode 60 0) (tramNode 60 2)
    (Network.mem_nodes_tram.mpr ⟨0, Nat.succ_pos 2, rfl⟩)
    (Network.mem_nodes_tram.mpr ⟨2, Nat.lt_succ_self 2, rfl⟩) rfl rfl Nat.zero_lt_two
  obtain ⟨-, hlegs⟩ := htimes _ (leadsByRides_tram 60)
  obtain ⟨leg, hclose, -, htime⟩ := hlegs tramTrip trip
    ⟨⟨0⟩, ⟨0⟩, tramNode 60 0, tramNode 60 2⟩ 0 (Scalar.isFinite_coe 87300) rfl rfl
  exact ⟨leg, hclose, htime⟩

/-- On a tram that stays at its second stop for a whole day the two rides take two hundred seconds
together, because the next tram leaves the stop when the traveller comes to it, and the leg takes
a day longer. -/
theorem duration_differs_tram :
    let t : Timetable EReal := .tram 86400
    let s : Setting EReal :=
      .ofTimetable t (AccessByDistance.ofParameters wideSearch).model wideSearch
    let trip : Trip EReal := .start tramTrip.departure
    t.Built ∧ t.IsFinite ∧ (∀ route ∈ t.routes, route.Ordered ∧ route.DwellsWithinGaps) ∧
      Settings.validate ⟨wideSearch, [], []⟩ = .ok () ∧
      (Network.ofTimetable t 0).LeadsByRides (tramNode 86400 0)
        [tramRide 86400 0, tramRide 86400 1] (tramNode 86400 2) ∧
      s.costs.duration tramTrip.person trip.clock [tramRide 86400 0, tramRide 86400 1] =
        ((200 : ℝ) : EReal) ∧
      ∃ leg, s.closeRide tramTrip trip ⟨⟨0⟩, ⟨0⟩, tramNode 86400 0, tramNode 86400 2⟩
          (tramNode 86400 2) 0 = .ok (trip.push leg) ∧
        leg.travelTime = ((86600 : ℝ) : EReal) := by
  intro t s trip
  refine ⟨Timetable.built_tram 86400, Timetable.isFinite_tram 86400,
    fun route hroute ↦ ⟨Timetable.ordered_tram 86400 route hroute,
      Timetable.dwellsWithinGaps_tram 86400 route hroute⟩,
    validate_wideSearch, leadsByRides_tram 86400, ?_, _, if_pos rfl, ?_⟩
  · have hstart : trip.clock = ((87300 : ℝ) : EReal) := rfl
    have hfirst : s.costs.travelTime tramTrip.person (tramRide 86400 0) ((87300 : ℝ) : EReal) =
        ((100 : ℝ) : EReal) :=
      Cost.travelTime_tramRide_of_leaves wideSearch 86400 Nat.zero_lt_two 87300 1
        (by norm_num [Timetable.tramDeparts])
    have hsecond : s.costs.travelTime tramTrip.person (tramRide 86400 1) ((87400 : ℝ) : EReal) =
        ((100 : ℝ) : EReal) :=
      Cost.travelTime_tramRide_of_leaves wideSearch 86400 Nat.one_lt_two 87400 0
        (by norm_num [Timetable.tramDeparts])
    have hlater : ((87300 : ℝ) : EReal) + ((100 : ℝ) : EReal) = ((87400 : ℝ) : EReal) := by
      rw [← EReal.coe_add]
      norm_num
    simp only [CostModel.duration]
    rw [hstart, hfirst, hlater, hsecond, Scalar.zero_exact, add_zero, ← EReal.coe_add]
    norm_num
  · have hnext := Departures.next_tram 86400 0 87300 1 (by simp [Timetable.tramDeparts]; norm_num)
      (by norm_num [Timetable.tramDeparts])
    change (Departures.ofTimetable t).lookup.next ⟨0⟩ (Timetable.tramCall 86400 0)
        ((87300 : ℝ) : EReal) + ((Timetable.tramCall 86400 2).arrives -
      (Timetable.tramCall 86400 0).departs) - ((87300 : ℝ) : EReal) = _
    rw [hnext, Timetable.arrives_tramCall, Timetable.departs_tramCall, Scalar.ofNat_exact,
      Scalar.ofNat_exact, ← EReal.coe_sub, ← EReal.coe_add, ← EReal.coe_sub]
    norm_num [Timetable.tramArrives, Timetable.tramDeparts]

end Routing

end DoorToDoor
