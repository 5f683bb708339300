import DoorToDoor.Proofs.Candidates
import DoorToDoor.Proofs.Itinerary.VehicleRuns
import DoorToDoor.Proofs.Timetable.Loaded

/-!
# The times that legs take

No way on foot or by another access mode takes a negative time. A ride takes the wait for its
vehicle and what passes from the departure at the access stop to the arrival at the egress stop, and
neither rows nor a builder keep an arrival from lying before the departure (`Timetable.RunsBack`).
So a leg of a planned journey takes a time that is not negative unless its vehicle runs back
(`nonneg_or_runsBack_of_ofRows`), as none does in a timetable in order (`Ordered.not_runsBack`).
-/

namespace DoorToDoor

namespace Routing

section

variable {α : Type} [Scalar α] {P : α → Prop} {s : Setting α} {r : Request α} {trip : Trip α}

/-- Whether all access legs and walks take times of a kind. -/
structure Setting.WaysTake (P : α → Prop) (s : Setting α) : Prop where
  access : ∀ person start finish time, P (s.access.leg person start finish time false).travelTime
  walk : ∀ person start startLink finish finishLink,
    P (s.walk person start startLink finish finishLink).travelTime

/-- Whether all legs but rides take times of a kind. -/
def WaysTake (P : α → Prop) (legs : List (Leg α)) : Prop :=
  ∀ leg ∈ legs, leg.isRide = false → P leg.travelTime

namespace WaysTake

/-- A leg may be added if it is a ride or takes a time of the kind. -/
theorem push (h : WaysTake P trip.legs) {leg : Leg α}
    (hleg : leg.isRide = false → P leg.travelTime) : WaysTake P (trip.push leg).legs := by
  intro leg' hleg' way
  rw [Trip.legs_push, List.mem_append, List.mem_singleton] at hleg'
  rcases hleg' with hleg' | rfl
  · exact h leg' hleg' way
  · exact hleg way

/-- The way to a stop takes times of the kind. -/
theorem addAccess (h : WaysTake P trip.legs) (ways : s.WaysTake P) (stop : Node α) :
    WaysTake P (s.addAccess r trip stop).legs := by
  have haccess := ways.access r.person r.start stop.coord trip.clock
  unfold Setting.addAccess
  dsimp only
  split
  · refine h.push fun _ ↦ ?_
    rwa [Leg.withFinishLink, Leg.travelTime_mapWay]
  · exact (h.push fun _ ↦ haccess).push fun _ ↦ ways.walk _ _ _ _ _

/-- The way from a stop takes times of the kind. -/
theorem addEgress (h : WaysTake P trip.legs) (ways : s.WaysTake P) (stop : Node α) :
    WaysTake P (s.addEgress r trip stop).legs := by
  have haccess := ways.access r.person stop.coord r.finish trip.clock
  unfold Setting.addEgress
  dsimp only
  split
  · refine h.push fun _ ↦ ?_
    rwa [Leg.withStartLink, Leg.travelTime_mapWay]
  · exact (h.push fun _ ↦ ways.walk _ _ _ _ _).push fun _ ↦ haccess

/-- The way to a boarding takes times of the kind. -/
theorem approach (h : WaysTake P trip.legs) (ways : s.WaysTake P) (alighted? : Option (Node α))
    (boarding : Node α) : WaysTake P (s.approach r trip alighted? boarding).legs := by
  cases alighted? with
  | none => exact h.addAccess ways boarding
  | some alighted =>
    unfold Setting.approach
    dsimp only
    split
    · exact h
    · exact h.push fun _ ↦ ways.walk _ _ _ _ _

/-- A ride may take any time. -/
theorem alight (h : WaysTake P trip.legs) (ride : Boarded α) (alighting : Node α) (distance : α) :
    WaysTake P (s.alight trip ride alighting distance).legs :=
  h.push fun way ↦ nomatch way

/-- Every move keeps the times of the ways. -/
theorem move {x y : Trip α × Stage α} {e : Edge α} (h : WaysTake P x.1.legs)
    (ways : s.WaysTake P) (hmove : s.Move r x e y) : WaysTake P y.1.legs := by
  cases hmove with
  | walkOn => exact h
  | alight => exact h.alight _ _ _
  | depart => exact h.addAccess ways _
  | change => exact h.approach ways _ _
  | stayOn => exact h
  | switch => exact (h.alight _ _ _).approach ways _ _

/-- The end of a journey keeps the times of its ways. -/
theorem ending {x : Trip α × Stage α} {last : Node α} {legs : List (Leg α)}
    (h : WaysTake P x.1.legs) (ways : s.WaysTake P) (hending : s.Ending r last x legs) :
    WaysTake P legs := by
  cases hending with
  | direct =>
    intro leg hleg _
    rw [List.mem_singleton.mp hleg]
    exact ways.access _ _ _ _
  | alighted => exact h.addEgress ways _
  | riding => exact (h.alight _ _ _).addEgress ways _

end WaysTake

/-- All legs of an itinerary but its rides take times of a kind if access legs and walks do. -/
theorem waysTake_of_itinerary (ways : s.WaysTake P) {path : Path α} {legs : List (Leg α)}
    (h : s.itinerary r path = .ok legs) : WaysTake P legs := by
  obtain ⟨x, hx, hending⟩ := Setting.exists_ending (P := fun _ x ↦ WaysTake P x.1.legs) h
    (fun _ hleg ↦ absurd hleg List.not_mem_nil) (fun _ _ _ _ hx hmove ↦ hx.move ways hmove)
  exact hx.ending ways hending

end

/-- With access by distance and accepted parameters no way takes a negative time. -/
theorem waysTake_nonneg_of_validate {p : Parameters EReal}
    (valid : Settings.validate ⟨p, [], []⟩ = .ok ()) {m : AccessByDistance EReal}
    (speed : m.walkSpeed = p.walkSpeed) (detour : m.beelineFactor = p.beelineFactor)
    (lookup : DepartureLookup EReal) :
    (⟨lookup, Cost.byTimetable lookup p, m.model, p⟩ : Setting EReal).WaysTake (0 ≤ ·) := by
  obtain ⟨⟨hspeed, -⟩, hdetour, -⟩ := Settings.positive_of_validate valid
  obtain ⟨hmargin, -⟩ := Settings.nonNegative_of_validate valid
  rw [Scalar.zero_exact] at hspeed hdetour hmargin
  constructor
  case access =>
    intro person start finish time
    exact AccessByDistance.travelTime_leg_nonneg (speed ▸ hspeed) (detour ▸ hdetour.le) _ _ nofun
  case walk =>
    intro person start startLink finish finishLink
    exact add_nonneg (EReal.div_nonneg (start.distance_nonneg finish) hspeed.le) hmargin

end Routing

namespace Timetable

/-- Whether a vehicle of the route of a ride is, by so many seconds, at the egress stop before it
leaves the access stop, which comes earlier on the route. -/
def RunsBack (t : Timetable EReal) (ride : Ride) (seconds : EReal) : Prop :=
  ∃ route, t.route? ride.route = some route ∧
    ∃ (b e : ℕ) (boarding alighting : Call EReal), b < e ∧
      route.calls[b]? = some boarding ∧ boarding.stop = ride.accessStop ∧
      route.calls[e]? = some alighting ∧ alighting.stop = ride.egressStop ∧
      alighting.arrives < boarding.departs ∧ seconds = boarding.departs - alighting.arrives

/-- Along a route in order a vehicle has left each call when it is at a later one. -/
theorem Ordered.departs_le_arrives {t : Timetable EReal} (ordered : t.Ordered) {route : Route EReal}
    (hroute : route ∈ t.routes) {b n : ℕ} {boarding alighting : Call EReal}
    (hb : route.calls[b]? = some boarding) (he : route.calls[b + 1 + n]? = some alighting) :
    boarding.departs ≤ alighting.arrives := by
  induction n generalizing alighting with
  | zero => exact (ordered route hroute).ride b boarding alighting hb he
  | succ n ih =>
    have hlt : b + 1 + n < route.calls.length := by
      have := (List.getElem?_eq_some_iff.mp he).1
      omega
    have hbefore := List.getElem?_eq_getElem hlt
    calc
      boarding.departs ≤ route.calls[b + 1 + n].arrives := ih hbefore
      _ ≤ route.calls[b + 1 + n].departs :=
        (ordered route hroute).dwell _ (List.mem_of_getElem? hbefore)
      _ ≤ alighting.arrives := (ordered route hroute).ride _ _ _ hbefore he

/-- In a timetable in order no vehicle runs back. -/
theorem Ordered.not_runsBack {t : Timetable EReal} (ordered : t.Ordered) (ride : Ride)
    (seconds : EReal) : ¬t.RunsBack ride seconds := by
  rintro ⟨route, hroute, b, e, boarding, alighting, hbe, hb, -, he, -, hback, -⟩
  obtain ⟨n, rfl⟩ := Nat.exists_eq_add_of_lt hbe
  rw [Nat.add_right_comm] at he
  have hle := ordered.departs_le_arrives (Array.mem_of_getElem? hroute) hb he
  exact absurd hback (not_lt_of_ge hle)

private theorem IsRun.nonneg_or_runsBack {t : Timetable EReal} (finite : t.IsFinite) {ride : Ride}
    {leg : Leg EReal} (h : t.IsRun ride leg.departure leg.arrival) :
    0 ≤ leg.travelTime ∨ ∃ seconds, t.RunsBack ride seconds ∧ -seconds ≤ leg.travelTime := by
  obtain ⟨route, hroute, -, b, e, boarding, alighting, hbe, hb, haccess, he, hegress, d, hd, k,
    hwaits, hends⟩ := h
  have hmem := Array.mem_of_getElem? hroute
  obtain ⟨o, ho⟩ := Scalar.isFinite_iff_exists.mp (finite.departs hmem (List.mem_of_getElem? hb))
  obtain ⟨a, ha⟩ := Scalar.isFinite_iff_exists.mp (finite.arrives hmem (List.mem_of_getElem? he))
  obtain ⟨σ, hσ⟩ := Scalar.isFinite_iff_exists.mp (Scalar.isFinite_add
    (Scalar.isFinite_remEuclid d Clock.day)
    (Scalar.isFinite_mul (Scalar.isFinite_ofNat k) (Scalar.isFinite_ofNat Clock.secondsPerDay)))
  change (σ : EReal) = Scalar.remEuclid d Clock.day + Scalar.ofNat k * Clock.day at hσ
  rw [← hσ, ← ho, ← EReal.coe_add] at hwaits
  rw [← hσ, ← ha, ← EReal.coe_add] at hends
  -- The leg ends at a finite time, so it departs at one, and takes what lies between both.
  have harrival : Scalar.isFinite (leg.departure + leg.travelTime) = true := by
    change Scalar.isFinite leg.arrival = true
    rw [hends]
    exact Scalar.isFinite_coe (σ + a)
  obtain ⟨hdeparture, htravel⟩ := Scalar.isFinite_of_add harrival
  obtain ⟨τ, hτ⟩ := Scalar.isFinite_iff_exists.mp hdeparture
  obtain ⟨δ, hδ⟩ := Scalar.isFinite_iff_exists.mp htravel
  rw [Leg.arrival, ← hτ, ← hδ, ← EReal.coe_add, EReal.coe_eq_coe_iff] at hends
  rw [← hτ, EReal.coe_le_coe_iff] at hwaits
  rcases le_or_gt o a with hon | hback
  · left
    rw [← hδ, EReal.coe_nonneg]
    linarith
  · right
    refine ⟨boarding.departs - alighting.arrives, ⟨route, hroute, b, e, boarding, alighting, hbe,
      hb, haccess, he, hegress, ?_, rfl⟩, ?_⟩
    · rw [← ho, ← ha, EReal.coe_lt_coe_iff]
      exact hback
    · rw [← ho, ← ha, ← hδ, ← EReal.coe_sub, ← EReal.coe_neg, EReal.coe_le_coe_iff]
      linarith

end Timetable

namespace Routing

section

variable {t : Timetable EReal} (built : t.Built) (finite : t.IsFinite) {reach : EReal}
  {p : Parameters EReal} (valid : Settings.validate ⟨p, [], []⟩ = .ok ())
  (margin : Scalar.isFinite p.transferMargin = true) {m : AccessByDistance EReal}
  (speed : m.walkSpeed = p.walkSpeed) (detour : m.beelineFactor = p.beelineFactor)
  {surcharged : Bool} {labels : Labels EReal} {r : Request EReal} (start : r.start.IsFinite)
  (finish : r.finish.IsFinite) (departure : Scalar.isFinite r.departure = true)
  {legs : List (Leg EReal)}
  (found : ((Planner.ofTimetable t reach m.model p surcharged).plan labels r).1 = .ok (some legs))

include built finite valid margin speed detour start finish departure found

/-- A leg of a planned journey takes a time that is not negative unless it is a ride whose vehicle
runs back, and then no more than this is missing. -/
theorem nonneg_or_runsBack_of_plan {leg : Leg EReal} (hleg : leg ∈ legs) :
    0 ≤ leg.travelTime ∨ ∃ ride seconds, leg.course = .ride ride ∧ t.RunsBack ride seconds ∧
      -seconds ≤ leg.travelTime := by
  have timely := timely_of_validate valid margin speed detour (Departures.ofTimetable t).lookup
  have ways := waysTake_nonneg_of_validate valid speed detour (Departures.ofTimetable t).lookup
  obtain ⟨origins, destinations, path, -, -, hpath, hlegs⟩ := Planner.plan_eq_ok_some.mp found
  obtain ⟨o, d, -, -, hends⟩ := Planner.legsAlong_eq_ok.mp hlegs
  split at hends
  · subst hends
    rw [List.mem_singleton.mp hleg]
    exact .inl (ways.access _ _ _ _)
  · obtain ⟨walk, -, hlast⟩ :=
      LeastCost.isWalk_of_searchWith (Network.wellFormed_ofTimetable t reach) hpath
    cases hcourse : leg.course with
    | way w =>
      have hway : leg.isRide = false := by
        rw [Leg.isRide, Leg.way?, hcourse]
        rfl
      exact .inl (waysTake_of_itinerary ways hends leg hleg hway)
    | ride ride =>
      have hrun := isRun_of_itinerary built.wellFormed finite timely rfl start finish departure
        walk (Array.mem_of_getElem? hlast) hends leg hleg ride hcourse
      rcases hrun.nonneg_or_runsBack finite with hnonneg | ⟨seconds, hback, hle⟩
      · exact .inl hnonneg
      · exact .inr ⟨ride, seconds, rfl, hback, hle⟩

/-- With a timetable in order no leg of a planned journey takes a negative time. -/
theorem travelTime_nonneg_of_plan (ordered : t.Ordered) {leg : Leg EReal} (hleg : leg ∈ legs) :
    0 ≤ leg.travelTime := by
  rcases nonneg_or_runsBack_of_plan built finite valid margin speed detour start finish departure
    found hleg with hnonneg | ⟨ride, seconds, -, hback, -⟩
  · exact hnonneg
  · exact absurd hback (ordered.not_runsBack ride seconds)

end

/-- With a timetable that is read from rows with finite coordinates, and with settings that are
accepted, a leg of a planned journey takes a time that is not negative unless it is a ride whose
vehicle runs back, and then no more than this is missing. -/
theorem nonneg_or_runsBack_of_ofRows (stopRows : Csv.Sheet (Timetable.StopRow EReal))
    (callRows : Csv.Sheet Timetable.CallRow) (departureRows : Csv.Sheet Timetable.DepartureRow)
    (t : Timetable EReal) (loaded : Timetable.ofRows stopRows callRows departureRows = .ok t)
    (places : ∀ row ∈ stopRows.rows, row.coord.IsFinite) (s : Settings EReal)
    (valid : s.validate = .ok ()) (margin : Scalar.isFinite s.parameters.transferMargin = true)
    (surcharged : Bool) (labels : Labels EReal) (r : Request EReal) (start : r.start.IsFinite)
    (finish : r.finish.IsFinite) (departure : Scalar.isFinite r.departure = true)
    (legs : List (Leg EReal))
    (found : ((Planner.ofTimetable t s.parameters.transferReach s.access.model s.parameters
      surcharged).plan labels r).1 = .ok (some legs)) :
    ∀ leg ∈ legs, 0 ≤ leg.travelTime ∨ ∃ ride seconds, leg.course = .ride ride ∧
      t.RunsBack ride seconds ∧ -seconds ≤ leg.travelTime := by
  have hloaded := Timetable.loaded_of_ofRows loaded
  intro leg hleg
  exact nonneg_or_runsBack_of_plan hloaded.built (hloaded.isFinite (by simpa using places))
    (Settings.validate_parameters valid) margin s.pace_access.1 s.pace_access.2 start finish
    departure found hleg

/-- The shuttle of the morning can be loaded from rows, and no leg of a planned journey by it takes
a negative time. -/
theorem nonneg_or_runsBack_of_ofRows_morning : ∃ (t : Timetable EReal) (legs : List (Leg EReal)),
    Timetable.ofRows Timetable.shuttleStopRows (Timetable.shuttleCallRows "00:00:00" "00:10:00")
      (Timetable.shuttleDepartureRows "08:00:00") = .ok t ∧
    ((Planner.ofTimetable t Planner.freeRides.transferReach
      (Settings.access ⟨Planner.freeRides, [], []⟩).model Planner.freeRides false).plan .empty
        Planner.shuttleTrip).1 = .ok (some legs) ∧
    (∃ leg ∈ legs, ∃ ride, leg.course = .ride ride) ∧ ∀ leg ∈ legs, 0 ≤ leg.travelTime := by
  have hloaded : Timetable.ofRows (α := EReal) Timetable.shuttleStopRows
      (Timetable.shuttleCallRows "00:00:00" "00:10:00")
      (Timetable.shuttleDepartureRows "08:00:00") = .ok (.shuttleAt .morning) :=
    Timetable.ofRows_shuttle rfl rfl rfl
  have hlegs := nonneg_or_runsBack_of_ofRows _ _ _ _ hloaded Timetable.isFinite_shuttleStopRows
    ⟨Planner.freeRides, [], []⟩ Planner.validate_freeRides (Scalar.isFinite_coe 0) false .empty
    Planner.shuttleTrip ⟨Scalar.isFinite_zero, Scalar.isFinite_zero⟩
    ⟨Scalar.isFinite_ofNat 1000, Scalar.isFinite_zero⟩ (Scalar.isFinite_ofNat _) _
    (Planner.plan_shuttleAt .morning)
  refine ⟨_, _, hloaded, Planner.plan_shuttleAt .morning,
    ⟨_, (Setting.continues_addEgress _ _ _ _).mem_legs, _, rfl⟩, fun leg hleg ↦ ?_⟩
  rcases hlegs leg hleg with hnonneg | ⟨ride, seconds, -, hback, -⟩
  · exact hnonneg
  · exact absurd hback (Timetable.ordered_shuttle.not_runsBack ride seconds)

open Network (eastAt westAt)
open Timetable (ShuttleTimes)

private theorem clock_addAccess_shuttleAt (times : ShuttleTimes EReal) :
    ((Planner.shuttlePlannerAt times).setting.addAccess Planner.shuttleTrip
      (.start Planner.shuttleTrip.departure) (westAt times)).clock = ((27000 : ℝ) : EReal) := by
  have hfinite : (westAt times).coord.IsFinite := ⟨Scalar.isFinite_zero, Scalar.isFinite_zero⟩
  have hleg : (Planner.shuttlePlannerAt times).setting.access.leg Planner.shuttleTrip.person
      Planner.shuttleTrip.start (westAt times).coord
      (Trip.start Planner.shuttleTrip.departure).clock false =
        .between .walk (westAt times).coord (westAt times).coord Planner.shuttleTrip.departure 0
          0 :=
    Planner.leg_self Planner.freeRides hfinite _ _
  have hwalk : (westAt times).coord.distance (westAt times).coord / (1 : EReal) + 0 = 0 := by
    rw [hfinite.distance_self, EReal.zero_div, add_zero]
  have hclock : Planner.shuttleTrip.departure = ((27000 : ℝ) : EReal) :=
    (Clock.time_exact 7 30 0).trans (by norm_num)
  unfold Setting.addAccess
  dsimp only
  rw [hleg]
  refine (congrArg Trip.clock (if_neg Bool.false_ne_true)).trans ?_
  change Planner.shuttleTrip.departure + 0 +
    ((westAt times).coord.distance (westAt times).coord / 1 + 0) = _
  rw [hwalk, hclock, add_zero, add_zero]

/-- Rows that are loaded may make a ride of a planned journey, with accepted parameters, end more
than seven hours before the wait for it begins: the shuttle by night is waited for from half past
seven in the morning on, and the ride ends ten minutes after the midnight before. -/
theorem negative_leg_night : ∃ (t : Timetable EReal) (legs : List (Leg EReal)),
    Timetable.ofRows Timetable.shuttleStopRows (Timetable.shuttleCallRows "23:50:00" "00:10:00")
      (Timetable.shuttleDepartureRows "00:00:00") = .ok t ∧
    Settings.validate ⟨Planner.freeRides, [], []⟩ = .ok () ∧
    ((Planner.ofTimetable t Planner.freeRides.transferReach
      (Settings.access ⟨Planner.freeRides, [], []⟩).model Planner.freeRides false).plan .empty
        Planner.shuttleTrip).1 = .ok (some legs) ∧
    ∃ leg ∈ legs, leg.travelTime = ((-26400 : ℝ) : EReal) := by
  have hleaves : (ShuttleTimes.night : ShuttleTimes EReal).leaves = ((85800 : ℝ) : EReal) :=
    (Clock.time_exact 23 50 0).trans (by norm_num)
  have harrives : (ShuttleTimes.night : ShuttleTimes EReal).arrives = ((600 : ℝ) : EReal) :=
    (Clock.time_exact 0 10 0).trans (by norm_num)
  have hdeparture : (ShuttleTimes.night : ShuttleTimes EReal).departure = ((0 : ℝ) : EReal) :=
    (Clock.time_exact 0 0 0).trans (by norm_num)
  refine ⟨_, _, Timetable.ofRows_shuttle_night, Planner.validate_freeRides,
    Planner.plan_shuttleAt .night, _, (Setting.continues_addEgress _ _ _ _).mem_legs, ?_⟩
  have hnext := Departures.next_shuttleAt hleaves hdeparture le_rfl (by norm_num)
    (by norm_num : (27000 : ℝ) ≤ 0 + 85800)
  change (Departures.ofTimetable (.shuttleAt .night)).lookup.next ⟨0⟩
      ⟨⟨0⟩, none, some (ShuttleTimes.night : ShuttleTimes EReal).leaves⟩ (Trip.clock _) +
    ((ShuttleTimes.night : ShuttleTimes EReal).arrives -
      (ShuttleTimes.night : ShuttleTimes EReal).leaves) - Trip.clock _ = _
  rw [clock_addAccess_shuttleAt, hnext, hleaves, harrives, ← EReal.coe_sub, ← EReal.coe_add,
    ← EReal.coe_sub]
  norm_num

end Routing

end DoorToDoor
