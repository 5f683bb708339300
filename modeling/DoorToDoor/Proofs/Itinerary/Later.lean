import DoorToDoor.Proofs.Itinerary.LegTimes
import DoorToDoor.Proofs.Timetable.DaysLater

/-!
# Journeys at a later time

When the legs of an access model are the same at all times (`AccessModel.Steady`), and the rides of
a journey take as long after a span of time, the moves of a request that departs that much later are
the same, with all legs that much later: `Setting.itinerary_later`. On late times rides do take as
long some days later, and a journey that departs late stays late: `Setting.itinerary_days_later`.
-/

namespace DoorToDoor

/-- The same leg, departing later by a span of time. -/
def Leg.later {α : Type} [Scalar α] (span : α) (leg : Leg α) : Leg α :=
  { leg with departure := leg.departure + span }

/-- Whether the legs of an access model are the same at all times, but for their departure. -/
def AccessModel.Steady {α : Type} (access : AccessModel α) : Prop :=
  ∀ person start finish time time' surcharged,
    access.leg person start finish time' surcharged =
      (access.leg person start finish time surcharged).departingAt time'

/-- Access by distance is the same at all times. -/
theorem AccessByDistance.steady_model {α : Type} [Scalar α] (m : AccessByDistance α) :
    m.model.Steady :=
  fun _ _ _ _ _ _ ↦ rfl

namespace Routing

section

variable {α : Type} [Scalar α]

/-- The same request, departing later by a span of time. -/
def Request.later (span : α) (r : Request α) : Request α :=
  { r with departure := r.departure + span }

/-- The same journey in the making, later by a span of time. -/
def Trip.later (span : α) (t : Trip α) : Trip α := ⟨t.clock + span, t.legs.map (Leg.later span)⟩

private theorem Trip.push_departingAt (t : Trip α) (time : α) (leg : Leg α) :
    t.push (leg.departingAt time) = t.push leg := rfl

/-- Whether a ride that is waited for from a time on takes as long after a span of time, wherever it
ends. -/
def Setting.RideRepeats (s : Setting α) (span : α) (ride : Boarded α) (time : α) : Prop :=
  ∀ alighting, s.rideArrival ride alighting (time + span) - (time + span) =
    s.rideArrival ride alighting time - time

end

/-- Adding a leg to a later journey adds it later. -/
theorem Trip.push_later (span : EReal) (t : Trip EReal) (leg : Leg EReal) :
    (t.later span).push leg = (t.push leg).later span := by
  have hclock : t.clock + span + leg.travelTime = t.clock + leg.travelTime + span :=
    add_right_comm _ _ _
  have hlegs : t.legs.map (Leg.later span) ++ [leg.departingAt (t.clock + span)] =
      (t.legs ++ [leg.departingAt t.clock]).map (Leg.later span) := by
    rw [List.map_append]
    rfl
  exact congrArg₂ Trip.mk hclock hlegs

namespace Setting

variable {s : Setting EReal} {r : Request EReal} {span : EReal}

section

variable (steady : s.access.Steady)

include steady

/-- The direct leg of a later request is later. -/
theorem direct_later : s.direct (r.later span) = (s.direct r).later span := by
  have hnow := steady r.person r.start r.finish r.departure r.departure false
  have hlater := steady r.person r.start r.finish r.departure (r.departure + span) false
  have hdeparture : (s.access.leg r.person r.start r.finish r.departure false).departure =
      r.departure := congrArg Leg.departure hnow
  refine hlater.trans ?_
  rw [direct, Leg.later, hdeparture]
  rfl

private theorem addAccess_later (t : Trip EReal) (stop : Node EReal) :
    s.addAccess (r.later span) (t.later span) stop = (s.addAccess r t stop).later span := by
  have hleg : s.access.leg (r.later span).person (r.later span).start stop.coord
      (t.later span).clock false =
        (s.access.leg r.person r.start stop.coord t.clock false).departingAt (t.clock + span) :=
    steady ..
  unfold addAccess
  dsimp only
  rw [hleg, Leg.withFinishLink, Leg.mapWay_departingAt, Trip.push_departingAt,
    Trip.push_departingAt, Trip.push_later, Trip.push_later, Trip.push_later]
  exact (apply_ite (Trip.later span) _ _ _).symm

private theorem addEgress_later (t : Trip EReal) (stop : Node EReal) :
    s.addEgress (r.later span) (t.later span) stop = (s.addEgress r t stop).later span := by
  have hleg : s.access.leg (r.later span).person stop.coord (r.later span).finish
      (t.later span).clock false =
        (s.access.leg r.person stop.coord r.finish t.clock false).departingAt (t.clock + span) :=
    steady ..
  unfold addEgress
  dsimp only
  rw [hleg, Leg.withStartLink, Leg.mapWay_departingAt, Trip.push_departingAt,
    Trip.push_departingAt, Trip.push_later, Trip.push_later, Trip.push_later]
  exact (apply_ite (Trip.later span) _ _ _).symm

private theorem legs_addEgress_later (t : Trip EReal) (stop : Node EReal) :
    (s.addEgress (r.later span) (t.later span) stop).legs =
      (s.addEgress r t stop).legs.map (Leg.later span) :=
  congrArg Trip.legs (addEgress_later steady t stop)

/-- The way to a boarding is added later. -/
theorem approach_later (t : Trip EReal) (alighted? : Option (Node EReal)) (boarding : Node EReal) :
    s.approach (r.later span) (t.later span) alighted? boarding =
      (s.approach r t alighted? boarding).later span := by
  cases alighted? with
  | none => exact addAccess_later steady t boarding
  | some alighted =>
    unfold approach
    dsimp only
    split
    · rfl
    · exact Trip.push_later span t _

omit steady in
/-- A ride that takes as long at a later time ends later. -/
theorem alight_later {t : Trip EReal} {ride : Boarded EReal}
    (repeats : s.RideRepeats span ride t.clock) (alighting : Node EReal) (distance : EReal) :
    s.alight (t.later span) ride alighting distance =
      (s.alight t ride alighting distance).later span := by
  have hleg : s.rideLeg ride alighting (t.clock + span) distance =
      (s.rideLeg ride alighting t.clock distance).departingAt (t.clock + span) := by
    unfold rideLeg
    rw [repeats alighting]
    rfl
  have hclock : (t.later span).clock = t.clock + span := rfl
  rw [alight, hclock, hleg, Trip.push_departingAt, Trip.push_later, alight]

/-- A move of a later journey is the move of the journey, later. -/
theorem Move.later {x y : Trip EReal × Stage EReal} {e : Edge EReal} (h : s.Move r x e y)
    (repeats : ∀ ride, x.2 = .riding ride → s.RideRepeats span ride x.1.clock) :
    s.Move (r.later span) (x.1.later span, x.2) e (y.1.later span, y.2) := by
  cases h with
  | walkOn kind walking => exact .walkOn kind walking
  | alight kind route =>
    rw [← alight_later (repeats _ rfl)]
    exact .alight kind route
  | depart kind =>
    rw [← addAccess_later steady]
    exact .depart kind
  | change kind =>
    rw [← approach_later steady]
    exact .change kind
  | stayOn kind => exact .stayOn kind
  | switch kind reached other =>
    rw [← approach_later steady, ← alight_later (repeats _ rfl)]
    exact .switch kind reached other

/-- The ending of a later journey is that of the journey, later. -/
theorem Ending.later {last : Node EReal} {x : Trip EReal × Stage EReal} {legs : List (Leg EReal)}
    (h : s.Ending r last x legs)
    (repeats : ∀ ride, x.2 = .riding ride → s.RideRepeats span ride x.1.clock) :
    s.Ending (r.later span) last (x.1.later span, x.2) (legs.map (Leg.later span)) := by
  cases h with
  | direct =>
    rw [List.map_singleton, ← direct_later steady]
    exact .direct
  | alighted =>
    rw [← legs_addEgress_later steady]
    exact .alighted
  | riding route =>
    rw [← legs_addEgress_later steady, ← alight_later (repeats _ rfl)]
    exact .riding route

/-- Along one path the itinerary of a later request is that of the request, later, if the rides on
the way take as long. Which rides these are may be told by what every move keeps. -/
theorem itinerary_later {P : List (Edge EReal) → Trip EReal × Stage EReal → Prop}
    {path : Path EReal} {legs : List (Leg EReal)} (h : s.itinerary r path = .ok legs)
    (start : P path.edges (Trip.start r.departure, .atStart))
    (move : ∀ e rest x y, P (e :: rest) x → s.Move r x e y → P rest y)
    (repeats : ∀ es x ride, P es x → x.2 = .riding ride → s.RideRepeats span ride x.1.clock) :
    s.itinerary (r.later span) path = .ok (legs.map (Leg.later span)) := by
  obtain ⟨x, hfold, hconclude⟩ := Result.bind_eq_ok.mp h
  obtain ⟨_, hfold', hx, rfl⟩ := Result.exists_foldlM_of_step (g := s.follow (r.later span))
    (R := fun es x x' ↦ P es x ∧ x' = (x.1.later span, x.2))
    (by
      rintro e rest x _ y ⟨hx, rfl⟩ hfollow
      have hmove := move_of_follow hfollow
      exact ⟨_, follow_of_move (hmove.later steady fun ride ↦ repeats _ x ride hx),
        move e rest x y hx hmove, rfl⟩)
    path.edges ⟨start, rfl⟩ hfold
  have hending := (ending_of_conclude hconclude).later steady fun ride ↦ repeats _ x ride hx
  exact Result.bind_eq_ok.mpr ⟨_, hfold', conclude_of_ending hending⟩

end

end Setting

section

variable {t : Timetable EReal} {reach : EReal} {s : Setting EReal} {r : Request EReal}
  {ride : Boarded EReal} {trip : Trip EReal} (wf : t.WellFormed) (finite : t.IsFinite)

include wf

/-- A ride was boarded at a node from which vehicles depart. -/
theorem OnRoute.canDepart (h : OnRoute t reach ride) :
    Network.canDepart t ride.boarding = true := by
  obtain ⟨route, hroute, -, -, -, -, hreached, -⟩ := h.exists_route? wf
  have hlength := (List.getElem?_eq_some_iff.mp hreached).1
  rw [Network.canDepart, Network.routeLength, h.boarding_route, hroute]
  exact decide_eq_true (Nat.lt_of_le_of_lt h.before hlength)

/-- Along a ride in a timetable in order the vehicle has left the first node when it is at the node
that it has come to. -/
theorem OnRoute.departs_le_arrives (ordered : t.Ordered) (h : OnRoute t reach ride) :
    ride.boarding.call.departs ≤ ride.reached.call.arrives := by
  obtain ⟨route, -, hmem, -, hboarding, -, hreached, -⟩ := h.exists_route? wf
  obtain ⟨n, hn⟩ := Nat.exists_eq_add_of_lt h.before
  rw [hn, Nat.add_right_comm] at hreached
  exact ordered.departs_le_arrives hmem hboarding hreached

include finite

private theorem OnRoute.rideRepeats (h : OnRoute t reach ride)
    (lookup : s.lookup = (Departures.ofTimetable t).lookup) {time : EReal} (late : t.IsLate time)
    (n : ℕ) : s.RideRepeats (Clock.days n) ride time := by
  intro alighting
  rw [Setting.rideArrival, Setting.rideArrival, lookup, ← h.boarding_route]
  exact Departures.next_sub_add_days wf finite h.boarding (h.canDepart wf) late n _

/-- In a timetable in order a ride ends no earlier than it is waited for. -/
theorem OnRoute.rideTime_nonneg (ordered : t.Ordered) (h : OnRoute t reach ride)
    (lookup : s.lookup = (Departures.ofTimetable t).lookup) {time : EReal}
    (htime : Scalar.isFinite time = true) :
    0 ≤ s.rideArrival ride ride.reached time - time := by
  have htime' := Scalar.isFinite_exact.mp htime
  have hdeparts := Scalar.isFinite_exact.mp (finite.call wf h.boarding).2
  have hnext := Departures.le_next_of_mem_nodes wf finite h.boarding htime
  have hrun : 0 ≤ ride.reached.call.arrives - ride.boarding.call.departs :=
    (EReal.sub_nonneg (.inr hdeparts.2) (.inr hdeparts.1)).mpr (h.departs_le_arrives wf ordered)
  rw [EReal.sub_nonneg (.inr htime'.2) (.inr htime'.1), Setting.rideArrival, lookup,
    ← h.boarding_route]
  exact hnext.trans (le_add_of_nonneg_right hrun)

end

end Routing

namespace Timetable.IsLate

open Routing

variable {t : Timetable EReal} {reach : EReal} {s : Setting EReal} {r : Request EReal}
  {trip : Trip EReal}

/-- A journey stays late when a leg is added that takes no negative time. -/
theorem push (late : t.IsLate trip.clock) {leg : Leg EReal}
    (hleg : Scalar.isFinite trip.clock = true → 0 ≤ leg.travelTime) :
    t.IsLate (trip.push leg).clock :=
  late.add hleg

/-- A journey stays late when the way to a boarding is added. -/
theorem approach (late : t.IsLate trip.clock) (ways : s.WaysTake (0 ≤ ·))
    (alighted? : Option (Node EReal)) (boarding : Node EReal) :
    t.IsLate (s.approach r trip alighted? boarding).clock := by
  cases alighted? with
  | none =>
    have haccess := ways.access r.person r.start boarding.coord trip.clock
    unfold Setting.approach Setting.addAccess
    dsimp only
    split
    · refine late.push fun _ ↦ ?_
      rwa [Leg.withFinishLink, Leg.travelTime_mapWay]
    · exact (late.push fun _ ↦ haccess).push fun _ ↦ ways.walk ..
  | some alighted =>
    unfold Setting.approach
    dsimp only
    split
    · exact late
    · exact late.push fun _ ↦ ways.walk ..

variable (wf : t.WellFormed) (finite : t.IsFinite) (ordered : t.Ordered)
  (ways : s.WaysTake (0 ≤ ·)) (lookup : s.lookup = (Departures.ofTimetable t).lookup)

include wf finite ordered lookup

/-- A journey stays late when a ride ends where it has come to. -/
theorem alight (late : t.IsLate trip.clock) {ride : Boarded EReal} (onRoute : OnRoute t reach ride)
    (distance : EReal) : t.IsLate (s.alight trip ride ride.reached distance).clock :=
  late.push fun hclock ↦ onRoute.rideTime_nonneg wf finite ordered lookup hclock

include ways

/-- A journey stays late along an edge that leaves the node to which the path has led. -/
theorem move {x y : Trip EReal × Stage EReal} {e : Edge EReal} (late : t.IsLate x.1.clock)
    (onWay : OnWay t reach e.tail.id x.2) (he : e ∈ (Network.ofTimetable t reach).edges)
    (hmove : s.Move r x e y) : t.IsLate y.1.clock := by
  cases hmove with
  | walkOn => exact late
  | @alight trip ride =>
    obtain ⟨onRoute, meet⟩ := onWay
    rw [← onRoute.reached_eq he meet]
    exact late.alight wf finite ordered lookup onRoute _
  | depart => exact late.approach ways none _
  | change => exact late.approach ways _ _
  | stayOn => exact late
  | switch => exact (late.alight wf finite ordered lookup onWay.1 _).approach ways _ _

end Timetable.IsLate

namespace Routing

/-- Along a walk through the network the itinerary of a request that departs late is the same some
days later, with all legs as many days later. -/
theorem Setting.itinerary_days_later {t : Timetable EReal} {reach : EReal} {s : Setting EReal}
    {r : Request EReal} (wf : t.WellFormed) (finite : t.IsFinite) (ordered : t.Ordered)
    (steady : s.access.Steady) (ways : s.WaysTake (0 ≤ ·))
    (lookup : s.lookup = (Departures.ofTimetable t).lookup) (late : t.IsLate r.departure)
    {path : Path EReal}
    (walk : (Network.ofTimetable t reach).IsWalk path.first.id path.edges path.last.id)
    {legs : List (Leg EReal)} (h : s.itinerary r path = .ok legs) (n : ℕ) :
    s.itinerary (r.later (Clock.days n)) path = .ok (legs.map (Leg.later (Clock.days n))) := by
  refine itinerary_later steady (P := fun es x ↦ ∃ v,
    (Network.ofTimetable t reach).IsWalk v es path.last.id ∧ OnWay t reach v x.2 ∧
      t.IsLate x.1.clock) h ⟨_, walk, trivial, late⟩ ?_ ?_
  · rintro e rest x y ⟨v, ⟨he, rfl, hrest⟩, onWay, hlate⟩ hmove
    exact ⟨e.head.id, hrest, onWay.move he hmove,
      hlate.move wf finite ordered ways lookup onWay he hmove⟩
  · rintro es ⟨trip, stage⟩ ride ⟨v, -, onWay, hlate⟩ rfl
    exact onWay.1.rideRepeats wf finite lookup hlate n

end Routing

end DoorToDoor
