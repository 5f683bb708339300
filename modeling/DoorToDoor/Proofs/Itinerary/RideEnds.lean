import DoorToDoor.Proofs.Itinerary.Grammar
import DoorToDoor.Proofs.Search.Replay

/-!
# The ends of rides

When the rides along a walk end by a clock that runs along its edges (`CostModel.rideEnds`), and
when those of a journey do by its legs (`Trip.rideArrivals`). The ways between rides add nothing to
the latter.
-/

namespace DoorToDoor

variable {α : Type}

/-- The route along which an edge is ridden. -/
def Edge.route? (e : Edge α) : Option RouteId :=
  match e.kind with
  | .ride _ route => some route
  | .transfer => none

namespace CostModel

variable [Scalar α] (costs : CostModel α) (person : Person)

/-- When the rides along a walk end, by the clock that runs along it from a time on. A ride goes on
along the next edge if this belongs to its route. -/
def rideEnds : α → List (Edge α) → List α
  | _, [] => []
  | now, e :: rest =>
    let later := now + costs.travelTime person e now
    if e.route?.isSome ∧ rest.head?.bind Edge.route? ≠ e.route? then later :: rideEnds later rest
    else rideEnds later rest

/-- When the ride of a traveller in a vehicle of a route ends, and the rides after it. -/
def rideEndsAboard (route : RouteId) (now : α) (es : List (Edge α)) : List α :=
  if es.head?.bind Edge.route? = some route then costs.rideEnds person now es
  else now :: costs.rideEnds person now es

variable {costs person} {now : α} {e : Edge α} {es : List (Edge α)} {route : RouteId}

/-- Along a ride edge the traveller is aboard. -/
theorem rideEnds_cons_of_ride (ride : e.route? = some route) :
    costs.rideEnds person now (e :: es) =
      costs.rideEndsAboard person route (now + costs.travelTime person e now) es := by
  rw [rideEnds, rideEndsAboard, ride]
  by_cases same : es.head?.bind Edge.route? = some route
  · simp [same]
  · simp [same]

private theorem rideEnds_cons_of_transfer (transfer : e.route? = none) :
    costs.rideEnds person now (e :: es) =
      costs.rideEnds person (now + costs.travelTime person e now) es := by
  simp [rideEnds, transfer]

/-- A ride goes on along an edge of its route. -/
theorem rideEndsAboard_cons_of_ride (ride : e.route? = some route) :
    costs.rideEndsAboard person route now (e :: es) =
      costs.rideEndsAboard person route (now + costs.travelTime person e now) es := by
  rw [← rideEnds_cons_of_ride ride]
  exact if_pos ride

/-- A ride ends where a transfer begins. -/
theorem rideEndsAboard_cons_of_transfer (transfer : e.route? = none) :
    costs.rideEndsAboard person route now (e :: es) =
      now :: costs.rideEnds person (now + costs.travelTime person e now) es := by
  rw [← rideEnds_cons_of_transfer transfer]
  exact if_neg (by simp [transfer])

/-- The last ride of a walk that ends with a ride ends with the walk. -/
theorem getLast?_rideEnds {cost : α} (last : ∃ e, es.getLast? = some e ∧ e.route?.isSome = true) :
    (costs.rideEnds person now es).getLast? = some (costs.along person ⟨cost, now⟩ es).time := by
  obtain ⟨final, hfinal, hride⟩ := last
  induction es generalizing now cost with
  | nil => cases hfinal
  | cons e rest ih =>
    cases rest with
    | nil =>
      obtain rfl : e = final := Option.some.inj hfinal
      obtain ⟨route, hroute⟩ := Option.isSome_iff_exists.mp hride
      rw [rideEnds_cons_of_ride hroute]
      rfl
    | cons e' rest =>
      rw [List.getLast?_cons_cons] at hfinal
      have hlater : (costs.rideEnds person (now + costs.travelTime person e now)
          (e' :: rest)).getLast? =
          some (costs.along person (costs.onward person ⟨cost, now⟩ e) (e' :: rest)).time :=
        ih hfinal
      rw [along_cons, ← hlater, rideEnds]
      split
      · rw [List.getLast?_cons, hlater]
        rfl
      · rfl

end CostModel

/-- Whether no two edges in a row are transfers, and the last one is a ride. -/
structure EndsRiding (es : List (Edge α)) : Prop where
  apart : es.IsChain fun e e' ↦ e.route?.isSome = true ∨ e'.route?.isSome = true
  last : ∀ e, es.getLast? = some e → e.route?.isSome = true

/-- Whether edges make up a journey by vehicle: the first and the last one are rides, and no two in
a row are transfers. -/
structure IsJourney (es : List (Edge α)) : Prop extends EndsRiding es where
  first : ∃ e, es.head? = some e ∧ e.route?.isSome = true

namespace EndsRiding

variable {e : Edge α} {es : List (Edge α)}

/-- What is left of such edges are such edges. -/
theorem tail (h : EndsRiding (e :: es)) : EndsRiding es where
  apart := h.apart.tail
  last e' he' := h.last e' (List.mem_getLast?_cons he')

/-- Behind a transfer a journey begins. -/
theorem isJourney_of_transfer (h : EndsRiding (e :: es)) (transfer : e.route? = none) :
    IsJourney es where
  toEndsRiding := h.tail
  first := by
    cases es with
    | nil =>
      have hride := h.last e rfl
      rw [transfer] at hride
      cases hride
    | cons e' rest =>
      have hnext := (List.isChain_cons_cons.mp h.apart).1
      rw [transfer] at hnext
      exact ⟨e', rfl, hnext.resolve_left (by simp)⟩

end EndsRiding

/-- The last edge of a journey is a ride. -/
theorem IsJourney.exists_getLast? {es : List (Edge α)} (h : IsJourney es) :
    ∃ e, es.getLast? = some e ∧ e.route?.isSome = true := by
  obtain ⟨first, hfirst, -⟩ := h.first
  have hne : es ≠ [] := by
    rintro rfl
    cases hfirst
  exact ⟨_, List.getLast?_eq_some_getLast hne, h.last _ (List.getLast?_eq_some_getLast hne)⟩

namespace Routing

variable [Scalar α] {s : Setting α} {r : Request α} {trip : Trip α}

/-- When the rides of a journey end. -/
def Trip.rideArrivals (trip : Trip α) : List α := (trip.legs.filter Leg.isRide).map Leg.arrival

private theorem Trip.filter_push {leg : Leg α} (way : leg.isRide = false) :
    (trip.push leg).legs.filter Leg.isRide = trip.legs.filter Leg.isRide := by
  have hleg : (leg.departingAt trip.clock).isRide = false := way
  simp [hleg]

namespace Setting

/-- What itineraries by a timetable are made of. -/
def ofTimetable (t : Timetable α) (access : AccessModel α) (p : Parameters α) : Setting α where
  lookup := (Departures.ofTimetable t).lookup
  costs := Cost.byTimetable (Departures.ofTimetable t).lookup p
  access := access
  parameters := p

/-- The way to a stop has no rides if its first leg is none. -/
theorem filter_addAccess (stop : Node α)
    (way : (s.access.leg r.person r.start stop.coord trip.clock false).isRide = false) :
    (s.addAccess r trip stop).legs.filter Leg.isRide = trip.legs.filter Leg.isRide := by
  unfold addAccess
  dsimp only
  split
  · exact Trip.filter_push ((Leg.isRide_mapWay _ _).trans way)
  · exact (Trip.filter_push rfl).trans (Trip.filter_push way)

/-- The way from a stop has no rides if its last leg is none. -/
theorem filter_addEgress (stop : Node α)
    (way : (s.access.leg r.person stop.coord r.finish trip.clock false).isRide = false) :
    (s.addEgress r trip stop).legs.filter Leg.isRide = trip.legs.filter Leg.isRide := by
  unfold addEgress
  dsimp only
  split
  · exact Trip.filter_push ((Leg.isRide_mapWay _ _).trans way)
  · exact (Trip.filter_push way).trans (Trip.filter_push rfl)

/-- The way to a boarding from where a ride has ended has no rides. -/
theorem exists_approach (s : Setting α) (r : Request α) (trip : Trip α)
    (alighted boarding : Node α) :
    ∃ change, (s.approach r trip (some alighted) boarding).legs = trip.legs ++ change ∧
      change.filter Leg.isRide = [] := by
  unfold approach
  dsimp only
  split
  · exact ⟨[], (List.append_nil _).symm, rfl⟩
  · exact ⟨_, Trip.legs_push _ _, rfl⟩

/-- The way to a stop ends no ride. -/
theorem rideArrivals_addAccess (ways : s.access.RunsBetween) (stop : Node α) :
    (s.addAccess r trip stop).rideArrivals = trip.rideArrivals := by
  obtain ⟨w, hway, -, -⟩ := ways r.person r.start stop.coord trip.clock
  exact congrArg (List.map Leg.arrival) (filter_addAccess stop (isRide_of_way? hway))

/-- The way from a stop ends no ride. -/
theorem rideArrivals_addEgress (ways : s.access.RunsBetween) (stop : Node α) :
    (s.addEgress r trip stop).rideArrivals = trip.rideArrivals := by
  obtain ⟨w, hway, -, -⟩ := ways r.person stop.coord r.finish trip.clock
  exact congrArg (List.map Leg.arrival) (filter_addEgress stop (isRide_of_way? hway))

/-- The way to a boarding ends no ride. -/
theorem rideArrivals_approach (ways : s.access.RunsBetween) (alighted? : Option (Node α))
    (boarding : Node α) :
    (s.approach r trip alighted? boarding).rideArrivals = trip.rideArrivals := by
  cases alighted? with
  | none => exact rideArrivals_addAccess ways boarding
  | some alighted =>
    obtain ⟨change, hlegs, hnone⟩ := s.exists_approach r trip alighted boarding
    rw [Trip.rideArrivals, hlegs, List.filter_append, hnone, List.append_nil, Trip.rideArrivals]

/-- A ride that ends is one more, and ends when the clock says. -/
theorem rideArrivals_alight (ride : Boarded α) (alighting : Node α) (distance : α) :
    (s.alight trip ride alighting distance).rideArrivals =
      trip.rideArrivals ++ [(s.alight trip ride alighting distance).clock] := by
  have hride (leg : Leg α) (h : leg.way? = none) : leg.isRide = true := by rw [Leg.isRide, h]; rfl
  rw [Trip.rideArrivals, alight, Trip.legs_push, List.filter_append, List.map_append,
    List.filter_cons_of_pos (hride _ rfl)]
  rfl

end Setting

end Routing

end DoorToDoor
