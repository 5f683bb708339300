import DoorToDoor.Proofs.Network.Layout
import DoorToDoor.Proofs.Timetable.NextDeparture

/-!
# The times of a timetable

What may be asked of the times of a timetable: that they are numbers (`Timetable.IsFinite`), and
that vehicles do not run back in time (`Timetable.Ordered`).
-/

namespace DoorToDoor

/-- No vehicle of a route leaves a call before it is there, and none is at a call before it has left
the one before. -/
structure Route.Ordered {α : Type} [Scalar α] (r : Route α) : Prop where
  dwell : ∀ c ∈ r.calls, c.arrives ≤ c.departs
  ride : ∀ (i : Nat) (c c' : Call α), r.calls[i]? = some c → r.calls[i + 1]? = some c' →
    c.departs ≤ c'.arrives

namespace Timetable

/-- Whether all lookups of departures from nodes of the network end by themselves at a time. -/
def LookupsEnd {α : Type} [Scalar α] (t : Timetable α) (reach now : α) : Prop :=
  ∀ node ∈ (Network.ofTimetable t reach).nodes,
    (Departures.ofTimetable t).Ends node.route node.call now

/-- A timetable gives finite numbers. -/
structure IsFinite (t : Timetable EReal) : Prop where
  coord : ∀ stop ∈ t.stops, stop.coord.IsFinite
  arrival : ∀ r ∈ t.routes, ∀ c ∈ r.calls, ∀ time, c.arrival = some time →
    Scalar.isFinite time = true
  departure : ∀ r ∈ t.routes, ∀ c ∈ r.calls, ∀ time, c.departure = some time →
    Scalar.isFinite time = true
  departures : ∀ r ∈ t.routes, ∀ d ∈ r.departures, Scalar.isFinite d = true

/-- The nodes of the network lie at finite points if the stops do. -/
theorem isFinite_coord_of_mem_nodes {t : Timetable EReal} (wf : t.WellFormed)
    (places : ∀ stop ∈ t.stops, stop.coord.IsFinite) {reach : EReal} {node : Node EReal}
    (h : node ∈ (Network.ofTimetable t reach).nodes) : node.coord.IsFinite := by
  obtain ⟨stop, hstop, hcoord, -⟩ := Network.exists_stop?_of_mem_nodes wf h
  rw [← hcoord]
  exact places stop (Array.mem_of_getElem? hstop)

/-- Whether the vehicles of all routes are in order. -/
def Ordered {α : Type} [Scalar α] (t : Timetable α) : Prop := ∀ r ∈ t.routes, r.Ordered

namespace IsFinite

variable {t : Timetable EReal} (finite : t.IsFinite)

include finite

/-- A vehicle is at a call at a finite time. -/
theorem arrives {r : Route EReal} (hr : r ∈ t.routes) {c : Call EReal} (hc : c ∈ r.calls) :
    Scalar.isFinite c.arrives = true := by
  unfold Call.arrives
  cases harrival : c.arrival with
  | some time => exact finite.arrival r hr c hc time harrival
  | none =>
    cases hdeparture : c.departure with
    | some time => exact finite.departure r hr c hc time hdeparture
    | none => exact Scalar.isFinite_zero

/-- A vehicle leaves a call at a finite time. -/
theorem departs {r : Route EReal} (hr : r ∈ t.routes) {c : Call EReal} (hc : c ∈ r.calls) :
    Scalar.isFinite c.departs = true := by
  unfold Call.departs
  cases hdeparture : c.departure with
  | some time => exact finite.departure r hr c hc time hdeparture
  | none =>
    cases harrival : c.arrival with
    | some time => exact finite.arrival r hr c hc time harrival
    | none => exact Scalar.isFinite_zero

/-- The nodes of the network lie at finite points. -/
theorem node (wf : t.WellFormed) {reach : EReal} {node : Node EReal}
    (h : node ∈ (Network.ofTimetable t reach).nodes) : node.coord.IsFinite :=
  isFinite_coord_of_mem_nodes wf finite.coord h

/-- The call of a node has finite times. -/
theorem call (wf : t.WellFormed) {reach : EReal} {node : Node EReal}
    (h : node ∈ (Network.ofTimetable t reach).nodes) :
    Scalar.isFinite node.call.arrives = true ∧ Scalar.isFinite node.call.departs = true := by
  obtain ⟨route, -, hmem, -, hcall, -⟩ := Network.exists_route?_of_mem_nodes wf h
  exact ⟨finite.arrives hmem (List.mem_of_getElem? hcall),
    finite.departs hmem (List.mem_of_getElem? hcall)⟩

end IsFinite

private theorem isFinite_shuttleAt (times : ShuttleTimes EReal)
    (leaves : Scalar.isFinite times.leaves = true) (arrives : Scalar.isFinite times.arrives = true)
    (departure : Scalar.isFinite times.departure = true) : (shuttleAt times).IsFinite where
  coord stop hstop := by
    have hcases : stop ∈ [_, _] := Array.mem_toList_iff.mpr hstop
    rcases List.mem_pair.mp hcases with rfl | rfl
    · exact ⟨Scalar.isFinite_zero, Scalar.isFinite_zero⟩
    · exact ⟨Scalar.isFinite_ofNat 1000, Scalar.isFinite_zero⟩
  arrival r hr c hc time htime := by
    obtain rfl : r = shuttleRouteAt times := List.mem_singleton.mp (Array.mem_toList_iff.mpr hr)
    rcases List.mem_pair.mp hc with rfl | rfl
    · cases htime
    · cases htime
      exact arrives
  departure r hr c hc time htime := by
    obtain rfl : r = shuttleRouteAt times := List.mem_singleton.mp (Array.mem_toList_iff.mpr hr)
    rcases List.mem_pair.mp hc with rfl | rfl
    · cases htime
      exact leaves
    · cases htime
  departures r hr d hd := by
    obtain rfl : r = shuttleRouteAt times := List.mem_singleton.mp (Array.mem_toList_iff.mpr hr)
    obtain rfl := List.mem_singleton.mp hd
    exact departure

/-- The times of the shuttle are finite. -/
theorem isFinite_shuttle : (shuttle : Timetable EReal).IsFinite :=
  isFinite_shuttleAt .morning Scalar.isFinite_zero (Scalar.isFinite_ofNat _)
    (Scalar.isFinite_ofNat _)

private theorem exists_tramCall {dwell : ℕ} {c : Call EReal} (hc : c ∈ (tramRoute dwell).calls) :
    ∃ position < 3, c = tramCall dwell position := by
  have hcases : c ∈ [tramCall dwell 0, tramCall dwell 1, tramCall dwell 2] := hc
  simp only [List.mem_cons, List.not_mem_nil, or_false] at hcases
  rcases hcases with rfl | rfl | rfl
  · exact ⟨0, by omega, rfl⟩
  · exact ⟨1, by omega, rfl⟩
  · exact ⟨2, by omega, rfl⟩

/-- The times of the tram are finite. -/
theorem isFinite_tram (dwell : ℕ) : (tram dwell : Timetable EReal).IsFinite where
  coord stop hstop := by
    have hcases : stop ∈ [_, _, _] := Array.mem_toList_iff.mpr hstop
    simp only [List.mem_cons, List.not_mem_nil, or_false] at hcases
    rcases hcases with rfl | rfl | rfl
    · exact ⟨Scalar.isFinite_zero, Scalar.isFinite_zero⟩
    · exact ⟨Scalar.isFinite_ofNat 1000, Scalar.isFinite_zero⟩
    · exact ⟨Scalar.isFinite_ofNat 2000, Scalar.isFinite_zero⟩
  arrival r hr c hc time htime := by
    obtain rfl : r = tramRoute dwell := List.mem_singleton.mp (Array.mem_toList_iff.mpr hr)
    obtain ⟨position, -, rfl⟩ := exists_tramCall hc
    match position with
    | 0 => cases htime
    | 1 => cases htime; exact Scalar.isFinite_ofNat _
    | _ + 2 => cases htime; exact Scalar.isFinite_ofNat _
  departure r hr c hc time htime := by
    obtain rfl : r = tramRoute dwell := List.mem_singleton.mp (Array.mem_toList_iff.mpr hr)
    obtain ⟨position, -, rfl⟩ := exists_tramCall hc
    match position with
    | 0 => cases htime; exact Scalar.isFinite_ofNat _
    | 1 => cases htime; exact Scalar.isFinite_ofNat _
    | _ + 2 => cases htime
  departures r hr d hd := by
    obtain rfl : r = tramRoute dwell := List.mem_singleton.mp (Array.mem_toList_iff.mpr hr)
    obtain rfl := List.mem_singleton.mp hd
    exact Scalar.isFinite_ofNat _

/-- The shuttle does not run back in time. -/
theorem ordered_shuttle : (shuttle : Timetable EReal).Ordered := by
  intro r hr
  obtain rfl : r = shuttleRoute := List.mem_singleton.mp (Array.mem_toList_iff.mpr hr)
  constructor
  case dwell =>
    intro c hc
    rcases List.mem_pair.mp hc with rfl | rfl
    · exact le_rfl
    · exact le_rfl
  case ride =>
    intro i c c' hc hc'
    match i with
    | 0 =>
      cases hc
      cases hc'
      change (((0 : ℕ) : ℝ) : EReal) ≤ (((600 : ℕ) : ℝ) : EReal)
      norm_cast
    | i + 1 => simp [shuttleRoute] at hc'

/-- The tram does not run back in time. -/
theorem ordered_tram (dwell : ℕ) : (tram dwell : Timetable EReal).Ordered := by
  intro r hr
  obtain rfl : r = tramRoute dwell := List.mem_singleton.mp (Array.mem_toList_iff.mpr hr)
  constructor
  case dwell =>
    intro c hc
    obtain ⟨position, -, rfl⟩ := exists_tramCall hc
    rw [arrives_tramCall, departs_tramCall, Scalar.ofNat_le_ofNat]
    match position with
    | 0 => exact le_rfl
    | 1 => exact Nat.le_add_right 100 dwell
    | _ + 2 => exact le_rfl
  case ride =>
    intro i c c' hc hc'
    match i with
    | 0 =>
      cases hc
      cases hc'
      rw [departs_tramCall, arrives_tramCall, Scalar.ofNat_le_ofNat]
      exact Nat.zero_le _
    | 1 =>
      cases hc
      cases hc'
      rw [departs_tramCall, arrives_tramCall, Scalar.ofNat_le_ofNat]
      change 100 + dwell ≤ 200 + dwell
      omega
    | i + 2 => simp [tramRoute] at hc'

end Timetable

namespace Departures

private theorem departures_ofTimetable {α : Type} [Scalar α] {t : Timetable α} {id : RouteId}
    {route : Route α} (h : t.route? id = some route) :
    (Departures.ofTimetable t).departures id = daily route.departures := by
  rw [Timetable.route?] at h
  rw [departures, ofTimetable, Array.getD_eq_getD_getElem?, Array.getElem?_map, h]
  rfl

/-- The lookup of a timetable finds the next vehicle among the departures of the route. -/
theorem next_ofTimetable {α : Type} [Scalar α] {t : Timetable α} {id : RouteId} {route : Route α}
    (h : t.route? id = some route) (call : Call α) (time : α) :
    (Departures.ofTimetable t).lookup.next id call time =
      nextOf (daily route.departures) call time := by
  rw [← departures_ofTimetable h]
  rfl

variable {t : Timetable EReal} (wf : t.WellFormed) (finite : t.IsFinite) {reach : EReal}
  {node : Node EReal} (h : node ∈ (Network.ofTimetable t reach).nodes)

include wf finite h

/-- At every node the next vehicle comes at a finite time. -/
theorem isFinite_next_of_mem_nodes (time : EReal) :
    Scalar.isFinite ((Departures.ofTimetable t).lookup.next node.route node.call time) = true := by
  obtain ⟨route, hroute, hmem, -, hcall, -⟩ := Network.exists_route?_of_mem_nodes wf h
  rw [next_ofTimetable hroute]
  exact isFinite_nextOf (wf.departs route hmem) (finite.departures route hmem)
    (finite.departs hmem (List.mem_of_getElem? hcall)) time

/-- At every node the next vehicle comes no earlier than asked for. -/
theorem le_next_of_mem_nodes {time : EReal} (htime : Scalar.isFinite time = true) :
    time ≤ (Departures.ofTimetable t).lookup.next node.route node.call time := by
  obtain ⟨route, hroute, hmem, -, hcall, -⟩ := Network.exists_route?_of_mem_nodes wf h
  obtain ⟨-, -, -, -, hle⟩ := exists_vehicle_of_nextOf (wf.departs route hmem)
    (finite.departures route hmem) (finite.departs hmem (List.mem_of_getElem? hcall)) htime
  rwa [next_ofTimetable hroute]

omit h in
/-- All lookups at a finite time end by themselves. -/
theorem lookupsEnd_of_isFinite (reach : EReal) {time : EReal}
    (htime : Scalar.isFinite time = true) : t.LookupsEnd reach time := fun _ hnode ↦
  (ends_iff _ _ _ _).mpr (.inr (not_lt_of_ge (le_next_of_mem_nodes wf finite hnode htime)))

omit wf finite h in
/-- Until the shuttle has left for the first time, this is the next departure. -/
theorem next_shuttleAt {times : Timetable.ShuttleTimes EReal} {leaves departure time : ℝ}
    (hleaves : times.leaves = leaves) (hdeparture : times.departure = departure)
    (nonneg : 0 ≤ departure) (lt : departure < 86400) (early : time ≤ departure + leaves) :
    (Departures.ofTimetable (.shuttleAt times)).lookup.next ⟨0⟩ ⟨⟨0⟩, none, some times.leaves⟩
        (time : EReal) = ((departure + leaves : ℝ) : EReal) := by
  have hroute : (Timetable.shuttleAt times).route? ⟨0⟩ = some (Timetable.shuttleRouteAt times) :=
    rfl
  have hdeparts : (Timetable.shuttleRouteAt times).departures = [times.departure] := rfl
  have hcall : (⟨⟨0⟩, none, some times.leaves⟩ : Call EReal).departs = leaves := hleaves
  rw [next_ofTimetable hroute, hdeparts, hdeparture, daily_singleton nonneg lt,
    nextOf_eq_of_least hcall (firstFrom_singleton _ _) 0
      (fun _ hj ↦ absurd hj (Nat.not_lt_zero _)) (by simpa using early)]
  simp

omit wf finite h in
/-- The next tram leaves a stop on the first day on which it leaves no earlier than asked for. -/
theorem next_tram (dwell position : ℕ) (time : ℝ) (k : ℕ)
    (least : ∀ j < k, 900 + Timetable.tramDeparts dwell position + (j : ℝ) * 86400 < time)
    (reached : time ≤ 900 + Timetable.tramDeparts dwell position + (k : ℝ) * 86400) :
    (Departures.ofTimetable (.tram dwell)).lookup.next ⟨0⟩ (Timetable.tramCall dwell position)
        (time : EReal) =
      ((900 + Timetable.tramDeparts dwell position + k * 86400 : ℝ) : EReal) := by
  have htime : (Clock.time 0 15 0 : EReal) = ((900 : ℝ) : EReal) := by
    rw [Clock.time_exact]
    norm_num
  have hroute : (Timetable.tram dwell).route? ⟨0⟩ =
      some (Timetable.tramRoute dwell : Route EReal) := rfl
  have hdeparts : (Timetable.tramRoute dwell : Route EReal).departures = [Clock.time 0 15 0] := rfl
  rw [next_ofTimetable hroute, hdeparts, htime, daily_singleton (by norm_num) (by norm_num)]
  exact nextOf_eq_of_least (Timetable.departs_tramCall dwell position)
    (firstFrom_singleton _ _) k least reached

end Departures

end DoorToDoor
