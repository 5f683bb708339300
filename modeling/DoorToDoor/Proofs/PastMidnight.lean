import DoorToDoor.Proofs.Search.RunningClock
import DoorToDoor.Proofs.Timetable.Dwells
import DoorToDoor.Proofs.Timetable.Loaded

/-!
# Rides past midnight

A ride that seems to end before it starts is taken to run past midnight, and one day is added to the
time in the vehicle. One day is enough when the ride seems to end no more than a day before it
starts (`Edge.IsWithinDay`). Rows may give times that are farther apart: then the ride takes a
negative time whenever its vehicle is just about to leave (`travelTime_nonneg_iff_of_ofRows`).
-/

namespace DoorToDoor

/-- Whether a ride seems to end no more than a day before it starts. A transfer always does. -/
def Edge.IsWithinDay {α : Type} [Scalar α] (e : Edge α) : Prop :=
  ∀ line route, e.kind = .ride line route →
    e.tail.call.departs ≤ e.head.call.arrives + Clock.day

namespace Departures

private theorem nextOf_of_departing {departures : List EReal}
    (finite : ∀ d ∈ departures, Scalar.isFinite d = true) {d : EReal} (hd : d ∈ departures)
    {call : Call EReal} (departs : Scalar.isFinite call.departs = true) :
    nextOf (daily departures) call (Scalar.remEuclid d Clock.day + call.departs) =
      Scalar.remEuclid d Clock.day + call.departs := by
  obtain ⟨τ, rfl⟩ := Scalar.isFinite_iff_exists.mp (finite d hd)
  obtain ⟨o, ho⟩ := Scalar.isFinite_iff_exists.mp departs
  obtain ⟨δ, hδ⟩ := Clock.exists_remEuclid_day τ
  obtain ⟨hδ0, hδ1, -⟩ := Clock.remEuclid_day_eq_iff.mp hδ
  -- Seen from the first stop the time asked for is that of the departure.
  have hearliest : Scalar.remEuclid (((δ + o : ℝ) : EReal) - o) Clock.day = (δ : EReal) := by
    rw [← EReal.coe_sub]
    exact Clock.remEuclid_day_eq_iff.mpr ⟨hδ0, hδ1, 0, by push_cast; ring⟩
  have hfirst : firstFrom (Scalar.remEuclid (((δ + o : ℝ) : EReal) - o) Clock.day)
      (daily departures) = some (δ : EReal) := by
    rw [hearliest]
    exact firstFrom_eq_of_le (pairwise_daily finite) (mem_daily_of_mem finite hd hδ) le_rfl
      fun _ _ hlt ↦ hlt
  have hnext := nextOf_eq_of_least ho.symm hfirst 0 (fun _ hj ↦ absurd hj (Nat.not_lt_zero _))
    (by push_cast; linarith)
  rw [hδ, ← ho, ← EReal.coe_add, hnext]
  congr 1
  push_cast
  ring

private theorem exists_next_eq {t : Timetable EReal} (wf : t.WellFormed) (finite : t.IsFinite)
    {reach : EReal} {node : Node EReal} (h : node ∈ (Network.ofTimetable t reach).nodes) :
    ∃ now, Scalar.isFinite now = true ∧
      (Departures.ofTimetable t).lookup.next node.route node.call now = now := by
  obtain ⟨route, hroute, hmem, -, hcall, -⟩ := Network.exists_route?_of_mem_nodes wf h
  obtain ⟨d, hd⟩ := List.exists_mem_of_ne_nil _ (wf.departs route hmem)
  have hdeparts := finite.departs hmem (List.mem_of_getElem? hcall)
  refine ⟨Scalar.remEuclid d Clock.day + node.call.departs,
    Scalar.isFinite_add (Scalar.isFinite_remEuclid _ _) hdeparts, ?_⟩
  rw [next_ofTimetable hroute]
  exact nextOf_of_departing (finite.departures route hmem) hd hdeparts

end Departures

namespace Cost

section

variable {t : Timetable EReal} (wf : t.WellFormed) (finite : t.IsFinite) {reach : EReal}
  {e : Edge EReal} (he : e ∈ (Network.ofTimetable t reach).edges)

include wf finite he

/-- The rides among the edges within a day are those with a time in the vehicle that is not
negative. -/
theorem isWithinDay_iff : e.IsWithinDay ↔
    ∀ line route, e.kind = .ride line route → 0 ≤ inVehicle e := by
  rw [Edge.IsWithinDay, inVehicle_nonneg_iff wf finite he]

private theorem isWithinDay_of_travelTime_nonneg {p : Parameters EReal}
    (h : ∀ now, Scalar.isFinite now = true →
      0 ≤ travelTime (Departures.ofTimetable t).lookup p e now) : e.IsWithinDay := by
  rw [isWithinDay_iff wf finite he]
  intro line route kind
  obtain ⟨now, hnow, hnext⟩ :=
    Departures.exists_next_eq wf finite (Network.mem_nodes_of_mem_edges he).1
  obtain ⟨τ, rfl⟩ := Scalar.isFinite_iff_exists.mp hnow
  have hwait : wait (Departures.ofTimetable t).lookup e (τ : EReal) = 0 := by
    rw [wait, hnext, ← EReal.coe_sub, sub_self, EReal.coe_zero]
  have htime := h τ hnow
  simpa only [travelTime, kind, hwait, zero_add] using htime

end

/-- With a timetable that is read from rows with finite coordinates, and with settings that are
accepted, an edge takes a negative time at no finite time of entry if and only if it is within a
day; and then, with finite utilities and a finite margin, it costs a finite number that is not
negative at each. -/
theorem travelTime_nonneg_iff_of_ofRows (stopRows : Csv.Sheet (Timetable.StopRow EReal))
    (callRows : Csv.Sheet Timetable.CallRow) (departureRows : Csv.Sheet Timetable.DepartureRow)
    (t : Timetable EReal) (loaded : Timetable.ofRows stopRows callRows departureRows = .ok t)
    (places : ∀ row ∈ stopRows.rows, row.coord.IsFinite) (reach : EReal) (s : Settings EReal)
    (valid : s.validate = .ok ()) (e : Edge EReal)
    (he : e ∈ (Network.ofTimetable t reach).edges) :
    (e.IsWithinDay ↔ ∀ now, Scalar.isFinite now = true →
      0 ≤ travelTime (Departures.ofTimetable t).lookup s.parameters e now) ∧
    (s.parameters.HasFiniteUtilities → Scalar.isFinite s.parameters.transferMargin = true →
      e.IsWithinDay → ∀ now, Scalar.isFinite now = true →
        0 ≤ disutility (Departures.ofTimetable t).lookup s.parameters e now ∧
          Scalar.isFinite (disutility (Departures.ofTimetable t).lookup s.parameters e now) =
            true) := by
  have hloaded := Timetable.loaded_of_ofRows loaded
  have wf := hloaded.built.wellFormed
  have finite := hloaded.isFinite (by simpa using places)
  have valid' := Settings.validate_parameters valid
  refine ⟨⟨fun within now hnow ↦ ?_, isWithinDay_of_travelTime_nonneg wf finite he⟩,
    fun utilities margin within now hnow ↦ ⟨?_, ?_⟩⟩
  · exact travelTime_nonneg_of_inVehicle wf finite he valid'
      ((isWithinDay_iff wf finite he).mp within) hnow
  · exact disutility_nonneg_of_inVehicle wf finite valid' he
      ((isWithinDay_iff wf finite he).mp within) hnow
  · exact isFinite_disutility wf finite he valid' margin utilities hnow

/-- The shuttle by night runs past midnight, and neither its time nor its cost is ever negative. -/
theorem travelTime_nonneg_iff_of_ofRows_night : ∃ t : Timetable EReal,
    Timetable.ofRows Timetable.shuttleStopRows (Timetable.shuttleCallRows "23:50:00" "00:10:00")
      (Timetable.shuttleDepartureRows "00:00:00") = .ok t ∧
    Network.shuttleRideAt .night ∈ (Network.ofTimetable t 0).edges ∧
    ∀ now, Scalar.isFinite now = true →
      0 ≤ travelTime (Departures.ofTimetable t).lookup LeastCost.timedRides
          (Network.shuttleRideAt .night) now ∧
        0 ≤ disutility (Departures.ofTimetable t).lookup LeastCost.timedRides
          (Network.shuttleRideAt .night) now := by
  have within : (Network.shuttleRideAt (.night : Timetable.ShuttleTimes EReal)).IsWithinDay := by
    intro line route kind
    change (Clock.time 23 50 0 : EReal) ≤ Clock.time 0 10 0 + Clock.day
    rw [Clock.time_exact, Clock.time_exact, Clock.day_exact, ← EReal.coe_add,
      EReal.coe_le_coe_iff]
    norm_num
  have hride : Network.shuttleRideAt .night ∈
      (Network.ofTimetable (.shuttleAt .night) (0 : EReal)).edges :=
    Network.shuttleRideAt_mem_edges .night
  obtain ⟨htime, hcost⟩ := travelTime_nonneg_iff_of_ofRows _ _ _ _ Timetable.ofRows_shuttle_night
    Timetable.isFinite_shuttleStopRows 0 ⟨LeastCost.timedRides, [], []⟩
    LeastCost.validate_timedRides _ hride
  refine ⟨_, Timetable.ofRows_shuttle_night, hride, fun now hnow ↦
    ⟨htime.mp within now hnow, ?_⟩⟩
  exact (hcost LeastCost.hasFiniteUtilities_timedRides Scalar.isFinite_zero within now hnow).1

/-- The times of a shuttle that leaves the first stop on the second midnight after it departs and
seems to be at the second stop on the midnight on which it departs. -/
noncomputable def twoDaysBack : Timetable.ShuttleTimes EReal :=
  ⟨Clock.time 48 0 0, Clock.time 0 0 0, Clock.time 0 0 0⟩

/-- Rows that are loaded may hold a ride that, entered just when its vehicle leaves, takes the time
of a whole day backward and costs less than nothing, although the parameters are accepted. -/
theorem negative_ride_twoDaysBack : ∃ t : Timetable EReal,
    Timetable.ofRows Timetable.shuttleStopRows (Timetable.shuttleCallRows "48:00:00" "00:00:00")
      (Timetable.shuttleDepartureRows "00:00:00") = .ok t ∧
    Settings.validate ⟨LeastCost.timedRides, [], []⟩ = .ok () ∧
    Network.shuttleRideAt twoDaysBack ∈ (Network.ofTimetable t 0).edges ∧
    travelTime (Departures.ofTimetable t).lookup LeastCost.timedRides
      (Network.shuttleRideAt twoDaysBack) ((172800 : ℝ) : EReal) = ((-86400 : ℝ) : EReal) ∧
    disutility (Departures.ofTimetable t).lookup LeastCost.timedRides
      (Network.shuttleRideAt twoDaysBack) ((172800 : ℝ) : EReal) = ((-86400 : ℝ) : EReal) := by
  have hleaves : twoDaysBack.leaves = ((172800 : ℝ) : EReal) :=
    (Clock.time_exact 48 0 0).trans (by norm_num)
  have hmidnight : (Clock.time 0 0 0 : EReal) = ((0 : ℝ) : EReal) :=
    (Clock.time_exact 0 0 0).trans (by norm_num)
  have hwait : wait (Departures.ofTimetable (.shuttleAt twoDaysBack)).lookup
      (Network.shuttleRideAt twoDaysBack) ((172800 : ℝ) : EReal) = 0 := by
    change (Departures.ofTimetable (.shuttleAt twoDaysBack)).lookup.next ⟨0⟩
      ⟨⟨0⟩, none, some twoDaysBack.leaves⟩ ((172800 : ℝ) : EReal) - ((172800 : ℝ) : EReal) = 0
    rw [Departures.next_shuttleAt hleaves hmidnight le_rfl (by norm_num) (by norm_num),
      ← EReal.coe_sub]
    norm_num
  have hride : inVehicle (Network.shuttleRideAt twoDaysBack) = ((-86400 : ℝ) : EReal) := by
    have hrun : (Clock.time 0 0 0 : EReal) - twoDaysBack.leaves = ((-172800 : ℝ) : EReal) := by
      rw [hleaves, hmidnight, ← EReal.coe_sub, zero_sub]
    have hback : (Clock.time 0 0 0 : EReal) - twoDaysBack.leaves < Scalar.zero := by
      rw [hrun, Scalar.zero_exact, EReal.coe_neg']
      norm_num
    refine (if_pos hback).trans ?_
    change (Clock.time 0 0 0 : EReal) - twoDaysBack.leaves + Clock.day = _
    rw [hrun, Clock.day_exact, ← EReal.coe_add]
    norm_num
  refine ⟨_, Timetable.ofRows_shuttle rfl rfl rfl, LeastCost.validate_timedRides,
    Network.shuttleRideAt_mem_edges _, ?_, ?_⟩
  · change wait _ _ _ + inVehicle _ = _
    rw [hwait, hride, zero_add]
  · change -wait _ _ _ * -1 - inVehicle _ * -1 + -_ * 0 = _
    rw [hwait, hride]
    norm_num

end Cost

end DoorToDoor
