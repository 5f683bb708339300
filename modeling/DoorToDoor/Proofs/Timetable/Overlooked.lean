import DoorToDoor.Proofs.Timetable.LeastDeparture

/-!
# Vehicles that the lookup overlooks

The lookup counts a time back by the offset of a call, chooses the first departure from this time of
day on, and then adds days until the vehicle is not too early. A time before the offset is counted
back to the day before the first one, and there is nothing to add to a vehicle of the first day: it
is the chosen one that is found, even when others leave the call before it (`Route.Overlooks`).
Whoever asks at such a time is overtaken by others who come later. This happens where vehicles at
different times of day call on the day after they have started, and nowhere else
(`Departures.mono_next_iff`).
-/

namespace DoorToDoor

/-- Whether vehicles leave a call before the one that the lookup finds: the time lies before the
offset of the call, some departures are too early for its time of day, and others are not. -/
def Route.Overlooks (route : Route EReal) (call : Call EReal) (time : EReal) : Prop :=
  time < call.departs ∧
    ∃ y ∈ route.timesOfDay, ∃ z ∈ route.timesOfDay,
      y < Scalar.remEuclid (time - call.departs) Clock.day ∧
        Scalar.remEuclid (time - call.departs) Clock.day ≤ z

namespace Departures

private theorem nextOf_eq_of_le {daily : List EReal} {call : Call EReal} {time offset δ : ℝ}
    (departs : call.departs = offset)
    (first : firstFrom (Scalar.remEuclid ((time : EReal) - offset) Clock.day) daily =
      some (δ : EReal)) (reached : time ≤ δ + offset) :
    nextOf daily call time = ((δ + offset : ℝ) : EReal) := by
  have hnext := nextOf_eq_of_least departs first 0 (fun j hj ↦ absurd hj j.not_lt_zero)
  rw [Nat.cast_zero, zero_mul, add_zero] at hnext
  exact hnext reached

section

variable {route : Route EReal} (ne : route.departures ≠ [])
  (finite : ∀ d ∈ route.departures, Scalar.isFinite d = true) {call : Call EReal}

include ne finite

/-- Before the offset of a call the vehicle that is found is one of the first day. It is the first
one of the day unless others are overlooked. -/
theorem exists_nextOf_of_lt {time offset : ℝ} (departs : call.departs = offset)
    (early : time < offset) : ∃ δ : ℝ,
      nextOf (daily route.departures) call time = ((δ + offset : ℝ) : EReal) ∧
      ((∀ y ∈ route.timesOfDay, (δ : EReal) ≤ y) ↔ ¬route.Overlooks call time) := by
  have hmem (x : EReal) : x ∈ daily route.departures ↔ x ∈ route.timesOfDay := mem_daily_iff finite
  obtain ⟨d, hd, hfirst⟩ := exists_firstFrom_daily ne finite
    (Scalar.remEuclid ((time : EReal) - offset) Clock.day)
  have hdaily := (mem_daily_iff finite).mpr ⟨d, hd, rfl⟩
  obtain ⟨δ, hδ, hnonneg, -⟩ := exists_real_of_mem_daily finite hdaily
  rw [← hδ] at hfirst hdaily
  refine ⟨δ, nextOf_eq_of_le departs hfirst (by linarith), ?_⟩
  rw [Route.Overlooks, departs]
  rcases least_of_firstFrom (pairwise_daily finite) hfirst with ⟨fits, before⟩ | ⟨past, least⟩
  · constructor
    · rintro hleast ⟨-, y, hy, -, -, hlt, -⟩
      exact not_le_of_gt (hlt.trans_le fits) (hleast y hy)
    · intro hnone y hy
      by_contra hlt
      exact hnone ⟨EReal.coe_lt_coe_iff.mpr early, y, hy, δ, (hmem _).mp hdaily,
        before y ((hmem y).mpr hy) (not_le.mp hlt), fits⟩
  · refine iff_of_true (fun y hy ↦ least y ((hmem y).mpr hy)) ?_
    rintro ⟨-, -, -, z, hz, -, hle⟩
    exact not_lt_of_ge hle (past z ((hmem z).mpr hz))

variable (departs : Scalar.isFinite call.departs = true) {time : EReal}
  (htime : Scalar.isFinite time = true)

include departs htime

/-- The lookup finds the earliest vehicle unless it overlooks some. -/
theorem isLeast_nextOf_iff :
    IsLeast {leaving ∈ route.leaves call | time ≤ leaving}
      (nextOf (daily route.departures) call time) ↔ ¬route.Overlooks call time := by
  rcases le_or_gt call.departs time with late | early
  · exact iff_of_true (isLeast_nextOf ne finite departs htime late)
      fun overlooks ↦ not_lt_of_ge late overlooks.1
  · have hmem := nextOf_mem_leaves ne finite departs htime
    obtain ⟨τ, rfl⟩ := Scalar.isFinite_iff_exists.mp htime
    obtain ⟨offset, hoffset⟩ := Scalar.isFinite_iff_exists.mp departs
    have hleaves := Call.leavesOn_coe hoffset.symm
    have hτ : τ < offset := by rwa [← hoffset, EReal.coe_lt_coe_iff] at early
    obtain ⟨δ, hnext, hδ⟩ := exists_nextOf_of_lt ne finite hoffset.symm hτ
    rw [hnext] at hmem
    rw [← hδ, hnext]
    constructor
    · rintro ⟨-, hleast⟩ x hx
      obtain ⟨y, rfl, hy0, -⟩ := exists_real_of_mem_daily finite ((mem_daily_iff finite).mpr hx)
      have hle := hleast (a := call.leavesOn y 0) ⟨⟨y, hx, 0, rfl⟩, by
        rw [hleaves, EReal.coe_le_coe_iff, Nat.cast_zero]
        linarith⟩
      rw [hleaves, EReal.coe_le_coe_iff, Nat.cast_zero] at hle
      exact EReal.coe_le_coe_iff.mpr (by linarith)
    · intro hleast
      refine ⟨hmem, ?_⟩
      rintro _ ⟨⟨x, hx, j, rfl⟩, -⟩
      obtain ⟨y, rfl, -, -⟩ := exists_real_of_mem_daily finite ((mem_daily_iff finite).mpr hx)
      have hle := EReal.coe_le_coe_iff.mp (hleast y hx)
      have hj : (0 : ℝ) ≤ j * 86400 := by positivity
      rw [hleaves, EReal.coe_le_coe_iff]
      linarith

/-- The lookup finds the earliest vehicle exactly when nobody who comes later catches an earlier
one. -/
theorem isLeast_nextOf_iff_forall_le :
    IsLeast {leaving ∈ route.leaves call | time ≤ leaving}
      (nextOf (daily route.departures) call time) ↔
      ∀ later, Scalar.isFinite later = true → time ≤ later →
        nextOf (daily route.departures) call time ≤ nextOf (daily route.departures) call later := by
  constructor
  · rintro ⟨-, hleast⟩ later hlater hle
    obtain ⟨hmem, hreached⟩ := nextOf_mem_leaves ne finite departs hlater
    exact hleast ⟨hmem, hle.trans hreached⟩
  · intro hmono
    refine ⟨nextOf_mem_leaves ne finite departs htime, ?_⟩
    rintro leaving ⟨hleaving, hreached⟩
    -- Whoever comes when a vehicle leaves catches this vehicle.
    obtain ⟨hfinite, late⟩ := isFinite_of_mem_leaves finite departs hleaving
    exact (hmono leaving hfinite hreached).trans
      ((isLeast_nextOf ne finite departs hfinite late).2 ⟨hleaving, le_rfl⟩)

end

private theorem overlooks_of_lt {route : Route EReal} {call : Call EReal} {offset x y : ℝ}
    (departs : call.departs = offset) (hy : (y : EReal) ∈ route.timesOfDay)
    (hx : (x : EReal) ∈ route.timesOfDay) (nonneg : 0 ≤ x) (ofDay : x < 86400) (hlt : y < x) :
    route.Overlooks call ((x + offset - 86400 : ℝ) : EReal) := by
  have hrem : Scalar.remEuclid (((x + offset - 86400 : ℝ) : EReal) - call.departs) Clock.day =
      (x : EReal) := by
    rw [departs, ← EReal.coe_sub, Clock.remEuclid_day_eq_iff]
    exact ⟨nonneg, ofDay, -1, by push_cast; ring⟩
  refine ⟨?_, y, hy, x, hx, ?_, hrem.le⟩
  · rw [departs, EReal.coe_lt_coe_iff]
    linarith
  · rwa [hrem, EReal.coe_lt_coe_iff]

/-- The lookup overlooks vehicles at some time unless all vehicles come to the call on the day on
which they start, or all start at one time of day. -/
theorem forall_not_overlooks_iff {route : Route EReal}
    (finite : ∀ d ∈ route.departures, Scalar.isFinite d = true) {call : Call EReal}
    (departs : Scalar.isFinite call.departs = true) :
    (∀ time, Scalar.isFinite time = true → 0 ≤ time → ¬route.Overlooks call time) ↔
      (∀ x ∈ route.timesOfDay, x + call.departs < Clock.day) ∨ route.timesOfDay.Subsingleton := by
  obtain ⟨offset, hoffset⟩ := Scalar.isFinite_iff_exists.mp departs
  have hreal {x : EReal} (hx : x ∈ route.timesOfDay) :
      ∃ y : ℝ, (y : EReal) = x ∧ 0 ≤ y ∧ y < 86400 :=
    exists_real_of_mem_daily finite ((mem_daily_iff finite).mpr hx)
  constructor
  · intro hnever
    rw [or_iff_not_imp_right, Set.not_subsingleton_iff]
    intro hmany x hx
    obtain ⟨y, hy, hne⟩ := hmany.exists_ne x
    obtain ⟨x, rfl, hx0, hx1⟩ := hreal hx
    obtain ⟨y, rfl, hy0, hy1⟩ := hreal hy
    by_contra hnext
    rw [← hoffset, Clock.day_exact, ← EReal.coe_add, EReal.coe_lt_coe_iff, not_lt] at hnext
    -- The later one of the two vehicles comes to the call on the next day as well.
    rcases lt_or_gt_of_ne (EReal.coe_ne_coe_iff.mp hne) with before | behind
    · exact hnever _ (Scalar.isFinite_coe _) (EReal.coe_nonneg.mpr (by linarith))
        (overlooks_of_lt hoffset.symm hy hx hx0 hx1 before)
    · exact hnever _ (Scalar.isFinite_coe _) (EReal.coe_nonneg.mpr (by linarith))
        (overlooks_of_lt hoffset.symm hx hy hy0 hy1 behind)
  · rintro (hday | hone) time htime nonneg ⟨early, y, hy, z, hz, hlt, hle⟩
    · obtain ⟨τ, rfl⟩ := Scalar.isFinite_iff_exists.mp htime
      obtain ⟨z, rfl, hz0, -⟩ := hreal hz
      have hz1 := hday z hz
      rw [← hoffset, Clock.day_exact, ← EReal.coe_add, EReal.coe_lt_coe_iff] at hz1
      rw [← hoffset, EReal.coe_lt_coe_iff] at early
      rw [EReal.coe_nonneg] at nonneg
      have hrem : Scalar.remEuclid ((τ : EReal) - call.departs) Clock.day =
          ((τ - offset + 86400 : ℝ) : EReal) := by
        rw [← hoffset, ← EReal.coe_sub, Clock.remEuclid_day_eq_iff]
        exact ⟨by linarith, by linarith, -1, by push_cast; ring⟩
      rw [hrem, EReal.coe_le_coe_iff] at hle
      linarith
    · exact not_le_of_gt hlt (hone hy hz ▸ hle)

/-- Nobody who comes later catches an earlier vehicle, and the lookup finds the earliest one, unless
it overlooks some. It overlooks some before the offset of a call only, when there are departures at
several times of day and the vehicle of one of them comes to the call on the next day. -/
theorem mono_next_iff (t : Timetable EReal) (id : RouteId) (route : Route EReal)
    (found : t.route? id = some route) (ne : route.departures ≠ [])
    (finite : ∀ d ∈ route.departures, Scalar.isFinite d = true) (call : Call EReal)
    (departs : Scalar.isFinite call.departs = true) :
    let next := (Departures.ofTimetable t).lookup.next id call
    (∀ time, Scalar.isFinite time = true →
      ((∀ later, Scalar.isFinite later = true → time ≤ later → next time ≤ next later) ↔
        ¬route.Overlooks call time) ∧
      (IsLeast {leaving ∈ route.leaves call | time ≤ leaving} (next time) ↔
        ¬route.Overlooks call time)) ∧
    ((∀ time, Scalar.isFinite time = true → 0 ≤ time → ¬route.Overlooks call time) ↔
      (∀ x ∈ route.timesOfDay, x + call.departs < Clock.day) ∨
        route.timesOfDay.Subsingleton) := by
  intro next
  have hnext (time : EReal) : next time = nextOf (daily route.departures) call time :=
    next_ofTimetable found call time
  refine ⟨fun time htime ↦ ?_, forall_not_overlooks_iff finite departs⟩
  simp only [hnext]
  have hleast := isLeast_nextOf_iff ne finite departs htime
  exact ⟨(isLeast_nextOf_iff_forall_le ne finite departs htime).symm.trans hleast, hleast⟩

/-- The route of a tram that leaves at one o'clock at night and fifty seconds before midnight. -/
noncomputable def midnightRoute : Route EReal :=
  { Timetable.tramRoute 0 with departures := [((3600 : ℝ) : EReal), ((86350 : ℝ) : EReal)] }

/-- The timetable of this tram. -/
noncomputable def midnightTram : Timetable EReal :=
  { Timetable.tram 0 with routes := #[midnightRoute] }

private theorem finite_midnightRoute :
    ∀ d ∈ midnightRoute.departures, Scalar.isFinite d = true := by
  intro d hd
  rcases List.mem_pair.mp hd with rfl | rfl
  · exact Scalar.isFinite_coe 3600
  · exact Scalar.isFinite_coe 86350

private theorem mem_timesOfDay_midnightRoute {x : EReal} :
    x ∈ midnightRoute.timesOfDay ↔ x = ((3600 : ℝ) : EReal) ∨ x = ((86350 : ℝ) : EReal) := by
  have hday (x : ℝ) (h0 : 0 ≤ x) (h1 : x < 86400) :
      Scalar.remEuclid (x : EReal) Clock.day = (x : EReal) :=
    Clock.remEuclid_day_eq_iff.mpr ⟨h0, h1, 0, by norm_num⟩
  simp only [Route.timesOfDay, midnightRoute, Set.mem_ofPred_eq, List.exists_mem_cons_iff,
    List.not_mem_nil, false_and, exists_false, or_false, hday 3600 (by norm_num) (by norm_num),
    hday 86350 (by norm_num) (by norm_num), eq_comm]

private theorem departs_tramCall_second :
    (Timetable.tramCall 0 1 : Call EReal).departs = ((100 : ℝ) : EReal) := by
  rw [Timetable.departs_tramCall, Scalar.ofNat_exact]
  norm_num [Timetable.tramDeparts]

-- Midnight at the second stop is a hundred seconds before midnight at the first one.
private theorem remEuclid_midnight :
    Scalar.remEuclid (((0 : ℝ) : EReal) - ((100 : ℝ) : EReal)) Clock.day =
      ((86300 : ℝ) : EReal) := by
  rw [← EReal.coe_sub, Clock.remEuclid_day_eq_iff]
  exact ⟨by norm_num, by norm_num, -1, by norm_num⟩

private theorem overlooks_midnight :
    midnightRoute.Overlooks (Timetable.tramCall 0 1) ((0 : ℝ) : EReal) := by
  rw [Route.Overlooks, departs_tramCall_second, remEuclid_midnight]
  refine ⟨?_, _, mem_timesOfDay_midnightRoute.mpr (.inl rfl), _,
    mem_timesOfDay_midnightRoute.mpr (.inr rfl), ?_, ?_⟩
  · rw [EReal.coe_lt_coe_iff]
    norm_num
  · rw [EReal.coe_lt_coe_iff]
    norm_num
  · rw [EReal.coe_le_coe_iff]
    norm_num

/-- At the second stop of the tram over midnight the lookup does not find the earliest vehicle at
midnight. From the offset of the stop on it does. -/
theorem mono_next_iff_midnight :
    let call := Timetable.tramCall 0 1
    let next := (Departures.ofTimetable midnightTram).lookup.next ⟨0⟩ call
    let midnight : EReal := ((0 : ℝ) : EReal)
    midnightTram.route? ⟨0⟩ = some midnightRoute ∧ midnightRoute.departures ≠ [] ∧
      Scalar.isFinite call.departs = true ∧
      ¬IsLeast {leaving ∈ midnightRoute.leaves call | midnight ≤ leaving} (next midnight) ∧
      IsLeast {leaving ∈ midnightRoute.leaves call | call.departs ≤ leaving}
        (next call.departs) := by
  intro call next midnight
  have found : midnightTram.route? ⟨0⟩ = some midnightRoute := rfl
  have ne : midnightRoute.departures ≠ [] := List.cons_ne_nil _ _
  have departs : Scalar.isFinite call.departs = true :=
    departs_tramCall_second ▸ Scalar.isFinite_coe 100
  obtain ⟨htimes, -⟩ := mono_next_iff midnightTram ⟨0⟩ midnightRoute found ne finite_midnightRoute
    call departs
  refine ⟨found, ne, departs, ?_, ?_⟩
  · exact mt (htimes midnight (Scalar.isFinite_coe 0)).2.mp (not_not.mpr overlooks_midnight)
  · exact (htimes call.departs departs).2.mpr fun overlooks ↦ lt_irrefl _ overlooks.1

/-- At the second stop of the tram over midnight, who asks at midnight waits for a whole day, and
who asks a hundred seconds later takes the vehicle of one o'clock. -/
theorem overtaken_midnight :
    let call := Timetable.tramCall 0 1
    let next := (Departures.ofTimetable midnightTram).lookup.next ⟨0⟩ call
    call ∈ midnightRoute.calls ∧ 0 ≤ call.departs ∧
      next ((0 : ℝ) : EReal) = ((86450 : ℝ) : EReal) ∧
      next ((100 : ℝ) : EReal) = ((3700 : ℝ) : EReal) ∧
      ¬next ((0 : ℝ) : EReal) ≤ next ((100 : ℝ) : EReal) := by
  intro call next
  have hnext {time earliest δ : ℝ}
      (hrem : Scalar.remEuclid ((time : EReal) - ((100 : ℝ) : EReal)) Clock.day =
        (earliest : EReal))
      (hδ : (δ : EReal) ∈ midnightRoute.timesOfDay) (fits : earliest ≤ δ)
      (before : ∀ x ∈ midnightRoute.timesOfDay, x < (δ : EReal) → x < (earliest : EReal))
      (reached : time ≤ δ + 100) : next (time : EReal) = ((δ + 100 : ℝ) : EReal) := by
    have hmem (x : EReal) : x ∈ daily midnightRoute.departures ↔ x ∈ midnightRoute.timesOfDay :=
      mem_daily_iff finite_midnightRoute
    have hfirst : firstFrom (Scalar.remEuclid ((time : EReal) - ((100 : ℝ) : EReal)) Clock.day)
        (daily midnightRoute.departures) = some (δ : EReal) := by
      rw [hrem]
      exact firstFrom_eq_of_le (pairwise_daily finite_midnightRoute) ((hmem _).mpr hδ)
        (EReal.coe_le_coe_iff.mpr fits) fun x hx ↦ before x ((hmem x).mp hx)
    exact (next_ofTimetable (show midnightTram.route? ⟨0⟩ = some midnightRoute from rfl) _
      _).trans (nextOf_eq_of_le departs_tramCall_second hfirst reached)
  have hmidnight : next ((0 : ℝ) : EReal) = ((86450 : ℝ) : EReal) := by
    rw [hnext remEuclid_midnight (mem_timesOfDay_midnightRoute.mpr (.inr rfl)) (by norm_num)]
    · norm_num
    · intro x hx hlt
      rcases mem_timesOfDay_midnightRoute.mp hx with rfl | rfl
      · rw [EReal.coe_lt_coe_iff]
        norm_num
      · exact absurd hlt (lt_irrefl _)
    · norm_num
  have hlater : next ((100 : ℝ) : EReal) = ((3700 : ℝ) : EReal) := by
    have hrem : Scalar.remEuclid (((100 : ℝ) : EReal) - ((100 : ℝ) : EReal)) Clock.day =
        ((0 : ℝ) : EReal) := by
      rw [← EReal.coe_sub, Clock.remEuclid_day_eq_iff]
      exact ⟨by norm_num, by norm_num, 0, by norm_num⟩
    rw [hnext hrem (mem_timesOfDay_midnightRoute.mpr (.inl rfl)) (by norm_num)]
    · norm_num
    · intro x hx hlt
      rcases mem_timesOfDay_midnightRoute.mp hx with rfl | rfl
      · exact absurd hlt (lt_irrefl _)
      · exact absurd (EReal.coe_lt_coe_iff.mp hlt) (by norm_num)
    · norm_num
  refine ⟨List.mem_cons_of_mem _ List.mem_cons_self, ?_, hmidnight, hlater, ?_⟩
  · rw [departs_tramCall_second, EReal.coe_nonneg]
    norm_num
  · rw [hmidnight, hlater, EReal.coe_le_coe_iff]
    norm_num

end Departures

end DoorToDoor
