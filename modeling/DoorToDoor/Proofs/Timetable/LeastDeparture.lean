import DoorToDoor.Proofs.Timetable.Dwells

/-!
# The earliest vehicle

From the time on at which a vehicle of the first day may leave a call, the lookup finds the earliest
of all vehicles that leave it no earlier than asked for: `Departures.isLeast_next`. Days are added
one by one, so the lookup comes to its end at the first of them that is late enough. Departures
count by their times of day alone, so neither their order nor repetitions matter.
-/

namespace DoorToDoor

/-- When the vehicle that leaves the first stop at a time of day leaves a call, some days after the
first one. -/
noncomputable def Call.leavesOn (call : Call EReal) (timeOfDay : EReal) (days : ℕ) : EReal :=
  timeOfDay + call.departs + Scalar.ofNat days * Clock.day

/-- With real numbers the days are added as numbers. -/
theorem Call.leavesOn_coe {call : Call EReal} {offset : ℝ} (departs : call.departs = offset)
    (x : ℝ) (days : ℕ) :
    call.leavesOn (x : EReal) days = ((x + offset + days * 86400 : ℝ) : EReal) := by
  rw [leavesOn, departs, Clock.day_exact, Scalar.ofNat_exact, ← EReal.coe_mul, ← EReal.coe_add,
    ← EReal.coe_add]

namespace Route

/-- The times of day at which vehicles of a route leave its first stop. -/
def timesOfDay (route : Route EReal) : Set EReal :=
  {x | ∃ d ∈ route.departures, Scalar.remEuclid d Clock.day = x}

/-- When vehicles of a route leave a call, on the first day and on all later ones. -/
def leaves (route : Route EReal) (call : Call EReal) : Set EReal :=
  {time | ∃ x ∈ route.timesOfDay, ∃ days : ℕ, time = call.leavesOn x days}

end Route

namespace Departures

private theorem firstFrom_congr {daily daily' : List EReal} (sorted : daily.Pairwise (· ≤ ·))
    (sorted' : daily'.Pairwise (· ≤ ·)) (same : ∀ x, x ∈ daily ↔ x ∈ daily') (earliest : EReal) :
    firstFrom earliest daily = firstFrom earliest daily' := by
  rcases eq_or_ne daily [] with rfl | ne
  · rw [List.eq_nil_iff_forall_not_mem.mpr fun x hx ↦ List.not_mem_nil ((same x).mpr hx)]
  · obtain ⟨δ, hδ, hfirst⟩ := exists_firstFrom ne earliest
    rw [hfirst]
    symm
    rcases least_of_firstFrom sorted hfirst with ⟨fits, before⟩ | ⟨past, least⟩
    · exact firstFrom_eq_of_le sorted' ((same δ).mp hδ) fits
        fun x hx ↦ before x ((same x).mpr hx)
    · exact firstFrom_eq_of_lt sorted' ((same δ).mp hδ)
        (fun x hx ↦ past x ((same x).mpr hx)) fun x hx ↦ least x ((same x).mpr hx)

private theorem day_le_of_le {x y : ℝ} (nonneg : 0 ≤ x) (ofDay : y < 86400) {n j : ℕ}
    (h : x + n * 86400 ≤ y + j * 86400) : n ≤ j := by
  by_contra hlt
  have hj : (j : ℝ) + 1 ≤ n := by exact_mod_cast not_le.mp hlt
  linarith

section

variable {time offset δ : ℝ} (late : offset ≤ time) {k : ℕ}
  (below : ∀ j < k, δ + offset + j * 86400 < time)

include late below

private theorem lt_add_day (ofDay : δ < 86400) : δ + offset + k * 86400 < time + 86400 := by
  cases k with
  | zero =>
    rw [Nat.cast_zero]
    linarith
  | succ k =>
    have hless := below k (Nat.lt_succ_self k)
    push_cast
    linarith

/-- No vehicle that is not too early leaves before the one that is chosen, if the time is not before
the offset of the call. -/
theorem le_of_firstFrom {daily : List EReal} (sorted : daily.Pairwise (· ≤ ·))
    (first : firstFrom (Scalar.remEuclid ((time : EReal) - offset) Clock.day) daily =
      some (δ : EReal)) (nonneg : 0 ≤ δ) (ofDay : δ < 86400) {y : ℝ} (hy : (y : EReal) ∈ daily)
    (hy0 : 0 ≤ y) (hy1 : y < 86400) {j : ℕ} (reached : time ≤ y + offset + j * 86400) :
    δ + offset + k * 86400 ≤ y + offset + j * 86400 := by
  -- Seen from the first stop the time is a time of day on the first day or on a later one.
  obtain ⟨x, hx⟩ := Clock.exists_remEuclid_day (time - offset)
  obtain ⟨hx0, hx1, n, hn⟩ := Clock.remEuclid_day_eq_iff.mp hx
  have hn0 : 0 ≤ n := by
    have hpos : (0 : ℝ) < n + 1 := by linarith
    exact Int.lt_add_one_iff.mp (by exact_mod_cast hpos)
  lift n to ℕ using hn0
  rw [Int.cast_natCast] at hn
  have hnj : n ≤ j := day_le_of_le hx0 hy1 (by linarith)
  have hchoice := least_of_firstFrom sorted first
  rw [← EReal.coe_sub, hx] at hchoice
  rcases hchoice with ⟨fits, before⟩ | ⟨past, least⟩
  · rw [EReal.coe_le_coe_iff] at fits
    have hkn : k ≤ n := by
      by_contra hlt
      linarith [below n (not_le.mp hlt)]
    have hk : (k : ℝ) ≤ n := by exact_mod_cast hkn
    rcases hnj.eq_or_lt with rfl | hlt
    · have hδy : δ ≤ y := by
        by_contra hlt
        have hearly := before y hy (EReal.coe_lt_coe_iff.mpr (not_le.mp hlt))
        rw [EReal.coe_lt_coe_iff] at hearly
        linarith
      linarith
    · have hj : (n : ℝ) + 1 ≤ j := by exact_mod_cast hlt
      linarith
  · have hyx : y < x := EReal.coe_lt_coe_iff.mp (past y hy)
    have hδy : δ ≤ y := EReal.coe_le_coe_iff.mp (least y hy)
    have hkn : k ≤ n + 1 := by
      by_contra hlt
      have hless := below (n + 1) (not_le.mp hlt)
      push_cast at hless
      linarith
    have hk : (k : ℝ) ≤ n + 1 := by exact_mod_cast hkn
    have hne : n ≠ j := by
      rintro rfl
      linarith
    have hj : (n : ℝ) + 1 ≤ j := by exact_mod_cast hnj.lt_of_ne hne
    linarith

end

/-- The lookup in real numbers: some time of day on the first day on which it is not too early. From
the offset of the call on it is within a day of the time asked for, and no other one is reached
before it. -/
theorem exists_timeOfDay {route : Route EReal} (ne : route.departures ≠ [])
    (finite : ∀ d ∈ route.departures, Scalar.isFinite d = true) {call : Call EReal} {offset : ℝ}
    (departs : call.departs = offset) (time : ℝ) :
    ∃ (δ : ℝ) (k : ℕ), (δ : EReal) ∈ route.timesOfDay ∧
      nextOf (daily route.departures) call time = ((δ + offset + k * 86400 : ℝ) : EReal) ∧
      time ≤ δ + offset + k * 86400 ∧ (∀ j < k, δ + offset + j * 86400 < time) ∧
      (offset ≤ time → δ + offset + k * 86400 < time + 86400 ∧
        ∀ (y : ℝ) (j : ℕ), (y : EReal) ∈ route.timesOfDay → time ≤ y + offset + j * 86400 →
          δ + offset + k * 86400 ≤ y + offset + j * 86400) := by
  obtain ⟨d, hd, hfirst⟩ := exists_firstFrom_daily ne finite
    (Scalar.remEuclid ((time : EReal) - offset) Clock.day)
  obtain ⟨δ, hδ, hδ0, hδ1⟩ :=
    exists_real_of_mem_daily finite ((mem_daily_iff finite).mpr ⟨d, hd, rfl⟩)
  rw [← hδ] at hfirst
  obtain ⟨k, hk, hbelow, hbound⟩ := exists_nextOf_eq departs hfirst
  refine ⟨δ, k, ⟨d, hd, hδ.symm⟩, hk, hbound, hbelow, fun late ↦ ?_⟩
  refine ⟨lt_add_day late hbelow hδ1, fun y j hy hreached ↦ ?_⟩
  have hdaily : (y : EReal) ∈ daily route.departures := (mem_daily_iff finite).mpr hy
  obtain ⟨y', hy', hy0, hy1⟩ := exists_real_of_mem_daily finite hdaily
  obtain rfl : y' = y := EReal.coe_injective hy'
  exact le_of_firstFrom late hbelow (pairwise_daily finite) hfirst hδ0 hδ1 hdaily hy0 hy1 hreached

/-- Vehicles leave a call at finite times, from its offset on. -/
theorem isFinite_of_mem_leaves {route : Route EReal}
    (finite : ∀ d ∈ route.departures, Scalar.isFinite d = true) {call : Call EReal}
    (departs : Scalar.isFinite call.departs = true) {leaving : EReal}
    (h : leaving ∈ route.leaves call) :
    Scalar.isFinite leaving = true ∧ call.departs ≤ leaving := by
  obtain ⟨x, hx, days, rfl⟩ := h
  obtain ⟨y, rfl, hy, -⟩ := exists_real_of_mem_daily finite ((mem_daily_iff finite).mpr hx)
  obtain ⟨offset, hoffset⟩ := Scalar.isFinite_iff_exists.mp departs
  have hdays : (0 : ℝ) ≤ days * 86400 := by positivity
  rw [Call.leavesOn_coe hoffset.symm, ← hoffset, EReal.coe_le_coe_iff]
  exact ⟨Scalar.isFinite_coe _, by linarith⟩

section

variable {route : Route EReal} (ne : route.departures ≠ [])
  (finite : ∀ d ∈ route.departures, Scalar.isFinite d = true) {call : Call EReal}
  (departs : Scalar.isFinite call.departs = true) {time : EReal}
  (htime : Scalar.isFinite time = true)

include ne finite departs htime

/-- The lookup finds a vehicle that leaves the call no earlier than asked for. -/
theorem nextOf_mem_leaves :
    nextOf (daily route.departures) call time ∈ {leaving ∈ route.leaves call | time ≤ leaving} := by
  obtain ⟨τ, rfl⟩ := Scalar.isFinite_iff_exists.mp htime
  obtain ⟨offset, hoffset⟩ := Scalar.isFinite_iff_exists.mp departs
  obtain ⟨δ, k, hδ, hk, hbound, -⟩ := exists_timeOfDay ne finite hoffset.symm τ
  rw [hk]
  exact ⟨⟨δ, hδ, k, (Call.leavesOn_coe hoffset.symm δ k).symm⟩, EReal.coe_le_coe_iff.mpr hbound⟩

/-- From the offset of the call on it finds the earliest of them. -/
theorem isLeast_nextOf (late : call.departs ≤ time) :
    IsLeast {leaving ∈ route.leaves call | time ≤ leaving}
      (nextOf (daily route.departures) call time) := by
  refine ⟨nextOf_mem_leaves ne finite departs htime, ?_⟩
  obtain ⟨τ, rfl⟩ := Scalar.isFinite_iff_exists.mp htime
  obtain ⟨offset, hoffset⟩ := Scalar.isFinite_iff_exists.mp departs
  have hleaves := Call.leavesOn_coe hoffset.symm
  rw [← hoffset, EReal.coe_le_coe_iff] at late
  obtain ⟨δ, k, -, hk, -, -, hleast⟩ := exists_timeOfDay ne finite hoffset.symm τ
  rintro _ ⟨⟨x, hx, j, rfl⟩, hreached⟩
  obtain ⟨y, rfl, -, -⟩ := exists_real_of_mem_daily finite ((mem_daily_iff finite).mpr hx)
  rw [hleaves, EReal.coe_le_coe_iff] at hreached
  rw [hk, hleaves, EReal.coe_le_coe_iff]
  exact (hleast late).2 y j hx hreached

end

/-- The lookup finds a vehicle of the route that leaves the call at the time asked for or later: one
of its departures on the first day on which it does. From the offset of the call on no vehicle
leaves earlier, and the wait is shorter than a day. Routes whose departures have the same times of
day have the same vehicles to find. -/
theorem isLeast_next (t : Timetable EReal) (id : RouteId) (route : Route EReal)
    (found : t.route? id = some route) (ne : route.departures ≠ [])
    (finite : ∀ d ∈ route.departures, Scalar.isFinite d = true) (call : Call EReal)
    (departs : Scalar.isFinite call.departs = true) :
    let next := (Departures.ofTimetable t).lookup.next id call
    (∀ time, Scalar.isFinite time = true →
      (∃ x ∈ route.timesOfDay, ∃ k : ℕ, next time = call.leavesOn x k ∧
        time ≤ call.leavesOn x k ∧ ∀ j < k, call.leavesOn x j < time) ∧
      (call.departs ≤ time → IsLeast {leaving ∈ route.leaves call | time ≤ leaving} (next time) ∧
        next time < time + Clock.day)) ∧
    ∀ (t' : Timetable EReal) (id' : RouteId) (route' : Route EReal),
      t'.route? id' = some route' → (∀ d ∈ route'.departures, Scalar.isFinite d = true) →
        route'.timesOfDay = route.timesOfDay →
          ∀ time, (Departures.ofTimetable t').lookup.next id' call time = next time := by
  intro next
  have hnext (time : EReal) : next time = nextOf (daily route.departures) call time :=
    next_ofTimetable found call time
  obtain ⟨offset, hoffset⟩ := Scalar.isFinite_iff_exists.mp departs
  have hleaves := Call.leavesOn_coe hoffset.symm
  constructor
  · intro time htime
    obtain ⟨τ, rfl⟩ := Scalar.isFinite_iff_exists.mp htime
    obtain ⟨δ, k, hδ, hk, hbound, hbelow, hleast⟩ := exists_timeOfDay ne finite hoffset.symm τ
    rw [← hnext, ← hleaves] at hk
    refine ⟨⟨δ, hδ, k, hk, ?_, fun j hj ↦ ?_⟩, fun late ↦ ?_⟩
    · rwa [hleaves, EReal.coe_le_coe_iff]
    · rw [hleaves, EReal.coe_lt_coe_iff]
      exact hbelow j hj
    · rw [hnext]
      refine ⟨isLeast_nextOf ne finite departs htime late, ?_⟩
      rw [← hoffset, EReal.coe_le_coe_iff] at late
      rw [← hnext, hk, hleaves, Clock.day_exact, ← EReal.coe_add, EReal.coe_lt_coe_iff]
      exact (hleast late).1
  · intro t' id' route' found' finite' same time
    rw [hnext, next_ofTimetable found']
    have hfirst (earliest : EReal) : firstFrom earliest (daily route'.departures) =
        firstFrom earliest (daily route.departures) := by
      refine firstFrom_congr (pairwise_daily finite') (pairwise_daily finite) (fun x ↦ ?_) earliest
      rw [mem_daily_iff finite', mem_daily_iff finite]
      exact Set.ext_iff.mp same x
    rw [nextOf, nextOf, hfirst]

/-- The route of a tram that stays at its second stop for longer than a day, with the given
departures. -/
noncomputable def nightRoute (departures : List EReal) : Route EReal :=
  { Timetable.tramRoute 90000 with departures := departures }

/-- The timetable of this tram. -/
noncomputable def nightTram (departures : List EReal) : Timetable EReal :=
  { Timetable.tram 90000 with routes := #[nightRoute departures] }

private theorem timesOfDay_nightRoute :
    (nightRoute [((90000 : ℝ) : EReal), ((85800 : ℝ) : EReal), ((3600 : ℝ) : EReal)]).timesOfDay =
      (nightRoute [((-600 : ℝ) : EReal), ((90000 : ℝ) : EReal)]).timesOfDay := by
  have hday (x y : ℝ) (n : ℤ) (hy0 : 0 ≤ y) (hy1 : y < 86400) (h : x = y + n * 86400) :
      Scalar.remEuclid (x : EReal) Clock.day = (y : EReal) :=
    Clock.remEuclid_day_eq_iff.mpr ⟨hy0, hy1, n, h⟩
  have hbefore := hday (-600) 85800 (-1) (by norm_num) (by norm_num) (by norm_num)
  have hlater := hday 90000 3600 1 (by norm_num) (by norm_num) (by norm_num)
  have hsame := hday 85800 85800 0 (by norm_num) (by norm_num) (by norm_num)
  have hsame' := hday 3600 3600 0 (by norm_num) (by norm_num) (by norm_num)
  ext x
  simp only [Route.timesOfDay, nightRoute, Set.mem_ofPred_eq, List.exists_mem_cons_iff,
    List.not_mem_nil, false_and, exists_false, or_false, hbefore, hlater, hsame, hsame']
  tauto

/-- From a time after the offset of the second stop on, which is longer than a day, the earliest
vehicle of the night is found, and it is found by departures in another order, too. -/
theorem isLeast_next_night :
    let route := nightRoute [((-600 : ℝ) : EReal), ((90000 : ℝ) : EReal)]
    let call := Timetable.tramCall 90000 1
    let next := (Departures.ofTimetable
      (nightTram [((-600 : ℝ) : EReal), ((90000 : ℝ) : EReal)])).lookup.next ⟨0⟩ call
    let next' := (Departures.ofTimetable (nightTram
      [((90000 : ℝ) : EReal), ((85800 : ℝ) : EReal), ((3600 : ℝ) : EReal)])).lookup.next ⟨0⟩ call
    let time : EReal := ((200000 : ℝ) : EReal)
    call.departs ≤ time ∧ IsLeast {leaving ∈ route.leaves call | time ≤ leaving} (next time) ∧
      next time < time + Clock.day ∧ next' time = next time := by
  intro route call next next' time
  have finite (departures : List ℝ) :
      ∀ d ∈ departures.map ((↑) : ℝ → EReal), Scalar.isFinite d = true := by
    intro d hd
    obtain ⟨x, -, rfl⟩ := List.mem_map.mp hd
    exact Scalar.isFinite_coe x
  have departs : call.departs = ((90100 : ℝ) : EReal) := by
    rw [Timetable.departs_tramCall, Scalar.ofNat_exact]
    norm_num [Timetable.tramDeparts]
  have late : call.departs ≤ time := by
    rw [departs, EReal.coe_le_coe_iff]
    norm_num
  obtain ⟨htimes, hsame⟩ := isLeast_next (nightTram [((-600 : ℝ) : EReal), ((90000 : ℝ) : EReal)])
    ⟨0⟩ route rfl (List.cons_ne_nil _ _) (finite [-600, 90000]) call
    (departs ▸ Scalar.isFinite_coe 90100)
  obtain ⟨-, hleast⟩ := htimes time (Scalar.isFinite_coe 200000)
  obtain ⟨hearliest, hwait⟩ := hleast late
  exact ⟨late, hearliest, hwait, hsame _ ⟨0⟩ (nightRoute _) rfl (finite [90000, 85800, 3600])
    timesOfDay_nightRoute time⟩

end Departures

end DoorToDoor
