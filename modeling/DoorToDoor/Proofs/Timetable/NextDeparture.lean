import DoorToDoor.Proofs.Exact
import DoorToDoor.Timetable.Departures

/-!
# The next departure in exact arithmetic

The time that the lookup of departures gives is that of a vehicle of the route on some day, and it
is not before the time asked for: `exists_vehicle_of_nextOf`.

The lookup adds days one by one and may add a number of them that is known beforehand. Adding days
without a bound on their number (`CatchesUp`) need not come to an end: no number of days leads past
infinity, and one that is too small to change a rounded time leads nowhere. Where it ends, the bound
makes no difference (`ends_iff`).
-/

namespace DoorToDoor

/-- A day has so many seconds. -/
theorem Clock.day_exact : (Clock.day : EReal) = ((86400 : ℝ) : EReal) := by
  rw [Clock.day, Scalar.ofNat_exact, Clock.secondsPerDay]
  norm_num

/-- A time is the sum of its hours, minutes and seconds. -/
theorem Clock.time_exact (hours minutes seconds : ℕ) :
    (Clock.time hours minutes seconds : EReal) =
      ((hours * 3600 + minutes * 60 + seconds : ℝ) : EReal) := by
  rw [Clock.time, Scalar.ofNat_exact, Clock.seconds]
  push_cast
  rfl

/-- The time of day is found by taking off whole days, forward or backward. -/
theorem Clock.remEuclid_day_eq_iff {x y : ℝ} :
    Scalar.remEuclid (x : EReal) Clock.day = (y : EReal) ↔
      0 ≤ y ∧ y < 86400 ∧ ∃ n : ℤ, x = y + n * 86400 := by
  rw [Clock.day_exact, Scalar.remEuclid_coe, EReal.coe_eq_coe_iff]
  constructor
  · rintro rfl
    have hle := Int.floor_le (x / 86400)
    have hlt := Int.lt_floor_add_one (x / 86400)
    rw [le_div_iff₀ (by norm_num)] at hle
    rw [div_lt_iff₀ (by norm_num)] at hlt
    exact ⟨by linarith, by linarith, ⌊x / 86400⌋, by ring⟩
  · rintro ⟨hnonneg, hlt, n, rfl⟩
    have hfloor : ⌊(y + n * 86400) / 86400⌋ = n := by
      rw [Int.floor_eq_iff, le_div_iff₀ (by norm_num), div_lt_iff₀ (by norm_num)]
      constructor
      · linarith
      · linarith
    rw [hfloor]
    ring

/-- Every time has a time of day. -/
theorem Clock.exists_remEuclid_day (x : ℝ) :
    ∃ y : ℝ, Scalar.remEuclid (x : EReal) Clock.day = (y : EReal) := by
  obtain ⟨y, hy⟩ := Scalar.isFinite_iff_exists.mp (Scalar.isFinite_remEuclid (x : EReal) Clock.day)
  exact ⟨y, hy.symm⟩

/-- What a time comes to when a day is added to it as long as it is before a bound, if this ever
ends. -/
inductive CatchesUp {α : Type} [Scalar α] (bound : α) : α → α → Prop
  | caught {time : α} (h : ¬time < bound) : CatchesUp bound time time
  | later {time result : α} (h : time < bound)
    (rest : CatchesUp bound (time + Clock.day) result) : CatchesUp bound time result

namespace CatchesUp

variable {α : Type} [Scalar α] {bound time result result' : α}

private theorem not_lt (h : CatchesUp bound time result) : ¬result < bound := by
  induction h with
  | caught h => exact h
  | later _ _ ih => exact ih

/-- There is one time only at which adding days ends. -/
theorem unique (h : CatchesUp bound time result) (h' : CatchesUp bound time result') :
    result = result' := by
  induction h with
  | caught hnot =>
    cases h' with
    | caught => rfl
    | later hlt => exact absurd hlt hnot
  | later hlt _ ih =>
    cases h' with
    | caught hnot => exact absurd hlt hnot
    | later _ rest => exact ih rest

end CatchesUp

namespace Departures

section

variable {α : Type} [Scalar α]

private theorem catchesUp_catchUp_iff (days : ℕ) (bound time : α) :
    CatchesUp bound time (catchUp days bound time) ↔ ¬catchUp days bound time < bound := by
  refine ⟨CatchesUp.not_lt, fun reached ↦ ?_⟩
  induction days generalizing time with
  | zero => exact .caught reached
  | succ days ih =>
    rw [catchUp] at reached ⊢
    split
    · next below =>
      rw [if_pos below] at reached
      exact .later below (ih (time + Clock.day) reached)
    · next past => exact .caught past

/-- Whether a lookup ends by itself: adding days without a bound on their number comes to an end,
and it comes to what the lookup gives. -/
def Ends (d : Departures α) (route : RouteId) (call : Call α) (time : α) : Prop :=
  ∀ departure, firstFrom (Scalar.remEuclid (time - call.departs) Clock.day)
      (d.departures route) = some departure →
    CatchesUp time (departure + call.departs) (d.next route call time)

/-- A lookup ends by itself exactly if there are no departures or what it gives is not before the
time. -/
theorem ends_iff (d : Departures α) (route : RouteId) (call : Call α) (time : α) :
    d.Ends route call time ↔ d.departures route = [] ∨ ¬d.next route call time < time := by
  simp only [Ends, next, nextOf]
  cases hfirst : firstFrom (Scalar.remEuclid (time - call.departs) Clock.day)
      (d.departures route) with
  | none =>
    have hnone : d.departures route = [] := by
      rw [firstFrom, Option.or_eq_none_iff] at hfirst
      exact List.head?_eq_none_iff.mp hfirst.2
    simp [hnone]
  | some departure =>
    have hsome : d.departures route ≠ [] := by
      intro hnil
      rw [firstFrom, hnil, List.getElem?_nil] at hfirst
      cases hfirst
    simp only [Option.some.injEq, forall_eq', hsome, false_or, catchesUp_catchUp_iff]

end

/-- Adding days leads to a time on some day, before which all days are below the bound, and not
below the bound itself if there are enough of them. -/
theorem exists_catchUp (days : ℕ) (bound : EReal) (time : ℝ) :
    ∃ k : ℕ, catchUp days bound (time : EReal) = ((time + k * 86400 : ℝ) : EReal) ∧
      (∀ j < k, ((time + j * 86400 : ℝ) : EReal) < bound) ∧
      (bound ≤ ((time + days * 86400 : ℝ) : EReal) →
        bound ≤ ((time + k * 86400 : ℝ) : EReal)) := by
  induction days generalizing time with
  | zero => exact ⟨0, by simp [catchUp], by simp, id⟩
  | succ days ih =>
    have hnext (j : ℕ) : time + 86400 + (j : ℝ) * 86400 = time + (j + 1 : ℕ) * 86400 := by
      push_cast
      ring
    rw [catchUp]
    split
    · next below =>
      obtain ⟨k, hcatch, hbelow, hbound⟩ := ih (time + 86400)
      refine ⟨k + 1, ?_, fun j hj ↦ ?_, fun enough ↦ ?_⟩
      · rw [Clock.day_exact, ← EReal.coe_add, hcatch, hnext]
      · cases j with
        | zero => simpa using below
        | succ j =>
          rw [← hnext]
          exact hbelow j (by omega)
      · rw [← hnext] at enough ⊢
        exact hbound enough
    · next reached => exact ⟨0, by simp, by simp, fun _ ↦ by simpa using reached⟩

private theorem exists_catchUp_wholePart (bound time : ℝ) :
    ∃ k : ℕ, catchUp (Scalar.wholePart (((bound : EReal) - time) / Clock.day) + 2)
        (bound : EReal) (time : EReal) = ((time + k * 86400 : ℝ) : EReal) ∧
      (∀ j < k, time + j * 86400 < bound) ∧ bound ≤ time + k * 86400 := by
  have hdays : Scalar.wholePart (((bound : EReal) - time) / Clock.day) =
      ⌊(bound - time) / 86400⌋₊ := by
    rw [Clock.day_exact, ← EReal.coe_sub, ← EReal.coe_div, Scalar.wholePart_coe]
  have henough : bound ≤ time + (⌊(bound - time) / 86400⌋₊ + 2 : ℕ) * 86400 := by
    have hfloor := Nat.lt_floor_add_one ((bound - time) / 86400)
    rw [div_lt_iff₀ (by norm_num)] at hfloor
    push_cast
    linarith
  obtain ⟨k, hcatch, hbelow, hbound⟩ :=
    exists_catchUp (⌊(bound - time) / 86400⌋₊ + 2) bound time
  rw [hdays]
  exact ⟨k, hcatch, fun j hj ↦ EReal.coe_lt_coe_iff.mp (hbelow j hj),
    EReal.coe_le_coe_iff.mp (hbound (EReal.coe_le_coe_iff.mpr henough))⟩

/-- A route with departures has a first one from every time of day on. -/
theorem exists_firstFrom {α : Type} [Scalar α] {daily : List α} (ne : daily ≠ []) (earliest : α) :
    ∃ d ∈ daily, firstFrom earliest daily = some d := by
  rw [firstFrom]
  cases h : daily[Bisection.countFront (· < earliest) daily]? with
  | some d => exact ⟨d, List.mem_of_getElem? h, rfl⟩
  | none =>
    obtain ⟨d, rest, rfl⟩ := List.exists_cons_of_ne_nil ne
    exact ⟨d, List.mem_cons_self, rfl⟩

/-- The only departure of a day is its first one from every time of day on. -/
theorem firstFrom_singleton {α : Type} [Scalar α] (earliest d : α) :
    firstFrom earliest [d] = some d := by
  obtain ⟨d', hmem, hfrom⟩ := exists_firstFrom (List.cons_ne_nil d []) earliest
  rwa [List.mem_singleton.mp hmem] at hfrom

/-- A departure within one day is its own list of departures within one day. -/
theorem daily_singleton {departure : ℝ} (nonneg : 0 ≤ departure) (lt : departure < 86400) :
    daily [(departure : EReal)] = [(departure : EReal)] := by
  have hfinite : ∀ d ∈ [(departure : EReal)], Scalar.isFinite d = true := by
    intro d hd
    rw [List.mem_singleton.mp hd]
    exact Scalar.isFinite_coe departure
  have hrem : Scalar.remEuclid (departure : EReal) Clock.day = (departure : EReal) :=
    Clock.remEuclid_day_eq_iff.mpr ⟨nonneg, lt, 0, by simp⟩
  rw [daily_of_finite hfinite, List.map_singleton, hrem, Scalar.sort, List.mergeSort_singleton]

/-- The departures within one day are those of the route, brought within one day. -/
theorem mem_daily_iff {departures : List EReal}
    (finite : ∀ d ∈ departures, Scalar.isFinite d = true) {x : EReal} :
    x ∈ daily departures ↔ ∃ d ∈ departures, Scalar.remEuclid d Clock.day = x := by
  rw [daily_of_finite finite, Scalar.sort, List.mem_mergeSort, List.mem_map]

/-- The next vehicle is the one of the first fitting departure on the first day on which it leaves
the call no earlier than asked for. -/
theorem exists_nextOf_eq {daily : List EReal} {call : Call EReal} {time offset δ : ℝ}
    (departs : call.departs = offset)
    (first : firstFrom (Scalar.remEuclid ((time : EReal) - offset) Clock.day) daily =
      some (δ : EReal)) :
    ∃ k : ℕ, nextOf daily call time = ((δ + offset + k * 86400 : ℝ) : EReal) ∧
      (∀ j < k, δ + offset + j * 86400 < time) ∧ time ≤ δ + offset + k * 86400 := by
  obtain ⟨k, hcatch, hbelow, hbound⟩ := exists_catchUp_wholePart time (δ + offset)
  refine ⟨k, ?_, hbelow, hbound⟩
  rw [nextOf, departs, first]
  dsimp only
  rw [← EReal.coe_add, hcatch]

/-- The next vehicle is found by the day on which it leaves the call no earlier than asked for while
it does on no day before. -/
theorem nextOf_eq_of_least {daily : List EReal} {call : Call EReal} {time offset δ : ℝ}
    (departs : call.departs = offset)
    (first : firstFrom (Scalar.remEuclid ((time : EReal) - offset) Clock.day) daily =
      some (δ : EReal)) (k : ℕ) (least : ∀ j < k, δ + offset + j * 86400 < time)
    (reached : time ≤ δ + offset + k * 86400) :
    nextOf daily call time = ((δ + offset + k * 86400 : ℝ) : EReal) := by
  obtain ⟨k', hnext, hbelow, hbound⟩ := exists_nextOf_eq departs first
  rcases Nat.lt_trichotomy k' k with h | h | h
  · exact absurd (least k' h) (not_lt_of_ge hbound)
  · rw [hnext, h]
  · exact absurd (hbelow k h) (not_lt_of_ge reached)

/-- A departure of each route is chosen, whatever the time asked for. -/
theorem exists_firstFrom_daily {departures : List EReal} (ne : departures ≠ [])
    (finite : ∀ d ∈ departures, Scalar.isFinite d = true) (earliest : EReal) :
    ∃ d ∈ departures,
      firstFrom earliest (daily departures) = some (Scalar.remEuclid d Clock.day) := by
  have hdaily : daily departures ≠ [] := by
    intro hnil
    apply ne
    rw [← List.length_eq_zero_iff, ← length_daily, hnil, List.length_nil]
  obtain ⟨first, hfirst, hfrom⟩ := exists_firstFrom hdaily earliest
  obtain ⟨d, hd, rfl⟩ := (mem_daily_iff finite).mp hfirst
  exact ⟨d, hd, hfrom⟩

/-- The next departure is a finite time, whatever the time asked for. -/
theorem isFinite_nextOf {departures : List EReal} (ne : departures ≠ [])
    (finite : ∀ d ∈ departures, Scalar.isFinite d = true) {call : Call EReal}
    (departs : Scalar.isFinite call.departs = true) (time : EReal) :
    Scalar.isFinite (nextOf (daily departures) call time) = true := by
  obtain ⟨d, -, hfrom⟩ := exists_firstFrom_daily ne finite
    (Scalar.remEuclid (time - call.departs) Clock.day)
  obtain ⟨o, ho⟩ := Scalar.isFinite_iff_exists.mp departs
  obtain ⟨δ, hδ⟩ := Scalar.isFinite_iff_exists.mp (Scalar.isFinite_remEuclid d Clock.day)
  rw [nextOf, hfrom]
  dsimp only
  rw [← hδ, ← ho, ← EReal.coe_add]
  obtain ⟨k, hcatch, -⟩ := exists_catchUp
    (Scalar.wholePart ((time - ((δ + o : ℝ) : EReal)) / Clock.day) + 2) time (δ + o)
  rw [hcatch]
  exact Scalar.isFinite_coe _

/-- The next departure is that of a vehicle on some day, and not before the time asked for. -/
theorem exists_vehicle_of_nextOf {departures : List EReal} (ne : departures ≠ [])
    (finite : ∀ d ∈ departures, Scalar.isFinite d = true) {call : Call EReal}
    (departs : Scalar.isFinite call.departs = true) {time : EReal}
    (htime : Scalar.isFinite time = true) :
    ∃ d ∈ departures, ∃ k : ℕ,
      nextOf (daily departures) call time =
        Scalar.remEuclid d Clock.day + Scalar.ofNat k * Clock.day + call.departs ∧
      time ≤ nextOf (daily departures) call time := by
  obtain ⟨τ, rfl⟩ := Scalar.isFinite_iff_exists.mp htime
  obtain ⟨o, ho⟩ := Scalar.isFinite_iff_exists.mp departs
  obtain ⟨d, hd, hfrom⟩ := exists_firstFrom_daily ne finite
    (Scalar.remEuclid ((τ : EReal) - o) Clock.day)
  obtain ⟨δ, hδ⟩ := Scalar.isFinite_iff_exists.mp (Scalar.isFinite_remEuclid d Clock.day)
  rw [← hδ] at hfrom
  obtain ⟨k, hnext, -, hbound⟩ := exists_nextOf_eq ho.symm hfrom
  refine ⟨d, hd, k, ?_, ?_⟩
  · rw [hnext, ← hδ, ← ho, Clock.day_exact, Scalar.ofNat_exact, ← EReal.coe_mul, ← EReal.coe_add,
      ← EReal.coe_add]
    congr 1
    ring
  · rw [hnext, EReal.coe_le_coe_iff]
    exact hbound

end Departures

end DoorToDoor
