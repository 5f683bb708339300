import Mathlib.Data.EReal.Inv
import DoorToDoor.Access.Price
import DoorToDoor.Proofs.Costs

/-!
# What access legs take and cost

With a positive walking speed no access leg takes a negative time unless a surcharge makes it
(`travelTime_leg_nonneg`), and a leg from a point to itself takes nothing but the surcharge
(`AccessByDistance.leg_self`). Accepted settings have no utility that would make time or distance
gain anything (`Settings.legCost_nonneg`).
-/

namespace DoorToDoor

namespace AccessByDistance

variable {m : AccessByDistance EReal}

/-- With a positive walking speed and detours that are not negative, no mode takes a negative
time. -/
theorem timeWith_nonneg (speed : 0 < m.walkSpeed) (detour : 0 ≤ m.beelineFactor)
    (a : AccessMode EReal) {straight : EReal} (h : 0 ≤ straight) : 0 ≤ m.timeWith a straight := by
  unfold timeWith
  split
  · exact EReal.div_nonneg h speed.le
  · next rides =>
    rw [not_or, Scalar.zero_exact, not_le] at rides
    exact EReal.div_nonneg (mul_nonneg h detour) rides.2.le

private theorem timeWith_zero (m : AccessByDistance EReal) (a : AccessMode EReal) :
    m.timeWith a 0 = 0 := by
  unfold timeWith
  split
  · exact EReal.zero_div
  · rw [zero_mul, EReal.zero_div]

/-- No access leg takes a negative time unless a surcharge makes it. -/
theorem travelTime_leg_nonneg (speed : 0 < m.walkSpeed) (detour : 0 ≤ m.beelineFactor)
    (start : Point EReal) {finish : Point EReal} (time : EReal) {surcharged : Bool}
    (surcharge : surcharged = true → 0 ≤ m.surchargeAt finish) :
    0 ≤ (m.leg start finish time surcharged).travelTime := by
  have htime := timeWith_nonneg speed detour (m.modeFor (start.distance finish))
    (start.distance_nonneg finish)
  cases surcharged with
  | false => exact htime
  | true => exact add_nonneg htime (surcharge rfl)

/-- A leg from a point to itself takes what the surcharge there is. -/
theorem leg_self (m : AccessByDistance EReal) {point : Point EReal} (h : point.IsFinite)
    (time : EReal) (surcharged : Bool) : m.leg point point time surcharged =
      .between (m.modeFor 0).mode point point time (if surcharged then m.surchargeAt point else 0)
        0 := by
  simp only [leg, h.distance_self, timeWith_zero, zero_add, zero_mul]

/-- Where walking is the only mode it is that for any distance. -/
theorem modeFor_ofParameters (p : Parameters EReal) (straight : EReal) :
    (ofParameters p).modeFor straight = walkAnywhere := by
  simp [modeFor, ofParameters, Limit.covers, walkAnywhere]

private theorem surchargeAt_of {P : EReal → Prop} (zero : P 0) (add : ∀ x y, P x → P y → P (x + y))
    (h : ∀ d ∈ m.discouraged, P d.surcharge) (finish : Point EReal) : P (m.surchargeAt finish) := by
  refine List.foldlRecOn (motive := P) _ _ zero fun sum hsum surcharge hmem ↦ add _ _ hsum ?_
  obtain ⟨d, hd, rfl⟩ := List.mem_map.mp hmem
  exact h d (List.mem_of_mem_filter hd)

/-- Surcharges that are not negative sum up to one that is not. -/
theorem surchargeAt_nonneg (h : ∀ d ∈ m.discouraged, 0 ≤ d.surcharge) (finish : Point EReal) :
    0 ≤ m.surchargeAt finish :=
  surchargeAt_of (P := (0 ≤ ·)) le_rfl (fun _ _ ↦ add_nonneg) h finish

/-- Finite surcharges sum up to a finite one. -/
theorem isFinite_surchargeAt (h : ∀ d ∈ m.discouraged, Scalar.isFinite d.surcharge = true)
    (finish : Point EReal) : Scalar.isFinite (m.surchargeAt finish) = true :=
  surchargeAt_of (P := fun x ↦ Scalar.isFinite x = true) Scalar.isFinite_zero
    (fun _ _ ↦ Scalar.isFinite_add) h finish

/-- Access by distance takes a finite time when its walking speed is positive and its detours and
surcharges are finite. -/
theorem isFinite_travelTime_leg (speed : 0 < m.walkSpeed)
    (detour : Scalar.isFinite m.beelineFactor = true) {start finish : Point EReal}
    (hstart : start.IsFinite) (hfinish : finish.IsFinite) (time : EReal) {surcharged : Bool}
    (surcharge : surcharged = true → Scalar.isFinite (m.surchargeAt finish) = true) :
    Scalar.isFinite (m.leg start finish time surcharged).travelTime = true := by
  have hstraight := hstart.distance hfinish
  have htime : Scalar.isFinite (m.timeWith (m.modeFor (start.distance finish))
      (start.distance finish)) = true := by
    unfold timeWith
    split
    · exact Scalar.isFinite_div hstraight speed
    · next rides =>
      rw [not_or, Scalar.zero_exact, not_le] at rides
      exact Scalar.isFinite_div (Scalar.isFinite_mul hstraight detour) rides.2
  cases surcharged with
  | false => exact htime
  | true => exact Scalar.isFinite_add htime (surcharge rfl)

end AccessByDistance

namespace Settings

variable {s : Settings EReal}

/-- The access that settings describe discourages the stops that the settings name. -/
theorem discouraged_access (s : Settings EReal) : s.access.discouraged = s.discouraged := by
  unfold access AccessByDistance.withModes
  split
  · rfl
  · rfl

/-- Accepted settings let no leg of their access take a negative time unless a surcharge makes
it. -/
theorem travelTime_leg_nonneg (valid : s.validate = .ok ()) (start : Point EReal)
    {finish : Point EReal} (time : EReal) {surcharged : Bool}
    (surcharge : surcharged = true → 0 ≤ s.access.surchargeAt finish) :
    0 ≤ (s.access.leg start finish time surcharged).travelTime := by
  obtain ⟨⟨hspeed, -⟩, hdetour, -⟩ := positive_of_validate valid
  rw [Scalar.zero_exact] at hspeed hdetour
  obtain ⟨speed, detour⟩ := s.pace_access
  exact AccessByDistance.travelTime_leg_nonneg (speed ▸ hspeed) (detour ▸ hdetour.le) start time
    surcharge

/-- With accepted settings a leg without negative time and length costs at least nothing. -/
theorem legCost_nonneg (valid : s.validate = .ok ()) {leg : Leg EReal} {cost : EReal}
    (time : 0 ≤ leg.travelTime) (length : 0 ≤ leg.distance)
    (h : Access.legCost s.parameters leg = .ok cost) : 0 ≤ cost := by
  have hcost {onTime onDistance : EReal} (hlocal : onTime ≤ 0) (hdistance : onDistance ≤ 0) :
      0 ≤ -leg.travelTime * onTime - leg.distance * onDistance := by
    rw [sub_eq_add_neg, ← EReal.neg_mul leg.distance]
    exact add_nonneg (Cost.neg_mul_nonneg time hlocal) (Cost.neg_mul_nonneg length hdistance)
  obtain ⟨hwalk, -, -, hdistance, -⟩ := utility_of_validate valid
  rw [Scalar.zero_exact] at hwalk hdistance
  unfold Access.legCost at h
  split at h
  · cases h
    exact hcost hwalk hdistance
  · split at h
    · next u hu =>
      cases h
      have hmode := (validate_eq_ok.mp valid).2.2.2.1 u (List.mem_of_find?_eq_some hu)
      obtain ⟨honTime, honDistance⟩ := modeUtilityFault_eq_none.mp hmode
      rw [Scalar.zero_exact] at honTime honDistance
      exact hcost honTime honDistance
    · cases h

end Settings

/-- A leg that takes a finite time along a finite distance costs a finite number if the utilities
are finite. -/
theorem Access.isFinite_legCost {p : Parameters EReal} (utilities : p.HasFiniteUtilities)
    {leg : Leg EReal} (time : Scalar.isFinite leg.travelTime = true)
    (length : Scalar.isFinite leg.distance = true) {cost : EReal}
    (h : Access.legCost p leg = .ok cost) : Scalar.isFinite cost = true := by
  have hcost {onTime onDistance : EReal} (htime : Scalar.isFinite onTime = true)
      (hdistance : Scalar.isFinite onDistance = true) :
      Scalar.isFinite (-leg.travelTime * onTime - leg.distance * onDistance) = true :=
    Scalar.isFinite_sub (Scalar.isFinite_mul (Scalar.isFinite_neg time) htime)
      (Scalar.isFinite_mul length hdistance)
  unfold Access.legCost at h
  split at h
  · cases h
    exact hcost utilities.walkTime utilities.distance
  · split at h
    · next u hu =>
      cases h
      obtain ⟨htime, hdistance⟩ := utilities.modes u (List.mem_of_find?_eq_some hu)
      exact hcost htime hdistance
    · cases h

end DoorToDoor
