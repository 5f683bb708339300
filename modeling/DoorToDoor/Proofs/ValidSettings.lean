import DoorToDoor.Proofs.Result
import DoorToDoor.Settings

/-!
# Settings that are accepted

What the checks promise of settings that pass all of them: `validate_eq_ok`.
-/

namespace DoorToDoor

/-- Whether all utilities are finite. A utility without end passes the checks, but it makes an
amount of nothing cost no number. -/
structure Parameters.HasFiniteUtilities {α : Type} [Scalar α] (p : Parameters α) : Prop where
  walkTime : Scalar.isFinite p.walkTime = true
  rideTime : Scalar.isFinite p.rideTime = true
  waitTime : Scalar.isFinite p.waitTime = true
  distance : Scalar.isFinite p.distance = true
  lineSwitch : Scalar.isFinite p.lineSwitch = true
  modes : ∀ u ∈ p.modeUtilities, Scalar.isFinite u.time = true ∧ Scalar.isFinite u.distance = true

namespace Settings

variable {α : Type} [Scalar α]

private theorem check_eq_ok {ε γ : Type} {x : Except ε Unit} {f : Unit → Except ε γ} {c : γ} :
    (x >>= f) = .ok c ↔ x = .ok () ∧ f () = .ok c := by
  rw [Result.bind_eq_ok]
  exact ⟨fun ⟨(), h, h'⟩ ↦ ⟨h, h'⟩, fun ⟨h, h'⟩ ↦ ⟨(), h, h'⟩⟩

omit [Scalar α] in
private theorem refuseFirst_eq_ok {β : Type} {reason? : β → Option (Error α)} {items : List β} :
    refuseFirst reason? items = .ok () ↔ ∀ item ∈ items, reason? item = none := by
  unfold refuseFirst
  rw [← List.findSome?_eq_none_iff]
  cases items.findSome? reason? with
  | none => exact ⟨fun _ ↦ rfl, fun _ ↦ rfl⟩
  | some e => exact ⟨nofun, nofun⟩

/-- A parameter that is positive enough is positive and finite. -/
theorem positiveFault_eq_none {item : String × α} :
    positiveFault item = none ↔ Scalar.zero < item.2 ∧ Scalar.isFinite item.2 = true := by
  unfold positiveFault
  split
  · next h => exact ⟨fun _ ↦ h, fun _ ↦ rfl⟩
  · next h => exact ⟨nofun, fun h' ↦ absurd h' h⟩

/-- A parameter that is not too small is not negative. -/
theorem nonNegativeFault_eq_none {item : String × α} :
    nonNegativeFault item = none ↔ Scalar.zero ≤ item.2 := by
  unfold nonNegativeFault
  split
  · next h => exact ⟨fun _ ↦ h, fun _ ↦ rfl⟩
  · next h => exact ⟨nofun, fun h' ↦ absurd h' h⟩

/-- A utility that is not too large is not positive. -/
theorem utilityFault_eq_none {item : String × α} :
    utilityFault item = none ↔ item.2 ≤ Scalar.zero := by
  unfold utilityFault
  split
  · next h => exact ⟨fun _ ↦ h, fun _ ↦ rfl⟩
  · next h => exact ⟨nofun, fun h' ↦ absurd h' h⟩

/-- A mode whose utilities are not too large has none that is positive. -/
theorem modeUtilityFault_eq_none {u : ModeUtility α} :
    modeUtilityFault u = none ↔ u.time ≤ Scalar.zero ∧ u.distance ≤ Scalar.zero := by
  unfold modeUtilityFault
  split
  · next h => exact ⟨fun _ ↦ h, fun _ ↦ rfl⟩
  · next h => exact ⟨nofun, fun h' ↦ absurd h' h⟩

/-- Settings are accepted if each check accepts each of its items. -/
theorem validate_eq_ok {s : Settings α} :
    s.validate = .ok () ↔
      (∀ item ∈ positives s.parameters, positiveFault item = none) ∧
      (∀ item ∈ nonNegatives s.parameters, nonNegativeFault item = none) ∧
      (∀ item ∈ utilities s.parameters, utilityFault item = none) ∧
      (∀ u ∈ s.parameters.modeUtilities, modeUtilityFault u = none) ∧
      ∀ a ∈ s.accessModes, accessModeFault s.parameters a = none := by
  simp only [validate, check_eq_ok, refuseFirst_eq_ok]

/-- The parameters of accepted settings are accepted without access modes and discouraged stops. -/
theorem validate_parameters {s : Settings α} (valid : s.validate = .ok ()) :
    Settings.validate ⟨s.parameters, [], []⟩ = .ok () := by
  obtain ⟨hpositives, hnonNegatives, hutilities, hmodes, -⟩ := validate_eq_ok.mp valid
  exact validate_eq_ok.mpr ⟨hpositives, hnonNegatives, hutilities, hmodes, nofun⟩

/-- Accepted parameters have a walking speed and a beeline factor that are positive and finite. -/
theorem positive_of_validate {s : Settings α} (valid : s.validate = .ok ()) :
    (Scalar.zero < s.parameters.walkSpeed ∧ Scalar.isFinite s.parameters.walkSpeed = true) ∧
      Scalar.zero < s.parameters.beelineFactor ∧
      Scalar.isFinite s.parameters.beelineFactor = true := by
  have hpositive := (validate_eq_ok.mp valid).1
  constructor
  · exact positiveFault_eq_none.mp
      (hpositive ("beeline_walk_speed", s.parameters.walkSpeed) (by simp [positives]))
  · exact positiveFault_eq_none.mp
      (hpositive ("beeline_distance_factor", s.parameters.beelineFactor) (by simp [positives]))

/-- Accepted parameters have radii that are positive. -/
theorem radii_pos_of_validate {s : Settings α} (valid : s.validate = .ok ()) :
    Scalar.zero < s.parameters.searchRadius ∧ Scalar.zero < s.parameters.extensionRadius := by
  have hpositive := (validate_eq_ok.mp valid).1
  constructor
  · exact (positiveFault_eq_none.mp
      (hpositive ("search_radius", s.parameters.searchRadius) (by simp [positives]))).1
  · exact (positiveFault_eq_none.mp
      (hpositive ("extension_radius", s.parameters.extensionRadius) (by simp [positives]))).1

/-- The access that settings describe has the walking speed and the beeline factor of the
parameters. -/
theorem pace_access (s : Settings α) : s.access.walkSpeed = s.parameters.walkSpeed ∧
    s.access.beelineFactor = s.parameters.beelineFactor := by
  unfold access AccessByDistance.withModes
  split
  · exact ⟨rfl, rfl⟩
  · exact ⟨rfl, rfl⟩

/-- Accepted parameters have no negative margin, factor or reach. -/
theorem nonNegative_of_validate {s : Settings α} (valid : s.validate = .ok ()) :
    Scalar.zero ≤ s.parameters.transferMargin ∧ Scalar.zero ≤ s.parameters.directFactor ∧
      Scalar.zero ≤ s.parameters.transferReach := by
  have hnonneg := (validate_eq_ok.mp valid).2.1
  simpa [nonNegatives, nonNegativeFault_eq_none] using hnonneg

/-- Accepted parameters have no positive utility. -/
theorem utility_of_validate {s : Settings α} (valid : s.validate = .ok ()) :
    s.parameters.walkTime ≤ Scalar.zero ∧ s.parameters.rideTime ≤ Scalar.zero ∧
      s.parameters.waitTime ≤ Scalar.zero ∧ s.parameters.distance ≤ Scalar.zero ∧
      s.parameters.lineSwitch ≤ Scalar.zero := by
  have hutility := (validate_eq_ok.mp valid).2.2.1
  simpa [utilities, utilityFault_eq_none] using hutility

end Settings

end DoorToDoor
