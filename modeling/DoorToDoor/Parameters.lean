import DoorToDoor.Mode
import DoorToDoor.Number.Scalar

/-!
# Parameters

What a planner is told about distances, speeds and the value of time. Utilities follow the scoring
convention: travelling loses utility, so they are negative rates, and a cost is what they take away.
-/

namespace DoorToDoor

/-- The utilities of a mode that is neither on foot nor by the timetable. -/
structure ModeUtility (α : Type) where
  mode : Mode
  /-- Utility of a second of travelling. -/
  time : α
  /-- Utility of a metre of travelling. -/
  distance : α
  deriving DecidableEq, Repr

/-- The parameters of planning. -/
structure Parameters (α : Type) where
  /-- Stops within this distance of an end of the journey are candidates. -/
  searchRadius : α
  /-- With fewer than two candidates, the search goes this far beyond the nearest stop. -/
  extensionRadius : α
  /-- Utility of a second on foot. -/
  walkTime : α
  /-- Utility of a second in a vehicle. -/
  rideTime : α
  /-- Utility of a second of waiting for a vehicle. -/
  waitTime : α
  /-- Utility of a metre in a vehicle or on foot. -/
  distance : α
  /-- Utility of a change between lines. -/
  lineSwitch : α
  /-- Seconds added to each walk between stops. -/
  transferMargin : α
  /-- How much longer a walk is than the straight line. -/
  beelineFactor : α
  /-- Metres of the straight line that are walked in a second. -/
  walkSpeed : α
  /-- The direct journey is taken when its cost times this factor is below the cost by transit. -/
  directFactor : α
  /-- Transfers join nodes at most this far apart. -/
  transferReach : α
  /-- The modes with utilities of their own. -/
  modeUtilities : List (ModeUtility α)
  deriving DecidableEq, Repr

namespace Parameters

variable {α : Type}

/-- The utilities of a mode, from its first entry. -/
def utilityOf? (p : Parameters α) (mode : Mode) : Option (ModeUtility α) :=
  p.modeUtilities.find? (·.mode == mode)

variable [Scalar α]

/-- The length of a walk along a straight line of the given length. -/
def walkDistance (p : Parameters α) (straight : α) : α := straight * p.beelineFactor

/-- The utility that a mode takes from a second of travelling: a number of units an hour, and six
more for the hour not spent otherwise. -/
def timeUtility (perHour : Nat) : α :=
  -Scalar.ofNat perHour / Scalar.ofNat 3600 - Scalar.ofNat 6 / Scalar.ofNat 3600

/-- Parameters for a city: walks of three kilometres an hour that are three tenths longer than the
straight line, and transport on demand as the one mode with utilities of its own. -/
def default : Parameters α where
  searchRadius := Scalar.ofNat 1000
  extensionRadius := Scalar.ofNat 200
  walkTime := timeUtility 12
  rideTime := timeUtility 6
  waitTime := timeUtility 6
  distance := Scalar.zero
  lineSwitch := -Scalar.ofNat 1
  transferMargin := Scalar.zero
  beelineFactor := Scalar.ofNat 13 / Scalar.ofNat 10
  walkSpeed :=
    Scalar.ofNat 3 / (Scalar.ofNat 36 / Scalar.ofNat 10) / (Scalar.ofNat 13 / Scalar.ofNat 10)
  directFactor := Scalar.ofNat 1
  transferReach := Scalar.ofNat 100
  modeUtilities := [⟨.onDemand, timeUtility 4, Scalar.zero⟩]

instance : Inhabited (Parameters α) := ⟨default⟩

end Parameters

end DoorToDoor
