import DoorToDoor.Access.Model
import DoorToDoor.Parameters

/-!
# Access by distance

An access model with an ordered list of modes, each for straight-line distances up to a limit. The
first mode whose limit covers the distance is taken, and the last one when none does. Stops may be
discouraged: a leg that ends at such a stop takes longer while surcharges are applied.
-/

namespace DoorToDoor

/-- How far a mode goes on a straight line. -/
inductive Limit (α : Type)
  /-- Up to a distance in metres. An infinite distance is no limit at all, and one that is undefined
  covers nothing and ranks above all others. -/
  | upTo (distance : α)
  /-- Nowhere: this limit covers nothing and ranks below all others. -/
  | nowhere
  deriving DecidableEq, Repr

/-- An access mode and its limit. -/
structure AccessMode (α : Type) where
  mode : Mode
  limit : Limit α
  /-- Metres of the way covered in a second. Modes on foot go at the walking speed instead. -/
  speed : α
  /-- Whether the mode takes the traveller all the way to or from a stop. -/
  teleports : Bool
  deriving DecidableEq, Repr

/-- A stop at which travellers are discouraged from boarding and alighting. -/
structure DiscouragedStop (α : Type) where
  coord : Point α
  /-- Seconds added to a leg that ends here. -/
  surcharge : α
  deriving DecidableEq, Repr

/-- Modes by distance, discouraged stops, and the parameters that legs depend on. -/
structure AccessByDistance (α : Type) where
  modes : List (AccessMode α)
  discouraged : List (DiscouragedStop α)
  beelineFactor : α
  walkSpeed : α
  walkTime : α
  distance : α
  modes_ne : modes ≠ []

namespace Limit

variable {α : Type} [Scalar α]

/-- Whether a limit covers a straight-line distance. -/
def covers (limit : Limit α) (straight : α) : Bool :=
  match limit with
  | .upTo distance => straight ≤ distance
  | .nowhere => false

/-- Whether the first of two limits may stand before the second in ascending order. -/
def before : Limit α → Limit α → Bool
  | .nowhere, _ => true
  | .upTo _, .nowhere => false
  | .upTo a, .upTo b => Scalar.before a b

end Limit

namespace AccessByDistance

variable {α : Type} [Scalar α]

/-- Walking, however far. -/
def walkAnywhere : AccessMode α := ⟨.walk, .upTo Scalar.infinity, Scalar.zero, false⟩

/-- Walking as the only mode, with the given parameters and no discouraged stops. -/
def ofParameters (p : Parameters α) : AccessByDistance α where
  modes := [walkAnywhere]
  discouraged := []
  beelineFactor := p.beelineFactor
  walkSpeed := p.walkSpeed
  walkTime := p.walkTime
  distance := p.distance
  modes_ne := by simp

/-- Modes in the order of their limits; modes with equal limits keep their order. -/
def byLimit (modes : List (AccessMode α)) : List (AccessMode α) :=
  modes.mergeSort fun a b ↦ a.limit.before b.limit

/-- Takes other modes. An empty list changes nothing. -/
def withModes (m : AccessByDistance α) (modes : List (AccessMode α)) : AccessByDistance α :=
  if h : modes = [] then m
  else
    { m with
      modes := byLimit modes
      modes_ne := fun empty ↦ h (List.length_eq_zero_iff.mp (by
        rw [← List.length_mergeSort modes, ← byLimit, empty, List.length_nil])) }

/-- Discourages one more stop. -/
def discourage (m : AccessByDistance α) (coord : Point α) (surcharge : α) : AccessByDistance α :=
  { m with discouraged := m.discouraged ++ [⟨coord, surcharge⟩] }

/-- Discourages more stops. -/
def discourageAll (m : AccessByDistance α) (stops : List (DiscouragedStop α)) :
    AccessByDistance α :=
  { m with discouraged := m.discouraged ++ stops }

/-- The mode for a straight-line distance. -/
def modeFor (m : AccessByDistance α) (straight : α) : AccessMode α :=
  (m.modes.find? fun a ↦ a.limit.covers straight).getD (m.modes.getLast m.modes_ne)

/-- Points at most this many metres apart are one stop. -/
def sameStopTolerance : α := Scalar.ofNat 1 / Scalar.ofNat 1000000

/-- The surcharge of a leg that ends at a point: the sum over all discouraged stops there. -/
def surchargeAt (m : AccessByDistance α) (finish : Point α) : α :=
  let here := m.discouraged.filter fun d ↦ d.coord.distance finish ≤ sameStopTolerance
  Scalar.sum (here.map (·.surcharge))

/-- How long a mode takes along a straight line. A mode without a speed goes at the walking
speed. -/
def timeWith (m : AccessByDistance α) (a : AccessMode α) (straight : α) : α :=
  if a.mode.isOnFoot ∨ a.speed ≤ Scalar.zero then straight / m.walkSpeed
  else straight * m.beelineFactor / a.speed

/-- The leg between two points. -/
def leg (m : AccessByDistance α) (start finish : Point α) (time : α) (surcharged : Bool) : Leg α :=
  let straight := start.distance finish
  let a := m.modeFor straight
  let travelTime := m.timeWith a straight
  let travelTime := if surcharged then travelTime + m.surchargeAt finish else travelTime
  .between a.mode start finish time travelTime (straight * m.beelineFactor)

/-- Whether some entry of a mode takes the traveller all the way. -/
def teleports (m : AccessByDistance α) (mode : Mode) : Bool :=
  m.modes.any fun a ↦ a.mode == mode && a.teleports

/-- What the walk between two points costs. -/
def directDisutility (m : AccessByDistance α) (start finish : Point α) : α :=
  let straight := start.distance finish
  let timeCost := -(straight / m.walkSpeed) * m.walkTime
  timeCost - straight * m.beelineFactor * m.distance

/-- The access model, alike for all travellers. -/
def model (m : AccessByDistance α) : AccessModel α where
  leg _ := m.leg
  teleports := m.teleports
  directDisutility _ := m.directDisutility

end AccessByDistance

end DoorToDoor
