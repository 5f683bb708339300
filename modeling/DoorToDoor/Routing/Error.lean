import DoorToDoor.Id
import DoorToDoor.Mode
import DoorToDoor.Number.Decimal
import DoorToDoor.Point

/-!
# Errors of planning

Why a journey is not planned. That no path leads to the destination is not an error.
-/

namespace DoorToDoor.Routing

/-- How a path does not fit the request or itself. -/
inductive Inconsistency
  /-- The first node of the path is no origin candidate. -/
  | startsOutside
  /-- The last node of the path is no destination candidate. -/
  | endsOutside
  /-- A ride on one route ends at a node of another. -/
  | rideEndsElsewhere (ride node : RouteId)
  /-- A ride is in progress although no edge has been followed. -/
  | ridesBeforeFirstEdge (ride : RouteId)
  /-- Rides have ended, but at no stop. -/
  | alightsNowhere
  deriving DecidableEq, Repr

/-- The wording of an `Inconsistency`. -/
def Inconsistency.message : Inconsistency → String
  | .startsOutside => "path starts outside the origin candidates"
  | .endsOutside => "path ends outside the destination candidates"
  | .rideEndsElsewhere ride node => "ride on " ++ ride.text ++ " ends at a node of " ++ node.text
  | .ridesBeforeFirstEdge ride => "riding " ++ ride.text ++ " before the first edge"
  | .alightsNowhere => "no alighting stop after the last pt leg"

/-- Why a journey is not planned. -/
inductive Error (α : Type)
  /-- A leg has a mode without a price. -/
  | unpricedMode (mode : Mode)
  /-- The network has no nodes. -/
  | emptyNetwork
  /-- The search gave a path that does not fit the request of a person. -/
  | inconsistent (person : PersonId) (start finish : Point α) (time : α) (what : Inconsistency)
  deriving DecidableEq, Repr

/-- The wording for a mode without a price. -/
def unpricedMessage (mode : Mode) : String :=
  "no marginal utility parameters configured for access/egress mode " ++ mode.name

/-- The wording of an error. -/
def Error.message : Error Float → String
  | .unpricedMode mode => unpricedMessage mode
  | .emptyNetwork => "transit router network has no nodes"
  | .inconsistent person start finish time what =>
    "inconsistent route for " ++ person.text ++ " from " ++ start.text ++ " to " ++ finish.text ++
      " at t=" ++ Decimal.plain time ++ "s: " ++ what.message

end DoorToDoor.Routing
