import DoorToDoor.Access.Model
import DoorToDoor.Parameters
import DoorToDoor.Routing.Error

/-!
# Prices of access

What a leg to or from a stop costs. On foot the utilities of walking count; any other mode has to
have utilities of its own among the parameters.
-/

namespace DoorToDoor.Access

variable {α : Type} [Scalar α]

/-- What a leg costs. -/
def legCost (p : Parameters α) (leg : Leg α) : Except (Routing.Error α) α :=
  if leg.mode.isOnFoot then .ok (-leg.travelTime * p.walkTime - leg.distance * p.distance)
  else
    match p.utilityOf? leg.mode with
    | some u => .ok (-leg.travelTime * u.time - leg.distance * u.distance)
    | none => .error (.unpricedMode leg.mode)

/-- The leg that an access model gives, with its cost. -/
def price (model : AccessModel α) (p : Parameters α) (person : Person) (start finish : Point α)
    (time : α) (surcharged : Bool) : Except (Routing.Error α) (Leg α × α) :=
  let leg := model.leg person start finish time surcharged
  (legCost p leg).map (leg, ·)

end DoorToDoor.Access
