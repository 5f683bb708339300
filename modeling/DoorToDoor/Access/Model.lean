import DoorToDoor.Leg
import DoorToDoor.Person

/-!
# Access models

An access model tells how a traveller gets between any point and a stop. The planner asks it for a
leg and sets the price itself.
-/

namespace DoorToDoor

/-- How travellers get to and from stops. -/
structure AccessModel (α : Type) where
  /-- The leg from one point to another, departing at a time. The last argument tells whether
  surcharges of the model are applied. -/
  leg : Person → (start finish : Point α) → (time : α) → (surcharged : Bool) → Leg α
  /-- Whether a mode takes the traveller all the way to or from a stop, so that no walk is added. -/
  teleports : Mode → Bool
  /-- What it costs to go from one point to another without the timetable. -/
  directDisutility : Person → (start finish : Point α) → α

end DoorToDoor
