import DoorToDoor.Number.Decimal

/-!
# Points

Places are points of the plane in metres, east and north. Distances are straight lines.
-/

namespace DoorToDoor

/-- A place, by its easting and northing in metres. -/
structure Point (α : Type) where
  x : α
  y : α
  deriving DecidableEq, Repr, Inhabited

namespace Point

variable {α : Type} [Scalar α]

/-- The square of the straight-line distance, measured from `q` to `p`. -/
def squareTo (p q : Point α) : α :=
  let dx := p.x - q.x
  let dy := p.y - q.y
  dx * dx + dy * dy

/-- The straight-line distance. -/
def distance (p q : Point α) : α := Scalar.sqrt (p.squareTo q)

/-- Both coordinates to a tenth of a metre, such as `(1200.0, -50.5)`. -/
def text (p : Point Float) : String :=
  "(" ++ Decimal.fixed 1 p.x ++ ", " ++ Decimal.fixed 1 p.y ++ ")"

end Point

end DoorToDoor
