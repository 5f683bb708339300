import DoorToDoor.Id

/-!
# Travellers

A traveller is an identity. Models that price a journey by its traveller keep what they know about
the traveller under that identity.
-/

namespace DoorToDoor

/-- The traveller on whose behalf a journey is planned. -/
structure Person where
  id : PersonId
  deriving DecidableEq, Repr

end DoorToDoor
