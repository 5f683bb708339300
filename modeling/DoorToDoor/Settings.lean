import DoorToDoor.Access.ByDistance
import DoorToDoor.Number.Decimal
import DoorToDoor.Routing.Error

/-!
# Settings

Settings are the parameters of planning together with the access modes and the discouraged stops.
They are checked before use: distances and speeds have to be positive, and no utility may be
positive, because costs would then be negative.
-/

namespace DoorToDoor

/-- The parameters of planning and the setup of access by distance. -/
structure Settings (α : Type) where
  parameters : Parameters α
  /-- The access modes; none stands for walking anywhere. -/
  accessModes : List (AccessMode α)
  discouraged : List (DiscouragedStop α)
  deriving DecidableEq, Repr

namespace Settings

variable {α : Type}

/-- Why settings are refused. -/
inductive Error (α : Type)
  /-- The text of the settings is missing or cannot be read. -/
  | unreadable
  /-- A parameter has to be a positive number of ordinary size. -/
  | notPositive (parameter : String) (value : α)
  | negative (parameter : String) (value : α)
  | positiveUtility (parameter : String) (value : α)
  /-- A mode has a positive utility of time or distance. -/
  | positiveModeUtility (utility : ModeUtility α)
  /-- An access mode has no price. -/
  | unpricedMode (mode : Mode)
  /-- An access mode that takes the traveller all the way has no positive speed. -/
  | noSpeed (mode : Mode)
  deriving DecidableEq, Repr

/-- The wording of an error of settings that were read. -/
def Error.message? : Error Float → Option String
  | .unreadable => none
  | .notPositive parameter value =>
    some ("router configuration error: " ++ parameter ++ " must be positive, got " ++
      Decimal.plain value)
  | .negative parameter value =>
    some ("router configuration error: " ++ parameter ++ " must not be negative, got " ++
      Decimal.plain value)
  | .positiveUtility parameter value =>
    some ("router configuration error: " ++ parameter ++ " must not be positive, got " ++
      Decimal.plain value)
  | .positiveModeUtility u =>
    some ("router configuration error: teleported mode " ++ u.mode.name ++
      " has a positive marginal utility (" ++ Decimal.plain u.time ++ " utl/s, " ++
      Decimal.plain u.distance ++ " utl/m)")
  | .unpricedMode mode => some (Routing.unpricedMessage mode)
  | .noSpeed mode =>
    some ("router configuration error: teleported access mode " ++ mode.name ++
      " needs a positive speed")

variable [Scalar α]

/-- Default parameters, walking anywhere, and no discouraged stops. -/
def default : Settings α := ⟨.default, [], []⟩

instance : Inhabited (Settings α) := ⟨default⟩

/-- The access by distance that the settings describe. -/
def access (s : Settings α) : AccessByDistance α :=
  ((AccessByDistance.ofParameters s.parameters).withModes s.accessModes).discourageAll s.discouraged

/-- The parameters that have to be positive, by name. -/
def positives (p : Parameters α) : List (String × α) :=
  [("search_radius", p.searchRadius), ("extension_radius", p.extensionRadius),
    ("beeline_distance_factor", p.beelineFactor), ("beeline_walk_speed", p.walkSpeed)]

/-- The parameters that must not be negative, by name. -/
def nonNegatives (p : Parameters α) : List (String × α) :=
  [("additional_transfer_time", p.transferMargin), ("direct_walk_factor", p.directFactor),
    ("max_beeline_walk_connection_distance", p.transferReach)]

/-- The utilities, by name. -/
def utilities (p : Parameters α) : List (String × α) :=
  [("marginal_utility_of_travel_time_walk_utl_s", p.walkTime),
    ("marginal_utility_of_travel_time_pt_utl_s", p.rideTime),
    ("marginal_utility_of_waiting_pt_utl_s", p.waitTime),
    ("marginal_utility_of_travel_distance_pt_utl_m", p.distance),
    ("utility_of_line_switch_utl", p.lineSwitch)]

/-- Refuses the first item of a list for which a test gives a reason. -/
def refuseFirst {β : Type} (reason? : β → Option (Error α)) (items : List β) :
    Except (Error α) Unit :=
  match items.findSome? reason? with
  | some e => .error e
  | none => .ok ()

/-- Why a parameter is not positive enough. -/
def positiveFault (item : String × α) : Option (Error α) :=
  if Scalar.zero < item.2 ∧ Scalar.isFinite item.2 then none
  else some (.notPositive item.1 item.2)

/-- Why a parameter is too small. -/
def nonNegativeFault (item : String × α) : Option (Error α) :=
  if Scalar.zero ≤ item.2 then none else some (.negative item.1 item.2)

/-- Why a utility is too large. -/
def utilityFault (item : String × α) : Option (Error α) :=
  if item.2 ≤ Scalar.zero then none else some (.positiveUtility item.1 item.2)

/-- Why the utilities of a mode are too large. -/
def modeUtilityFault (u : ModeUtility α) : Option (Error α) :=
  if u.time ≤ Scalar.zero ∧ u.distance ≤ Scalar.zero then none else some (.positiveModeUtility u)

/-- Why an access mode is refused: it has no price, or it lacks the speed that it needs. -/
def accessModeFault (p : Parameters α) (a : AccessMode α) : Option (Error α) :=
  if ¬(a.mode.isOnFoot ∨ (p.utilityOf? a.mode).isSome) then some (.unpricedMode a.mode)
  else if a.teleports ∧ ¬Scalar.zero < a.speed then some (.noSpeed a.mode)
  else none

/-- Refuses settings that cannot be planned with, for the first reason in the order of the
checks. -/
def validate (s : Settings α) : Except (Error α) Unit := do
  refuseFirst positiveFault (positives s.parameters)
  refuseFirst nonNegativeFault (nonNegatives s.parameters)
  refuseFirst utilityFault (utilities s.parameters)
  refuseFirst modeUtilityFault s.parameters.modeUtilities
  refuseFirst (accessModeFault s.parameters) s.accessModes

end Settings

end DoorToDoor
