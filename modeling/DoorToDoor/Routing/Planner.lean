import DoorToDoor.Coin
import DoorToDoor.Routing.Candidates
import DoorToDoor.Routing.Itinerary
import DoorToDoor.Search.LeastCost

/-!
# Planners

A planner answers requests for journeys. It looks for the path of least cost between the candidates
around both ends of the journey, weighs it against the direct journey, and turns it into legs.
Whether discouraged stops are surcharged is settled when the planner is made, so that all requests
to one planner are treated alike.
-/

namespace DoorToDoor.Routing

/-- A planner with a search engine. -/
structure Planner (α σ : Type) where
  network : Network α
  setting : Setting α
  surcharged : Bool
  engine : PathEngine α σ

namespace Planner

variable {α σ : Type} [Scalar α]

/-- A planner by a lookup of departures, with the search for the least cost. -/
def make (network : Network α) (lookup : DepartureLookup α) (access : AccessModel α)
    (parameters : Parameters α) (surcharged : Bool) : Planner α (Labels α) where
  network := network
  setting := ⟨lookup, Cost.byTimetable lookup parameters, access, parameters⟩
  surcharged := surcharged
  engine := LeastCost.engine

/-- A planner that flips a coin for the surcharge. -/
def flipped (network : Network α) (lookup : DepartureLookup α) (access : AccessModel α)
    (parameters : Parameters α) (coin : Coin) : Planner α (Labels α) :=
  make network lookup access parameters coin.flip.1

/-- The same planner with another search engine. -/
def withEngine {τ : Type} (p : Planner α σ) (engine : PathEngine α τ) : Planner α τ :=
  ⟨p.network, p.setting, p.surcharged, engine⟩

/-- The candidates around a point for a request. -/
def candidatesAt (p : Planner α σ) (r : Request α) (point : Point α) :
    Except (Error α) (CandidateSet α) :=
  candidates p.network p.setting.access p.setting.parameters r.person point r.departure p.surcharged

/-- The cost of a candidate that a path has to start or end at. -/
def endCost (r : Request α) (set : CandidateSet α) (node : Node α) (what : Inconsistency) :
    Except (Error α) α :=
  match set.get? node.id with
  | some c => .ok c.cost
  | none => .error (r.inconsistent what)

/-- Whether the direct journey is cheaper than a path of the given cost, after the factor that
favours or hinders it. -/
def prefersDirect (p : Planner α σ) (r : Request α) (pathCost : α) : Bool :=
  let direct := p.setting.access.directDisutility r.person r.start r.finish
  direct * p.setting.parameters.directFactor < pathCost

/-- The legs of a journey for which a path was found. -/
def legsAlong (p : Planner α σ) (r : Request α) (origins destinations : CandidateSet α)
    (path : Path α) : Except (Error α) (List (Leg α)) := do
  let originCost ← endCost r origins path.first .startsOutside
  let destinationCost ← endCost r destinations path.last .endsOutside
  if p.prefersDirect r (path.travelCost + originCost + destinationCost) then
    return [p.setting.direct r]
  else p.setting.itinerary r path

/-- Answers a request with the legs of the journey of least cost, or with nothing when no path leads
to the destination. The state of the engine is handed on to the next request. -/
def plan (p : Planner α σ) (state : σ) (r : Request α) :
    Except (Error α) (Option (List (Leg α))) × σ :=
  let ends := do return (← p.candidatesAt r r.start, ← p.candidatesAt r r.finish)
  match ends with
  | .error e => (.error e, state)
  | .ok (origins, destinations) =>
    let (path?, state) :=
      p.engine.run state p.network p.setting.costs origins destinations r.person
    match path? with
    | none => (.ok none, state)
    | some path => ((p.legsAlong r origins destinations path).map some, state)

/-- Answers requests in turn. -/
def planAll (p : Planner α σ) (state : σ) :
    List (Request α) → List (Except (Error α) (Option (List (Leg α)))) × σ
  | [] => ([], state)
  | r :: rest =>
    let (answer, state) := p.plan state r
    let (answers, state) := p.planAll state rest
    (answer :: answers, state)

end Planner

end DoorToDoor.Routing
