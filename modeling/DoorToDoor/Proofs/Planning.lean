import DoorToDoor.Proofs.Access
import DoorToDoor.Proofs.Itinerary.Moves
import DoorToDoor.Proofs.Search.Bounds
import DoorToDoor.Proofs.Search.Reachability
import DoorToDoor.Routing.Planner

/-!
# Answers of a planner

When a planner answers a request with a journey, and what the journey then is: `plan_eq_ok_some`. A
planner for the shuttle finds the journey by shuttle (`plan_shuttle`).
-/

namespace DoorToDoor.Routing.Planner

variable {α σ : Type} [Scalar α] {p : Planner α σ} {r : Request α}

omit [Scalar α] in
private theorem endCost_eq_ok {set : CandidateSet α} {node : Node α} {what : Inconsistency}
    {cost : α} :
    endCost r set node what = .ok cost ↔ ∃ c, set.get? node.id = some c ∧ c.cost = cost := by
  unfold endCost
  cases set.get? node.id with
  | none => exact ⟨nofun, fun ⟨_, h, _⟩ ↦ nomatch h⟩
  | some c =>
    constructor
    · intro h
      exact ⟨c, rfl, Except.ok.inj h⟩
    · rintro ⟨_, h, rfl⟩
      cases h
      rfl

/-- A path between candidates gives the direct leg if this is preferred, and else the itinerary
along the path. -/
theorem legsAlong_eq_ok {origins destinations : CandidateSet α} {path : Path α}
    {legs : List (Leg α)} :
    p.legsAlong r origins destinations path = .ok legs ↔
      ∃ o d, origins.get? path.first.id = some o ∧ destinations.get? path.last.id = some d ∧
        if p.prefersDirect r (path.travelCost + o.cost + d.cost) = true
        then [p.setting.direct r] = legs else p.setting.itinerary r path = .ok legs := by
  simp only [legsAlong, Result.bind_eq_ok, endCost_eq_ok]
  constructor
  · rintro ⟨_, ⟨o, ho, rfl⟩, _, ⟨d, hd, rfl⟩, h⟩
    refine ⟨o, d, ho, hd, ?_⟩
    split at h
    · next direct => exact (if_pos direct).mpr (Except.ok.inj h)
    · next along => exact (if_neg along).mpr h
  · rintro ⟨o, d, ho, hd, h⟩
    refine ⟨_, ⟨o, ho, rfl⟩, _, ⟨d, hd, rfl⟩, ?_⟩
    split at h
    · next direct => exact (if_pos direct).trans (congrArg Except.ok h)
    · next along => exact (if_neg along).trans h

/-- The answer to a request: the candidates around both ends, a path between them if there is one,
and the legs along it. -/
theorem plan_fst (state : σ) :
    (p.plan state r).1 = (do
      let origins ← p.candidatesAt r r.start
      let destinations ← p.candidatesAt r r.finish
      match (p.engine.run state p.network p.setting.costs origins destinations r.person).1 with
      | none => .ok none
      | some path => (p.legsAlong r origins destinations path).map some) := by
  unfold plan
  cases p.candidatesAt r r.start with
  | error e => rfl
  | ok origins =>
    cases p.candidatesAt r r.finish with
    | error e => rfl
    | ok destinations =>
      dsimp only [bind, Except.bind, pure, Except.pure]
      cases (p.engine.run state p.network p.setting.costs origins destinations r.person).1 with
      | none => rfl
      | some path => rfl

/-- Between candidates that are there, the path that the engine finds decides the answer. -/
theorem plan_fst_of_candidates {state : σ} {origins destinations : CandidateSet α}
    (start : p.candidatesAt r r.start = .ok origins)
    (finish : p.candidatesAt r r.finish = .ok destinations) :
    (p.plan state r).1 =
      match (p.engine.run state p.network p.setting.costs origins destinations r.person).1 with
      | none => .ok none
      | some path => (p.legsAlong r origins destinations path).map some := by
  rw [plan_fst, start, finish]
  rfl

/-- A request is answered with the legs along the path that the engine finds between the candidates
around both ends. -/
theorem plan_eq_ok_some {state : σ} {legs : List (Leg α)} :
    (p.plan state r).1 = .ok (some legs) ↔
      ∃ origins destinations path, p.candidatesAt r r.start = .ok origins ∧
        p.candidatesAt r r.finish = .ok destinations ∧
        (p.engine.run state p.network p.setting.costs origins destinations r.person).1 =
          some path ∧
        p.legsAlong r origins destinations path = .ok legs := by
  rw [plan_fst, Result.bind_eq_ok]
  simp only [Result.bind_eq_ok]
  constructor
  · rintro ⟨origins, hstart, destinations, hfinish, h⟩
    split at h
    · cases h
    · next path hpath =>
      obtain ⟨_, hlegs, hsome⟩ := Result.map_eq_ok.mp h
      cases hsome
      exact ⟨origins, destinations, path, hstart, hfinish, hpath, hlegs⟩
  · rintro ⟨origins, destinations, path, hstart, hfinish, hpath, hlegs⟩
    refine ⟨origins, hstart, destinations, hfinish, ?_⟩
    rw [hpath]
    exact Result.map_eq_ok.mpr ⟨legs, hlegs, rfl⟩

open Network (east eastAt shuttleRide shuttleRideAt west westAt)
open Timetable (ShuttleTimes)

/-- Parameters by which only walking costs anything, and nobody walks all the way. -/
noncomputable def freeRides : Parameters EReal where
  searchRadius := 1
  extensionRadius := 1
  walkTime := -1
  rideTime := 0
  waitTime := 0
  distance := 0
  lineSwitch := 0
  transferMargin := 0
  beelineFactor := 1
  walkSpeed := 1
  directFactor := ⊤
  transferReach := 0
  modeUtilities := []

/-- These parameters are accepted. -/
theorem validate_freeRides : Settings.validate ⟨freeRides, [], []⟩ = .ok () := by
  have hone : Scalar.isFinite (1 : EReal) = true := Scalar.isFinite_coe 1
  refine Settings.validate_eq_ok.mpr ⟨?_, ?_, ?_, nofun, nofun⟩
  · simp [Settings.positives, Settings.positiveFault_eq_none, freeRides, hone]
  · simp [Settings.nonNegatives, Settings.nonNegativeFault_eq_none, freeRides]
  · simp [Settings.utilities, Settings.utilityFault_eq_none, freeRides]

/-- Their utilities are finite. -/
theorem hasFiniteUtilities_freeRides : freeRides.HasFiniteUtilities where
  walkTime := Scalar.isFinite_coe (-1)
  rideTime := Scalar.isFinite_zero
  waitTime := Scalar.isFinite_zero
  distance := Scalar.isFinite_zero
  lineSwitch := Scalar.isFinite_zero
  modes := nofun

/-- A planner for a shuttle that walks to and from the stops. -/
noncomputable def shuttlePlannerAt (times : ShuttleTimes EReal) : Planner EReal (Labels EReal) :=
  .make (.ofTimetable (.shuttleAt times) 0) (Departures.ofTimetable (.shuttleAt times)).lookup
    (AccessByDistance.ofParameters freeRides).model freeRides false

/-- A planner for the shuttle that walks to and from the stops. -/
noncomputable def shuttlePlanner : Planner EReal (Labels EReal) :=
  .make (.ofTimetable .shuttle 0) (Departures.ofTimetable .shuttle).lookup
    (AccessByDistance.ofParameters freeRides).model freeRides false

/-- The request to go from one stop of the shuttle to the other. -/
noncomputable def shuttleTrip : Request EReal := Setting.shuttleRequest

section

variable (times : ShuttleTimes EReal)

private theorem coord_westAt :
    (westAt times).coord = ⟨((0 : ℝ) : EReal), ((0 : ℝ) : EReal)⟩ := by
  change (⟨(((0 : ℕ) : ℝ) : EReal), (((0 : ℕ) : ℝ) : EReal)⟩ : Point EReal) = _
  norm_num

private theorem coord_eastAt :
    (eastAt times).coord = ⟨((1000 : ℝ) : EReal), ((0 : ℝ) : EReal)⟩ := by
  change (⟨(((1000 : ℕ) : ℝ) : EReal), (((0 : ℕ) : ℝ) : EReal)⟩ : Point EReal) = _
  norm_num

variable {stop : Node EReal}

variable {times} in
private theorem isFinite_stop (h : stop ∈ [westAt times, eastAt times]) :
    stop.coord.IsFinite := by
  rcases List.mem_pair.mp h with rfl | rfl
  · exact ⟨Scalar.isFinite_zero, Scalar.isFinite_zero⟩
  · exact ⟨Scalar.isFinite_ofNat 1000, Scalar.isFinite_zero⟩

/-- Each stop of a shuttle is the only node around itself, because the other one lies outside both
radii. -/
theorem nodesAround_stopAt {p : Parameters EReal} (search : p.searchRadius = 1)
    (extension : p.extensionRadius = 1) (h : stop ∈ [westAt times, eastAt times]) :
    nodesAround (Network.ofTimetable (.shuttleAt times) 0) p stop.coord = .ok [stop] := by
  let n : Network EReal := Network.ofTimetable (.shuttleAt times) 0
  have hhits : n.nodes.toList.map (Network.hit stop.coord) =
      [⟨(westAt times).coord.squareTo stop.coord, westAt times⟩,
        ⟨(eastAt times).coord.squareTo stop.coord, eastAt times⟩] := rfl
  have hfar : ¬((1000000 : ℝ) : EReal) ≤ 1 := by
    rw [← EReal.coe_one, EReal.coe_le_coe_iff]
    norm_num
  have hwithin : n.within stop.coord 1 = [stop] := by
    rw [Network.within, hhits]
    rcases List.mem_pair.mp h with rfl | rfl
    · rw [coord_westAt, coord_eastAt, Point.squareTo_coe, Point.squareTo_coe]
      norm_num [hfar]
    · rw [coord_westAt, coord_eastAt, Point.squareTo_coe, Point.squareTo_coe]
      norm_num [hfar]
  have hnearest : nearest n stop.coord = .ok stop := by
    rw [nearest, Network.nearest?, hhits]
    rcases List.mem_pair.mp h with rfl | rfl
    · rw [coord_westAt, coord_eastAt, Point.squareTo_coe, Point.squareTo_coe]
      norm_num [Network.Hit.nearer, Scalar.order_exact, compare_lt_iff_lt]
    · rw [coord_westAt, coord_eastAt, Point.squareTo_coe, Point.squareTo_coe]
      norm_num [Network.Hit.nearer, Scalar.order_exact, compare_lt_iff_lt]
  have hradius : stop.coord.distance stop.coord + p.extensionRadius = 1 := by
    rw [(isFinite_stop h).distance_self, zero_add, extension]
  have hfew : ¬2 ≤ (n.within stop.coord p.searchRadius).length := by
    rw [search, hwithin]
    exact Nat.not_succ_le_self 1
  refine (if_neg hfew).trans ?_
  rw [hnearest]
  change Except.ok (n.within stop.coord _) = _
  rw [hradius, hwithin]

end

/-- Each stop of the shuttle is the only node around itself. -/
theorem nodesAround_stop {stop : Node EReal} (h : stop ∈ [west, east]) :
    nodesAround shuttlePlanner.network freeRides stop.coord = .ok [stop] :=
  nodesAround_stopAt .morning rfl rfl h

/-- The first stop of the shuttle lies at a finite point. -/
theorem isFinite_west : (west : Node EReal).coord.IsFinite :=
  ⟨Scalar.isFinite_zero, Scalar.isFinite_zero⟩

/-- Walking from a point to itself takes no time. -/
theorem leg_self (p : Parameters EReal) {point : Point EReal} (h : point.IsFinite)
    (person : Person) (time : EReal) :
    (AccessByDistance.ofParameters p).model.leg person point point time false =
      .between .walk point point time 0 0 := by
  change (AccessByDistance.ofParameters p).leg point point time false = _
  rw [AccessByDistance.leg_self _ h, AccessByDistance.modeFor_ofParameters]
  rfl

/-- A stop as the only candidate. -/
noncomputable def stopCandidate (stop : Node EReal) : CandidateSet EReal :=
  CandidateSet.empty.insert ⟨stop.id, 0, shuttleTrip.departure + 0⟩

private theorem toList_stopCandidate (stop : Node EReal) :
    (stopCandidate stop).toList = [⟨stop.id, 0, shuttleTrip.departure + 0⟩] :=
  CandidateSet.toList_ofList_singleton _

private theorem mem_stopCandidate (stop : Node EReal) :
    ⟨stop.id, 0, shuttleTrip.departure + 0⟩ ∈ (stopCandidate stop).toList := by
  rw [toList_stopCandidate]
  exact List.mem_singleton_self _

private theorem eq_of_get?_stopCandidate {stop : Node EReal} {v : NodeId} {c : Candidate EReal}
    (h : (stopCandidate stop).get? v = some c) :
    v = stop.id ∧ c = ⟨stop.id, 0, shuttleTrip.departure + 0⟩ := by
  rw [stopCandidate, CandidateSet.get?_insert, CandidateSet.get?_empty] at h
  split at h
  · next same => exact ⟨(eq_of_beq same).symm, (Option.some.inj h).symm⟩
  · cases h

section

variable {times : ShuttleTimes EReal}

/-- Around a stop of a shuttle it is the only candidate if going nowhere costs nothing. -/
theorem candidates_stopAt {m : AccessByDistance EReal} {p : Parameters EReal}
    (search : p.searchRadius = 1) (extension : p.extensionRadius = 1)
    (free : ∀ point time,
      Access.legCost p (.between (m.modeFor 0).mode point point time 0 0) = .ok 0)
    {stop : Node EReal} (h : stop ∈ [westAt times, eastAt times]) :
    candidates (Network.ofTimetable (.shuttleAt times) 0) m.model p shuttleTrip.person stop.coord
      shuttleTrip.departure false = .ok (stopCandidate stop) := by
  have hleg : m.model.leg shuttleTrip.person stop.coord stop.coord shuttleTrip.departure false =
      .between (m.modeFor 0).mode stop.coord stop.coord shuttleTrip.departure 0 0 :=
    m.leg_self (isFinite_stop h) _ false
  have hprice : Access.price m.model p shuttleTrip.person stop.coord stop.coord
      shuttleTrip.departure false =
        .ok (.between (m.modeFor 0).mode stop.coord stop.coord shuttleTrip.departure 0 0, 0) := by
    rw [Access.price, hleg, free]
    rfl
  have hadd : addCandidate m.model p shuttleTrip.person stop.coord shuttleTrip.departure false
      .empty stop = .ok (stopCandidate stop) := Result.map_eq_ok.mpr ⟨_, hprice, rfl⟩
  exact Result.bind_eq_ok.mpr
    ⟨[stop], nodesAround_stopAt times search extension h, Result.bind_eq_ok.mpr ⟨_, hadd, rfl⟩⟩

private theorem candidatesAt_stop {stop : Node EReal} (h : stop ∈ [westAt times, eastAt times]) :
    (shuttlePlannerAt times).candidatesAt shuttleTrip stop.coord = .ok (stopCandidate stop) := by
  refine candidates_stopAt (m := .ofParameters freeRides) rfl rfl (fun point time ↦ ?_) h
  rw [AccessByDistance.modeFor_ofParameters]
  change Except.ok (-(0 : EReal) * -1 - 0 * 0) = _
  simp

/-- The ride on a shuttle is the only edge of its network. -/
theorem eq_shuttleRideAt (times : ShuttleTimes EReal) {e : Edge EReal}
    (he : e ∈ (Network.ofTimetable (.shuttleAt times) (0 : EReal)).edges) :
    e = shuttleRideAt times := by
  have apart : Network.withinReach 0 (eastAt times) (westAt times) = false := by
    rw [Network.withinReach, coord_westAt, coord_eastAt, Point.squareTo_coe]
    norm_num
  rw [Network.edges_shuttleAt times apart] at he
  simpa using he

/-- The ride costs nothing at any time. -/
theorem disutility_shuttleRideAt (times : ShuttleTimes EReal) (lookup : DepartureLookup EReal)
    (now : EReal) : Cost.disutility lookup freeRides (shuttleRideAt times) now = 0 := by
  change -Cost.wait lookup (shuttleRideAt times) now * 0 -
    Cost.inVehicle (shuttleRideAt times) * 0 + -(shuttleRideAt times).length * 0 = 0
  simp

private theorem edges_of_isWalk {es : List (Edge EReal)}
    (walk : (Network.ofTimetable (.shuttleAt times) (0 : EReal)).IsWalk ⟨0⟩ es ⟨1⟩) :
    es = [shuttleRideAt times] := by
  match es with
  | [] => exact absurd walk.1 (by decide)
  | [e] => rw [eq_shuttleRideAt times walk.1]
  | e :: e' :: rest =>
    obtain ⟨he, -, he', hmeet, -⟩ := walk
    rw [eq_shuttleRideAt times he, eq_shuttleRideAt times he'] at hmeet
    have hapart : (⟨0⟩ : NodeId) ≠ ⟨1⟩ := by decide
    exact absurd hmeet hapart

variable (times)

/-- The search for a shuttle finds the ride on it if this costs the same at all times. -/
theorem exists_path_of_disutility {costs : CostModel EReal} {cost : ℝ} (nonneg : 0 ≤ cost)
    (hcost : ∀ now, costs.disutility shuttleTrip.person (shuttleRideAt times) now = cost) :
    ∃ path o d,
      (LeastCost.search .empty ⟨Network.ofTimetable (.shuttleAt times) 0, costs,
        shuttleTrip.person, stopCandidate (eastAt times)⟩ (stopCandidate (westAt times))).1 =
          some path ∧
      (stopCandidate (westAt times)).get? path.first.id = some o ∧
      (stopCandidate (eastAt times)).get? path.last.id = some d ∧
      path.edges = [shuttleRideAt times] ∧ path.last = eastAt times ∧
      path.travelCost + o.cost + d.cost = cost := by
  let task : LeastCost.Task EReal := ⟨Network.ofTimetable (.shuttleAt times) 0, costs,
    shuttleTrip.person, stopCandidate (eastAt times)⟩
  have wf : task.network.WellFormed := Network.wellFormed_ofTimetable (.shuttleAt times) 0
  have nonNegative : task.NonNegative := by
    intro e he now _
    rw [eq_shuttleRideAt times he, LeastCost.Task.charge, hcost]
    exact EReal.coe_nonneg.mpr nonneg
  have walk : task.network.IsWalk (westAt times).id [shuttleRideAt times] (eastAt times).id :=
    ⟨Network.shuttleRideAt_mem_edges times, rfl, rfl, Nat.one_lt_two⟩
  obtain ⟨path, found⟩ := LeastCost.exists_path_of_isWalk .empty wf nonNegative (fun _ ↦ True)
    (fun _ _ ↦ trivial) (fun _ _ _ _ ↦ trivial) (mem_stopCandidate (westAt times))
    EReal.zero_lt_top (mem_stopCandidate (eastAt times)) walk (by
      intro e he now _
      rw [List.mem_singleton.mp he, LeastCost.Task.charge, hcost]
      exact Scalar.isFinite_coe cost)
  obtain ⟨-, -, o, d, label, -, -, -, ho, hd, hwalk, hreplay, -, htravel, -⟩ :=
    LeastCost.exists_best_of_search wf (nonNegative.noRefundsFrom _) found
  obtain ⟨-, -, hlast⟩ := LeastCost.isWalk_of_searchWith wf found
  obtain ⟨hfirst, rfl⟩ := eq_of_get?_stopCandidate ho
  obtain ⟨hend, rfl⟩ := eq_of_get?_stopCandidate hd
  have hedges : path.edges = [shuttleRideAt times] := edges_of_isWalk hwalk
  have hlabel : label.cost = 0 + (cost : EReal) := by
    rw [hedges] at hreplay
    have hpaid := congrArg Arrival.cost hreplay
    exact hpaid.symm.trans (congrArg (0 + ·) (hcost _))
  rw [hend] at hlast
  refine ⟨path, _, _, found, ho, hd, hedges, (Option.some.inj hlast).symm, ?_⟩
  rw [htravel, hlabel, zero_add, sub_zero, add_zero, add_zero]

private theorem exists_path_shuttleAt : ∃ path o d,
    ((shuttlePlannerAt times).engine.run .empty (shuttlePlannerAt times).network
      (shuttlePlannerAt times).setting.costs (stopCandidate (westAt times))
      (stopCandidate (eastAt times)) shuttleTrip.person).1 = some path ∧
    (stopCandidate (westAt times)).get? path.first.id = some o ∧
    (stopCandidate (eastAt times)).get? path.last.id = some d ∧
    path.edges = [shuttleRideAt times] ∧ path.last = eastAt times := by
  have hfree : ∀ now, (shuttlePlannerAt times).setting.costs.disutility shuttleTrip.person
      (shuttleRideAt times) now = ((0 : ℝ) : EReal) :=
    fun now ↦ disutility_shuttleRideAt times _ now
  obtain ⟨path, o, d, found, ho, hd, hedges, hlast, -⟩ :=
    exists_path_of_disutility times le_rfl hfree
  exact ⟨path, o, d, found, ho, hd, hedges, hlast⟩

/-- The stops of a shuttle lie one kilometre apart. -/
theorem distance_shuttleAt :
    (westAt times).coord.distance (eastAt times).coord = ((1000 : ℝ) : EReal) := by
  have hsqrt : Real.sqrt ((0 - 1000) * (0 - 1000) + (0 - 0) * (0 - 0)) = 1000 := by
    rw [Real.sqrt_eq_iff_mul_self_eq] <;> norm_num
  rw [coord_westAt, coord_eastAt, Point.distance_coe, hsqrt]

private theorem prefersDirect_shuttleAt (pathCost : EReal) :
    (shuttlePlannerAt times).prefersDirect shuttleTrip pathCost ≠ true := by
  have hdirect : (shuttlePlannerAt times).setting.access.directDisutility shuttleTrip.person
      (westAt times).coord (eastAt times).coord = ((1000 : ℝ) : EReal) := by
    change -((westAt times).coord.distance (eastAt times).coord / 1) * -1 -
      (westAt times).coord.distance (eastAt times).coord * 1 * 0 = _
    rw [distance_shuttleAt]
    simp
  have htop : ((1000 : ℝ) : EReal) * ⊤ = ⊤ := EReal.coe_mul_top_of_pos (by norm_num)
  intro hcheaper
  have hless : (shuttlePlannerAt times).setting.access.directDisutility shuttleTrip.person
      (westAt times).coord (eastAt times).coord * ⊤ < pathCost := of_decide_eq_true hcheaper
  rw [hdirect, htop] at hless
  exact not_top_lt hless

/-- A planner for a shuttle takes the traveller from one stop to the other by shuttle. -/
theorem plan_shuttleAt :
    let s := (shuttlePlannerAt times).setting
    ((shuttlePlannerAt times).plan .empty shuttleTrip).1 =
      .ok (some (s.addEgress shuttleTrip
        (s.alight (s.addAccess shuttleTrip (.start shuttleTrip.departure) (westAt times))
          (Setting.shuttleBoardedAt times) (eastAt times)
          (s.rideDistance (westAt times) (eastAt times))) (eastAt times)).legs) := by
  obtain ⟨path, o, d, hpath, ho, hd, hedges, hlast⟩ := exists_path_shuttleAt times
  have hstart := candidatesAt_stop
    (List.mem_cons_self : westAt times ∈ [westAt times, eastAt times])
  have hfinish := candidatesAt_stop
    (List.mem_cons_of_mem (westAt times) (List.mem_singleton_self (eastAt times)))
  have hitinerary := Setting.itinerary_shuttleAt times (shuttlePlannerAt times).setting shuttleTrip
    path hedges hlast
  have hlegs := legsAlong_eq_ok.mpr
    ⟨o, d, ho, hd, (if_neg (prefersDirect_shuttleAt times _)).mpr hitinerary⟩
  exact plan_eq_ok_some.mpr ⟨_, _, path, hstart, hfinish, hpath, hlegs⟩

end

/-- The planner takes the traveller from one stop to the other by shuttle. -/
theorem plan_shuttle :
    let s := shuttlePlanner.setting
    (shuttlePlanner.plan .empty shuttleTrip).1 =
      .ok (some (s.addEgress shuttleTrip
        (s.alight (s.addAccess shuttleTrip (.start shuttleTrip.departure) west)
          Setting.shuttleBoarded east (s.rideDistance west east)) east).legs) :=
  plan_shuttleAt .morning

end DoorToDoor.Routing.Planner
