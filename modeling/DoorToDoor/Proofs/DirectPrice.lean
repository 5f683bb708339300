import DoorToDoor.Proofs.Decision
import DoorToDoor.Proofs.Failures

/-!
# What the direct journey is weighed at

A path is weighed against the price of the walk from the start of the journey to its end
(`weighed_of_plan`). The direct leg has this price whenever it goes on foot
(`AccessByDistance.legCost_leg`). A direct leg by another mode has a price of its own, which may be
lower than that of the journey with rides that is answered (`dearer_ride_onDemand`).
-/

namespace DoorToDoor

section

variable {α : Type} [Scalar α]

/-- An access leg on foot costs what the direct walk does. -/
theorem AccessByDistance.legCost_leg {m : AccessByDistance α} {p : Parameters α}
    (walkTime : m.walkTime = p.walkTime) (distance : m.distance = p.distance)
    {start finish : Point α} {time : α}
    (onFoot : (m.leg start finish time false).mode.isOnFoot = true) :
    Access.legCost p (m.leg start finish time false) = .ok (m.directDisutility start finish) := by
  have hmode : (m.modeFor (start.distance finish)).mode.isOnFoot = true := onFoot
  have htime : m.timeWith (m.modeFor (start.distance finish)) (start.distance finish) =
      start.distance finish / m.walkSpeed := if_pos (.inl hmode)
  rw [Access.legCost, if_pos onFoot, directDisutility, walkTime, distance, ← htime]
  rfl

private theorem Settings.walks_access (s : Settings α) :
    s.access.walkTime = s.parameters.walkTime ∧ s.access.distance = s.parameters.distance := by
  unfold access AccessByDistance.withModes
  split
  · exact ⟨rfl, rfl⟩
  · exact ⟨rfl, rfl⟩

/-- The walk from the start of a request to its end. -/
def Routing.Request.walk (r : Routing.Request α) (p : Parameters α) : Leg α :=
  (AccessByDistance.ofParameters p).leg r.start r.finish r.departure false

private theorem Settings.directDisutility_access (s : Settings α) (start finish : Point α) :
    s.access.directDisutility start finish =
      (AccessByDistance.ofParameters s.parameters).directDisutility start finish := by
  obtain ⟨hspeed, hdetour⟩ := s.pace_access
  obtain ⟨hwalkTime, hdistance⟩ := s.walks_access
  simp only [AccessByDistance.directDisutility, hspeed, hdetour, hwalkTime, hdistance]
  rfl

end

namespace Routing

private theorem legCost_walk (s : Settings EReal) (r : Request EReal) :
    Access.legCost s.parameters (r.walk s.parameters) =
      .ok (s.access.directDisutility r.start r.finish) := by
  rw [Settings.directDisutility_access]
  refine AccessByDistance.legCost_leg rfl rfl ?_
  change ((AccessByDistance.ofParameters s.parameters).modeFor _).mode.isOnFoot = true
  rw [AccessByDistance.modeFor_ofParameters]
  rfl

namespace Planner

/-- A planner with accepted settings and their access weighs a path against the walk from the start
of the journey to its end. A journey with a ride costs at most the price of this walk after the
factor; if the direct leg is preferred, or answered although the path has a ride, the price after
the factor is below the cost of the path. The direct leg has a price of its own, and this is that of
the walk whenever the leg goes on foot. -/
theorem weighed_of_plan {σ : Type} (p : Planner EReal σ) (s : Settings EReal)
    (valid : s.validate = .ok ()) (access : p.setting.access = s.access.model)
    (parameters : p.setting.parameters = s.parameters) (state : σ) (r : Request EReal)
    (legs : List (Leg EReal)) (found : (p.plan state r).1 = .ok (some legs)) :
    ∃ origins destinations path o d walk price,
      p.candidatesAt r r.start = .ok origins ∧ p.candidatesAt r r.finish = .ok destinations ∧
      (p.engine.run state p.network p.setting.costs origins destinations r.person).1 = some path ∧
      origins.get? path.first.id = some o ∧ destinations.get? path.last.id = some d ∧
      Access.legCost s.parameters (r.walk s.parameters) = .ok walk ∧
      Access.legCost s.parameters (p.setting.direct r) = .ok price ∧
      ((p.setting.direct r).mode.isOnFoot = true → price = walk) ∧
      let pathCost := path.travelCost + o.cost + d.cost
      let weight := walk * s.parameters.directFactor
      (HasRide legs → pathCost ≤ weight) ∧
        (p.prefersDirect r pathCost = true → legs = [p.setting.direct r] ∧ weight < pathCost) ∧
        (¬HasRide legs → ¬OnFoot path.edges →
          legs = [p.setting.direct r] ∧ weight < pathCost) := by
  have noRides : p.setting.access.NeverRides := by
    rw [access]
    exact fun _ _ _ _ _ ↦ rfl
  have hdirect : p.setting.direct r = s.access.leg r.start r.finish r.departure false := by
    rw [Setting.direct, access]
    rfl
  obtain ⟨price, hprice⟩ : ∃ price, Access.legCost s.parameters (p.setting.direct r) = .ok price :=
    exists_legCost (by
      rw [hdirect]
      exact AccessByDistance.prices_leg (Settings.prices_of_validate valid) ..)
  obtain ⟨origins, destinations, path, hstart, hfinish, hpath, hlegs⟩ := plan_eq_ok_some.mp found
  obtain ⟨o, d, ho, hd, hdecided⟩ := decided_of_legsAlong noRides hlegs
  have hweight : p.directCost r =
      s.access.directDisutility r.start r.finish * s.parameters.directFactor := by
    rw [directCost, access, parameters]
    rfl
  refine ⟨origins, destinations, path, o, d, _, price, hstart, hfinish, hpath, ho, hd,
    legCost_walk s r, hprice, fun onFoot ↦ ?_, ?_⟩
  · rw [hdirect] at onFoot hprice
    obtain ⟨hwalkTime, hdistance⟩ := s.walks_access
    exact Except.ok.inj
      (hprice.symm.trans (AccessByDistance.legCost_leg hwalkTime hdistance onFoot))
  · dsimp only
    rw [← hweight]
    refine ⟨hdecided.le_of_hasRide, fun prefers ↦ ?_, fun afoot rides ↦ ?_⟩
    · have cheaper : p.directCost r < path.travelCost + o.cost + d.cost := of_decide_eq_true prefers
      exact ⟨hdecided.direct (.inl cheaper), cheaper⟩
    · refine ⟨hdecided.direct_of_not_hasRide afoot, ?_⟩
      by_contra dearer
      exact afoot (hdecided.ridden (not_or.mpr ⟨dearer, rides⟩)).2

/-- The journey by shuttle has a ride and costs at most the price of the walk from its start to its
end, after the factor. -/
theorem weighed_of_plan_shuttle : ∃ legs,
    (shuttlePlanner.plan .empty shuttleTrip).1 = .ok (some legs) ∧ HasRide legs ∧
    ∃ (path : Path EReal) (o d : Candidate EReal) (walk : EReal),
      Access.legCost freeRides (shuttleTrip.walk freeRides) = .ok walk ∧
      path.travelCost + o.cost + d.cost ≤ walk * freeRides.directFactor := by
  obtain ⟨legs, hlegs, hride⟩ :
      ∃ legs, (shuttlePlanner.plan .empty shuttleTrip).1 = .ok (some legs) ∧ HasRide legs :=
    ⟨_, plan_shuttle, (Setting.hasRide_alight _ _ _ _).continues
      (Setting.continues_addEgress _ _ _ _)⟩
  obtain ⟨-, -, path, o, d, walk, -, -, -, -, -, -, hwalk, -, -, hle, -⟩ :=
    weighed_of_plan shuttlePlanner ⟨freeRides, [], []⟩ validate_freeRides rfl rfl .empty shuttleTrip
      legs hlegs
  exact ⟨legs, hlegs, hride, path, o, d, walk, hwalk, hle hride⟩

open Network (eastAt shuttleRideAt westAt)

/-- Settings by which only distances on foot and by the timetable cost anything, for travellers who
go to and from stops on demand. -/
noncomputable def onDemand : Settings EReal where
  parameters :=
    { freeRides with distance := -1, directFactor := 1, modeUtilities := [⟨.onDemand, 0, 0⟩] }
  accessModes := [⟨.onDemand, .upTo ⊤, (10 : ℕ), true⟩]
  discouraged := []

private theorem validate_onDemand : onDemand.validate = .ok () := by
  have hone : Scalar.isFinite (1 : EReal) = true := Scalar.isFinite_coe 1
  refine Settings.validate_eq_ok.mpr ⟨?_, ?_, ?_, ?_, ?_⟩
  · simp [Settings.positives, Settings.positiveFault_eq_none, onDemand, freeRides, hone]
  · simp [Settings.nonNegatives, Settings.nonNegativeFault_eq_none, onDemand, freeRides]
  · simp [Settings.utilities, Settings.utilityFault_eq_none, onDemand, freeRides]
  · simp [Settings.modeUtilityFault_eq_none, onDemand]
  · simp [Settings.accessModeFault, Parameters.utilityOf?, onDemand]

private theorem modeFor_onDemand (straight : EReal) :
    onDemand.access.modeFor straight = ⟨.onDemand, .upTo ⊤, 10, true⟩ := by
  simp [Settings.access, onDemand, AccessByDistance.withModes, AccessByDistance.byLimit,
    AccessByDistance.discourageAll, AccessByDistance.modeFor, Limit.covers]

private theorem legCost_onDemand {leg : Leg EReal} (h : leg.mode = .onDemand) :
    Access.legCost onDemand.parameters leg = .ok 0 := by
  rw [Access.legCost, h]
  change Except.ok (-leg.travelTime * 0 - leg.distance * 0) = _
  simp

/-- A planner for the shuttle whose travellers go to and from the stops on demand. -/
noncomputable def onDemandPlanner : Planner EReal (Labels EReal) :=
  ofTimetable (.shuttleAt .morning) 0 onDemand.access.model onDemand.parameters false

private theorem candidatesAt_onDemandPlanner {stop : Node EReal}
    (h : stop ∈ [westAt .morning, eastAt .morning]) :
    onDemandPlanner.candidatesAt shuttleTrip stop.coord = .ok (stopCandidate stop) :=
  candidates_stopAt rfl rfl
    (fun _ _ ↦ legCost_onDemand (congrArg AccessMode.mode (modeFor_onDemand 0))) h

private theorem disutility_onDemandPlanner (now : EReal) :
    onDemandPlanner.setting.costs.disutility shuttleTrip.person (shuttleRideAt .morning) now =
      ((1000 : ℝ) : EReal) := by
  change -Cost.wait _ (shuttleRideAt .morning) now * 0 - Cost.inVehicle _ * 0 +
    -(westAt .morning).coord.distance (eastAt .morning).coord * -1 = _
  rw [distance_shuttleAt]
  simp

private theorem directCost_onDemandPlanner :
    onDemandPlanner.directCost shuttleTrip = ((2000 : ℝ) : EReal) := by
  have hdirect : onDemand.access.directDisutility (westAt .morning).coord
      (eastAt .morning).coord = ((2000 : ℝ) : EReal) := by
    rw [Settings.directDisutility_access]
    change -((westAt .morning).coord.distance (eastAt .morning).coord / 1) * -1 -
      (westAt .morning).coord.distance (eastAt .morning).coord * 1 * -1 = _
    rw [distance_shuttleAt]
    simp only [div_one, mul_one, mul_neg, neg_neg, sub_eq_add_neg, ← EReal.coe_add]
    norm_num
  change onDemand.access.directDisutility (westAt .morning).coord (eastAt .morning).coord * 1 = _
  rw [hdirect, mul_one]

/-- Accepted settings may let a planner answer with a journey by shuttle that costs something,
weighed against a walk that costs twice as much, although the direct leg that would have been
answered costs nothing. -/
theorem dearer_ride_onDemand :
    onDemand.validate = .ok () ∧ ∃ legs origins destinations path o d price,
      (onDemandPlanner.plan .empty shuttleTrip).1 = .ok (some legs) ∧ HasRide legs ∧
      onDemandPlanner.candidatesAt shuttleTrip shuttleTrip.start = .ok origins ∧
      onDemandPlanner.candidatesAt shuttleTrip shuttleTrip.finish = .ok destinations ∧
      (onDemandPlanner.engine.run .empty onDemandPlanner.network onDemandPlanner.setting.costs
        origins destinations shuttleTrip.person).1 = some path ∧
      origins.get? path.first.id = some o ∧ destinations.get? path.last.id = some d ∧
      Access.legCost onDemand.parameters (onDemandPlanner.setting.direct shuttleTrip) =
        .ok price ∧
      ¬path.travelCost + o.cost + d.cost ≤ price * onDemand.parameters.directFactor := by
  have hstart := candidatesAt_onDemandPlanner List.mem_cons_self
  have hfinish := candidatesAt_onDemandPlanner
    (List.mem_cons_of_mem _ (List.mem_singleton_self _))
  obtain ⟨path, o, d, hpath, ho, hd, hedges, -, htotal⟩ := exists_path_of_disutility .morning
    (by norm_num : (0 : ℝ) ≤ 1000) disutility_onDemandPlanner
  obtain ⟨legs, hlegs⟩ :
      ∃ legs, onDemandPlanner.legsAlong shuttleTrip _ _ path = .ok legs :=
    exists_legsAlong .empty (within_of_candidatesAt hstart) hpath
  obtain ⟨o', d', ho', hd', hdecided⟩ :=
    decided_of_legsAlong (p := onDemandPlanner) (fun _ _ _ _ _ ↦ rfl) hlegs
  cases ho.symm.trans ho'
  cases hd.symm.trans hd'
  have hridden : ¬(onDemandPlanner.directCost shuttleTrip < path.travelCost + o.cost + d.cost ∨
      OnFoot path.edges) := by
    rw [htotal, hedges, directCost_onDemandPlanner, not_or, not_lt, EReal.coe_le_coe_iff]
    exact ⟨by norm_num, fun onFoot ↦ nomatch onFoot _ (List.mem_singleton_self _)⟩
  refine ⟨validate_onDemand, legs, _, _, path, o, d, 0, ?_, (hdecided.ridden hridden).2, hstart,
    hfinish, hpath, ho, hd, ?_, ?_⟩
  · exact plan_eq_ok_some.mpr ⟨_, _, path, hstart, hfinish, hpath, hlegs⟩
  · exact legCost_onDemand (congrArg AccessMode.mode (modeFor_onDemand _))
  · rw [htotal, zero_mul, not_le]
    exact EReal.coe_pos.mpr (by norm_num)

end Planner

end Routing

end DoorToDoor
