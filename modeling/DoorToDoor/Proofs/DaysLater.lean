import DoorToDoor.Proofs.Candidates
import DoorToDoor.Proofs.Itinerary.Later
import DoorToDoor.Proofs.Search.Later

/-!
# Requests some days later

A timetable repeats every day, and so do the answers of a planner. When a request departs late
enough for the vehicles of the first day, its answer some days later is the same with all legs as
many days later (`Planner.plan_days_later`): the candidates are the same, the search goes through
the same states, and so do the moves along the path that it finds.
-/

namespace DoorToDoor

namespace Cost

variable {t : Timetable EReal} (wf : t.WellFormed) (finite : t.IsFinite) {reach : EReal}
  {e : Edge EReal} (he : e ∈ (Network.ofTimetable t reach).edges) {now : EReal}
  (late : t.IsLate now) (n : ℕ)

include wf finite he late

private theorem wait_days_later {line : LineId} {route : RouteId}
    (kind : e.kind = .ride line route) :
    wait (Departures.ofTimetable t).lookup e (now + Clock.days n) =
      wait (Departures.ofTimetable t).lookup e now := by
  have hnext := Departures.next_sub_add_days wf finite (Network.mem_nodes_of_mem_edges he).1
    (Network.canDepart_of_ride wf he kind) late n 0
  rwa [add_zero, add_zero] at hnext

private theorem travelTime_days_later (p : Parameters EReal) :
    travelTime (Departures.ofTimetable t).lookup p e (now + Clock.days n) =
      travelTime (Departures.ofTimetable t).lookup p e now := by
  unfold travelTime
  cases kind : e.kind with
  | ride line route => exact congrArg (· + inVehicle e) (wait_days_later wf finite he late n kind)
  | transfer => rfl

private theorem disutility_days_later (p : Parameters EReal) :
    disutility (Departures.ofTimetable t).lookup p e (now + Clock.days n) =
      disutility (Departures.ofTimetable t).lookup p e now := by
  unfold disutility
  cases kind : e.kind with
  | ride line route =>
    dsimp only
    rw [wait_days_later wf finite he late n kind]
  | transfer => rfl

end Cost

namespace LeastCost

/-- By the timetable, edges that are entered at late times repeat after any number of days. -/
theorem repeats_byTimetable {t : Timetable EReal} (wf : t.WellFormed) (finite : t.IsFinite)
    (ordered : t.Ordered) (reach : EReal) {p : Parameters EReal}
    (valid : Settings.validate ⟨p, [], []⟩ = .ok ()) (person : Person)
    (destinations : CandidateSet EReal) (n : ℕ) :
    Task.Repeats ⟨Network.ofTimetable t reach,
      Cost.byTimetable (Departures.ofTimetable t).lookup p, person, destinations⟩
      (Clock.days n) t.IsLate where
  charge _ he _ late := Cost.disutility_days_later wf finite he late n p
  travelTime _ he _ late := Cost.travelTime_days_later wf finite he late n p
  runs _ he _ late := late.add fun hnow ↦
    Cost.travelTime_nonneg_of_inVehicle wf finite he valid
      (fun _ _ kind ↦ Cost.inVehicle_nonneg wf finite he ordered kind) hnow

end LeastCost

namespace Routing

section

variable {network : Network EReal} {person : Person} {point : Point EReal} {time : EReal}
  {surcharged : Bool} {set : CandidateSet EReal}

/-- The candidates for a later time are the same, later. -/
theorem exists_candidates_later {access : AccessModel EReal} (steady : access.Steady)
    {p : Parameters EReal} (h : candidates network access p person point time surcharged = .ok set)
    (span : EReal) : ∃ set',
      candidates network access p person point (time + span) surcharged = .ok set' ∧
        set.Later span set' := by
  obtain ⟨nodes, hnodes, hset⟩ := Result.bind_eq_ok.mp h
  obtain ⟨set', hset', hlater⟩ := Result.exists_foldlM_of_step
    (g := addCandidate access p person point (time + span) surcharged)
    (R := fun _ set set' ↦ CandidateSet.Later span set set')
    (by
      intro node rest set set' _ hlater hadd
      obtain ⟨_, hprice, rfl⟩ := Result.map_eq_ok.mp hadd
      obtain ⟨cost, hcost, rfl⟩ := Result.map_eq_ok.mp hprice
      have hleg := steady person point node.coord time (time + span) surcharged
      have hcost' : Access.legCost p
          (access.leg person point node.coord (time + span) surcharged) = .ok cost := by
        rw [hleg]
        exact hcost
      refine ⟨_, Result.map_eq_ok.mpr ⟨_, Result.map_eq_ok.mpr ⟨cost, hcost', rfl⟩, rfl⟩, ?_⟩
      dsimp only
      rw [hleg, add_right_comm]
      exact hlater.insert ⟨node.id, cost, _⟩)
    nodes .empty hset
  exact ⟨set', Result.bind_eq_ok.mpr ⟨nodes, hnodes, hset'⟩, hlater⟩

private theorem isLate_of_candidates {s : Settings EReal} (valid : s.validate = .ok ())
    (surcharges : ∀ d ∈ s.discouraged, 0 ≤ d.surcharge)
    (h : candidates network s.access.model s.parameters person point time surcharged = .ok set)
    {t : Timetable EReal} (late : t.IsLate time) {c : Candidate EReal} (hc : c ∈ set.toList) :
    t.IsLate c.time := by
  obtain ⟨node, -, -, htime, -⟩ := exists_node_of_candidates h hc
  rw [htime]
  refine late.add fun _ ↦ Settings.travelTime_leg_nonneg valid point time fun _ ↦ ?_
  exact AccessByDistance.surchargeAt_nonneg (by rwa [Settings.discouraged_access]) node.coord

end

namespace Planner

variable {t : Timetable EReal} {reach : EReal} {access : AccessModel EReal}
  {p : Parameters EReal} {surcharged : Bool} {r : Request EReal}

/-- The legs along a path between later candidates are later. -/
theorem legsAlong_later (steady : access.Steady) {span : EReal}
    {origins origins' destinations destinations' : CandidateSet EReal}
    (origins_later : origins.Later span origins')
    (destinations_later : destinations.Later span destinations') {path : Path EReal}
    (itinerary_later : ∀ legs, (ofTimetable t reach access p surcharged).setting.itinerary r path =
      .ok legs → (ofTimetable t reach access p surcharged).setting.itinerary (r.later span) path =
        .ok (legs.map (Leg.later span)))
    {legs : List (Leg EReal)}
    (h : (ofTimetable t reach access p surcharged).legsAlong r origins destinations path =
      .ok legs) :
    (ofTimetable t reach access p surcharged).legsAlong (r.later span) origins' destinations' path =
      .ok (legs.map (Leg.later span)) := by
  obtain ⟨o, d, ho, hd, hlegs⟩ := legsAlong_eq_ok.mp h
  refine legsAlong_eq_ok.mpr ⟨o.later span, d.later span, ?_, ?_, ?_⟩
  · rw [origins_later.get?_eq, ho, Option.map_some]
  · rw [destinations_later.get?_eq, hd, Option.map_some]
  · change if (ofTimetable t reach access p surcharged).prefersDirect r
        (path.travelCost + o.cost + d.cost) = true then _ else _
    split at hlegs
    · next direct =>
      subst hlegs
      rw [if_pos direct, Setting.direct_later steady, List.map_singleton]
    · next along =>
      rw [if_neg along]
      exact itinerary_later legs hlegs

/-- When the engine finds the same path between the later candidates, and the legs along this path
are later, so is the answer. -/
theorem plan_later {σ : Type} {p : Planner EReal σ} {state state' : σ} {span : EReal}
    {origins origins' destinations destinations' : CandidateSet EReal}
    (start : p.candidatesAt r r.start = .ok origins)
    (finish : p.candidatesAt r r.finish = .ok destinations)
    (start_later : p.candidatesAt (r.later span) (r.later span).start = .ok origins')
    (finish_later : p.candidatesAt (r.later span) (r.later span).finish = .ok destinations')
    (path_eq : (p.engine.run state' p.network p.setting.costs origins' destinations'
      (r.later span).person).1 =
        (p.engine.run state p.network p.setting.costs origins destinations r.person).1)
    (along : ∀ path,
      (p.engine.run state p.network p.setting.costs origins destinations r.person).1 = some path →
        ∃ legs, p.legsAlong r origins destinations path = .ok legs ∧
          p.legsAlong (r.later span) origins' destinations' path =
            .ok (legs.map (Leg.later span))) :
    (p.plan state' (r.later span)).1 =
      (p.plan state r).1.map (Option.map (List.map (Leg.later span))) := by
  rw [plan_fst_of_candidates start finish, plan_fst_of_candidates start_later finish_later, path_eq]
  cases found : (p.engine.run state p.network p.setting.costs origins destinations r.person).1 with
  | none => rfl
  | some path =>
    obtain ⟨legs, hlegs, hlater⟩ := along path found
    dsimp only
    rw [hlegs, hlater]
    rfl

/-- A planner answers a request some days later as it answers the request, with the same error, with
nothing, or with the same legs as many days later, if the timetable is in order, the settings are
accepted, no surcharge is negative, and the request departs late enough for the vehicles of the
first day to leave all calls. -/
theorem plan_days_later (t : Timetable EReal) (built : t.Built) (finite : t.IsFinite)
    (ordered : t.Ordered) (reach : EReal) (s : Settings EReal) (valid : s.validate = .ok ())
    (surcharges : ∀ d ∈ s.discouraged, 0 ≤ d.surcharge) (surcharged : Bool)
    (labels labels' : Labels EReal) (r : Request EReal) (late : t.IsLate r.departure) (n : ℕ) :
    let planner := ofTimetable t reach s.access.model s.parameters surcharged
    (planner.plan labels' (r.later (Clock.days n))).1 =
      (planner.plan labels r).1.map (Option.map (List.map (Leg.later (Clock.days n)))) := by
  intro planner
  have wf := built.wellFormed
  have valid' := Settings.validate_parameters valid
  have steady : s.access.model.Steady := s.access.steady_model
  cases empty : (Network.ofTimetable t reach).isEmpty with
  | true =>
    have hanswer (labels : Labels EReal) (r : Request EReal) :
        (planner.plan labels r).1 = .error .emptyNetwork := plan_of_isEmpty empty labels
    rw [hanswer, hanswer]
    rfl
  | false =>
    obtain ⟨origins, horigins⟩ :=
      exists_candidates_of_validate valid empty r.person r.start r.departure surcharged
    obtain ⟨destinations, hdestinations⟩ :=
      exists_candidates_of_validate valid empty r.person r.finish r.departure surcharged
    obtain ⟨origins', horigins', origins_later⟩ :=
      exists_candidates_later steady horigins (Clock.days n)
    obtain ⟨destinations', hdestinations', destinations_later⟩ :=
      exists_candidates_later steady hdestinations (Clock.days n)
    have hpath : (planner.engine.run labels' planner.network planner.setting.costs origins'
        destinations' (r.later (Clock.days n)).person).1 =
          (planner.engine.run labels planner.network planner.setting.costs origins destinations
            r.person).1 :=
      LeastCost.searchWith_later
        (LeastCost.repeats_byTimetable wf finite ordered reach valid' r.person destinations n)
        (Clock.isFinite_days n) origins_later destinations_later
        (fun _ ↦ isLate_of_candidates valid surcharges horigins late)
        LeastCost.stopAtBest labels labels'
    refine plan_later horigins hdestinations horigins' hdestinations' hpath fun path found ↦ ?_
    obtain ⟨legs, hlegs⟩ := exists_legsAlong labels (within_of_candidatesAt horigins) found
    obtain ⟨walk, -, -⟩ :=
      LeastCost.isWalk_of_searchWith (Network.wellFormed_ofTimetable t reach) found
    have ways := waysTake_nonneg_of_validate valid' s.pace_access.1 s.pace_access.2
      (Departures.ofTimetable t).lookup
    refine ⟨legs, hlegs, ?_⟩
    exact legsAlong_later steady origins_later destinations_later
      (fun _ h ↦ Setting.itinerary_days_later wf finite ordered steady ways rfl late walk h n) hlegs

/-- On the next day the shuttle is taken a day later. -/
theorem plan_days_later_shuttle : ∃ legs,
    (Timetable.shuttle : Timetable EReal).IsLate shuttleTrip.departure ∧
      (shuttlePlanner.plan .empty shuttleTrip).1 = .ok (some legs) ∧
      (∃ leg ∈ legs, ∃ ride, leg.course = .ride ride) ∧
      (shuttlePlanner.plan .empty (shuttleTrip.later (Clock.days 1))).1 =
        .ok (some (legs.map (Leg.later (Clock.days 1)))) := by
  have late : (Timetable.shuttle : Timetable EReal).IsLate shuttleTrip.departure :=
    .shuttle (EReal.coe_nonneg.mpr (Nat.cast_nonneg _))
  refine ⟨_, late, plan_shuttle, ⟨_, (Setting.continues_addEgress _ _ _ _).mem_legs, _, rfl⟩, ?_⟩
  refine (plan_days_later .shuttle Timetable.built_shuttle Timetable.isFinite_shuttle
    Timetable.ordered_shuttle 0 ⟨freeRides, [], []⟩ validate_freeRides
    (fun _ hd ↦ absurd hd List.not_mem_nil) false .empty .empty shuttleTrip late 1).trans ?_
  exact congrArg (Except.map _) plan_shuttle

end Planner

end Routing

end DoorToDoor
