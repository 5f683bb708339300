import DoorToDoor.Proofs.Planning

/-!
# Direct journeys and journeys with rides

The direct leg is chosen in two places: when it is cheaper than the path that was found, and at the
end of an itinerary in which nothing was boarded. A traveller stands at the start for as long as
the path leads along transfers (`Move.atStart_iff`), and each ride that has been boarded becomes a
leg, so the second choice is that of a path without rides: `onFoot_or_hasRide`. What a planner
answers is decided by the engine's path and by the two costs, whatever the engine:
`decided_of_plan`.
-/

namespace DoorToDoor

/-- Whether no leg of the access model is a ride. -/
def AccessModel.NeverRides {α : Type} (access : AccessModel α) : Prop :=
  ∀ person start finish time surcharged,
    (access.leg person start finish time surcharged).isRide = false

namespace Routing

section

variable {α : Type} [Scalar α] {s : Setting α} {r : Request α}

/-- Whether edges are transfers only. -/
def OnFoot (edges : List (Edge α)) : Prop := ∀ e ∈ edges, e.kind = .transfer

/-- Whether there is a ride among the legs. -/
def HasRide (legs : List (Leg α)) : Prop := ∃ leg ∈ legs, leg.isRide = true

/-- A ride stays in a journey that goes on. -/
theorem HasRide.continues {t t' : Trip α} (h : HasRide t.legs) (more : t.Continues t') :
    HasRide t'.legs := by
  obtain ⟨leg, hleg, hride⟩ := h
  exact ⟨leg, more.isPrefix.subset hleg, hride⟩

namespace Setting

/-- Ending a ride adds one. -/
theorem hasRide_alight (t : Trip α) (ride : Boarded α) (alighting : Node α) (distance : α) :
    HasRide (s.alight t ride alighting distance).legs :=
  ⟨_, List.mem_append_right _ (List.mem_singleton_self _), rfl⟩

/-- A traveller stands at the start after a move if they stood there before it and the edge is a
transfer. -/
theorem Move.atStart_iff {x y : Trip α × Stage α} {e : Edge α} (h : s.Move r x e y) :
    y.2 = .atStart ↔ x.2 = .atStart ∧ e.kind = .transfer := by
  cases h with
  | walkOn kind => exact ⟨fun same ↦ ⟨same, kind⟩, And.left⟩
  | alight => exact ⟨nofun, fun h ↦ nomatch h.1⟩
  | depart kind => exact ⟨nofun, fun h ↦ nomatch kind.symm.trans h.2⟩
  | change kind => exact ⟨nofun, fun h ↦ nomatch h.1⟩
  | stayOn kind => exact ⟨nofun, fun h ↦ nomatch h.1⟩
  | switch kind => exact ⟨nofun, fun h ↦ nomatch h.1⟩

/-- A journey in the making and the edges that are left of its path: the traveller stands at the
start if all edges so far were transfers, and has a ride behind them after alighting. -/
structure Boards (edges : List (Edge α)) (rest : List (Edge α)) (x : Trip α × Stage α) : Prop where
  onFoot : OnFoot edges ↔ x.2 = .atStart ∧ OnFoot rest
  hasRide : ∀ node, x.2 = .alighted node → HasRide x.1.legs

/-- Every move keeps track of what has been boarded. -/
theorem Boards.move {edges rest : List (Edge α)} {x y : Trip α × Stage α} {e : Edge α}
    (h : Boards edges (e :: rest) x) (hmove : s.Move r x e y) : Boards edges rest y where
  onFoot := by
    rw [h.onFoot, hmove.atStart_iff, OnFoot, List.forall_mem_cons, and_assoc]
    rfl
  hasRide := by
    cases hmove with
    | walkOn => exact h.hasRide
    | alight => exact fun _ _ ↦ hasRide_alight _ _ _ _
    | depart => exact nofun
    | change => exact nofun
    | stayOn => exact nofun
    | switch => exact nofun

/-- An itinerary along transfers is the direct leg, and along any other path it has a ride. -/
theorem onFoot_or_hasRide {path : Path α} {legs : List (Leg α)}
    (h : s.itinerary r path = .ok legs) :
    OnFoot path.edges ∧ legs = [s.direct r] ∨ ¬OnFoot path.edges ∧ HasRide legs := by
  obtain ⟨x, hboards, hending⟩ := exists_ending (P := Boards path.edges) h
    ⟨⟨fun onFoot ↦ ⟨rfl, onFoot⟩, And.right⟩, nofun⟩ fun _ _ _ _ hx hmove ↦ hx.move hmove
  cases hending with
  | direct => exact .inl ⟨hboards.onFoot.mpr ⟨rfl, nofun⟩, rfl⟩
  | @alighted t node =>
    refine .inr ⟨fun onFoot ↦ (nomatch (hboards.onFoot.mp onFoot).1), ?_⟩
    exact (hboards.hasRide node rfl).continues (s.continues_addEgress r t node)
  | riding =>
    refine .inr ⟨fun onFoot ↦ (nomatch (hboards.onFoot.mp onFoot).1), ?_⟩
    exact (hasRide_alight _ _ _ _).continues (s.continues_addEgress r _ path.last)

end Setting

end

namespace Planner

variable {σ : Type} {p : Planner EReal σ} {r : Request EReal}

/-- What the direct journey counts for against a path. -/
noncomputable def directCost (p : Planner EReal σ) (r : Request EReal) : EReal :=
  p.setting.access.directDisutility r.person r.start r.finish * p.setting.parameters.directFactor

/-- Whether legs are those that a path of the given cost, with its candidates, decides on. -/
structure Decided (p : Planner EReal σ) (r : Request EReal) (path : Path EReal) (pathCost : EReal)
    (legs : List (Leg EReal)) : Prop where
  /-- The direct leg is taken if it is cheaper or if nothing is ridden on the path. -/
  direct : p.directCost r < pathCost ∨ OnFoot path.edges →
    legs = [p.setting.access.leg r.person r.start r.finish r.departure false]
  /-- In all other cases the legs are the itinerary along the path, and this has a ride. -/
  ridden : ¬(p.directCost r < pathCost ∨ OnFoot path.edges) →
    p.setting.itinerary r path = .ok legs ∧ HasRide legs
  /-- Legs without a ride are the direct leg. -/
  direct_of_not_hasRide : ¬HasRide legs →
    legs = [p.setting.access.leg r.person r.start r.finish r.departure false]
  /-- Legs with a ride do not cost more than the direct journey. -/
  le_of_hasRide : HasRide legs → pathCost ≤ p.directCost r

private theorem not_hasRide_direct (noRides : p.setting.access.NeverRides) (r : Request EReal) :
    ¬HasRide [p.setting.direct r] := by
  rintro ⟨leg, hleg, hride⟩
  rw [List.mem_singleton.mp hleg, Setting.direct, noRides] at hride
  cases hride

/-- Legs along a path are those that it decides on. -/
theorem decided_of_legsAlong (noRides : p.setting.access.NeverRides)
    {origins destinations : CandidateSet EReal} {path : Path EReal} {legs : List (Leg EReal)}
    (h : p.legsAlong r origins destinations path = .ok legs) :
    ∃ o d, origins.get? path.first.id = some o ∧ destinations.get? path.last.id = some d ∧
      p.Decided r path (path.travelCost + o.cost + d.cost) legs := by
  obtain ⟨o, d, ho, hd, hlegs⟩ := legsAlong_eq_ok.mp h
  refine ⟨o, d, ho, hd, ?_⟩
  have hprefers : p.prefersDirect r (path.travelCost + o.cost + d.cost) = true ↔
      p.directCost r < path.travelCost + o.cost + d.cost := decide_eq_true_iff
  have hnone := not_hasRide_direct noRides r
  split at hlegs
  · next prefers =>
    have cheaper := hprefers.mp prefers
    subst hlegs
    exact ⟨fun _ ↦ rfl, fun dearer ↦ absurd (.inl cheaper) dearer, fun _ ↦ rfl,
      fun hride ↦ absurd hride hnone⟩
  · next prefers =>
    have dearer := mt hprefers.mpr prefers
    rcases Setting.onFoot_or_hasRide hlegs with ⟨onFoot, rfl⟩ | ⟨rides, hride⟩
    · exact ⟨fun _ ↦ rfl, fun h ↦ absurd (.inr onFoot) h, fun _ ↦ rfl,
        fun hride ↦ absurd hride hnone⟩
    · have hneither : ¬(p.directCost r < path.travelCost + o.cost + d.cost ∨ OnFoot path.edges) :=
        not_or.mpr ⟨dearer, rides⟩
      exact ⟨fun h ↦ absurd h hneither, fun _ ↦ ⟨hlegs, hride⟩, fun h ↦ absurd hride h,
        fun _ ↦ not_lt.mp dearer⟩

/-- A planner that answers a request has candidates around both ends of the journey. It answers
with nothing exactly when its engine finds no path between them. When the engine finds one, the
answer is what the cost of this path decides on, together with the costs of the candidates at its
first and at its last node. -/
theorem decided_of_plan (p : Planner EReal σ) (noRides : p.setting.access.NeverRides) (state : σ)
    (r : Request EReal) (legs? : Option (List (Leg EReal)))
    (answered : (p.plan state r).1 = .ok legs?) :
    ∃ origins destinations, p.candidatesAt r r.start = .ok origins ∧
      p.candidatesAt r r.finish = .ok destinations ∧
      let path? :=
        (p.engine.run state p.network p.setting.costs origins destinations r.person).1
      (legs? = none ↔ path? = none) ∧
        ∀ path, path? = some path → ∃ legs o d, legs? = some legs ∧
          origins.get? path.first.id = some o ∧ destinations.get? path.last.id = some d ∧
          p.Decided r path (path.travelCost + o.cost + d.cost) legs := by
  rw [plan_fst] at answered
  obtain ⟨origins, hstart, answered⟩ := Result.bind_eq_ok.mp answered
  obtain ⟨destinations, hfinish, answered⟩ := Result.bind_eq_ok.mp answered
  refine ⟨origins, destinations, hstart, hfinish, ?_⟩
  dsimp only
  cases hpath : (p.engine.run state p.network p.setting.costs origins destinations r.person).1 with
  | none =>
    rw [hpath] at answered
    cases answered
    exact ⟨iff_of_true rfl rfl, nofun⟩
  | some path =>
    rw [hpath] at answered
    obtain ⟨legs, hlegs, rfl⟩ := Result.map_eq_ok.mp answered
    refine ⟨⟨nofun, nofun⟩, ?_⟩
    rintro _ ⟨⟩
    obtain ⟨o, d, ho, hd, hdecided⟩ := decided_of_legsAlong noRides hlegs
    exact ⟨legs, o, d, rfl, ho, hd, hdecided⟩

/-- The journey by shuttle has a ride and costs no more than the direct journey. -/
theorem decided_of_plan_shuttle :
    shuttlePlanner.setting.access.NeverRides ∧ ∃ legs,
      (shuttlePlanner.plan .empty shuttleTrip).1 = .ok (some legs) ∧ HasRide legs ∧
        ∃ path pathCost, shuttlePlanner.Decided shuttleTrip path pathCost legs ∧
          pathCost ≤ shuttlePlanner.directCost shuttleTrip := by
  have noRides : shuttlePlanner.setting.access.NeverRides := fun _ _ _ _ _ ↦ rfl
  have hride := (Setting.hasRide_alight (s := shuttlePlanner.setting) _ _ _ _).continues
    (shuttlePlanner.setting.continues_addEgress shuttleTrip
      (shuttlePlanner.setting.alight (shuttlePlanner.setting.addAccess shuttleTrip
        (.start shuttleTrip.departure) Network.west) Setting.shuttleBoarded Network.east
        (shuttlePlanner.setting.rideDistance Network.west Network.east)) Network.east)
  refine ⟨noRides, _, plan_shuttle, hride, ?_⟩
  obtain ⟨origins, destinations, -, -, hnone, hpath⟩ :=
    decided_of_plan shuttlePlanner noRides .empty shuttleTrip _ plan_shuttle
  obtain ⟨path, found⟩ := Option.ne_none_iff_exists'.mp fun h ↦ nomatch hnone.mpr h
  obtain ⟨_, o, d, ⟨⟩, -, -, hdecided⟩ := hpath path found
  exact ⟨path, _, hdecided, hdecided.le_of_hasRide hride⟩

end Planner

end Routing

end DoorToDoor
