import DoorToDoor.Proofs.Failures

/-!
# What candidates cost

The search may stop early because no candidate costs less than nothing. With accepted settings this
depends on the discouraged stops alone, for nothing is asked of their surcharges: the candidates
around every point cost at least nothing, and no leg to them ends before it departs, if and only if
surcharges are left out or sum up to at least nothing at each node (`candidates_nonneg_iff`). A
surcharge below zero makes a candidate cost less than nothing (`negative_candidate`).
-/

namespace DoorToDoor

namespace Routing

variable {n : Network EReal} {node : Node EReal}

private theorem mem_nodesAround_self {p : Parameters EReal} (search : 0 ≤ p.searchRadius)
    (extension : 0 ≤ p.extensionRadius) (place : node.coord.IsFinite) (h : node ∈ n.nodes)
    {nodes : List (Node EReal)} (around : nodesAround n p node.coord = .ok nodes) :
    node ∈ nodes := by
  have hwithin {radius : EReal} (hradius : 0 ≤ radius) : node ∈ n.within node.coord radius := by
    obtain ⟨x, y, hplace⟩ := place.exists_coe
    have hself : node.coord.squareTo node.coord ≤ radius * radius := by
      rw [hplace, Point.squareTo_coe, sub_self, sub_self, mul_zero, add_zero, EReal.coe_zero]
      exact mul_nonneg hradius hradius
    exact Network.mem_within_iff.mpr ⟨h, hself⟩
  unfold nodesAround at around
  dsimp only at around
  split at around
  · cases around
    exact hwithin search
  · obtain ⟨nearest, -, rfl⟩ := Result.map_eq_ok.mp around
    exact hwithin (add_nonneg (nearest.coord.distance_nonneg node.coord) extension)

/-- With accepted settings each point has candidates in a network with nodes. -/
theorem exists_candidates_of_validate {s : Settings EReal} (valid : s.validate = .ok ())
    (ne : n.isEmpty = false) (person : Person) (point : Point EReal) (time : EReal)
    (surcharged : Bool) : ∃ set,
      candidates n s.access.model s.parameters person point time surcharged = .ok set := by
  obtain ⟨nodes, hnodes⟩ := exists_nodesAround ne s.parameters point
  obtain ⟨set, hset⟩ := exists_candidates nodes .empty
    (unpriced?_legModes_of_validate valid person point time surcharged nodes)
  exact ⟨set, Result.bind_eq_ok.mpr ⟨nodes, hnodes, hset⟩⟩

private theorem exists_candidate_self {t : Timetable EReal} {reach : EReal} {s : Settings EReal}
    (valid : s.validate = .ok ()) (place : node.coord.IsFinite)
    (hnode : node ∈ (Network.ofTimetable t reach).nodes) {person : Person} {time : EReal}
    {surcharged : Bool} {set : CandidateSet EReal}
    (h : candidates (Network.ofTimetable t reach) s.access.model s.parameters person node.coord time
      surcharged = .ok set) :
    ∃ c ∈ set.toList,
      c.time = time + (s.access.leg node.coord node.coord time surcharged).travelTime ∧
      Access.legCost s.parameters (s.access.leg node.coord node.coord time surcharged) =
        .ok c.cost := by
  obtain ⟨hsearch, hextension⟩ := Settings.radii_pos_of_validate valid
  rw [Scalar.zero_exact] at hsearch hextension
  obtain ⟨nodes, hnodes, hadded⟩ := Result.bind_eq_ok.mp h
  obtain ⟨c, hc⟩ := exists_get?_of_candidates hadded
    (mem_nodesAround_self hsearch.le hextension.le place hnode hnodes)
  obtain ⟨hmem, hid⟩ := (set.get?_eq_some_iff node.id c).mp hc
  obtain ⟨node', hnode', hid', hleg⟩ := exists_node_of_candidates h hmem
  obtain rfl : node' = node := Network.eq_of_mem_nodes hnode' hnode (hid'.trans hid)
  exact ⟨c, hmem, hleg⟩

/-- With accepted settings candidates cost at least nothing, and the legs to them take no negative
time, unless a surcharge at their nodes is below zero. -/
theorem nonneg_of_candidates {s : Settings EReal} (valid : s.validate = .ok ()) {person : Person}
    {point : Point EReal} {time : EReal} {surcharged : Bool}
    (surcharge : surcharged = true → ∀ node ∈ n.nodes, 0 ≤ s.access.surchargeAt node.coord)
    {set : CandidateSet EReal}
    (h : candidates n s.access.model s.parameters person point time surcharged = .ok set)
    {c : Candidate EReal} (hc : c ∈ set.toList) : 0 ≤ c.cost ∧ time ≤ c.time := by
  obtain ⟨node, hnode, -, htime, hcost⟩ := exists_node_of_candidates h hc
  have htravel : 0 ≤ (s.access.leg point node.coord time surcharged).travelTime :=
    Settings.travelTime_leg_nonneg valid point time fun on ↦ surcharge on node hnode
  have hlength : 0 ≤ point.distance node.coord * s.access.beelineFactor := by
    obtain ⟨-, hdetour, -⟩ := Settings.positive_of_validate valid
    rw [Scalar.zero_exact] at hdetour
    exact mul_nonneg (point.distance_nonneg node.coord) (s.pace_access.2 ▸ hdetour.le)
  refine ⟨Settings.legCost_nonneg valid htravel hlength hcost, ?_⟩
  rw [htime]
  exact le_add_of_nonneg_right htravel

/-- With accepted settings whose utilities and surcharges are finite, candidates around a finite
point cost a finite number. -/
theorem isFinite_of_candidates {s : Settings EReal} (valid : s.validate = .ok ())
    (utilities : s.parameters.HasFiniteUtilities)
    (surcharges : ∀ d ∈ s.discouraged, Scalar.isFinite d.surcharge = true)
    (places : ∀ node ∈ n.nodes, node.coord.IsFinite) {person : Person} {point : Point EReal}
    (place : point.IsFinite) {time : EReal} {surcharged : Bool} {set : CandidateSet EReal}
    (h : candidates n s.access.model s.parameters person point time surcharged = .ok set)
    {c : Candidate EReal} (hc : c ∈ set.toList) : Scalar.isFinite c.cost = true := by
  obtain ⟨node, hnode, -, -, hcost⟩ := exists_node_of_candidates h hc
  obtain ⟨⟨hspeed, -⟩, -, hdetour⟩ := Settings.positive_of_validate valid
  rw [Scalar.zero_exact] at hspeed
  obtain ⟨speed, detour⟩ := s.pace_access
  have htime := AccessByDistance.isFinite_travelTime_leg (speed ▸ hspeed) (detour ▸ hdetour) place
    (places node hnode) time fun (_ : surcharged = true) ↦
      AccessByDistance.isFinite_surchargeAt (by rwa [Settings.discouraged_access]) node.coord
  have hlength : Scalar.isFinite (point.distance node.coord * s.access.beelineFactor) = true :=
    Scalar.isFinite_mul (place.distance (places node hnode)) (detour ▸ hdetour)
  exact Access.isFinite_legCost utilities htime hlength hcost

/-- Accepted settings with finite utilities, with surcharges applied or not, give each point
candidates that cost at least nothing, at a time that is not before the departure, if and only if
surcharges are not applied or sum up to at least nothing at every node of the network. They do so
with discouraged stops none of which has a negative surcharge. Around a finite point, with finite
surcharges, what they cost is finite. -/
theorem candidates_nonneg_iff (t : Timetable EReal) (built : t.Built)
    (places : ∀ stop ∈ t.stops, stop.coord.IsFinite) (reach : EReal) (s : Settings EReal)
    (valid : s.validate = .ok ()) (utilities : s.parameters.HasFiniteUtilities)
    (surcharged : Bool) :
    let n := Network.ofTimetable t reach
    n.isEmpty = false →
      ((surcharged = true → ∀ node ∈ n.nodes, 0 ≤ s.access.surchargeAt node.coord) ↔
        ∀ person point time, ∃ set,
          candidates n s.access.model s.parameters person point time surcharged = .ok set ∧
            ∀ c ∈ set.toList, 0 ≤ c.cost ∧ time ≤ c.time) ∧
      ((∀ d ∈ s.discouraged, 0 ≤ d.surcharge) →
        ∀ node ∈ n.nodes, 0 ≤ s.access.surchargeAt node.coord) ∧
      ((∀ d ∈ s.discouraged, Scalar.isFinite d.surcharge = true) →
        ∀ person point time, point.IsFinite → ∀ set,
          candidates n s.access.model s.parameters person point time surcharged = .ok set →
            ∀ c ∈ set.toList, Scalar.isFinite c.cost = true) := by
  intro n ne
  have located : ∀ node ∈ n.nodes, node.coord.IsFinite :=
    fun _ ↦ Timetable.isFinite_coord_of_mem_nodes built.wellFormed places
  refine ⟨⟨fun surcharge person point time ↦ ?_, fun nonneg on node hnode ↦ ?_⟩,
    fun surcharges node _ ↦ ?_, fun surcharges person point time place set hset c hc ↦ ?_⟩
  · obtain ⟨set, hset⟩ := exists_candidates_of_validate valid ne person point time surcharged
    exact ⟨set, hset, fun c hc ↦ nonneg_of_candidates valid surcharge hset hc⟩
  · subst on
    have place := located node hnode
    obtain ⟨set, hset, hall⟩ := nonneg ⟨⟨0⟩⟩ node.coord 0
    obtain ⟨c, hc, htime, -⟩ := exists_candidate_self valid place hnode hset
    rw [AccessByDistance.leg_self _ place, zero_add] at htime
    have hstarts : c.time = s.access.surchargeAt node.coord := htime
    exact hstarts ▸ (hall c hc).2
  · exact AccessByDistance.surchargeAt_nonneg (by rwa [Settings.discouraged_access]) node.coord
  · exact isFinite_of_candidates valid utilities surcharges located place hset hc

namespace Planner

open Network (east west)

/-- Settings that discourage the first stop of the shuttle. -/
noncomputable def discouraging (surcharge : EReal) : Settings EReal :=
  ⟨freeRides, [], [⟨west.coord, surcharge⟩]⟩

private theorem validate_discouraging (surcharge : EReal) :
    (discouraging surcharge).validate = .ok () := validate_freeRides

/-- With ten minutes more for the first stop of the shuttle, each candidate for it costs at least
nothing. -/
theorem candidates_nonneg_iff_discouraging :
    (Network.ofTimetable .shuttle (0 : EReal)).isEmpty = false ∧ ∃ set,
      candidates (Network.ofTimetable .shuttle 0) (discouraging 600).access.model freeRides
        shuttleTrip.person west.coord shuttleTrip.departure true = .ok set ∧
      ∀ c ∈ set.toList, 0 ≤ c.cost ∧ shuttleTrip.departure ≤ c.time := by
  have surcharges : ∀ d ∈ (discouraging 600).discouraged, 0 ≤ d.surcharge := by
    intro d hd
    rw [List.mem_singleton.mp hd]
    norm_num
  obtain ⟨hiff, hsurcharge, -⟩ := candidates_nonneg_iff .shuttle Timetable.built_shuttle
    Timetable.isFinite_shuttle.coord 0 (discouraging 600) (validate_discouraging 600)
    hasFiniteUtilities_freeRides true rfl
  exact ⟨rfl, hiff.mp (fun _ ↦ hsurcharge surcharges) shuttleTrip.person west.coord
    shuttleTrip.departure⟩

private theorem surchargeAt_discouraging (surcharge : EReal) :
    (discouraging surcharge).access.surchargeAt west.coord = surcharge := by
  have hhere : (west : Node EReal).coord.distance west.coord ≤
      AccessByDistance.sameStopTolerance := by
    rw [isFinite_west.distance_self]
    exact EReal.div_nonneg (EReal.coe_nonneg.mpr (Nat.cast_nonneg 1))
      (EReal.coe_nonneg.mpr (Nat.cast_nonneg 1000000))
  have hfilter : (discouraging surcharge).access.discouraged.filter
      (fun d ↦ d.coord.distance west.coord ≤ AccessByDistance.sameStopTolerance) =
        [⟨west.coord, surcharge⟩] := by
    rw [Settings.discouraged_access]
    exact List.filter_cons_of_pos (decide_eq_true hhere)
  rw [AccessByDistance.surchargeAt, hfilter]
  exact zero_add surcharge

/-- With accepted settings that take ten minutes off at the first stop of the shuttle, a traveller
who stands there has a candidate that costs less than nothing and is reached before the
departure. -/
theorem negative_candidate :
    (discouraging (-600)).validate = .ok () ∧ ∃ set,
      candidates (Network.ofTimetable .shuttle 0) (discouraging (-600)).access.model freeRides
        shuttleTrip.person west.coord shuttleTrip.departure true = .ok set ∧
      ∃ c ∈ set.toList, c.cost = -600 ∧ c.time = shuttleTrip.departure - 600 := by
  have valid := validate_discouraging (-600)
  have hwest : west ∈ (Network.ofTimetable .shuttle (0 : EReal)).nodes := by
    rw [Network.nodes_shuttle]
    exact Array.mem_of_getElem? (i := 0) rfl
  obtain ⟨set, hset⟩ := exists_candidates_of_validate valid (n := Network.ofTimetable .shuttle 0)
    rfl shuttleTrip.person west.coord shuttleTrip.departure true
  obtain ⟨c, hc, htime, hcost⟩ := exists_candidate_self valid isFinite_west hwest hset
  rw [AccessByDistance.leg_self _ isFinite_west, surchargeAt_discouraging] at htime hcost
  refine ⟨valid, set, hset, c, hc, ?_, htime⟩
  have hprice : (Except.ok (-(-600 : EReal) * -1 - 0 * 0) : Except (Error EReal) EReal) =
    .ok c.cost := hcost
  rw [← Except.ok.inj hprice]
  norm_num

end Planner

end Routing

end DoorToDoor
