import DoorToDoor.Proofs.Surroundings

/-!
# What surcharges change

Candidates are found with surcharges applied or left out. With exact arithmetic this changes no node
and no order, and it changes each candidate by the surcharge at its node alone: the time by the sum
of the surcharges there, and the cost by this sum at the utility of the mode
(`candidates_surcharged`). A surcharge above zero makes a candidate cheaper where travelling is a
gain (`cheaper_of_surcharge`).
-/

namespace DoorToDoor

section

variable {α : Type}

section

variable [Scalar α]

/-- The utility of a second with a mode, of walking for modes on foot. -/
def Parameters.timeUtilityOf (p : Parameters α) (mode : Mode) : α :=
  if mode.isOnFoot then p.walkTime else (p.utilityOf? mode).elim Scalar.zero (·.time)

/-- The utility of a metre with a mode, of walking for modes on foot. -/
def Parameters.distanceUtilityOf (p : Parameters α) (mode : Mode) : α :=
  if mode.isOnFoot then p.distance else (p.utilityOf? mode).elim Scalar.zero (·.distance)

private theorem Access.legCost_eq_ok {p : Parameters α} {leg : Leg α}
    (priced : p.prices leg.mode = true) :
    legCost p leg = .ok (-leg.travelTime * p.timeUtilityOf leg.mode -
      leg.distance * p.distanceUtilityOf leg.mode) := by
  unfold legCost Parameters.timeUtilityOf Parameters.distanceUtilityOf
  cases onFoot : leg.mode.isOnFoot with
  | true => rfl
  | false =>
    obtain ⟨u, hu⟩ : ∃ u, p.utilityOf? leg.mode = some u := by
      simpa [Parameters.prices, onFoot, Option.isSome_iff_exists] using priced
    rw [hu]
    rfl

end

/-- A call that discourages one stop, or several at once. -/
inductive Discouraging (α : Type)
  | one (stop : DiscouragedStop α)
  | all (stops : List (DiscouragedStop α))

/-- The stops that a call discourages. -/
def Discouraging.stops : Discouraging α → List (DiscouragedStop α)
  | one stop => [stop]
  | all stops => stops

namespace AccessByDistance

/-- The access after a call that discourages stops. -/
def discouraging (m : AccessByDistance α) : Discouraging α → AccessByDistance α
  | .one stop => m.discourage stop.coord stop.surcharge
  | .all stops => m.discourageAll stops

/-- The access after such calls in turn. -/
def after (m : AccessByDistance α) (calls : List (Discouraging α)) : AccessByDistance α :=
  calls.foldl discouraging m

/-- Calls that discourage stops change nothing but the discouraged stops, to which all are added in
turn. -/
theorem after_eq (m : AccessByDistance α) (calls : List (Discouraging α)) :
    m.after calls = { m with discouraged := m.discouraged ++ calls.flatMap (·.stops) } := by
  induction calls generalizing m with
  | nil => rw [List.flatMap_nil, List.append_nil]; rfl
  | cons call rest ih =>
    have hone : m.discouraging call = { m with discouraged := m.discouraged ++ call.stops } := by
      cases call with
      | one stop => rfl
      | all stops => rfl
    rw [after, List.foldl_cons, ← after, ih, hone, List.flatMap_cons, List.append_assoc]

/-- Calls that discourage stops leave the modes. -/
@[simp] theorem modes_after (m : AccessByDistance α) (calls : List (Discouraging α)) :
    (m.after calls).modes = m.modes := by
  rw [after_eq]

/-- The stops of all calls are discouraged. -/
@[simp] theorem discouraged_after (m : AccessByDistance α) (calls : List (Discouraging α)) :
    (m.after calls).discouraged = m.discouraged ++ calls.flatMap (·.stops) := by
  rw [after_eq]

end AccessByDistance

end

/-- The sum of the surcharges of stops at most a millionth of a metre from a point. -/
noncomputable def totalSurcharge (stops : List (DiscouragedStop EReal)) (point : Point EReal) :
    EReal :=
  ((stops.filter fun d ↦ d.coord.distance point ≤ ((1 / 1000000 : ℝ) : EReal)).map
    (·.surcharge)).sum

section

variable {stops stops' : List (DiscouragedStop EReal)} {point : Point EReal}

private theorem totalSurcharge_eq_of_perm (perm : stops.Perm stops') (point : Point EReal) :
    totalSurcharge stops point = totalSurcharge stops' point :=
  ((perm.filter _).map _).sum_eq

private theorem totalSurcharge_eq_zero
    (away : ∀ d ∈ stops, ¬d.coord.distance point ≤ ((1 / 1000000 : ℝ) : EReal)) :
    totalSurcharge stops point = 0 := by
  have hnone : stops.filter (fun d ↦ d.coord.distance point ≤ ((1 / 1000000 : ℝ) : EReal)) = [] :=
    List.filter_eq_nil_iff.mpr fun d hd ↦ by simpa using away d hd
  rw [totalSurcharge, hnone, List.map_nil, List.sum_nil]

private theorem isFinite_totalSurcharge (finite : ∀ d ∈ stops, Scalar.isFinite d.surcharge = true)
    (point : Point EReal) : Scalar.isFinite (totalSurcharge stops point) = true := by
  refine List.sum_induction (fun x ↦ Scalar.isFinite x = true)
    (fun _ _ ↦ Scalar.isFinite_add) (Scalar.isFinite_coe 0) ?_
  simp only [List.forall_mem_map]
  exact fun d hd ↦ finite d (List.mem_of_mem_filter hd)

private theorem totalSurcharge_nonneg (nonneg : ∀ d ∈ stops, 0 ≤ d.surcharge)
    (point : Point EReal) :
    0 ≤ totalSurcharge stops point := by
  refine List.sum_nonneg ?_
  simp only [List.forall_mem_map]
  exact fun d hd ↦ nonneg d (List.mem_of_mem_filter hd)

namespace AccessByDistance

/-- The surcharge at a point is that of the discouraged stops. -/
theorem surchargeAt_eq_totalSurcharge (m : AccessByDistance EReal) (point : Point EReal) :
    m.surchargeAt point = totalSurcharge m.discouraged point := by
  have htolerance : (sameStopTolerance : EReal) = ((1 / 1000000 : ℝ) : EReal) := by
    rw [sameStopTolerance, Scalar.ofNat_exact, Scalar.ofNat_exact, ← EReal.coe_div]
    norm_num
  rw [surchargeAt, totalSurcharge, htolerance, List.sum_eq_foldl]
  rfl

private theorem leg_surcharged (m : AccessByDistance EReal) (start finish : Point EReal)
    (time : EReal) :
    m.leg start finish time true = { m.leg start finish time false with
      travelTime := (m.leg start finish time false).travelTime +
        totalSurcharge m.discouraged finish } := by
  rw [← surchargeAt_eq_totalSurcharge]
  rfl

end AccessByDistance

end

namespace Routing

section

variable {m : AccessByDistance EReal} {p : Parameters EReal} {person : Person}
  {point : Point EReal} {time : EReal} {node : Node EReal} {c c' : Candidate EReal}

private theorem neg_add_mul {s u : EReal} (hs : Scalar.isFinite s = true)
    (hu : Scalar.isFinite u = true)
    (x : EReal) : -(x + s) * u = -x * u + s * -u := by
  obtain ⟨s, rfl⟩ := Scalar.isFinite_iff_exists.mp hs
  obtain ⟨u, rfl⟩ := Scalar.isFinite_iff_exists.mp hu
  have hreal : (s : EReal) * -u = ((s * -u : ℝ) : EReal) := by norm_cast
  induction x with
  | coe x =>
    norm_cast
    ring
  | top =>
    rw [EReal.top_add_coe, EReal.neg_top, hreal]
    rcases lt_trichotomy u 0 with hu | rfl | hu
    · rw [EReal.bot_mul_coe_of_neg hu, EReal.top_add_coe]
    · simp
    · rw [EReal.bot_mul_coe_of_pos hu, EReal.bot_add]
  | bot =>
    rw [EReal.bot_add, EReal.neg_bot, hreal]
    rcases lt_trichotomy u 0 with hu | rfl | hu
    · rw [EReal.top_mul_coe_of_neg hu, EReal.bot_add]
    · simp
    · rw [EReal.top_mul_coe_of_pos hu, EReal.top_add_coe]

private theorem legCost_add_travelTime {leg : Leg EReal} {s : EReal}
    (priced : p.prices leg.mode = true) (hs : Scalar.isFinite s = true)
    (utility : Scalar.isFinite (p.timeUtilityOf leg.mode) = true) :
    Access.legCost p { leg with travelTime := leg.travelTime + s } =
      (Access.legCost p leg).map (· + s * -p.timeUtilityOf leg.mode) := by
  have hpriced : p.prices ({ leg with travelTime := leg.travelTime + s } : Leg EReal).mode = true :=
    priced
  rw [Access.legCost_eq_ok hpriced, Access.legCost_eq_ok priced, Except.map, neg_add_mul hs utility,
    sub_eq_add_neg, sub_eq_add_neg, add_right_comm]

/-- How the candidates that stand for a node differ: with surcharges the leg takes longer by the sum
of the surcharges at the node, at the utility of its mode, and is the same in all else. Away from
discouraged stops the candidate is the same. Without negative surcharges it is not reached earlier,
and it is not cheaper unless its mode has a utility above zero. -/
structure DiffersBySurcharge (m : AccessByDistance EReal) (p : Parameters EReal)
    (point : Point EReal) (time : EReal) (node : Node EReal) (c c' : Candidate EReal) : Prop where
  mode_eq :
    (m.leg point node.coord time true).mode = (m.leg point node.coord time false).mode
  distance_eq :
    (m.leg point node.coord time true).distance = (m.leg point node.coord time false).distance
  time_eq : c'.time = c.time + totalSurcharge m.discouraged node.coord
  cost_eq : c'.cost = c.cost + totalSurcharge m.discouraged node.coord *
    -p.timeUtilityOf (m.leg point node.coord time false).mode
  away : (∀ d ∈ m.discouraged, ¬d.coord.distance node.coord ≤ ((1 / 1000000 : ℝ) : EReal)) → c' = c
  later : (∀ d ∈ m.discouraged, 0 ≤ d.surcharge) → c.time ≤ c'.time
  dearer : (∀ d ∈ m.discouraged, 0 ≤ d.surcharge) →
    p.timeUtilityOf (m.leg point node.coord time false).mode ≤ 0 → c.cost ≤ c'.cost

/-- The candidates that stand for a node with and without surcharges differ by its surcharge. -/
theorem StandsFor.differsBySurcharge
    (off : StandsFor m.model p person point time false node c)
    (on : StandsFor m.model p person point time true node c')
    (priced : p.prices (m.leg point node.coord time false).mode = true)
    (utility : Scalar.isFinite (p.timeUtilityOf (m.leg point node.coord time false).mode) = true)
    (surcharges : ∀ d ∈ m.discouraged, Scalar.isFinite d.surcharge = true) :
    DiffersBySurcharge m p point time node c c' := by
  let leg := m.leg point node.coord time false
  let s := totalSurcharge m.discouraged node.coord
  have hleg : m.leg point node.coord time true = { leg with travelTime := leg.travelTime + s } :=
    m.leg_surcharged point node.coord time
  have htime : c'.time = c.time + s := by
    rw [off.time_eq, on.time_eq]
    change time + (m.leg point node.coord time true).travelTime = time + leg.travelTime + s
    rw [hleg, add_assoc]
  have hcost : c'.cost = c.cost + s * -p.timeUtilityOf leg.mode := by
    have hoff : Access.legCost p leg = .ok c.cost := off.cost_eq
    have hon : Access.legCost p (m.leg point node.coord time true) = .ok c'.cost := on.cost_eq
    rw [hleg, legCost_add_travelTime priced (isFinite_totalSurcharge surcharges _) utility,
      hoff] at hon
    exact (Except.ok.inj hon).symm
  constructor
  case mode_eq => rw [hleg]
  case distance_eq => rw [hleg]
  case time_eq => exact htime
  case cost_eq => exact hcost
  case away =>
    intro away
    have hs : s = 0 := totalSurcharge_eq_zero away
    rw [hs, add_zero] at htime
    rw [hs, zero_mul, add_zero] at hcost
    have hnode : c'.node = c.node := on.node_eq.trans off.node_eq.symm
    cases c
    cases c'
    simp only at hnode htime hcost
    rw [hnode, htime, hcost]
  case later =>
    intro nonneg
    rw [htime]
    exact le_add_of_nonneg_right (totalSurcharge_nonneg nonneg _)
  case dearer =>
    intro nonneg loss
    rw [hcost]
    exact le_add_of_nonneg_right
      (mul_nonneg (totalSurcharge_nonneg nonneg _) (EReal.neg_nonneg.mpr loss))

end

/-- Calls that discourage the same stops lead to the same access, in any order and however they are
divided. -/
theorem model_after_eq_of_perm (m : AccessByDistance EReal)
    {calls calls' : List (Discouraging EReal)}
    (perm : (calls.flatMap (·.stops)).Perm (calls'.flatMap (·.stops))) :
    (m.after calls).model = (m.after calls').model := by
  have hsurcharge : (m.after calls).surchargeAt = (m.after calls').surchargeAt := by
    funext point
    rw [AccessByDistance.surchargeAt_eq_totalSurcharge,
      AccessByDistance.surchargeAt_eq_totalSurcharge, m.discouraged_after, m.discouraged_after]
    exact totalSurcharge_eq_of_perm (perm.append_left _) point
  have hleg : (m.after calls).leg = (m.after calls').leg := by
    funext start finish time surcharged
    rw [AccessByDistance.leg, AccessByDistance.leg, hsurcharge, m.after_eq, m.after_eq]
    rfl
  rw [AccessByDistance.model, AccessByDistance.model, hleg, m.after_eq, m.after_eq]
  rfl

/-- Around each point of the network of a timetable, with an access whose modes have a price and
finite utilities of time, and whose stops are discouraged with finite surcharges: surcharges change
neither the nodes of the candidates nor their order, and each candidate differs by the surcharge at
its node. This is the sum over all stops that are discouraged, in whatever order and by whatever
calls. -/
theorem candidates_surcharged (t : Timetable EReal) (reach : EReal) (m : AccessByDistance EReal)
    (calls : List (Discouraging EReal)) (p : Parameters EReal)
    (priced : ∀ a ∈ m.modes, p.prices a.mode = true)
    (utilities : ∀ a ∈ m.modes, Scalar.isFinite (p.timeUtilityOf a.mode) = true)
    (surcharges : ∀ d ∈ m.discouraged ++ calls.flatMap (·.stops),
      Scalar.isFinite d.surcharge = true)
    (person : Person) (point : Point EReal) (time : EReal) :
    let n := Network.ofTimetable t reach
    let access := m.after calls
    let answer := candidates n access.model p person point time
    (n.isEmpty = true → ∀ surcharged, answer surcharged = .error .emptyNetwork) ∧
    (n.isEmpty = false → ∃ nodes off on, nodesAround n p point = .ok nodes ∧
      answer false = .ok off ∧ answer true = .ok on ∧
      off.toList.map (·.node) = nodes.map (·.id) ∧ on.toList.map (·.node) = nodes.map (·.id) ∧
      ∀ node ∈ nodes, ∃ c c', off.get? node.id = some c ∧ on.get? node.id = some c' ∧
        DiffersBySurcharge access p point time node c c') ∧
    access.discouraged = m.discouraged ++ calls.flatMap (·.stops) ∧
    ∀ calls', (calls'.flatMap (·.stops)).Perm (calls.flatMap (·.stops)) →
      (m.after calls').model = access.model ∧
        totalSurcharge (m.after calls').discouraged = totalSurcharge access.discouraged := by
  intro n access answer
  have hdiscouraged : access.discouraged = m.discouraged ++ calls.flatMap (·.stops) :=
    m.discouraged_after calls
  rw [← m.modes_after calls] at priced utilities
  rw [← hdiscouraged] at surcharges
  refine ⟨fun empty surcharged ↦ ?_, fun ne ↦ ?_, hdiscouraged, fun calls' perm ↦
    ⟨model_after_eq_of_perm m perm, ?_⟩⟩
  · change (nodesAround n p point >>= _) = _
    rw [nodesAround_eq_error empty]
    rfl
  · obtain ⟨nodes, hnodes⟩ := exists_nodesAround ne p point
    have hanswer (surcharged : Bool) := exists_candidates_of_nodesAround hnodes
      (unpriced?_legModes_of_prices priced person point time surcharged nodes)
    obtain ⟨off, hoff, hoffs⟩ := hanswer false
    obtain ⟨on, hon, hons⟩ := hanswer true
    refine ⟨nodes, off, on, hnodes, hoff, hon, map_node_of_forall₂ hoffs,
      map_node_of_forall₂ hons, fun node hnode ↦ ?_⟩
    obtain ⟨c, hc, hstands⟩ := exists_get?_of_forall₂ hoffs hnode
    obtain ⟨c', hc', hstands'⟩ := exists_get?_of_forall₂ hons hnode
    obtain ⟨a, ha, hmode⟩ := access.exists_mode_leg point node.coord time false
    exact ⟨c, c', hc, hc', hstands.differsBySurcharge hstands'
      (AccessByDistance.prices_leg priced _ _ _ _) (hmode ▸ utilities a ha) surcharges⟩
  · funext place
    rw [hdiscouraged, m.discouraged_after]
    exact totalSurcharge_eq_of_perm (perm.append_left _) place

namespace Planner

open Network (east west)

/-- Parameters by which walking takes a given utility, and nothing else costs anything. -/
noncomputable def walksAt (utility : EReal) : Parameters EReal :=
  { freeRides with walkTime := utility }

/-- Walking, with ten minutes more at the first stop of the shuttle. -/
noncomputable def longWalks (utility : EReal) : AccessByDistance EReal :=
  (AccessByDistance.ofParameters (walksAt utility)).after [.one ⟨west.coord, 600⟩]

private theorem prices_walksAt (utility : EReal) :
    ∀ a ∈ (AccessByDistance.ofParameters (walksAt utility)).modes,
      (walksAt utility).prices a.mode = true := by
  intro a ha
  rw [List.mem_singleton.mp ha]
  rfl

private theorem totalSurcharge_longWalks (utility : EReal) :
    totalSurcharge (longWalks utility).discouraged west.coord = 600 := by
  have hhere : (west : Node EReal).coord.distance west.coord ≤ ((1 / 1000000 : ℝ) : EReal) := by
    rw [isFinite_west.distance_self]
    exact EReal.coe_nonneg.mpr (by norm_num)
  have hfilter : [(⟨west.coord, 600⟩ : DiscouragedStop EReal)].filter
      (fun d ↦ d.coord.distance west.coord ≤ ((1 / 1000000 : ℝ) : EReal)) = [⟨west.coord, 600⟩] :=
    List.filter_cons_of_pos (decide_eq_true hhere)
  rw [longWalks, AccessByDistance.discouraged_after]
  change totalSurcharge [⟨west.coord, 600⟩] west.coord = 600
  rw [totalSurcharge, hfilter, List.map_singleton, List.sum_singleton]

/-- When walking loses one unit of utility a second, ten minutes more at the first stop of the
shuttle make its candidate later by ten minutes and dearer by six hundred units. -/
theorem candidates_surcharged_west :
    ((∀ a ∈ (AccessByDistance.ofParameters (walksAt (-1))).modes,
        (walksAt (-1)).prices a.mode = true) ∧
      ∀ d ∈ (longWalks (-1)).discouraged, Scalar.isFinite d.surcharge = true) ∧
    ∃ off on c c', candidates (Network.ofTimetable .shuttle 0) (longWalks (-1)).model (walksAt (-1))
        shuttleTrip.person west.coord shuttleTrip.departure false = .ok off ∧
      candidates (Network.ofTimetable .shuttle 0) (longWalks (-1)).model (walksAt (-1))
        shuttleTrip.person west.coord shuttleTrip.departure true = .ok on ∧
      off.get? (west : Node EReal).id = some c ∧ on.get? (west : Node EReal).id = some c' ∧
      c'.time = c.time + 600 ∧ c'.cost = c.cost + 600 := by
  have priced := prices_walksAt (-1)
  have utilities : ∀ a ∈ (AccessByDistance.ofParameters (walksAt (-1))).modes,
      Scalar.isFinite ((walksAt (-1)).timeUtilityOf a.mode) = true := by
    intro a ha
    rw [List.mem_singleton.mp ha]
    exact Scalar.isFinite_neg (Scalar.isFinite_coe 1)
  have surcharges : ∀ d ∈ (longWalks (-1)).discouraged, Scalar.isFinite d.surcharge = true := by
    intro d hd
    rw [longWalks, AccessByDistance.discouraged_after] at hd
    rw [List.mem_singleton.mp hd]
    exact Scalar.isFinite_coe 600
  refine ⟨⟨priced, surcharges⟩, ?_⟩
  rw [longWalks, AccessByDistance.discouraged_after] at surcharges
  obtain ⟨-, hcandidates, -, -⟩ := candidates_surcharged .shuttle 0 _ _ (walksAt (-1)) priced
    utilities surcharges shuttleTrip.person west.coord shuttleTrip.departure
  obtain ⟨nodes, off, on, hnodes, hoff, hon, -, -, hdiffers⟩ := hcandidates rfl
  have hwest : nodes = [west] :=
    Except.ok.inj (hnodes.symm.trans (nodesAround_stopAt .morning rfl rfl List.mem_cons_self))
  obtain ⟨c, c', hc, hc', differs⟩ := hdiffers west (hwest ▸ List.mem_singleton_self _)
  have htime := differs.time_eq
  have hcost := differs.cost_eq
  change _ = c.time + totalSurcharge (longWalks (-1)).discouraged west.coord at htime
  change _ = c.cost + totalSurcharge (longWalks (-1)).discouraged west.coord * -(-1) at hcost
  rw [totalSurcharge_longWalks] at htime hcost
  rw [neg_neg, mul_one] at hcost
  exact ⟨off, on, c, c', hoff, hon, hc, hc', htime, hcost⟩

/-- When walking gains one unit of utility a second, ten minutes more at the first stop of the
shuttle make its candidate cheaper. -/
theorem cheaper_of_surcharge :
    (∀ d ∈ (longWalks 1).discouraged, 0 ≤ d.surcharge) ∧
    ∃ off on c c', candidates (Network.ofTimetable .shuttle 0) (longWalks 1).model (walksAt 1)
        shuttleTrip.person west.coord shuttleTrip.departure false = .ok off ∧
      candidates (Network.ofTimetable .shuttle 0) (longWalks 1).model (walksAt 1)
        shuttleTrip.person west.coord shuttleTrip.departure true = .ok on ∧
      off.get? (west : Node EReal).id = some c ∧ on.get? (west : Node EReal).id = some c' ∧
      c.cost = 0 ∧ c'.cost = -600 ∧ c'.cost < c.cost := by
  have hnodes : nodesAround (Network.ofTimetable .shuttle 0) (walksAt 1) west.coord =
      .ok [west] := nodesAround_stopAt .morning rfl rfl List.mem_cons_self
  have priced : ∀ a ∈ (longWalks 1).modes, (walksAt 1).prices a.mode = true := by
    rw [longWalks, AccessByDistance.modes_after]
    exact prices_walksAt 1
  have hanswer (surcharged : Bool) := exists_candidates_of_nodesAround hnodes
    (unpriced?_legModes_of_prices priced shuttleTrip.person west.coord shuttleTrip.departure
      surcharged [west])
  -- The leg takes the surcharge alone, if at all, because it leads to where it starts.
  have hprice {surcharged : Bool} {c : Candidate EReal}
      (stands : StandsFor (longWalks 1).model (walksAt 1) shuttleTrip.person west.coord
        shuttleTrip.departure surcharged west c) :
      c.cost = -(if surcharged then 600 else 0) * 1 - 0 * 0 := by
    have hcost := stands.cost_eq
    change Access.legCost (walksAt 1) ((longWalks 1).leg _ _ _ _) = _ at hcost
    rw [AccessByDistance.leg_self _ isFinite_west,
      AccessByDistance.surchargeAt_eq_totalSurcharge, totalSurcharge_longWalks] at hcost
    exact (Except.ok.inj hcost).symm
  obtain ⟨off, hoff, hoffs⟩ := hanswer false
  obtain ⟨on, hon, hons⟩ := hanswer true
  obtain ⟨c, hc, hstands⟩ := exists_get?_of_forall₂ hoffs (List.mem_singleton_self _)
  obtain ⟨c', hc', hstands'⟩ := exists_get?_of_forall₂ hons (List.mem_singleton_self _)
  have hcost : c.cost = 0 := by simpa using hprice hstands
  have hcost' : c'.cost = -600 := by simpa using hprice hstands'
  refine ⟨fun d hd ↦ ?_, off, on, c, c', hoff, hon, hc, hc', hcost, hcost', ?_⟩
  · rw [longWalks, AccessByDistance.discouraged_after] at hd
    rw [List.mem_singleton.mp hd]
    norm_num
  · rw [hcost, hcost', EReal.neg_lt_comm]
    norm_num

end Planner

end Routing

end DoorToDoor
