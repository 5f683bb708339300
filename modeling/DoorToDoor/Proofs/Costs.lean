import Mathlib.Data.EReal.Inv
import DoorToDoor.Cost
import DoorToDoor.Proofs.Timetable.Times
import DoorToDoor.Proofs.ValidSettings

/-!
# The costs of edges in exact arithmetic

With accepted parameters an edge that is entered at a finite time takes a finite time
(`isFinite_travelTime`), and if no vehicle runs back in time it costs at least nothing
(`disutility_nonneg`). At an infinite time an edge costs at least nothing, too, unless it cannot be
used (`disutility_nonneg_of_isFinite`).
-/

namespace DoorToDoor.Cost

variable {t : Timetable EReal} {reach : EReal} {p : Parameters EReal} {e : Edge EReal}
  {now : EReal} {line : LineId} {route : RouteId}

section

variable (wf : t.WellFormed) (finite : t.IsFinite)
  (he : e ∈ (Network.ofTimetable t reach).edges)

include wf finite he

private theorem length_nonneg : 0 ≤ e.length ∧ Scalar.isFinite e.length = true := by
  obtain ⟨htail, hhead⟩ := Network.mem_nodes_of_mem_edges he
  have htail := finite.node wf htail
  have hhead := finite.node wf hhead
  rw [Network.length_of_mem_edges he]
  exact ⟨Point.distance_nonneg _ _, htail.distance hhead⟩

/-- From a finite time on the wait for a vehicle is finite and not negative. -/
theorem wait_nonneg (hnow : Scalar.isFinite now = true) :
    0 ≤ wait (Departures.ofTimetable t).lookup e now ∧
      Scalar.isFinite (wait (Departures.ofTimetable t).lookup e now) = true := by
  have htail := (Network.mem_nodes_of_mem_edges he).1
  have hnow' := Scalar.isFinite_exact.mp hnow
  refine ⟨?_, Scalar.isFinite_sub (Departures.isFinite_next_of_mem_nodes wf finite htail now) hnow⟩
  rw [wait, EReal.sub_nonneg (.inr hnow'.2) (.inr hnow'.1)]
  exact Departures.le_next_of_mem_nodes wf finite htail hnow

omit finite in
/-- A ride on a route in order does not run back in time. -/
theorem departs_le_arrives (kind : e.kind = .ride line route)
    (ordered : ∀ r, t.route? route = some r → r.Ordered) :
    e.tail.call.departs ≤ e.head.call.arrives := by
  obtain ⟨r, hr, first, i, c, c', hc, hc', htail, hhead, hkind⟩ | ⟨-, htransfer⟩ :=
    Network.ride_or_transfer_of_mem_edges he
  · rw [kind] at hkind
    cases hkind
    rw [htail, hhead]
    exact (ordered r (wf.route?_of_mem hr)).ride i c c' hc hc'
  · rw [kind] at htransfer
    cases htransfer

private theorem inVehicle_eq (onward : e.tail.call.departs ≤ e.head.call.arrives) :
    inVehicle e = e.head.call.arrives - e.tail.call.departs ∧ 0 ≤ inVehicle e := by
  have htail := finite.call wf (Network.mem_nodes_of_mem_edges he).1
  have hdeparts := Scalar.isFinite_exact.mp htail.2
  have hrun : 0 ≤ e.head.call.arrives - e.tail.call.departs :=
    (EReal.sub_nonneg (.inr hdeparts.2) (.inr hdeparts.1)).mpr onward
  have hsame : inVehicle e = e.head.call.arrives - e.tail.call.departs :=
    if_neg (by rw [Scalar.zero_exact]; exact not_lt_of_ge hrun)
  exact ⟨hsame, hsame ▸ hrun⟩

/-- The time in a vehicle is not negative if and only if the ride seems to end no more than a day
before it starts, since one day is added at most. -/
theorem inVehicle_nonneg_iff :
    0 ≤ inVehicle e ↔ e.tail.call.departs ≤ e.head.call.arrives + Clock.day := by
  obtain ⟨htail, hhead⟩ := Network.mem_nodes_of_mem_edges he
  obtain ⟨o, ho⟩ := Scalar.isFinite_iff_exists.mp (finite.call wf htail).2
  obtain ⟨a, ha⟩ := Scalar.isFinite_iff_exists.mp (finite.call wf hhead).1
  have hzero : ((a - o : ℝ) : EReal) < Scalar.zero ↔ a - o < 0 := by
    rw [Scalar.zero_exact, EReal.coe_neg']
  rw [inVehicle, ← ho, ← ha, Clock.day_exact, ← EReal.coe_sub, ← EReal.coe_add a,
    EReal.coe_le_coe_iff]
  split
  · next back =>
    rw [← EReal.coe_add, EReal.coe_nonneg]
    exact ⟨fun h ↦ by linarith, fun h ↦ by linarith⟩
  · next on =>
    rw [hzero, not_lt] at on
    rw [EReal.coe_nonneg]
    exact ⟨fun _ ↦ by linarith, fun _ ↦ on⟩

/-- The time in a vehicle is not negative if no vehicle runs back in time. -/
theorem inVehicle_nonneg (ordered : t.Ordered) (kind : e.kind = .ride line route) :
    0 ≤ inVehicle e :=
  (inVehicle_eq wf finite he
    (departs_le_arrives wf he kind fun _ hr ↦ ordered _ (Array.mem_of_getElem? hr))).2

private theorem isFinite_inVehicle : Scalar.isFinite (inVehicle e) = true := by
  obtain ⟨htail, hhead⟩ := Network.mem_nodes_of_mem_edges he
  have hrun := Scalar.isFinite_sub (finite.call wf hhead).1 (finite.call wf htail).2
  unfold inVehicle
  dsimp only
  split
  · exact Scalar.isFinite_add hrun (Scalar.isFinite_ofNat _)
  · exact hrun

/-- A ride ends when the vehicle that is waited for is at the next call. -/
theorem add_travelTime_of_next (onward : e.tail.call.departs ≤ e.head.call.arrives)
    (kind : e.kind = .ride line route) {lookup : DepartureLookup EReal} {starts : EReal}
    (hnow : Scalar.isFinite now = true) (hstarts : Scalar.isFinite starts = true)
    (next : lookup.next e.tail.route e.tail.call now = starts + e.tail.call.departs) :
    now + travelTime lookup p e now = starts + e.head.call.arrives := by
  obtain ⟨htail, hhead⟩ := Network.mem_nodes_of_mem_edges he
  obtain ⟨hrun, -⟩ := inVehicle_eq wf finite he onward
  obtain ⟨τ, rfl⟩ := Scalar.isFinite_iff_exists.mp hnow
  obtain ⟨σ, rfl⟩ := Scalar.isFinite_iff_exists.mp hstarts
  obtain ⟨o, ho⟩ := Scalar.isFinite_iff_exists.mp (finite.call wf htail).2
  obtain ⟨a, ha⟩ := Scalar.isFinite_iff_exists.mp (finite.call wf hhead).1
  simp only [travelTime, kind, wait, next, hrun, ← ho, ← ha]
  rw [← EReal.coe_sub, ← EReal.coe_add, ← EReal.coe_add, ← EReal.coe_sub, ← EReal.coe_add,
    ← EReal.coe_add]
  congr 1
  ring

omit wf finite he in
/-- A transfer takes its time whenever it is entered. -/
theorem travelTime_of_transfer (lookup : DepartureLookup EReal) (p : Parameters EReal)
    (kind : e.kind = .transfer) (now : EReal) :
    travelTime lookup p e now = transferTime p e := by
  rw [travelTime, kind]

omit finite in
/-- A transfer at one stop takes the transfer margin. -/
theorem transferTime_of_stop_eq (places : ∀ stop ∈ t.stops, stop.coord.IsFinite)
    (same : e.tail.stop = e.head.stop) : transferTime p e = p.transferMargin := by
  obtain ⟨htail, hhead⟩ := Network.mem_nodes_of_mem_edges he
  -- Nodes of one stop lie at one place.
  obtain ⟨stop, hstop, hcoord, -⟩ := Network.exists_stop?_of_mem_nodes wf htail
  obtain ⟨stop', hstop', hcoord', -⟩ := Network.exists_stop?_of_mem_nodes wf hhead
  rw [same, hstop'] at hstop
  cases hstop
  have hplace : e.tail.coord = e.head.coord := hcoord.symm.trans hcoord'
  have hself := (Timetable.isFinite_coord_of_mem_nodes wf places hhead).distance_self
  rw [transferTime, Network.length_of_mem_edges he, hplace, hself, EReal.zero_div, zero_add]

private theorem transferTime_nonneg (valid : Settings.validate ⟨p, [], []⟩ = .ok ()) :
    0 ≤ transferTime p e := by
  obtain ⟨⟨hspeed, -⟩, -⟩ := Settings.positive_of_validate valid
  obtain ⟨hmargin, -⟩ := Settings.nonNegative_of_validate valid
  rw [Scalar.zero_exact] at hspeed hmargin
  exact add_nonneg (EReal.div_nonneg (length_nonneg wf finite he).1 hspeed.le) hmargin

private theorem isFinite_transferTime (valid : Settings.validate ⟨p, [], []⟩ = .ok ())
    (margin : Scalar.isFinite p.transferMargin = true) :
    Scalar.isFinite (transferTime p e) = true := by
  obtain ⟨⟨hspeed, -⟩, -⟩ := Settings.positive_of_validate valid
  rw [Scalar.zero_exact] at hspeed
  exact Scalar.isFinite_add (Scalar.isFinite_div (length_nonneg wf finite he).2 hspeed) margin

/-- An edge that is entered at a finite time takes a time that is not negative if the time in its
vehicle is not. -/
theorem travelTime_nonneg_of_inVehicle (valid : Settings.validate ⟨p, [], []⟩ = .ok ())
    (hride : ∀ line route, e.kind = .ride line route → 0 ≤ inVehicle e)
    (hnow : Scalar.isFinite now = true) :
    0 ≤ travelTime (Departures.ofTimetable t).lookup p e now := by
  unfold travelTime
  cases kind : e.kind with
  | ride line route => exact add_nonneg (wait_nonneg wf finite he hnow).1 (hride line route kind)
  | transfer => exact transferTime_nonneg wf finite he valid

/-- An edge that is entered at a finite time takes a finite time. -/
theorem isFinite_travelTime (valid : Settings.validate ⟨p, [], []⟩ = .ok ())
    (margin : Scalar.isFinite p.transferMargin = true) (hnow : Scalar.isFinite now = true) :
    Scalar.isFinite (travelTime (Departures.ofTimetable t).lookup p e now) = true := by
  unfold travelTime
  cases e.kind with
  | ride line route =>
    exact Scalar.isFinite_add (wait_nonneg wf finite he hnow).2 (isFinite_inVehicle wf finite he)
  | transfer => exact isFinite_transferTime wf finite he valid margin

end

/-- A utility that is not positive makes a time that is not negative cost at least nothing. -/
theorem neg_mul_nonneg {time utility : EReal} (htime : 0 ≤ time) (hutility : utility ≤ 0) :
    0 ≤ -time * utility :=
  EReal.mul_nonneg_iff.mpr (.inr ⟨by rwa [EReal.neg_le, neg_zero], hutility⟩)

section

variable (wf : t.WellFormed) (finite : t.IsFinite) (ordered : t.Ordered)
  (valid : Settings.validate ⟨p, [], []⟩ = .ok ())
  (he : e ∈ (Network.ofTimetable t reach).edges)

include wf finite valid he

private theorem distanceCost_nonneg : 0 ≤ distanceCost p e := by
  obtain ⟨-, -, -, hdistance, -⟩ := Settings.utility_of_validate valid
  rw [Scalar.zero_exact] at hdistance
  exact neg_mul_nonneg (length_nonneg wf finite he).1 hdistance

/-- A ride costs at least nothing if the wait for it does and the time in it is not negative. -/
theorem ride_nonneg (kind : e.kind = .ride line route) (hride : 0 ≤ inVehicle e)
    (hwait : 0 ≤ -wait (Departures.ofTimetable t).lookup e now * p.waitTime) :
    0 ≤ disutility (Departures.ofTimetable t).lookup p e now := by
  obtain ⟨-, hrideTime, -⟩ := Settings.utility_of_validate valid
  rw [Scalar.zero_exact] at hrideTime
  have hcost := neg_mul_nonneg hride hrideTime
  rw [EReal.neg_mul] at hcost
  simp only [disutility, kind]
  exact add_nonneg (add_nonneg hwait hcost) (distanceCost_nonneg wf finite valid he)

/-- A transfer costs at least nothing. -/
theorem transfer_nonneg (kind : e.kind = .transfer) :
    0 ≤ disutility (Departures.ofTimetable t).lookup p e now := by
  obtain ⟨hwalkTime, -, -, -, hswitch⟩ := Settings.utility_of_validate valid
  rw [Scalar.zero_exact] at hwalkTime hswitch
  have hwalk := neg_mul_nonneg (transferTime_nonneg wf finite he valid) hwalkTime
  have hswitch' : 0 ≤ -p.lineSwitch := EReal.neg_nonneg.mpr hswitch
  simp only [disutility, kind]
  exact add_nonneg (add_nonneg hwalk (distanceCost_nonneg wf finite valid he)) hswitch'

/-- An edge that is entered at a finite time costs at least nothing if the time in its vehicle is
not negative. -/
theorem disutility_nonneg_of_inVehicle
    (hride : ∀ line route, e.kind = .ride line route → 0 ≤ inVehicle e)
    (hnow : Scalar.isFinite now = true) :
    0 ≤ disutility (Departures.ofTimetable t).lookup p e now := by
  obtain ⟨-, -, hwaitTime, -⟩ := Settings.utility_of_validate valid
  rw [Scalar.zero_exact] at hwaitTime
  cases kind : e.kind with
  | ride line route =>
    exact ride_nonneg wf finite valid he kind (hride line route kind)
      (neg_mul_nonneg (wait_nonneg wf finite he hnow).1 hwaitTime)
  | transfer => exact transfer_nonneg wf finite valid he kind

include ordered

/-- An edge that is entered at a finite time costs at least nothing. -/
theorem disutility_nonneg (hnow : Scalar.isFinite now = true) :
    0 ≤ disutility (Departures.ofTimetable t).lookup p e now :=
  disutility_nonneg_of_inVehicle wf finite valid he
    (fun _ _ kind ↦ inVehicle_nonneg wf finite he ordered kind) hnow

/-- An edge that can be used costs at least nothing, at whatever time it is entered. -/
theorem disutility_nonneg_of_isFinite
    (usable : Scalar.isFinite (disutility (Departures.ofTimetable t).lookup p e now) = true) :
    0 ≤ disutility (Departures.ofTimetable t).lookup p e now := by
  obtain ⟨-, -, hwaitTime, -⟩ := Settings.utility_of_validate valid
  rw [Scalar.zero_exact] at hwaitTime
  cases kind : e.kind with
  | transfer => exact transfer_nonneg wf finite valid he kind
  | ride line route =>
    have hride := inVehicle_nonneg wf finite he ordered kind
    obtain ⟨next, hnext⟩ := Scalar.isFinite_iff_exists.mp
      (Departures.isFinite_next_of_mem_nodes wf finite (Network.mem_nodes_of_mem_edges he).1 now)
    -- The wait is finite, endless from the beginning of time on, or without end the other way.
    induction now with
    | coe now => exact disutility_nonneg wf finite ordered valid he (Scalar.isFinite_coe now)
    | bot =>
      refine ride_nonneg wf finite valid he kind hride (neg_mul_nonneg ?_ hwaitTime)
      rw [wait, ← hnext, EReal.coe_sub_bot]
      exact le_top
    | top =>
      rcases hwaitTime.lt_or_eq with hneg | hzero
      · have hwait : wait (Departures.ofTimetable t).lookup e ⊤ = ⊥ := by
          rw [wait, ← hnext, EReal.sub_top]
        have hcost : disutility (Departures.ofTimetable t).lookup p e ⊤ = ⊥ := by
          simp only [disutility, kind, hwait, EReal.neg_bot, EReal.top_mul_of_neg hneg]
          rw [sub_eq_add_neg, EReal.bot_add, EReal.bot_add]
        rw [hcost] at usable
        exact absurd rfl (Scalar.isFinite_exact.mp usable).1
      · refine ride_nonneg wf finite valid he kind hride ?_
        rw [hzero, mul_zero]

end

/-- An edge that is entered at a finite time costs a finite number if the utilities are finite. -/
theorem isFinite_disutility (wf : t.WellFormed) (finite : t.IsFinite)
    (he : e ∈ (Network.ofTimetable t reach).edges) (valid : Settings.validate ⟨p, [], []⟩ = .ok ())
    (margin : Scalar.isFinite p.transferMargin = true) (utilities : p.HasFiniteUtilities)
    (hnow : Scalar.isFinite now = true) :
    Scalar.isFinite (disutility (Departures.ofTimetable t).lookup p e now) = true := by
  have hdistance : Scalar.isFinite (distanceCost p e) = true :=
    Scalar.isFinite_mul (Scalar.isFinite_neg (length_nonneg wf finite he).2) utilities.distance
  unfold disutility
  cases e.kind with
  | ride line route =>
    have hwait := Scalar.isFinite_neg (wait_nonneg wf finite he hnow).2
    have hride := isFinite_inVehicle wf finite he
    exact Scalar.isFinite_add (Scalar.isFinite_sub (Scalar.isFinite_mul hwait utilities.waitTime)
      (Scalar.isFinite_mul hride utilities.rideTime)) hdistance
  | transfer =>
    have hwalk := Scalar.isFinite_neg (isFinite_transferTime wf finite he valid margin)
    exact Scalar.isFinite_sub (Scalar.isFinite_add (Scalar.isFinite_mul hwalk utilities.walkTime)
      hdistance) utilities.lineSwitch

open Network (tramNode tramRide)

/-- The stops of the tram stand in a row. -/
theorem coord_tramNode (dwell : ℕ) {position : ℕ} (h : position < 3) :
    (tramNode dwell position : Node EReal).coord =
      ⟨((1000 * position : ℝ) : EReal), ((0 : ℝ) : EReal)⟩ := by
  match position with
  | 0 =>
    change (⟨(((0 : ℕ) : ℝ) : EReal), (((0 : ℕ) : ℝ) : EReal)⟩ : Point EReal) = _
    norm_num
  | 1 =>
    change (⟨(((1000 : ℕ) : ℝ) : EReal), (((0 : ℕ) : ℝ) : EReal)⟩ : Point EReal) = _
    norm_num
  | 2 =>
    change (⟨(((2000 : ℕ) : ℝ) : EReal), (((0 : ℕ) : ℝ) : EReal)⟩ : Point EReal) = _
    norm_num
  | _ + 3 => omega

/-- No stop of the tram lies where another one does. -/
theorem withinReach_tramNode_zero (dwell : ℕ) {i j : ℕ} (hi : i < 3) (hj : j < 3) (hij : i ≠ j) :
    Network.withinReach (0 : EReal) (tramNode dwell i) (tramNode dwell j) = false := by
  have hne : (1000 * j : ℝ) - 1000 * i ≠ 0 := by
    rw [← mul_sub]
    exact mul_ne_zero (by norm_num) (sub_ne_zero_of_ne (Nat.cast_injective.ne hij.symm))
  have hpos : (0 : ℝ) < (1000 * j - 1000 * i) * (1000 * j - 1000 * i) + (0 - 0) * (0 - 0) := by
    rw [sub_self, mul_zero, add_zero]
    exact mul_self_pos.mpr hne
  rw [Network.withinReach, coord_tramNode dwell hi, coord_tramNode dwell hj, Point.squareTo_coe,
    mul_zero, decide_eq_false_iff_not, not_le]
  exact EReal.coe_pos.mpr hpos

/-- Without transfers over a distance, the edges along the tram are its two rides. -/
theorem edges_tram_zero (dwell : ℕ) : (Network.ofTimetable (.tram dwell) (0 : EReal)).edges =
    #[tramRide dwell 0, tramRide dwell 1] :=
  Network.edges_tram dwell fun _ hi _ hj hij ↦ withinReach_tramNode_zero dwell hi hj hij

/-- The rides on the tram are such edges. -/
theorem tramRide_mem_edges (dwell : ℕ) {position : ℕ} (h : position < 2) :
    tramRide dwell position ∈ (Network.ofTimetable (.tram dwell) (0 : EReal)).edges := by
  rw [edges_tram_zero]
  match position with
  | 0 => simp
  | 1 => simp
  | _ + 2 => omega

/-- The tram takes a hundred seconds to the next stop. -/
theorem inVehicle_tramRide (dwell : ℕ) {position : ℕ} (h : position < 2) :
    inVehicle (tramRide dwell position) = ((100 : ℝ) : EReal) := by
  have hrun : (tramRide dwell position : Edge EReal).head.call.arrives -
      (tramRide dwell position : Edge EReal).tail.call.departs = ((100 : ℝ) : EReal) := by
    change (Timetable.tramCall dwell (position + 1)).arrives -
      (Timetable.tramCall dwell position).departs = _
    rw [Timetable.arrives_tramCall, Timetable.departs_tramCall, Scalar.ofNat_exact,
      Scalar.ofNat_exact, ← EReal.coe_sub]
    match position with
    | 0 => norm_num [Timetable.tramArrives, Timetable.tramDeparts]
    | 1 => norm_num [Timetable.tramArrives, Timetable.tramDeparts]
    | _ + 2 => omega
  rw [inVehicle, hrun]
  refine if_neg (not_lt_of_ge ?_)
  rw [Scalar.zero_exact]
  exact EReal.coe_nonneg.mpr (by norm_num)

/-- The tram is waited for until it leaves, on the first day on which this is not too early. -/
theorem wait_tramRide (dwell position : ℕ) (now : ℝ) (k : ℕ)
    (least : ∀ j < k, 900 + Timetable.tramDeparts dwell position + (j : ℝ) * 86400 < now)
    (reached : now ≤ 900 + Timetable.tramDeparts dwell position + (k : ℝ) * 86400) :
    wait (Departures.ofTimetable (.tram dwell)).lookup (tramRide dwell position) (now : EReal) =
      ((900 + Timetable.tramDeparts dwell position + k * 86400 - now : ℝ) : EReal) := by
  change (Departures.ofTimetable (.tram dwell)).lookup.next ⟨0⟩ (Timetable.tramCall dwell position)
    (now : EReal) - now = _
  rw [Departures.next_tram dwell position now k least reached, ← EReal.coe_sub]

/-- A ride on the tram takes the wait for it and the time to the next stop. -/
theorem travelTime_tramRide (p : Parameters EReal) (dwell : ℕ) {position : ℕ} (h : position < 2)
    (now : ℝ) (k : ℕ)
    (least : ∀ j < k, 900 + Timetable.tramDeparts dwell position + (j : ℝ) * 86400 < now)
    (reached : now ≤ 900 + Timetable.tramDeparts dwell position + (k : ℝ) * 86400) :
    travelTime (Departures.ofTimetable (.tram dwell)).lookup p (tramRide dwell position)
        (now : EReal) =
      ((900 + Timetable.tramDeparts dwell position + k * 86400 - now + 100 : ℝ) : EReal) := by
  change wait _ _ _ + inVehicle _ = _
  rw [wait_tramRide dwell position now k least reached, inVehicle_tramRide dwell h,
    ← EReal.coe_add]

/-- Who comes when the tram leaves takes a hundred seconds to the next stop. -/
theorem travelTime_tramRide_of_leaves (p : Parameters EReal) (dwell : ℕ) {position : ℕ}
    (h : position < 2) (now : ℝ) (k : ℕ)
    (leaves : now = 900 + Timetable.tramDeparts dwell position + (k : ℝ) * 86400) :
    travelTime (Departures.ofTimetable (.tram dwell)).lookup p (tramRide dwell position)
        (now : EReal) = ((100 : ℝ) : EReal) := by
  rw [travelTime_tramRide p dwell h now k _ leaves.le]
  · congr 1
    rw [leaves]
    ring
  · intro j hj
    have hday : (j : ℝ) + 1 ≤ k := by exact_mod_cast hj
    linarith

end DoorToDoor.Cost
