import DoorToDoor.Proofs.Itinerary.Clocks
import DoorToDoor.Proofs.Itinerary.Rides
import DoorToDoor.Proofs.Network.Transfers

/-!
# Changes between rides

Where a transfer stands between two rides of a path, the itinerary leads from the one to the other:
by a walk that takes as long as the transfer when this joins two stops, wherever they lie, and by
nothing when both rides are at one stop (`Setting.change_of_itinerary`). The transfer takes the
transfer margin there, so only without a margin does the change take the same time in both.
-/

namespace DoorToDoor

namespace Routing

/-- Whether the legs between two rides are as a transfer between them says. Between two stops it is
a walk that takes as long as the transfer. At one stop it is nothing, and the transfer takes the
margin. -/
structure TakesTransfer (s : Setting EReal) (person : Person) (e : Edge EReal) (first : Leg EReal)
    (change : List (Leg EReal)) (second : Leg EReal) : Prop where
  lasts : e.tail.stop ≠ e.head.stop ∨ s.parameters.transferMargin = 0 →
    ∀ now, second.departure = first.arrival + s.costs.travelTime person e now
  walk : e.tail.stop ≠ e.head.stop → ∃ leg, change = [leg] ∧ leg.IsTransitWalk ∧
    leg.departure = first.arrival ∧ ∀ now, leg.travelTime = s.costs.travelTime person e now
  stays : e.tail.stop = e.head.stop → change = [] ∧ second.departure = first.arrival ∧
    ∀ now, s.costs.travelTime person e now = s.parameters.transferMargin

section

variable {t : Timetable EReal} {reach : EReal} {access : AccessModel EReal}
  {p : Parameters EReal} {r : Request EReal} {e : Edge EReal} {trip : Trip EReal}

/-- The way from the tail of a transfer to its head is as the transfer says. -/
theorem exists_change_of_transfer (wf : t.WellFormed)
    (places : ∀ stop ∈ t.stops, stop.coord.IsFinite)
    (he : e ∈ (Network.ofTimetable t reach).edges) (kind : e.kind = .transfer)
    {first second : Leg EReal} (arrives : first.arrival = trip.clock)
    (departs : second.departure =
      ((Setting.ofTimetable t access p).approach r trip (some e.tail) e.head).clock) :
    ∃ change, ((Setting.ofTimetable t access p).approach r trip (some e.tail) e.head).legs =
        trip.legs ++ change ∧
      TakesTransfer (.ofTimetable t access p) r.person e first change second := by
  have htime (now : EReal) :
      (Setting.ofTimetable t access p).costs.travelTime r.person e now = Cost.transferTime p e :=
    Cost.travelTime_of_transfer _ p kind now
  rw [Setting.approach] at departs ⊢
  split at departs
  · next same =>
    have hmargin := Cost.transferTime_of_stop_eq wf he places same (p := p)
    rw [if_pos same]
    refine ⟨[], (List.append_nil _).symm, ?_⟩
    constructor
    case lasts =>
      rintro (other | none) now
      · exact absurd same other
      · have hnone : p.transferMargin = 0 := none
        rw [htime, hmargin, departs, arrives, hnone, add_zero]
    case walk => exact fun other ↦ absurd same other
    case stays =>
      exact fun _ ↦ ⟨rfl, departs.trans arrives.symm, fun now ↦ (htime now).trans hmargin⟩
  · next other =>
    have hwalk : ((Setting.ofTimetable t access p).walk r.person e.tail.coord (some e.tail.link)
        e.head.coord (some e.head.link)).travelTime = Cost.transferTime p e :=
      travelTime_walk_of_transfer he r.person (some e.tail.link) (some e.head.link)
    rw [if_neg other]
    refine ⟨_, Trip.legs_push _ _, ?_⟩
    constructor
    case lasts =>
      intro _ now
      rw [htime, arrives, departs, ← hwalk]
      rfl
    case walk =>
      exact fun _ ↦ ⟨_, rfl, ⟨rfl, rfl⟩, arrives.symm, fun now ↦ hwalk.trans (htime now).symm⟩
    case stays => exact fun same ↦ absurd same other

private theorem exists_change_of_runs (access : AccessModel EReal) (p : Parameters EReal)
    (r : Request EReal) (wf : t.WellFormed) (places : ∀ stop ∈ t.stops, stop.coord.IsFinite)
    (he : e ∈ (Network.ofTimetable t reach).edges) (kind : e.kind = .transfer)
    {run run' : Run EReal} (along : AlongRoute t reach run) (along' : AlongRoute t reach run')
    (alights : run.alighting = e.tail) (boards : run'.boarding = e.head)
    (x : Trip EReal × Option (Node EReal)) :
    let s := Setting.ofTimetable t access p
    let y := s.takeRun r x run
    ∃ before first change second, y.1.legs = before ++ [first] ∧
      (s.takeRun r y run').1.legs = before ++ first :: change ++ [second] ∧
      IsRideAlong t p run first ∧ IsRideAlong t p run' second ∧
      TakesTransfer s r.person e first change second := by
  intro s y
  obtain ⟨first, hfirst, hride, -, harrives⟩ := s.exists_takeRun r wf along x.1 x.2
  obtain ⟨second, hsecond, hride', hdeparts, -⟩ := s.exists_takeRun r wf along' y.1 y.2
  have hplace : y.2 = some e.tail := congrArg some alights
  rw [hplace, boards] at hsecond hdeparts
  obtain ⟨change, hchange, hby⟩ := exists_change_of_transfer wf places he kind harrives hdeparts
  refine ⟨_, first, change, second, hfirst, ?_, hride, hride', hby⟩
  change (s.takeRun r (y.1, y.2) run').1.legs = _
  rw [hplace, hsecond, hchange, hfirst]
  simp only [List.append_assoc, List.cons_append, List.nil_append]

end

namespace Setting

/-- Between two rides of a walk that a transfer joins, the itinerary has a walk that takes as long
as the transfer, unless both rides are at one stop. There it has nothing, so the change takes the
same time in both when there is no transfer margin. -/
theorem change_of_itinerary (t : Timetable EReal) (built : t.Built)
    (places : ∀ stop ∈ t.stops, stop.coord.IsFinite) (reach : EReal) (access : AccessModel EReal)
    (p : Parameters EReal) (r : Request EReal) (path : Path EReal)
    (walk : (Network.ofTimetable t reach).IsWalk path.first.id path.edges path.last.id)
    (last : path.last ∈ (Network.ofTimetable t reach).nodes) (front back : List (Edge EReal))
    (e₁ e e₂ : Edge EReal) (split : path.edges = front ++ e₁ :: e :: e₂ :: back)
    (ride₁ : e₁.isRide = true) (kind : e.kind = .transfer) (ride₂ : e₂.isRide = true) :
    let s := Setting.ofTimetable t access p
    ∃ rs run₁ run₂ rs', runs (front ++ [e₁, e]) = rs ++ [run₁] ∧ runs (e₂ :: back) = run₂ :: rs' ∧
      ∃ before first change second after,
        s.itinerary r path = .ok (before ++ first :: change ++ second :: after) ∧
        ((rs ++ [run₁]).foldl (s.takeRun r) (.start r.departure, none)).1.legs =
          before ++ [first] ∧
        IsRideAlong t p run₁ first ∧ run₁.alighting = e.tail ∧
        IsRideAlong t p run₂ second ∧ run₂.boarding = e.head ∧
        TakesTransfer s r.person e first change second := by
  intro s
  have wf := built.wellFormed
  obtain ⟨rs, run₁, hrun₁, halights, -⟩ := (exists_runs_eq_concat ride₁ kind front).1
  obtain ⟨line, route, kind₂⟩ := Edge.exists_kind_of_isRide ride₂
  obtain ⟨run₂, rs', hrun₂, hboards⟩ :
      ∃ run₂ rs', runs (e₂ :: back) = run₂ :: rs' ∧ run₂.boarding = e₂.tail :=
    ⟨_, _, runs_cons_of_ride kind₂, rfl⟩
  have hruns : runs path.edges = rs ++ run₁ :: run₂ :: rs' := by
    have hparted := (runs_append_of_transfer kind (front ++ [e₁]) (e₂ :: back)).1
    simp only [List.append_assoc, List.cons_append, List.nil_append] at hparted
    rw [split, hparted, hrun₁, hrun₂, List.append_assoc]
    rfl
  -- The transfer leads from where the first run ends to where the second one begins.
  have walk' := split ▸ walk
  have he : e ∈ (Network.ofTimetable t reach).edges :=
    walk'.mem_edges e (List.mem_append_right front (List.mem_cons_of_mem e₁ List.mem_cons_self))
  have htail : run₁.alighting = e.tail := halights.trans (Network.head_eq_tail_of_isWalk walk')
  have hhead : run₂.boarding = e.head := by
    rw [hboards]
    rw [List.append_cons] at walk'
    exact (Network.head_eq_tail_of_isWalk walk').symm
  have halong : ∀ run ∈ runs path.edges, AlongRoute t reach run :=
    (AlongRoute.of_mem_followedBy wf).1 path.first.id walk
  rw [hruns] at halong
  obtain ⟨before, first, change, second, hfirst, hsecond, hride, hride', hby⟩ :=
    exists_change_of_runs access p r wf places he kind (halong run₁ (by simp))
      (halong run₂ (by simp)) htail hhead (rs.foldl (s.takeRun r) (.start r.departure, none))
  obtain ⟨after, hafter⟩ := s.isPrefix_finish r rs' (s.takeRun r (s.takeRun r
    (rs.foldl (s.takeRun r) (.start r.departure, none)) run₁) run₂).1 run₂.alighting
  refine ⟨rs, run₁, run₂, rs', hrun₁, hrun₂, before, first, change, second, after, ?_, ?_, hride,
    htail, hride', hhead, hby⟩
  · rw [itinerary_eq_of_isWalk wf walk last, hruns, List.foldl_append]
    refine congrArg Except.ok (hafter.symm.trans ?_)
    rw [hsecond]
    simp only [List.append_assoc, List.cons_append, List.nil_append]
  · rw [List.foldl_append]
    exact hfirst

end Setting

end Routing

namespace Timetable

variable {α : Type} [Scalar α]

/-- The calls of the trams of a relay: each runs from one stop to the next one. -/
def relayCall (tram : Nat) : Nat → Call α
  | 0 => ⟨⟨tram⟩, none, some Scalar.zero⟩
  | _ => ⟨⟨tram + 1⟩, some (Scalar.ofNat 100), none⟩

/-- The routes of the trams. The second tram leaves a quarter of an hour behind the first one. -/
def relayRoute (tram : Nat) : Route α where
  id := ⟨tram⟩
  line := ⟨tram⟩
  name := "on"
  calls := [relayCall tram 0, relayCall tram 1]
  departures := [Clock.time 0 (15 + 15 * tram) 0]

/-- A timetable with two trams along the three stops of a tram, on lines of their own. -/
def relay : Timetable α where
  stops := (tram 0).stops
  lines := #[⟨⟨0⟩, "first", [⟨0⟩]⟩, ⟨⟨1⟩, "second", [⟨1⟩]⟩]
  routes := #[relayRoute 0, relayRoute 1]

private theorem built_relay : (relay : Timetable α).Built := by
  have lines : Built (⟨(tram 0).stops, #[⟨⟨0⟩, "first", []⟩, ⟨⟨1⟩, "second", []⟩], #[]⟩ :
      Timetable α) :=
    .addLine (.addLine (built_stops_tram 0) "first") "second"
  have added : (⟨(tram 0).stops, #[⟨⟨0⟩, "first", []⟩, ⟨⟨1⟩, "second", []⟩], #[]⟩ :
      Timetable α).addRoute ⟨0⟩ "on" (relayRoute 0).calls (relayRoute 0).departures =
        .ok (⟨0⟩, ⟨(tram 0).stops, #[⟨⟨0⟩, "first", [⟨0⟩]⟩, ⟨⟨1⟩, "second", []⟩],
          #[relayRoute 0]⟩) := rfl
  have added' : (⟨(tram 0).stops, #[⟨⟨0⟩, "first", [⟨0⟩]⟩, ⟨⟨1⟩, "second", []⟩],
      #[relayRoute 0]⟩ : Timetable α).addRoute ⟨1⟩ "on" (relayRoute 1).calls
        (relayRoute 1).departures = .ok (⟨1⟩, relay) := rfl
  exact .addRoute (.addRoute lines added) added'

private theorem exists_relayRoute {r : Route α} (hr : r ∈ (relay : Timetable α).routes) :
    ∃ tram, r = relayRoute tram := by
  rcases List.mem_pair.mp (Array.mem_toList_iff.mpr hr) with rfl | rfl
  · exact ⟨0, rfl⟩
  · exact ⟨1, rfl⟩

private theorem isFinite_relay : (relay : Timetable EReal).IsFinite where
  coord := (isFinite_tram 0).coord
  arrival r hr c hc time htime := by
    obtain ⟨tram, rfl⟩ := exists_relayRoute hr
    rcases List.mem_pair.mp hc with rfl | rfl
    · cases htime
    · cases htime
      exact Scalar.isFinite_ofNat 100
  departure r hr c hc time htime := by
    obtain ⟨tram, rfl⟩ := exists_relayRoute hr
    rcases List.mem_pair.mp hc with rfl | rfl
    · cases htime
      exact Scalar.isFinite_zero
    · cases htime
  departures r hr d hd := by
    obtain ⟨tram, rfl⟩ := exists_relayRoute hr
    obtain rfl := List.mem_singleton.mp hd
    exact Scalar.isFinite_ofNat _

end Timetable

namespace Network

open Timetable (relay relayRoute relayCall)

section

variable {α : Type} [Scalar α] {reach : α}

/-- A call of a tram of a relay as a node. -/
def relayNode (tram position : Nat) : Node α :=
  nodeOf relay (relayRoute tram) (2 * tram) position (relayCall tram position)

/-- The ride on a tram of a relay. -/
def relayRide (tram : Nat) : Edge α :=
  { ride (relayNode tram 0) (relayNode tram 1) with id := ⟨2 * tram⟩ }

/-- The transfer from the first tram of a relay to the second one. -/
def relayTransfer : Edge α :=
  { connect .transfer (relayNode 0 1) (relayNode 1 0) with id := ⟨1⟩ }

private theorem nodes_relay : (ofTimetable relay reach).nodes =
    #[relayNode 0 0, relayNode 0 1, relayNode 1 0, relayNode 1 1] := rfl

end

-- The second tram leaves where the first one ends.
private theorem transfers_relay_change : transfers relay (0 : EReal)
    [relayNode 0 0, relayNode 0 1, relayNode 1 0, relayNode 1 1] (relayNode 0 1) =
      [connect .transfer (relayNode 0 1) (relayNode 1 0)] := by
  have back : withinReach (0 : EReal) (relayNode 0 1) (relayNode 0 0) = false :=
    Cost.withinReach_tramNode_zero 0 (i := 1) (j := 0) (by omega) (by omega) (by omega)
  have near : withinReach (0 : EReal) (relayNode 0 1) (relayNode 1 0) = true := by
    have hplace : (relayNode 0 1 : Node EReal).coord = (relayNode 1 0 : Node EReal).coord := rfl
    have hfinite : (relayNode 1 0 : Node EReal).coord.IsFinite :=
      ⟨Scalar.isFinite_ofNat 1000, Scalar.isFinite_zero⟩
    rw [withinReach_iff le_rfl (hplace ▸ hfinite) hfinite, hplace, hfinite.distance_self]
  have hback : joins relay (0 : EReal) (relayNode 0 1) (relayNode 0 0) = false := by
    rw [joins, back, Bool.and_false]
  have hself : joins relay (0 : EReal) (relayNode 0 1) (relayNode 0 1) = false := rfl
  have hnear : joins relay (0 : EReal) (relayNode 0 1) (relayNode 1 0) = true := by
    rw [joins, near]
    rfl
  have hlast : joins relay (0 : EReal) (relayNode 0 1) (relayNode 1 1) = false := rfl
  simp [transfers, hback, hself, hnear, hlast]

-- Nothing leaves where the second tram ends.
private theorem transfers_relay_end : transfers relay (0 : EReal)
    [relayNode 0 0, relayNode 0 1, relayNode 1 0, relayNode 1 1] (relayNode 1 1) = [] := by
  have first : withinReach (0 : EReal) (relayNode 1 1) (relayNode 0 0) = false :=
    Cost.withinReach_tramNode_zero 0 (i := 2) (j := 0) (by omega) (by omega) (by omega)
  have second : withinReach (0 : EReal) (relayNode 1 1) (relayNode 1 0) = false :=
    Cost.withinReach_tramNode_zero 0 (i := 2) (j := 1) (by omega) (by omega) (by omega)
  have hfirst : joins relay (0 : EReal) (relayNode 1 1) (relayNode 0 0) = false := by
    rw [joins, first, Bool.and_false]
  have hchange : joins relay (0 : EReal) (relayNode 1 1) (relayNode 0 1) = false := rfl
  have hsecond : joins relay (0 : EReal) (relayNode 1 1) (relayNode 1 0) = false := by
    rw [joins, second, Bool.and_false]
  have hself : joins relay (0 : EReal) (relayNode 1 1) (relayNode 1 1) = false := rfl
  simp [transfers, hfirst, hchange, hsecond, hself]

private theorem edges_relay : (ofTimetable relay (0 : EReal)).edges =
    #[relayRide 0, relayTransfer, relayRide 1] := by
  have houts : outLists relay (0 : EReal) =
      [[ride (relayNode 0 0) (relayNode 0 1)], [connect .transfer (relayNode 0 1) (relayNode 1 0)],
        [ride (relayNode 1 0) (relayNode 1 1)], []] := by
    -- No transfer leaves a first call.
    change [[ride (relayNode 0 0) (relayNode 0 1)], transfers relay 0 _ (relayNode 0 1),
      [ride (relayNode 1 0) (relayNode 1 1)], transfers relay 0 _ (relayNode 1 1)] = _
    exact congrArg₂ (fun change rest ↦ [_, change, _, rest]) transfers_relay_change
      transfers_relay_end
  rw [← Array.toList_inj, toList_edges, houts]
  rfl

end Network

namespace Routing

open Network (relayNode relayRide relayTransfer)
open Timetable (relay)

/-- The path along a relay. -/
noncomputable def relayPath : Path EReal where
  nodes := [relayNode 0 0, relayNode 0 1, relayNode 1 0, relayNode 1 1]
  edges := [relayRide 0, relayTransfer, relayRide 1]
  travelCost := 0
  travelTime := 0
  nodes_ne := List.cons_ne_nil _ _

private theorem mem_edges_relayPath : ∀ e ∈ relayPath.edges,
    e ∈ (Network.ofTimetable relay (0 : EReal)).edges := by
  intro e he
  rw [Network.edges_relay]
  exact List.mem_toArray.mpr he

private theorem isWalk_relayPath :
    (Network.ofTimetable relay (0 : EReal)).IsWalk relayPath.first.id relayPath.edges
      relayPath.last.id :=
  ⟨mem_edges_relayPath (relayRide 0) (by simp [relayPath]), rfl,
    mem_edges_relayPath relayTransfer (by simp [relayPath]), rfl,
    mem_edges_relayPath (relayRide 1) (by simp [relayPath]), rfl, rfl, Nat.lt_succ_self 3⟩

private theorem last_mem_relayPath :
    relayPath.last ∈ (Network.ofTimetable relay (0 : EReal)).nodes := by
  rw [Network.nodes_relay]
  exact Array.mem_of_getElem? (i := 3) rfl

/-- Without a transfer margin the change in a relay takes the same time in both. -/
theorem Setting.change_of_itinerary_relay :
    let s : Setting EReal :=
      .ofTimetable relay (AccessByDistance.ofParameters wideSearch).model wideSearch
    ∃ before first change second after,
      s.itinerary tramTrip relayPath = .ok (before ++ first :: change ++ second :: after) ∧
      first.isRide = true ∧ second.isRide = true ∧ ∀ now, second.departure =
        first.arrival + s.costs.travelTime tramTrip.person relayTransfer now := by
  obtain ⟨_, _, _, _, -, -, before, first, change, second, after, found, -, hfirst, -, hsecond, -,
      hchange⟩ :=
    Setting.change_of_itinerary relay Timetable.built_relay Timetable.isFinite_relay.coord 0
      (AccessByDistance.ofParameters wideSearch).model wideSearch tramTrip relayPath
      isWalk_relayPath last_mem_relayPath [] [] (relayRide 0) relayTransfer (relayRide 1) rfl rfl
      rfl rfl
  exact ⟨before, first, change, second, after, found, hfirst.isRide, hsecond.isRide,
    hchange.lasts (.inr rfl)⟩

/-- Parameters by which every change takes a minute. -/
noncomputable def minuteChanges : Parameters EReal :=
  { wideSearch with transferMargin := ((60 : ℝ) : EReal) }

private theorem validate_minuteChanges : Settings.validate ⟨minuteChanges, [], []⟩ = .ok () := by
  obtain ⟨hpositives, -, hutilities, hmodes, haccess⟩ :=
    Settings.validate_eq_ok.mp validate_wideSearch
  refine Settings.validate_eq_ok.mpr ⟨hpositives, ?_, hutilities, hmodes, haccess⟩
  have hmargin : (0 : EReal) ≤ ((60 : ℝ) : EReal) := EReal.coe_nonneg.mpr (by norm_num)
  simp [Settings.nonNegatives, Settings.nonNegativeFault_eq_none, minuteChanges, wideSearch,
    Planner.freeRides, hmargin]

/-- In a relay with a transfer margin of a minute the transfer takes a minute, but the second ride
departs when the first one arrives. -/
theorem Setting.change_differs_relay :
    let s : Setting EReal :=
      .ofTimetable relay (AccessByDistance.ofParameters minuteChanges).model minuteChanges
    (relay : Timetable EReal).Built ∧ (relay : Timetable EReal).IsFinite ∧
      Settings.validate ⟨minuteChanges, [], []⟩ = .ok () ∧
      (Network.ofTimetable relay (0 : EReal)).IsWalk relayPath.first.id relayPath.edges
        relayPath.last.id ∧
      relayPath.last ∈ (Network.ofTimetable relay (0 : EReal)).nodes ∧
      relayPath.edges = [relayRide 0, relayTransfer, relayRide 1] ∧
      (∀ now, s.costs.travelTime tramTrip.person relayTransfer now = ((60 : ℝ) : EReal)) ∧
      ∃ before first second after,
        s.itinerary tramTrip relayPath = .ok (before ++ first :: second :: after) ∧
        first.course = .ride ⟨⟨0⟩, ⟨0⟩, ⟨0⟩, ⟨1⟩⟩ ∧ second.course = .ride ⟨⟨1⟩, ⟨1⟩, ⟨1⟩, ⟨2⟩⟩ ∧
        second.departure - first.arrival = 0 := by
  intro s
  have wf := (Timetable.built_relay (α := EReal)).wellFormed
  have finite := Timetable.isFinite_relay
  have hmargin : Cost.transferTime minuteChanges relayTransfer = ((60 : ℝ) : EReal) :=
    Cost.transferTime_of_stop_eq wf (mem_edges_relayPath relayTransfer (by simp [relayPath]))
      finite.coord rfl
  have timely : s.Timely :=
    timely_of_validate validate_minuteChanges (Scalar.isFinite_coe 60) rfl rfl _
  let trip : Trip EReal := s.addAccess tramTrip (.start tramTrip.departure) (relayNode 0 0)
  let first : Leg EReal := s.rideLeg ⟨⟨0⟩, ⟨0⟩, relayNode 0 0, relayNode 0 1⟩ (relayNode 0 1)
    trip.clock (relayTransfer : Edge EReal).length
  let changing : Trip EReal := trip.push first
  let second : Leg EReal := s.rideLeg ⟨⟨1⟩, ⟨1⟩, relayNode 1 0, relayNode 1 1⟩ (relayNode 1 1)
    changing.clock (s.rideDistance (relayNode 1 0) (relayNode 1 1))
  let arrived : Trip EReal := changing.push second
  have hitinerary : s.itinerary tramTrip relayPath =
      .ok (s.addEgress tramTrip arrived (relayNode 1 1)).legs := rfl
  obtain ⟨after, hafter⟩ := (s.continues_addEgress tramTrip arrived (relayNode 1 1)).isPrefix
  have onRoute : OnRoute relay (0 : EReal) ⟨⟨0⟩, ⟨0⟩, relayNode 0 0, relayNode 0 1⟩ :=
    onRoute_board (mem_edges_relayPath (relayRide 0) (by simp [relayPath])) rfl
  have hchanging : Timed relay changing :=
    ((Timed.start (Scalar.isFinite_coe 87300)).addAccess timely
      ⟨Scalar.isFinite_coe 0, Scalar.isFinite_coe 0⟩ (finite.node wf onRoute.boarding)).alight wf
      finite onRoute rfl _
  refine ⟨Timetable.built_relay, finite, validate_minuteChanges, isWalk_relayPath,
    last_mem_relayPath, rfl, fun now ↦ ?_, trip.legs, first.departingAt trip.clock,
    second.departingAt changing.clock, after, ?_, rfl, rfl, ?_⟩
  · exact (Cost.travelTime_of_transfer s.lookup minuteChanges rfl now).trans hmargin
  · rw [hitinerary, ← hafter, Trip.legs_push, Trip.legs_push]
    simp only [List.append_assoc, List.cons_append, List.nil_append]
  · change changing.clock - changing.clock = 0
    obtain ⟨hbot, htop⟩ := Scalar.isFinite_exact.mp hchanging.clock
    exact EReal.sub_self htop hbot

end Routing

end DoorToDoor
