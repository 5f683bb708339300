import DoorToDoor.Proofs.Itinerary.RideEnds
import DoorToDoor.Proofs.Itinerary.Scan

/-!
# Paths that are refused

An engine may answer with any list of edges. An itinerary is refused if and only if a ride on one
route ends at a node of another, where a transfer follows on it or at the end of the path
(`refusals_of_itinerary`), whether the edges meet or not. The error names the request and the two
routes. This rests on what is known of a journey from the last edge that it has followed
(`Behind`): it is aboard if and only if that edge is a ride, and then at the head of this edge, so a
ride that ends where another one is boarded always ends on its route.
-/

namespace DoorToDoor

private theorem Edge.route?_eq_none_iff {α : Type} {e : Edge α} :
    e.route? = none ↔ e.kind = .transfer := by
  rw [route?]
  cases e.kind <;> simp

namespace Routing

variable {α : Type} {last : Node α} {e e' : Edge α} {es : List (Edge α)} {ride node : RouteId}

/-- Whether a ride on one route ends at a node of another or the same: because a transfer that
leaves this node follows on it, or because the edges end with it and the path ends at this node. -/
def RideEndsAt (last : Node α) (es : List (Edge α)) (ride node : RouteId) : Prop :=
  (∃ (i : Nat) (e e' : Edge α), es[i]? = some e ∧ es[i + 1]? = some e' ∧ e.route? = some ride ∧
    e'.kind = .transfer ∧ e'.tail.route = node) ∨
  ∃ e, es.getLast? = some e ∧ e.route? = some ride ∧ last.route = node

private theorem rideEndsAt_cons_cons : RideEndsAt last (e :: e' :: es) ride node ↔
    (e.route? = some ride ∧ e'.kind = .transfer ∧ e'.tail.route = node) ∨
      RideEndsAt last (e' :: es) ride node := by
  constructor
  · rintro (⟨i, a, b, ha, hb, hends⟩ | ⟨a, ha, hends⟩)
    · cases i with
      | zero =>
        cases ha
        cases hb
        exact .inl hends
      | succ i => exact .inr (.inl ⟨i, a, b, ha, hb, hends⟩)
    · exact .inr (.inr ⟨a, by rwa [List.getLast?_cons_cons] at ha, hends⟩)
  · rintro (hends | ⟨i, a, b, ha, hb, hends⟩ | ⟨a, ha, hends⟩)
    · exact .inl ⟨0, e, e', rfl, rfl, hends⟩
    · exact .inl ⟨i + 1, a, b, ha, hb, hends⟩
    · exact .inr ⟨a, by rwa [List.getLast?_cons_cons], hends⟩

private theorem rideEndsAt_singleton :
    RideEndsAt last [e] ride node ↔ e.route? = some ride ∧ last.route = node := by
  constructor
  · rintro (⟨i, a, b, -, hb, -⟩ | ⟨a, ha, hends⟩)
    · cases hb
    · cases ha
      exact hends
  · exact fun hends ↦ .inr ⟨e, rfl, hends⟩

/-- Where a journey is, by the route on which the last edge was ridden: aboard on this route, at a
node of it, and on foot behind a transfer, as at the start. -/
inductive Behind : Option RouteId → Stage α → Prop
  | aboard {ride : Boarded α} (reached : ride.reached.route = ride.route) :
    Behind (some ride.route) (.riding ride)
  | onFoot {stage : Stage α} (walking : ∀ ride, stage ≠ .riding ride) : Behind none stage

private theorem behind_atStart : Behind none (.atStart : Stage α) := .onFoot nofun

variable [Scalar α] {t : Timetable α} {reach : α} {s : Setting α} {r : Request α}

/-- Every move leads to where a journey is behind its edge. -/
theorem behind_of_move {x y : Trip α × Stage α} (he : e ∈ (Network.ofTimetable t reach).edges)
    (hmove : s.Move r x e y) : Behind e.route? y.2 := by
  have hride {line : LineId} {route : RouteId} {boarding : Node α}
      (kind : e.kind = .ride line route) (line' : LineId) :
      Behind e.route? (.riding ⟨line', route, boarding, e.head⟩) := by
    obtain ⟨-, hhead, -⟩ := Network.route_of_ride_mem_edges he kind
    rw [Edge.route?, kind]
    exact @Behind.aboard _ ⟨line', route, boarding, e.head⟩ hhead
  cases hmove with
  | walkOn kind walking => exact Edge.route?_eq_none_iff.mpr kind ▸ .onFoot walking
  | alight kind => exact Edge.route?_eq_none_iff.mpr kind ▸ .onFoot nofun
  | depart kind => exact hride kind _
  | change kind => exact hride kind _
  | stayOn kind => exact hride kind _
  | switch kind => exact hride kind _

private theorem closeRide_of_ne {trip : Trip α} {ride : Boarded α} {alighting : Node α}
    (distance : α) (other : alighting.route ≠ ride.route) :
    s.closeRide r trip ride alighting distance =
      .error (r.inconsistent (.rideEndsElsewhere ride.route alighting.route)) :=
  if_neg other

namespace Behind

variable {ridden : Option RouteId} {stage : Stage α}

/-- An edge is followed, unless it is a transfer that follows on a ride and leaves a node of another
route. -/
theorem follow (h : Behind ridden stage) (s : Setting α) (r : Request α) (trip : Trip α)
    (e : Edge α) :
    (∃ y, s.Move r (trip, stage) e y ∧
      ∀ ride, ridden = some ride → e.kind = .transfer → e.tail.route = ride) ∨
    ∃ ride, ridden = some ride ∧ e.kind = .transfer ∧ ride ≠ e.tail.route ∧
      s.follow r (trip, stage) e =
        .error (r.inconsistent (.rideEndsElsewhere ride e.tail.route)) := by
  cases kind : e.kind with
  | ride line route =>
    refine .inl ?_
    cases h with
    | @aboard ride reached =>
      by_cases same : route = ride.route
      · subst same
        exact ⟨_, .stayOn kind, nofun⟩
      · exact ⟨_, .switch kind reached same, nofun⟩
    | onFoot walking =>
      cases stage with
      | atStart => exact ⟨_, .depart kind, nofun⟩
      | alighted node => exact ⟨_, .change kind, nofun⟩
      | riding ride => exact absurd rfl (walking ride)
  | transfer =>
    cases h with
    | @aboard ride reached =>
      by_cases same : e.tail.route = ride.route
      · exact .inl ⟨_, .alight kind same, fun route hroute _ ↦ same.trans (Option.some.inj hroute)⟩
      · refine .inr ⟨ride.route, rfl, rfl, Ne.symm same, ?_⟩
        unfold Setting.follow
        rw [kind]
        dsimp only
        rw [closeRide_of_ne _ same]
        rfl
    | onFoot walking => exact .inl ⟨_, .walkOn kind walking, nofun⟩

/-- A journey ends, unless it ends with a ride at a node of another route. -/
theorem conclude (h : Behind ridden stage) (s : Setting α) (r : Request α) (trip : Trip α)
    (last : Node α) :
    (∃ legs, s.conclude r last trip stage = .ok legs ∧
      ∀ ride, ridden = some ride → last.route = ride) ∨
    ∃ ride, ridden = some ride ∧ ride ≠ last.route ∧
      s.conclude r last trip stage =
        .error (r.inconsistent (.rideEndsElsewhere ride last.route)) := by
  cases h with
  | @aboard ride reached =>
    by_cases same : last.route = ride.route
    · exact .inl ⟨_, Setting.conclude_of_ending (.riding same), fun route hroute ↦
        same.trans (Option.some.inj hroute)⟩
    · refine .inr ⟨ride.route, rfl, Ne.symm same, ?_⟩
      unfold Setting.conclude
      dsimp only
      rw [closeRide_of_ne _ same]
      rfl
  | onFoot walking =>
    cases stage with
    | atStart => exact .inl ⟨_, rfl, nofun⟩
    | alighted node => exact .inl ⟨_, rfl, nofun⟩
    | riding ride => exact absurd rfl (walking ride)

/-- Behind an edge the rest of a path gives legs if every ride ends on its route, and else the error
that one does not. -/
theorem scanFrom (h : Behind e.route? stage) (s : Setting α) (r : Request α) (trip : Trip α)
    (last : Node α) (edges : ∀ e ∈ es, e ∈ (Network.ofTimetable t reach).edges) :
    (∃ legs, s.scanFrom r last es (trip, stage) = .ok legs ∧
      ∀ ride node, RideEndsAt last (e :: es) ride node → node = ride) ∨
    ∃ ride node, ride ≠ node ∧ RideEndsAt last (e :: es) ride node ∧
      s.scanFrom r last es (trip, stage) =
        .error (r.inconsistent (.rideEndsElsewhere ride node)) := by
  induction es generalizing e trip stage with
  | nil =>
    rcases h.conclude s r trip last with ⟨legs, hlegs, hfits⟩ | ⟨ride, hroute, other, herror⟩
    · refine .inl ⟨legs, hlegs, fun ride node hends ↦ ?_⟩
      obtain ⟨hroute, rfl⟩ := rideEndsAt_singleton.mp hends
      exact hfits ride hroute
    · exact .inr ⟨ride, _, other, rideEndsAt_singleton.mpr ⟨hroute, rfl⟩, herror⟩
  | cons e' rest ih =>
    obtain ⟨he', hrest⟩ := List.forall_mem_cons.mp edges
    rcases h.follow s r trip e' with ⟨y, hmove, hfits⟩ | ⟨ride, hroute, kind, other, herror⟩
    · rw [Setting.scanFrom_of_move hmove]
      rcases ih (behind_of_move he' hmove) y.1 hrest with ⟨legs, hlegs, hothers⟩ | ⟨ride, node,
        other, hends, herror⟩
      · refine .inl ⟨legs, hlegs, fun ride node hends ↦ ?_⟩
        rcases rideEndsAt_cons_cons.mp hends with ⟨hroute, kind, rfl⟩ | hends
        · exact hfits ride hroute kind
        · exact hothers ride node hends
      · exact .inr ⟨ride, node, other, rideEndsAt_cons_cons.mpr (.inr hends), herror⟩
    · refine .inr ⟨ride, _, other, rideEndsAt_cons_cons.mpr (.inl ⟨hroute, kind, rfl⟩), ?_⟩
      rw [Setting.scanFrom_cons, herror]
      rfl

end Behind

namespace Setting

/-- Along edges of the network there is an itinerary if every ride ends on its route, and else the
error that one does not. -/
theorem itinerary_or_error (s : Setting α) (r : Request α) (path : Path α)
    (edges : ∀ e ∈ path.edges, e ∈ (Network.ofTimetable t reach).edges) :
    (∃ legs, s.itinerary r path = .ok legs ∧
      ∀ ride node, RideEndsAt path.last path.edges ride node → node = ride) ∨
    ∃ ride node, ride ≠ node ∧ RideEndsAt path.last path.edges ride node ∧
      s.itinerary r path = .error (r.inconsistent (.rideEndsElsewhere ride node)) := by
  change (∃ legs, s.scanFrom r path.last path.edges (.start r.departure, .atStart) = .ok legs ∧ _) ∨
    ∃ ride node, _ ∧ _ ∧
      s.scanFrom r path.last path.edges (.start r.departure, .atStart) = _
  cases hpath : path.edges with
  | nil =>
    refine .inl ⟨_, rfl, ?_⟩
    rintro ride node (⟨i, e, e', he, -⟩ | ⟨e, he, -⟩)
    · cases he
    · cases he
  | cons e rest =>
    rw [hpath, List.forall_mem_cons] at edges
    rcases behind_atStart.follow s r (.start r.departure) e with ⟨y, hmove, -⟩ | ⟨ride, hroute, -⟩
    · rw [scanFrom_of_move hmove]
      exact (behind_of_move edges.1 hmove).scanFrom s r y.1 path.last edges.2
    · cases hroute

private theorem exists_follow_of_ride (s : Setting α) (r : Request α) (path : Path α)
    (edges : ∀ e ∈ path.edges, e ∈ (Network.ofTimetable t reach).edges) {i : Nat} {e : Edge α}
    {x : Trip α × Stage α} (kind : e.kind ≠ .transfer)
    (before : (path.edges.take i).foldlM (s.follow r) (.start r.departure, .atStart) = .ok x) :
    ∃ y, s.follow r x e = .ok y := by
  obtain ⟨-, ridden, hbehind⟩ := Result.inv_of_foldlM
    (P := fun es x ↦ (∀ e ∈ es, e ∈ (Network.ofTimetable t reach).edges) ∧
      ∃ ridden, Behind ridden x.2)
    (by
      rintro e rest x y ⟨hedges, -⟩ hfollow
      obtain ⟨he, hrest⟩ := List.forall_mem_cons.mp hedges
      exact ⟨hrest, e.route?, behind_of_move he (move_of_follow hfollow)⟩)
    (path.edges.take i)
    ⟨fun e he ↦ edges e (List.mem_of_mem_take he), none, behind_atStart⟩ before
  rcases hbehind.follow s r x.1 e with ⟨y, hmove, -⟩ | ⟨_, -, htransfer, -⟩
  · exact ⟨y, follow_of_move hmove⟩
  · exact absurd htransfer kind

/-- Which paths along edges of the network are refused, whether their edges meet or not: there is no
itinerary if and only if a ride on one route ends at a node of another, where a transfer follows on
it or at the end of the path. The error then names the request and the two routes. The scan by
places has two more refusals, which never arise, and a ride edge is always followed, also one that
changes the route without a transfer. -/
theorem refusals_of_itinerary (t : Timetable α) (reach : α) (s : Setting α) (r : Request α)
    (path : Path α) (edges : ∀ e ∈ path.edges, e ∈ (Network.ofTimetable t reach).edges) :
    ((∃ err, s.itinerary r path = .error err) ↔
      ∃ ride node, ride ≠ node ∧ RideEndsAt path.last path.edges ride node) ∧
    (∀ err, s.itinerary r path = .error err →
      ∃ ride node, ride ≠ node ∧ RideEndsAt path.last path.edges ride node ∧
        err = .inconsistent r.person.id r.start r.finish r.departure
          (.rideEndsElsewhere ride node)) ∧
    s.scan r path = s.itinerary r path ∧
    (∀ ride, s.scan r path ≠ .error (r.inconsistent (.ridesBeforeFirstEdge ride))) ∧
    s.scan r path ≠ .error (r.inconsistent .alightsNowhere) ∧
    ∀ (i : Nat) (e : Edge α) (x : Trip α × Stage α), path.edges[i]? = some e →
      e.kind ≠ .transfer →
      (path.edges.take i).foldlM (s.follow r) (.start r.departure, .atStart) = .ok x →
        ∃ y, s.follow r x e = .ok y := by
  have houtcome := s.itinerary_or_error r path edges
  have herror : ∀ err, s.itinerary r path = .error err →
      ∃ ride node, ride ≠ node ∧ RideEndsAt path.last path.edges ride node ∧
        err = r.inconsistent (.rideEndsElsewhere ride node) := by
    intro err herr
    rcases houtcome with ⟨legs, hlegs, -⟩ | ⟨ride, node, other, hends, hrefused⟩
    · cases hlegs.symm.trans herr
    · exact ⟨ride, node, other, hends, (Except.error.inj (hrefused.symm.trans herr)).symm⟩
  rw [scan_eq_itinerary]
  refine ⟨⟨?_, ?_⟩, herror, rfl, fun ride herr ↦ ?_, fun herr ↦ ?_, ?_⟩
  · rintro ⟨err, herr⟩
    obtain ⟨ride, node, other, hends, -⟩ := herror err herr
    exact ⟨ride, node, other, hends⟩
  · rintro ⟨ride, node, other, hends⟩
    rcases houtcome with ⟨legs, -, hfits⟩ | ⟨_, _, -, -, hrefused⟩
    · exact absurd (hfits ride node hends).symm other
    · exact ⟨_, hrefused⟩
  · obtain ⟨_, _, -, -, h⟩ := herror _ herr
    cases h
  · obtain ⟨_, _, -, -, h⟩ := herror _ herr
    cases h
  · exact fun i e x _ kind before ↦ s.exists_follow_of_ride r path edges kind before

/-- The shuttle, and a second route of its line with the same calls. -/
def twoShuttles : Timetable α where
  stops := Timetable.shuttle.stops
  lines := #[⟨⟨0⟩, "shuttle", [⟨0⟩, ⟨1⟩]⟩]
  routes := #[Timetable.shuttleRoute, { Timetable.shuttleRoute with id := ⟨1⟩, name := "back" }]

/-- The end of the second route. -/
def farEast : Node α := { Network.east with id := ⟨3⟩, route := ⟨1⟩ }

/-- The path along the ride on the first route that claims to end on the second one. -/
def strayPath : Path α where
  nodes := [Network.west, farEast]
  edges := [Network.shuttleRide]
  travelCost := Scalar.zero
  travelTime := Scalar.zero
  nodes_ne := List.cons_ne_nil _ _

private theorem mem_twoShuttles :
    (Network.shuttleRide : Edge α) ∈ (Network.ofTimetable twoShuttles reach).edges ∧
      (strayPath : Path α).last ∈ (Network.ofTimetable twoShuttles reach).nodes := by
  have first : (Network.outLists twoShuttles reach).flatten[0]? =
      some (Network.ride (Network.west : Node α) Network.east) := rfl
  refine ⟨?_, Array.mem_of_getElem? (i := 3) rfl⟩
  rw [← Array.mem_toList_iff, Network.toList_edges, List.mem_iff_getElem?]
  exact ⟨0, by rw [List.getElem?_mapIdx, first]; rfl⟩

/-- This path is refused because of the two routes. -/
theorem refusals_of_itinerary_stray : (twoShuttles : Timetable Float).Built ∧
    ∃ (err : Error Float) (ride node : RouteId),
      shuttleByTaxi.itinerary shuttleRequest strayPath = .error err ∧ ride ≠ node ∧
      RideEndsAt (farEast : Node Float) [Network.shuttleRide] ride node ∧
      err = .inconsistent ⟨0⟩ ⟨Scalar.zero, Scalar.zero⟩ ⟨Scalar.ofNat 1000, Scalar.zero⟩
        (Clock.time 7 30 0) (.rideEndsElsewhere ride node) := by
  have built : (twoShuttles : Timetable Float).Built := by
    have added : (Timetable.shuttle : Timetable Float).addRoute ⟨0⟩ "back"
        Timetable.shuttleRoute.calls Timetable.shuttleRoute.departures =
        .ok (⟨1⟩, twoShuttles) := rfl
    exact .addRoute Timetable.built_shuttle added
  obtain ⟨hiff, herror, -⟩ := refusals_of_itinerary twoShuttles 0 shuttleByTaxi shuttleRequest
    (strayPath : Path Float) (List.forall_mem_singleton.mpr mem_twoShuttles.1)
  obtain ⟨err, herr⟩ := hiff.mpr ⟨⟨0⟩, ⟨1⟩, by decide, .inr ⟨Network.shuttleRide, rfl, rfl, rfl⟩⟩
  obtain ⟨ride, node, other, hends, rfl⟩ := herror err herr
  exact ⟨built, _, ride, node, herr, other, hends, rfl⟩

end Setting

end Routing

end DoorToDoor
