import DoorToDoor.Proofs.Network.Layout
import DoorToDoor.Proofs.Result
import DoorToDoor.Routing.Itinerary

/-!
# The moves of a journey

What following an edge does to a journey in the making, as a relation with one rule for each case
(`Move`), and what may come of a journey whose path has ended (`Ending`). Whatever every move keeps
holds at the end of the path: `exists_ending`.
-/

namespace DoorToDoor.Routing

variable {α : Type} [Scalar α]

/-- Where a traveller is who does not ride: at the start, or where the last ride has ended. -/
def Stage.onFoot : Option (Node α) → Stage α
  | none => .atStart
  | some node => .alighted node

/-- The journeys that come of one by adding legs. -/
inductive Trip.Continues (t : Trip α) : Trip α → Prop
  | refl : t.Continues t
  | push {t' : Trip α} (h : t.Continues t') (leg : Leg α) : t.Continues (t'.push leg)

/-- The legs of a journey are the first ones of those that come of it. -/
theorem Trip.Continues.isPrefix {t t' : Trip α} (h : t.Continues t') : t.legs <+: t'.legs := by
  induction h with
  | refl => exact List.prefix_rfl
  | push _ leg ih => exact ih.trans (List.prefix_append _ _)

/-- A leg that was added is one of those of all journeys that come of it. -/
theorem Trip.Continues.mem_legs {t t' : Trip α} {leg : Leg α} (h : (t.push leg).Continues t') :
    leg.departingAt t.clock ∈ t'.legs :=
  h.isPrefix.subset (List.mem_append_right _ (List.mem_singleton_self _))

namespace Setting

/-- The journey after a ride has ended at a node. -/
def alight (s : Setting α) (t : Trip α) (ride : Boarded α) (alighting : Node α) (distance : α) :
    Trip α :=
  t.push (s.rideLeg ride alighting t.clock distance)

/-- A ride may end at any node of its route and nowhere else. -/
theorem closeRide_eq_ok {s : Setting α} {r : Request α} {t t' : Trip α} {ride : Boarded α}
    {alighting : Node α} {distance : α} :
    s.closeRide r t ride alighting distance = .ok t' ↔
      alighting.route = ride.route ∧ s.alight t ride alighting distance = t' := by
  unfold closeRide alight
  split
  · next same => simp only [same, true_and, Except.ok.injEq]
  · next other => simp only [other, false_and, reduceCtorEq]

section

variable (s : Setting α) (r : Request α) (t : Trip α)

/-- The way to a stop adds legs. -/
theorem continues_addAccess (stop : Node α) : t.Continues (s.addAccess r t stop) := by
  unfold addAccess
  dsimp only
  split
  · exact .push .refl _
  · exact .push (.push .refl _) _

/-- The way to the end of the journey adds legs. -/
theorem continues_addEgress (stop : Node α) : t.Continues (s.addEgress r t stop) := by
  unfold addEgress
  dsimp only
  split
  · exact .push .refl _
  · exact .push (.push .refl _) _

/-- The way to a boarding adds legs, or nothing. -/
theorem continues_approach (alighted? : Option (Node α)) (boarding : Node α) :
    t.Continues (s.approach r t alighted? boarding) := by
  cases alighted? with
  | none => exact s.continues_addAccess r t boarding
  | some alighted =>
    unfold approach
    dsimp only
    split
    · exact .refl
    · exact .push .refl _

end

/-- The ways in which a journey may go on along an edge. -/
inductive Move (s : Setting α) (r : Request α) : Trip α × Stage α → Edge α → Trip α × Stage α → Prop
  /-- A transfer of a traveller who does not ride is left to the next boarding. -/
  | walkOn {t : Trip α} {stage : Stage α} {e : Edge α} (kind : e.kind = .transfer)
    (walking : ∀ ride, stage ≠ .riding ride) : s.Move r (t, stage) e (t, stage)
  /-- A transfer ends the ride where it begins. -/
  | alight {t : Trip α} {ride : Boarded α} {e : Edge α} (kind : e.kind = .transfer)
    (route : e.tail.route = ride.route) :
    s.Move r (t, .riding ride) e (s.alight t ride e.tail e.length, .alighted e.tail)
  /-- The first ride is boarded. -/
  | depart {t : Trip α} {e : Edge α} {line : LineId} {route : RouteId}
    (kind : e.kind = .ride line route) :
    s.Move r (t, .atStart) e (s.addAccess r t e.tail, board line route e)
  /-- A further ride is boarded. -/
  | change {t : Trip α} {node : Node α} {e : Edge α} {line : LineId} {route : RouteId}
    (kind : e.kind = .ride line route) :
    s.Move r (t, .alighted node) e (s.approach r t (some node) e.tail, board line route e)
  /-- The ride goes on. -/
  | stayOn {t : Trip α} {ride : Boarded α} {e : Edge α} {line : LineId}
    (kind : e.kind = .ride line ride.route) :
    s.Move r (t, .riding ride) e (t, .riding { ride with reached := e.head })
  /-- The ride ends where it is, and one on another route is boarded. -/
  | switch {t : Trip α} {ride : Boarded α} {e : Edge α} {line : LineId} {route : RouteId}
    (kind : e.kind = .ride line route) (reached : ride.reached.route = ride.route)
    (other : route ≠ ride.route) :
    s.Move r (t, .riding ride) e
      (s.approach r
        (s.alight t ride ride.reached (s.rideDistance ride.boarding ride.reached))
        (some ride.reached) e.tail, board line route e)

/-- The ways in which a journey may end at the last node of its path. -/
inductive Ending (s : Setting α) (r : Request α) (last : Node α) :
    Trip α × Stage α → List (Leg α) → Prop
  /-- A path without rides gives the direct leg. -/
  | direct {t : Trip α} : s.Ending r last (t, .atStart) [s.direct r]
  /-- The destination is reached from where the last ride ended. -/
  | alighted {t : Trip α} {node : Node α} :
    s.Ending r last (t, .alighted node) (s.addEgress r t node).legs
  /-- The last ride ends with the path. -/
  | riding {t : Trip α} {ride : Boarded α} (route : last.route = ride.route) :
    s.Ending r last (t, .riding ride)
      (s.addEgress r (s.alight t ride last (s.rideDistance ride.boarding last)) last).legs

variable {s : Setting α} {r : Request α}

/-- Following an edge is one of the moves. -/
theorem move_of_follow {x y : Trip α × Stage α} {e : Edge α} (h : s.follow r x e = .ok y) :
    s.Move r x e y := by
  obtain ⟨t, stage⟩ := x
  unfold follow at h
  cases kind : e.kind with
  | transfer =>
    rw [kind] at h
    cases stage with
    | atStart =>
      cases h
      exact .walkOn kind nofun
    | alighted node =>
      cases h
      exact .walkOn kind nofun
    | riding ride =>
      obtain ⟨t', ht', rfl⟩ := Result.map_eq_ok.mp h
      obtain ⟨route, rfl⟩ := closeRide_eq_ok.mp ht'
      exact .alight kind route
  | ride line route =>
    rw [kind] at h
    cases stage with
    | atStart =>
      cases h
      exact .depart kind
    | alighted node =>
      cases h
      exact .change kind
    | riding ride =>
      dsimp only at h
      split at h
      · next same =>
        cases h
        subst same
        exact .stayOn kind
      · next other =>
        obtain ⟨t', ht', rfl⟩ := Result.map_eq_ok.mp h
        obtain ⟨reached, rfl⟩ := closeRide_eq_ok.mp ht'
        exact .switch kind reached other

/-- Every move comes of following its edge. -/
theorem follow_of_move {x y : Trip α × Stage α} {e : Edge α} (h : s.Move r x e y) :
    s.follow r x e = .ok y := by
  cases h with
  | @walkOn t stage e kind walking =>
    unfold follow
    rw [kind]
    cases stage with
    | atStart => rfl
    | alighted node => rfl
    | riding ride => exact absurd rfl (walking ride)
  | alight kind route =>
    unfold follow
    rw [kind]
    exact Result.map_eq_ok.mpr ⟨_, closeRide_eq_ok.mpr ⟨route, rfl⟩, rfl⟩
  | depart kind =>
    unfold follow
    rw [kind]
    rfl
  | change kind =>
    unfold follow
    rw [kind]
  | stayOn kind =>
    unfold follow
    rw [kind]
    exact if_pos rfl
  | switch kind reached other =>
    unfold follow
    rw [kind]
    exact (if_neg other).trans
      (Result.map_eq_ok.mpr ⟨_, closeRide_eq_ok.mpr ⟨reached, rfl⟩, rfl⟩)

/-- Concluding a journey is one of the endings. -/
theorem ending_of_conclude {last : Node α} {t : Trip α} {stage : Stage α} {legs : List (Leg α)}
    (h : s.conclude r last t stage = .ok legs) : s.Ending r last (t, stage) legs := by
  unfold conclude at h
  cases stage with
  | atStart =>
    cases h
    exact .direct
  | alighted node =>
    cases h
    exact .alighted
  | riding ride =>
    obtain ⟨t', ht', rfl⟩ := Result.map_eq_ok.mp h
    obtain ⟨route, rfl⟩ := closeRide_eq_ok.mp ht'
    exact .riding route

/-- Every ending comes of concluding a journey. -/
theorem conclude_of_ending {last : Node α} {x : Trip α × Stage α} {legs : List (Leg α)}
    (h : s.Ending r last x legs) : s.conclude r last x.1 x.2 = .ok legs := by
  cases h with
  | direct => rfl
  | alighted => rfl
  | riding route => exact Result.map_eq_ok.mpr ⟨_, closeRide_eq_ok.mpr ⟨route, rfl⟩, rfl⟩

/-- What is left to do at a state of a journey: to follow the edges that are left, and to end it. -/
def scanFrom (s : Setting α) (r : Request α) (last : Node α) (es : List (Edge α))
    (x : Trip α × Stage α) : Except (Error α) (List (Leg α)) := do
  let (t, stage) ← es.foldlM (s.follow r) x
  s.conclude r last t stage

/-- The next edge is followed first. -/
theorem scanFrom_cons (s : Setting α) (r : Request α) (last : Node α) (e : Edge α)
    (es : List (Edge α)) (x : Trip α × Stage α) :
    s.scanFrom r last (e :: es) x = s.follow r x e >>= s.scanFrom r last es := by
  rw [scanFrom, List.foldlM_cons, bind_assoc]
  rfl

/-- A move along the next edge leads to what is left behind it. -/
theorem scanFrom_of_move {last : Node α} {e : Edge α} {es : List (Edge α)}
    {x y : Trip α × Stage α} (h : s.Move r x e y) :
    s.scanFrom r last (e :: es) x = s.scanFrom r last es y := by
  rw [scanFrom_cons, follow_of_move h]
  rfl

/-- What holds before the first edge and is kept by every move holds at the end of the path. The
property may depend on the edges that are left. -/
theorem exists_ending {P : List (Edge α) → Trip α × Stage α → Prop} {path : Path α}
    {legs : List (Leg α)} (h : s.itinerary r path = .ok legs)
    (start : P path.edges (Trip.start r.departure, .atStart))
    (move : ∀ e rest x y, P (e :: rest) x → s.Move r x e y → P rest y) :
    ∃ x, P [] x ∧ s.Ending r path.last x legs := by
  obtain ⟨⟨t, stage⟩, hfold, hconclude⟩ := Result.bind_eq_ok.mp h
  have hstep : ∀ e rest x y, P (e :: rest) x → s.follow r x e = .ok y → P rest y :=
    fun e rest x y hx hy ↦ move e rest x y hx (move_of_follow hy)
  exact ⟨(t, stage), Result.inv_of_foldlM hstep path.edges start hfold,
    ending_of_conclude hconclude⟩

/-- The path along the ride on the shuttle. -/
def shuttlePath : Path α where
  nodes := [Network.west, Network.east]
  edges := [Network.shuttleRide]
  travelCost := Scalar.zero
  travelTime := Scalar.zero
  nodes_ne := List.cons_ne_nil _ _

/-- The ride on a shuttle, in progress. -/
def shuttleBoardedAt (times : Timetable.ShuttleTimes α) : Boarded α :=
  ⟨⟨0⟩, ⟨0⟩, Network.westAt times, Network.eastAt times⟩

/-- The ride on the shuttle, in progress. -/
def shuttleBoarded : Boarded α := ⟨⟨0⟩, ⟨0⟩, Network.west, Network.east⟩

/-- Along the ride a journey by shuttle has one ride. -/
theorem itinerary_shuttleAt (times : Timetable.ShuttleTimes α) (s : Setting α) (r : Request α)
    (path : Path α) (edges : path.edges = [Network.shuttleRideAt times])
    (last : path.last = Network.eastAt times) :
    s.itinerary r path = .ok (s.addEgress r
      (s.alight (s.addAccess r (.start r.departure) (Network.westAt times))
        (shuttleBoardedAt times) (Network.eastAt times)
        (s.rideDistance (Network.westAt times) (Network.eastAt times)))
      (Network.eastAt times)).legs := by
  rw [itinerary, edges, last]
  rfl

/-- Along the ride a journey by the shuttle of the morning has one ride. -/
theorem itinerary_shuttle (s : Setting α) (r : Request α) (path : Path α)
    (edges : path.edges = [Network.shuttleRide]) (last : path.last = Network.east) :
    s.itinerary r path = .ok (s.addEgress r
      (s.alight (s.addAccess r (.start r.departure) Network.west) shuttleBoarded Network.east
        (s.rideDistance Network.west Network.east)) Network.east).legs :=
  itinerary_shuttleAt .morning s r path edges last

/-- The shuttle with taxis to and from the stops. -/
def shuttleByTaxi : Setting α where
  lookup := (Departures.ofTimetable .shuttle).lookup
  costs := Cost.byTimetable (Departures.ofTimetable .shuttle).lookup .default
  access :=
    { leg := fun _ start finish time _ ↦
        .between .taxi start finish time (start.distance finish) (start.distance finish)
      teleports := fun mode ↦ mode == .taxi
      directDisutility := fun _ start finish ↦ start.distance finish }
  parameters := .default

/-- A request to go from the first stop to the second at half past seven. -/
def shuttleRequest : Request α where
  person := ⟨⟨0⟩⟩
  start := ⟨Scalar.zero, Scalar.zero⟩
  finish := ⟨Scalar.ofNat 1000, Scalar.zero⟩
  departure := Clock.time 7 30 0

end Setting

end DoorToDoor.Routing
