import DoorToDoor.Proofs.Itinerary.Moves

/-!
# Scanning a path by its places

Another way to turn the edges of a path into legs. Of a ride in progress this scan knows only where
it was boarded: where the ride has come to, it sees from the edge before the present one. At the end
it sees from the number of rides whether there is one. So it has to say what happens when a ride is
in progress at the first edge, and when there are rides but no stop at which the last one ended.
On every path the scan gives the legs, or the error, of the itinerary (`scan_eq_itinerary`), which
knows of no such cases: they never arise.
-/

namespace DoorToDoor.Routing

variable {α : Type} [Scalar α]

/-- Where a scan is: on foot, with the node at which the last ride ended if there was one, or aboard
since a boarding. -/
inductive Position (α : Type)
  | onFoot (alighted? : Option (Node α))
  | aboard (line : LineId) (route : RouteId) (boarding : Node α)

/-- A scan of a path: the journey in the making, how many rides have ended, and where it is. -/
structure Scan (α : Type) where
  trip : Trip α
  rides : Nat
  position : Position α

/-- The edge before a place of a path. -/
def edgeBefore? (edges : List (Edge α)) : Nat → Option (Edge α)
  | 0 => none
  | i + 1 => edges[i]?

namespace Setting

/-- Ends a ride and counts it. -/
def scanClose (s : Setting α) (r : Request α) (x : Scan α) (line : LineId) (route : RouteId)
    (boarding alighting : Node α) (distance : α) : Except (Error α) (Scan α) :=
  (s.closeRide r x.trip ⟨line, route, boarding, alighting⟩ alighting distance).map fun trip ↦
    ⟨trip, x.rides + 1, .onFoot (some alighting)⟩

/-- Goes to where an edge begins and boards there. -/
def scanBoard (s : Setting α) (r : Request α) (x : Scan α) (alighted? : Option (Node α))
    (line : LineId) (route : RouteId) (e : Edge α) : Scan α :=
  ⟨s.approach r x.trip alighted? e.tail, x.rides, .aboard line route e.tail⟩

/-- Scans the edge at a place of a path. -/
def scanEdge (s : Setting α) (r : Request α) (edges : List (Edge α)) (x : Scan α) (e : Edge α)
    (i : Nat) : Except (Error α) (Scan α) :=
  match e.kind, x.position with
  | .transfer, .aboard line route boarding =>
    s.scanClose r x line route boarding e.tail e.length
  | .transfer, .onFoot _ => .ok x
  | .ride line route, .onFoot alighted? => .ok (s.scanBoard r x alighted? line route e)
  | .ride line route, .aboard openLine openRoute boarding =>
    if route = openRoute then .ok x
    else
      match edgeBefore? edges i with
      | none => .error (r.inconsistent (.ridesBeforeFirstEdge openRoute))
      | some before =>
        (s.scanClose r x openLine openRoute boarding before.head
          (s.rideDistance boarding before.head)).map fun x ↦
            s.scanBoard r x (some before.head) line route e

/-- Ends a scan at the last node of the path. -/
def scanEnd (s : Setting α) (r : Request α) (last : Node α) (x : Scan α) :
    Except (Error α) (List (Leg α)) := do
  let x ← match x.position with
    | .aboard line route boarding =>
      s.scanClose r x line route boarding last (s.rideDistance boarding last)
    | .onFoot _ => .ok x
  if x.rides = 0 then .ok [s.direct r]
  else
    match x.position with
    | .onFoot (some node) => .ok (s.addEgress r x.trip node).legs
    | _ => .error (r.inconsistent .alightsNowhere)

/-- Scans a path from its first place on. -/
def scan (s : Setting α) (r : Request α) (path : Path α) : Except (Error α) (List (Leg α)) := do
  let x ← path.edges.zipIdx.foldlM (fun x (e, i) ↦ s.scanEdge r path.edges x e i)
    ⟨.start r.departure, 0, .onFoot none⟩
  s.scanEnd r path.last x

/-- A scan at a place of a path and a journey that agree: a ride has come to the head of the edge
before, and no ride has ended as long as the traveller stands at the start. -/
inductive Agrees (edges : List (Edge α)) (i : Nat) : Scan α → Trip α × Stage α → Prop
  | atStart {trip : Trip α} : Agrees edges i ⟨trip, 0, .onFoot none⟩ (trip, .atStart)
  | alighted {trip : Trip α} {rides : Nat} {node : Node α} :
    Agrees edges i ⟨trip, rides + 1, .onFoot (some node)⟩ (trip, .alighted node)
  | riding {trip : Trip α} {rides : Nat} {line : LineId} {route : RouteId} {boarding : Node α}
    {before : Edge α} (hbefore : edgeBefore? edges i = some before) :
    Agrees edges i ⟨trip, rides, .aboard line route boarding⟩
      (trip, .riding ⟨line, route, boarding, before.head⟩)

variable {s : Setting α} {r : Request α} {edges : List (Edge α)} {i : Nat}

/-- Along an edge scan and journey go on to agree, or fail with the same error. -/
theorem Agrees.follow {x : Scan α} {y : Trip α × Stage α} {e : Edge α} (h : Agrees edges i x y)
    (he : edges[i]? = some e) :
    Result.Rel (Agrees edges (i + 1)) (s.scanEdge r edges x e i) (s.follow r y e) := by
  have hbefore : edgeBefore? edges (i + 1) = some e := he
  unfold scanEdge Setting.follow
  cases kind : e.kind with
  | transfer =>
    cases h with
    | atStart => exact .ok .atStart
    | alighted => exact .ok .alighted
    | riding => exact .map _ fun _ ↦ .alighted
  | ride line route =>
    cases h with
    | atStart => exact .ok (.riding hbefore)
    | alighted => exact .ok (.riding hbefore)
    | @riding trip rides openLine openRoute boarding before hlast =>
      dsimp only
      split
      · next same =>
        subst same
        exact .ok (.riding hbefore)
      · next other =>
        rw [hlast]
        unfold scanClose
        dsimp only
        cases s.closeRide r trip ⟨openLine, openRoute, boarding, before.head⟩ before.head
          (s.rideDistance boarding before.head) with
        | error e => exact .error e
        | ok trip => exact .ok (.riding hbefore)

/-- A scan and a journey that agree end with the same legs, or fail with the same error. -/
theorem Agrees.conclude {x : Scan α} {trip : Trip α} {stage : Stage α} {last : Node α}
    (h : Agrees edges i x (trip, stage)) :
    s.scanEnd r last x = s.conclude r last trip stage := by
  unfold scanEnd Setting.conclude
  cases h with
  | atStart => rfl
  | alighted => rfl
  | @riding _ _ line route boarding before =>
    unfold scanClose
    dsimp only
    change (Except.map _ (s.closeRide r trip ⟨line, route, boarding, before.head⟩ last
      (s.rideDistance boarding last)) >>= _) = _
    cases s.closeRide r trip ⟨line, route, boarding, before.head⟩ last
      (s.rideDistance boarding last) with
    | error e => rfl
    | ok trip => rfl

/-- On every path the scan by places gives the legs or the error of the itinerary. -/
theorem scan_eq_itinerary (s : Setting α) (r : Request α) (path : Path α) :
    s.scan r path = s.itinerary r path := by
  -- The edges that are left stand at the places that are left.
  have hrest : ∀ (es : List (Edge α)) (i : Nat) (x : Scan α) (y : Trip α × Stage α),
      (∀ j e, es[j]? = some e → path.edges[i + j]? = some e) → Agrees path.edges i x y →
        ((es.zipIdx i).foldlM (fun x (e, i) ↦ s.scanEdge r path.edges x e i) x >>=
          s.scanEnd r path.last) = s.scanFrom r path.last es y := by
    intro es
    induction es with
    | nil => exact fun i x y _ h ↦ h.conclude
    | cons e rest ih =>
      intro i x y hplaces h
      rw [scanFrom_cons, List.zipIdx_cons, List.foldlM_cons, bind_assoc]
      refine (h.follow (hplaces 0 e rfl)).bind_eq fun x' y' h' ↦ ?_
      refine ih (i + 1) x' y' (fun j e' he' ↦ ?_) h'
      rw [Nat.add_assoc, Nat.add_comm 1 j]
      exact hplaces (j + 1) e' he'
  exact hrest path.edges 0 _ _ (fun j e he ↦ by rwa [Nat.zero_add]) .atStart

end Setting

end DoorToDoor.Routing
