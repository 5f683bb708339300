import Mathlib.Data.List.TakeWhile
import DoorToDoor.Proofs.Itinerary.RideEnds
import DoorToDoor.Proofs.Itinerary.Walks

/-!
# Runs of rides

The maximal runs of consecutive ride edges among the edges of a path (`runs`): each is followed by a
transfer or ends the edges, and follows on a transfer or begins them. Along a walk through the
network of a timetable edges in a row that are rides belong to one route (`isChain_of_isWalk`), so
all of a run do (`AlongRoute.of_mem_followedBy`).
-/

namespace DoorToDoor

variable {α : Type}

/-- Whether an edge is a ride. -/
def Edge.isRide (e : Edge α) : Bool := e.route?.isSome

/-- A run of ride edges: the line and the route of the first one, the edges, and the edge behind
them if there is one. -/
structure Run (α : Type) where
  line : LineId
  route : RouteId
  first : Edge α
  more : List (Edge α)
  behind : Option (Edge α)

namespace Run

/-- The ride edges. -/
def edges (run : Run α) : List (Edge α) := run.first :: run.more

/-- The node at which the run begins. -/
def boarding (run : Run α) : Node α := run.first.tail

/-- The node to which the run leads. -/
def alighting (run : Run α) : Node α := (run.more.getLastD run.first).head

/-- A run that goes on along an edge leads to where this edge does. -/
@[simp] theorem alighting_extend (run : Run α) (e : Edge α) :
    alighting { run with more := run.more ++ [e] } = e.head := by
  rw [alighting, List.getLastD_concat]

end Run

/-- The maximal runs of ride edges, in order. -/
def runs : List (Edge α) → List (Run α)
  | [] => []
  | e :: rest =>
    match e.kind with
    | .transfer => runs rest
    | .ride line route =>
      ⟨line, route, e, rest.takeWhile Edge.isRide, (rest.dropWhile Edge.isRide).head?⟩ ::
        runs (rest.dropWhile Edge.isRide)
termination_by es => es.length
decreasing_by
  · exact Nat.lt_succ_self _
  · exact Nat.lt_succ_of_le (List.dropWhile_sublist _).length_le

/-- The runs when edges follow on a run: it goes on as long as these are rides. -/
def Run.followedBy (run : Run α) (es : List (Edge α)) : List (Run α) :=
  { run with
    more := run.more ++ es.takeWhile Edge.isRide
    behind := (es.dropWhile Edge.isRide).head? } :: runs (es.dropWhile Edge.isRide)

section

variable {e : Edge α} {es : List (Edge α)} {line : LineId} {route : RouteId} {run : Run α}

/-- An edge along a route is a ride. -/
theorem Edge.isRide_of_ride (kind : e.kind = .ride line route) : e.isRide = true := by
  rw [isRide, route?, kind]
  rfl

private theorem Edge.isRide_of_transfer (kind : e.kind = .transfer) : e.isRide = false := by
  rw [isRide, route?, kind]
  rfl

/-- An edge that is a ride runs along a line and a route. -/
theorem Edge.exists_kind_of_isRide (h : e.isRide = true) :
    ∃ line route, e.kind = .ride line route := by
  cases kind : e.kind with
  | transfer => rw [Edge.isRide_of_transfer kind] at h; cases h
  | ride line route => exact ⟨line, route, rfl⟩

/-- Without edges there are no runs. -/
@[simp] theorem runs_nil : runs ([] : List (Edge α)) = [] := by rw [runs]

/-- A transfer belongs to no run. -/
theorem runs_cons_of_transfer (kind : e.kind = .transfer) : runs (e :: es) = runs es := by
  rw [runs, kind]

/-- A ride edge begins a run. -/
theorem runs_cons_of_ride (kind : e.kind = .ride line route) :
    runs (e :: es) = Run.followedBy ⟨line, route, e, [], none⟩ es := by
  rw [runs, kind]
  rfl

/-- Nothing lies behind a run that ends the edges. -/
theorem Run.followedBy_nil : run.followedBy [] = [{ run with behind := none }] := by
  simp [followedBy]

/-- A ride edge continues the run before it. -/
theorem Run.followedBy_cons_of_ride (kind : e.kind = .ride line route) :
    run.followedBy (e :: es) = { run with more := run.more ++ [e] }.followedBy es := by
  simp [followedBy, Edge.isRide_of_ride kind]

/-- A transfer ends the run before it. -/
theorem Run.followedBy_cons_of_transfer (kind : e.kind = .transfer) :
    run.followedBy (e :: es) = { run with behind := some e } :: runs es := by
  simp [followedBy, Edge.isRide_of_transfer kind, runs_cons_of_transfer kind]

/-- A transfer parts the runs in front of it from those behind it. -/
theorem runs_append_of_transfer (kind : e.kind = .transfer) (es es' : List (Edge α)) :
    runs (es ++ e :: es') = runs (es ++ [e]) ++ runs es' ∧
      ∀ run : Run α,
        run.followedBy (es ++ e :: es') = run.followedBy (es ++ [e]) ++ runs es' := by
  induction es with
  | nil =>
    simp [runs_cons_of_transfer kind, Run.followedBy_cons_of_transfer kind]
  | cons e' rest ih =>
    rw [List.cons_append, List.cons_append]
    cases kind' : e'.kind with
    | transfer =>
      simp only [runs_cons_of_transfer kind', Run.followedBy_cons_of_transfer kind', ih.1,
        List.cons_append, implies_true, and_self]
    | ride line route =>
      simp only [runs_cons_of_ride kind', Run.followedBy_cons_of_ride kind', ih.2, implies_true,
        and_self]

/-- Edges that end with a ride and a transfer end with a run that leads along this ride to the
transfer. -/
theorem exists_runs_eq_concat {e' : Edge α} (ride : e'.isRide = true) (kind : e.kind = .transfer)
    (es : List (Edge α)) :
    (∃ rs run, runs (es ++ [e', e]) = rs ++ [run] ∧ run.alighting = e'.head ∧
      run.behind = some e) ∧
    ∀ run : Run α, ∃ rs run', run.followedBy (es ++ [e', e]) = rs ++ [run'] ∧
      run'.alighting = e'.head ∧ run'.behind = some e := by
  induction es with
  | nil =>
    obtain ⟨line, route, kind'⟩ := Edge.exists_kind_of_isRide ride
    rw [List.nil_append]
    refine ⟨⟨[], ⟨line, route, e', [], some e⟩, ?_, rfl, rfl⟩, fun run ↦
      ⟨[], { run with more := run.more ++ [e'], behind := some e }, ?_,
        run.alighting_extend e', rfl⟩⟩
    · rw [runs_cons_of_ride kind', Run.followedBy_cons_of_transfer kind, runs_nil]
      rfl
    · rw [Run.followedBy_cons_of_ride kind', Run.followedBy_cons_of_transfer kind, runs_nil]
      rfl
  | cons first rest ih =>
    obtain ⟨hwalking, hriding⟩ := ih
    rw [List.cons_append]
    cases kind' : first.kind with
    | transfer =>
      obtain ⟨rs, run', hrest, hrun'⟩ := hwalking
      rw [runs_cons_of_transfer kind', hrest]
      refine ⟨⟨rs, run', rfl, hrun'⟩, fun run ↦ ⟨{ run with behind := some first } :: rs, run', ?_,
        hrun'⟩⟩
      rw [Run.followedBy_cons_of_transfer kind', hrest]
      rfl
    | ride line route =>
      simp only [runs_cons_of_ride kind', Run.followedBy_cons_of_ride kind']
      exact ⟨hriding _, fun run ↦ hriding _⟩

/-- The edges of the runs are all ride edges, in order. -/
theorem flatMap_edges_runs (es : List (Edge α)) :
    (runs es).flatMap Run.edges = es.filter Edge.isRide := by
  fun_induction runs es with
  | case1 => rfl
  | case2 e rest kind ih =>
    rw [ih, List.filter_cons_of_neg (by simp [Edge.isRide_of_transfer kind])]
  | case3 e rest line route kind ih =>
    have hrides : (rest.takeWhile Edge.isRide).filter Edge.isRide = rest.takeWhile Edge.isRide :=
      List.filter_eq_self.mpr fun _ ↦ List.mem_takeWhile_imp
    have hsplit : rest.filter Edge.isRide =
        rest.takeWhile Edge.isRide ++ (rest.dropWhile Edge.isRide).filter Edge.isRide := by
      conv_lhs => rw [← List.takeWhile_append_dropWhile (p := Edge.isRide) (l := rest)]
      rw [List.filter_append, hrides]
    rw [List.flatMap_cons, ih, List.filter_cons_of_pos (Edge.isRide_of_ride kind), hsplit]
    rfl

end

namespace Routing

/-- The ride along a run. -/
def boarded (run : Run α) : Boarded α := ⟨run.line, run.route, run.boarding, run.alighting⟩

/-- The ride along a longer run has come farther. -/
theorem boarded_extend (run : Run α) (e : Edge α) :
    boarded { run with more := run.more ++ [e] } = { boarded run with reached := e.head } := by
  rw [boarded, run.alighting_extend]
  rfl

variable [Scalar α] {t : Timetable α} {reach : α} {run : Run α} {e e' : Edge α}
  {es : List (Edge α)} {line line' : LineId} {route route' : RouteId}

private theorem ride_eq_of_meet (wf : t.WellFormed) (he : e ∈ (Network.ofTimetable t reach).edges)
    (he' : e' ∈ (Network.ofTimetable t reach).edges) (meet : e.head.id = e'.tail.id)
    (kind : e.kind = .ride line route) (kind' : e'.kind = .ride line' route') :
    line' = line ∧ route' = route := by
  obtain ⟨htail, hhead⟩ := Network.mem_nodes_of_mem_edges he
  have hsame := Network.eq_of_mem_nodes hhead (Network.mem_nodes_of_mem_edges he').1 meet
  obtain ⟨hroute, hroute', hline, -⟩ := Network.route_of_ride_mem_edges he kind
  obtain ⟨hnext, -, hnextLine, -⟩ := Network.route_of_ride_mem_edges he' kind'
  obtain ⟨r, hr, -, hrLine, -⟩ := Network.exists_route?_of_mem_nodes wf htail
  obtain ⟨r', hr', -, hrLine', -⟩ := Network.exists_route?_of_mem_nodes wf hhead
  rw [hroute] at hr
  rw [hroute', hr] at hr'
  cases hr'
  rw [← hsame] at hnext hnextLine
  exact ⟨by rw [← hnextLine, ← hrLine', hrLine, hline], hnext.symm.trans hroute'⟩

/-- Along a walk, rides in a row are on the same line and route. -/
theorem isChain_of_isWalk (wf : t.WellFormed) {a b : NodeId}
    (walk : (Network.ofTimetable t reach).IsWalk a es b) :
    es.IsChain fun e e' ↦ e.isRide = true → e'.isRide = true → e'.kind = e.kind := by
  induction es generalizing a with
  | nil => exact .nil
  | cons e rest ih =>
    obtain ⟨he, -, hrest⟩ := walk
    cases rest with
    | nil => exact .singleton e
    | cons e' rest =>
      refine List.isChain_cons_cons.mpr ⟨fun hride hride' ↦ ?_, ih hrest⟩
      obtain ⟨he', hmeet, -⟩ := hrest
      obtain ⟨line, route, kind⟩ := Edge.exists_kind_of_isRide hride
      obtain ⟨line', route', kind'⟩ := Edge.exists_kind_of_isRide hride'
      obtain ⟨rfl, rfl⟩ := ride_eq_of_meet wf he he' hmeet.symm kind kind'
      rw [kind, kind']

/-- All edges of a run are rides on its line and route, and it leads along this route. -/
structure AlongRoute (t : Timetable α) (reach : α) (run : Run α) : Prop where
  mem_edges : ∀ e ∈ run.edges, e ∈ (Network.ofTimetable t reach).edges
  kind : ∀ e ∈ run.edges, e.kind = .ride run.line run.route
  onRoute : OnRoute t reach (boarded run)

namespace AlongRoute

/-- A ride edge leads along its route. -/
theorem single (he : e ∈ (Network.ofTimetable t reach).edges) (kind : e.kind = .ride line route) :
    AlongRoute t reach ⟨line, route, e, [], none⟩ where
  mem_edges e' he' := by rwa [List.mem_singleton.mp he']
  kind e' he' := by rwa [List.mem_singleton.mp he']
  onRoute := onRoute_board he kind

private theorem withBehind (h : AlongRoute t reach run) (behind : Option (Edge α)) :
    AlongRoute t reach { run with behind := behind } :=
  ⟨h.mem_edges, h.kind, h.onRoute⟩

/-- A ride that meets a run is on its line and route. -/
theorem ride_eq (h : AlongRoute t reach run) (wf : t.WellFormed)
    (he : e ∈ (Network.ofTimetable t reach).edges) (meet : run.alighting.id = e.tail.id)
    (kind : e.kind = .ride line route) : line = run.line ∧ route = run.route := by
  have hlast : run.more.getLastD run.first ∈ run.edges := List.getLastD_mem_cons
  exact ride_eq_of_meet wf (h.mem_edges _ hlast) he meet (h.kind _ hlast) kind

/-- A run goes on along such a ride. -/
theorem extend (h : AlongRoute t reach run) (he : e ∈ (Network.ofTimetable t reach).edges)
    (meet : run.alighting.id = e.tail.id) (kind : e.kind = .ride run.line run.route) :
    AlongRoute t reach { run with more := run.more ++ [e] } where
  mem_edges e' he' := by
    rcases List.mem_append.mp (show e' ∈ run.edges ++ [e] from he') with he' | he'
    · exact h.mem_edges e' he'
    · rwa [List.mem_singleton.mp he']
  kind e' he' := by
    rcases List.mem_append.mp (show e' ∈ run.edges ++ [e] from he') with he' | he'
    · exact h.kind e' he'
    · rwa [List.mem_singleton.mp he']
  onRoute := by
    rw [boarded_extend]
    exact h.onRoute.stayOn he meet kind

/-- Along a walk that goes on from where a run leads, every run leads along its route. -/
theorem of_mem_followedBy (wf : t.WellFormed) {b : NodeId} :
    (∀ a, (Network.ofTimetable t reach).IsWalk a es b → ∀ run ∈ runs es, AlongRoute t reach run) ∧
      ∀ run, AlongRoute t reach run → (Network.ofTimetable t reach).IsWalk run.alighting.id es b →
        ∀ run' ∈ run.followedBy es, AlongRoute t reach run' := by
  induction es with
  | nil =>
    refine ⟨fun _ _ ↦ by simp, fun run h _ run' hrun' ↦ ?_⟩
    rw [Run.followedBy_nil, List.mem_singleton] at hrun'
    exact hrun' ▸ h.withBehind none
  | cons e rest ih =>
    obtain ⟨hwalking, hriding⟩ := ih
    cases kind : e.kind with
    | transfer =>
      constructor
      · rintro a ⟨-, -, hrest⟩
        rw [runs_cons_of_transfer kind]
        exact hwalking _ hrest
      · rintro run h ⟨-, -, hrest⟩
        rw [Run.followedBy_cons_of_transfer kind]
        exact List.forall_mem_cons.mpr ⟨h.withBehind (some e), hwalking _ hrest⟩
    | ride line route =>
      constructor
      · rintro a ⟨he, -, hrest⟩
        rw [runs_cons_of_ride kind]
        exact hriding _ (single he kind) hrest
      · rintro run h ⟨he, hmeet, hrest⟩
        rw [Run.followedBy_cons_of_ride kind]
        obtain ⟨rfl, rfl⟩ := h.ride_eq wf he hmeet.symm kind
        exact hriding _ (h.extend he hmeet.symm kind) (run.alighting_extend e ▸ hrest)

end AlongRoute

end Routing

end DoorToDoor
