import Mathlib.Data.EReal.Inv
import DoorToDoor.Network.OfTimetable
import DoorToDoor.Proofs.Network.WellFormed
import DoorToDoor.Proofs.Timetable.Built

/-!
# The layout of the network of a timetable

The network of a timetable is well formed (`wellFormed_ofTimetable`), whatever the timetable. Its
nodes are the calls of the routes (`exists_call_of_mem_nodes`), and its edges are rides between
consecutive calls of one route and transfers between joined nodes (`ride_or_transfer_of_mem_edges`).
-/

namespace DoorToDoor.Network

variable {α : Type} [Scalar α] {t : Timetable α} {reach : α}

private theorem numbered_stretches (routes : List (Route α)) (first i : Nat) {node : Node α}
    (h : (stretches t first routes).flatten[i]? = some node) : node.id.index = first + i := by
  induction routes generalizing first i with
  | nil => simp [stretches] at h
  | cons r rest ih =>
    rw [stretches, List.flatten_cons] at h
    by_cases hi : i < r.calls.length
    · rw [List.getElem?_append_left (by simpa using hi), List.getElem?_mapIdx,
        Option.map_eq_some_iff] at h
      obtain ⟨call, -, rfl⟩ := h
      rfl
    · rw [List.getElem?_append_right (by simpa using hi), List.length_mapIdx] at h
      rw [ih (first + r.calls.length) (i - r.calls.length) h]
      omega

/-- Each stretch of nodes is made up of the calls of a route. -/
theorem call_of_mem_stretches (routes : List (Route α)) (first : Nat)
    {run : List (Node α)} (h : run ∈ stretches t first routes) :
    ∃ r ∈ routes, ∃ first', run = r.calls.mapIdx (nodeOf t r first') := by
  induction routes generalizing first with
  | nil => simp [stretches] at h
  | cons r rest ih =>
    rw [stretches, List.mem_cons] at h
    rcases h with rfl | h
    · exact ⟨r, List.mem_cons_self, first, rfl⟩
    · obtain ⟨r', hr', first', hrun⟩ := ih _ h
      exact ⟨r', List.mem_cons_of_mem _ hr', first', hrun⟩

/-- The nodes, run by run. -/
theorem toList_nodes :
    (ofTimetable t reach).nodes.toList = (stretches t 0 t.routes.toList).flatten := rfl

private theorem index_of_getElem?_nodes {i : Nat} {node : Node α}
    (h : (ofTimetable t reach).nodes.toList[i]? = some node) : node.id.index = i := by
  rw [numbered_stretches t.routes.toList 0 i h, Nat.zero_add]

/-- Every node is a call of a route. -/
theorem exists_call_of_mem_nodes {node : Node α} (h : node ∈ (ofTimetable t reach).nodes) :
    ∃ r ∈ t.routes, ∃ first call, r.calls[node.position]? = some call ∧
      node = nodeOf t r first node.position call := by
  rw [← Array.mem_toList_iff, toList_nodes, List.mem_flatten] at h
  obtain ⟨run, hrun, hnode⟩ := h
  obtain ⟨r, hr, first, rfl⟩ := call_of_mem_stretches _ _ hrun
  obtain ⟨i, hi⟩ := List.mem_iff_getElem?.mp hnode
  rw [List.getElem?_mapIdx, Option.map_eq_some_iff] at hi
  obtain ⟨call, hcall, rfl⟩ := hi
  exact ⟨r, Array.mem_toList_iff.mp hr, first, call, hcall, rfl⟩

/-- A node lies at its stop. -/
theorem exists_stop?_of_mem_nodes (wf : t.WellFormed) {node : Node α}
    (h : node ∈ (ofTimetable t reach).nodes) :
    ∃ stop, t.stop? node.stop = some stop ∧ stop.coord = node.coord ∧ stop.link = node.link := by
  obtain ⟨r, hr, first, call, hcall, hnode⟩ := exists_call_of_mem_nodes h
  obtain ⟨stop, hstop⟩ := wf.exists_stop? hr (List.mem_of_getElem? hcall)
  refine ⟨stop, ?_, ?_, ?_⟩
  · rw [hnode]
    exact hstop
  · rw [hnode]
    simp only [nodeOf, siteOf, hstop]
  · rw [hnode]
    simp only [nodeOf, siteOf, hstop]

/-- A node is a call of its route, which belongs to its line. -/
theorem exists_route?_of_mem_nodes (wf : t.WellFormed) {node : Node α}
    (h : node ∈ (ofTimetable t reach).nodes) :
    ∃ route, t.route? node.route = some route ∧ route ∈ t.routes ∧ route.line = node.line ∧
      route.calls[node.position]? = some node.call ∧ node.call.stop = node.stop := by
  obtain ⟨r, hr, first, call, hcall, hnode⟩ := exists_call_of_mem_nodes h
  have hroute : node.route = r.id := by rw [hnode, nodeOf]
  have hsame : node.call = call := by rw [hnode, nodeOf]
  refine ⟨r, ?_, hr, ?_, ?_, ?_⟩
  · rw [hroute, wf.route?_of_mem hr]
  · rw [hnode, nodeOf]
  · rw [hcall, hsame]
  · rw [hnode, nodeOf]

/-- What leaves a node of a run: the ride to the next node of the run, unless it is the last one,
and the transfers. -/
theorem getElem?_fans (nodes run : List (Node α)) (i : Nat) :
    (fans t reach nodes run)[i]? = run[i]?.map fun a ↦
      (run[i + 1]?.map (ride a)).toList ++ transfers t reach nodes a := by
  induction run generalizing i with
  | nil => rfl
  | cons a rest ih =>
    rw [fans, List.head?_eq_getElem?]
    cases i with
    | zero => rfl
    | succ i => exact ih i

/-- A list of edges leaves each node of a run. -/
@[simp] theorem length_fans (nodes run : List (Node α)) :
    (fans t reach nodes run).length = run.length := by
  induction run with
  | nil => rfl
  | cons a rest ih => rw [fans, List.length_cons, ih, List.length_cons]

private theorem mem_fans (nodes run : List (Node α)) {es : List (Edge α)} {e : Edge α}
    (hes : es ∈ fans t reach nodes run) (he : e ∈ es) :
    (∃ i a b, run[i]? = some a ∧ run[i + 1]? = some b ∧ e = ride a b) ∨
      ∃ a ∈ run, ∃ b ∈ nodes, joins t reach a b ∧ e = connect .transfer a b := by
  obtain ⟨i, hi⟩ := List.mem_iff_getElem?.mp hes
  rw [getElem?_fans, Option.map_eq_some_iff] at hi
  obtain ⟨a, ha, rfl⟩ := hi
  rw [List.mem_append, Option.mem_toList, Option.map_eq_some_iff, transfers, List.mem_map] at he
  rcases he with ⟨b, hb, rfl⟩ | ⟨b, hb, rfl⟩
  · exact .inl ⟨i, a, b, ha, hb, rfl⟩
  · obtain ⟨hmem, hjoins⟩ := List.mem_filter.mp hb
    exact .inr ⟨a, List.mem_of_getElem? ha, b, hmem, hjoins, rfl⟩

private theorem tail_of_mem_fans (nodes run : List (Node α)) :
    List.Forall₂ (fun a es ↦ ∀ e ∈ es, e.tail = a) run (fans t reach nodes run) := by
  induction run with
  | nil => exact .nil
  | cons a rest ih =>
    refine .cons (fun e he ↦ ?_) ih
    rw [List.mem_append, Option.mem_toList, Option.map_eq_some_iff, transfers, List.mem_map] at he
    rcases he with ⟨b, -, rfl⟩ | ⟨b, -, rfl⟩ <;> rfl

/-- The edges that leave each node in turn, not numbered yet. -/
def outLists (t : Timetable α) (reach : α) : List (List (Edge α)) :=
  (stretches t 0 t.routes.toList).flatMap (fans t reach (ofTimetable t reach).nodes.toList)

/-- The edges are numbered as they leave the nodes in turn. -/
theorem toList_edges : (ofTimetable t reach).edges.toList =
    (outLists t reach).flatten.mapIdx fun i e ↦ { e with id := ⟨i⟩ } := rfl

private theorem tail_of_mem_outLists :
    List.Forall₂ (fun a es ↦ ∀ e ∈ es, e.tail = a) (ofTimetable t reach).nodes.toList
      (outLists t reach) := by
  rw [toList_nodes, outLists]
  induction stretches t 0 t.routes.toList with
  | nil => exact .nil
  | cons run rest ih => exact List.rel_append (tail_of_mem_fans _ run) ih

private theorem exists_of_mem_edges {e : Edge α} (h : e ∈ (ofTimetable t reach).edges) :
    ∃ run ∈ stretches t 0 t.routes.toList, ∃ e' id, e = { e' with id := id } ∧
      ((∃ i a b, run[i]? = some a ∧ run[i + 1]? = some b ∧ e' = ride a b) ∨
        ∃ a ∈ run, ∃ b ∈ (ofTimetable t reach).nodes.toList, joins t reach a b ∧
          e' = connect .transfer a b) := by
  rw [← Array.mem_toList_iff, toList_edges] at h
  obtain ⟨i, hi⟩ := List.mem_iff_getElem?.mp h
  rw [List.getElem?_mapIdx, Option.map_eq_some_iff] at hi
  obtain ⟨e', he', rfl⟩ := hi
  obtain ⟨es, hes, hmem⟩ := List.mem_flatten.mp (List.mem_of_getElem? he')
  rw [outLists, List.mem_flatMap] at hes
  obtain ⟨run, hrun, hes⟩ := hes
  exact ⟨run, hrun, e', ⟨i⟩, rfl, mem_fans _ _ hes hmem⟩

private theorem mem_nodes_of_mem_run {run : List (Node α)} {node : Node α}
    (hrun : run ∈ stretches t 0 t.routes.toList) (hnode : node ∈ run) :
    node ∈ (ofTimetable t reach).nodes := by
  rw [← Array.mem_toList_iff, toList_nodes]
  exact List.mem_flatten_of_mem hrun hnode

/-- Edges leave nodes of the network and lead to nodes of it. -/
theorem mem_nodes_of_mem_edges {e : Edge α} (h : e ∈ (ofTimetable t reach).edges) :
    e.tail ∈ (ofTimetable t reach).nodes ∧ e.head ∈ (ofTimetable t reach).nodes := by
  obtain ⟨run, hrun, e', id, rfl, hends⟩ := exists_of_mem_edges h
  rcases hends with ⟨i, a, b, ha, hb, rfl⟩ | ⟨a, ha, b, hb, -, rfl⟩
  · exact ⟨mem_nodes_of_mem_run hrun (List.mem_of_getElem? ha),
      mem_nodes_of_mem_run hrun (List.mem_of_getElem? hb)⟩
  · exact ⟨mem_nodes_of_mem_run hrun ha, Array.mem_toList_iff.mp hb⟩

/-- Edges are as long as the straight line between their ends. -/
theorem length_of_mem_edges {e : Edge α} (h : e ∈ (ofTimetable t reach).edges) :
    e.length = e.tail.coord.distance e.head.coord := by
  obtain ⟨run, -, e', id, rfl, hends⟩ := exists_of_mem_edges h
  rcases hends with ⟨i, a, b, -, -, rfl⟩ | ⟨a, -, b, -, -, rfl⟩ <;> rfl

/-- Every edge is a ride from a call of a route to the next, or a transfer between joined nodes. -/
theorem ride_or_transfer_of_mem_edges {e : Edge α} (h : e ∈ (ofTimetable t reach).edges) :
    (∃ r ∈ t.routes, ∃ first i c c', r.calls[i]? = some c ∧ r.calls[i + 1]? = some c' ∧
      e.tail = nodeOf t r first i c ∧ e.head = nodeOf t r first (i + 1) c' ∧
      e.kind = .ride r.line r.id) ∨
    joins t reach e.tail e.head ∧ e.kind = .transfer := by
  obtain ⟨run, hrun, e', id, rfl, hends⟩ := exists_of_mem_edges h
  rcases hends with ⟨i, a, b, ha, hb, rfl⟩ | ⟨a, ha, b, hb, hjoins, rfl⟩
  · obtain ⟨r, hr, first, rfl⟩ := call_of_mem_stretches _ _ hrun
    rw [List.getElem?_mapIdx, Option.map_eq_some_iff] at ha hb
    obtain ⟨c, hc, rfl⟩ := ha
    obtain ⟨c', hc', rfl⟩ := hb
    exact .inl ⟨r, Array.mem_toList_iff.mp hr, first, i, c, c', hc, hc', rfl, rfl, rfl⟩
  · exact .inr ⟨hjoins, rfl⟩

/-- A ride stays on its route and leads to the next call. -/
theorem route_of_ride_mem_edges {e : Edge α} (h : e ∈ (ofTimetable t reach).edges) {line : LineId}
    {route : RouteId} (kind : e.kind = .ride line route) :
    e.tail.route = route ∧ e.head.route = route ∧ e.tail.line = line ∧
      e.head.position = e.tail.position + 1 := by
  rcases ride_or_transfer_of_mem_edges h with
    ⟨r, -, first, i, c, c', -, -, htail, hhead, hkind⟩ | ⟨-, hkind⟩
  · rw [kind] at hkind
    cases hkind
    rw [htail, hhead]
    exact ⟨rfl, rfl, rfl, rfl⟩
  · rw [kind] at hkind
    cases hkind

/-- A vehicle departs from where a ride begins. -/
theorem canDepart_of_ride (wf : t.WellFormed) {e : Edge α} (h : e ∈ (ofTimetable t reach).edges)
    {line : LineId} {route : RouteId} (kind : e.kind = .ride line route) :
    canDepart t e.tail = true := by
  rcases ride_or_transfer_of_mem_edges h with
    ⟨r, hr, first, i, c, c', -, hc', htail, -, -⟩ | ⟨-, hkind⟩
  · obtain ⟨hlength, -⟩ := List.getElem?_eq_some_iff.mp hc'
    have hroute : t.route? (nodeOf t r first i c).route = some r := wf.route?_of_mem hr
    rw [htail, canDepart, routeLength, hroute]
    exact decide_eq_true hlength
  · rw [kind] at hkind
    cases hkind

private theorem getElem?_totals (total : Nat) (counts : List Nat) {j : Nat}
    (hj : j ≤ counts.length) :
    (totals total counts)[j]? = some (total + (counts.take j).sum) := by
  induction counts generalizing total j with
  | nil =>
    obtain rfl : j = 0 := Nat.le_zero.mp hj
    simp [totals]
  | cons count rest ih =>
    rw [totals]
    cases j with
    | zero => simp
    | succ j =>
      rw [List.getElem?_cons_succ, ih _ (Nat.le_of_succ_le_succ hj), List.take_succ_cons,
        List.sum_cons, Nat.add_assoc]

private theorem place_of_getElem?_flatten {β : Type} (xss : List (List β)) {i : Nat} {x : β}
    (h : xss.flatten[i]? = some x) :
    ∃ j xs, xss[j]? = some xs ∧ x ∈ xs ∧ ((xss.take j).map List.length).sum ≤ i ∧
      i < ((xss.take (j + 1)).map List.length).sum := by
  induction xss generalizing i with
  | nil => simp at h
  | cons xs rest ih =>
    rw [List.flatten_cons] at h
    by_cases hi : i < xs.length
    · rw [List.getElem?_append_left hi] at h
      exact ⟨0, xs, rfl, List.mem_of_getElem? h, Nat.zero_le _, by simpa using hi⟩
    · rw [List.getElem?_append_right (Nat.le_of_not_lt hi)] at h
      obtain ⟨j, ys, hj, hx, hfrom, hto⟩ := ih h
      refine ⟨j + 1, ys, hj, hx, ?_, ?_⟩
      · rw [List.take_succ_cons, List.map_cons, List.sum_cons]
        omega
      · rw [List.take_succ_cons, List.map_cons, List.sum_cons]
        omega

/-- The items of one of several lists stand behind those of all lists before it. -/
theorem getElem?_flatten_add {β : Type} (xss : List (List β)) {j k : Nat} {xs : List β}
    (hj : xss[j]? = some xs) (hk : k < xs.length) :
    xss.flatten[((xss.take j).map List.length).sum + k]? = xs[k]? := by
  induction xss generalizing j with
  | nil => cases hj
  | cons ys rest ih =>
    rw [List.flatten_cons]
    cases j with
    | zero =>
      cases hj
      rw [List.take_zero, List.map_nil, List.sum_nil, Nat.zero_add, List.getElem?_append_left hk]
    | succ j =>
      rw [List.take_succ_cons, List.map_cons, List.sum_cons, Nat.add_assoc,
        List.getElem?_append_right (Nat.le_add_right _ _), Nat.add_sub_cancel_left, ih hj]

/-- There is a list of outgoing edges for each node. -/
theorem length_outLists : (outLists t reach).length = (ofTimetable t reach).nodeCount := by
  rw [← tail_of_mem_outLists.length_eq, Array.length_toList, nodeCount]

/-- The edges of a node begin behind those of all nodes before it. -/
theorem offset_ofTimetable {v : Nat} (hv : v ≤ (ofTimetable t reach).nodeCount) :
    (ofTimetable t reach).offset v = (((outLists t reach).take v).map List.length).sum := by
  have hle : v ≤ ((outLists t reach).map List.length).length := by
    rwa [List.length_map, length_outLists]
  have hat : (ofTimetable t reach).offsets[v]? =
      (totals 0 ((outLists t reach).map List.length))[v]? := List.getElem?_toArray
  rw [getElem?_totals 0 _ hle, Nat.zero_add, ← List.map_take] at hat
  rw [offset, Array.getD_eq_getD_getElem?, hat, Option.getD_some]

/-- A node of the network is found under its number. -/
theorem node?_of_mem_nodes {node : Node α} (h : node ∈ (ofTimetable t reach).nodes) :
    (ofTimetable t reach).node? node.id = some node := by
  obtain ⟨i, hi⟩ := Array.mem_iff_getElem?.mp h
  rw [node?, index_of_getElem?_nodes (by rwa [Array.getElem?_toList]), hi]

/-- Nodes with one number are the same. -/
theorem eq_of_mem_nodes {a b : Node α} (ha : a ∈ (ofTimetable t reach).nodes)
    (hb : b ∈ (ofTimetable t reach).nodes) (h : a.id = b.id) : a = b := by
  have hfound := node?_of_mem_nodes ha
  rw [h, node?_of_mem_nodes hb] at hfound
  exact (Option.some.inj hfound).symm

/-- Edges that follow on each other along a walk meet at one node. -/
theorem head_eq_tail_of_isWalk {a b : NodeId} {front back : List (Edge α)} {e e' : Edge α}
    (h : (ofTimetable t reach).IsWalk a (front ++ e :: e' :: back) b) : e.head = e'.tail := by
  have hmem {edge : Edge α} (hedge : edge ∈ e :: e' :: back) :
      edge ∈ (ofTimetable t reach).edges :=
    h.mem_edges edge (List.mem_append_right front hedge)
  exact eq_of_mem_nodes (mem_nodes_of_mem_edges (hmem List.mem_cons_self)).2
    (mem_nodes_of_mem_edges (hmem (List.mem_cons_of_mem e List.mem_cons_self))).1 h.meet

/-- Whatever the timetable, its network is well formed. -/
theorem wellFormed_ofTimetable (t : Timetable α) (reach : α) :
    (ofTimetable t reach).WellFormed where
  numbered i node h := index_of_getElem?_nodes (by rwa [Array.getElem?_toList])
  node?_tail _ he := node?_of_mem_nodes (mem_nodes_of_mem_edges he).1
  node?_head _ he := node?_of_mem_nodes (mem_nodes_of_mem_edges he).2
  offset_zero := by
    rw [offset_ofTimetable (Nat.zero_le _)]
    simp
  offset_le v hv := by
    rw [offset_ofTimetable (Nat.le_of_lt hv), offset_ofTimetable hv, List.take_add_one,
      List.map_append, List.sum_append]
    exact Nat.le_add_right _ _
  offset_nodeCount := by
    rw [offset_ofTimetable (Nat.le_refl _), ← length_outLists, List.take_length,
      ← List.length_flatten, edgeCount, ← Array.length_toList, toList_edges, List.length_mapIdx]
  placed i e h := by
    rw [← Array.getElem?_toList, toList_edges, List.getElem?_mapIdx, Option.map_eq_some_iff] at h
    obtain ⟨e', he', rfl⟩ := h
    obtain ⟨j, es, hes, hmem, hfrom, hto⟩ := place_of_getElem?_flatten _ he'
    obtain ⟨hj, rfl⟩ := List.getElem?_eq_some_iff.mp hes
    have hnode : j < (ofTimetable t reach).nodes.toList.length := by
      rwa [tail_of_mem_outLists.length_eq]
    have htail : e'.tail = (ofTimetable t reach).nodes.toList[j] :=
      tail_of_mem_outLists.get hnode hj e' hmem
    have hnumber : e'.tail.id.index = j :=
      index_of_getElem?_nodes (by rw [List.getElem?_eq_getElem hnode, htail])
    rw [hnumber, offset_ofTimetable (Nat.le_of_lt hnode), offset_ofTimetable hnode]
    exact ⟨hfrom, hto⟩

/-- The edges that leave a node are the edges with this node at their tail. -/
theorem mem_outEdges_ofTimetable {node : Node α} (h : node ∈ (ofTimetable t reach).nodes)
    (e : Edge α) : e ∈ (ofTimetable t reach).outEdges node.id ↔
      e ∈ (ofTimetable t reach).edges ∧ e.tail = node := by
  have hlt := (Array.getElem?_eq_some_iff.mp (node?_of_mem_nodes h)).1
  rw [(wellFormed_ofTimetable t reach).mem_outEdges_iff hlt]
  refine and_congr_right fun he ↦ ⟨fun htail ↦ ?_, fun htail ↦ by rw [htail]⟩
  exact eq_of_mem_nodes (mem_nodes_of_mem_edges he).1 h htail

section

variable (times : Timetable.ShuttleTimes α)

/-- Where a shuttle leaves. -/
def westAt : Node α :=
  nodeOf (.shuttleAt times) (Timetable.shuttleRouteAt times) 0 0 ⟨⟨0⟩, none, some times.leaves⟩

/-- Where a shuttle ends. -/
def eastAt : Node α :=
  nodeOf (.shuttleAt times) (Timetable.shuttleRouteAt times) 0 1 ⟨⟨1⟩, some times.arrives, none⟩

/-- The ride on a shuttle. -/
def shuttleRideAt : Edge α := { ride (westAt times) (eastAt times) with id := ⟨0⟩ }

/-- The ride on a shuttle is the first edge of its network. -/
theorem shuttleRideAt_mem_edges :
    shuttleRideAt times ∈ (ofTimetable (.shuttleAt times) reach).edges := by
  have first : (outLists (.shuttleAt times) reach).flatten[0]? =
      some (ride (westAt times) (eastAt times)) := rfl
  rw [← Array.mem_toList_iff, toList_edges, List.mem_iff_getElem?]
  exact ⟨0, by rw [List.getElem?_mapIdx, first]; rfl⟩

/-- When its stops are out of reach of each other, a shuttle has no other edge. -/
theorem edges_shuttleAt (apart : withinReach reach (eastAt times) (westAt times) = false) :
    (ofTimetable (.shuttleAt times) reach).edges = #[shuttleRideAt times] := by
  have hwest : transfers (.shuttleAt times) reach [westAt times, eastAt times] (westAt times) =
      [] := rfl
  have heast : transfers (.shuttleAt times) reach [westAt times, eastAt times] (eastAt times) =
      [] := by
    rw [transfers, List.map_eq_nil_iff, List.filter_eq_nil_iff]
    intro node hnode
    rcases List.mem_pair.mp hnode with rfl | rfl
    · rw [joins, apart]
      simp
    · simp [joins]
  have houts : outLists (.shuttleAt times) reach = [[ride (westAt times) (eastAt times)], []] := by
    change [ride (westAt times) (eastAt times) ::
        transfers (.shuttleAt times) reach [westAt times, eastAt times] (westAt times),
      transfers (.shuttleAt times) reach [westAt times, eastAt times] (eastAt times)] = _
    rw [hwest, heast]
  rw [← Array.toList_inj, toList_edges, houts]
  rfl

end

/-- Where the shuttle leaves. -/
def west : Node α := nodeOf .shuttle Timetable.shuttleRoute 0 0 ⟨⟨0⟩, none, some Scalar.zero⟩

/-- Where the shuttle ends. -/
def east : Node α :=
  nodeOf .shuttle Timetable.shuttleRoute 0 1 ⟨⟨1⟩, some (Clock.time 0 10 0), none⟩

/-- The ride on the shuttle. -/
def shuttleRide : Edge α := { ride west east with id := ⟨0⟩ }

/-- The nodes of the shuttle are its two calls. -/
theorem nodes_shuttle : (ofTimetable .shuttle reach).nodes = #[west, east] := rfl

/-- The ride on the shuttle is the first edge of its network. -/
theorem shuttleRide_mem_edges : (shuttleRide : Edge α) ∈ (ofTimetable .shuttle reach).edges :=
  shuttleRideAt_mem_edges .morning

/-- A call of the tram as a node. -/
def tramNode (dwell position : Nat) : Node α :=
  nodeOf (.tram dwell) (Timetable.tramRoute dwell) 0 position (Timetable.tramCall dwell position)

/-- The ride on the tram from a call to the next one. -/
def tramRide (dwell position : Nat) : Edge α :=
  { ride (tramNode dwell position) (tramNode dwell (position + 1)) with id := ⟨position⟩ }

/-- The nodes of the tram are its three calls. -/
theorem nodes_tram (dwell : Nat) : (ofTimetable (.tram dwell) reach).nodes =
    #[tramNode dwell 0, tramNode dwell 1, tramNode dwell 2] := rfl

/-- The nodes of the tram are its calls. -/
theorem mem_nodes_tram {dwell : Nat} {node : Node α} :
    node ∈ (ofTimetable (.tram dwell) reach).nodes ↔
      ∃ position < 3, node = tramNode dwell position := by
  rw [nodes_tram, ← Array.mem_toList_iff]
  simp only [List.mem_cons, List.not_mem_nil, or_false]
  constructor
  · rintro (rfl | rfl | rfl)
    · exact ⟨0, by omega, rfl⟩
    · exact ⟨1, by omega, rfl⟩
    · exact ⟨2, by omega, rfl⟩
  · rintro ⟨position, hposition, rfl⟩
    match position with
    | 0 => exact .inl rfl
    | 1 => exact .inr (.inl rfl)
    | 2 => exact .inr (.inr rfl)
    | _ + 3 => omega

/-- When its stops are out of reach of each other, the tram has no edges but its two rides. -/
theorem edges_tram (dwell : Nat)
    (apart : ∀ i < 3, ∀ j < 3, i ≠ j →
      withinReach reach (tramNode dwell i : Node α) (tramNode dwell j) = false) :
    (ofTimetable (.tram dwell) reach).edges = #[tramRide dwell 0, tramRide dwell 1] := by
  have halone (i : Nat) (hi : i < 3) : transfers (.tram dwell) reach
      [tramNode dwell 0, tramNode dwell 1, tramNode dwell 2] (tramNode dwell i : Node α) = [] := by
    rw [transfers, List.map_eq_nil_iff, List.filter_eq_nil_iff]
    intro node hnode
    have hmem : node ∈ (ofTimetable (.tram dwell) reach).nodes := Array.mem_toList_iff.mp hnode
    obtain ⟨j, hj, rfl⟩ := mem_nodes_tram.mp hmem
    by_cases hij : i = j
    · subst hij
      simp [joins]
    · simp [joins, apart i hi j hj hij]
  have houts : outLists (.tram dwell) reach =
      [[ride (tramNode dwell 0 : Node α) (tramNode dwell 1)],
        [ride (tramNode dwell 1) (tramNode dwell 2)], []] := by
    change [ride (tramNode dwell 0) (tramNode dwell 1) :: transfers (.tram dwell) reach
        [tramNode dwell 0, tramNode dwell 1, tramNode dwell 2] (tramNode dwell 0),
      ride (tramNode dwell 1) (tramNode dwell 2) :: transfers (.tram dwell) reach
        [tramNode dwell 0, tramNode dwell 1, tramNode dwell 2] (tramNode dwell 1),
      transfers (.tram dwell) reach
        [tramNode dwell 0, tramNode dwell 1, tramNode dwell 2] (tramNode dwell 2)] = _
    rw [halone 0 (by omega), halone 1 (by omega), halone 2 (by omega)]
  rw [← Array.toList_inj, toList_edges, houts]
  rfl

end DoorToDoor.Network
