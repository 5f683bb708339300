import DoorToDoor.Proofs.Network.Fans

/-!
# Networks that represent timetables

What the network of a timetable is (`Represents`), stated of its arrays and its edges without the
way in which they are laid out: the nodes are the calls of the routes in their order, the offsets
cut the edges into one stretch for each node, a ride leads to the next call of each route, and
transfers lead where one can change. Every timetable that is built is represented by its network
(`represents_ofTimetable`), also one with routes that call at a stop twice, and with nodes that no
edge leaves. How far transfers lead is told by squares: in exact arithmetic no further than the
reach (`boundsBySquare_of_nonneg`), but rounded squares may overflow (`long_transfer_distantLines`).
-/

namespace DoorToDoor

namespace Network

section

variable {α : Type} [Scalar α]

/-- Whether a node stands for a call of a route: it belongs to the line of the route, and lies at
the place and the link of the stop. -/
structure IsCallOf (t : Timetable α) (node : Node α) : Prop where
  call : ∃ r, t.route? node.route = some r ∧ r.line = node.line ∧
    r.calls[node.position]? = some node.call
  stop : node.call.stop = node.stop
  site : ∃ s, t.stop? node.stop = some s ∧ s.coord = node.coord ∧ s.link = node.link

/-- Whether edges are those that leave a node: the ride to the next call of its route, unless it is
the last one, and then transfers, one at most to each node, from nodes at which vehicles arrive to
nodes from which they depart, within the square of a reach. -/
structure IsOutgoing (t : Timetable α) (reach : α) (node : Node α)
    (rides changes : List (Edge α)) : Prop where
  last : IsLast t node → rides = []
  next : ¬IsLast t node → ∃ e, rides = [e] ∧ e.kind = .ride node.line node.route ∧
    e.head.route = node.route ∧ e.head.position = node.position + 1
  change : ∀ e ∈ changes, e.kind = .transfer ∧ ¬IsFirst node ∧ ¬IsLast t e.head
  near : ∀ e ∈ changes, e.head.coord.squareTo node.coord ≤ reach * reach
  once : (changes.map (·.head.id)).Nodup

/-- Whether a network has the calls of a timetable as its nodes, the rides between them and
transfers over a distance as its edges, and offsets that tell which edges leave which node. -/
structure Represents (n : Network α) (t : Timetable α) (reach : α) : Prop where
  order : n.nodes.toList.map (fun node ↦ (node.route, node.position)) =
    t.routes.toList.flatMap fun r ↦ (List.range r.calls.length).map (r.id, ·)
  call : ∀ node ∈ n.nodes, IsCallOf t node
  node_numbered : ∀ (i : Nat) (node : Node α), n.nodes[i]? = some node → node.id.index = i
  edge_numbered : ∀ (i : Nat) (e : Edge α), n.edges[i]? = some e → e.id.index = i
  size_offsets : n.offsets.size = n.nodeCount + 1
  first_offset : n.offsets[0]? = some 0
  ascending : n.offsets.toList.Pairwise (· ≤ ·)
  last_offset : n.offsets[n.nodeCount]? = some n.edgeCount
  stretch : ∀ (v i first next : Nat) (e : Edge α), n.offsets[v]? = some first →
    n.offsets[v + 1]? = some next → n.edges[i]? = some e →
      (first ≤ i ∧ i < next ↔ e.tail.id.index = v)
  mem_outEdges_iff : ∀ node ∈ n.nodes, ∀ e, e ∈ n.outEdges node.id ↔ e ∈ n.edges ∧ e.tail = node
  visits : n.nodes.toList.flatMap (fun node ↦ n.outEdges node.id) = n.edges.toList
  ends : ∀ e ∈ n.edges, e.tail ∈ n.nodes ∧ e.head ∈ n.nodes
  length : ∀ e ∈ n.edges, e.length = e.tail.coord.distance e.head.coord
  outgoing : ∀ node ∈ n.nodes, ∃ rides changes,
    n.outEdges node.id = rides ++ changes ∧ IsOutgoing t reach node rides changes

variable {t : Timetable α} {reach : α}

/-- The nodes of the network of a timetable stand for calls. -/
theorem isCallOf_of_mem_nodes (wf : t.WellFormed) {node : Node α}
    (h : node ∈ (ofTimetable t reach).nodes) : IsCallOf t node := by
  obtain ⟨r, hroute, -, hline, hcall, hstop⟩ := exists_route?_of_mem_nodes wf h
  exact ⟨⟨r, hroute, hline, hcall⟩, hstop, exists_stop?_of_mem_nodes wf h⟩

private theorem size_offsets :
    (ofTimetable t reach).offsets.size = (ofTimetable t reach).nodeCount + 1 := by
  rw [← length_outLists, ← List.length_map (f := List.length), ← length_totals 0]
  rfl

private theorem getElem?_offsets {v first : Nat} :
    (ofTimetable t reach).offsets[v]? = some first ↔
      v ≤ (ofTimetable t reach).nodeCount ∧ (ofTimetable t reach).offset v = first := by
  have hsize : (ofTimetable t reach).offsets.size = (ofTimetable t reach).nodeCount + 1 :=
    size_offsets
  rw [offset, Array.getD_eq_getD_getElem?]
  constructor
  · intro h
    have hlt := (Array.getElem?_eq_some_iff.mp h).1
    exact ⟨by omega, by rw [h, Option.getD_some]⟩
  · rintro ⟨hle, rfl⟩
    rw [Array.getElem?_eq_getElem (by omega), Option.getD_some]

private theorem pairwise_offsets : (ofTimetable t reach).offsets.toList.Pairwise (· ≤ ·) := by
  rw [List.pairwise_iff_getElem]
  intro u v hu hv huv
  rw [Array.getElem_toList, Array.getElem_toList]
  obtain ⟨-, hfrom⟩ := getElem?_offsets.mp (Array.getElem?_eq_getElem hu)
  obtain ⟨hle, hto⟩ := getElem?_offsets.mp (Array.getElem?_eq_getElem hv)
  rw [← hfrom, ← hto]
  exact (wellFormed_ofTimetable t reach).offset_mono huv.le hle

/-- The offsets of a node and of the next one enclose the places of the edges that leave it. -/
theorem tail_iff_of_offsets {v i first next : Nat} {e : Edge α}
    (hfirst : (ofTimetable t reach).offsets[v]? = some first)
    (hnext : (ofTimetable t reach).offsets[v + 1]? = some next)
    (he : (ofTimetable t reach).edges[i]? = some e) :
    first ≤ i ∧ i < next ↔ e.tail.id.index = v := by
  obtain ⟨-, rfl⟩ := getElem?_offsets.mp hfirst
  obtain ⟨hlt, rfl⟩ := getElem?_offsets.mp hnext
  have wf := wellFormed_ofTimetable t reach
  constructor
  · rintro ⟨hfrom, hto⟩
    exact congrArg Id.index (wf.tail_of_place (v := ⟨v⟩) hlt he hfrom hto)
  · rintro rfl
    exact wf.placed i e he

private theorem index_of_getElem?_edges {i : Nat} {e : Edge α}
    (h : (ofTimetable t reach).edges[i]? = some e) : e.id.index = i := by
  rw [← Array.getElem?_toList, toList_edges, List.getElem?_mapIdx, Option.map_eq_some_iff] at h
  obtain ⟨e', -, rfl⟩ := h
  rfl

private theorem of_joins (wf : t.WellFormed) {a b : Node α} (hb : b ∈ (ofTimetable t reach).nodes)
    (h : joins t reach a b = true) :
    ¬IsFirst a ∧ ¬IsLast t b ∧ b.coord.squareTo a.coord ≤ reach * reach := by
  rw [joins, Bool.and_eq_true, Bool.and_eq_true, Bool.and_eq_true, Bool.and_eq_true, canArrive,
    bne_iff_ne, canDepart_iff wf hb, withinReach, decide_eq_true_iff] at h
  obtain ⟨⟨⟨⟨arrives, -⟩, departs⟩, -⟩, near⟩ := h
  exact ⟨arrives, departs, near⟩

/-- What leaves a node is the ride to the next call of its route, unless it is the last one, and
behind it transfers. -/
theorem isOutgoing_of_mem_nodes (wf : t.WellFormed) {a : Node α}
    (ha : a ∈ (ofTimetable t reach).nodes) : ∃ rides changes,
      (ofTimetable t reach).outEdges a.id = rides ++ changes ∧
        IsOutgoing t reach a rides changes := by
  obtain ⟨rides, changes, hout, last, next, joined, once⟩ := exists_fan wf ha
  have hchange (e : Edge α) (he : e ∈ changes) :
      ¬IsFirst a ∧ ¬IsLast t e.head ∧ e.head.coord.squareTo a.coord ≤ reach * reach := by
    have hmem : e ∈ (ofTimetable t reach).outEdges a.id := hout ▸ List.mem_append_right rides he
    have hhead := (mem_nodes_of_mem_edges ((mem_outEdges_ofTimetable ha e).mp hmem).1).2
    exact of_joins wf hhead (joined e he).2
  refine ⟨rides, changes, hout, last, fun goes ↦ ?_, fun e he ↦ ?_, fun e he ↦ ?_, once⟩
  · obtain ⟨e, hrides, kind, hplace⟩ := next goes
    obtain ⟨hroute, hposition⟩ := Prod.mk.inj hplace
    exact ⟨e, hrides, kind, hroute, hposition⟩
  · obtain ⟨arrives, departs, -⟩ := hchange e he
    exact ⟨(joined e he).1, arrives, departs⟩
  · exact (hchange e he).2.2

/-- Whether the square of a reach stands for the reach: points whose squared distance is at most the
square are no further apart than the reach. -/
def BoundsBySquare (reach : α) : Prop :=
  ∀ p q : Point α, q.squareTo p ≤ reach * reach → p.distance q ≤ reach

/-- In exact arithmetic the square of a reach that is not negative stands for it. -/
theorem boundsBySquare_of_nonneg {reach : EReal} (nonneg : 0 ≤ reach) : BoundsBySquare reach := by
  intro p q h
  rw [Point.squareTo_comm] at h
  exact Scalar.sqrt_le_of_le_mul_self nonneg h

/-- Every timetable that is built is represented by its network, and no transfer is longer than the
reach if its square stands for it. -/
theorem represents_ofTimetable (t : Timetable α) (built : t.Built) (reach : α) :
    (ofTimetable t reach).Represents t reach ∧
      (BoundsBySquare reach →
        ∀ e ∈ (ofTimetable t reach).edges, e.kind = .transfer → e.length ≤ reach) where
  left :=
    { order := map_place_nodes
      call := fun _ h ↦ isCallOf_of_mem_nodes built.wellFormed h
      node_numbered := (wellFormed_ofTimetable t reach).numbered
      edge_numbered := fun _ _ h ↦ index_of_getElem?_edges h
      size_offsets := size_offsets
      first_offset :=
        getElem?_offsets.mpr ⟨Nat.zero_le _, (wellFormed_ofTimetable t reach).offset_zero⟩
      ascending := pairwise_offsets
      last_offset :=
        getElem?_offsets.mpr ⟨Nat.le_refl _, (wellFormed_ofTimetable t reach).offset_nodeCount⟩
      stretch := fun _ _ _ _ _ hfirst hnext he ↦ tail_iff_of_offsets hfirst hnext he
      mem_outEdges_iff := fun _ h ↦ mem_outEdges_ofTimetable h
      visits := (wellFormed_ofTimetable t reach).flatMap_outEdges
      ends := fun _ he ↦ mem_nodes_of_mem_edges he
      length := fun _ he ↦ length_of_mem_edges he
      outgoing := fun _ h ↦ isOutgoing_of_mem_nodes built.wellFormed h }
  right bounds e he kind := by
    obtain ⟨-, -, near⟩ := of_joins built.wellFormed (mem_nodes_of_mem_edges he).2
      (joins_of_mem_edges he kind)
    rw [length_of_mem_edges he]
    exact bounds _ _ near

/-- The tram with a branch is represented by its network with transfers over a kilometre. -/
theorem represents_branchedTram : (Timetable.branchedTram : Timetable EReal).Built ∧
    (ofTimetable Timetable.branchedTram (1000 : EReal)).Represents Timetable.branchedTram 1000 ∧
    ∀ e ∈ (ofTimetable Timetable.branchedTram (1000 : EReal)).edges, e.kind = .transfer →
      e.length ≤ 1000 := by
  have bounds : BoundsBySquare (1000 : EReal) := boundsBySquare_of_nonneg (by norm_num)
  obtain ⟨represents, short⟩ :=
    represents_ofTimetable Timetable.branchedTram Timetable.built_branchedTram (1000 : EReal)
  exact ⟨Timetable.built_branchedTram, represents, short bounds⟩

end

end Network

namespace Timetable

/-- The route of a line from a stop to one a kilometre away. -/
def nearRoute : Route Float :=
  ⟨⟨0⟩, ⟨0⟩, "out", [⟨⟨0⟩, none, some 0⟩, ⟨⟨1⟩, some 600, none⟩], [28800]⟩

/-- The route of a line that is so far away that the square of the distance overflows. -/
def farRoute : Route Float :=
  ⟨⟨1⟩, ⟨1⟩, "out", [⟨⟨2⟩, none, some 0⟩, ⟨⟨3⟩, some 600, none⟩], [28800]⟩

/-- The two lines, far away from each other. -/
def distantLines : Timetable Float where
  stops := #[⟨⟨0⟩, ⟨0, 0⟩, ⟨0⟩, "west"⟩, ⟨⟨1⟩, ⟨1000, 0⟩, ⟨1⟩, "east"⟩,
    ⟨⟨2⟩, ⟨1e160, 0⟩, ⟨2⟩, "south"⟩, ⟨⟨3⟩, ⟨1e160, 1000⟩, ⟨3⟩, "north"⟩]
  lines := #[⟨⟨0⟩, "near", [⟨0⟩]⟩, ⟨⟨1⟩, "far", [⟨1⟩]⟩]
  routes := #[nearRoute, farRoute]

private theorem built_distantLines : distantLines.Built := by
  have stops : Built (⟨distantLines.stops, #[], #[]⟩ : Timetable Float) :=
    .addStop (.addStop (.addStop (.addStop .empty ⟨0, 0⟩ ⟨0⟩ "west") ⟨1000, 0⟩ ⟨1⟩ "east")
      ⟨1e160, 0⟩ ⟨2⟩ "south") ⟨1e160, 1000⟩ ⟨3⟩ "north"
  let near : Timetable Float := ⟨distantLines.stops, #[⟨⟨0⟩, "near", [⟨0⟩]⟩], #[nearRoute]⟩
  have first : ((⟨distantLines.stops, #[], #[]⟩ : Timetable Float).addLine "near").2.addRoute ⟨0⟩
      "out" nearRoute.calls nearRoute.departures = .ok (⟨0⟩, near) := rfl
  have second : (near.addLine "far").2.addRoute ⟨1⟩ "out" farRoute.calls farRoute.departures =
      .ok (⟨1⟩, distantLines) := rfl
  exact .addRoute (.addLine (.addRoute (.addLine stops "near") first) "far") second

end Timetable

namespace Network

open Timetable (built_distantLines distantLines farRoute nearRoute)

/-- The square of a reach may overflow, and then a transfer leads to a stop far out of reach. -/
theorem long_transfer_distantLines : distantLines.Built ∧ (0 : Float) ≤ 1e155 ∧
    ∃ e ∈ (ofTimetable distantLines 1e155).edges, e.kind = .transfer ∧ ¬e.length ≤ 1e155 := by
  let east : Node Float := nodeOf distantLines nearRoute 0 1 ⟨⟨1⟩, some 600, none⟩
  let far : Node Float := nodeOf distantLines farRoute 2 0 ⟨⟨2⟩, none, some 0⟩
  have heast : (ofTimetable distantLines 1e155).nodes[1]? = some east := rfl
  have hfar : (ofTimetable distantLines 1e155).nodes[2]? = some far := rfl
  have hjoins : joins distantLines 1e155 east far = true := by decide +kernel
  have hlength : ¬east.coord.distance far.coord ≤ 1e155 := by decide +kernel
  obtain ⟨e, he, kind, htail, hhead⟩ := (hasTransfer_iff_joins (Array.mem_of_getElem? heast)
    (Array.mem_of_getElem? hfar)).mpr hjoins
  refine ⟨built_distantLines, by decide +kernel, e, he, kind, ?_⟩
  rw [length_of_mem_edges he, htail, hhead]
  exact hlength

end Network

end DoorToDoor
