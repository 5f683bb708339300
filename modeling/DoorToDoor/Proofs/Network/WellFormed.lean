import Mathlib.Algebra.BigOperators.Group.Finset.Basic
import Mathlib.Algebra.Order.BigOperators.Group.Finset
import Mathlib.Data.EReal.Inv
import Mathlib.Data.List.Nodup
import DoorToDoor.Network.Basic

/-!
# Well-formed networks

A network is well formed when its nodes are numbered by their places, its edges join nodes of it,
and the table of offsets cuts the array of edges into one stretch for each node that the edges
leave. Every edge then stands among the edges of exactly one node (`mem_outEdges_iff`), so no choice
of different nodes has more outgoing edges than there are edges (`sum_outEdges_le`).
-/

namespace DoorToDoor

/-- Things of one kind with one number are the same. -/
theorem Id.eq_of_index_eq {k : Kind} {i j : Id k} (h : i.index = j.index) : i = j := by
  cases i
  cases j
  exact congrArg Id.mk h

namespace Network

variable {α : Type} {n : Network α}

/-- Nodes are numbered by their places, edges join nodes, and the offsets cut the edges into the
stretches of the nodes that they leave. -/
structure WellFormed (n : Network α) : Prop where
  numbered : ∀ (i : Nat) (node : Node α), n.nodes[i]? = some node → node.id.index = i
  node?_tail : ∀ e ∈ n.edges, n.node? e.tail.id = some e.tail
  node?_head : ∀ e ∈ n.edges, n.node? e.head.id = some e.head
  offset_zero : n.offset 0 = 0
  offset_le : ∀ v < n.nodeCount, n.offset v ≤ n.offset (v + 1)
  offset_nodeCount : n.offset n.nodeCount = n.edgeCount
  placed : ∀ (i : Nat) (e : Edge α), n.edges[i]? = some e →
    n.offset e.tail.id.index ≤ i ∧ i < n.offset (e.tail.id.index + 1)

/-- The edges that leave a node are edges of the network. -/
theorem mem_edges_of_mem_outEdges {v : NodeId} {e : Edge α} (h : e ∈ n.outEdges v) :
    e ∈ n.edges := by
  rw [outEdges, Array.mem_toList_iff, Array.mem_extract_iff_getElem] at h
  obtain ⟨k, hk, rfl⟩ := h
  exact Array.getElem_mem _

/-- Whether a list of edges leads from one node to another. The list without edges leads from each
node to itself. -/
def IsWalk (n : Network α) : NodeId → List (Edge α) → NodeId → Prop
  | a, [], b => a = b ∧ a.index < n.nodeCount
  | a, e :: rest, b => e ∈ n.edges ∧ e.tail.id = a ∧ n.IsWalk e.head.id rest b

/-- The edges of a walk are edges of the network. -/
theorem IsWalk.mem_edges {a b : NodeId} {es : List (Edge α)} (h : n.IsWalk a es b) :
    ∀ e ∈ es, e ∈ n.edges := by
  induction es generalizing a with
  | nil => simp
  | cons e rest ih =>
    obtain ⟨hmem, -, hrest⟩ := h
    intro e' he'
    rcases List.mem_cons.mp he' with rfl | he'
    · exact hmem
    · exact ih hrest e' he'

/-- Edges of a walk that follow on each other meet. -/
theorem IsWalk.meet {a b : NodeId} {front back : List (Edge α)} {e e' : Edge α}
    (h : n.IsWalk a (front ++ e :: e' :: back) b) : e.head.id = e'.tail.id := by
  induction front generalizing a with
  | nil => exact h.2.2.2.1.symm
  | cons _ rest ih => exact ih h.2.2

/-- A walk may go on along another one. -/
theorem IsWalk.append {a b c : NodeId} {es es' : List (Edge α)} (h : n.IsWalk a es b)
    (h' : n.IsWalk b es' c) : n.IsWalk a (es ++ es') c := by
  induction es generalizing a with
  | nil =>
    obtain ⟨rfl, -⟩ := h
    exact h'
  | cons e rest ih =>
    obtain ⟨hmem, htail, hrest⟩ := h
    exact ⟨hmem, htail, ih hrest⟩

/-- There are no more different nodes than there are nodes. -/
theorem length_le_nodeCount {ids : List NodeId} (distinct : ids.Nodup)
    (inside : ∀ v ∈ ids, v.index < n.nodeCount) : ids.length ≤ n.nodeCount := by
  have hnodup : (ids.map (·.index)).Nodup := distinct.map fun _ _ ↦ Id.eq_of_index_eq
  have hsub : ids.map (·.index) ⊆ List.range n.nodeCount := by
    intro i hi
    obtain ⟨v, hv, rfl⟩ := List.mem_map.mp hi
    exact List.mem_range.mpr (inside v hv)
  have hle := (List.subperm_of_subset hnodup hsub).length_le
  rwa [List.length_map, List.length_range] at hle

namespace WellFormed

variable (wf : n.WellFormed)

include wf

/-- A node is found under its own number only. -/
theorem id_eq_of_node? {id : NodeId} {node : Node α} (h : n.node? id = some node) :
    node.id = id :=
  Id.eq_of_index_eq (wf.numbered id.index node h)

/-- Nodes are listed by their numbers. -/
theorem pairwise_index_nodes : n.nodes.toList.Pairwise (·.id.index < ·.id.index) := by
  rw [List.pairwise_iff_getElem]
  intro i j hi hj hij
  have hindex (k : Nat) (hk : k < n.nodes.toList.length) : n.nodes.toList[k].id.index = k :=
    wf.numbered k _ (by rw [← Array.getElem?_toList, List.getElem?_eq_getElem hk])
  rwa [hindex, hindex]

/-- Edges leave nodes of the network. -/
theorem tail_lt {e : Edge α} (he : e ∈ n.edges) : e.tail.id.index < n.nodeCount :=
  (Array.getElem?_eq_some_iff.mp (wf.node?_tail e he)).1

/-- Edges lead to nodes of the network. -/
theorem head_lt {e : Edge α} (he : e ∈ n.edges) : e.head.id.index < n.nodeCount :=
  (Array.getElem?_eq_some_iff.mp (wf.node?_head e he)).1

/-- A walk starts at a node of the network. -/
theorem lt_of_isWalk {a b : NodeId} {es : List (Edge α)} (h : n.IsWalk a es b) :
    a.index < n.nodeCount := by
  cases es with
  | nil => exact h.2
  | cons e rest => exact h.2.1 ▸ wf.tail_lt h.1

/-- A walk comes to a node between any two parts of it. -/
theorem of_isWalk_append {a b : NodeId} {es es' : List (Edge α)} (h : n.IsWalk a (es ++ es') b) :
    ∃ v, n.IsWalk a es v ∧ n.IsWalk v es' b := by
  induction es generalizing a with
  | nil => exact ⟨a, ⟨rfl, wf.lt_of_isWalk h⟩, h⟩
  | cons e rest ih =>
    obtain ⟨hmem, htail, hrest⟩ := h
    obtain ⟨v, walk, hwalk⟩ := ih hrest
    exact ⟨v, ⟨hmem, htail, walk⟩, hwalk⟩

/-- The stretch of a node begins no later than that of a node behind it. -/
theorem offset_mono {u v : Nat} (huv : u ≤ v) (hv : v ≤ n.nodeCount) : n.offset u ≤ n.offset v := by
  induction huv with
  | refl => exact Nat.le_refl _
  | step _ ih => exact Nat.le_trans (ih (by omega)) (wf.offset_le _ (by omega))

/-- All stretches end within the edges. -/
theorem offset_succ_le {v : Nat} (hv : v < n.nodeCount) : n.offset (v + 1) ≤ n.edges.size := by
  have hle := wf.offset_mono hv (Nat.le_refl _)
  rwa [wf.offset_nodeCount] at hle

/-- An edge in the stretch of a node leaves that node, because stretches do not overlap. -/
theorem tail_of_place {v : NodeId} (hv : v.index < n.nodeCount) {i : Nat} {e : Edge α}
    (he : n.edges[i]? = some e) (hfrom : n.offset v.index ≤ i)
    (hto : i < n.offset (v.index + 1)) : e.tail.id = v := by
  obtain ⟨hfrom', hto'⟩ := wf.placed i e he
  have ht := wf.tail_lt (Array.mem_of_getElem? he)
  apply Id.eq_of_index_eq
  rcases Nat.lt_trichotomy e.tail.id.index v.index with h | h | h
  · have hle := wf.offset_mono (u := e.tail.id.index + 1) h (Nat.le_of_lt hv)
    omega
  · exact h
  · have hle := wf.offset_mono (u := v.index + 1) h (Nat.le_of_lt ht)
    omega

/-- The edges that leave a node are the edges with this node at their tail. -/
theorem mem_outEdges_iff {v : NodeId} (hv : v.index < n.nodeCount) (e : Edge α) :
    e ∈ n.outEdges v ↔ e ∈ n.edges ∧ e.tail.id = v := by
  have hlast := wf.offset_succ_le hv
  rw [outEdges, Array.mem_toList_iff, Array.mem_extract_iff_getElem]
  constructor
  · rintro ⟨k, hk, rfl⟩
    have hat : n.edges[n.offset v.index + k]? = some n.edges[n.offset v.index + k] :=
      Array.getElem?_eq_getElem _
    exact ⟨Array.getElem_mem _,
      wf.tail_of_place hv hat (Nat.le_add_right _ _) (by omega)⟩
  · rintro ⟨he, rfl⟩
    obtain ⟨i, hi⟩ := Array.mem_iff_getElem?.mp he
    obtain ⟨hfrom, hto⟩ := wf.placed i e hi
    obtain ⟨hlt, rfl⟩ := Array.getElem?_eq_some_iff.mp hi
    refine ⟨i - n.offset n.edges[i].tail.id.index, by omega, ?_⟩
    congr 1
    omega

private theorem length_outEdges {v : NodeId} (hv : v.index < n.nodeCount) :
    (n.outEdges v).length = n.offset (v.index + 1) - n.offset v.index := by
  rw [outEdges, Array.length_toList, Array.size_extract, Nat.min_eq_left (wf.offset_succ_le hv)]

private theorem sum_outEdges_range {k : Nat} (hk : k ≤ n.nodeCount) :
    ∑ v ∈ Finset.range k, (n.outEdges ⟨v⟩).length = n.offset k := by
  induction k with
  | zero => rw [Finset.sum_range_zero, wf.offset_zero]
  | succ k ih =>
    have hlen : (n.outEdges ⟨k⟩).length = n.offset (k + 1) - n.offset k :=
      wf.length_outEdges (v := ⟨k⟩) hk
    have hle := wf.offset_le k hk
    rw [Finset.sum_range_succ, ih (Nat.le_of_succ_le hk), hlen]
    omega

private theorem flatMap_outEdges_range {k : Nat} (hk : k ≤ n.nodeCount) :
    (List.range k).flatMap (fun v ↦ n.outEdges ⟨v⟩) = n.edges.toList.take (n.offset k) := by
  induction k with
  | zero => rw [wf.offset_zero, List.take_zero, List.range_zero, List.flatMap_nil]
  | succ k ih =>
    have hle := wf.offset_le k hk
    have hout : n.outEdges ⟨k⟩ = (n.edges.toList.take (n.offset (k + 1))).drop (n.offset k) := by
      rw [outEdges, Array.toList_extract, List.extract_eq_take_drop, List.drop_take]
    have hfront : n.edges.toList.take (n.offset k) =
        (n.edges.toList.take (n.offset (k + 1))).take (n.offset k) := by
      rw [List.take_take, Nat.min_eq_left hle]
    rw [List.range_succ, List.flatMap_append, ih (Nat.le_of_succ_le hk), List.flatMap_singleton,
      hout, hfront, List.take_append_drop]

/-- The edges that leave the nodes, in turn, are all edges in their order. -/
theorem flatMap_outEdges :
    n.nodes.toList.flatMap (fun node ↦ n.outEdges node.id) = n.edges.toList := by
  have hids : n.nodes.toList.map (·.id) = (List.range n.nodeCount).map Id.mk := by
    apply List.ext_getElem
    · simp [nodeCount]
    · intro i hi _
      rw [List.length_map, Array.length_toList] at hi
      rw [List.getElem_map, List.getElem_map, List.getElem_range, Array.getElem_toList]
      exact Id.eq_of_index_eq (wf.numbered i _ (Array.getElem?_eq_getElem hi))
  calc
    n.nodes.toList.flatMap (fun node ↦ n.outEdges node.id)
      = (n.nodes.toList.map (·.id)).flatMap n.outEdges := by rw [List.flatMap_map]
    _ = (List.range n.nodeCount).flatMap (fun v ↦ n.outEdges ⟨v⟩) := by
      rw [hids, List.flatMap_map]
    _ = n.edges.toList := by
      rw [wf.flatMap_outEdges_range (Nat.le_refl _), wf.offset_nodeCount, edgeCount,
        ← Array.length_toList, List.take_length]

/-- Different nodes have together no more outgoing edges than there are edges. -/
theorem sum_outEdges_le {ids : List NodeId} (distinct : ids.Nodup)
    (inside : ∀ v ∈ ids, v.index < n.nodeCount) :
    (ids.map fun v ↦ (n.outEdges v).length).sum ≤ n.edgeCount := by
  have hnodup : (ids.map (·.index)).Nodup :=
    distinct.map fun _ _ ↦ Id.eq_of_index_eq
  have hsum : (ids.map fun v ↦ (n.outEdges v).length).sum =
      ∑ i ∈ (ids.map (·.index)).toFinset, (n.outEdges ⟨i⟩).length := by
    rw [List.sum_toFinset _ hnodup, List.map_map]
    rfl
  rw [hsum, ← wf.offset_nodeCount, ← wf.sum_outEdges_range (Nat.le_refl _)]
  refine Finset.sum_le_sum_of_subset fun i hi ↦ ?_
  rw [List.mem_toFinset, List.mem_map] at hi
  obtain ⟨v, hv, rfl⟩ := hi
  exact Finset.mem_range.mpr (inside v hv)

end WellFormed

end Network

end DoorToDoor
