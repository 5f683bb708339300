import Mathlib.Data.List.Forall2
import Mathlib.Data.List.Nodup
import DoorToDoor.Proofs.Network.Transfers

/-!
# What leaves a node

The nodes of the network of a timetable stand route by route in the order of the calls
(`map_place_nodes`), so each call of a route is one node (`eq_of_place_eq`). What leaves a node
stands in a row: the ride to the next call of its route, which every call but the last one has, and
behind it the transfers (`exists_fan`).
-/

namespace DoorToDoor.Network

variable {α : Type} [Scalar α] {t : Timetable α} {reach : α} {a b : Node α}

/-- The route of a node and its place there. -/
def place (node : Node α) : RouteId × Nat := (node.route, node.position)

/-- The nodes stand route by route, and those of one route in the order of its calls. -/
theorem map_place_nodes : (ofTimetable t reach).nodes.toList.map place =
    t.routes.toList.flatMap fun r ↦ (List.range r.calls.length).map (r.id, ·) := by
  have hrun (r : Route α) (first : Nat) : (r.calls.mapIdx (nodeOf t r first)).map place =
      (List.range r.calls.length).map (r.id, ·) := by
    apply List.ext_getElem
    · simp
    · intro i _ _
      simp [place, nodeOf]
  rw [toList_nodes]
  generalize 0 = first
  induction t.routes.toList generalizing first with
  | nil => rfl
  | cons r rest ih =>
    rw [stretches, List.flatten_cons, List.map_append, hrun, ih, List.flatMap_cons]

section

variable (wf : t.WellFormed)

include wf

private theorem nodup_places : ((ofTimetable t reach).nodes.toList.map place).Nodup := by
  rw [map_place_nodes, List.nodup_flatMap]
  refine ⟨fun r _ ↦ List.nodup_range.map fun i j h ↦ (Prod.mk.inj h).2, ?_⟩
  refine (List.pairwise_map.mp wf.nodup_ids).imp fun {r r'} hids x hx hx' ↦ hids ?_
  obtain ⟨i, -, rfl⟩ := List.mem_map.mp hx
  obtain ⟨j, -, hj⟩ := List.mem_map.mp hx'
  exact (Prod.mk.inj hj).1.symm

/-- Nodes at one place are the same. -/
theorem eq_of_place_eq (ha : a ∈ (ofTimetable t reach).nodes)
    (hb : b ∈ (ofTimetable t reach).nodes) (same : place a = place b) : a = b :=
  List.inj_on_of_nodup_map (nodup_places wf) (Array.mem_toList_iff.mpr ha)
    (Array.mem_toList_iff.mpr hb) same

/-- Whether an optional node is the next one of the route of a node: there is one unless the node is
the last call. -/
structure Precedes (t : Timetable α) (a : Node α) (next? : Option (Node α)) : Prop where
  place : ∀ b, next? = some b → place b = (a.route, a.position + 1)
  last : next? = none ↔ IsLast t a

/-- Whether edges are those that leave a node, not numbered yet. -/
def IsFan (t : Timetable α) (reach : α) (a : Node α) (es : List (Edge α)) : Prop :=
  ∃ next?, Precedes t a next? ∧
    es = (next?.map (ride a)).toList ++ transfers t reach (ofTimetable t reach).nodes.toList a

private theorem isFan_of_getElem?_fans {run : List (Node α)}
    (hrun : run ∈ stretches t 0 t.routes.toList)
    {i : Nat} {es : List (Edge α)} (ha : run[i]? = some a)
    (hes : (fans t reach (ofTimetable t reach).nodes.toList run)[i]? = some es) :
    IsFan t reach a es := by
  rw [getElem?_fans, ha, Option.map_some, Option.some.injEq] at hes
  refine ⟨run[i + 1]?, ?_, hes.symm⟩
  obtain ⟨r, hr, first, rfl⟩ := call_of_mem_stretches _ _ hrun
  have hroute := wf.route?_of_mem (Array.mem_toList_iff.mp hr)
  rw [List.getElem?_mapIdx, Option.map_eq_some_iff] at ha
  obtain ⟨call, hcall, rfl⟩ := ha
  have hlt := (List.getElem?_eq_some_iff.mp hcall).1
  constructor
  case place =>
    intro b hb
    rw [List.getElem?_mapIdx, Option.map_eq_some_iff] at hb
    obtain ⟨call', -, rfl⟩ := hb
    rfl
  case last =>
    rw [List.getElem?_eq_none_iff, List.length_mapIdx]
    constructor
    · intro hle
      exact ⟨r, hroute, Nat.le_antisymm hlt hle⟩
    · rintro ⟨r', hroute', hlength⟩
      obtain rfl : r = r' := Option.some.inj (hroute.symm.trans hroute')
      exact hlength.ge

private theorem forall₂_outLists :
    List.Forall₂ (IsFan t reach) (ofTimetable t reach).nodes.toList (outLists t reach) := by
  rw [toList_nodes, outLists, List.flatMap_def]
  refine List.rel_flatten ?_
  rw [List.forall₂_map_right_iff, List.forall₂_same]
  intro run hrun
  refine List.forall₂_iff_get.mpr ⟨(length_fans _ _).symm, fun i hi hi' ↦ ?_⟩
  exact isFan_of_getElem?_fans wf hrun (List.getElem?_eq_getElem hi) (List.getElem?_eq_getElem hi')

/-- What leaves a node stands in a row, numbered on from where its edges begin. -/
theorem outEdges_of_mem_nodes (ha : a ∈ (ofTimetable t reach).nodes) : ∃ es, IsFan t reach a es ∧
    (ofTimetable t reach).outEdges a.id =
      es.mapIdx fun k e ↦ { e with id := ⟨(ofTimetable t reach).offset a.id.index + k⟩ } := by
  obtain ⟨hlt, hget⟩ := Array.getElem?_eq_some_iff.mp (node?_of_mem_nodes ha)
  have hlt' : a.id.index < (outLists t reach).length := by rwa [length_outLists]
  obtain ⟨es, hes⟩ : ∃ es, (outLists t reach)[a.id.index]? = some es :=
    ⟨_, List.getElem?_eq_getElem hlt'⟩
  refine ⟨es, ?_, ?_⟩
  · have hfans : List.Forall₂ (IsFan t reach) (ofTimetable t reach).nodes.toList
        (outLists t reach) := forall₂_outLists wf
    have hfan := hfans.get (i := a.id.index) hlt hlt'
    rw [List.getElem?_eq_getElem hlt', Option.some.injEq] at hes
    rwa [List.get_eq_getElem, List.get_eq_getElem, Array.getElem_toList, hget, hes] at hfan
  · have hfrom : (ofTimetable t reach).offset a.id.index =
        (((outLists t reach).take a.id.index).map List.length).sum := offset_ofTimetable hlt.le
    have hto : (ofTimetable t reach).offset (a.id.index + 1) =
        (ofTimetable t reach).offset a.id.index + es.length := by
      rw [hfrom, offset_ofTimetable hlt, List.take_add_one, hes, List.map_append, List.sum_append]
      simp
    have hsize := (wellFormed_ofTimetable t reach).offset_succ_le hlt
    apply List.ext_getElem?
    intro k
    rw [outEdges, Array.getElem?_toList, Array.getElem?_extract, List.getElem?_mapIdx, hto]
    by_cases hk : k < es.length
    · rw [if_pos (by omega), ← Array.getElem?_toList, toList_edges, List.getElem?_mapIdx, hfrom,
        getElem?_flatten_add _ hes hk]
    · rw [if_neg (by omega), List.getElem?_eq_none (by omega)]
      rfl

/-- No two nodes have one number. -/
theorem nodup_nodes : ((ofTimetable t reach).nodes.toList.map (·.id)).Nodup := by
  refine (nodup_places wf).of_map.map_on fun a ha b hb h ↦ ?_
  exact eq_of_mem_nodes (Array.mem_toList_iff.mp ha) (Array.mem_toList_iff.mp hb) h

/-- A ride leaves every node that is not the last call of its route, and no other node. Behind it
stand the transfers, one at most to each node. -/
theorem exists_fan (ha : a ∈ (ofTimetable t reach).nodes) : ∃ rides changes,
    (ofTimetable t reach).outEdges a.id = rides ++ changes ∧
    (IsLast t a → rides = []) ∧
    (¬IsLast t a → ∃ e, rides = [e] ∧ e.kind = .ride a.line a.route ∧
      place e.head = (a.route, a.position + 1)) ∧
    (∀ e ∈ changes, e.kind = .transfer ∧ joins t reach a e.head = true) ∧
    (changes.map (·.head.id)).Nodup := by
  obtain ⟨es, ⟨next?, hnext, rfl⟩, hout⟩ := outEdges_of_mem_nodes wf ha
  rw [List.mapIdx_append] at hout
  refine ⟨_, _, hout, fun last ↦ ?_, fun goes ↦ ?_, fun e he ↦ ?_, ?_⟩
  · obtain rfl := hnext.last.mpr last
    rfl
  · cases next? with
    | none => exact absurd (hnext.last.mp rfl) goes
    | some b => exact ⟨_, rfl, rfl, hnext.place b rfl⟩
  · obtain ⟨i, hi⟩ := List.mem_iff_getElem?.mp he
    rw [List.getElem?_mapIdx, Option.map_eq_some_iff] at hi
    obtain ⟨e', he', rfl⟩ := hi
    obtain ⟨b, hb, rfl⟩ := List.mem_map.mp (List.mem_of_getElem? he')
    exact ⟨rfl, (List.mem_filter.mp hb).2⟩
  · -- Numbering the edges does not change where they lead.
    have hheads : ((transfers t reach (ofTimetable t reach).nodes.toList a).mapIdx fun i e ↦
        ({ e with id := ⟨(ofTimetable t reach).offset a.id.index +
          (i + (next?.map (ride a)).toList.length)⟩ } : Edge α)).map (·.head.id) =
        ((ofTimetable t reach).nodes.toList.filter (joins t reach a)).map (·.id) := by
      apply List.ext_getElem
      · simp [transfers]
      · intro i _ _
        simp [transfers, connect]
    rw [hheads]
    exact (nodup_nodes wf).sublist (List.filter_sublist.map _)

/-- From every call but the last one a ride leads to the next call of the route. -/
theorem exists_ride (ha : a ∈ (ofTimetable t reach).nodes) (goes : ¬IsLast t a) :
    ∃ e ∈ (ofTimetable t reach).edges, e.tail = a ∧ e.kind = .ride a.line a.route ∧
      place e.head = (a.route, a.position + 1) := by
  obtain ⟨rides, changes, hout, -, hride, -⟩ := exists_fan wf ha
  obtain ⟨e, rfl, kind, hplace⟩ := hride goes
  have hmem : e ∈ (ofTimetable t reach).outEdges a.id := hout ▸ List.mem_cons_self
  obtain ⟨he, htail⟩ := (mem_outEdges_ofTimetable ha e).mp hmem
  exact ⟨e, he, htail, kind, hplace⟩

end

end DoorToDoor.Network
