import DoorToDoor.Id
import DoorToDoor.OrderedMap

/-!
# Candidates

A search starts and ends at candidates: nodes with the cost and the time at which a traveller
reaches them from the origin, or with the cost of going on from them to the destination. A set of
candidates keeps one for each node, in the order in which the nodes were first inserted.
`get?_eq_some_iff` ties the look-up by node to the list of the candidates.
-/

namespace DoorToDoor

/-- A node at which a search may start or end. -/
structure Candidate (α : Type) where
  node : NodeId
  cost : α
  time : α
  deriving DecidableEq, Repr, Inhabited

/-- Candidates by node, in the order of first insertion. -/
structure CandidateSet (α : Type) where
  byNode : OrderedMap NodeId (Candidate α)
  /-- Every candidate stands under its own node. -/
  keyed : ∀ e ∈ byNode.toList, e.1 = e.2.node

namespace CandidateSet

variable {α : Type}

/-- The set without candidates. -/
def empty : CandidateSet α := ⟨.empty, by simp⟩

instance : Inhabited (CandidateSet α) := ⟨empty⟩

/-- Adds a candidate. One at the same node is replaced in its place. -/
def insert (s : CandidateSet α) (c : Candidate α) : CandidateSet α where
  byNode := s.byNode.insert c.node c
  keyed := by
    intro e he
    cases h : s.byNode.get? c.node with
    | none =>
      rw [s.byNode.toList_insert_of_get?_eq_none c h, List.mem_append, List.mem_singleton] at he
      rcases he with he | rfl
      · exact s.keyed e he
      · rfl
    | some u =>
      rw [s.byNode.toList_insert_of_get?_eq_some c h, List.mem_map] at he
      obtain ⟨e', he', rfl⟩ := he
      split
      · rfl
      · exact s.keyed e' he'

/-- The candidate at a node. -/
def get? (s : CandidateSet α) (node : NodeId) : Option (Candidate α) := s.byNode.get? node

/-- The candidates in order. -/
def toList (s : CandidateSet α) : List (Candidate α) := s.byNode.values

/-- How many candidates there are. -/
def size (s : CandidateSet α) : Nat := s.byNode.size

/-- Whether there are no candidates. -/
def isEmpty (s : CandidateSet α) : Bool := s.byNode.isEmpty

/-- The set of the candidates of a list, inserted in turn. -/
def ofList (cs : List (Candidate α)) : CandidateSet α := cs.foldl insert empty

/-- The empty set lists no candidates. -/
@[simp] theorem toList_empty : (empty : CandidateSet α).toList = [] := rfl

/-- The list is as long as the set has candidates. -/
@[simp] theorem length_toList (s : CandidateSet α) : s.toList.length = s.size := by
  simp [toList, OrderedMap.values, size]

/-- The candidate at a node is the one of the list that has the node. -/
theorem get?_eq_some_iff (s : CandidateSet α) (node : NodeId) (c : Candidate α) :
    s.get? node = some c ↔ c ∈ s.toList ∧ c.node = node := by
  rw [get?, OrderedMap.get?_eq_some_iff, toList, OrderedMap.values, List.mem_map]
  constructor
  · intro h
    exact ⟨⟨(node, c), h, rfl⟩, (s.keyed _ h).symm⟩
  · rintro ⟨⟨e, he, rfl⟩, hnode⟩
    have h := s.keyed e he
    rw [hnode] at h
    rwa [← h]

/-- The candidates of a set are at different nodes. -/
theorem nodup_nodes (s : CandidateSet α) : (s.toList.map (·.node)).Nodup := by
  have hkeys : s.toList.map (·.node) = s.byNode.toList.map Prod.fst := by
    rw [toList, OrderedMap.values, List.map_map]
    exact List.map_congr_left fun e he ↦ (s.keyed e he).symm
  rw [hkeys]
  exact s.byNode.nodup_keys

/-- Sets of the same candidates give the same candidate at each node. -/
theorem get?_eq_of_perm {s t : CandidateSet α} (perm : s.toList.Perm t.toList) (node : NodeId) :
    s.get? node = t.get? node := by
  ext c
  rw [get?_eq_some_iff, get?_eq_some_iff, perm.mem_iff]

/-- The empty set has no candidate at any node. -/
@[simp] theorem get?_empty (node : NodeId) : (empty : CandidateSet α).get? node = none :=
  OrderedMap.get?_empty node

/-- A candidate at a new node is added at the end. -/
theorem toList_insert_of_get?_eq_none (s : CandidateSet α) {c : Candidate α}
    (h : s.get? c.node = none) : (s.insert c).toList = s.toList ++ [c] := by
  rw [toList, OrderedMap.values, insert, s.byNode.toList_insert_of_get?_eq_none c h,
    List.map_append]
  rfl

/-- A candidate at the node of another one takes its place. -/
theorem toList_insert_of_get?_eq_some (s : CandidateSet α) {c u : Candidate α}
    (h : s.get? c.node = some u) :
    (s.insert c).toList = s.toList.map fun c' ↦ if c'.node == c.node then c else c' := by
  rw [toList, OrderedMap.values, insert, s.byNode.toList_insert_of_get?_eq_some c h, toList,
    OrderedMap.values, List.map_map, List.map_map]
  refine List.map_congr_left fun e he ↦ ?_
  simp only [Function.comp_apply, s.keyed e he]
  split
  · rfl
  · rfl

/-- The look-up after an insertion. -/
theorem get?_insert (s : CandidateSet α) (c : Candidate α) (node : NodeId) :
    (s.insert c).get? node = if c.node == node then some c else s.get? node :=
  s.byNode.get?_insert c.node node c

/-- One candidate is a set of its own. -/
theorem toList_ofList_singleton (c : Candidate α) : (ofList [c]).toList = [c] :=
  toList_insert_of_get?_eq_none _ (get?_empty _)

/-- Two candidates at different nodes are listed as they are inserted. -/
theorem toList_ofList_pair {c d : Candidate α} (hne : (c.node == d.node) = false) :
    (ofList [c, d]).toList = [c, d] := by
  have hnew : (ofList [c]).get? d.node = none := by
    rw [ofList, List.foldl_cons, List.foldl_nil, get?_insert, hne]
    exact get?_empty d.node
  have hpair := toList_insert_of_get?_eq_none _ hnew
  rwa [toList_ofList_singleton] at hpair

end CandidateSet

end DoorToDoor
