import DoorToDoor.Proofs.FirstAppearances
import DoorToDoor.Search.Candidate

/-!
# Candidates in the order of their insertion

What a candidate set knows after any row of insertions, whatever nodes come again in it: each node
once, in the order in which nodes first came, with the candidate that came last at it
(`CandidateSet.Recalls`). One insertion continues the row by one candidate (`Recalls.insert`), and
the rest of the set is determined by the two: `inOrder_ofList`.
-/

namespace DoorToDoor

variable {α : Type}

/-- Whether a candidate is in a list with no candidate at its node behind it. -/
def Candidate.IsLastOf (c : Candidate α) (cs : List (Candidate α)) : Prop :=
  ∃ front back, cs = front ++ c :: back ∧ ∀ d ∈ back, d.node ≠ c.node

private theorem Candidate.isLastOf_concat (c d : Candidate α) (cs : List (Candidate α)) :
    c.IsLastOf (cs ++ [d]) ↔ c = d ∨ c.node ≠ d.node ∧ c.IsLastOf cs := by
  constructor
  · rintro ⟨front, back, heq, hback⟩
    rcases List.eq_nil_or_concat back with rfl | ⟨back, e, rfl⟩
    · obtain ⟨-, hlast⟩ := List.append_inj' heq rfl
      exact .inl (List.singleton_inj.mp hlast).symm
    · rw [List.concat_eq_append] at heq hback
      have hends : cs ++ [d] = (front ++ c :: back) ++ [e] := by rw [heq, List.append_assoc]; rfl
      obtain ⟨hcs, hlast⟩ := List.append_inj' hends rfl
      obtain rfl : d = e := List.singleton_inj.mp hlast
      refine .inr ⟨(hback d (by simp)).symm, front, back, hcs, fun x hx ↦ hback x ?_⟩
      exact List.mem_append_left _ hx
  · rintro (rfl | ⟨hne, front, back, rfl, hback⟩)
    · exact ⟨cs, [], rfl, by simp⟩
    · refine ⟨front, back ++ [d], by simp, fun x hx ↦ ?_⟩
      rcases List.mem_append.mp hx with hx | hx
      · exact hback x hx
      · rw [List.mem_singleton.mp hx]
        exact hne.symm

private theorem Candidate.exists_isLastOf_iff (cs : List (Candidate α)) (v : NodeId) :
    (∃ c : Candidate α, c.node = v ∧ c.IsLastOf cs) ↔ v ∈ cs.map (·.node) := by
  induction cs using List.reverseRecOn with
  | nil => simp [Candidate.IsLastOf]
  | append_singleton cs d ih =>
    rw [List.map_append, List.mem_append, ← ih, List.map_singleton, List.mem_singleton]
    simp only [Candidate.isLastOf_concat]
    constructor
    · rintro ⟨c, rfl, rfl | ⟨-, hlast⟩⟩
      · exact .inr rfl
      · exact .inl ⟨c, rfl, hlast⟩
    · rintro (⟨c, rfl, hlast⟩ | rfl)
      · by_cases hnode : c.node = d.node
        · exact ⟨d, hnode.symm, .inl rfl⟩
        · exact ⟨c, rfl, .inr ⟨hnode, hlast⟩⟩
      · exact ⟨d, rfl, .inl rfl⟩

namespace CandidateSet

private theorem map_node_toList (s : CandidateSet α) :
    s.toList.map (·.node) = s.byNode.toList.map Prod.fst := by
  rw [toList, OrderedMap.values, List.map_map]
  exact List.map_congr_left fun e he ↦ (s.keyed e he).symm

/-- A new node comes behind the others, and a node that is there stays in its place. -/
theorem map_node_insert (s : CandidateSet α) (c : Candidate α) :
    (s.insert c).toList.map (·.node) =
      if (s.get? c.node).isSome then s.toList.map (·.node)
      else s.toList.map (·.node) ++ [c.node] := by
  rw [map_node_toList, map_node_toList]
  exact s.byNode.keys_insert c.node c

/-- Whether a set knows of a row of insertions the nodes in the order in which they first came, and
at each node the candidate that came last. -/
structure Recalls (s : CandidateSet α) (cs : List (Candidate α)) : Prop where
  nodes : s.toList.map (·.node) = (cs.map (·.node)).eraseDups
  values : ∀ v c, s.get? v = some c ↔ c.node = v ∧ c.IsLastOf cs

namespace Recalls

variable {s : CandidateSet α} {cs : List (Candidate α)}

/-- The empty set knows of no insertions. -/
theorem empty : (CandidateSet.empty : CandidateSet α).Recalls [] where
  nodes := rfl
  values v c := by simp [Candidate.IsLastOf]

private theorem isSome_get?_iff (h : s.Recalls cs) (v : NodeId) :
    (s.get? v).isSome = true ↔ v ∈ cs.map (·.node) := by
  rw [Option.isSome_iff_exists, ← Candidate.exists_isLastOf_iff]
  simp only [h.values]

/-- An insertion continues the row. -/
theorem insert (h : s.Recalls cs) (c : Candidate α) : (s.insert c).Recalls (cs ++ [c]) where
  nodes := by
    have hcontains : (s.get? c.node).isSome = (cs.map (·.node)).contains c.node := by
      rw [Bool.eq_iff_iff, h.isSome_get?_iff, List.contains_iff_mem]
    rw [map_node_insert, h.nodes, hcontains, List.map_append, List.map_singleton,
      eraseDups_concat]
  values v d := by
    rw [get?_insert, Candidate.isLastOf_concat]
    by_cases hv : c.node = v
    · subst hv
      rw [beq_self_eq_true, if_pos rfl]
      constructor
      · rintro ⟨⟩
        exact ⟨rfl, .inl rfl⟩
      · rintro ⟨hnode, rfl | ⟨hne, -⟩⟩
        · rfl
        · exact absurd hnode hne
    · rw [if_neg (by simpa using hv), h.values]
      constructor
      · rintro ⟨rfl, hlast⟩
        exact ⟨rfl, .inr ⟨fun heq ↦ hv heq.symm, hlast⟩⟩
      · rintro ⟨rfl, rfl | ⟨-, hlast⟩⟩
        · exact absurd rfl hv
        · exact ⟨rfl, hlast⟩

/-- Further insertions continue the row. -/
theorem foldl_insert (h : s.Recalls cs) (ds : List (Candidate α)) :
    (ds.foldl CandidateSet.insert s).Recalls (cs ++ ds) := by
  induction ds generalizing s cs with
  | nil => rwa [List.append_nil]
  | cons d ds ih =>
    rw [List.foldl_cons, List.append_cons]
    exact ih (h.insert d)

end Recalls

/-- After any row of insertions a set lists each node that has come exactly once, in the order in
which nodes first came, with the candidate that came last at it; it gives this candidate for the
node, and none for a node that has not come; it counts the different nodes; and the index knows for
each node the place that it has in the list, and no place for any other. -/
theorem inOrder_ofList (cs : List (Candidate α)) :
    (ofList cs).toList.map (·.node) = (cs.map (·.node)).eraseDups ∧
      ((ofList cs).toList.map (·.node)).Nodup ∧
      (∀ c, c ∈ (ofList cs).toList ↔ c.IsLastOf cs) ∧
      (∀ v c, (ofList cs).get? v = some c ↔ c.node = v ∧ c.IsLastOf cs) ∧
      (∀ v, ((ofList cs).get? v).isSome = true ↔ v ∈ cs.map (·.node)) ∧
      (ofList cs).size = (cs.map (·.node)).eraseDups.length ∧
      ∀ (v : NodeId) (i : Nat), (ofList cs).byNode.positions[v]? = some i ↔
        (ofList cs).toList[i]?.map (·.node) = some v := by
  have h : (ofList cs).Recalls cs := Recalls.empty.foldl_insert cs
  refine ⟨h.nodes, (ofList cs).nodup_nodes, fun c ↦ ?_, h.values, h.isSome_get?_iff, ?_,
    fun v i ↦ ?_⟩
  case refine_1 =>
    have hvalue := h.values c.node c
    rw [get?_eq_some_iff] at hvalue
    simpa using hvalue
  case refine_2 => rw [← length_toList, ← h.nodes, List.length_map]
  case refine_3 =>
    rw [(ofList cs).byNode.indexed, ← List.getElem?_map, map_node_toList, List.getElem?_map,
      OrderedMap.toList, Array.getElem?_toList]

end CandidateSet

end DoorToDoor
