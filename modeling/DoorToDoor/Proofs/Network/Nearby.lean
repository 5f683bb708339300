import Mathlib.Data.Prod.Lex
import DoorToDoor.Network.Nearby
import DoorToDoor.Proofs.Exact
import DoorToDoor.Proofs.Network.WellFormed

/-!
# What is near a point

With exact distances the nodes within a radius are those whose distance is at most the radius
(`perm_within`), each once and ordered by distance and number (`pairwise_within`), and the nearest
node has the least distance of all (`exists_nearest`).
-/

namespace DoorToDoor.Network

section

variable {α : Type} [Scalar α] {n : Network α} {point : Point α} {radius : α} {node : Node α}

/-- The nodes whose distance from a point is at most a radius, by number. -/
def near (n : Network α) (point : Point α) (radius : α) : List (Node α) :=
  n.nodes.toList.filter fun node ↦ node.coord.distance point ≤ radius

/-- The nodes within a radius are sorted as their hits are. -/
theorem within_eq_mergeSort (n : Network α) (point : Point α) (radius : α) :
    n.within point radius =
      (n.nodes.toList.filter fun node ↦ node.coord.squareTo point ≤ radius * radius).mergeSort
        fun a b ↦ (hit point a).before (hit point b) := by
  have hsort (nodes : List (Node α)) :
      (nodes.mergeSort fun a b ↦ (hit point a).before (hit point b)).map (hit point) =
        (nodes.map (hit point)).mergeSort Hit.before :=
    List.map_mergeSort fun _ _ _ _ ↦ rfl
  rw [within, List.filter_map, ← hsort, List.map_map]
  exact List.map_id _

/-- The nodes within a radius are those whose squared distance is at most the square of the
radius. -/
theorem mem_within_iff : node ∈ n.within point radius ↔
    node ∈ n.nodes ∧ node.coord.squareTo point ≤ radius * radius := by
  rw [within_eq_mergeSort, List.mem_mergeSort, List.mem_filter, Array.mem_toList_iff,
    decide_eq_true_iff]

/-- No two of the nodes within a radius have one number. -/
theorem nodup_within (wf : n.WellFormed) (point : Point α) (radius : α) :
    ((n.within point radius).map (·.id)).Nodup := by
  rw [within_eq_mergeSort, ((List.mergeSort_perm _ _).map _).nodup_iff]
  refine List.pairwise_map.mpr ((wf.pairwise_index_nodes.filter _).imp fun hlt heq ↦ ?_)
  exact Nat.ne_of_lt hlt (congrArg Id.index heq)

end

variable {n : Network EReal} {point : Point EReal} {radius : EReal} {node : Node EReal}

/-- A node is near when it is in the network and its distance is at most the radius. -/
theorem mem_near_iff :
    node ∈ n.near point radius ↔ node ∈ n.nodes ∧ node.coord.distance point ≤ radius := by
  rw [near, List.mem_filter, Array.mem_toList_iff, decide_eq_true_iff]

/-- The place of a node in the order around a point: by its distance, and by its number among nodes
at one distance. -/
noncomputable def rank (point : Point EReal) (node : Node EReal) : EReal ×ₗ Nat :=
  toLex (node.coord.distance point, node.id.index)

private theorem before_hit_iff {a b : Node EReal} :
    (hit point a).before (hit point b) = true ↔ rank point a ≤ rank point b := by
  rw [rank, rank, Prod.Lex.toLex_le_toLex]
  have hlt : a.coord.distance point < b.coord.distance point ↔
      a.coord.squareTo point < b.coord.squareTo point :=
    lt_iff_lt_of_le_iff_le Point.distance_le_distance_iff
  have heq : a.coord.distance point = b.coord.distance point ↔
      a.coord.squareTo point = b.coord.squareTo point := by
    simp only [le_antisymm_iff, Point.distance_le_distance_iff]
  rw [hlt, heq]
  unfold Hit.before
  dsimp only [hit]
  split
  · next h => exact iff_of_true rfl (.inl (compare_lt_iff_lt.mp h))
  · next h =>
    rw [compare_eq_iff_eq.mp h, or_iff_right (lt_irrefl _), and_iff_right rfl]
    exact decide_eq_true_iff
  · next h =>
    have hgt := compare_gt_iff_gt.mp h
    exact iff_of_false nofun fun h ↦ h.elim hgt.asymm fun heq ↦ hgt.ne heq.1.symm

/-- The nodes within a radius are the near ones. -/
theorem perm_within (nonneg : 0 ≤ radius) :
    (n.within point radius).Perm (n.near point radius) := by
  rw [within_eq_mergeSort, near]
  refine (List.mergeSort_perm _ _).trans (.of_eq (List.filter_congr fun node _ ↦ ?_))
  rw [decide_eq_decide, Point.distance_le_iff nonneg]

/-- The nodes within a radius are in the order of their ranks, each once. -/
theorem pairwise_within (wf : n.WellFormed) (point : Point EReal) (radius : EReal) :
    (n.within point radius).Pairwise (rank point · < rank point ·) := by
  have hsorted : (n.within point radius).Pairwise fun a b ↦
      (hit point a).before (hit point b) = true := by
    rw [within_eq_mergeSort]
    refine List.pairwise_mergeSort (fun a b c ↦ ?_) (fun a b ↦ ?_) _
    · simp only [before_hit_iff]
      exact le_trans
    · rw [Bool.or_eq_true, before_hit_iff, before_hit_iff]
      exact le_total _ _
  have hother := List.pairwise_map.mp (nodup_within wf point radius)
  refine (hsorted.and hother).imp fun {a b} h ↦ ?_
  refine lt_of_le_of_ne (before_hit_iff.mp h.1) fun heq ↦ h.2 (Id.eq_of_index_eq ?_)
  exact (Prod.ext_iff.mp (toLex.injective heq)).2

private theorem nearer_or (a b : Hit EReal) : (a.nearer b = a ∨ a.nearer b = b) ∧
    (a.nearer b).square ≤ a.square ∧ (a.nearer b).square ≤ b.square := by
  unfold Hit.nearer
  split
  · next h => exact ⟨.inr rfl, (compare_lt_iff_lt.mp h).le, le_rfl⟩
  · next h => exact ⟨.inl rfl, le_rfl, not_lt.mp fun hlt ↦ h (compare_lt_iff_lt.mpr hlt)⟩

private theorem foldl_nearer (first : Hit EReal) (rest : List (Hit EReal)) :
    rest.foldl Hit.nearer first ∈ first :: rest ∧
      ∀ h ∈ first :: rest, (rest.foldl Hit.nearer first).square ≤ h.square := by
  induction rest generalizing first with
  | nil => simp
  | cons b rest ih =>
    obtain ⟨hmem, hleast⟩ := ih (first.nearer b)
    obtain ⟨hone, hfirst, hb⟩ := nearer_or first b
    have hnearer := hleast _ List.mem_cons_self
    rw [List.foldl_cons]
    constructor
    · rcases List.mem_cons.mp hmem with heq | hmem
      · rw [heq]
        rcases hone with h | h <;> simp [h]
      · exact List.mem_cons_of_mem _ (List.mem_cons_of_mem _ hmem)
    · intro h hh
      rcases List.mem_cons.mp hh with rfl | hh
      · exact hnearer.trans hfirst
      · rcases List.mem_cons.mp hh with rfl | hh
        · exact hnearer.trans hb
        · exact hleast h (List.mem_cons_of_mem _ hh)

/-- A network with nodes has a nearest one, whose distance is the least. -/
theorem exists_nearest (ne : n.isEmpty = false) (point : Point EReal) : ∃ node ∈ n.nodes,
    n.nearest? point = some node ∧
      ∀ other ∈ n.nodes, node.coord.distance point ≤ other.coord.distance point := by
  cases hhits : n.nodes.toList.map (hit point) with
  | nil =>
    rw [List.map_eq_nil_iff, Array.toList_eq_nil_iff] at hhits
    rw [isEmpty, hhits] at ne
    cases ne
  | cons first rest =>
    obtain ⟨hmem, hleast⟩ := foldl_nearer first rest
    rw [← hhits, List.mem_map] at hmem
    obtain ⟨node, hnode, hhit⟩ := hmem
    refine ⟨node, Array.mem_toList_iff.mp hnode, ?_, fun other hother ↦ ?_⟩
    · rw [nearest?, hhits]
      exact congrArg (fun h ↦ some h.node) hhit.symm
    · rw [Point.distance_le_distance_iff]
      have hother' := hleast (hit point other)
        (hhits ▸ List.mem_map_of_mem (Array.mem_toList_iff.mpr hother))
      rwa [← hhit] at hother'

end DoorToDoor.Network
