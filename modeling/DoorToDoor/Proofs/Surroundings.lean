import DoorToDoor.Proofs.Failures

/-!
# The candidates around a point

The nodes around a point are found by two queries: those within the search radius are taken if there
are two of them or more, and otherwise those at most the extension radius farther than the nearest
node. With exact distances and radii above zero the second query, though its radius may be the
smaller one, loses nothing that the first one has found (`surroundings_ofTimetable`). Each of the
nodes becomes one candidate, in their order.
-/

namespace DoorToDoor.Routing

section

variable {α : Type} [Scalar α] {access : AccessModel α} {p : Parameters α} {person : Person}
  {point : Point α} {time : α} {surcharged : Bool} {nodes : List (Node α)}
  {set set' : CandidateSet α}

/-- Whether a candidate stands for a node: it has the number of the node, the time at which the leg
from a point arrives there, and the cost of the leg. -/
structure StandsFor (access : AccessModel α) (p : Parameters α) (person : Person) (point : Point α)
    (time : α) (surcharged : Bool) (node : Node α) (c : Candidate α) : Prop where
  node_eq : c.node = node.id
  time_eq : c.time = time + (access.leg person point node.coord time surcharged).travelTime
  cost_eq : Access.legCost p (access.leg person point node.coord time surcharged) = .ok c.cost

/-- A node is added as a candidate that stands for it. -/
theorem addCandidate_eq_ok_iff {node : Node α} :
    addCandidate access p person point time surcharged set node = .ok set' ↔
      ∃ c, StandsFor access p person point time surcharged node c ∧ set' = set.insert c := by
  constructor
  · intro added
    obtain ⟨⟨leg, cost⟩, hprice, rfl⟩ := Result.map_eq_ok.mp added
    obtain ⟨cost, hcost, hleg⟩ := Result.map_eq_ok.mp hprice
    cases hleg
    exact ⟨_, ⟨rfl, rfl, hcost⟩, rfl⟩
  · rintro ⟨⟨_, cost, _⟩, ⟨rfl, rfl, hcost⟩, rfl⟩
    exact Result.map_eq_ok.mpr ⟨_, Result.map_eq_ok.mpr ⟨cost, hcost, rfl⟩, rfl⟩

/-- Candidates that stand for nodes have their numbers. -/
theorem map_node_of_forall₂ {cs : List (Candidate α)}
    (h : List.Forall₂ (StandsFor access p person point time surcharged) nodes cs) :
    cs.map (·.node) = nodes.map (·.id) := by
  induction h with
  | nil => rfl
  | cons hc _ ih => rw [List.map_cons, List.map_cons, hc.node_eq, ih]

/-- Where candidates stand for nodes, the one at a node stands for it. -/
theorem exists_get?_of_forall₂
    (h : List.Forall₂ (StandsFor access p person point time surcharged) nodes set.toList)
    {node : Node α} (hnode : node ∈ nodes) :
    ∃ c, set.get? node.id = some c ∧ StandsFor access p person point time surcharged node c := by
  obtain ⟨i, hi, rfl⟩ := List.mem_iff_getElem.mp hnode
  obtain ⟨hlength, hget⟩ := List.forall₂_iff_get.mp h
  have hc := hget i hi (hlength ▸ hi)
  exact ⟨_, (CandidateSet.get?_eq_some_iff _ _ _).mpr ⟨List.get_mem _ _, hc.node_eq⟩, hc⟩

private theorem forall₂_of_foldlM (nodup : (nodes.map (·.id)).Nodup)
    (h : nodes.foldlM (addCandidate access p person point time surcharged) .empty = .ok set) :
    List.Forall₂ (StandsFor access p person point time surcharged) nodes set.toList := by
  refine Result.prefix_of_foldlM (P := fun nodes set ↦ (nodes.map (·.id)).Nodup →
      List.Forall₂ (StandsFor access p person point time surcharged) nodes set.toList)
    (fun done node set set' ih added nodup ↦ ?_) (fun _ ↦ .nil) h nodup
  rw [List.map_append, List.map_singleton, List.nodup_append] at nodup
  obtain ⟨hdone, -, hother⟩ := nodup
  obtain ⟨c, hc, rfl⟩ := addCandidate_eq_ok_iff.mp added
  have hnew : set.get? c.node = none := by
    refine Option.eq_none_iff_forall_ne_some.mpr fun c' hc' ↦ ?_
    obtain ⟨hmem, hsame⟩ := (CandidateSet.get?_eq_some_iff _ _ _).mp hc'
    have hid : c'.node ∈ done.map (·.id) :=
      map_node_of_forall₂ (ih hdone) ▸ List.mem_map_of_mem hmem
    exact hother _ hid _ (List.mem_singleton_self _) (hsame.trans hc.node_eq)
  rw [CandidateSet.toList_insert_of_get?_eq_none _ hnew]
  exact List.rel_append (ih hdone) (.cons hc .nil)

/-- In the network of a timetable the nodes around a point become candidates in their order, one
each, when the legs to them have a price. -/
theorem exists_candidates_of_nodesAround {t : Timetable α} {reach : α}
    (around : nodesAround (Network.ofTimetable t reach) p point = .ok nodes)
    (priced : p.unpriced? (legModes access person point time surcharged nodes) = none) :
    ∃ set, candidates (Network.ofTimetable t reach) access p person point time surcharged =
        .ok set ∧
      List.Forall₂ (StandsFor access p person point time surcharged) nodes set.toList := by
  obtain ⟨set, hset⟩ := exists_candidates nodes .empty priced
  have hnodup : (nodes.map (·.id)).Nodup := by
    obtain ⟨radius, rfl⟩ := exists_radius_of_nodesAround around
    exact Network.nodup_within (Network.wellFormed_ofTimetable t reach) point radius
  exact ⟨set, Result.bind_eq_ok.mpr ⟨nodes, around, hset⟩, forall₂_of_foldlM hnodup hset⟩

end

section

variable {n : Network EReal} {p : Parameters EReal} {point : Point EReal}
  {nodes : List (Node EReal)} {least : EReal}

/-- How far from a point nodes are taken, when the nearest one is at the least distance. -/
noncomputable def reachAround (n : Network EReal) (p : Parameters EReal) (point : Point EReal)
    (least : EReal) : EReal :=
  if 2 ≤ (n.near point p.searchRadius).length then p.searchRadius else least + p.extensionRadius

/-- The distances of the nodes from a point. -/
def distancesFrom (n : Network EReal) (point : Point EReal) : Set EReal :=
  {d | ∃ node ∈ n.nodes, node.coord.distance point = d}

/-- The nodes around a point are those within one radius, which is not below the least distance. -/
theorem nodesAround_eq_ok_within (search : 0 ≤ p.searchRadius) (extension : 0 ≤ p.extensionRadius)
    (ne : n.isEmpty = false) (point : Point EReal) :
    ∃ least, IsLeast (distancesFrom n point) least ∧
      nodesAround n p point = .ok (n.within point (reachAround n p point least)) ∧
      least ≤ reachAround n p point least := by
  obtain ⟨node, hnode, hnearest, hleast⟩ := Network.exists_nearest ne point
  have hlength : (n.within point p.searchRadius).length = (n.near point p.searchRadius).length :=
    (Network.perm_within search).length_eq
  refine ⟨node.coord.distance point, ⟨⟨node, hnode, rfl⟩, ?_⟩, ?_, ?_⟩
  · rintro _ ⟨other, hother, rfl⟩
    exact hleast other hother
  · unfold nodesAround reachAround
    dsimp only
    rw [hlength]
    split
    · rfl
    · rw [nearest, hnearest]
      rfl
  · unfold reachAround
    split
    · next many =>
      obtain ⟨other, hother⟩ := List.exists_mem_of_length_pos (Nat.lt_of_lt_of_le Nat.two_pos many)
      obtain ⟨hmem, hdistance⟩ := Network.mem_near_iff.mp hother
      exact (hleast other hmem).trans hdistance
    · exact le_add_of_nonneg_right extension

/-- What is within the search radius is within the radius in which nodes are taken: if it is not
that radius, there is one such node at most, which is the nearest. -/
theorem mem_near_reachAround (least_eq : IsLeast (distancesFrom n point) least)
    (least_le : least ≤ reachAround n p point least) {node : Node EReal}
    (h : node ∈ n.near point p.searchRadius) :
    node ∈ n.near point (reachAround n p point least) := by
  obtain ⟨hmem, hdistance⟩ := Network.mem_near_iff.mp h
  refine Network.mem_near_iff.mpr ⟨hmem, ?_⟩
  by_cases many : 2 ≤ (n.near point p.searchRadius).length
  · rwa [reachAround, if_pos many]
  · obtain ⟨nearest, hnearest, rfl⟩ := least_eq.1
    have hnear : nearest ∈ n.near point p.searchRadius :=
      Network.mem_near_iff.mpr
        ⟨hnearest, (least_eq.2 ⟨node, hmem, rfl⟩).trans hdistance⟩
    obtain rfl : node = nearest := by
      obtain ⟨single, hsingle⟩ : ∃ single, n.near point p.searchRadius = [single] := by
        refine List.length_eq_one_iff.mp ?_
        have := List.length_pos_of_mem h
        omega
      rw [hsingle, List.mem_singleton] at h hnear
      rw [h, hnear]
    exact least_le

end

/-- Around each point of a network with nodes, with radii above zero: the nodes that are taken are
listed by distance and number, each once; they are those within the search radius if there are two
of them or more, and otherwise those at most the extension radius farther than the nearest node.
There is one at least, every nearest node is among them, and every node within the search radius is.
They become candidates in their order, one each, unless the leg to one of them has a mode without a
price, the first of which is reported. -/
theorem surroundings_ofTimetable (t : Timetable EReal) (reach : EReal) (p : Parameters EReal)
    (search : 0 < p.searchRadius) (extension : 0 < p.extensionRadius) (point : Point EReal) :
    let n := Network.ofTimetable t reach
    n.isEmpty = false → ∃ nodes least,
      nodesAround n p point = .ok nodes ∧ IsLeast (distancesFrom n point) least ∧
      nodes.Pairwise (Network.rank point · < Network.rank point ·) ∧ nodes.Nodup ∧
      (∀ node, node ∈ nodes ↔ node ∈ n.nodes ∧
        node.coord.distance point ≤ reachAround n p point least) ∧
      nodes ≠ [] ∧
      (∀ node ∈ n.nodes, node.coord.distance point = least → node ∈ nodes) ∧
      (∀ node ∈ n.within point p.searchRadius, node ∈ nodes) ∧
      ∀ access person time surcharged,
        let modes := legModes access person point time surcharged nodes
        let answer := candidates n access p person point time surcharged
        (∀ mode, p.unpriced? modes = some mode → answer = .error (.unpricedMode mode)) ∧
        (p.unpriced? modes = none → ∃ set, answer = .ok set ∧
          List.Forall₂ (StandsFor access p person point time surcharged) nodes set.toList ∧
          set.toList.map (·.node) = nodes.map (·.id)) := by
  intro n ne
  have wf : n.WellFormed := Network.wellFormed_ofTimetable t reach
  obtain ⟨least, hleast, haround, hle⟩ :=
    nodesAround_eq_ok_within search.le extension.le ne point
  have hradius : 0 ≤ reachAround n p point least := by
    obtain ⟨⟨node, -, rfl⟩, -⟩ := hleast
    exact (node.coord.distance_nonneg point).trans hle
  have hmem : ∀ node, node ∈ n.within point (reachAround n p point least) ↔
      node ∈ n.nodes ∧ node.coord.distance point ≤ reachAround n p point least :=
    fun node ↦ (Network.perm_within hradius).mem_iff.trans Network.mem_near_iff
  have hsorted := Network.pairwise_within wf point (reachAround n p point least)
  have hnodup : (n.within point (reachAround n p point least)).Nodup :=
    hsorted.imp fun hlt heq ↦ hlt.ne (congrArg _ heq)
  have hnearest : ∀ node ∈ n.nodes, node.coord.distance point = least →
      node ∈ n.within point (reachAround n p point least) :=
    fun node hnode hdistance ↦ (hmem node).mpr ⟨hnode, hdistance ▸ hle⟩
  refine ⟨_, least, haround, hleast, hsorted, hnodup, hmem, ?_, hnearest, fun node hnode ↦ ?_,
    fun access person time surcharged ↦ ⟨fun mode hmode ↦ ?_, fun hpriced ↦ ?_⟩⟩
  · obtain ⟨⟨node, hnode, hdistance⟩, -⟩ := hleast
    exact List.ne_nil_of_mem (hnearest node hnode hdistance)
  · rw [(Network.perm_within search.le).mem_iff] at hnode
    exact (hmem node).mpr (Network.mem_near_iff.mp (mem_near_reachAround hleast hle hnode))
  · change (nodesAround n p point >>= _) = _
    rw [haround]
    exact candidates_eq_error _ _ hmode
  · obtain ⟨set, hset, hforall⟩ := exists_candidates_of_nodesAround haround hpriced
    exact ⟨set, hset, hforall, map_node_of_forall₂ hforall⟩

namespace Planner

open Network (east west)

/-- Settings with free rides and nothing else. -/
noncomputable def onlyFreeRides : Settings EReal := ⟨freeRides, [], []⟩

/-- Around the first stop of the shuttle there is this stop alone, which becomes the only
candidate. -/
theorem surroundings_west :
    (0 < freeRides.searchRadius ∧ 0 < freeRides.extensionRadius) ∧
    (Network.ofTimetable .shuttle (0 : EReal)).isEmpty = false ∧
    ∃ set, candidates (Network.ofTimetable .shuttle 0) onlyFreeRides.access.model freeRides
      shuttleTrip.person west.coord shuttleTrip.departure false = .ok set ∧
      set.toList.map (·.node) = [(west : Node EReal).id] := by
  have search : 0 < freeRides.searchRadius := zero_lt_one
  have extension : 0 < freeRides.extensionRadius := zero_lt_one
  refine ⟨⟨search, extension⟩, rfl, ?_⟩
  obtain ⟨nodes, -, haround, -, -, -, -, -, -, -, hcandidates⟩ :=
    surroundings_ofTimetable .shuttle 0 freeRides search extension west.coord rfl
  have hnodes : nodes = [west] :=
    Except.ok.inj (haround.symm.trans (nodesAround_stop List.mem_cons_self))
  have hpriced := unpriced?_legModes_of_validate (s := onlyFreeRides) validate_freeRides
    shuttleTrip.person west.coord shuttleTrip.departure false nodes
  obtain ⟨set, hset, -, hids⟩ := (hcandidates _ _ _ _).2 hpriced
  exact ⟨set, hset, by rw [hids, hnodes]; rfl⟩

end Planner

end DoorToDoor.Routing
