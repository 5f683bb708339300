import DoorToDoor.Proofs.Search.Optimality

/-!
# Candidates in another order

The order in which candidates were inserted decides in which order a search queues its origins, and
so how its heap is arranged. It decides nothing else: no two entries of the queue rank alike, so
states that differ only in how their heaps are arranged take the same entry next and go on to such
states (`Alike.step?`), and the path that is found is the same (`search_eq_of_perm`), whatever
origins, destinations and entries cost alike.
-/

namespace DoorToDoor.LeastCost

variable {α : Type} [Scalar α] {f g h : Frontier α} {v u : NodeId} {label : Label α}

/-- The entry that is queued when a node is reached, if the label is an improvement. -/
def Frontier.arrival (f : Frontier α) (v : NodeId) (label : Label α) : List (Entry α) :=
  if f.labels.improves v label.cost then [⟨label.cost, v⟩] else []

private theorem perm_reach (whole : f.queue.isWhole = true) (v : NodeId) (label : Label α) :
    (f.reach v label).queue.toList.Perm (f.arrival v label ++ f.queue.toList) := by
  unfold Frontier.reach Frontier.arrival
  split
  · exact Heap.perm_push Entry.before whole _
  · exact .refl _

private theorem slots_reach (f : Frontier α) (v : NodeId) (label : Label α) :
    (f.reach v label).labels.slots =
      if f.labels.improves v label.cost then f.labels.slots.setIfInBounds v.index (some label)
      else f.labels.slots := by
  unfold Frontier.reach
  split <;> rfl

/-- Reaching a node changes no best destination. -/
@[simp] theorem best_reach (f : Frontier α) (v : NodeId) (label : Label α) :
    (f.reach v label).best = f.best := by
  unfold Frontier.reach
  split <;> rfl

private theorem Labels.improves_congr {labels labels' : Labels α}
    (same : labels'.slots[v.index]? = labels.slots[v.index]?) (cost : α) :
    labels'.improves v cost = labels.improves v cost := by
  rw [Labels.improves, Labels.improves, same]

private theorem improves_reach_of_ne (hne : v ≠ u) (cost : α) :
    (f.reach v label).labels.improves u cost = f.labels.improves u cost := by
  have hindex : v.index ≠ u.index := fun heq ↦ hne (Id.eq_of_index_eq heq)
  refine Labels.improves_congr ?_ cost
  rw [slots_reach]
  split
  · exact Array.getElem?_setIfInBounds_ne hindex
  · rfl

/-- States of a search that differ at most in how their heaps are arranged, and in the order in
which they list the labelled nodes. -/
structure Alike (f g : Frontier α) : Prop where
  best_eq : g.best = f.best
  slots_eq : g.labels.slots = f.labels.slots
  perm : f.queue.toList.Perm g.queue.toList
  left : Queued f.labels f.queue
  right : Queued g.labels g.queue

namespace Alike

/-- A state is like itself. -/
theorem refl (queued : Queued f.labels f.queue) : Alike f f := ⟨rfl, rfl, .refl _, queued, queued⟩

/-- States that are like one state are alike. -/
theorem trans (hfg : Alike f g) (hgh : Alike g h) : Alike f h :=
  ⟨hgh.best_eq.trans hfg.best_eq, hgh.slots_eq.trans hfg.slots_eq, hfg.perm.trans hgh.perm,
    hfg.left, hgh.right⟩

/-- States that are alike have the same labels. -/
theorem get?_eq (like : Alike f g) (v : NodeId) : g.labels.get? v = f.labels.get? v := by
  rw [Labels.get?, Labels.get?, like.slots_eq]

private theorem improves_eq (like : Alike f g) (v : NodeId) (cost : α) :
    g.labels.improves v cost = f.labels.improves v cost :=
  Labels.improves_congr (by rw [like.slots_eq]) cost

variable [MonotoneScalar α]

/-- States that are alike stay so when a node is reached in both. -/
theorem reach (like : Alike f g) (v : NodeId) (label : Label α) :
    Alike (f.reach v label) (g.reach v label) where
  best_eq := by rw [best_reach, best_reach, like.best_eq]
  slots_eq := by rw [slots_reach, slots_reach, like.improves_eq, like.slots_eq]
  perm := by
    have harrival : g.arrival v label = f.arrival v label := by
      rw [Frontier.arrival, Frontier.arrival, like.improves_eq]
    refine (perm_reach like.left.whole v label).trans (.trans ?_
      (perm_reach like.right.whole v label).symm)
    rw [harrival]
    exact like.perm.append_left _
  left := like.left.reach v label
  right := like.right.reach v label

private theorem reach_comm (queued : Queued f.labels f.queue) (hne : v ≠ u)
    (label label' : Label α) :
    Alike ((f.reach v label).reach u label') ((f.reach u label').reach v label) where
  best_eq := by simp only [best_reach]
  slots_eq := by
    have hindex : v.index ≠ u.index := fun heq ↦ hne (Id.eq_of_index_eq heq)
    simp only [slots_reach, improves_reach_of_ne hne, improves_reach_of_ne hne.symm]
    split
    · split
      · exact (Array.setIfInBounds_comm _ _ hindex).symm
      · rfl
    · rfl
  perm := by
    have hfirst := queued.reach v label
    have hsecond := queued.reach u label'
    have harrival : (f.reach v label).arrival u label' = f.arrival u label' := by
      rw [Frontier.arrival, Frontier.arrival, improves_reach_of_ne hne]
    have harrival' : (f.reach u label').arrival v label = f.arrival v label := by
      rw [Frontier.arrival, Frontier.arrival, improves_reach_of_ne hne.symm]
    calc ((f.reach v label).reach u label').queue.toList
      List.Perm _ (f.arrival u label' ++ (f.reach v label).queue.toList) :=
        harrival ▸ perm_reach hfirst.whole u label'
      List.Perm _ (f.arrival u label' ++ (f.arrival v label ++ f.queue.toList)) :=
        (perm_reach queued.whole v label).append_left _
      List.Perm _ (f.arrival v label ++ (f.arrival u label' ++ f.queue.toList)) :=
        List.perm_append_comm_assoc ..
      List.Perm _ (f.arrival v label ++ (f.reach u label').queue.toList) :=
        (perm_reach queued.whole u label').symm.append_left _
      List.Perm _ ((f.reach u label').reach v label).queue.toList :=
        harrival' ▸ (perm_reach hsecond.whole v label).symm
  left := (queued.reach v label).reach u label'
  right := (queued.reach u label').reach v label

/-- States that are alike stay so when candidates at different nodes are reached in them, in one
order in one and in another order in the other. -/
theorem foldl_reach {cs cs' : List (Candidate α)} (perm : cs.Perm cs')
    (distinct : (cs.map (·.node)).Nodup) (like : Alike f g) :
    Alike (cs.foldl (fun f c ↦ f.reach c.node ⟨c.cost, c.time, none⟩) f)
      (cs'.foldl (fun f c ↦ f.reach c.node ⟨c.cost, c.time, none⟩) g) := by
  induction perm using List.Perm.recOnSwap' generalizing f g with
  | nil => exact like
  | cons c _ ih =>
    exact ih (List.nodup_cons.mp distinct).2 (like.reach c.node ⟨c.cost, c.time, none⟩)
  | swap' c d _ ih =>
    obtain ⟨hnew, hrest⟩ := List.nodup_cons.mp distinct
    have hne : d.node ≠ c.node := fun heq ↦ hnew (List.mem_cons.mpr (.inl heq))
    have hswapped := reach_comm like.left hne ⟨d.cost, d.time, none⟩ ⟨c.cost, c.time, none⟩
    exact ih (List.nodup_cons.mp hrest).2 (hswapped.trans ((like.reach c.node _).reach d.node _))
  | trans hperm _ ih ih' =>
    exact (ih distinct (refl like.left)).trans
      (ih' ((hperm.map _).nodup_iff.mp distinct) like)

variable {task : Task α} {destinations : CandidateSet α}

/-- States that are alike stay so when an edge is followed in both. -/
theorem follow (like : Alike f g) (task : Task α) (cost now : α) (e : Edge α) :
    Alike (f.follow task.costs task.person cost now e)
      (g.follow task.costs task.person cost now e) := by
  rw [follow_eq, follow_eq]
  split
  · exact like.reach _ _
  · exact like

private theorem foldl_follow (like : Alike f g) (task : Task α) (cost now : α)
    (es : List (Edge α)) :
    Alike (es.foldl (fun f e ↦ f.follow task.costs task.person cost now e) f)
      (es.foldl (fun g e ↦ g.follow task.costs task.person cost now e) g) := by
  induction es generalizing f g with
  | nil => exact like
  | cons e rest ih => exact ih (like.follow task cost now e)

/-- States that are alike take the same entry next, and stay alike without it. -/
theorem exists_pop? (like : Alike f g) {entry : Entry α} {queue : Heap (Entry α)}
    (hpop : f.queue.pop? Entry.before = some (entry, queue)) :
    ∃ queue', g.queue.pop? Entry.before = some (entry, queue') ∧
      Alike { f with queue := queue } { g with queue := queue' } := by
  obtain ⟨queue', hpop', hperm⟩ := Heap.exists_pop?_of_perm like.left.whole like.right.whole
    like.left.ordered like.right.ordered like.perm like.left.eq_of_before hpop
  exact ⟨queue', hpop', like.best_eq, like.slots_eq, hperm, like.left.pass hpop,
    like.right.pass hpop'⟩

/-- Expanding a node in states that are alike leaves them alike, when the destinations are. -/
theorem expand (like : Alike f g)
    (same : ∀ v, destinations.get? v = task.destinations.get? v) (entry : Entry α) (now : α) :
    Alike (task.expand f entry now)
      ({ task with destinations := destinations }.expand g entry now) := by
  have hbest : bestWith destinations g.best entry = bestWith task.destinations f.best entry := by
    rw [bestWith, bestWith, same, like.best_eq]
  refine foldl_follow ?_ task entry.cost now (task.network.outEdges entry.node)
  exact { like with best_eq := hbest }

/-- A step takes states that are alike to such states, or is the last in both. -/
theorem step? (like : Alike f g) (same : ∀ v, destinations.get? v = task.destinations.get? v)
    (rule : StopRule α) :
    Option.Rel Alike (task.step? rule f)
      ({ task with destinations := destinations }.step? rule g) := by
  unfold Task.step?
  cases hpop : f.queue.pop? Entry.before with
  | none =>
    rw [Heap.pop?_eq_none_iff] at hpop
    have hempty : g.queue.toList = [] := (hpop ▸ like.perm).symm.eq_nil
    rw [(Heap.pop?_eq_none_iff Entry.before g.queue).mpr hempty]
    exact .none
  | some popped =>
    obtain ⟨entry, queue⟩ := popped
    obtain ⟨queue', hpop', hrest⟩ := like.exists_pop? hpop
    have hrule : rule entry.cost g.best = rule entry.cost f.best := by rw [like.best_eq]
    rw [hpop']
    dsimp only
    rw [like.get?_eq, hrule]
    split
    · exact .some hrest
    · split
      · exact .some hrest
      · split
        · exact .none
        · exact .some (hrest.expand same entry _)

/-- A search runs from states that are alike to such states. -/
theorem run (like : Alike f g) (same : ∀ v, destinations.get? v = task.destinations.get? v)
    (rule : StopRule α) (steps : Nat) :
    Alike (task.run rule steps f)
      ({ task with destinations := destinations }.run rule steps g) := by
  induction steps generalizing f g with
  | zero => exact like
  | succ steps ih =>
    rw [Task.run, Task.run]
    have hstep := like.step? same rule
    generalize task.step? rule f = next,
      { task with destinations := destinations }.step? rule g = next' at hstep ⊢
    cases hstep with
    | none => exact like
    | some hnext => exact ih hnext

/-- Before their first steps, searches from the same origins are in states that are alike. -/
theorem start {origins origins' : CandidateSet α} (perm : origins.toList.Perm origins'.toList)
    (nodeCount : Nat) :
    Alike (Frontier.start (.blank nodeCount) origins)
      (Frontier.start (.blank nodeCount) origins') :=
  foldl_reach perm origins.nodup_nodes (refl (.blank nodeCount))

end Alike

/-- The search neither depends on the order in which the origins were inserted nor on that of the
destinations: from the same candidates in another order it finds the same path, or none, whatever
costs tie and whatever edges cost. -/
theorem search_eq_of_perm [MonotoneScalar α] (labels labels' : Labels α) (task : Task α)
    {origins origins' destinations : CandidateSet α}
    (sources : origins.toList.Perm origins'.toList)
    (sinks : task.destinations.toList.Perm destinations.toList) :
    (search labels' { task with destinations := destinations } origins').1 =
      (search labels task origins).1 := by
  have hsame : ∀ v, destinations.get? v = task.destinations.get? v :=
    CandidateSet.get?_eq_of_perm sinks.symm
  have hbound : { task with destinations := destinations }.stepBound origins' =
      task.stepBound origins := by
    have hsize := sources.length_eq
    rw [CandidateSet.length_toList, CandidateSet.length_toList] at hsize
    rw [Task.stepBound, Task.stepBound, hsize]
  have hlike : Alike (finalState stopAtBest labels task origins)
      (finalState stopAtBest labels' { task with destinations := destinations } origins') := by
    rw [finalState, finalState, Labels.reset_eq_blank, Labels.reset_eq_blank, hbound]
    exact (Alike.start sources task.network.nodeCount).run hsame stopAtBest _
  simp only [search, searchWith, hlike.best_eq]
  refine congrArg (Option.bind _) (funext fun best ↦ ?_)
  exact pathTo_congr (P := fun _ ↦ True) (fun _ _ _ _ _ ↦ trivial) (fun v _ ↦ hlike.get?_eq v)
    (CandidateSet.get?_eq_of_perm sources.symm) trivial

/-- The search along the edges of the detour when it may end at the nodes 0 and 1. If it may start
at both, the costs at them can be such that every way costs the same. -/
noncomputable def tiedTask : Task EReal :=
  detourTask (.ofList [⟨⟨0⟩, 2, 0⟩, ⟨⟨1⟩, 1, 0⟩])

/-- Inserting origins and destinations the other way round, all ways costing the same, the search
finds the same path. -/
theorem search_eq_of_perm_tied : ∃ path,
    (search .empty tiedTask (.ofList [⟨⟨0⟩, 1, 0⟩, ⟨⟨1⟩, 2, 0⟩])).1 = some path ∧
    (search .empty { tiedTask with destinations := .ofList [⟨⟨1⟩, 1, 0⟩, ⟨⟨0⟩, 2, 0⟩] }
      (.ofList [⟨⟨1⟩, 2, 0⟩, ⟨⟨0⟩, 1, 0⟩])).1 = some path := by
  have hsources : (CandidateSet.ofList [⟨⟨0⟩, (1 : EReal), 0⟩, ⟨⟨1⟩, 2, 0⟩]).toList.Perm
      (CandidateSet.ofList [⟨⟨1⟩, 2, 0⟩, ⟨⟨0⟩, 1, 0⟩]).toList := by
    rw [CandidateSet.toList_ofList_pair rfl, CandidateSet.toList_ofList_pair rfl]
    exact .swap ..
  have hsinks : tiedTask.destinations.toList.Perm
      (CandidateSet.ofList [⟨⟨1⟩, 1, 0⟩, ⟨⟨0⟩, 2, 0⟩]).toList := by
    rw [tiedTask, detourTask, CandidateSet.toList_ofList_pair rfl, CandidateSet.toList_ofList_pair rfl]
    exact .swap ..
  have hs : (⟨⟨0⟩, 1, 0⟩ : Candidate EReal) ∈
      (CandidateSet.ofList [⟨⟨0⟩, (1 : EReal), 0⟩, ⟨⟨1⟩, 2, 0⟩]).toList := by
    rw [CandidateSet.toList_ofList_pair rfl]
    exact List.mem_cons_self
  have hc : (⟨⟨0⟩, 2, 0⟩ : Candidate EReal) ∈ tiedTask.destinations.toList := by
    rw [tiedTask, detourTask, CandidateSet.toList_ofList_pair rfl]
    exact List.mem_cons_self
  have walk : tiedTask.network.IsWalk ⟨0⟩ [] ⟨0⟩ := ⟨rfl, by decide⟩
  have wf : tiedTask.network.WellFormed := Detour.wellFormed
  have nonNegative : tiedTask.NonNegative := (Detour.static_detour _).nonNegative
  obtain ⟨path, found⟩ := exists_path_of_isWalk .empty wf nonNegative (fun _ ↦ True)
    (fun _ _ ↦ trivial) (fun _ _ _ _ ↦ trivial) hs (EReal.coe_lt_top 1) hc walk
    fun e he ↦ absurd he List.not_mem_nil
  exact ⟨path, found, (search_eq_of_perm .empty .empty tiedTask hsources hsinks).trans found⟩

end DoorToDoor.LeastCost
