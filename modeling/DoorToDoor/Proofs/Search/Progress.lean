import DoorToDoor.Proofs.Search.Settled

/-!
# The progress of a search

What a search has achieved when some nodes have been expanded: the origins are labelled, the edges
that leave expanded nodes are accounted for in the labels of their heads, each expanded node was
reached from one expanded earlier, and the best destination is the best among the expanded nodes.
One step keeps this and either passes over an entry or expands one node more (`Explored.step`). A
node is never expanded twice, so a search comes to its end within as many steps as there are origins
and edges (`explored_finalState`).
-/

namespace DoorToDoor.LeastCost

variable {α : Type} [Scalar α] {task : Task α} {origins : CandidateSet α}
  {done done' : List NodeId} {f g : Frontier α}

/-- How many edges leave the nodes of a list together. -/
def Task.outgoing (task : Task α) (ids : List NodeId) : Nat :=
  (ids.map fun v ↦ (task.network.outEdges v).length).sum

omit [Scalar α] in
private theorem Task.outgoing_cons (task : Task α) (v : NodeId) (ids : List NodeId) :
    task.outgoing (v :: ids) = (task.network.outEdges v).length + task.outgoing ids := by
  rw [outgoing, List.map_cons, List.sum_cons, outgoing]

/-- What a search has achieved when some nodes have been expanded. -/
structure Explored (task : Task α) (origins : CandidateSet α) (done : List NodeId)
    (f : Frontier α) : Prop extends Settled task origins done f where
  /-- Origins are reached at their own cost. -/
  departed : ∀ c ∈ origins.toList, c.node.index < task.network.nodeCount →
    c.cost < Scalar.infinity → f.labels.Reaches c.node c.cost
  /-- The usable edges of expanded nodes reach their heads, unless the sum is not below infinity. -/
  followed : ∀ v ∈ done, ∀ label, f.labels.get? v = some label → ∀ e ∈ task.network.outEdges v,
    Scalar.isFinite (task.charge e label.time) = true →
      label.cost + task.charge e label.time < Scalar.infinity →
        f.labels.Reaches e.head.id (label.cost + task.charge e label.time)
  /-- An expanded node was reached from an origin or from a node expanded before it. -/
  rooted : ∀ v earlier, v :: earlier <:+ done → ∀ label, f.labels.get? v = some label →
    task.Derives origins f.labels earlier v label
  /-- No expanded destination costs less than the best one. -/
  best_le : ∀ v ∈ done, ∀ label, f.labels.get? v = some label → ∀ c,
    task.destinations.get? v = some c → ∃ b, f.best = some b ∧ ¬label.cost + c.cost < b.total
  /-- The best destination has been expanded and costs what its label says. -/
  best_eq : ∀ b, f.best = some b → b.node ∈ done ∧ ∃ label c,
    f.labels.get? b.node = some label ∧ task.destinations.get? b.node = some c ∧
      b.total = label.cost + c.cost

/-- No usable edge costs less than nothing when it is entered at the time of a label from which a
search follows it. -/
def Task.NoRefundsFrom (task : Task α) (origins : CandidateSet α) : Prop :=
  ∀ done f, Explored task origins done f → ∀ v label, f.labels.get? v = some label → v ∉ done →
    ∀ e ∈ task.network.outEdges v, Scalar.isFinite (task.charge e label.time) = true →
      Scalar.zero ≤ task.charge e label.time

/-- Edges that refund nothing at any time do not at those of labels. -/
theorem Task.NoRefunds.noRefundsFrom (h : task.NoRefunds) (origins : CandidateSet α) :
    task.NoRefundsFrom origins :=
  fun _ _ _ _ label _ _ e he ↦ h e (Network.mem_edges_of_mem_outEdges he) label.time

/-- Edges that never cost less than nothing do not at the times of labels. -/
theorem Task.NonNegative.noRefundsFrom {task : Task EReal} (h : task.NonNegative)
    (origins : CandidateSet EReal) : task.NoRefundsFrom origins :=
  h.noRefunds.noRefundsFrom origins

/-- A later state of a search, with more nodes expanded perhaps: the labels of expanded nodes stay,
entries cost at least what some entry before costs, and the best destination is the one before or
has been compared with it. Each expanded node makes room for as many entries as edges leave it. -/
structure Advances (task : Task α) (origins : CandidateSet α) (done done' : List NodeId)
    (f g : Frontier α) : Prop where
  explored : Explored task origins done' g
  subset : done ⊆ done'
  keeps : ∀ v ∈ done, g.labels.get? v = f.labels.get? v
  entries : ∀ x ∈ g.queue.toList, ∃ y ∈ f.queue.toList, y.cost ≤ x.cost
  best : g.best = f.best ∨
    ∃ entry ∈ f.queue.toList, g.best = bestWith task.destinations f.best entry
  length_le : g.queue.toList.length + 1 + task.outgoing done ≤
    f.queue.toList.length + task.outgoing done'

namespace Explored

variable {entry : Entry α} {queue : Heap (Entry α)} {v : NodeId} {label l : Label α}

private theorem rooted_cons (h : Explored task origins done f) {u : NodeId} {earlier : List NodeId}
    (hsuffix : v :: earlier <:+ u :: done) (hl : f.labels.get? v = some l) :
    task.Derives origins f.labels earlier v l := by
  rcases List.suffix_cons_iff.mp hsuffix with heq | hsuffix
  · cases heq
    exact h.grown _ l hl
  · exact h.rooted v earlier hsuffix l hl

private theorem bestWith_eq (h : Explored task origins done f)
    (hlabel : f.labels.get? entry.node = some label) (hcost : label.cost = entry.cost)
    {b : Best α} (hb : bestWith task.destinations f.best entry = some b) :
    b.node ∈ entry.node :: done ∧ ∃ l c, f.labels.get? b.node = some l ∧
      task.destinations.get? b.node = some c ∧ b.total = l.cost + c.cost := by
  rcases bestWith_eq_some hb with hb | ⟨c, hc, rfl⟩
  · obtain ⟨hdone, hlabels⟩ := h.best_eq b hb
    exact ⟨List.mem_cons_of_mem entry.node hdone, hlabels⟩
  · exact ⟨List.mem_cons_self, label, c, hlabel, hc, by rw [hcost]⟩

private theorem settled_blank (task : Task α) (origins : CandidateSet α) :
    Settled task origins [] (⟨.blank task.network.nodeCount, .empty, none⟩ : Frontier α) :=
  { Queued.blank task.network.nodeCount with
    size_slots := Array.size_replicate
    distinct := List.nodup_nil
    expanded := nofun
    awaited := fun v label hl ↦ by simp at hl
    grown := fun v label hl ↦ by simp at hl }

variable [MonotoneScalar α]

open MonotoneScalar

private theorem bestWith_le (h : Explored task origins done f)
    (hlabel : f.labels.get? entry.node = some label) (hcost : label.cost = entry.cost)
    (hv : v ∈ entry.node :: done) (hl : f.labels.get? v = some l) {c : Candidate α}
    (hc : task.destinations.get? v = some c) :
    ∃ b, bestWith task.destinations f.best entry = some b ∧ ¬l.cost + c.cost < b.total := by
  have hirrefl : ∀ x : α, ¬x < x := MonotoneScalar.lt_irrefl
  rcases List.mem_cons.mp hv with rfl | hv
  · -- The destination that is counted is the best one, or it is not cheaper.
    cases hlabel.symm.trans hl
    rw [hcost]
    unfold bestWith
    rw [hc]
    cases f.best with
    | none => exact ⟨_, rfl, hirrefl _⟩
    | some b =>
      dsimp only
      split
      · exact ⟨_, rfl, hirrefl _⟩
      · next hnot => exact ⟨b, rfl, hnot⟩
  · -- The best destination only gets better.
    obtain ⟨b, hb, hnot⟩ := h.best_le v hv l hl c hc
    unfold bestWith
    rw [hb]
    cases task.destinations.get? entry.node with
    | none => exact ⟨b, rfl, hnot⟩
    | some c' =>
      dsimp only
      split
      · next hlt => exact ⟨_, rfl, fun hless ↦ hnot (MonotoneScalar.lt_trans hless hlt)⟩
      · exact ⟨b, rfl, hnot⟩

private theorem floor_of_mem_queue (h : Explored task origins done f)
    (hentry : entry ∈ f.queue.toList) (hlabel : f.labels.get? entry.node = some label)
    (hcost : label.cost = entry.cost) :
    ∀ u ∈ entry.node :: done, f.labels.Reaches u label.cost := by
  intro u hu
  rcases List.mem_cons.mp hu with rfl | hu
  · exact ⟨label, hlabel, le_self (h.label_lt _ label hlabel)⟩
  · obtain ⟨l, hl, hentries⟩ := h.expanded u hu
    exact ⟨l, hl, hcost ▸ (hentries entry hentry).1⟩

section

variable (h : Explored task origins done f) (wf : task.network.WellFormed)
  (hpop : f.queue.pop? Entry.before = some (entry, queue))

include h hpop

/-- Passing over an entry above the label of its node expands no node. -/
theorem advances_pass
    (stale : ∀ label, f.labels.get? entry.node = some label → label.cost < entry.cost) :
    Advances task origins done done f { f with queue := queue } := by
  obtain ⟨hentry, hrest⟩ := h.of_pop? hpop
  refine ⟨{ h with toSettled := h.toSettled.pass hpop stale }, List.Subset.refl _,
    fun _ _ ↦ rfl, fun x hx ↦ ?_, .inl rfl, ?_⟩
  · exact ⟨entry, hentry, (hrest x hx).2⟩
  · rw [← (Heap.perm_pop? Entry.before h.whole hpop).length_eq, List.length_cons]

include wf

/-- Expanding a node settles it, with the new best destination, and then follows its edges. -/
theorem proceeds_expand (noRefunds : task.NoRefundsFrom origins)
    (hlabel : f.labels.get? entry.node = some label) (fresh : ¬label.cost < entry.cost) :
    Proceeds task origins (entry.node :: done) label.cost
        (task.network.outEdges entry.node).length
        { f with queue := queue, best := bestWith task.destinations f.best entry }
        (task.expand { f with queue := queue } entry label.time) ∧
      ∀ e ∈ task.network.outEdges entry.node,
        Scalar.isFinite (task.charge e label.time) = true →
          label.cost + task.charge e label.time < Scalar.infinity →
            (task.expand { f with queue := queue } entry label.time).labels.Reaches e.head.id
              (label.cost + task.charge e label.time) := by
  obtain ⟨hentry, -⟩ := h.of_pop? hpop
  obtain ⟨hcost, hnew⟩ := h.fresh hentry hlabel fresh
  have hinside : entry.node.index < task.network.nodeCount :=
    h.size_slots ▸ Labels.lt_of_get? hlabel
  have hexpand : task.expand { f with queue := queue } entry label.time =
      (task.network.outEdges entry.node).foldl
        (fun f e ↦ f.follow task.costs task.person label.cost label.time e)
        { f with queue := queue, best := bestWith task.destinations f.best entry } := by
    rw [hcost]
    rfl
  rw [hexpand]
  exact (h.toSettled.settle hpop hlabel fresh _).proceeds_foldl_follow wf List.mem_cons_self hlabel
    (h.floor_of_mem_queue hentry hlabel hcost) _ (fun e ↦ (wf.mem_outEdges_iff hinside e).mp)
    (noRefunds done f h entry.node label hlabel hnew)

/-- Expanding a node adds it to the expanded ones. -/
theorem advances_expand (noRefunds : task.NoRefundsFrom origins)
    (hlabel : f.labels.get? entry.node = some label) (fresh : ¬label.cost < entry.cost) :
    Advances task origins done (entry.node :: done) f
      (task.expand { f with queue := queue } entry label.time) := by
  obtain ⟨hentry, hrest⟩ := h.of_pop? hpop
  obtain ⟨hcost, -⟩ := h.fresh hentry hlabel fresh
  obtain ⟨hproceeds, hheads⟩ := h.proceeds_expand wf hpop noRefunds hlabel fresh
  have hkeeps := hproceeds.keeps
  have hbest := hproceeds.best_eq
  have hexplored : Explored task origins (entry.node :: done)
      (task.expand { f with queue := queue } entry label.time) :=
    { hproceeds.settled with
      departed := fun c hc hin hlt ↦ hproceeds.reaches _ _ (h.departed c hc hin hlt)
      followed := fun v hv l hl e he usable hlt ↦ by
        rw [hkeeps v hv] at hl
        rcases List.mem_cons.mp hv with rfl | hv
        · cases hlabel.symm.trans hl
          exact hheads e he usable hlt
        · exact hproceeds.reaches _ _ (h.followed v hv l hl e he usable hlt)
      rooted := fun v earlier hsuffix l hl ↦ by
        rw [hkeeps v (hsuffix.subset List.mem_cons_self)] at hl
        exact (h.rooted_cons hsuffix hl).mono (List.Subset.refl _) fun u hu ↦
          hkeeps u (hsuffix.subset (List.mem_cons_of_mem v hu))
      best_le := fun v hv l hl c hc ↦ by
        rw [hkeeps v hv] at hl
        rw [hbest]
        exact h.bestWith_le hlabel hcost hv hl hc
      best_eq := fun b hb ↦ by
        rw [hbest] at hb
        obtain ⟨hdone, l, c, hl, hc, htotal⟩ := h.bestWith_eq hlabel hcost hb
        exact ⟨hdone, l, c, (hkeeps _ hdone).trans hl, hc, htotal⟩ }
  refine ⟨hexplored, List.subset_cons_self _ _, fun v hv ↦ hkeeps v (List.mem_cons_of_mem _ hv),
    fun x hx ↦ ?_, .inr ⟨entry, hentry, hbest⟩, ?_⟩
  · rcases hproceeds.entries x hx with hx | hx
    · exact ⟨entry, hentry, (hrest x hx).2⟩
    · exact ⟨entry, hentry, hcost ▸ hx⟩
  · have hlength := (Heap.perm_pop? Entry.before h.whole hpop).length_eq
    have hle : (task.expand { f with queue := queue } entry label.time).queue.toList.length ≤
        queue.toList.length + (task.network.outEdges entry.node).length := hproceeds.length_le
    rw [List.length_cons] at hlength
    rw [Task.outgoing_cons]
    omega

end

/-- A step passes over an entry or expands one node more. -/
theorem step (h : Explored task origins done f) (wf : task.network.WellFormed)
    (noRefunds : task.NoRefundsFrom origins) {rule : StopRule α}
    (hstep : task.step? rule f = some g) : ∃ done', Advances task origins done done' f g := by
  obtain ⟨entry, queue, hpop, ⟨stale, rfl⟩ | ⟨label, hlabel, fresh, -, rfl⟩⟩ := step?_eq_some hstep
  · exact ⟨done, h.advances_pass hpop stale⟩
  · exact ⟨entry.node :: done, h.advances_expand wf hpop noRefunds hlabel fresh⟩

private theorem run_step?_eq_none (wf : task.network.WellFormed)
    (noRefunds : task.NoRefundsFrom origins) (rule : StopRule α) (steps spent : Nat)
    (h : Explored task origins done f)
    (hspent : spent + f.queue.toList.length ≤ origins.size + task.outgoing done)
    (henough : origins.size + task.network.edgeCount < spent + steps) :
    ∃ done', Explored task origins done' (task.run rule steps f) ∧
      task.step? rule (task.run rule steps f) = none := by
  induction steps generalizing spent done f with
  | zero =>
    have hle : task.outgoing done ≤ task.network.edgeCount :=
      wf.sum_outEdges_le h.distinct h.inside
    omega
  | succ steps ih =>
    rw [Task.run]
    cases hstep : task.step? rule f with
    | none => exact ⟨done, h, hstep⟩
    | some g =>
      obtain ⟨done', hadvances⟩ := h.step wf noRefunds hstep
      have hle := hadvances.length_le
      exact ih (spent + 1) hadvances.explored (by omega) (by omega)

private theorem proceeds_foldl_reach (cs : List (Candidate α)) (hcs : ∀ c ∈ cs, c ∈ origins.toList)
    (h : Settled task origins [] f) :
    let g := cs.foldl (fun f c ↦ f.reach c.node ⟨c.cost, c.time, none⟩) f
    Settled task origins [] g ∧ g.best = f.best ∧
      (∀ v cost, f.labels.Reaches v cost → g.labels.Reaches v cost) ∧
      g.queue.toList.length ≤ f.queue.toList.length + cs.length ∧
      ∀ c ∈ cs, c.node.index < task.network.nodeCount → c.cost < Scalar.infinity →
        g.labels.Reaches c.node c.cost := by
  induction cs generalizing f with
  | nil => exact ⟨h, rfl, fun _ _ hreaches ↦ hreaches, Nat.le_refl _, by simp⟩
  | cons c rest ih =>
    have hget := (origins.get?_eq_some_iff c.node c).mpr ⟨hcs c List.mem_cons_self, rfl⟩
    have hreach : Proceeds task origins [] c.cost 1 f (f.reach c.node ⟨c.cost, c.time, none⟩) :=
      h.proceeds_reach (by simp) (.origin hget)
    obtain ⟨hsettled, hbest, hkeeps, hlength, hreached⟩ :=
      ih (fun c' hc' ↦ hcs c' (List.mem_cons_of_mem c hc')) hreach.settled
    have hone := hreach.length_le
    refine ⟨hsettled, hbest.trans hreach.best_eq,
      fun v cost hv ↦ hkeeps v cost (hreach.reaches v cost hv), ?_, fun c' hc' hin hlt ↦ ?_⟩
    · rw [List.length_cons]
      exact hlength.trans (by omega)
    · rcases List.mem_cons.mp hc' with rfl | hc'
      · exact hkeeps _ _ (h.reaches_reach hin hlt)
      · exact hreached c' hc' hin hlt

/-- Before its first step a search has labelled its origins and expanded nothing. -/
theorem start (task : Task α) (origins : CandidateSet α) :
    Explored task origins [] (Frontier.start (.blank task.network.nodeCount) origins) ∧
      (Frontier.start (.blank task.network.nodeCount) origins).queue.toList.length ≤
        origins.size := by
  obtain ⟨hsettled, hbest, -, hlength, hreached⟩ :=
    proceeds_foldl_reach origins.toList (fun _ ↦ id) (settled_blank task origins)
  rw [CandidateSet.length_toList] at hlength
  refine ⟨{ hsettled with
    departed := hreached
    followed := nofun
    rooted := by simp
    best_le := nofun
    best_eq := fun b hb ↦ ?_ }, by simpa [Frontier.start] using hlength⟩
  rw [Frontier.start, hbest] at hb
  cases hb

end Explored

/-- A search ends because it has nothing left to do, or because its rule lets it end; it never runs
out of steps, if no edge costs less than nothing at the times of its labels. -/
theorem explored_finalState [MonotoneScalar α] (rule : StopRule α) (labels : Labels α)
    (wf : task.network.WellFormed) (noRefunds : task.NoRefundsFrom origins) :
    ∃ done, Explored task origins done (finalState rule labels task origins) ∧
      task.step? rule (finalState rule labels task origins) = none := by
  rw [finalState, Labels.reset_eq_blank]
  obtain ⟨hstart, hle⟩ := Explored.start task origins
  exact hstart.run_step?_eq_none wf noRefunds rule (task.stepBound origins) 0
    (by simpa [Task.outgoing] using hle) (by simp only [Task.stepBound]; omega)

end DoorToDoor.LeastCost
