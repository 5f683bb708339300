import DoorToDoor.Proofs.Search.Queue

/-!
# Settled nodes

The state of a search when some nodes have been expanded and no edge costs less than nothing,
whether or not sums are rounded. A label is that of an origin, or it continues the label of an
expanded node along a usable edge (`Task.Derives`). An expanded node is settled: its label does not
change any more, and whatever is queued costs no less; every other labelled node waits in the queue
at the cost of its label. `Settled` says how labels, queue and expanded nodes fit together.
Following edges from a settled node keeps this (`Settled.proceeds_foldl_follow`), and so does taking
an entry, which settles the node at whose label it stands (`Settled.settle`).
-/

namespace DoorToDoor.LeastCost

variable {α : Type} [Scalar α]

/-- No edge that can be used costs less than nothing. -/
def Task.NoRefunds (task : Task α) : Prop :=
  ∀ e ∈ task.network.edges, ∀ now, Scalar.isFinite (task.charge e now) = true →
    Scalar.zero ≤ task.charge e now

/-- Every edge costs at least nothing at each time at which it can be used. -/
def Task.NonNegative (task : Task EReal) : Prop :=
  ∀ e ∈ task.network.edges, ∀ now, Scalar.isFinite (task.charge e now) = true →
    0 ≤ task.charge e now

/-- In exact arithmetic, edges that cost at least nothing give no refunds. -/
theorem Task.NonNegative.noRefunds {task : Task EReal} (h : task.NonNegative) : task.NoRefunds := by
  intro e he now finite
  rw [Scalar.zero_exact]
  exact h e he now finite

/-- How a node came to its label: it is an origin, or one of the given nodes was left for it along a
usable edge. -/
inductive Task.Derives (task : Task α) (origins : CandidateSet α) (labels : Labels α)
    (earlier : List NodeId) : NodeId → Label α → Prop
  | origin {v : NodeId} {c : Candidate α} (hc : origins.get? v = some c) :
    task.Derives origins labels earlier v ⟨c.cost, c.time, none⟩
  | edge {e : Edge α} {l : Label α} (mem : e ∈ task.network.edges) (tail : e.tail.id ∈ earlier)
    (hl : labels.get? e.tail.id = some l) (usable : Scalar.isFinite (task.charge e l.time) = true) :
    task.Derives origins labels earlier e.head.id
      ⟨l.cost + task.charge e l.time, l.time + task.costs.travelTime task.person e l.time, some e⟩

/-- How labels, queue and the nodes expanded so far fit together. -/
structure Settled (task : Task α) (origins : CandidateSet α) (done : List NodeId)
    (f : Frontier α) : Prop extends Queued f.labels f.queue where
  size_slots : f.labels.slots.size = task.network.nodeCount
  /-- No node has been expanded twice. -/
  distinct : done.Nodup
  /-- An expanded node costs no more than any entry, and its own entries are outdated. -/
  expanded : ∀ v ∈ done, ∃ label, f.labels.get? v = some label ∧
    ∀ x ∈ f.queue.toList, label.cost ≤ x.cost ∧ (x.node = v → label.cost < x.cost)
  /-- A labelled node that is not expanded waits at the cost of its label. -/
  awaited : ∀ v label, f.labels.get? v = some label → v ∉ done →
    ⟨label.cost, v⟩ ∈ f.queue.toList
  /-- Every label comes from an origin or from an expanded node. -/
  grown : ∀ v label, f.labels.get? v = some label → task.Derives origins f.labels done v label

/-- A later state with the same nodes settled: labels have only become better, those of the settled
nodes are kept, and new entries cost at least a floor and are so many at most. -/
structure Proceeds (task : Task α) (origins : CandidateSet α) (done : List NodeId) (floor : α)
    (more : Nat) (f g : Frontier α) : Prop where
  settled : Settled task origins done g
  best_eq : g.best = f.best
  keeps : ∀ v ∈ done, g.labels.get? v = f.labels.get? v
  reaches : ∀ v cost, f.labels.Reaches v cost → g.labels.Reaches v cost
  entries : ∀ x ∈ g.queue.toList, x ∈ f.queue.toList ∨ floor ≤ x.cost
  length_le : g.queue.toList.length ≤ f.queue.toList.length + more

variable {task : Task α} {origins : CandidateSet α} {done earlier later : List NodeId}
  {f g : Frontier α} {v : NodeId} {label : Label α} {entry : Entry α} {queue : Heap (Entry α)}

/-- A derivation stays one among more nodes and in a later state that keeps the labels of its
nodes. -/
theorem Task.Derives.mono {labels labels' : Labels α}
    (h : task.Derives origins labels earlier v label) (more : earlier ⊆ later)
    (keeps : ∀ u ∈ earlier, labels'.get? u = labels.get? u) :
    task.Derives origins labels' later v label := by
  cases h with
  | origin hc => exact .origin hc
  | edge mem tail hl usable => exact .edge mem (more tail) ((keeps _ tail).trans hl) usable

namespace Settled

/-- A node was reached on an edge from an expanded node, if on any edge. -/
theorem traced (h : Settled task origins done f) {e : Edge α}
    (hlabel : f.labels.get? v = some label) (hvia : label.via = some e) : e.tail.id ∈ done := by
  cases h.grown v label hlabel with
  | origin => cases hvia
  | edge mem tail =>
    cases hvia
    exact tail

/-- Expanded nodes are nodes of the network. -/
theorem inside (h : Settled task origins done f) :
    ∀ v ∈ done, v.index < task.network.nodeCount := by
  intro v hv
  obtain ⟨label, hlabel, -⟩ := h.expanded v hv
  exact h.size_slots ▸ Labels.lt_of_get? hlabel

/-- An entry that is not above the label of its node stands at this label, and the node is not
settled yet. -/
theorem fresh (h : Settled task origins done f) (hentry : entry ∈ f.queue.toList)
    (hlabel : f.labels.get? entry.node = some label) (fresh : ¬label.cost < entry.cost) :
    label.cost = entry.cost ∧ entry.node ∉ done := by
  obtain ⟨l, hl, hcost⟩ := h.labelled entry hentry
  cases hlabel.symm.trans hl
  refine ⟨(hcost.resolve_right fresh).symm, fun hdone ↦ ?_⟩
  obtain ⟨l, hl, hentries⟩ := h.expanded entry.node hdone
  cases hlabel.symm.trans hl
  exact fresh ((hentries entry hentry).2 rfl)

private theorem proceeds_refl (h : Settled task origins done f) (floor : α) (more : Nat) :
    Proceeds task origins done floor more f f :=
  ⟨h, rfl, fun _ _ ↦ rfl, fun _ _ hreaches ↦ hreaches, fun _ hx ↦ .inl hx, Nat.le_add_right _ _⟩

variable [MonotoneScalar α]

open MonotoneScalar

private theorem not_mem_of_improves (floor : ∀ u ∈ done, f.labels.Reaches u label.cost)
    (better : f.labels.improves v label.cost = true) : v ∉ done := by
  intro hv
  obtain ⟨old, hold, hle⟩ := floor v hv
  exact not_lt_of_le hle (((f.labels.improves_iff v label.cost).mp better).2.2 old hold)

private theorem reaches_set (better : f.labels.improves v label.cost = true)
    {u : NodeId} {cost : α} (hu : f.labels.Reaches u cost) :
    (f.labels.set v label).Reaches u cost := by
  obtain ⟨hin, -, hbelow⟩ := (f.labels.improves_iff v label.cost).mp better
  obtain ⟨old, hold, hle⟩ := hu
  by_cases hvu : v = u
  · subst hvu
    refine ⟨label, by rw [f.labels.get?_set v v label hin, if_pos rfl], ?_⟩
    exact le_trans (le_of_lt (hbelow old hold)) hle
  · exact ⟨old, by rw [f.labels.get?_set v u label hin, if_neg hvu, hold], hle⟩

private theorem improve (h : Settled task origins done f)
    (floor : ∀ u ∈ done, f.labels.Reaches u label.cost)
    (derives : task.Derives origins f.labels done v label)
    (better : f.labels.improves v label.cost = true) :
    Proceeds task origins done label.cost 1 f { f with
      labels := f.labels.set v label
      queue := f.queue.push Entry.before ⟨label.cost, v⟩ } := by
  have hin := ((f.labels.improves_iff v label.cost).mp better).1
  have hget : ∀ u, (f.labels.set v label).get? u = if v = u then some label else f.labels.get? u :=
    fun u ↦ f.labels.get?_set v u label hin
  have hnew : v ∉ done := not_mem_of_improves floor better
  have hkeeps : ∀ u ∈ done, (f.labels.set v label).get? u = f.labels.get? u := fun u hu ↦ by
    rw [hget, if_neg fun (heq : v = u) ↦ hnew (heq ▸ hu)]
  have hlt := h.lt_of_improves better
  have hperm := Heap.perm_push Entry.before h.whole ⟨label.cost, v⟩
  have hmem : ∀ x, x ∈ (f.queue.push Entry.before ⟨label.cost, v⟩).toList ↔
      x = ⟨label.cost, v⟩ ∨ x ∈ f.queue.toList := fun x ↦ by
    rw [hperm.mem_iff, List.mem_cons]
  refine ⟨{ h.toQueued.improve better with
    size_slots := by rw [Labels.size_slots_set, h.size_slots]
    distinct := h.distinct
    expanded := fun u hu ↦ ?_
    awaited := fun u l hl hu ↦ ?_
    grown := fun u l hl ↦ ?_ }, rfl, hkeeps, fun u cost ↦ reaches_set better, fun x hx ↦ ?_, ?_⟩
  case refine_1 =>
    obtain ⟨l, hl, hentries⟩ := h.expanded u hu
    refine ⟨l, (hkeeps u hu).trans hl, fun x hx ↦ ?_⟩
    rcases (hmem x).mp hx with rfl | hx
    · obtain ⟨l', hl', hle⟩ := floor u hu
      cases hl.symm.trans hl'
      exact ⟨hle, fun (heq : v = u) ↦ absurd (heq ▸ hu) hnew⟩
    · exact hentries x hx
  case refine_2 =>
    rw [hget] at hl
    rw [hmem]
    split at hl
    · next hvu =>
      cases hl
      exact .inl (by rw [hvu])
    · exact .inr (h.awaited u l hl hu)
  case refine_3 =>
    rw [hget] at hl
    split at hl
    · next hvu =>
      cases hl
      exact hvu ▸ derives.mono (List.Subset.refl _) hkeeps
    · exact (h.grown u l hl).mono (List.Subset.refl _) hkeeps
  case refine_4 =>
    rcases (hmem x).mp hx with rfl | hx
    · exact .inr (le_self hlt)
    · exact .inl hx
  case refine_5 => rw [hperm.length_eq, List.length_cons]

/-- Reaching a node, from an origin or from a settled node, at a cost not below that of the settled
nodes, leaves these settled and queues one entry at most. -/
theorem proceeds_reach (h : Settled task origins done f)
    (floor : ∀ u ∈ done, f.labels.Reaches u label.cost)
    (derives : task.Derives origins f.labels done v label) :
    Proceeds task origins done label.cost 1 f (f.reach v label) := by
  unfold Frontier.reach
  split
  · next better => exact h.improve floor derives better
  · exact h.proceeds_refl label.cost 1

/-- A node that is reached at a cost below infinity has a label at most at this cost. -/
theorem reaches_reach (h : Settled task origins done f) (hv : v.index < task.network.nodeCount)
    (hlt : label.cost < Scalar.infinity) : (f.reach v label).labels.Reaches v label.cost := by
  unfold Frontier.reach
  split
  · next better =>
    have hin := ((f.labels.improves_iff v label.cost).mp better).1
    exact ⟨label, (f.labels.get?_set v v label hin).trans (if_pos rfl), le_self hlt⟩
  · next worse =>
    cases hold : f.labels.get? v with
    | none =>
      refine absurd ((f.labels.improves_iff v label.cost).mpr ⟨?_, fun _ ↦ hlt, ?_⟩) worse
      · rwa [h.size_slots]
      · intro l hl
        rw [hold] at hl
        cases hl
    | some old =>
      refine ⟨old, hold, le_of_not_lt (h.label_lt v old hold) hlt fun hless ↦ worse ?_⟩
      refine (f.labels.improves_iff v label.cost).mpr ⟨Labels.lt_of_get? hold, ?_, ?_⟩
      · intro hnone
        rw [hold] at hnone
        cases hnone
      · intro l hl
        rw [hold] at hl
        cases hl
        exact hless

section

variable {e : Edge α} {l : Label α} (h : Settled task origins done f)
  (hl : f.labels.get? e.tail.id = some l)

include h hl

private theorem le_add_charge (noRefund : Scalar.zero ≤ task.charge e l.time)
    (usable : Scalar.isFinite (task.charge e l.time) = true) :
    l.cost ≤ l.cost + task.charge e l.time :=
  le_add (h.label_lt _ l hl) usable noRefund

/-- Following an edge from a settled node that costs no less than the others leaves all settled and
queues one entry at most. -/
theorem proceeds_follow (he : e ∈ task.network.edges) (hdone : e.tail.id ∈ done)
    (floor : ∀ u ∈ done, f.labels.Reaches u l.cost)
    (noRefund : Scalar.isFinite (task.charge e l.time) = true →
      Scalar.zero ≤ task.charge e l.time) :
    Proceeds task origins done l.cost 1 f (f.follow task.costs task.person l.cost l.time e) := by
  rw [follow_eq]
  split
  · next usable =>
    have hle := h.le_add_charge hl (noRefund usable) usable
    have hreach := h.proceeds_reach (fun u hu ↦ ?_) (.edge he hdone hl usable)
    · exact { hreach with entries := fun x hx ↦ (hreach.entries x hx).imp id (le_trans hle) }
    · obtain ⟨old, hold, hbelow⟩ := floor u hu
      exact ⟨old, hold, le_trans hbelow hle⟩
  · exact h.proceeds_refl l.cost 1

omit hl in
/-- Following a usable edge reaches its head at the cost of the edge in addition, if this is below
infinity. -/
theorem reaches_follow (hhead : e.head.id.index < task.network.nodeCount)
    (usable : Scalar.isFinite (task.charge e l.time) = true)
    (hlt : l.cost + task.charge e l.time < Scalar.infinity) :
    (f.follow task.costs task.person l.cost l.time e).labels.Reaches e.head.id
      (l.cost + task.charge e l.time) := by
  rw [follow_eq, if_pos usable]
  exact h.reaches_reach hhead hlt

end

/-- Following edges from a settled node in turn queues one entry for each at most and reaches their
heads. -/
theorem proceeds_foldl_follow (h : Settled task origins done f) (wf : task.network.WellFormed)
    (hv : v ∈ done) {l : Label α} (hl : f.labels.get? v = some l)
    (floor : ∀ u ∈ done, f.labels.Reaches u l.cost) (es : List (Edge α))
    (hes : ∀ e ∈ es, e ∈ task.network.edges ∧ e.tail.id = v)
    (noRefund : ∀ e ∈ es, Scalar.isFinite (task.charge e l.time) = true →
      Scalar.zero ≤ task.charge e l.time) :
    Proceeds task origins done l.cost es.length f
        (es.foldl (fun f e ↦ f.follow task.costs task.person l.cost l.time e) f) ∧
      ∀ e ∈ es, Scalar.isFinite (task.charge e l.time) = true →
        l.cost + task.charge e l.time < Scalar.infinity →
          (es.foldl (fun f e ↦ f.follow task.costs task.person l.cost l.time e) f).labels.Reaches
            e.head.id (l.cost + task.charge e l.time) := by
  induction es generalizing f with
  | nil => exact ⟨h.proceeds_refl l.cost 0, by simp⟩
  | cons e rest ih =>
    obtain ⟨he, rfl⟩ := hes e List.mem_cons_self
    have hstep := h.proceeds_follow hl he hv floor (noRefund e List.mem_cons_self)
    obtain ⟨hrest, hreached⟩ := ih hstep.settled ((hstep.keeps _ hv).trans hl)
      (fun u hu ↦ hstep.reaches u _ (floor u hu))
      (fun e' he' ↦ hes e' (List.mem_cons_of_mem e he'))
      (fun e' he' ↦ noRefund e' (List.mem_cons_of_mem e he'))
    rw [List.foldl_cons, List.length_cons]
    refine ⟨⟨hrest.settled, hrest.best_eq.trans hstep.best_eq,
      fun u hu ↦ (hrest.keeps u hu).trans (hstep.keeps u hu),
      fun u cost hu ↦ hrest.reaches u cost (hstep.reaches u cost hu), fun x hx ↦ ?_, ?_⟩,
      fun e' he' usable hlt ↦ ?_⟩
    · rcases hrest.entries x hx with hx | hx
      · exact hstep.entries x hx
      · exact .inr hx
    · have hone := hstep.length_le
      have hmany := hrest.length_le
      omega
    · rcases List.mem_cons.mp he' with rfl | he'
      · exact hrest.reaches _ _ (h.reaches_follow (wf.head_lt he) usable hlt)
      · exact hreached e' he' usable hlt

/-- The entry that is taken was in the queue, as those are that are left, and costs no more than
these. -/
theorem of_pop? (h : Settled task origins done f)
    (hpop : f.queue.pop? Entry.before = some (entry, queue)) :
    entry ∈ f.queue.toList ∧
      ∀ x ∈ queue.toList, x ∈ f.queue.toList ∧ entry.cost ≤ x.cost := by
  have hperm := Heap.perm_pop? Entry.before h.whole hpop
  have hentry := hperm.mem_iff.mp List.mem_cons_self
  refine ⟨hentry, fun x hx ↦ ?_⟩
  have hx' := hperm.mem_iff.mp (List.mem_cons_of_mem entry hx)
  exact ⟨hx', Entry.le_of_before (h.entry_lt entry hentry) (h.entry_lt x hx')
    (Heap.before_of_pop? h.ordered hpop x hx)⟩

/-- Passing over an entry above the label of its node leaves all settled. -/
theorem pass (h : Settled task origins done f)
    (hpop : f.queue.pop? Entry.before = some (entry, queue))
    (stale : ∀ label, f.labels.get? entry.node = some label → label.cost < entry.cost) :
    Settled task origins done { f with queue := queue } :=
  { h.toQueued.pass hpop with
    size_slots := h.size_slots
    distinct := h.distinct
    expanded := fun u hu ↦ by
      obtain ⟨l, hl, hentries⟩ := h.expanded u hu
      exact ⟨l, hl, fun x hx ↦ hentries x ((h.of_pop? hpop).2 x hx).1⟩
    awaited := fun u l hl hu ↦ by
      have hperm := Heap.perm_pop? Entry.before h.whole hpop
      rcases List.mem_cons.mp (hperm.mem_iff.mpr (h.awaited u l hl hu)) with heq | hmem
      · subst heq
        exact absurd (stale l hl) (MonotoneScalar.lt_irrefl _)
      · exact hmem
    grown := h.grown }

/-- Taking an entry at the label of its node settles the node. -/
theorem settle (h : Settled task origins done f)
    (hpop : f.queue.pop? Entry.before = some (entry, queue))
    (hlabel : f.labels.get? entry.node = some label) (hfresh : ¬label.cost < entry.cost)
    (best : Option (Best α)) :
    Settled task origins (entry.node :: done) { f with queue := queue, best := best } := by
  have hperm := Heap.perm_pop? Entry.before h.whole hpop
  obtain ⟨hentry, hrest⟩ := h.of_pop? hpop
  obtain ⟨hcost, hnew⟩ := h.fresh hentry hlabel hfresh
  refine { h.toQueued.pass hpop with
    size_slots := h.size_slots
    distinct := List.nodup_cons.mpr ⟨hnew, h.distinct⟩
    expanded := fun u hu ↦ ?_
    awaited := fun u l hl hu ↦ ?_
    grown := fun u l hl ↦ (h.grown u l hl).mono (List.subset_cons_self _ _) fun _ _ ↦ rfl }
  case refine_1 =>
    rcases List.mem_cons.mp hu with rfl | hu
    · refine ⟨label, hlabel, fun x hx ↦ ?_⟩
      obtain ⟨-, hbelow⟩ := hrest x hx
      rw [hcost]
      refine ⟨hbelow, fun hnode ↦ ?_⟩
      have happart := (hperm.pairwise_iff Entry.Apart.symm).mpr h.apart
      rcases (List.pairwise_cons.mp happart).1 x hx hnode.symm with hlt | hgt
      · exact hlt
      · exact absurd hgt (not_lt_of_le hbelow)
    · obtain ⟨l, hl, hentries⟩ := h.expanded u hu
      exact ⟨l, hl, fun x hx ↦ hentries x (hrest x hx).1⟩
  case refine_2 =>
    rw [List.mem_cons, not_or] at hu
    rcases List.mem_cons.mp (hperm.mem_iff.mpr (h.awaited u l hl hu.2)) with heq | hmem
    · exact absurd (congrArg Entry.node heq) hu.1
    · exact hmem

end Settled

end DoorToDoor.LeastCost
