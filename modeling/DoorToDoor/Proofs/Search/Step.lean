import DoorToDoor.Proofs.Network.WellFormed
import DoorToDoor.Search.LeastCost

/-!
# The steps of a search

What labelling a node, following an edge and taking a step do, whatever the scalars. A step takes
the next entry and either passes over it or expands its node (`step?_eq_some`); there is no step
when the queue is empty or the rule lets the search end at the next entry (`step?_eq_none`). What
the parts of a step keep holds after any number of steps: `Task.Keeps.run`.
-/

namespace DoorToDoor

namespace Labels

variable {α : Type}

/-- Whether a node has a label at most at a cost. -/
def Reaches [Scalar α] (labels : Labels α) (v : NodeId) (cost : α) : Prop :=
  ∃ label, labels.get? v = some label ∧ label.cost ≤ cost

/-- Labelling keeps the number of places. -/
theorem size_slots_set (labels : Labels α) (v : NodeId) (label : Label α) :
    (labels.set v label).slots.size = labels.slots.size :=
  Array.size_setIfInBounds ..

/-- Only a place among the slots has a label. -/
theorem lt_of_get? {labels : Labels α} {v : NodeId} {label : Label α}
    (h : labels.get? v = some label) : v.index < labels.slots.size :=
  (Array.getElem?_eq_some_iff.mp (Option.join_eq_some_iff.mp h)).1

/-- A cost is an improvement if it is below the label, or below infinity where there is none. -/
theorem improves_iff [Scalar α] (labels : Labels α) (v : NodeId) (cost : α) :
    labels.improves v cost = true ↔ v.index < labels.slots.size ∧
      (labels.get? v = none → cost < Scalar.infinity) ∧
      ∀ label, labels.get? v = some label → cost < label.cost := by
  unfold improves get?
  cases h : labels.slots[v.index]? with
  | none =>
    have hout := Array.getElem?_eq_none_iff.mp h
    simp only [Bool.false_eq_true, false_iff, not_and]
    omega
  | some slot =>
    have hin := (Array.getElem?_eq_some_iff.mp h).1
    cases slot <;> simp [hin]

end Labels

namespace LeastCost

variable {α : Type} [Scalar α]

/-- What a search charges for an edge that is entered at a time. -/
abbrev Task.charge (task : Task α) (e : Edge α) (now : α) : α :=
  task.costs.disutility task.person e now

/-- Reaching a node changes its label at most, and only for the better. -/
theorem get?_reach (f : Frontier α) (v u : NodeId) (label : Label α) :
    (f.reach v label).labels.get? u =
      if f.labels.improves v label.cost = true ∧ v = u then some label else f.labels.get? u := by
  unfold Frontier.reach
  split
  · next better =>
    have hlt := ((f.labels.improves_iff v label.cost).mp better).1
    simp only [f.labels.get?_set v u label hlt, better, true_and]
  · next worse => simp only [worse, Bool.false_eq_true, false_and, if_false]

/-- An edge with a finite cost reaches its head, any other edge nothing. -/
theorem follow_eq (task : Task α) (f : Frontier α) (cost now : α)
    (e : Edge α) :
    f.follow task.costs task.person cost now e =
      if Scalar.isFinite (task.charge e now) then
        f.reach e.head.id ⟨cost + task.charge e now,
          now + task.costs.travelTime task.person e now, some e⟩
      else f := rfl

/-- A step passes over an entry above the label of its node, or expands a node that the rule does
not let the search end at. -/
theorem step?_eq_some {task : Task α} {rule : StopRule α} {f g : Frontier α}
    (h : task.step? rule f = some g) :
    ∃ entry queue, f.queue.pop? Entry.before = some (entry, queue) ∧
      ((∀ label, f.labels.get? entry.node = some label → label.cost < entry.cost) ∧
          g = { f with queue := queue } ∨
        ∃ label, f.labels.get? entry.node = some label ∧ ¬label.cost < entry.cost ∧
          rule entry.cost f.best = false ∧
          g = task.expand { f with queue := queue } entry label.time) := by
  unfold Task.step? at h
  split at h
  · cases h
  · next entry queue hpop =>
    refine ⟨entry, queue, hpop, ?_⟩
    dsimp only at h
    cases hlabel : f.labels.get? entry.node with
    | none =>
      rw [hlabel] at h
      exact .inl ⟨fun _ hl ↦ (by cases hl), (Option.some.inj h).symm⟩
    | some label =>
      simp only [hlabel] at h
      split at h
      · next stale =>
        refine .inl ⟨fun l hl ↦ ?_, (Option.some.inj h).symm⟩
        cases hl
        exact stale
      · next fresh =>
        split at h
        · cases h
        · next goOn =>
          exact .inr ⟨label, rfl, fresh, Bool.eq_false_iff.mpr goOn, (Option.some.inj h).symm⟩

/-- A search is at its end when the queue is empty, or when the rule lets it end at the next
entry, which is not above the label of its node. -/
theorem step?_eq_none {task : Task α} {rule : StopRule α} {f : Frontier α}
    (h : task.step? rule f = none) :
    f.queue.toList = [] ∨
      ∃ entry queue, f.queue.pop? Entry.before = some (entry, queue) ∧
        rule entry.cost f.best = true := by
  unfold Task.step? at h
  split at h
  · next hpop => exact .inl ((Heap.pop?_eq_none_iff Entry.before f.queue).mp hpop)
  · next entry queue hpop =>
    refine .inr ⟨entry, queue, hpop, ?_⟩
    dsimp only at h
    split at h
    · cases h
    · split at h
      · cases h
      · split at h
        · next stop => exact stop
        · cases h

/-- The best destination is the one before or the node that is counted, which is a destination. -/
theorem bestWith_eq_some {destinations : CandidateSet α} {best : Option (Best α)}
    {entry : Entry α} {b : Best α} (hb : bestWith destinations best entry = some b) :
    best = some b ∨ ∃ c, destinations.get? entry.node = some c ∧
      b = ⟨entry.cost + c.cost, entry.node⟩ := by
  unfold bestWith at hb
  cases hc : destinations.get? entry.node with
  | none =>
    rw [hc] at hb
    exact .inl hb
  | some c =>
    rw [hc] at hb
    cases best with
    | none => exact .inr ⟨c, rfl, (Option.some.inj hb).symm⟩
    | some b' =>
      dsimp only at hb
      split at hb
      · exact .inr ⟨c, rfl, (Option.some.inj hb).symm⟩
      · exact .inl hb

/-- A property of states that is kept when an entry is taken, when its node is counted as a
destination, and when an edge of the network is followed. -/
structure Task.Keeps (task : Task α) (P : Frontier α → Prop) : Prop where
  pass : ∀ f entry queue, P f → f.queue.pop? Entry.before = some (entry, queue) →
    P { f with queue := queue }
  settle : ∀ f entry queue, P f → f.queue.pop? Entry.before = some (entry, queue) →
    P { f with queue := queue, best := bestWith task.destinations f.best entry }
  follow : ∀ f cost now, ∀ e ∈ task.network.edges, P f →
    P (f.follow task.costs task.person cost now e)

namespace Task.Keeps

variable {task : Task α} {P : Frontier α → Prop} {rule : StopRule α}

/-- A step keeps what its parts keep. -/
theorem step (keeps : task.Keeps P) {f g : Frontier α} (h : P f)
    (hstep : task.step? rule f = some g) : P g := by
  obtain ⟨entry, queue, hpop, ⟨-, rfl⟩ | ⟨label, -, -, -, rfl⟩⟩ := step?_eq_some hstep
  · exact keeps.pass f entry queue h hpop
  · refine List.foldlRecOn _ _ (keeps.settle f entry queue h hpop) fun g hg e he ↦ ?_
    exact keeps.follow g _ _ e (Network.mem_edges_of_mem_outEdges he) hg

/-- Any number of steps keep what the parts of a step keep. -/
theorem run (keeps : task.Keeps P) (steps : Nat) {f : Frontier α} (h : P f) :
    P (task.run rule steps f) := by
  induction steps generalizing f with
  | zero => exact h
  | succ steps ih =>
    rw [Task.run]
    cases hstep : task.step? rule f with
    | none => exact h
    | some g => exact ih (keeps.step h hstep)

end Task.Keeps

/-- What reaching the origins keeps holds before the first step. -/
theorem Frontier.start_keeps {P : Frontier α → Prop} {labels : Labels α}
    {origins : CandidateSet α} (blank : P ⟨labels, .empty, none⟩)
    (reach : ∀ f, ∀ c ∈ origins.toList, P f → P (f.reach c.node ⟨c.cost, c.time, none⟩)) :
    P (Frontier.start labels origins) :=
  List.foldlRecOn _ _ blank fun f hf c hc ↦ reach f c hc hf

end LeastCost

end DoorToDoor
