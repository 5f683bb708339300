import DoorToDoor.Proofs.Rounding
import DoorToDoor.Proofs.Search.Progress

/-!
# The work of a search

A node may wait in the queue many times, edges may lead in circles at no cost, and nothing marks a
node as done. Still a search expands no node twice, takes no more entries from the queue than there
are origins and edges, and traces a path back along fewer edges than there are nodes, whether or not
sums are rounded: `thrifty_search`. The nodes that have been expanded are the settled ones
(`Explored.run_expanded`), and each was reached from an origin or from a node settled before it.
-/

namespace DoorToDoor

variable {α : Type}

/-- The edges that are met one after the other when the node of each label is traced back, until a
node shows no edge. -/
inductive Labels.LeadsBack (labels : Labels α) : NodeId → List (Edge α) → Prop
  | stop {v : NodeId} (hvia : (labels.get? v).bind (·.via) = none) : labels.LeadsBack v []
  | back {v : NodeId} {e : Edge α} {way : List (Edge α)}
    (hvia : (labels.get? v).bind (·.via) = some e) (rest : labels.LeadsBack e.tail.id way) :
    labels.LeadsBack v (e :: way)

namespace LeastCost

private theorem edgesTo_of_leadsBack {labels : Labels α} {v : NodeId} {way : List (Edge α)}
    (h : labels.LeadsBack v way) {bound : Nat} (enough : way.length ≤ bound)
    (rest : List (Edge α)) : edgesTo labels bound v rest = way.reverse ++ rest := by
  induction h generalizing bound rest with
  | stop hvia =>
    cases bound with
    | zero => rfl
    | succ bound =>
      rw [edgesTo, hvia]
      rfl
  | @back v e way hvia _ ih =>
    cases bound with
    | zero => simp at enough
    | succ bound =>
      have hle : way.length ≤ bound := Nat.le_of_succ_le_succ enough
      rw [edgesTo, hvia, List.reverse_cons, List.append_assoc]
      exact ih hle (e :: rest)

variable [Scalar α]

/-- The node that the next entry of the queue expands. An entry above the label of its node expands
none. -/
def Frontier.due? (f : Frontier α) : Option NodeId :=
  match f.queue.pop? Entry.before with
  | none => none
  | some (entry, _) =>
    match f.labels.get? entry.node with
    | none => none
    | some label => if label.cost < entry.cost then none else some entry.node

/-- The nodes that are expanded within a number of steps, the first one last. -/
def Task.expanded (task : Task α) (rule : StopRule α) : Nat → Frontier α → List NodeId
  | 0, _ => []
  | steps + 1, f =>
    match task.step? rule f with
    | none => []
    | some g => task.expanded rule steps g ++ f.due?.toList

/-- How many entries are taken from the queue within a number of steps. The entry at which the rule
lets the search end is one of them. -/
def Task.taken (task : Task α) (rule : StopRule α) : Nat → Frontier α → Nat
  | 0, _ => 0
  | steps + 1, f =>
    match f.queue.pop? Entry.before with
    | none => 0
    | some _ =>
      match task.step? rule f with
      | none => 1
      | some g => task.taken rule steps g + 1

/-- The state before the first step of a search that uses the given labels again. -/
def Task.initial (task : Task α) (labels : Labels α) (origins : CandidateSet α) : Frontier α :=
  .start (labels.reset task.network.nodeCount) origins

/-- A search with a bounded amount of work. It comes to its end; in whatever number of steps it
expands no node twice and takes no more entries than there are origins and edges; and tracing back
from a labelled node meets fewer edges than there are nodes before it comes to a node without one,
so that the path to the best destination is traced back as a whole. -/
structure Thrifty (rule : StopRule α) (labels : Labels α) (task : Task α)
    (origins : CandidateSet α) : Prop where
  ends : task.step? rule (finalState rule labels task origins) = none
  once : ∀ steps, (task.expanded rule steps (task.initial labels origins)).Nodup
  taken_le : ∀ steps, task.taken rule steps (task.initial labels origins) ≤
    origins.size + task.network.edgeCount
  traced : ∀ steps v label,
    (task.run rule steps (task.initial labels origins)).labels.get? v = some label →
      ∃ way, (task.run rule steps (task.initial labels origins)).labels.LeadsBack v way ∧
        way.length + 1 ≤ task.network.nodeCount ∧
        edgesTo (task.run rule steps (task.initial labels origins)).labels
          task.network.nodeCount v [] = way.reverse

variable {task : Task α} {origins : CandidateSet α} {rule : StopRule α} {done : List NodeId}
  {f g : Frontier α}

/-- A step takes an entry and expands the node that is due. When none is due it does no more than
take the entry. -/
theorem due?_of_step? (hstep : task.step? rule f = some g) :
    ∃ entry queue, f.queue.pop? Entry.before = some (entry, queue) ∧
      ((f.due? = none ∧ ∀ label, f.labels.get? entry.node = some label →
          label.cost < entry.cost) ∧ g = { f with queue := queue } ∨
        ∃ label, f.due? = some entry.node ∧ f.labels.get? entry.node = some label ∧
          ¬label.cost < entry.cost ∧
          g = task.expand { f with queue := queue } entry label.time) := by
  obtain ⟨entry, queue, hpop, ⟨stale, hg⟩ | ⟨label, hlabel, fresh, -, hg⟩⟩ := step?_eq_some hstep
  · refine ⟨entry, queue, hpop, .inl ⟨⟨?_, stale⟩, hg⟩⟩
    cases hlabel : f.labels.get? entry.node with
    | none => simp only [Frontier.due?, hpop, hlabel]
    | some label => simp only [Frontier.due?, hpop, hlabel, if_pos (stale label hlabel)]
  · refine ⟨entry, queue, hpop, .inr ⟨label, ?_, hlabel, fresh, hg⟩⟩
    simp only [Frontier.due?, hpop, hlabel, if_neg fresh]

namespace Explored

private theorem exists_leadsBack_of_suffix (h : Explored task origins done f) {v : NodeId}
    {earlier : List NodeId} (hsuffix : v :: earlier <:+ done) :
    ∃ way, f.labels.LeadsBack v way ∧ way.length ≤ earlier.length := by
  -- Each edge leads to a node expanded before, so that ever fewer nodes are left.
  induction hn : earlier.length using Nat.strong_induction_on generalizing v earlier with
  | _ n ih =>
    subst hn
    obtain ⟨label, hlabel, -⟩ := h.expanded v (hsuffix.subset List.mem_cons_self)
    cases h.rooted v earlier hsuffix label hlabel with
    | origin => exact ⟨[], .stop (by rw [hlabel]; rfl), Nat.zero_le _⟩
    | @edge e l mem tail =>
      obtain ⟨later, before, rfl⟩ := List.append_of_mem tail
      have hsuffix' : e.tail.id :: before <:+ done :=
        ((List.suffix_append later _).trans (List.suffix_cons _ _)).trans hsuffix
      have hless : before.length < (later ++ e.tail.id :: before).length := by
        rw [List.length_append, List.length_cons]
        omega
      obtain ⟨way, hway, hle⟩ := ih before.length hless hsuffix' rfl
      exact ⟨e :: way, .back (by rw [hlabel]; rfl) hway, by rw [List.length_cons]; omega⟩

/-- Tracing back from a labelled node meets fewer edges than there are nodes. -/
theorem exists_leadsBack (h : Explored task origins done f) {v : NodeId} {label : Label α}
    (hlabel : f.labels.get? v = some label) :
    ∃ way, f.labels.LeadsBack v way ∧ way.length + 1 ≤ task.network.nodeCount := by
  have hin : v.index < task.network.nodeCount := h.size_slots ▸ Labels.lt_of_get? hlabel
  by_cases hv : v ∈ done
  · obtain ⟨later, earlier, rfl⟩ := List.append_of_mem hv
    obtain ⟨way, hway, hle⟩ := h.exists_leadsBack_of_suffix (List.suffix_append later _)
    have hcount := Network.length_le_nodeCount h.distinct h.inside
    rw [List.length_append, List.length_cons] at hcount
    exact ⟨way, hway, by omega⟩
  · have hcount := Network.length_le_nodeCount (List.nodup_cons.mpr ⟨hv, h.distinct⟩)
      (List.forall_mem_cons.mpr ⟨hin, h.inside⟩)
    rw [List.length_cons] at hcount
    cases h.grown v label hlabel with
    | origin => exact ⟨[], .stop (by rw [hlabel]; rfl), Nat.zero_lt_of_lt hin⟩
    | @edge e l mem tail =>
      obtain ⟨later, earlier, rfl⟩ := List.append_of_mem tail
      obtain ⟨way, hway, hle⟩ := h.exists_leadsBack_of_suffix (List.suffix_append later _)
      rw [List.length_append, List.length_cons] at hcount
      refine ⟨e :: way, .back (by rw [hlabel]; rfl) hway, ?_⟩
      rw [List.length_cons]
      omega

variable [MonotoneScalar α]

/-- The nodes that are expanded are settled one after the other. -/
theorem run_expanded (h : Explored task origins done f) (wf : task.network.WellFormed)
    (noRefunds : task.NoRefundsFrom origins) (rule : StopRule α) (steps : Nat) :
    Explored task origins (task.expanded rule steps f ++ done) (task.run rule steps f) := by
  induction steps generalizing done f with
  | zero => exact h
  | succ steps ih =>
    rw [Task.expanded, Task.run]
    cases hstep : task.step? rule f with
    | none => exact h
    | some g =>
      dsimp only
      rw [List.append_assoc]
      refine ih ?_
      obtain ⟨entry, queue, hpop, ⟨hdue, rfl⟩ | ⟨label, hdue, hlabel, fresh, rfl⟩⟩ :=
        due?_of_step? hstep
      · rw [hdue.1]
        exact (h.advances_pass hpop hdue.2).explored
      · rw [hdue]
        exact (h.advances_expand wf hpop noRefunds hlabel fresh).explored

/-- Each entry that is taken has been in the queue or was queued for an edge that leaves an expanded
node. -/
theorem taken_add_le (h : Explored task origins done f) (wf : task.network.WellFormed)
    (noRefunds : task.NoRefundsFrom origins) (rule : StopRule α) (steps : Nat) :
    task.taken rule steps f + task.outgoing done ≤
      f.queue.toList.length + task.network.edgeCount := by
  have houtgoing : task.outgoing done ≤ task.network.edgeCount :=
    wf.sum_outEdges_le h.distinct h.inside
  induction steps generalizing done f with
  | zero => rw [Task.taken]; omega
  | succ steps ih =>
    rw [Task.taken]
    cases hpop : f.queue.pop? Entry.before with
    | none =>
      dsimp only
      omega
    | some popped =>
      have hlength := (Heap.perm_pop? Entry.before h.whole hpop).length_eq
      rw [List.length_cons] at hlength
      dsimp only
      cases hstep : task.step? rule f with
      | none =>
        dsimp only
        omega
      | some g =>
        obtain ⟨done', hadvances⟩ := h.step wf noRefunds hstep
        have hrest := ih hadvances.explored
          (wf.sum_outEdges_le hadvances.explored.distinct hadvances.explored.inside)
        have hle := hadvances.length_le
        dsimp only
        omega

end Explored

/-- A search is thrifty if no edge costs less than nothing at the times of its labels. -/
theorem thrifty_of_noRefundsFrom [MonotoneScalar α] (rule : StopRule α) (labels : Labels α)
    (wf : task.network.WellFormed) (noRefunds : task.NoRefundsFrom origins) :
    Thrifty rule labels task origins := by
  have hinitial : task.initial labels origins =
      Frontier.start (.blank task.network.nodeCount) origins := by
    rw [Task.initial, Labels.reset_eq_blank]
  obtain ⟨hstart, hle⟩ := Explored.start task origins
  rw [← hinitial] at hstart hle
  have hrun := hstart.run_expanded wf noRefunds rule
  constructor
  case ends =>
    obtain ⟨-, -, hended⟩ := explored_finalState rule labels wf noRefunds
    exact hended
  case once =>
    exact fun steps ↦ List.append_nil (task.expanded rule steps _) ▸ (hrun steps).distinct
  case taken_le =>
    intro steps
    have htaken := hstart.taken_add_le wf noRefunds rule steps
    omega
  case traced =>
    intro steps v label hlabel
    obtain ⟨way, hway, hless⟩ := (hrun steps).exists_leadsBack hlabel
    refine ⟨way, hway, hless, ?_⟩
    rw [edgesTo_of_leadsBack hway (by omega), List.append_nil]

/-- If no edge that can be used costs less than nothing, a search expands each node at most once,
takes no more entries from the queue than there are origins and edges, and traces paths back along
fewer edges than there are nodes. -/
theorem thrifty_search [MonotoneScalar α] (rule : StopRule α) (labels : Labels α)
    (wf : task.network.WellFormed) (noRefunds : task.NoRefunds) (origins : CandidateSet α) :
    Thrifty rule labels task origins :=
  thrifty_of_noRefundsFrom rule labels wf (noRefunds.noRefundsFrom origins)

/-- A search that comes to its end by itself, not because it is cut off: it is thrifty, and it
enters edges only at times at which whatever is asked for then comes to its end. -/
structure Terminates (ends : α → Prop) (labels : Labels α) (task : Task α)
    (origins : CandidateSet α) : Prop where
  thrifty : Thrifty stopAtBest labels task origins
  asks : ∀ steps v label,
    (task.run stopAtBest steps (task.initial labels origins)).labels.get? v = some label →
      ends label.time

/-- A search comes to its end by itself if no edge costs less than nothing at the times of its
labels, and if whatever is asked for then comes to its end. -/
theorem terminates_of_noRefundsFrom [MonotoneScalar α] {ends : α → Prop} (labels : Labels α)
    (wf : task.network.WellFormed) (noRefunds : task.NoRefundsFrom origins)
    (asks : ∀ done f, Explored task origins done f → ∀ v label, f.labels.get? v = some label →
      ends label.time) : Terminates ends labels task origins where
  thrifty := thrifty_of_noRefundsFrom stopAtBest labels wf noRefunds
  asks steps := by
    rw [Task.initial, Labels.reset_eq_blank]
    exact asks _ _
      ((Explored.start task origins).1.run_expanded wf noRefunds stopAtBest steps)

/-- A node of which nothing matters but its number. -/
def circleNode (number : Nat) : Node Float := { (default : Node Float) with id := ⟨number⟩ }

/-- The edge that leaves one of the two nodes of the circle for the other one, at no cost. -/
def circleEdge (tail : Nat) : Edge Float :=
  ⟨⟨tail⟩, circleNode tail, circleNode (1 - tail), 0, .transfer⟩

/-- The search along two edges that lead in a circle at no cost. -/
def circleTask : Task Float where
  network := ⟨#[circleNode 0, circleNode 1], #[circleEdge 0, circleEdge 1], #[0, 1, 2]⟩
  costs := ⟨fun _ _ _ ↦ 0, fun _ e _ ↦ e.length, fun _ _ _ ↦ 0⟩
  person := ⟨⟨0⟩⟩
  destinations := .ofList [⟨⟨1⟩, 0, 0⟩]

private theorem eq_of_mem_circle {e : Edge Float} (he : e ∈ circleTask.network.edges) :
    e = circleEdge 0 ∨ e = circleEdge 1 := by simpa [circleTask] using he

private theorem wellFormed_circle : circleTask.network.WellFormed where
  numbered i node h := by
    rcases i with _ | _ | i
    · cases h; rfl
    · cases h; rfl
    · simp [circleTask] at h
  node?_tail e he := by rcases eq_of_mem_circle he with rfl | rfl <;> rfl
  node?_head e he := by rcases eq_of_mem_circle he with rfl | rfl <;> rfl
  offset_zero := rfl
  offset_le v hv := by
    rcases v with _ | _ | v
    · decide
    · decide
    · simp [circleTask, Network.nodeCount] at hv
  offset_nodeCount := rfl
  placed i e h := by
    rcases i with _ | _ | i
    · cases h; decide
    · cases h; decide
    · simp [circleTask] at h

/-- A search that nothing but the empty queue ends comes to its end in the circle. -/
theorem thrifty_search_circle : circleTask.network.WellFormed ∧ circleTask.NoRefunds ∧
    Thrifty neverStop .empty circleTask (.ofList [⟨⟨0⟩, 0, 0⟩]) := by
  have hzero : Scalar.zero ≤ (0 : Float) := by decide +kernel
  have noRefunds : circleTask.NoRefunds := by
    intro e he now _
    rcases eq_of_mem_circle he with rfl | rfl <;> exact hzero
  exact ⟨wellFormed_circle, noRefunds,
    thrifty_search neverStop .empty wellFormed_circle noRefunds _⟩

end LeastCost

end DoorToDoor
