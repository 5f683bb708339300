import DoorToDoor.Proofs.Exact
import DoorToDoor.Proofs.Search.Trace

/-!
# Searches at a later time

When edges cost and take the same after a span of time (`Task.Repeats`), a search whose candidates
are reached that much later goes through the same states, with all labels that much later: its step
from a later state is the step from the state itself, later (`step?_later`). So it finds the same
path: `searchWith_later`.
-/

namespace DoorToDoor

section

variable {α : Type} [Scalar α]

/-- The same candidate, reached later by a span of time. -/
def Candidate.later (span : α) (c : Candidate α) : Candidate α := { c with time := c.time + span }

/-- The same label, later by a span of time. -/
def Label.later (span : α) (l : Label α) : Label α := { l with time := l.time + span }

/-- Whether a set lists the candidates of another one in their order, each later by a span of
time. -/
def CandidateSet.Later (span : α) (s s' : CandidateSet α) : Prop :=
  s'.toList = s.toList.map (Candidate.later span)

/-- The labels of all nodes, later by a span of time. -/
def Labels.later (span : α) (l : Labels α) : Labels α where
  slots := l.slots.map (Option.map (Label.later span))
  touched := l.touched
  covered := by
    intro id label h
    rw [Array.getElem?_map] at h
    obtain ⟨slot, hslot, hlater⟩ := Option.map_eq_some_iff.mp h
    obtain ⟨label', rfl, -⟩ := Option.map_eq_some_iff.mp hlater
    exact l.covered id label' hslot

namespace CandidateSet.Later

variable {span : α} {s s' : CandidateSet α}

/-- No candidates are never reached later. -/
theorem empty : Later span (CandidateSet.empty : CandidateSet α) .empty := rfl

private theorem size_eq (h : Later span s s') : s'.size = s.size := by
  rw [← length_toList, ← length_toList, h, List.length_map]

/-- The candidate of a later set at a node is the later one. -/
theorem get?_eq (h : Later span s s') (node : NodeId) :
    s'.get? node = (s.get? node).map (Candidate.later span) := by
  refine Option.ext fun c' ↦ ?_
  rw [get?_eq_some_iff, h, List.mem_map, Option.map_eq_some_iff]
  constructor
  · rintro ⟨⟨c, hc, rfl⟩, hnode⟩
    exact ⟨c, (s.get?_eq_some_iff node c).mpr ⟨hc, hnode⟩, rfl⟩
  · rintro ⟨c, hc, rfl⟩
    obtain ⟨hmem, hnode⟩ := (s.get?_eq_some_iff node c).mp hc
    exact ⟨⟨c, hmem, rfl⟩, hnode⟩

/-- Adding a candidate and the later one keeps a set later. -/
theorem insert (h : Later span s s') (c : Candidate α) :
    Later span (s.insert c) (s'.insert (c.later span)) := by
  have hget : s'.get? (c.later span).node = (s.get? c.node).map (Candidate.later span) :=
    h.get?_eq c.node
  unfold Later at h ⊢
  cases hs : s.get? c.node with
  | none =>
    rw [hs, Option.map_none] at hget
    rw [toList_insert_of_get?_eq_none _ hget, toList_insert_of_get?_eq_none _ hs, h,
      List.map_append, List.map_singleton]
  | some u =>
    rw [hs, Option.map_some] at hget
    rw [toList_insert_of_get?_eq_some _ hget, toList_insert_of_get?_eq_some _ hs, h,
      List.map_map, List.map_map]
    refine List.map_congr_left fun c' _ ↦ ?_
    exact (apply_ite (Candidate.later span) _ c c').symm

end CandidateSet.Later

namespace Labels

variable (span : α) (l : Labels α)

private theorem get?_later (id : NodeId) :
    (l.later span).get? id = (l.get? id).map (Label.later span) := by
  rw [get?, get?, later, Array.getElem?_map]
  cases l.slots[id.index]? with
  | none => rfl
  | some slot => rfl

private theorem improves_later (id : NodeId) (cost : α) :
    (l.later span).improves id cost = l.improves id cost := by
  rw [improves, improves, later, Array.getElem?_map]
  match l.slots[id.index]? with
  | none => rfl
  | some none => rfl
  | some (some label) => rfl

private theorem set_later (id : NodeId) (label : Label α) :
    (l.later span).set id (label.later span) = (l.set id label).later span := by
  simp only [set, get?_later, Option.isNone_map]
  simp only [later, Array.map_setIfInBounds, Option.map_some]

private theorem blank_later (nodeCount : Nat) :
    (blank nodeCount : Labels α).later span = blank nodeCount := by
  simp only [blank, later, Array.map_replicate, Option.map_none]

/-- Whether all labels show times of a clock. -/
def Show (clock : α → Prop) (l : Labels α) : Prop :=
  ∀ id label, l.get? id = some label → clock label.time

end Labels

end

namespace LeastCost

/-- The same state of a search, with all labels later by a span of time. -/
def Frontier.later {α : Type} [Scalar α] (span : α) (f : Frontier α) : Frontier α :=
  { f with labels := f.labels.later span }

/-- Whether the edges of a task cost and take the same after a span of time, if a clock shows the
time at which they are entered, and keep the clock. -/
structure Task.Repeats (task : Task EReal) (span : EReal) (clock : EReal → Prop) : Prop where
  charge : ∀ e ∈ task.network.edges, ∀ now, clock now →
    task.charge e (now + span) = task.charge e now
  travelTime : ∀ e ∈ task.network.edges, ∀ now, clock now →
    task.costs.travelTime task.person e (now + span) = task.costs.travelTime task.person e now
  runs : ∀ e ∈ task.network.edges, ∀ now, clock now →
    clock (now + task.costs.travelTime task.person e now)

section

variable {α : Type} [Scalar α] (span : α) {clock : α → Prop} {f : Frontier α}

private theorem reach_later (f : Frontier α) (v : NodeId) (label : Label α) :
    (f.later span).reach v (label.later span) = (f.reach v label).later span := by
  unfold Frontier.reach
  have himproves : (f.later span).labels.improves v (label.later span).cost =
      f.labels.improves v label.cost := f.labels.improves_later span v label.cost
  rw [himproves]
  split
  · exact congrArg (fun labels ↦ Frontier.mk labels _ _) (f.labels.set_later span v label)
  · rfl

private theorem bestWith_later {destinations destinations' : CandidateSet α}
    (h : destinations.Later span destinations') (best : Option (Best α)) (entry : Entry α) :
    bestWith destinations' best entry = bestWith destinations best entry := by
  rw [bestWith, bestWith, h.get?_eq]
  cases destinations.get? entry.node with
  | none => rfl
  | some c => rfl

/-- A search from later origins starts in the later state. -/
theorem start_later {origins origins' : CandidateSet α} (h : origins.Later span origins')
    (nodeCount : Nat) :
    Frontier.start (.blank nodeCount) origins' =
      (Frontier.start (.blank nodeCount) origins).later span := by
  have hblank : (⟨.blank nodeCount, .empty, none⟩ : Frontier α) =
      Frontier.later span ⟨.blank nodeCount, .empty, none⟩ := by
    rw [Frontier.later, Labels.blank_later]
  rw [Frontier.start, Frontier.start, h, List.foldl_map]
  conv_lhs => rw [hblank]
  refine List.foldl_hom (Frontier.later span) fun f c ↦ ?_
  exact reach_later span f c.node ⟨c.cost, c.time, none⟩

variable {span}

private theorem show_reach (h : f.labels.Show clock) (v : NodeId) {label : Label α}
    (hlabel : clock label.time) : (f.reach v label).labels.Show clock := by
  intro u l hl
  rw [get?_reach] at hl
  split at hl
  · cases hl
    exact hlabel
  · exact h u l hl

private theorem show_start {origins : CandidateSet α} (departs : ∀ c ∈ origins.toList, clock c.time)
    (nodeCount : Nat) : (Frontier.start (.blank nodeCount) origins).labels.Show clock := by
  refine Frontier.start_keeps (P := fun f ↦ f.labels.Show clock) (fun v label h ↦ ?_) ?_
  · rw [Labels.get?_blank] at h
    cases h
  · exact fun f c hc hf ↦ show_reach hf c.node (departs c hc)

end

namespace Task.Repeats

variable {task : Task EReal} {span : EReal} {clock : EReal → Prop} {f : Frontier EReal}
  {now : EReal}

section

variable (repeats : task.Repeats span clock) (hnow : clock now)

include repeats hnow

private theorem follow_later (f : Frontier EReal) (cost : EReal) {e : Edge EReal}
    (he : e ∈ task.network.edges) :
    (f.later span).follow task.costs task.person cost (now + span) e =
      (f.follow task.costs task.person cost now e).later span := by
  rw [follow_eq, follow_eq, repeats.charge e he now hnow, repeats.travelTime e he now hnow]
  split
  · rw [add_right_comm]
    exact reach_later span f e.head.id ⟨_, _, some e⟩
  · rfl

private theorem show_follow (h : f.labels.Show clock) (cost : EReal) {e : Edge EReal}
    (he : e ∈ task.network.edges) :
    (f.follow task.costs task.person cost now e).labels.Show clock := by
  rw [follow_eq]
  split
  · exact show_reach h e.head.id (repeats.runs e he now hnow)
  · exact h

private theorem expand_later {destinations' : CandidateSet EReal}
    (later : task.destinations.Later span destinations') (f : Frontier EReal)
    (entry : Entry EReal) :
    { task with destinations := destinations' }.expand (f.later span) entry (now + span) =
      (task.expand f entry now).later span := by
  have hfold : ∀ es : List (Edge EReal), (∀ e ∈ es, e ∈ task.network.edges) →
      ∀ g : Frontier EReal,
        es.foldl (fun f e ↦ f.follow task.costs task.person entry.cost (now + span) e)
            (g.later span) =
          (es.foldl (fun f e ↦ f.follow task.costs task.person entry.cost now e) g).later span := by
    intro es hes g
    induction es generalizing g with
    | nil => rfl
    | cons e rest ih =>
      obtain ⟨he, hrest⟩ := List.forall_mem_cons.mp hes
      rw [List.foldl_cons, List.foldl_cons, repeats.follow_later hnow g _ he, ih hrest]
  unfold Task.expand
  dsimp only
  rw [bestWith_later span later]
  exact hfold (task.network.outEdges entry.node) (fun e he ↦ Network.mem_edges_of_mem_outEdges he)
    { f with best := bestWith task.destinations f.best entry }

private theorem show_expand (h : f.labels.Show clock) (entry : Entry EReal) :
    (task.expand f entry now).labels.Show clock :=
  List.foldlRecOn (motive := fun f : Frontier EReal ↦ f.labels.Show clock) _ _ h fun _ hg _ he ↦
    repeats.show_follow hnow hg _ (Network.mem_edges_of_mem_outEdges he)

end

variable (repeats : task.Repeats span clock)

include repeats

/-- The step from a later state is the step from the state itself, later. -/
theorem step?_later {destinations' : CandidateSet EReal}
    (later : task.destinations.Later span destinations') (rule : StopRule EReal)
    (h : f.labels.Show clock) :
    { task with destinations := destinations' }.step? rule (f.later span) =
      (task.step? rule f).map (Frontier.later span) := by
  have hqueue : (f.later span).queue = f.queue := rfl
  unfold Task.step?
  rw [hqueue]
  cases f.queue.pop? Entry.before with
  | none => rfl
  | some next =>
    obtain ⟨entry, queue⟩ := next
    have hget : (f.later span).labels.get? entry.node =
        (f.labels.get? entry.node).map (Label.later span) := f.labels.get?_later span entry.node
    dsimp only
    rw [hget]
    cases hlabel : f.labels.get? entry.node with
    | none => rfl
    | some label =>
      have hexpand := repeats.expand_later (h entry.node label hlabel) later
        { f with queue := queue } entry
      have hcost : (label.later span).cost = label.cost := rfl
      have hbest : (f.later span).best = f.best := rfl
      dsimp only [Option.map_some]
      rw [hcost, hbest]
      split
      · rfl
      · split
        · rfl
        · exact congrArg some hexpand

/-- A step keeps the clock that the labels show. -/
theorem show_step {rule : StopRule EReal} {g : Frontier EReal} (h : f.labels.Show clock)
    (hstep : task.step? rule f = some g) : g.labels.Show clock := by
  obtain ⟨entry, queue, -, ⟨-, rfl⟩ | ⟨label, hlabel, -, -, rfl⟩⟩ := step?_eq_some hstep
  · exact h
  · exact repeats.show_expand (f := { f with queue := queue }) (h entry.node label hlabel) h entry

/-- A search that starts in the later state runs into the later one. -/
theorem run_later {destinations' : CandidateSet EReal}
    (later : task.destinations.Later span destinations') (rule : StopRule EReal) (steps : ℕ)
    (h : f.labels.Show clock) :
    { task with destinations := destinations' }.run rule steps (f.later span) =
      (task.run rule steps f).later span := by
  induction steps generalizing f with
  | zero => rfl
  | succ steps ih =>
    rw [Task.run, Task.run, repeats.step?_later later rule h]
    cases hstep : task.step? rule f with
    | none => rfl
    | some g => exact ih (repeats.show_step h hstep)

end Task.Repeats

private theorem edgesTo_later {α : Type} [Scalar α] (span : α) (labels : Labels α) (bound : Nat)
    (node : NodeId) (rest : List (Edge α)) :
    edgesTo (labels.later span) bound node rest = edgesTo labels bound node rest := by
  refine edgesTo_congr (P := fun _ ↦ True) (fun _ _ _ _ _ ↦ trivial) (fun v _ ↦ ?_) bound trivial
    rest
  rw [Labels.get?_later, Option.bind_map]
  rfl

/-- The path to a destination is the same when all labels and origins are later. -/
theorem pathTo_later {span : EReal} (hspan : Scalar.isFinite span = true)
    {origins origins' : CandidateSet EReal} (later : origins.Later span origins')
    (network : Network EReal) (labels : Labels EReal) (best : Best EReal) :
    pathTo network (labels.later span) origins' best = pathTo network labels origins best := by
  have halong (edges : List (Edge EReal)) (last : Node EReal) (label : Label EReal) :
      pathAlong origins' edges last (label.later span) = pathAlong origins edges last label := by
    unfold pathAlong
    dsimp only
    rw [later.get?_eq, Option.map_map]
    refine congrArg (Option.map · _) (funext fun origin ↦ ?_)
    simp only [Function.comp_apply, Label.later, Candidate.later,
      Scalar.add_sub_add_of_isFinite hspan]
  simp only [pathTo, Labels.get?_later, edgesTo_later, Option.bind_eq_bind, Option.bind_map,
    Function.comp_def, halong]

/-- When edges cost and take the same after a span of time, a search whose candidates are reached
that much later finds the same path. -/
theorem searchWith_later {task : Task EReal} {span : EReal} {clock : EReal → Prop}
    (repeats : task.Repeats span clock) (hspan : Scalar.isFinite span = true)
    {origins origins' destinations' : CandidateSet EReal} (later : origins.Later span origins')
    (destinations_later : task.destinations.Later span destinations')
    (departs : ∀ c ∈ origins.toList, clock c.time) (rule : StopRule EReal)
    (labels labels' : Labels EReal) :
    (searchWith rule labels' { task with destinations := destinations' } origins').1 =
      (searchWith rule labels task origins).1 := by
  have hpath (f : Frontier EReal) :
      (f.later span).best.bind (pathTo task.network (f.later span).labels origins') =
        f.best.bind (pathTo task.network f.labels origins) :=
    congrArg (Option.bind f.best) (funext fun best ↦
      pathTo_later hspan later task.network f.labels best)
  have hfinal : finalState rule labels' { task with destinations := destinations' } origins' =
      (finalState rule labels task origins).later span := by
    have hbound : { task with destinations := destinations' }.stepBound origins' =
        task.stepBound origins := by rw [Task.stepBound, Task.stepBound, later.size_eq]
    rw [finalState, finalState, Labels.reset_eq_blank, Labels.reset_eq_blank, hbound,
      start_later span later]
    exact repeats.run_later destinations_later rule _ (show_start departs _)
  unfold searchWith
  dsimp only
  rw [hfinal]
  exact hpath (finalState rule labels task origins)

end LeastCost

end DoorToDoor
