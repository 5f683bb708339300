import DoorToDoor.Proofs.Search.Replay

/-!
# Reachable destinations

When a destination can be reached, a search finds a path: `exists_path_of_usable`, and in exact
arithmetic `exists_path_of_isWalk`. The search cannot end before a destination on the walk has been
expanded, and tracing back from an expanded node ends at an origin, because each label was derived
from a node that had been expanded earlier.
-/

namespace DoorToDoor.LeastCost

section

variable {α : Type} [Scalar α] {task : Task α} {origins : CandidateSet α} {done : List NodeId}
  {f : Frontier α} {es : List (Edge α)} {a b : NodeId}

namespace Explored

/-- There is a path to the best destination. -/
theorem exists_pathTo (h : Explored task origins done f) (wf : task.network.WellFormed)
    {best : Best α} (hbest : f.best = some best) :
    ∃ path, pathTo task.network f.labels origins best = some path := by
  obtain ⟨hdone, label, -, hlabel, -⟩ := h.best_eq best hbest
  have hin := h.inside _ hdone
  obtain ⟨last, hlast⟩ : ∃ last, task.network.node? best.node = some last :=
    ⟨_, Array.getElem?_eq_getElem hin⟩
  have hid : last.id = best.node := wf.id_eq_of_node? hlast
  obtain ⟨origin, hmem, way, walk, -, htrace⟩ := h.exists_replay hdone hlabel
  have horigin : origins.get? origin.node = some origin :=
    (origins.get?_eq_some_iff _ _).mpr ⟨hmem, rfl⟩
  rw [← hid] at walk
  simp only [pathTo, pathAlong, hlast, hlabel, htrace, Option.bind_eq_bind, Option.bind_some,
    head_id_of_isWalk walk, horigin, Option.map_some, Option.some.injEq, exists_eq']

private theorem clock_of_get? (h : Explored task origins done f) {clock : α → Prop}
    (departs : ∀ c ∈ origins.toList, clock c.time)
    (runs : ∀ e ∈ task.network.edges, ∀ now, clock now →
      clock (now + task.costs.travelTime task.person e now)) {v : NodeId} {label : Label α}
    (hlabel : f.labels.get? v = some label) : clock label.time := by
  cases h.grown v label hlabel with
  | origin hc => exact departs _ ((origins.get?_eq_some_iff _ _).mp hc).1
  | edge mem tail hl =>
    obtain ⟨c, hc, way, walk, hreplay, -⟩ := h.exists_replay tail hl
    have hend := along_keeps (P := fun a ↦ clock a.time) (fun e he a ha ↦ runs e he a.time ha)
      walk.mem_edges (a := c.arrival) (departs c hc)
    rw [hreplay] at hend
    exact runs _ mem _ hend

variable (h : Explored task origins done f) (wf : task.network.WellFormed)
  (usable : ∀ e ∈ es, e.tail.id ∈ done → ∀ label, f.labels.get? e.tail.id = some label →
    Scalar.isFinite (task.charge e label.time) = true ∧
      label.cost + task.charge e label.time < Scalar.infinity)

include h wf usable

private theorem expanded_or_waits (walk : task.network.IsWalk a es b) {label : Label α}
    (start : f.labels.get? a = some label) : b ∈ done ∨ f.queue.toList ≠ [] := by
  -- As long as its nodes have been expanded the walk is followed; the first other node waits.
  induction es generalizing a label with
  | nil =>
    obtain ⟨rfl, -⟩ := walk
    by_cases ha : a ∈ done
    · exact .inl ha
    · exact .inr (List.ne_nil_of_mem (h.awaited a label start ha))
  | cons e rest ih =>
    obtain ⟨hmem, rfl, hrest⟩ := walk
    by_cases ha : e.tail.id ∈ done
    · have hout : e ∈ task.network.outEdges e.tail.id :=
        (wf.mem_outEdges_iff (wf.tail_lt hmem) e).mpr ⟨hmem, rfl⟩
      obtain ⟨hfinite, hlt⟩ := usable e List.mem_cons_self ha label start
      obtain ⟨label', hlabel', -⟩ := h.followed _ ha label start e hout hfinite hlt
      exact ih (fun e' he' ↦ usable e' (List.mem_cons_of_mem e he')) hrest hlabel'
    · exact .inr (List.ne_nil_of_mem (h.awaited _ label start ha))

/-- A search that has ended has a best destination if a walk leads from an origin to one along edges
that can be used at the labels of expanded nodes. -/
theorem exists_best (ended : task.step? stopAtBest f = none) {s c : Candidate α}
    (hs : s ∈ origins.toList) (hlt : s.cost < Scalar.infinity) (hc : c ∈ task.destinations.toList)
    (walk : task.network.IsWalk s.node es c.node) : ∃ best, f.best = some best := by
  obtain ⟨label, hlabel, -⟩ := h.departed s hs (wf.lt_of_isWalk walk) hlt
  rcases h.expanded_or_waits wf usable walk hlabel with hdone | hwaits
  · obtain ⟨label, hlabel, -⟩ := h.expanded c.node hdone
    have hget := (task.destinations.get?_eq_some_iff c.node c).mpr ⟨hc, rfl⟩
    obtain ⟨best, hbest, -⟩ := h.best_le c.node hdone label hlabel c hget
    exact ⟨best, hbest⟩
  · rcases step?_eq_none ended with hempty | ⟨entry, queue, -, hstop⟩
    · exact absurd hempty hwaits
    · cases hbest : f.best with
      | none =>
        rw [hbest] at hstop
        cases hstop
      | some best => exact ⟨best, rfl⟩

end Explored

/-- A search finds a path if a walk leads from an origin to a destination along edges that can be
used at the labels of expanded nodes. -/
theorem exists_path_of_usable [MonotoneScalar α] (labels : Labels α) (wf : task.network.WellFormed)
    (noRefunds : task.NoRefundsFrom origins) {s c : Candidate α} (hs : s ∈ origins.toList)
    (hlt : s.cost < Scalar.infinity) (hc : c ∈ task.destinations.toList)
    (walk : task.network.IsWalk s.node es c.node)
    (usable : ∀ done f, Explored task origins done f → ∀ e ∈ es, e.tail.id ∈ done →
      ∀ label, f.labels.get? e.tail.id = some label →
        Scalar.isFinite (task.charge e label.time) = true ∧
          label.cost + task.charge e label.time < Scalar.infinity) :
    ∃ path, (search labels task origins).1 = some path := by
  obtain ⟨done, hexplored, hended⟩ := explored_finalState stopAtBest labels wf noRefunds
  obtain ⟨best, hbest⟩ :=
    hexplored.exists_best wf (usable done _ hexplored) hended hs hlt hc walk
  obtain ⟨path, hpath⟩ := hexplored.exists_pathTo wf hbest
  exact ⟨path, Option.bind_eq_some_iff.mpr ⟨best, hbest, hpath⟩⟩

end

variable {task : Task EReal} {origins : CandidateSet EReal} {done : List NodeId}
  {f : Frontier EReal} {es : List (Edge EReal)}

/-- In exact arithmetic no sum of a label and the cost of a usable edge overflows. -/
theorem Explored.add_charge_lt_top (h : Explored task origins done f) {v : NodeId}
    {label : Label EReal} (hlabel : f.labels.get? v = some label) {e : Edge EReal}
    (usable : Scalar.isFinite (task.charge e label.time) = true) :
    label.cost + task.charge e label.time < ⊤ :=
  EReal.add_lt_top (h.label_lt v label hlabel).ne (Scalar.isFinite_exact.mp usable).2

/-- A search finds a path if a walk leads from an origin to a destination along edges that can be
used whenever a clock shows the time, provided that the clock shows the times of the origins and is
kept by every edge. -/
theorem exists_path_of_isWalk (labels : Labels EReal) (wf : task.network.WellFormed)
    (nonNegative : task.NonNegative) (clock : EReal → Prop)
    (departs : ∀ c ∈ origins.toList, clock c.time)
    (runs : ∀ e ∈ task.network.edges, ∀ now, clock now →
      clock (now + task.costs.travelTime task.person e now))
    {s c : Candidate EReal} (hs : s ∈ origins.toList)
    (hfinite : s.cost < ⊤) (hc : c ∈ task.destinations.toList)
    (walk : task.network.IsWalk s.node es c.node)
    (usable : ∀ e ∈ es, ∀ now, clock now → Scalar.isFinite (task.charge e now) = true) :
    ∃ path, (search labels task origins).1 = some path := by
  refine exists_path_of_usable labels wf (nonNegative.noRefundsFrom origins) hs hfinite hc walk
    fun done f h e he _ label hlabel ↦ ?_
  have hcharge := usable e he label.time (h.clock_of_get? departs runs hlabel)
  exact ⟨hcharge, h.add_charge_lt_top hlabel hcharge⟩

end DoorToDoor.LeastCost
