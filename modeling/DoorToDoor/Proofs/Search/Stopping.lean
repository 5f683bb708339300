import DoorToDoor.Proofs.Search.Paths
import DoorToDoor.Proofs.Search.Settled

/-!
# Searches that end early

A search ends once the next node costs at least as much as the best destination. Going on until
nothing is left would find the same path: `search_eq_neverStop`. The steps that are left out neither
change the best destination, because whatever they come to costs no less, nor the labels from which
its path is traced back, because these are labels of settled nodes. This holds whether or not sums
are rounded, and whatever candidates and edges tie. What ending early spares is the nodes that cost
more than the best destination: `atMostBest_finalState`.
-/

namespace DoorToDoor.LeastCost

variable {α : Type} [Scalar α] {task : Task α} {origins : CandidateSet α} {done : List NodeId}
  {f g : Frontier α} {rule : StopRule α}

private theorem step?_neverStop_eq_some (h : task.step? rule f = some g) :
    task.step? neverStop f = some g := by
  unfold Task.step? at h ⊢
  split
  · next hpop =>
    rw [hpop] at h
    cases h
  · next entry queue hpop =>
    rw [hpop] at h
    dsimp only at h ⊢
    split
    · next hlabel =>
      rw [hlabel] at h
      exact h
    · next label hlabel =>
      rw [hlabel] at h
      dsimp only at h
      split
      · next stale => rwa [if_pos stale] at h
      · next fresh =>
        rw [if_neg fresh] at h
        split at h
        · cases h
        · exact h

/-- A search that never ends early comes to where another one ends and goes on from there. -/
theorem exists_run_neverStop (rule : StopRule α) (steps : Nat) (f : Frontier α) :
    ∃ more, task.run neverStop steps f = task.run neverStop more (task.run rule steps f) := by
  induction steps generalizing f with
  | zero => exact ⟨0, rfl⟩
  | succ steps ih =>
    cases hstep : task.step? rule f with
    | none =>
      have hend : task.run rule (steps + 1) f = f := by rw [Task.run, hstep]
      exact ⟨steps + 1, by rw [hend]⟩
    | some g =>
      obtain ⟨more, hmore⟩ := ih g
      refine ⟨more, ?_⟩
      rw [Task.run, step?_neverStop_eq_some hstep, Task.run, hstep]
      exact hmore

private theorem run_eq_self (h : f.queue.toList = []) (steps : Nat) :
    task.run rule steps f = f := by
  have hstep : task.step? rule f = none := by
    rw [Task.step?, (Heap.pop?_eq_none_iff Entry.before f.queue).mpr h]
  cases steps with
  | zero => rfl
  | succ steps => rw [Task.run, hstep]

/-- No destination costs less than nothing or more than a number. -/
def Task.NoRewards (task : Task α) : Prop :=
  ∀ c ∈ task.destinations.toList, Scalar.isFinite c.cost = true ∧ Scalar.zero ≤ c.cost

section

variable [MonotoneScalar α]

open MonotoneScalar

/-- A node that costs no less than the best destination does not become the best one. -/
theorem Task.NoRewards.bestWith_eq (noRewards : task.NoRewards) {b : Best α} {entry : Entry α}
    (hentry : entry.cost < Scalar.infinity) (hle : b.total ≤ entry.cost) :
    bestWith task.destinations (some b) entry = some b := by
  unfold bestWith
  cases hc : task.destinations.get? entry.node with
  | none => rfl
  | some c =>
    obtain ⟨hfinite, hnonneg⟩ := noRewards c ((task.destinations.get?_eq_some_iff _ c).mp hc).1
    have htotal : b.total ≤ entry.cost + c.cost := le_trans hle (le_add hentry hfinite hnonneg)
    dsimp only
    rw [if_neg (not_lt_of_le htotal)]

/-- When whatever waits costs no less than the best destination, going on changes neither it nor the
labels of settled nodes. -/
theorem Explored.run_keeps (h : Explored task origins done f) (wf : task.network.WellFormed)
    (noRefunds : task.NoRefunds) (noRewards : task.NoRewards) {b : Best α} (hbest : f.best = some b)
    (waiting : ∀ x ∈ f.queue.toList, b.total ≤ x.cost) (rule : StopRule α) (steps : Nat) :
    (task.run rule steps f).best = some b ∧
      ∀ v ∈ done, (task.run rule steps f).labels.get? v = f.labels.get? v := by
  induction steps generalizing done f with
  | zero => exact ⟨hbest, fun _ _ ↦ rfl⟩
  | succ steps ih =>
    rw [Task.run]
    cases hstep : task.step? rule f with
    | none => exact ⟨hbest, fun _ _ ↦ rfl⟩
    | some g =>
      obtain ⟨done', hadvances⟩ := h.step wf (noRefunds.noRefundsFrom origins) hstep
      have hbest' : g.best = some b := by
        rcases hadvances.best with heq | ⟨entry, hentry, heq⟩
        · rw [heq, hbest]
        · rw [heq, hbest, noRewards.bestWith_eq (h.entry_lt entry hentry) (waiting entry hentry)]
      have hwaiting : ∀ x ∈ g.queue.toList, b.total ≤ x.cost := by
        intro x hx
        obtain ⟨y, hy, hle⟩ := hadvances.entries x hx
        exact le_trans (waiting y hy) hle
      obtain ⟨hend, hkeeps⟩ := ih hadvances.explored hbest' hwaiting
      exact ⟨hend, fun v hv ↦ (hkeeps v (hadvances.subset hv)).trans (hadvances.keeps v hv)⟩

/-- At the end of a search that may end at its best destination, nothing waits, or there is a best
destination and whatever waits costs no less. -/
theorem Explored.empty_or_waiting (h : Explored task origins done f)
    (ended : task.step? stopAtBest f = none) : f.queue.toList = [] ∨
      ∃ b, f.best = some b ∧ ∀ x ∈ f.queue.toList, b.total ≤ x.cost := by
  rcases step?_eq_none ended with hempty | ⟨entry, queue, hpop, hstop⟩
  · exact .inl hempty
  · refine .inr ?_
    obtain ⟨hentry, hrest⟩ := h.of_pop? hpop
    cases hbest : f.best with
    | none =>
      rw [hbest] at hstop
      cases hstop
    | some b =>
      rw [hbest] at hstop
      have hle : b.total ≤ entry.cost := of_decide_eq_true hstop
      refine ⟨b, rfl, fun x hx ↦ ?_⟩
      rcases List.mem_cons.mp ((Heap.perm_pop? Entry.before h.whole hpop).mem_iff.mpr hx) with
        rfl | hx
      · exact hle
      · exact le_trans hle (hrest x hx).2

/-- A search finds the path, or finds none, that it would find if it went on until nothing is left,
and then nothing is left: ending at the best destination changes nothing, if no edge and no
destination costs less than nothing. -/
theorem search_eq_neverStop (labels : Labels α) (wf : task.network.WellFormed)
    (noRefunds : task.NoRefunds) (noRewards : task.NoRewards) (origins : CandidateSet α) :
    (search labels task origins).1 = (searchWith neverStop labels task origins).1 ∧
      (finalState neverStop labels task origins).queue.toList = [] := by
  obtain ⟨done, hexplored, hended⟩ :=
    explored_finalState stopAtBest labels wf (noRefunds.noRefundsFrom origins)
  obtain ⟨-, -, hexhausted⟩ :=
    explored_finalState neverStop labels wf (noRefunds.noRefundsFrom origins)
  obtain ⟨more, hmore⟩ : ∃ more, finalState neverStop labels task origins =
      task.run neverStop more (finalState stopAtBest labels task origins) :=
    exists_run_neverStop stopAtBest _ _
  constructor
  · simp only [search, searchWith, hmore]
    rcases hexplored.empty_or_waiting hended with hempty | ⟨b, hbest, hwaiting⟩
    · rw [run_eq_self hempty]
    · obtain ⟨hbest', hkeeps⟩ :=
        hexplored.run_keeps wf noRefunds noRewards hbest hwaiting neverStop more
      rw [hbest, hbest', Option.bind_some, Option.bind_some]
      exact (pathTo_congr (P := (· ∈ done)) (fun _ _ _ ↦ hexplored.traced) hkeeps (fun _ ↦ rfl)
        (hexplored.best_eq b hbest).1).symm
  · rcases step?_eq_none hexhausted with hempty | ⟨_, _, _, hstop⟩
    · exact hempty
    · cases hstop

end

section

variable {task : Task EReal} {origins : CandidateSet EReal} {done : List NodeId}
  {f g : Frontier EReal}

/-- Whether the given nodes cost no more by their labels than the best destination. -/
def Frontier.AtMostBest (f : Frontier EReal) (done : List NodeId) : Prop :=
  ∀ v ∈ done, ∀ label, f.labels.get? v = some label → ∀ b, f.best = some b → label.cost ≤ b.total

namespace Explored

private theorem atMostBest_step (h : Explored task origins done f) (wf : task.network.WellFormed)
    (nonNegative : task.NonNegative) (nonneg : ∀ c ∈ task.destinations.toList, 0 ≤ c.cost)
    (below : f.AtMostBest done) (hstep : task.step? stopAtBest f = some g) :
    ∃ done', Explored task origins done' g ∧ g.AtMostBest done' := by
  have noRefunds := nonNegative.noRefundsFrom origins
  obtain ⟨entry, queue, hpop, ⟨stale, rfl⟩ | ⟨label, hlabel, fresh, goesOn, rfl⟩⟩ :=
    step?_eq_some hstep
  · exact ⟨done, (h.advances_pass hpop stale).explored, below⟩
  · obtain ⟨hentry, -⟩ := h.of_pop? hpop
    obtain ⟨hcost, -⟩ := h.fresh hentry hlabel fresh
    have hproceeds := (h.proceeds_expand wf hpop noRefunds hlabel fresh).1
    refine ⟨entry.node :: done, (h.advances_expand wf hpop noRefunds hlabel fresh).explored,
      fun v hv l hl b hb ↦ ?_⟩
    rw [hproceeds.keeps v hv] at hl
    -- Nodes are expanded by rising cost, so this node costs at least what the others cost.
    have hle : l.cost ≤ entry.cost := by
      rcases List.mem_cons.mp hv with rfl | hv
      · cases hlabel.symm.trans hl
        exact hcost.le
      · obtain ⟨l', hl', hentries⟩ := h.expanded v hv
        cases hl.symm.trans hl'
        exact (hentries entry hentry).1
    rw [hproceeds.best_eq] at hb
    rcases bestWith_eq_some hb with hbest | ⟨c, hc, rfl⟩
    · rw [hbest] at goesOn
      exact hle.trans (not_le.mp (of_decide_eq_false goesOn)).le
    · have hc' := nonneg c ((task.destinations.get?_eq_some_iff entry.node c).mp hc).1
      exact hle.trans (le_add_of_nonneg_right hc')

private theorem atMostBest_run (h : Explored task origins done f) (wf : task.network.WellFormed)
    (nonNegative : task.NonNegative) (nonneg : ∀ c ∈ task.destinations.toList, 0 ≤ c.cost)
    (below : f.AtMostBest done) (steps : Nat) :
    ∃ done', Explored task origins done' (task.run stopAtBest steps f) ∧
      (task.run stopAtBest steps f).AtMostBest done' := by
  induction steps generalizing done f with
  | zero => exact ⟨done, h, below⟩
  | succ steps ih =>
    rw [Task.run]
    cases hstep : task.step? stopAtBest f with
    | none => exact ⟨done, h, below⟩
    | some g =>
      obtain ⟨done', h', below'⟩ := h.atMostBest_step wf nonNegative nonneg below hstep
      exact ih h' below'

end Explored

/-- A search that may end at its best destination expands no node that costs more than this: such
nodes are spared, and wait at the end if they have a label. -/
theorem atMostBest_finalState (labels : Labels EReal) (wf : task.network.WellFormed)
    (nonNegative : task.NonNegative) (nonneg : ∀ c ∈ task.destinations.toList, 0 ≤ c.cost)
    (origins : CandidateSet EReal) :
    ∃ done, Explored task origins done (finalState stopAtBest labels task origins) ∧
      (finalState stopAtBest labels task origins).AtMostBest done := by
  rw [finalState, Labels.reset_eq_blank]
  exact (Explored.start task origins).1.atMostBest_run wf nonNegative nonneg
    (fun _ hv ↦ absurd hv List.not_mem_nil) _

end

open Detour

private theorem index_le_cost {destinations : CandidateSet EReal} {done : List NodeId}
    {f : Frontier EReal} (h : Explored (detourTask destinations) detourOrigins done f) (n : ℕ) :
    ∀ label, f.labels.get? ⟨n⟩ = some label → ((n : ℝ) : EReal) ≤ label.cost := by
  induction n using Nat.strong_induction_on with
  | _ n ih =>
    intro label hlabel
    generalize hv : (⟨n⟩ : NodeId) = v at hlabel
    cases h.grown v label hlabel with
    | @origin _ c hc =>
      obtain ⟨hmem, hnode⟩ := (detourOrigins.get?_eq_some_iff v c).mp hc
      rw [toList_origins, List.mem_singleton] at hmem
      subst hmem
      cases hv.trans hnode.symm
      exact le_of_eq (by simp)
    | @edge e l mem tail hl =>
      have hpaid (tail head : ℕ) (length : ℝ) (hle : (head : ℝ) ≤ tail + length)
          (htail : ((tail : ℝ) : EReal) ≤ l.cost) : ((head : ℝ) : EReal) ≤ l.cost + length :=
        (EReal.coe_le_coe_iff.mpr hle).trans (add_le_add_left htail length)
      rcases mem_edges mem with rfl | rfl | rfl
      · cases hv
        exact hpaid 0 1 1 (by norm_num) (ih 0 (by omega) l hl)
      · cases hv
        exact hpaid 0 2 3 (by norm_num) (ih 0 (by omega) l hl)
      · cases hv
        exact hpaid 1 2 1 (by norm_num) (ih 1 (by omega) l hl)

private theorem queue_ne_nil_detour : (finalState stopAtBest .empty (detourTask (detourEnd ⟨1⟩))
    detourOrigins).queue.toList ≠ [] := by
  intro hnone
  obtain ⟨done, h, hbelow⟩ := atMostBest_finalState .empty wellFormed
    (static_detour (detourEnd ⟨1⟩)).nonNegative (fun c hc ↦ (cost_destination ⟨1⟩ c hc).2)
    detourOrigins
  -- With nothing left, both other nodes would have been expanded.
  have hexpanded {es : List (Edge EReal)} {v : NodeId} (walk : detourNetwork.IsWalk ⟨0⟩ es v) :
      v ∈ done ∧ ∃ label, (finalState stopAtBest .empty (detourTask (detourEnd ⟨1⟩))
        detourOrigins).labels.get? v = some label ∧ label.cost ≤ 0 + (es.map (·.length)).sum := by
    have hs : ⟨⟨0⟩, 0, 0⟩ ∈ detourOrigins.toList := toList_origins ▸ List.mem_singleton_self _
    have hstart := h.departed _ hs (by decide) (EReal.coe_lt_top 0)
    rcases h.reaches_or_waits wellFormed (static_detour _) walk (fun e he ↦
      (length_of_mem_edges (walk.mem_edges e he)).1) hstart with hdone | ⟨x, hx, -⟩
    · exact hdone
    · rw [hnone] at hx
      cases hx
  obtain ⟨hmiddle, middle, hlabel, hcost⟩ := hexpanded isWalk_out
  obtain ⟨hend, last, hlabel', -⟩ := hexpanded isWalk_direct
  have hget : (detourTask (detourEnd ⟨1⟩)).destinations.get? ⟨1⟩ = some ⟨⟨1⟩, 0, 0⟩ :=
    ((detourEnd ⟨1⟩).get?_eq_some_iff ⟨1⟩ _).mpr
      ⟨toList_destination ⟨1⟩ ▸ List.mem_singleton_self _, rfl⟩
  obtain ⟨b, hb, htotal⟩ := h.best_le ⟨1⟩ hmiddle middle hlabel _ hget
  have hlast : ((2 : ℝ) : EReal) ≤ ((1 : ℝ) : EReal) := by
    calc ((2 : ℝ) : EReal)
      _ ≤ last.cost := mod_cast index_le_cost h 2 last hlabel'
      _ ≤ b.total := hbelow ⟨2⟩ hend last hlabel' b hb
      _ ≤ middle.cost + 0 := not_lt.mp htotal
      _ ≤ 0 + (1 + 0) + 0 := add_le_add_left hcost 0
      _ = ((1 : ℝ) : EReal) := by simp
  exact absurd (EReal.coe_le_coe_iff.mp hlast) (by norm_num)

/-- From the node 0 to the node 1 the search leaves the node 2 waiting, and yet finds the path that
it would find if it went on. -/
theorem search_eq_neverStop_detour : ∃ path,
    (search .empty (detourTask (detourEnd ⟨1⟩)) detourOrigins).1 = some path ∧
    (finalState stopAtBest .empty (detourTask (detourEnd ⟨1⟩)) detourOrigins).queue.toList ≠ [] ∧
    (searchWith neverStop .empty (detourTask (detourEnd ⟨1⟩)) detourOrigins).1 = some path ∧
    (finalState neverStop .empty (detourTask (detourEnd ⟨1⟩)) detourOrigins).queue.toList = [] := by
  have noRewards : (detourTask (detourEnd ⟨1⟩)).NoRewards := fun c hc ↦ by
    rw [Scalar.zero_exact]
    exact cost_destination ⟨1⟩ c hc
  obtain ⟨path, found⟩ := exists_path isWalk_out
  obtain ⟨hsame, hempty⟩ := search_eq_neverStop .empty wellFormed
    (static_detour _).nonNegative.noRefunds noRewards detourOrigins
  exact ⟨path, found, queue_ne_nil_detour, hsame ▸ found, hempty⟩

end DoorToDoor.LeastCost
