import DoorToDoor.Proofs.Costs
import DoorToDoor.Proofs.Planning
import DoorToDoor.Proofs.Search.Optimality

/-!
# The least cost by a running clock

What an edge costs may depend on the time at which it is entered. A search keeps one label for a
node, that of the cheapest way to it, and goes on from there at the time of this label. The path
that it finds costs what its walk costs by its own clock, and no more than any other walk from an
origin to a destination, unless that walk has been undercut (`Task.IsUndercut`): the walk that the
search has kept comes to one of its nodes at no greater cost, but pays more up to the end of the
next edge.
-/

namespace DoorToDoor.LeastCost

/-- At finite times every edge takes a finite time and costs at least nothing, and at other times it
costs at least nothing if it can be used. -/
structure Task.Paced (task : Task EReal) : Prop where
  nonNegative : task.NonNegative
  charge_nonneg : ∀ e ∈ task.network.edges, ∀ now, Scalar.isFinite now = true →
    0 ≤ task.charge e now
  travelTime_finite : ∀ e ∈ task.network.edges, ∀ now, Scalar.isFinite now = true →
    Scalar.isFinite (task.costs.travelTime task.person e now) = true

/-- Whether a walk from an origin is undercut: the walk whose label a search has kept at one of its
nodes comes there at no greater cost, and yet pays more up to the end of the next edge, which it
enters at another time. -/
def Task.IsUndercut (task : Task EReal) (origins : CandidateSet EReal) (kept : Labels EReal)
    (s : Candidate EReal) (es : List (Edge EReal)) : Prop :=
  ∃ before e after, es = before ++ e :: after ∧ ∃ label, kept.get? e.tail.id = some label ∧
    (∃ s' ∈ origins.toList, ∃ es', task.network.IsWalk s'.node es' e.tail.id ∧
      task.costs.along task.person s'.arrival es' = label.arrival) ∧
    let come := task.costs.along task.person s.arrival before
    label.cost ≤ come.cost ∧ (task.costs.onward task.person come e).cost <
      (task.costs.onward task.person label.arrival e).cost

variable {task : Task EReal} {origins : CandidateSet EReal} {done : List NodeId}
  {f : Frontier EReal} {a b : NodeId}

namespace Task.Paced

variable (paced : task.Paced)

include paced

private theorem isFinite_time_along (come : Arrival EReal)
    (hcome : Scalar.isFinite come.time = true)
    {es : List (Edge EReal)} (mem : ∀ e ∈ es, e ∈ task.network.edges) :
    Scalar.isFinite (task.costs.along task.person come es).time = true :=
  along_keeps (P := fun come ↦ Scalar.isFinite come.time = true)
    (fun e he _ hcome ↦ Scalar.isFinite_add hcome (paced.travelTime_finite e he _ hcome))
    mem hcome

private theorem le_cost_along (come : Arrival EReal) (hcome : Scalar.isFinite come.time = true)
    {es : List (Edge EReal)} (mem : ∀ e ∈ es, e ∈ task.network.edges) :
    come.cost ≤ (task.costs.along task.person come es).cost :=
  (along_keeps (P := fun come' ↦ Scalar.isFinite come'.time = true ∧ come.cost ≤ come'.cost)
    (fun e he _ ⟨htime, hle⟩ ↦
      ⟨Scalar.isFinite_add htime (paced.travelTime_finite e he _ htime),
        hle.trans (le_add_of_nonneg_right (paced.charge_nonneg e he _ htime))⟩)
    mem ⟨hcome, le_rfl⟩).2

end Task.Paced

namespace Explored

section

variable (h : Explored task origins done f) (wf : task.network.WellFormed) (paced : task.Paced)
  (clocks : ∀ s ∈ origins.toList, 0 ≤ s.cost ∧ Scalar.isFinite s.time = true)

include h paced clocks

private theorem label_nonneg {v : NodeId} (hv : v ∈ done) {label : Label EReal}
    (hlabel : f.labels.get? v = some label) :
    0 ≤ label.cost ∧ Scalar.isFinite label.time = true := by
  obtain ⟨s, hs, way, walk, hreplay, -⟩ := h.exists_replay hv hlabel
  obtain ⟨hcost, htime⟩ := clocks s hs
  have hle := paced.le_cost_along s.arrival htime walk.mem_edges
  have hend := paced.isFinite_time_along s.arrival htime walk.mem_edges
  rw [hreplay] at hle hend
  exact ⟨hcost.trans hle, hend⟩

include wf

private theorem reaches_onward {s : Candidate EReal} {before after : List (Edge EReal)}
    {e : Edge EReal} (fair : ¬task.IsUndercut origins f.labels s (before ++ e :: after))
    (he : e ∈ task.network.edges) (hdone : e.tail.id ∈ done)
    (start : f.labels.Reaches e.tail.id (task.costs.along task.person s.arrival before).cost)
    (affordable : (task.costs.along task.person s.arrival (before ++ [e])).cost < ⊤) :
    f.labels.Reaches e.head.id (task.costs.along task.person s.arrival (before ++ [e])).cost := by
  obtain ⟨label, hlabel, hle⟩ := start
  obtain ⟨s', hs', way, hway, hreplay, -⟩ := h.exists_replay hdone hlabel
  obtain ⟨hcost, htime⟩ := h.label_nonneg paced clocks hdone hlabel
  rw [CostModel.along_append] at affordable ⊢
  -- The walk that is traced back from the label does not undercut the given one.
  have hnext : label.cost + task.charge e label.time ≤
      (task.costs.onward task.person (task.costs.along task.person s.arrival before) e).cost := by
    refine le_of_not_gt fun hlt ↦ fair ⟨before, e, after, rfl, label, hlabel, ?_, hle, hlt⟩
    exact ⟨s', hs', way, hway, hreplay⟩
  have husable : Scalar.isFinite (task.charge e label.time) = true := by
    have hnonneg := paced.charge_nonneg e he label.time htime
    refine Scalar.isFinite_exact.mpr ⟨(EReal.bot_lt_zero.trans_le hnonneg).ne', fun htop ↦ ?_⟩
    rw [htop, EReal.add_top_of_ne_bot (EReal.bot_lt_zero.trans_le hcost).ne', top_le_iff] at hnext
    exact affordable.ne hnext
  have hout : e ∈ task.network.outEdges e.tail.id :=
    (wf.mem_outEdges_iff (wf.tail_lt he) e).mpr ⟨he, rfl⟩
  obtain ⟨label', hlabel', hle'⟩ := h.followed _ hdone label hlabel e hout husable
    (h.add_charge_lt_top hlabel husable)
  exact ⟨label', hlabel', hle'.trans hnext⟩

/-- A walk that is not undercut ends at an expanded node, labelled at most at the cost of the walk,
or an entry that costs no more than the walk waits. -/
theorem reaches_or_waits_along {s : Candidate EReal} (hs : s ∈ origins.toList)
    (before : List (Edge EReal)) {after : List (Edge EReal)}
    (fair : ¬task.IsUndercut origins f.labels s (before ++ after))
    (mem : ∀ e ∈ before, e ∈ task.network.edges) (walk : task.network.IsWalk a after b)
    (start : f.labels.Reaches a (task.costs.along task.person s.arrival before).cost)
    (affordable : (task.costs.along task.person s.arrival (before ++ after)).cost < ⊤) :
    let total := (task.costs.along task.person s.arrival (before ++ after)).cost
    b ∈ done ∧ f.labels.Reaches b total ∨ ∃ x ∈ f.queue.toList, x.cost ≤ total := by
  -- As long as nodes have been expanded the walk is followed; the first other node waits.
  induction after generalizing a before with
  | nil =>
    obtain ⟨rfl, -⟩ := walk
    rw [List.append_nil]
    by_cases ha : a ∈ done
    · exact .inl ⟨ha, start⟩
    · obtain ⟨label, hlabel, hle⟩ := start
      exact .inr ⟨_, h.awaited a label hlabel ha, hle⟩
  | cons e rest ih =>
    obtain ⟨he, rfl, hrest⟩ := walk
    have hsplit : before ++ e :: rest = before ++ [e] ++ rest := List.append_cons ..
    have hbefore := paced.isFinite_time_along s.arrival (clocks s hs).2 mem
    have hmem : ∀ e' ∈ before ++ [e], e' ∈ task.network.edges := by
      intro e' he'
      rcases List.mem_append.mp he' with he' | he'
      · exact mem e' he'
      · rwa [List.mem_singleton.mp he']
    by_cases ha : e.tail.id ∈ done
    · have hnext : (task.costs.along task.person s.arrival (before ++ [e])).cost < ⊤ := by
        have hend := paced.isFinite_time_along s.arrival (clocks s hs).2 hmem
        have hle := paced.le_cost_along _ hend hrest.mem_edges
        rw [← CostModel.along_append, ← hsplit] at hle
        exact hle.trans_lt affordable
      have hstart := h.reaches_onward wf paced clocks fair he ha start hnext
      rw [hsplit] at fair affordable ⊢
      exact ih (before ++ [e]) fair hmem hrest hstart affordable
    · obtain ⟨label, hlabel, hle⟩ := start
      have hmem' : ∀ e' ∈ e :: rest, e' ∈ task.network.edges :=
        List.forall_mem_cons.mpr ⟨he, hrest.mem_edges⟩
      have hmore := paced.le_cost_along _ hbefore hmem'
      rw [← CostModel.along_append] at hmore
      exact .inr ⟨_, h.awaited _ label hlabel ha, hle.trans hmore⟩

/-- When a search has ended, its best destination costs no more than any walk from an origin to a
destination by its own clock, unless the walk is undercut. -/
theorem total_le_or_isUndercut (ended : task.step? stopAtBest f = none) {best : Best EReal}
    (hbest : f.best = some best) {s c : Candidate EReal} (hs : s ∈ origins.toList)
    (hc : c ∈ task.destinations.toList) (hnonneg : 0 ≤ c.cost) {es : List (Edge EReal)}
    (walk : task.network.IsWalk s.node es c.node) :
    best.total ≤ (task.costs.along task.person s.arrival es).cost + c.cost ∨
      task.IsUndercut origins f.labels s es := by
  by_cases fair : task.IsUndercut origins f.labels s es
  · exact .inr fair
  left
  by_cases affordable : (task.costs.along task.person s.arrival es).cost < ⊤
  · have hle := paced.le_cost_along s.arrival (clocks s hs).2 walk.mem_edges
    have hstart := h.departed s hs (wf.lt_of_isWalk walk) (hle.trans_lt affordable)
    rcases h.reaches_or_waits_along wf paced clocks hs [] fair (by simp) walk hstart
      affordable with ⟨hdone, label, hlabel, hreached⟩ | ⟨x, hx, hreached⟩
    · have hget := (task.destinations.get?_eq_some_iff c.node c).mpr ⟨hc, rfl⟩
      obtain ⟨best', hbest', htotal⟩ := h.best_le c.node hdone label hlabel c hget
      cases hbest.symm.trans hbest'
      exact (le_of_not_gt htotal).trans (add_le_add_left hreached _)
    · calc best.total
        _ ≤ x.cost := h.total_le_of_mem_queue ended hbest hx
        _ ≤ (task.costs.along task.person s.arrival es).cost := hreached
        _ ≤ (task.costs.along task.person s.arrival es).cost + c.cost :=
          le_add_of_nonneg_right hnonneg
  · rw [not_lt_top_iff.mp affordable, EReal.top_add_of_ne_bot]
    · exact le_top
    · exact (EReal.bot_lt_zero.trans_le hnonneg).ne'

end

end Explored

private theorem snd_search (labels : Labels EReal) (task : Task EReal)
    (origins : CandidateSet EReal) :
    (search labels task origins).2 = (finalState stopAtBest labels task origins).labels := by
  have hsearch : search labels task origins =
      ((finalState stopAtBest labels task origins).best.bind
        (pathTo task.network (finalState stopAtBest labels task origins).labels origins),
        (finalState stopAtBest labels task origins).labels) := by rw [search, searchWith]
  -- The kernel would run the search to compare the components.
  exact (Prod.mk.inj (Prod.mk.eta.trans hsearch)).2

private theorem exists_label_of_search (wf : task.network.WellFormed) (paced : task.Paced)
    (clocks : ∀ s ∈ origins.toList, 0 ≤ s.cost ∧ Scalar.isFinite s.time = true)
    {labels : Labels EReal} {path : Path EReal}
    (found : (search labels task origins).1 = some path) :
    let final := finalState stopAtBest labels task origins
    ∃ done best o d label, Explored task origins done final ∧
      task.step? stopAtBest final = none ∧ final.best = some best ∧
      origins.get? path.first.id = some o ∧ task.destinations.get? path.last.id = some d ∧
      task.network.IsWalk o.node path.edges d.node ∧
      task.costs.along task.person o.arrival path.edges = label.arrival ∧
      final.labels.get? d.node = some label ∧
      label.arrival = ⟨o.cost + path.travelCost, o.time + path.travelTime⟩ ∧
      best.total = label.cost + d.cost := by
  obtain ⟨done, best, o, d, label, hexplored, hended, hbest, ho, hd, hwalk, hreplay, hlabel,
    hcost, htime, htotal⟩ :=
    exists_best_of_search wf (paced.nonNegative.noRefundsFrom origins) found
  obtain ⟨hnonneg, hclock⟩ := clocks o ((origins.get?_eq_some_iff _ o).mp ho).1
  have hle := paced.le_cost_along o.arrival hclock hwalk.mem_edges
  rw [hreplay] at hle
  have hfinite : Scalar.isFinite o.cost = true :=
    Scalar.isFinite_exact.mpr ⟨(EReal.bot_lt_zero.trans_le hnonneg).ne',
      (hle.trans_lt (hexplored.label_lt _ _ hlabel)).ne⟩
  have hwhole : label.arrival = ⟨o.cost + path.travelCost, o.time + path.travelTime⟩ := by
    rw [hcost, htime, Scalar.add_sub_cancel_of_isFinite hfinite,
      Scalar.add_sub_cancel_of_isFinite hclock, Label.arrival]
  exact ⟨done, best, o, d, label, hexplored, hended, hbest, ho, hd, hwalk, hreplay, hlabel, hwhole,
    htotal⟩

/-- With accepted parameters and a timetable whose vehicles do not run back in time, the costs by
the timetable are paced. -/
theorem paced_byTimetable {t : Timetable EReal} (wf : t.WellFormed) (finite : t.IsFinite)
    (ordered : t.Ordered) (reach : EReal) {p : Parameters EReal}
    (valid : Settings.validate ⟨p, [], []⟩ = .ok ())
    (margin : Scalar.isFinite p.transferMargin = true) (person : Person)
    (destinations : CandidateSet EReal) :
    Task.Paced ⟨Network.ofTimetable t reach, Cost.byTimetable (Departures.ofTimetable t).lookup p,
      person, destinations⟩ where
  nonNegative _ he _ usable :=
    Cost.disutility_nonneg_of_isFinite wf finite ordered valid he usable
  charge_nonneg _ he _ hnow := Cost.disutility_nonneg wf finite ordered valid he hnow
  travelTime_finite _ he _ hnow := Cost.isFinite_travelTime wf finite he valid margin hnow

/-- By the timetable, the path that a search finds costs what its walk costs by its own clock, with
the costs of the candidates at both ends added, and takes the time that it takes by this clock. No
other walk from an origin to a destination costs less by its own clock, unless it is undercut. -/
theorem search_cost_le_or_isUndercut (t : Timetable EReal) (built : t.Built)
    (finite : t.IsFinite) (ordered : t.Ordered) (reach : EReal) (p : Parameters EReal)
    (valid : Settings.validate ⟨p, [], []⟩ = .ok ())
    (margin : Scalar.isFinite p.transferMargin = true) (person : Person) (labels : Labels EReal)
    (origins destinations : CandidateSet EReal)
    (departs : ∀ s ∈ origins.toList, 0 ≤ s.cost ∧ Scalar.isFinite s.time = true)
    (arrives : ∀ c ∈ destinations.toList, 0 ≤ c.cost) (path : Path EReal) :
    let task : Task EReal := ⟨Network.ofTimetable t reach,
      Cost.byTimetable (Departures.ofTimetable t).lookup p, person, destinations⟩
    (search labels task origins).1 = some path →
      ∃ o d, origins.get? path.first.id = some o ∧ destinations.get? path.last.id = some d ∧
        task.network.IsWalk o.node path.edges d.node ∧
        task.costs.along person o.arrival path.edges =
          ⟨o.cost + path.travelCost, o.time + path.travelTime⟩ ∧
        ∀ s ∈ origins.toList, ∀ c ∈ destinations.toList, ∀ es,
          task.network.IsWalk s.node es c.node →
            o.cost + path.travelCost + d.cost ≤
                (task.costs.along person s.arrival es).cost + c.cost ∨
              task.IsUndercut origins (search labels task origins).2 s es := by
  intro task found
  have wf : task.network.WellFormed := Network.wellFormed_ofTimetable t reach
  have paced : task.Paced :=
    paced_byTimetable built.wellFormed finite ordered reach valid margin person destinations
  obtain ⟨done, best, o, d, label, hexplored, hended, hbest, ho, hd, hwalk, halong, -, hlabel,
    htotal⟩ := exists_label_of_search wf paced departs found
  refine ⟨o, d, ho, hd, hwalk, halong.trans hlabel, fun s hs c hc es walk ↦ ?_⟩
  have hcost : label.cost = o.cost + path.travelCost := congrArg Arrival.cost hlabel
  rw [← hcost, ← htotal, snd_search]
  exact hexplored.total_le_or_isUndercut wf paced departs hended hbest hs hc (arrives c hc) walk

open Network (tramRide)
open Routing.Planner (freeRides validate_freeRides)

/-- Parameters by which a second of waiting or riding costs one. -/
noncomputable def timedRides : Parameters EReal := { freeRides with waitTime := -1, rideTime := -1 }

/-- These parameters are accepted. -/
theorem validate_timedRides : Settings.validate ⟨timedRides, [], []⟩ = .ok () := by
  obtain ⟨hpositives, hnonNegatives, -, hmodes, haccess⟩ :=
    Settings.validate_eq_ok.mp validate_freeRides
  refine Settings.validate_eq_ok.mpr ⟨hpositives, hnonNegatives, ?_, hmodes, haccess⟩
  simp [Settings.utilities, Settings.utilityFault_eq_none, timedRides, freeRides]

/-- Their utilities are finite. -/
theorem hasFiniteUtilities_timedRides : timedRides.HasFiniteUtilities :=
  { Routing.Planner.hasFiniteUtilities_freeRides with
    rideTime := Scalar.isFinite_coe (-1)
    waitTime := Scalar.isFinite_coe (-1) }

/-- The task to go to the last stop of a tram that does not stay at its stops. -/
noncomputable def tramTask : Task EReal where
  network := .ofTimetable (.tram 0) 0
  costs := Cost.byTimetable (Departures.ofTimetable (.tram 0)).lookup timedRides
  person := ⟨⟨0⟩⟩
  destinations := .ofList [⟨⟨2⟩, 0, 0⟩]

/-- One can be at the first stop of the tram at midnight, at some cost, and at the second one when
the tram of the day has left, at none. -/
noncomputable def tramOrigins : CandidateSet EReal := .ofList [⟨⟨0⟩, 10, 0⟩, ⟨⟨1⟩, 0, 1500⟩]

private theorem charge_tramRide (position : ℕ) (now : EReal) :
    tramTask.charge (tramRide 0 position) now =
      -Cost.wait (Departures.ofTimetable (.tram 0)).lookup (tramRide 0 position) now * -1 -
        Cost.inVehicle (tramRide 0 position) * -1 := by
  have hdistance : Cost.distanceCost timedRides (tramRide 0 position) = 0 := mul_zero _
  change _ + Cost.distanceCost timedRides (tramRide 0 position) = _
  rw [hdistance, add_zero]
  rfl

private theorem usable_tramRide {position : ℕ} (h : position < 2) {now : EReal}
    (hnow : Scalar.isFinite now = true) :
    Scalar.isFinite (tramTask.charge (tramRide 0 position) now) = true := by
  have hwait := (Cost.wait_nonneg (Timetable.built_tram 0).wellFormed (Timetable.isFinite_tram 0)
    (Cost.tramRide_mem_edges 0 h) hnow).2
  have hone : Scalar.isFinite (-1 : EReal) = true := Scalar.isFinite_neg (Scalar.isFinite_coe 1)
  rw [charge_tramRide, Cost.inVehicle_tramRide 0 h]
  exact Scalar.isFinite_sub (Scalar.isFinite_mul (Scalar.isFinite_neg hwait) hone)
    (Scalar.isFinite_mul (Scalar.isFinite_coe 100) hone)

private theorem onward_tramRide (cost now : ℝ) {position : ℕ} (h : position < 2) (k : ℕ)
    (least : ∀ j < k, 900 + Timetable.tramDeparts 0 position + (j : ℝ) * 86400 < now)
    (reached : now ≤ 900 + Timetable.tramDeparts 0 position + (k : ℝ) * 86400) {wait : ℝ}
    (hwait : wait = 900 + Timetable.tramDeparts 0 position + k * 86400 - now) :
    tramTask.costs.onward tramTask.person ⟨(cost : EReal), (now : EReal)⟩ (tramRide 0 position) =
      ⟨((cost + (wait + 100) : ℝ) : EReal), ((now + (wait + 100) : ℝ) : EReal)⟩ := by
  have hnext : Cost.wait (Departures.ofTimetable (.tram 0)).lookup (tramRide 0 position)
      (now : EReal) = (wait : EReal) := hwait ▸ Cost.wait_tramRide 0 position now k least reached
  have hcharge : tramTask.charge (tramRide 0 position) (now : EReal) =
      ((wait + 100 : ℝ) : EReal) := by
    rw [charge_tramRide, hnext, Cost.inVehicle_tramRide 0 h, ← EReal.coe_one, ← EReal.coe_neg,
      ← EReal.coe_neg, ← EReal.coe_mul, ← EReal.coe_mul, ← EReal.coe_sub]
    congr 1
    ring
  have htime : tramTask.costs.travelTime tramTask.person (tramRide 0 position) (now : EReal) =
      ((wait + 100 : ℝ) : EReal) :=
    hwait ▸ Cost.travelTime_tramRide timedRides 0 h now k least reached
  rw [CostModel.onward, htime]
  change (⟨_ + tramTask.charge _ _, _⟩ : Arrival EReal) = _
  rw [hcharge]
  rfl

private theorem toList_tramOrigins : tramOrigins.toList = [⟨⟨0⟩, 10, 0⟩, ⟨⟨1⟩, 0, 1500⟩] :=
  CandidateSet.toList_ofList_pair rfl

private theorem toList_destinations_tramTask : tramTask.destinations.toList = [⟨⟨2⟩, 0, 0⟩] :=
  CandidateSet.toList_ofList_singleton _

private theorem origin_or_ride {done : List NodeId} {f : Frontier EReal}
    (h : Explored tramTask tramOrigins done f) {v : NodeId} {label : Label EReal}
    (hlabel : f.labels.get? v = some label) :
    (∃ c, tramOrigins.get? v = some c ∧ label.arrival = c.arrival) ∨
      ∃ position < 2, v = ⟨position + 1⟩ ∧ ∃ l, f.labels.get? ⟨position⟩ = some l ∧
        label.arrival = tramTask.costs.onward tramTask.person l.arrival (tramRide 0 position) := by
  cases h.grown v label hlabel with
  | origin hc => exact .inl ⟨_, hc, rfl⟩
  | edge mem tail hl usable =>
    have hedges : tramTask.network.edges = #[tramRide 0 0, tramRide 0 1] := Cost.edges_tram_zero 0
    rw [hedges] at mem
    right
    rcases List.mem_pair.mp (Array.mem_toList_iff.mpr mem) with rfl | rfl
    · exact ⟨0, Nat.zero_lt_two, rfl, _, hl, rfl⟩
    · exact ⟨1, Nat.one_lt_two, rfl, _, hl, rfl⟩

private theorem departs_tramOrigins {s : Candidate EReal} (hs : s ∈ tramOrigins.toList) :
    0 ≤ s.cost ∧ 0 ≤ s.time ∧ Scalar.isFinite s.time = true := by
  rw [toList_tramOrigins] at hs
  rcases List.mem_pair.mp hs with rfl | rfl
  · exact ⟨EReal.coe_nonneg.mpr (by norm_num : (0 : ℝ) ≤ 10), le_rfl, Scalar.isFinite_coe 0⟩
  · exact ⟨le_rfl, EReal.coe_nonneg.mpr (by norm_num : (0 : ℝ) ≤ 1500), Scalar.isFinite_coe 1500⟩

private theorem first_mem_tramOrigins : ⟨⟨0⟩, 10, 0⟩ ∈ tramOrigins.toList := by
  rw [toList_tramOrigins]
  exact List.mem_cons_self

private theorem second_mem_tramOrigins : ⟨⟨1⟩, 0, 1500⟩ ∈ tramOrigins.toList := by
  rw [toList_tramOrigins]
  exact List.mem_cons_of_mem _ (List.mem_singleton_self _)

private theorem third_mem_destinations : ⟨⟨2⟩, 0, 0⟩ ∈ tramTask.destinations.toList := by
  rw [toList_destinations_tramTask]
  exact List.mem_singleton_self _

private theorem eq_of_get?_tramOrigins {v : NodeId} {c : Candidate EReal}
    (hc : tramOrigins.get? v = some c) :
    c ∈ [⟨⟨0⟩, 10, 0⟩, ⟨⟨1⟩, 0, 1500⟩] ∧ c.node = v := by
  rw [← toList_tramOrigins]
  exact (tramOrigins.get?_eq_some_iff v c).mp hc

section

variable {done : List NodeId} {f : Frontier EReal} (h : Explored tramTask tramOrigins done f)
  {label : Label EReal}

include h

-- No ride leads to the first stop.
private theorem arrival_first (hlabel : f.labels.get? ⟨0⟩ = some label) :
    label.arrival = ⟨((10 : ℝ) : EReal), ((0 : ℝ) : EReal)⟩ := by
  rcases origin_or_ride h hlabel with ⟨c, hc, harrival⟩ | ⟨position, -, hnode, -⟩
  · obtain ⟨hmem, hnode⟩ := eq_of_get?_tramOrigins hc
    rcases List.mem_pair.mp hmem with rfl | rfl
    · exact harrival
    · cases hnode
  · cases hnode

-- The ride to the second stop costs more than the origin there, whose label the stop keeps.
private theorem arrival_second (hlabel : f.labels.get? ⟨1⟩ = some label) :
    label.arrival = ⟨((0 : ℝ) : EReal), ((1500 : ℝ) : EReal)⟩ := by
  rcases origin_or_ride h hlabel with ⟨c, hc, harrival⟩ | ⟨position, -, hnode, l, hl, harrival⟩
  · obtain ⟨hmem, hnode⟩ := eq_of_get?_tramOrigins hc
    rcases List.mem_pair.mp hmem with rfl | rfl
    · cases hnode
    · exact harrival
  · obtain ⟨least, hleast, hle⟩ :=
      h.departed ⟨⟨1⟩, 0, 1500⟩ second_mem_tramOrigins (by decide) EReal.zero_lt_top
    cases hnode
    cases hlabel.symm.trans hleast
    have hcost := congrArg Arrival.cost harrival
    rw [arrival_first h hl, onward_tramRide 10 0 Nat.zero_lt_two 0 (by simp)
      (by norm_num [Timetable.tramDeparts]) rfl] at hcost
    change label.cost = _ at hcost
    rw [hcost] at hle
    norm_num [Timetable.tramDeparts] at hle

-- Whoever is at the second stop by this label waits there for the tram of the next day.
private theorem cost_third (hlabel : f.labels.get? ⟨2⟩ = some label) :
    label.cost = ((86000 : ℝ) : EReal) := by
  rcases origin_or_ride h hlabel with ⟨c, hc, -⟩ | ⟨position, -, hnode, l, hl, harrival⟩
  · obtain ⟨hmem, hnode⟩ := eq_of_get?_tramOrigins hc
    rcases List.mem_pair.mp hmem with rfl | rfl
    · cases hnode
    · cases hnode
  · cases hnode
    have hcost := congrArg Arrival.cost harrival
    rw [arrival_second h hl, onward_tramRide 0 1500 Nat.one_lt_two 1
      (by simp; norm_num [Timetable.tramDeparts]) (by norm_num [Timetable.tramDeparts]) rfl]
      at hcost
    refine hcost.trans (congrArg Real.toEReal ?_)
    norm_num [Timetable.tramDeparts]

end

private theorem cost_along_tram :
    (tramTask.costs.along tramTask.person ⟨((10 : ℝ) : EReal), ((0 : ℝ) : EReal)⟩
      [tramRide 0 0, tramRide 0 1]).cost = ((1110 : ℝ) : EReal) := by
  rw [CostModel.along_cons, onward_tramRide 10 0 Nat.zero_lt_two 0 (by simp)
    (by norm_num [Timetable.tramDeparts]) rfl, CostModel.along_cons,
    onward_tramRide _ _ Nat.one_lt_two 0 (by simp) (by norm_num [Timetable.tramDeparts]) rfl,
    CostModel.along_nil]
  refine congrArg Real.toEReal ?_
  norm_num [Timetable.tramDeparts]

private theorem isWalk_tram : tramTask.network.IsWalk ⟨1⟩ [tramRide 0 1] ⟨2⟩ :=
  ⟨Cost.tramRide_mem_edges 0 Nat.one_lt_two, rfl, rfl, by decide⟩

private theorem exists_path_tram : ∃ path o d,
    (search .empty tramTask tramOrigins).1 = some path ∧
      tramOrigins.get? path.first.id = some o ∧
      tramTask.destinations.get? path.last.id = some d ∧
      o.cost + path.travelCost + d.cost = ((86000 : ℝ) : EReal) := by
  have wf : tramTask.network.WellFormed := Network.wellFormed_ofTimetable (.tram 0) 0
  have paced : tramTask.Paced :=
    paced_byTimetable (Timetable.built_tram 0).wellFormed (Timetable.isFinite_tram 0)
      (Timetable.ordered_tram 0) 0 validate_timedRides Scalar.isFinite_zero ⟨⟨0⟩⟩ _
  have clocks : ∀ s ∈ tramOrigins.toList, 0 ≤ s.cost ∧ Scalar.isFinite s.time = true := fun s hs ↦
    ⟨(departs_tramOrigins hs).1, (departs_tramOrigins hs).2.2⟩
  obtain ⟨path, found⟩ := exists_path_of_isWalk .empty wf paced.nonNegative
    (fun now ↦ Scalar.isFinite now = true) (fun s hs ↦ (clocks s hs).2)
    (fun e he now hnow ↦ Scalar.isFinite_add hnow (paced.travelTime_finite e he now hnow))
    second_mem_tramOrigins EReal.zero_lt_top third_mem_destinations isWalk_tram
    fun e he now hnow ↦ List.mem_singleton.mp he ▸ usable_tramRide Nat.one_lt_two hnow
  obtain ⟨done, best, o, d, label, hexplored, -, -, ho, hd, -, -, hlabel, harrival, -⟩ :=
    exists_label_of_search wf paced clocks found
  obtain rfl : d = ⟨⟨2⟩, 0, 0⟩ := by
    have hmem := ((tramTask.destinations.get?_eq_some_iff _ d).mp hd).1
    rw [toList_destinations_tramTask] at hmem
    exact List.mem_singleton.mp hmem
  have hcost : label.cost = o.cost + path.travelCost := congrArg Arrival.cost harrival
  refine ⟨path, o, _, found, ho, hd, ?_⟩
  rw [← hcost, cost_third hexplored hlabel]
  exact add_zero _

private theorem isWalk_rides : tramTask.network.IsWalk ⟨0⟩ [tramRide 0 0, tramRide 0 1] ⟨2⟩ :=
  ⟨Cost.tramRide_mem_edges 0 Nat.zero_lt_two, rfl, isWalk_tram⟩

/-- Two walks compete for the last stop of the tram: from the second stop at no cost, but after the
tram has left, and from the first one in time. The first one is taken, because it undercuts the
other at the second stop. -/
theorem search_cost_le_or_isUndercut_tram : ∃ path o d,
    (search .empty tramTask tramOrigins).1 = some path ∧
      tramOrigins.get? path.first.id = some o ∧
      tramTask.destinations.get? path.last.id = some d ∧
      (∀ s ∈ tramOrigins.toList, ∀ c ∈ tramTask.destinations.toList, ∀ es,
        tramTask.network.IsWalk s.node es c.node →
          o.cost + path.travelCost + d.cost ≤
              (tramTask.costs.along tramTask.person s.arrival es).cost + c.cost ∨
            tramTask.IsUndercut tramOrigins (search .empty tramTask tramOrigins).2 s es) ∧
      tramTask.IsUndercut tramOrigins (search .empty tramTask tramOrigins).2 ⟨⟨0⟩, 10, 0⟩
        [tramRide 0 0, tramRide 0 1] := by
  obtain ⟨path, o, d, found, ho, hd, hcost⟩ := exists_path_tram
  have departs : ∀ s ∈ tramOrigins.toList, 0 ≤ s.cost ∧ Scalar.isFinite s.time = true := fun s hs ↦
    ⟨(departs_tramOrigins hs).1, (departs_tramOrigins hs).2.2⟩
  have arrives : ∀ c ∈ tramTask.destinations.toList, 0 ≤ c.cost := by
    intro c hc
    rw [toList_destinations_tramTask] at hc
    exact List.mem_singleton.mp hc ▸ le_rfl
  obtain ⟨o', d', ho', hd', -, -, hle⟩ := search_cost_le_or_isUndercut (.tram 0)
    (Timetable.built_tram 0) (Timetable.isFinite_tram 0) (Timetable.ordered_tram 0) 0 timedRides
    validate_timedRides Scalar.isFinite_zero ⟨⟨0⟩⟩ .empty tramOrigins tramTask.destinations departs
    arrives path found
  cases ho.symm.trans ho'
  cases hd.symm.trans hd'
  refine ⟨path, o, d, found, ho, hd, hle, ?_⟩
  refine (hle _ first_mem_tramOrigins _ third_mem_destinations _ isWalk_rides).resolve_left ?_
  change ¬_ ≤ (tramTask.costs.along tramTask.person ⟨((10 : ℝ) : EReal), ((0 : ℝ) : EReal)⟩
    [tramRide 0 0, tramRide 0 1]).cost + 0
  rw [cost_along_tram, hcost, add_zero, EReal.coe_le_coe_iff]
  norm_num

/-- Whoever comes to the second stop of the tram at no cost has missed it, and the search does not
know any more of the way by tram from the first stop, which comes to the second one in time. So it
finds a path that costs more than the walk along both rides. -/
theorem cheaper_walk_tram :
    (Timetable.tram 0 : Timetable EReal).Built ∧ (Timetable.tram 0 : Timetable EReal).Ordered ∧
      Settings.validate ⟨timedRides, [], []⟩ = .ok () ∧
      tramTask.network = .ofTimetable (.tram 0) 0 ∧
      tramTask.costs = Cost.byTimetable (Departures.ofTimetable (.tram 0)).lookup timedRides ∧
      (∀ s ∈ tramOrigins.toList, 0 ≤ s.cost ∧ 0 ≤ s.time) ∧
      (∀ c ∈ tramTask.destinations.toList, 0 ≤ c.cost ∧ 0 ≤ c.time) ∧
      ∃ path o d, (search .empty tramTask tramOrigins).1 = some path ∧
        tramOrigins.get? path.first.id = some o ∧
        tramTask.destinations.get? path.last.id = some d ∧
        ∃ s ∈ tramOrigins.toList, ∃ c ∈ tramTask.destinations.toList, ∃ es,
          tramTask.network.IsWalk s.node es c.node ∧
            (tramTask.costs.along tramTask.person s.arrival es).cost + c.cost <
              o.cost + path.travelCost + d.cost := by
  obtain ⟨path, o, d, found, ho, hd, hcost⟩ := exists_path_tram
  refine ⟨Timetable.built_tram 0, Timetable.ordered_tram 0, validate_timedRides, rfl, rfl,
    fun s hs ↦ ⟨(departs_tramOrigins hs).1, (departs_tramOrigins hs).2.1⟩, fun c hc ↦ ?_, path, o,
    d, found, ho, hd, _, first_mem_tramOrigins, _, third_mem_destinations, _, isWalk_rides, ?_⟩
  · rw [toList_destinations_tramTask] at hc
    obtain rfl := List.mem_singleton.mp hc
    exact ⟨le_rfl, le_rfl⟩
  · change (tramTask.costs.along tramTask.person ⟨((10 : ℝ) : EReal), ((0 : ℝ) : EReal)⟩
      [tramRide 0 0, tramRide 0 1]).cost + 0 < _
    rw [cost_along_tram, hcost, add_zero, EReal.coe_lt_coe_iff]
    norm_num

end DoorToDoor.LeastCost
