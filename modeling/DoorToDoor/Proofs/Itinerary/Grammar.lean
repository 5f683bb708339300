import Mathlib.Data.EReal.Inv
import DoorToDoor.Access.ByDistance
import DoorToDoor.Number.Binary64
import DoorToDoor.Proofs.Itinerary.Moves

/-!
# The shape of a journey

A journey with a ride leads from the start of the request to its end without a gap, and it consists
of the way to a stop, rides with a walk wherever they change between different stops, and the way
from a stop: `shape_of_itinerary`. This holds for every path along edges of the network, also one
whose edges do not meet.
-/

namespace DoorToDoor

variable {α : Type}

namespace Timetable

/-- Where a stop lies. -/
def coord? (t : Timetable α) (stop : StopId) : Option (Point α) := (t.stop? stop).map (·.coord)

/-- The link at which a stop lies. -/
def link? (t : Timetable α) (stop : StopId) : Option LinkId := (t.stop? stop).map (·.link)

/-- Whether a leg runs from one point to another. A ride runs from the place of its access stop to
that of its egress stop. -/
def Spans (t : Timetable α) (p : Point α) (leg : Leg α) (q : Point α) : Prop :=
  match leg.course with
  | .way w => w.start = p ∧ w.finish = q
  | .ride ride => t.coord? ride.accessStop = some p ∧ t.coord? ride.egressStop = some q

/-- Whether legs run from one point to another, each from where the one before it ends. -/
def Leads (t : Timetable α) : Point α → List (Leg α) → Point α → Prop
  | p, [], q => p = q
  | p, leg :: rest, q => ∃ m, t.Spans p leg m ∧ t.Leads m rest q

variable {t : Timetable α} {p m q : Point α}

private theorem spans_of_way? {leg : Leg α} {w : Way α} (h : leg.way? = some w)
    (start : w.start = p)
    (finish : w.finish = q) : t.Spans p leg q := by
  cases hcourse : leg.course with
  | way v =>
    simp only [Leg.way?, hcourse, Option.some.injEq] at h
    subst h
    simp only [Spans, hcourse]
    exact ⟨start, finish⟩
  | ride ride => exact absurd hcourse (Leg.course_ne_ride_of_way? h ride)

private theorem leads_singleton {leg : Leg α} (h : t.Spans p leg q) : t.Leads p [leg] q :=
  ⟨q, h, rfl⟩

/-- Journeys that meet lead on. -/
theorem Leads.append {before after : List (Leg α)} (h : t.Leads p before m)
    (h' : t.Leads m after q) : t.Leads p (before ++ after) q := by
  induction before generalizing p with
  | nil =>
    obtain rfl : p = m := h
    exact h'
  | cons leg rest ih =>
    obtain ⟨m', hleg, hrest⟩ := h
    exact ⟨m', hleg, ih hrest⟩

end Timetable

/-- Every leg between two points runs from the one to the other and is no ride. -/
def AccessModel.RunsBetween (access : AccessModel α) : Prop :=
  ∀ person start finish time, ∃ w,
    (access.leg person start finish time false).way? = some w ∧ w.start = start ∧ w.finish = finish

/-- Access by distance runs between the points that it is asked for. -/
theorem AccessByDistance.runsBetween_model [Scalar α] (m : AccessByDistance α) :
    m.model.RunsBetween :=
  fun _ start finish _ ↦ ⟨⟨start, finish, none, none⟩, rfl, rfl, rfl⟩

/-- A walk that the planner adds between stops or at a stop. -/
def Leg.IsTransitWalk (leg : Leg α) : Prop := leg.mode = .transitWalk ∧ leg.isRide = false

namespace Timetable

/-- The way to a stop: a leg that takes the traveller all the way and ends at the link of the stop,
or any other leg and a walk to the stop. -/
inductive IsAccess (t : Timetable α) (access : AccessModel α) (stop : StopId) :
    List (Leg α) → Prop
  | direct {leg : Leg α} (way : leg.isRide = false) (mode : access.teleports leg.mode = true)
    (link : leg.finishLink? = t.link? stop) : t.IsAccess access stop [leg]
  | walked {leg walk : Leg α} (way : leg.isRide = false)
    (mode : access.teleports leg.mode = false) (walks : walk.IsTransitWalk)
    (link : walk.finishLink? = t.link? stop) : t.IsAccess access stop [leg, walk]

/-- The way from a stop: a leg that takes the traveller all the way and starts at the link of the
stop, or a walk from the stop and any other leg. -/
inductive IsEgress (t : Timetable α) (access : AccessModel α) (stop : StopId) :
    List (Leg α) → Prop
  | direct {leg : Leg α} (way : leg.isRide = false) (mode : access.teleports leg.mode = true)
    (link : leg.startLink? = t.link? stop) : t.IsEgress access stop [leg]
  | walked {leg walk : Leg α} (walks : walk.IsTransitWalk) (link : walk.startLink? = t.link? stop)
    (way : leg.isRide = false) (mode : access.teleports leg.mode = false) :
    t.IsEgress access stop [walk, leg]

/-- What stands between two rides: one walk between different stops with the links of both, and
nothing at one stop. -/
inductive IsTransferWalk (t : Timetable α) : (alighted boarding : StopId) → List (Leg α) → Prop
  | none {stop : StopId} : t.IsTransferWalk stop stop []
  | walk {alighted boarding : StopId} (ne : alighted ≠ boarding) {walk : Leg α}
    (walks : walk.IsTransitWalk) (start : walk.startLink? = t.link? alighted)
    (finish : walk.finishLink? = t.link? boarding) : t.IsTransferWalk alighted boarding [walk]

/-- Rides from one stop to another, with what stands between them. -/
inductive IsRides (t : Timetable α) : (boarding alighted : StopId) → List (Leg α) → Prop
  | one {leg : Leg α} {ride : Ride} (mode : leg.mode = .transit)
    (course : leg.course = .ride ride) :
    t.IsRides ride.accessStop ride.egressStop [leg]
  | more {first alighted : StopId} {rides change : List (Leg α)} {leg : Leg α} {ride : Ride}
    (before : t.IsRides first alighted rides)
    (changes : t.IsTransferWalk alighted ride.accessStop change)
    (mode : leg.mode = .transit) (course : leg.course = .ride ride) :
    t.IsRides first ride.egressStop (rides ++ change ++ [leg])

end Timetable

namespace Routing

variable [Scalar α] {tt : Timetable α} {s : Setting α} {r : Request α}

/-- A node lies at the place and at the link of its stop. -/
def Located (tt : Timetable α) (node : Node α) : Prop :=
  tt.coord? node.stop = some node.coord ∧ tt.link? node.stop = some node.link

/-- Every node of the network of a timetable lies at its stop. -/
theorem located_of_mem_nodes (wf : tt.WellFormed) {reach : α} {node : Node α}
    (h : node ∈ (Network.ofTimetable tt reach).nodes) : Located tt node := by
  obtain ⟨stop, hstop, hcoord, hlink⟩ := Network.exists_stop?_of_mem_nodes wf h
  constructor
  · rw [Timetable.coord?, hstop, Option.map_some, hcoord]
  · rw [Timetable.link?, hstop, Option.map_some, hlink]

omit [Scalar α] in
/-- A leg with a way is no ride. -/
theorem isRide_of_way? {leg : Leg α} {w : Way α} (h : leg.way? = some w) :
    leg.isRide = false := by
  rw [Leg.isRide, h]
  rfl

namespace Setting

/-- The leg to a stop is taken all the way, or the walk behind it starts and ends at the stop. -/
theorem addAccess_eq (ways : s.access.RunsBetween) (r : Request α) (t : Trip α) (stop : Node α) :
    s.addAccess r t stop =
      let leg := s.access.leg r.person r.start stop.coord t.clock false
      if s.access.teleports leg.mode then t.push (leg.withFinishLink stop.link)
      else (t.push leg).push
        (s.walk r.person stop.coord leg.finishLink? stop.coord (some stop.link)) := by
  obtain ⟨w, hway, -, hfinish⟩ := ways r.person r.start stop.coord t.clock
  have hjoint : (s.access.leg r.person r.start stop.coord t.clock false).finish?.getD
      stop.coord = stop.coord := by
    rw [Leg.finish?, hway, Option.map_some, Option.getD_some, hfinish]
  unfold addAccess
  dsimp only
  rw [hjoint]

/-- The leg from a stop is taken all the way, or the walk before it starts and ends at the stop. -/
theorem addEgress_eq (ways : s.access.RunsBetween) (r : Request α) (t : Trip α) (stop : Node α) :
    s.addEgress r t stop =
      let leg := s.access.leg r.person stop.coord r.finish t.clock false
      if s.access.teleports leg.mode then t.push (leg.withStartLink stop.link)
      else (t.push
        (s.walk r.person stop.coord (some stop.link) stop.coord leg.startLink?)).push leg := by
  obtain ⟨w, hway, hstart, -⟩ := ways r.person stop.coord r.finish t.clock
  have hjoint : (s.access.leg r.person stop.coord r.finish t.clock false).start?.getD
      stop.coord = stop.coord := by
    rw [Leg.start?, hway, Option.map_some, Option.getD_some, hstart]
  unfold addEgress
  dsimp only
  rw [hjoint]

/-- The way to a stop is added behind the legs so far. -/
theorem exists_access (ways : s.access.RunsBetween) (r : Request α) (t : Trip α) {stop : Node α}
    (located : Located tt stop) :
    ∃ added, (s.addAccess r t stop).legs = t.legs ++ added ∧
      tt.IsAccess s.access stop.stop added ∧ tt.Leads r.start added stop.coord := by
  obtain ⟨w, hway, hstart, hfinish⟩ := ways r.person r.start stop.coord t.clock
  rw [addAccess_eq ways]
  dsimp only
  split
  · next teleports =>
    have hlinked : ((s.access.leg r.person r.start stop.coord t.clock false).withFinishLink
        stop.link).way? = some { w with finishLink := some stop.link } := by
      rw [Leg.withFinishLink, Leg.way?_mapWay, hway, Option.map_some]
    refine ⟨_, Trip.legs_push _ _, .direct (isRide_of_way? hlinked) ?_ ?_, ?_⟩
    · rwa [← Leg.mode_mapWay] at teleports
    · rw [located.2, Leg.finishLink?, Leg.way?_departingAt, hlinked]
      rfl
    · exact Timetable.leads_singleton (Timetable.spans_of_way? hlinked hstart hfinish)
  · next walks =>
    refine ⟨_, List.append_assoc .., .walked (isRide_of_way? hway) ?_ ⟨rfl, rfl⟩ ?_, ?_⟩
    · exact Bool.eq_false_iff.mpr walks
    · exact located.2.symm
    · exact .append (Timetable.leads_singleton (Timetable.spans_of_way? hway hstart hfinish))
        (Timetable.leads_singleton ⟨rfl, rfl⟩)

/-- The way from a stop is added behind the legs so far. -/
theorem exists_egress (ways : s.access.RunsBetween) (r : Request α) (t : Trip α) {stop : Node α}
    (located : Located tt stop) :
    ∃ added, (s.addEgress r t stop).legs = t.legs ++ added ∧
      tt.IsEgress s.access stop.stop added ∧ tt.Leads stop.coord added r.finish := by
  obtain ⟨w, hway, hstart, hfinish⟩ := ways r.person stop.coord r.finish t.clock
  rw [addEgress_eq ways]
  dsimp only
  split
  · next teleports =>
    have hlinked : ((s.access.leg r.person stop.coord r.finish t.clock false).withStartLink
        stop.link).way? = some { w with startLink := some stop.link } := by
      rw [Leg.withStartLink, Leg.way?_mapWay, hway, Option.map_some]
    refine ⟨_, Trip.legs_push _ _, .direct (isRide_of_way? hlinked) ?_ ?_, ?_⟩
    · rwa [← Leg.mode_mapWay] at teleports
    · rw [located.2, Leg.startLink?, Leg.way?_departingAt, hlinked]
      rfl
    · exact Timetable.leads_singleton (Timetable.spans_of_way? hlinked hstart hfinish)
  · next walks =>
    refine ⟨_, List.append_assoc .., .walked ⟨rfl, rfl⟩ ?_ (isRide_of_way? hway) ?_, ?_⟩
    · exact located.2.symm
    · exact Bool.eq_false_iff.mpr walks
    · exact .append (Timetable.leads_singleton ⟨rfl, rfl⟩)
        (Timetable.leads_singleton (Timetable.spans_of_way? hway hstart hfinish))

/-- From a stop to the next boarding a walk is added, or nothing at one and the same stop. -/
theorem exists_change (s : Setting α) (r : Request α) (t : Trip α) {alighted boarding : Node α}
    (hfrom : Located tt alighted) (hto : Located tt boarding) :
    ∃ added, (s.approach r t (some alighted) boarding).legs = t.legs ++ added ∧
      tt.IsTransferWalk alighted.stop boarding.stop added ∧
      tt.Leads alighted.coord added boarding.coord := by
  unfold approach
  dsimp only
  split
  · next same =>
    have hcoord : alighted.coord = boarding.coord := by
      have hboth := hfrom.1
      rw [same, hto.1] at hboth
      exact (Option.some.inj hboth).symm
    refine ⟨[], (List.append_nil _).symm, ?_, hcoord⟩
    rw [same]
    exact .none
  · next differ =>
    exact ⟨_, Trip.legs_push _ _,
      .walk differ ⟨rfl, rfl⟩ hfrom.2.symm hto.2.symm,
      Timetable.leads_singleton ⟨rfl, rfl⟩⟩

end Setting

/-- The legs lead to the stop of a node where a ride has ended. -/
structure Setting.Arrived (tt : Timetable α) (s : Setting α) (r : Request α) (node : Node α)
    (legs : List (Leg α)) : Prop where
  leads : tt.Leads r.start legs node.coord
  shape : ∃ first access rides, legs = access ++ rides ∧ tt.IsAccess s.access first access ∧
    tt.IsRides first node.stop rides

/-- The legs lead to the stop of a node where a ride is boarded. -/
structure Setting.Boardable (tt : Timetable α) (s : Setting α) (r : Request α) (node : Node α)
    (legs : List (Leg α)) : Prop where
  leads : tt.Leads r.start legs node.coord
  shape : tt.IsAccess s.access node.stop legs ∨
    ∃ first alighted access rides change, legs = access ++ rides ++ change ∧
      tt.IsAccess s.access first access ∧ tt.IsRides first alighted rides ∧
      tt.IsTransferWalk alighted node.stop change

namespace Setting

/-- A ride leads from where it is boarded to where it ends. -/
theorem Boardable.alight {t : Trip α} {ride : Boarded α} {alighting : Node α}
    (h : s.Boardable tt r ride.boarding t.legs) (hfrom : Located tt ride.boarding)
    (hto : Located tt alighting) (distance : α) :
    s.Arrived tt r alighting (s.alight t ride alighting distance).legs where
  leads := h.leads.append (Timetable.leads_singleton ⟨hfrom.1, hto.1⟩)
  shape := by
    have mode : (s.rideLeg ride alighting t.clock distance).mode = .transit := rfl
    have course : (s.rideLeg ride alighting t.clock distance).course =
      .ride ⟨ride.boarding.stop, ride.line, ride.route, alighting.stop⟩ := rfl
    rcases h.shape with haccess | ⟨first, alighted, access, rides, change, hlegs, haccess, hrides,
      hchange⟩
    · exact ⟨_, _, _, rfl, haccess, .one mode course⟩
    · refine ⟨first, access, _, ?_, haccess, hrides.more hchange mode course⟩
      unfold Setting.alight
      rw [Trip.legs_push, hlegs]
      simp only [List.append_assoc]
      rfl

/-- Where a ride has ended the next one can be boarded, after a walk if need be. -/
theorem Arrived.approach {t : Trip α} {alighted boarding : Node α}
    (h : s.Arrived tt r alighted t.legs) (hfrom : Located tt alighted)
    (hto : Located tt boarding) :
    s.Boardable tt r boarding (s.approach r t (some alighted) boarding).legs := by
  obtain ⟨change, hlegs, hchange, hleads⟩ := s.exists_change r t hfrom hto
  obtain ⟨first, access, rides, heq, haccess, hrides⟩ := h.shape
  rw [hlegs]
  refine ⟨h.leads.append hleads,
    .inr ⟨first, _, access, rides, change, ?_, haccess, hrides, hchange⟩⟩
  rw [heq]

/-- The legs so far fit to where the traveller is. -/
def Fits (tt : Timetable α) (s : Setting α) (r : Request α) : Trip α × Stage α → Prop
  | (t, .atStart) => t.legs = []
  | (t, .alighted node) => Located tt node ∧ s.Arrived tt r node t.legs
  | (t, .riding ride) =>
    Located tt ride.boarding ∧ Located tt ride.reached ∧ s.Boardable tt r ride.boarding t.legs

private theorem boardable_addAccess (ways : s.access.RunsBetween) {t : Trip α} (hnone : t.legs = [])
    {boarding : Node α} (located : Located tt boarding) :
    s.Boardable tt r boarding (s.addAccess r t boarding).legs := by
  obtain ⟨access, hlegs, haccess, hleads⟩ := s.exists_access ways r t located
  rw [hlegs, hnone, List.nil_append]
  exact ⟨hleads, .inl haccess⟩

/-- Along an edge whose nodes lie at their stops the legs go on to fit. -/
theorem Fits.move (ways : s.access.RunsBetween) {x y : Trip α × Stage α} {e : Edge α}
    (h : s.Fits tt r x) (htail : Located tt e.tail) (hhead : Located tt e.head)
    (hmove : s.Move r x e y) : s.Fits tt r y := by
  cases hmove with
  | walkOn => exact h
  | alight =>
    obtain ⟨hboarding, -, hboardable⟩ := h
    exact ⟨htail, hboardable.alight hboarding htail _⟩
  | depart => exact ⟨htail, hhead, boardable_addAccess ways h htail⟩
  | change =>
    obtain ⟨hnode, harrived⟩ := h
    exact ⟨htail, hhead, harrived.approach hnode htail⟩
  | stayOn =>
    obtain ⟨hboarding, -, hboardable⟩ := h
    exact ⟨hboarding, hhead, hboardable⟩
  | switch =>
    obtain ⟨hboarding, hreached, hboardable⟩ := h
    exact ⟨htail, hhead, (hboardable.alight hboarding hreached _).approach hreached htail⟩

/-- The legs lead from the start of the request to its end without a gap, and they are the way to a
stop, rides with a walk wherever they change between different stops, and the way from a stop. -/
structure Shaped (tt : Timetable α) (s : Setting α) (r : Request α) (legs : List (Leg α)) :
    Prop where
  leads : tt.Leads r.start legs r.finish
  parts : ∃ first last access rides egress, legs = access ++ rides ++ egress ∧
    tt.IsAccess s.access first access ∧ tt.IsRides first last rides ∧
    tt.IsEgress s.access last egress

/-- After a ride the way to the end of the journey completes it. -/
theorem Arrived.addEgress (ways : s.access.RunsBetween) {t : Trip α} {node : Node α}
    (h : s.Arrived tt r node t.legs) (located : Located tt node) :
    s.Shaped tt r (s.addEgress r t node).legs := by
  obtain ⟨egress, hlegs, hegress, hleads⟩ := s.exists_egress ways r t located
  obtain ⟨first, access, rides, heq, haccess, hrides⟩ := h.shape
  rw [hlegs]
  refine ⟨h.leads.append hleads, first, _, access, rides, egress, ?_, haccess, hrides, hegress⟩
  rw [heq]

/-- A journey ends with the direct leg or has its shape. -/
theorem Fits.ending (ways : s.access.RunsBetween) {x : Trip α × Stage α} {last : Node α}
    {legs : List (Leg α)} (h : s.Fits tt r x) (hlast : Located tt last)
    (hending : s.Ending r last x legs) : legs = [s.direct r] ∨ s.Shaped tt r legs := by
  cases hending with
  | direct => exact .inl rfl
  | alighted =>
    obtain ⟨hnode, harrived⟩ := h
    exact .inr (harrived.addEgress ways hnode)
  | riding =>
    obtain ⟨hboarding, -, hboardable⟩ := h
    exact .inr ((hboardable.alight hboarding hlast _).addEgress ways hlast)

/-- Along edges of the network, whether they meet or not, an itinerary with a ride has the shape of
a journey. -/
theorem shape_of_itinerary (tt : Timetable α) (built : tt.Built) (reach : α) (s : Setting α)
    (ways : s.access.RunsBetween) (r : Request α) (path : Path α)
    (edges : ∀ e ∈ path.edges, e ∈ (Network.ofTimetable tt reach).edges)
    (last : path.last ∈ (Network.ofTimetable tt reach).nodes) (legs : List (Leg α))
    (h : s.itinerary r path = .ok legs) (ridden : ∃ leg ∈ legs, leg.isRide = true) :
    s.Shaped tt r legs := by
  have located {node : Node α} (hnode : node ∈ (Network.ofTimetable tt reach).nodes) :
      Located tt node := located_of_mem_nodes built.wellFormed hnode
  obtain ⟨x, ⟨-, hfits⟩, hending⟩ := exists_ending
    (P := fun es x ↦ (∀ e ∈ es, e ∈ (Network.ofTimetable tt reach).edges) ∧ s.Fits tt r x) h
    ⟨edges, rfl⟩ (by
      rintro e rest x y ⟨hedges, hx⟩ hmove
      obtain ⟨htail, hhead⟩ := Network.mem_nodes_of_mem_edges (hedges e List.mem_cons_self)
      exact ⟨fun e' he' ↦ hedges e' (List.mem_cons_of_mem e he'),
        hx.move ways (located htail) (located hhead) hmove⟩)
  rcases hfits.ending ways (located last) hending with rfl | hshaped
  · obtain ⟨leg, hleg, hride⟩ := ridden
    obtain ⟨w, hway, -, -⟩ := ways r.person r.start r.finish r.departure
    rw [List.mem_singleton.mp hleg, direct, isRide_of_way? hway] at hride
    cases hride
  · exact hshaped

/-- With a taxi at both ends, a journey by shuttle has its shape. -/
theorem shape_of_itinerary_shuttle : ∃ legs : List (Leg Float),
    shuttleByTaxi.itinerary shuttleRequest shuttlePath = .ok legs ∧
      shuttleByTaxi.Shaped .shuttle shuttleRequest legs := by
  have found := itinerary_shuttle (shuttleByTaxi : Setting Float) shuttleRequest shuttlePath rfl rfl
  refine ⟨_, found, ?_⟩
  refine shape_of_itinerary .shuttle Timetable.built_shuttle (Clock.time 0 0 0) shuttleByTaxi
    (fun _ start finish _ ↦ ⟨⟨start, finish, none, none⟩, rfl, rfl, rfl⟩) shuttleRequest
    shuttlePath ?_ ?_ _ found ?_
  · intro e he
    rw [List.mem_singleton.mp he]
    exact Network.shuttleRide_mem_edges
  · rw [Network.nodes_shuttle]
    exact Array.mem_of_getElem? (i := 1) rfl
  · exact ⟨_, List.mem_of_getElem? (i := 1) rfl, rfl⟩

end Setting

end Routing

end DoorToDoor
