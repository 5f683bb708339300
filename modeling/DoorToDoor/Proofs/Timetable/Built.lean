import DoorToDoor.Proofs.Network.WellFormed
import DoorToDoor.Timetable.Builder

/-!
# Timetables that are built

The timetables that come of the empty one by adding stops, lines and routes, in any order. Whatever
the order, stops, lines and routes are found under their identifiers, routes call at known stops and
have departures, and lines list their routes: `Built.sound`. Each addition keeps this
(`Sound.addStop`, `Sound.addLine`, `Sound.addRoute`).
-/

namespace DoorToDoor.Timetable

variable {α : Type} {t : Timetable α}

/-- The timetables that the operations of a builder lead to. -/
inductive Built : Timetable α → Prop
  | empty : Built empty
  | addStop {t : Timetable α} (h : Built t) (coord : Point α) (link : LinkId) (name : String) :
    Built (t.addStop coord link name).2
  | addLine {t : Timetable α} (h : Built t) (name : String) : Built (t.addLine name).2
  | addRoute {t t' : Timetable α} {id : RouteId} {line : LineId} {name : String}
    {calls : List (Call α)} {departures : List α} (h : Built t)
    (added : t.addRoute line name calls departures = .ok (id, t')) : Built t'

/-- Routes are numbered by their places, call at stops of the timetable, and have departures. -/
structure WellFormed (t : Timetable α) : Prop where
  numbered : ∀ (i : Nat) (r : Route α), t.routes[i]? = some r → r.id.index = i
  known : ∀ r ∈ t.routes, ∀ c ∈ r.calls, c.stop.index < t.stops.size
  departs : ∀ r ∈ t.routes, r.departures ≠ []

/-- Stops and lines are numbered by their places as well, routes belong to lines of the timetable
and have two calls or more, and every line lists its routes in the order of their numbers. -/
structure Sound (t : Timetable α) : Prop extends WellFormed t where
  stop_numbered : ∀ (i : Nat) (s : Stop α), t.stops[i]? = some s → s.id.index = i
  line_numbered : ∀ (i : Nat) (l : Line), t.lines[i]? = some l → l.id.index = i
  on_line : ∀ r ∈ t.routes, r.line.index < t.lines.size
  calls : ∀ r ∈ t.routes, 2 ≤ r.calls.length
  listed : ∀ l ∈ t.lines, l.routes = (t.routes.toList.filter (·.line == l.id)).map (·.id)

section

variable {t' : Timetable α} {id : RouteId} {line : LineId} {name : String} {calls : List (Call α)}
  {departures : List α}

/-- A route is added when its line and its stops are there, it has two calls or more, and it has a
departure. It then stands behind all others, and its line lists it last. -/
theorem addRoute_eq_ok_iff : t.addRoute line name calls departures = .ok (id, t') ↔
    line.index < t.lines.size ∧ (∀ c ∈ calls, c.stop.index < t.stops.size) ∧ 2 ≤ calls.length ∧
      departures ≠ [] ∧ id = ⟨t.routes.size⟩ ∧ t' = { t with
        lines := t.lines.modify line.index fun l ↦ { l with routes := l.routes ++ [id] }
        routes := t.routes.push ⟨id, line, name, calls, departures⟩ } := by
  have hknown : calls.find? (fun c ↦ t.stops.size ≤ c.stop.index) = none ↔
      ∀ c ∈ calls, c.stop.index < t.stops.size := by simp
  unfold addRoute
  split
  · next hline => exact iff_of_false nofun fun h ↦ by omega
  · next hline =>
    split
    · next c hc =>
      refine iff_of_false nofun fun h ↦ ?_
      rw [hknown.mpr h.2.1] at hc
      cases hc
    · next hnone =>
      split
      · next hfew => exact iff_of_false nofun fun h ↦ by omega
      · next hmany =>
        split
        · next hempty =>
          exact iff_of_false nofun fun h ↦ h.2.2.2.1 (List.isEmpty_iff.mp hempty)
        · next hsome =>
          have hdeparts : departures ≠ [] := fun h ↦ hsome (List.isEmpty_iff.mpr h)
          constructor
          · intro h
            cases h
            exact ⟨by omega, hknown.mp hnone, by omega, hdeparts, rfl, rfl⟩
          · rintro ⟨-, -, -, -, rfl, rfl⟩
            rfl

end

namespace WellFormed

variable (wf : t.WellFormed)

include wf

/-- A route of the timetable is found under its identifier. -/
theorem route?_of_mem {r : Route α} (hr : r ∈ t.routes) : t.route? r.id = some r := by
  obtain ⟨i, hi⟩ := Array.mem_iff_getElem?.mp hr
  rw [route?, wf.numbered i r hi, hi]

/-- No two routes have one identifier. -/
theorem nodup_ids : (t.routes.toList.map (·.id)).Nodup := by
  rw [List.nodup_iff_pairwise_ne, List.pairwise_iff_getElem]
  intro i j hi hj hij heq
  simp only [List.length_map, Array.length_toList] at hi hj
  simp only [List.getElem_map, Array.getElem_toList] at heq
  have hleft := wf.numbered i _ (Array.getElem?_eq_getElem hi)
  have hright := wf.numbered j _ (Array.getElem?_eq_getElem hj)
  rw [heq] at hleft
  omega

/-- The stop of a call is found. -/
theorem exists_stop? {r : Route α} (hr : r ∈ t.routes) {c : Call α} (hc : c ∈ r.calls) :
    ∃ stop, t.stop? c.stop = some stop :=
  ⟨_, Array.getElem?_eq_getElem (wf.known r hr c hc)⟩

end WellFormed

namespace Sound

/-- Nothing is out of place where nothing is. -/
theorem empty : (empty : Timetable α).Sound where
  numbered i r hr := by simp [Timetable.empty] at hr
  known r hr := by simp [Timetable.empty] at hr
  departs r hr := by simp [Timetable.empty] at hr
  stop_numbered i s hs := by simp [Timetable.empty] at hs
  line_numbered i l hl := by simp [Timetable.empty] at hl
  on_line r hr := by simp [Timetable.empty] at hr
  calls r hr := by simp [Timetable.empty] at hr
  listed l hl := by simp [Timetable.empty] at hl

/-- A stop is added behind all others. -/
theorem addStop (h : t.Sound) (coord : Point α) (link : LinkId) (name : String) :
    (t.addStop coord link name).2.Sound :=
  { h with
    known := fun r hr c hc ↦ by
      have hknown := h.known r hr c hc
      simp only [Timetable.addStop, Array.size_push]
      omega
    stop_numbered := fun i s hs ↦ by
      simp only [Timetable.addStop, Array.getElem?_push] at hs
      split at hs
      · next hi =>
        cases hs
        exact hi.symm
      · exact h.stop_numbered i s hs }

/-- A line is added behind all others, and no route belongs to it yet. -/
theorem addLine (h : t.Sound) (name : String) : (t.addLine name).2.Sound :=
  { h with
    line_numbered := fun i l hl ↦ by
      simp only [Timetable.addLine, Array.getElem?_push] at hl
      split at hl
      · next hi =>
        cases hl
        exact hi.symm
      · exact h.line_numbered i l hl
    on_line := fun r hr ↦ by
      have hline := h.on_line r hr
      simp only [Timetable.addLine, Array.size_push]
      omega
    listed := fun l hl ↦ by
      rcases Array.mem_push.mp hl with hl | rfl
      · exact h.listed l hl
      · have hnone : t.routes.toList.filter (·.line == (⟨t.lines.size⟩ : LineId)) = [] := by
          refine List.filter_eq_nil_iff.mpr fun r hr hline ↦ ?_
          have hbelow := h.on_line r (Array.mem_toList_iff.mp hr)
          rw [eq_of_beq hline] at hbelow
          exact Nat.lt_irrefl _ hbelow
        exact (congrArg (List.map (·.id)) hnone).symm }

/-- A route is added behind all others, to the list of its line and to no other list. -/
theorem addRoute (h : t.Sound) {t' : Timetable α} {id : RouteId} {line : LineId} {name : String}
    {calls : List (Call α)} {departures : List α}
    (added : t.addRoute line name calls departures = .ok (id, t')) : t'.Sound := by
  obtain ⟨hline, hknown, hcalls, hdeparts, rfl, rfl⟩ := addRoute_eq_ok_iff.mp added
  -- A line of the new timetable is one of the old timetable, or the line of the route.
  have hlines : ∀ (i : Nat) (l : Line),
      (t.lines.modify line.index fun l ↦ { l with routes := l.routes ++ [⟨t.routes.size⟩] })[i]? =
          some l →
        ∃ l', t.lines[i]? = some l' ∧ l.id = l'.id ∧
          l.routes = l'.routes ++ if line == l'.id then [⟨t.routes.size⟩] else [] := by
    intro i l hl
    rw [Array.getElem?_modify] at hl
    split at hl
    · next hi =>
      obtain ⟨l', hl', rfl⟩ := Option.map_eq_some_iff.mp hl
      have hid : line = l'.id := Id.eq_of_index_eq (hi.trans (h.line_numbered i l' hl').symm)
      exact ⟨l', hl', rfl, by simp [hid]⟩
    · next hi =>
      have hid : line ≠ l.id := fun heq ↦ hi (heq ▸ h.line_numbered i l hl)
      exact ⟨l, hl, rfl, by simp [hid]⟩
  have hroutes : ∀ r ∈ t.routes.push ⟨⟨t.routes.size⟩, line, name, calls, departures⟩,
      r ∈ t.routes ∨ r = ⟨⟨t.routes.size⟩, line, name, calls, departures⟩ :=
    fun r hr ↦ Array.mem_push.mp hr
  constructor
  case toWellFormed =>
    constructor
    case numbered =>
      intro i r hr
      rw [Array.getElem?_push] at hr
      split at hr
      · next hi =>
        cases hr
        exact hi.symm
      · exact h.numbered i r hr
    case known =>
      intro r hr
      rcases hroutes r hr with hr | rfl
      · exact h.known r hr
      · exact hknown
    case departs =>
      intro r hr
      rcases hroutes r hr with hr | rfl
      · exact h.departs r hr
      · exact hdeparts
  case stop_numbered => exact h.stop_numbered
  case line_numbered =>
    intro i l hl
    obtain ⟨l', hl', hid, -⟩ := hlines i l hl
    rw [hid]
    exact h.line_numbered i l' hl'
  case on_line =>
    intro r hr
    rw [Array.size_modify]
    rcases hroutes r hr with hr | rfl
    · exact h.on_line r hr
    · exact hline
  case calls =>
    intro r hr
    rcases hroutes r hr with hr | rfl
    · exact h.calls r hr
    · exact hcalls
  case listed =>
    intro l hl
    obtain ⟨i, hi⟩ := Array.mem_iff_getElem?.mp hl
    obtain ⟨l', hl', hid, hlist⟩ := hlines i l hi
    rw [hlist, hid, h.listed l' (Array.mem_of_getElem? hl'), Array.toList_push,
      List.filter_append, List.map_append]
    congr 1
    by_cases hsame : line = l'.id
    · simp [hsame]
    · simp [hsame]

end Sound

/-- Every timetable that is built is sound. -/
theorem Built.sound (h : t.Built) : t.Sound := by
  induction h with
  | empty => exact .empty
  | addStop _ coord link name ih => exact ih.addStop coord link name
  | addLine _ name ih => exact ih.addLine name
  | addRoute _ added ih => exact ih.addRoute added

/-- Every timetable that is built is well formed. -/
theorem Built.wellFormed (h : t.Built) : t.WellFormed := h.sound.toWellFormed

/-- The times of a shuttle between two stops: when it leaves the first one and when it is at the
second one, after its departure, and when it departs. -/
structure ShuttleTimes (α : Type) where
  leaves : α
  arrives : α
  departure : α

/-- The one route of a shuttle. -/
def shuttleRouteAt (times : ShuttleTimes α) : Route α where
  id := ⟨0⟩
  line := ⟨0⟩
  name := "out"
  calls := [⟨⟨0⟩, none, some times.leaves⟩, ⟨⟨1⟩, some times.arrives, none⟩]
  departures := [times.departure]

/-- A timetable with two stops one kilometre apart and a route from the first to the second. -/
def shuttleAt [Scalar α] (times : ShuttleTimes α) : Timetable α where
  stops := #[⟨⟨0⟩, ⟨Scalar.zero, Scalar.zero⟩, ⟨0⟩, "west"⟩,
    ⟨⟨1⟩, ⟨Scalar.ofNat 1000, Scalar.zero⟩, ⟨1⟩, "east"⟩]
  lines := #[⟨⟨0⟩, "shuttle", [⟨0⟩]⟩]
  routes := #[shuttleRouteAt times]

private theorem built_shuttleAt [Scalar α] (times : ShuttleTimes α) : (shuttleAt times).Built := by
  have stops : Built (⟨(shuttleAt times).stops, #[], #[]⟩ : Timetable α) :=
    .addStop (.addStop .empty ⟨Scalar.zero, Scalar.zero⟩ ⟨0⟩ "west")
      ⟨Scalar.ofNat 1000, Scalar.zero⟩ ⟨1⟩ "east"
  have added : ((⟨(shuttleAt times).stops, #[], #[]⟩ : Timetable α).addLine "shuttle").2.addRoute
      ⟨0⟩ "out" (shuttleRouteAt times).calls (shuttleRouteAt times).departures =
      .ok (⟨0⟩, shuttleAt times) := rfl
  exact .addRoute (.addLine stops "shuttle") added

/-- The one route of a shuttle: it leaves the first stop at eight in the morning and is at the
second one ten minutes later. -/
def shuttleRoute [Scalar α] : Route α where
  id := ⟨0⟩
  line := ⟨0⟩
  name := "out"
  calls := [⟨⟨0⟩, none, some Scalar.zero⟩, ⟨⟨1⟩, some (Clock.time 0 10 0), none⟩]
  departures := [Clock.time 8 0 0]

/-- A timetable with two stops one kilometre apart and a route from the first to the second. -/
def shuttle [Scalar α] : Timetable α where
  stops := #[⟨⟨0⟩, ⟨Scalar.zero, Scalar.zero⟩, ⟨0⟩, "west"⟩,
    ⟨⟨1⟩, ⟨Scalar.ofNat 1000, Scalar.zero⟩, ⟨1⟩, "east"⟩]
  lines := #[⟨⟨0⟩, "shuttle", [⟨0⟩]⟩]
  routes := #[shuttleRoute]

/-- The times of the shuttle of the morning. -/
def ShuttleTimes.morning [Scalar α] : ShuttleTimes α :=
  ⟨Scalar.zero, Clock.time 0 10 0, Clock.time 8 0 0⟩

/-- The shuttle can be built. -/
theorem built_shuttle [Scalar α] : (shuttle : Timetable α).Built := built_shuttleAt .morning

/-- The calls of a tram at its three stops. It takes a hundred seconds from each stop to the next
and stays at the second one for so many seconds. -/
def tramCall [Scalar α] (dwell : Nat) : Nat → Call α
  | 0 => ⟨⟨0⟩, none, some Scalar.zero⟩
  | 1 => ⟨⟨1⟩, some (Scalar.ofNat 100), some (Scalar.ofNat (100 + dwell))⟩
  | _ => ⟨⟨2⟩, some (Scalar.ofNat (200 + dwell)), none⟩

/-- When the tram is at its stops, in seconds after it has left the first one. -/
def tramArrives (dwell : Nat) : Nat → Nat
  | 0 => 0
  | 1 => 100
  | _ => 200 + dwell

/-- When the tram leaves its stops, in seconds after it has left the first one. -/
def tramDeparts (dwell : Nat) : Nat → Nat
  | 0 => 0
  | 1 => 100 + dwell
  | _ => 200 + dwell

/-- The tram is at its stops at these times. -/
@[simp] theorem arrives_tramCall [Scalar α] (dwell position : Nat) :
    (tramCall dwell position : Call α).arrives = Scalar.ofNat (tramArrives dwell position) := by
  match position with
  | 0 => rfl
  | 1 => rfl
  | _ + 2 => rfl

/-- The tram leaves its stops at these times. -/
@[simp] theorem departs_tramCall [Scalar α] (dwell position : Nat) :
    (tramCall dwell position : Call α).departs = Scalar.ofNat (tramDeparts dwell position) := by
  match position with
  | 0 => rfl
  | 1 => rfl
  | _ + 2 => rfl

/-- The one route of the tram, which leaves the first stop a quarter of an hour after midnight. -/
def tramRoute [Scalar α] (dwell : Nat) : Route α where
  id := ⟨0⟩
  line := ⟨0⟩
  name := "through"
  calls := [tramCall dwell 0, tramCall dwell 1, tramCall dwell 2]
  departures := [Clock.time 0 15 0]

/-- A timetable with three stops in a row, one kilometre apart, and a tram along them. -/
def tram [Scalar α] (dwell : Nat) : Timetable α where
  stops := #[⟨⟨0⟩, ⟨Scalar.zero, Scalar.zero⟩, ⟨0⟩, "first"⟩,
    ⟨⟨1⟩, ⟨Scalar.ofNat 1000, Scalar.zero⟩, ⟨1⟩, "second"⟩,
    ⟨⟨2⟩, ⟨Scalar.ofNat 2000, Scalar.zero⟩, ⟨2⟩, "third"⟩]
  lines := #[⟨⟨0⟩, "tram", [⟨0⟩]⟩]
  routes := #[tramRoute dwell]

/-- The stops of the tram can be built. -/
theorem built_stops_tram [Scalar α] (dwell : Nat) :
    Built (⟨(tram dwell).stops, #[], #[]⟩ : Timetable α) :=
  .addStop (.addStop (.addStop .empty ⟨Scalar.zero, Scalar.zero⟩ ⟨0⟩ "first")
    ⟨Scalar.ofNat 1000, Scalar.zero⟩ ⟨1⟩ "second") ⟨Scalar.ofNat 2000, Scalar.zero⟩ ⟨2⟩ "third"

/-- The tram can be built. -/
theorem built_tram [Scalar α] (dwell : Nat) : (tram dwell : Timetable α).Built := by
  have added : ((⟨(tram dwell).stops, #[], #[]⟩ : Timetable α).addLine "tram").2.addRoute ⟨0⟩
      "through" (tramRoute dwell).calls (tramRoute dwell).departures = .ok (⟨0⟩, tram dwell) := rfl
  exact .addRoute (.addLine (built_stops_tram dwell) "tram") added

end DoorToDoor.Timetable
