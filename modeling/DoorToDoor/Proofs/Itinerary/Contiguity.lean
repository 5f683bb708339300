import Mathlib.Data.EReal.Inv
import Mathlib.Data.List.Chain
import DoorToDoor.Number.Binary64
import DoorToDoor.Proofs.Itinerary.Moves

/-!
# Journeys without a gap in time

A leg departs when the one before it arrives, and the first one when the request does, whatever the
path, the timetable and the models of costs and access: `contiguous_of_itinerary`. Legs are added
by `Trip.push` only, which keeps the clock at the arrival of the last leg.
-/

namespace DoorToDoor.Routing

variable {α : Type} [Scalar α]

/-- The first leg departs at a time and each other one when the leg before it arrives, which is
where the clock stands. -/
structure Trip.Contiguous (start : α) (t : Trip α) : Prop where
  first : ∀ leg ∈ t.legs.head?, leg.departure = start
  chain : t.legs.IsChain fun a b ↦ b.departure = a.arrival
  clock : t.clock = (t.legs.getLast?.map Leg.arrival).getD start

namespace Trip.Contiguous

variable {departure : α} {t t' : Trip α}

/-- A journey without legs has no gap. -/
theorem start (departure : α) : (Trip.start departure).Contiguous departure where
  first := nofun
  chain := List.isChain_nil
  clock := rfl

/-- Adding a leg leaves no gap. -/
theorem push (h : t.Contiguous departure) (leg : Leg α) : (t.push leg).Contiguous departure where
  first := by
    intro first hfirst
    cases hlegs : t.legs with
    | nil =>
      have hclock : t.clock = departure := by
        have hclock := h.clock
        rwa [hlegs] at hclock
      rw [legs_push, hlegs] at hfirst
      cases hfirst
      exact hclock
    | cons earlier rest =>
      apply h.first
      rw [legs_push, hlegs] at hfirst
      rw [hlegs]
      exact hfirst
  chain := by
    rw [legs_push, List.isChain_append]
    refine ⟨h.chain, List.isChain_singleton _, fun before hbefore after hafter ↦ ?_⟩
    have hclock : t.clock = before.arrival := by
      have hclock := h.clock
      rwa [Option.mem_def.mp hbefore] at hclock
    cases hafter
    exact hclock
  clock := by
    rw [legs_push, List.getLast?_append, clock_push]
    rfl

/-- Adding legs leaves no gap. -/
theorem continues (h : t.Contiguous departure) (more : t.Continues t') :
    t'.Contiguous departure := by
  induction more with
  | refl => exact h
  | push _ leg ih => exact ih.push leg

private theorem departure_head? (h : t.Contiguous departure) (ne : t.legs ≠ []) :
    t.legs.head?.map (·.departure) = some departure := by
  cases hlegs : t.legs with
  | nil => exact absurd hlegs ne
  | cons first rest =>
    have hfirst : first.departure = departure := h.first first (by rw [hlegs]; rfl)
    exact congrArg Option.some hfirst

end Trip.Contiguous

namespace Setting

variable {s : Setting α} {r : Request α}

/-- Some leg was added by ending a ride. -/
def HasRidden (s : Setting α) (r : Request α) (legs : List (Leg α)) : Prop :=
  ∃ t ride alighting distance t',
    s.closeRide r t ride alighting distance = .ok t' ∧ t'.legs <+: legs

/-- Ending a ride adds one. -/
theorem hasRidden_alight (t : Trip α) (ride : Boarded α) {alighting : Node α} (distance : α)
    (route : alighting.route = ride.route) :
    s.HasRidden r (s.alight t ride alighting distance).legs :=
  ⟨t, ride, alighting, distance, _, closeRide_eq_ok.mpr ⟨route, rfl⟩, List.prefix_rfl⟩

/-- A ride stays in a journey that goes on. -/
theorem HasRidden.continues {t t' : Trip α} (h : s.HasRidden r t.legs) (more : t.Continues t') :
    s.HasRidden r t'.legs := by
  obtain ⟨before, ride, alighting, distance, after, hclose, hprefix⟩ := h
  exact ⟨before, ride, alighting, distance, after, hclose, hprefix.trans more.isPrefix⟩

private theorem HasRidden.ne_nil {legs : List (Leg α)} (h : s.HasRidden r legs) : legs ≠ [] := by
  obtain ⟨t, ride, alighting, distance, t', hclose, hprefix⟩ := h
  obtain ⟨-, rfl⟩ := closeRide_eq_ok.mp hclose
  intro hnil
  rw [hnil, List.prefix_nil] at hprefix
  exact List.append_ne_nil_of_right_ne_nil _ (List.cons_ne_nil _ _) hprefix

/-- A journey along a path so far: it has no gap, and a ride has ended once the traveller has
alighted. -/
structure Gapless (s : Setting α) (r : Request α) (x : Trip α × Stage α) : Prop where
  contiguous : x.1.Contiguous r.departure
  hasRidden : ∀ node, x.2 = .alighted node → s.HasRidden r x.1.legs

/-- Every move leaves no gap. -/
theorem Gapless.move {x y : Trip α × Stage α} {e : Edge α} (h : s.Gapless r x)
    (hmove : s.Move r x e y) : s.Gapless r y := by
  cases hmove with
  | walkOn => exact h
  | alight kind route => exact ⟨h.contiguous.push _, fun _ _ ↦ hasRidden_alight _ _ _ route⟩
  | @depart t => exact ⟨h.contiguous.continues (s.continues_addAccess r t e.tail), nofun⟩
  | @change t node =>
    exact ⟨h.contiguous.continues (s.continues_approach r t (some node) e.tail), nofun⟩
  | stayOn => exact ⟨h.contiguous, nofun⟩
  | @switch t ride =>
    have hclosed := h.contiguous.push
      (s.rideLeg ride ride.reached t.clock (s.rideDistance ride.boarding ride.reached))
    exact ⟨hclosed.continues (s.continues_approach r _ (some ride.reached) e.tail), nofun⟩

/-- Every ending but the direct leg leaves no gap. -/
theorem Gapless.ending {x : Trip α × Stage α} {last : Node α} {legs : List (Leg α)}
    (h : s.Gapless r x) (hending : s.Ending r last x legs) :
    legs = [s.direct r] ∨
      ∃ t : Trip α, t.legs = legs ∧ t.Contiguous r.departure ∧ s.HasRidden r t.legs := by
  cases hending with
  | direct => exact .inl rfl
  | @alighted t node =>
    have more := s.continues_addEgress r t node
    exact .inr ⟨_, rfl, h.contiguous.continues more, (h.hasRidden node rfl).continues more⟩
  | @riding t ride route =>
    have hclosed := h.contiguous.push
      (s.rideLeg ride last t.clock (s.rideDistance ride.boarding last))
    have hridden := s.hasRidden_alight (r := r) t ride (s.rideDistance ride.boarding last) route
    have more := s.continues_addEgress r
      (s.alight t ride last (s.rideDistance ride.boarding last)) last
    exact .inr ⟨_, rfl, hclosed.continues more, hridden.continues more⟩

/-- An itinerary is the direct leg, or it has a ride, departs when the request does, and each later
leg departs when the leg before it arrives. -/
theorem contiguous_of_itinerary (s : Setting α) (r : Request α) (path : Path α)
    (legs : List (Leg α)) (h : s.itinerary r path = .ok legs) :
    legs = [s.direct r] ∨
      s.HasRidden r legs ∧ legs.head?.map (·.departure) = some r.departure ∧
        legs.IsChain fun a b ↦ b.departure = a.arrival := by
  obtain ⟨x, hgapless, hending⟩ := exists_ending (P := fun _ x ↦ s.Gapless r x) h
    ⟨.start r.departure, nofun⟩ fun _ _ _ _ hx hmove ↦ hx.move hmove
  rcases hgapless.ending hending with hdirect | ⟨t, rfl, hcontiguous, hridden⟩
  · exact .inl hdirect
  · exact .inr ⟨hridden, hcontiguous.departure_head? hridden.ne_nil, hcontiguous.chain⟩

/-- With a taxi at both ends, a journey by shuttle has no gap. -/
theorem contiguous_of_itinerary_shuttle : ∃ legs : List (Leg Float),
    shuttleByTaxi.itinerary shuttleRequest shuttlePath = .ok legs ∧
      shuttleByTaxi.HasRidden shuttleRequest legs ∧
      legs.head?.map (·.departure) = some (Clock.time 7 30 0) ∧
      legs.IsChain fun a b ↦ b.departure = a.arrival := by
  have found := itinerary_shuttle (shuttleByTaxi : Setting Float) shuttleRequest shuttlePath rfl rfl
  rcases contiguous_of_itinerary _ _ _ _ found with hdirect | hgapless
  · exact absurd (congrArg List.length hdirect) (by decide)
  · exact ⟨_, found, hgapless⟩

end Setting

end DoorToDoor.Routing
