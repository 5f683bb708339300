import DoorToDoor.Proofs.Timetable.Times

/-!
# Dwells

A vehicle stays at a call for a while, and a traveller in it asks for the next vehicle anew when it
has come there. The answer is the vehicle itself, unless it stays for so long that one of another
departure follows (`Timetable.DwellsWithinGaps`) or that of the next day does
(`Timetable.DwellsWithinDay`): `Departures.nextOf_of_dwell`.
-/

namespace DoorToDoor

/-- Whether a call stands between the first and the last one of a route. -/
def Route.IsIntermediate {α : Type} (r : Route α) (c : Call α) : Prop :=
  ∃ i, r.calls[i + 1]? = some c ∧ i + 2 < r.calls.length

/-- No vehicle of a route stays at an intermediate call for as long as it takes until one of another
departure follows, on the same day or on the next. -/
def Route.DwellsWithinGaps {α : Type} [Scalar α] (r : Route α) : Prop :=
  ∀ c, r.IsIntermediate c → ∀ d ∈ r.departures, ∀ d' ∈ r.departures,
    Scalar.remEuclid d Clock.day ≠ Scalar.remEuclid d' Clock.day →
      c.departs - c.arrives < Scalar.remEuclid (d - d') Clock.day

/-- No vehicle of a route stays at an intermediate call for a day. -/
def Route.DwellsWithinDay {α : Type} [Scalar α] (r : Route α) : Prop :=
  ∀ c, r.IsIntermediate c → c.departs - c.arrives < Clock.day

namespace Timetable

variable {α : Type} [Scalar α]

/-- Whether no vehicle of any route stays at an intermediate call for as long as it takes until one
of another departure follows. -/
def DwellsWithinGaps (t : Timetable α) : Prop := ∀ r ∈ t.routes, r.DwellsWithinGaps

/-- Whether no vehicle of any route stays at an intermediate call for a day. -/
def DwellsWithinDay (t : Timetable α) : Prop := ∀ r ∈ t.routes, r.DwellsWithinDay

/-- A tram has no other one that could follow. -/
theorem dwellsWithinGaps_tram (dwell : ℕ) : (tram dwell : Timetable α).DwellsWithinGaps := by
  intro r hr c _ d hd d' hd' other
  obtain rfl : r = tramRoute dwell := List.mem_singleton.mp (Array.mem_toList_iff.mpr hr)
  obtain rfl := List.mem_singleton.mp hd
  obtain rfl := List.mem_singleton.mp hd'
  exact absurd rfl other

/-- A tram stays at its second stop for less than a day if it does so for less seconds. -/
theorem dwellsWithinDay_tram {dwell : ℕ} (short : dwell < 86400) :
    (tram dwell : Timetable EReal).DwellsWithinDay := by
  intro r hr c hc
  obtain rfl : r = tramRoute dwell := List.mem_singleton.mp (Array.mem_toList_iff.mpr hr)
  obtain ⟨i, hi, hlast⟩ := hc
  have hlength : i + 2 < 3 := hlast
  obtain rfl : i = 0 := by omega
  obtain rfl : c = tramCall dwell 1 := (Option.some.inj hi).symm
  rw [departs_tramCall, arrives_tramCall, Scalar.ofNat_exact, Scalar.ofNat_exact, ← EReal.coe_sub,
    Clock.day_exact, EReal.coe_lt_coe_iff]
  norm_num [tramDeparts, tramArrives]
  exact short

end Timetable

namespace Departures

/-- The departures of a day stand in ascending order. -/
theorem pairwise_daily {departures : List EReal}
    (finite : ∀ d ∈ departures, Scalar.isFinite d = true) :
    (daily departures).Pairwise (· ≤ ·) := by
  have hbefore (a b : EReal) : Scalar.before a b = true ↔ a ≤ b := by
    rw [Scalar.before, Scalar.order_exact, bne_iff_ne, compare_le_iff_le]
  rw [daily_of_finite finite, Scalar.sort]
  refine (List.pairwise_mergeSort ?_ ?_ _).imp (hbefore _ _).mp
  · intro a b c hab hbc
    exact (hbefore a c).mpr (((hbefore a b).mp hab).trans ((hbefore b c).mp hbc))
  · intro a b
    rw [Bool.or_eq_true, hbefore, hbefore]
    exact le_total a b

section

variable {daily : List EReal} (sorted : daily.Pairwise (· ≤ ·)) {earliest δ : EReal}

include sorted

/-- The first departure from a time of day on is the least that is not too early, or the least of
all when all are too early. -/
theorem least_of_firstFrom (first : firstFrom earliest daily = some δ) :
    earliest ≤ δ ∧ (∀ x ∈ daily, x < δ → x < earliest) ∨
      (∀ x ∈ daily, x < earliest) ∧ ∀ x ∈ daily, δ ≤ x := by
  rw [firstFrom_eq_find? (sorted.imp fun hle hlt ↦ hle.trans_lt hlt)] at first
  cases hfind : daily.find? fun d ↦ !decide (d < earliest) with
  | some x =>
    rw [hfind, Option.some_or, Option.some.injEq] at first
    subst first
    obtain ⟨hx, front, rest, rfl, hfront⟩ := List.find?_eq_some_iff_append.mp hfind
    refine .inl ⟨by simpa using hx, fun y hy hlt ↦ ?_⟩
    rcases List.mem_append.mp hy with hy | hy
    · simpa using hfront y hy
    · rcases List.mem_cons.mp hy with rfl | hy
      · exact absurd hlt (lt_irrefl y)
      · exact absurd hlt
          (not_lt_of_ge ((List.pairwise_cons.mp (List.pairwise_append.mp sorted).2.1).1 y hy))
  | none =>
    rw [hfind, Option.none_or] at first
    refine .inr ⟨fun x hx ↦ by simpa using List.find?_eq_none.mp hfind x hx, fun x hx ↦ ?_⟩
    cases daily with
    | nil => cases hx
    | cons d rest =>
      cases first
      rcases List.mem_cons.mp hx with rfl | hx
      · exact le_rfl
      · exact (List.pairwise_cons.mp sorted).1 x hx

variable (mem : δ ∈ daily)

include mem

/-- A departure that is not too early is the first from a time of day on if all before it are too
early. -/
theorem firstFrom_eq_of_le (fits : earliest ≤ δ) (before : ∀ x ∈ daily, x < δ → x < earliest) :
    firstFrom earliest daily = some δ := by
  obtain ⟨x, hx, hfirst⟩ := exists_firstFrom (List.ne_nil_of_mem mem) earliest
  rw [hfirst]
  rcases least_of_firstFrom sorted hfirst with ⟨hfits, hbefore⟩ | ⟨past, -⟩
  · have hle : x ≤ δ := le_of_not_gt fun hlt ↦ not_lt_of_ge fits (hbefore δ mem hlt)
    have hge : δ ≤ x := le_of_not_gt fun hlt ↦ not_lt_of_ge hfits (before x hx hlt)
    rw [hle.antisymm hge]
  · exact absurd (past δ mem) (not_lt_of_ge fits)

/-- When all departures of a day are too early, the least of them is the first from a time of day
on. -/
theorem firstFrom_eq_of_lt (past : ∀ x ∈ daily, x < earliest) (least : ∀ x ∈ daily, δ ≤ x) :
    firstFrom earliest daily = some δ := by
  obtain ⟨x, hx, hfirst⟩ := exists_firstFrom (List.ne_nil_of_mem mem) earliest
  rw [hfirst]
  rcases least_of_firstFrom sorted hfirst with ⟨hfits, -⟩ | ⟨-, hleast⟩
  · exact absurd (past x hx) (not_lt_of_ge hfits)
  · rw [(hleast δ mem).antisymm (least x hx)]

end

section

variable {departures : List EReal} (finite : ∀ d ∈ departures, Scalar.isFinite d = true)
  {d : EReal} (hd : d ∈ departures) {δ dwell : ℝ}
  (hδ : Scalar.remEuclid d Clock.day = (δ : EReal))
  (gaps : ∀ d' ∈ departures, Scalar.remEuclid d Clock.day ≠ Scalar.remEuclid d' Clock.day →
    (dwell : EReal) < Scalar.remEuclid (d - d') Clock.day)

include finite

/-- The departures of a day are numbers of seconds below a day. -/
theorem exists_real_of_mem_daily {x : EReal} (hx : x ∈ daily departures) :
    ∃ y : ℝ, (y : EReal) = x ∧ 0 ≤ y ∧ y < 86400 := by
  obtain ⟨d, hd, rfl⟩ := (mem_daily_iff finite).mp hx
  obtain ⟨τ, rfl⟩ := Scalar.isFinite_iff_exists.mp (finite d hd)
  obtain ⟨y, hy⟩ := Clock.exists_remEuclid_day τ
  obtain ⟨hy0, hy1, -⟩ := Clock.remEuclid_day_eq_iff.mp hy
  exact ⟨y, hy.symm, hy0, hy1⟩

include hd hδ

/-- A departure of the route, brought within one day, is one of the day. -/
theorem mem_daily_of_mem : (δ : EReal) ∈ daily departures :=
  (mem_daily_iff finite).mpr ⟨d, hd, hδ⟩

private theorem day_of_mem : 0 ≤ δ ∧ δ < 86400 := by
  obtain ⟨y, hy, hday⟩ := exists_real_of_mem_daily finite (mem_daily_of_mem finite hd hδ)
  exact EReal.coe_injective hy ▸ hday

include gaps

private theorem gap_of_mem_daily {x : ℝ} (hx : (x : EReal) ∈ daily departures) (other : x ≠ δ) :
    0 ≤ x ∧ (x < δ ∧ dwell < δ - x ∨ δ < x ∧ dwell < δ - x + 86400) := by
  obtain ⟨d', hd', hrem⟩ := (mem_daily_iff finite).mp hx
  obtain ⟨τ, rfl⟩ := Scalar.isFinite_iff_exists.mp (finite d hd)
  obtain ⟨τ', rfl⟩ := Scalar.isFinite_iff_exists.mp (finite d' hd')
  obtain ⟨gap, hgap⟩ := Clock.exists_remEuclid_day (τ - τ')
  have hlt := gaps _ hd' (by
    rw [hδ, hrem]
    exact fun same ↦ other (EReal.coe_injective same).symm)
  rw [← EReal.coe_sub, hgap, EReal.coe_lt_coe_iff] at hlt
  obtain ⟨hδ0, hδ1, n, hn⟩ := Clock.remEuclid_day_eq_iff.mp hδ
  obtain ⟨hx0, hx1, m, hm⟩ := Clock.remEuclid_day_eq_iff.mp hrem
  refine ⟨hx0, ?_⟩
  -- The gap is the difference of the times of day, with a day added when this is negative.
  rcases lt_or_gt_of_ne other with before | behind
  · have hsame := Clock.remEuclid_day_eq_iff (x := τ - τ') (y := δ - x) |>.mpr
      ⟨by linarith, by linarith, n - m, by push_cast; linarith⟩
    rw [hgap, EReal.coe_eq_coe_iff] at hsame
    exact .inl ⟨before, hsame ▸ hlt⟩
  · have hsame := Clock.remEuclid_day_eq_iff (x := τ - τ') (y := δ - x + 86400) |>.mpr
      ⟨by linarith, by linarith, n - m - 1, by push_cast; linarith⟩
    rw [hgap, EReal.coe_eq_coe_iff] at hsame
    exact .inr ⟨behind, hsame ▸ hlt⟩

-- The vehicle has come on the day on which it leaves.
private theorem firstFrom_of_dwell_le (nonneg : 0 ≤ dwell) (today : dwell ≤ δ) (k : ℕ) :
    firstFrom (Scalar.remEuclid ((δ + k * 86400 - dwell : ℝ) : EReal) Clock.day)
      (daily departures) = some (δ : EReal) := by
  obtain ⟨-, hday⟩ := day_of_mem finite hd hδ
  have hearliest : Scalar.remEuclid ((δ + k * 86400 - dwell : ℝ) : EReal) Clock.day =
      ((δ - dwell : ℝ) : EReal) := by
    refine Clock.remEuclid_day_eq_iff.mpr ⟨by linarith, by linarith, k, ?_⟩
    push_cast
    ring
  rw [hearliest]
  apply firstFrom_eq_of_le (pairwise_daily finite) (mem_daily_of_mem finite hd hδ)
  · exact EReal.coe_le_coe_iff.mpr (by linarith)
  · intro x hx hlt
    obtain ⟨y, rfl, -, -⟩ := exists_real_of_mem_daily finite hx
    rw [EReal.coe_lt_coe_iff] at hlt ⊢
    obtain ⟨-, ⟨-, hgap⟩ | ⟨behind, -⟩⟩ := gap_of_mem_daily finite hd hδ gaps hx hlt.ne
    · linarith
    · exact absurd hlt behind.not_gt

-- It has come on the day before, and is the first vehicle of the day on which it leaves.
private theorem firstFrom_of_lt_dwell (short : dwell < 86400) (yesterday : δ < dwell) (k : ℕ) :
    firstFrom (Scalar.remEuclid ((δ + k * 86400 - dwell : ℝ) : EReal) Clock.day)
      (daily departures) = some (δ : EReal) := by
  obtain ⟨hday, -⟩ := day_of_mem finite hd hδ
  have hearliest : Scalar.remEuclid ((δ + k * 86400 - dwell : ℝ) : EReal) Clock.day =
      ((δ - dwell + 86400 : ℝ) : EReal) := by
    refine Clock.remEuclid_day_eq_iff.mpr ⟨by linarith, by linarith, k - 1, ?_⟩
    push_cast
    ring
  have hbehind {y : ℝ} (hy : (y : EReal) ∈ daily departures) (other : y ≠ δ) :
      δ < y ∧ dwell < δ - y + 86400 := by
    obtain ⟨hnonneg, ⟨before, hgap⟩ | h⟩ := gap_of_mem_daily finite hd hδ gaps hy other
    · linarith
    · exact h
  rw [hearliest]
  apply firstFrom_eq_of_lt (pairwise_daily finite) (mem_daily_of_mem finite hd hδ)
  · intro x hx
    obtain ⟨y, rfl, -, -⟩ := exists_real_of_mem_daily finite hx
    rw [EReal.coe_lt_coe_iff]
    by_cases same : y = δ
    · linarith
    · linarith [(hbehind hx same).2]
  · intro x hx
    obtain ⟨y, rfl, -, -⟩ := exists_real_of_mem_daily finite hx
    rw [EReal.coe_le_coe_iff]
    by_cases same : y = δ
    · exact same.ge
    · exact (hbehind hx same).1.le

variable (nonneg : 0 ≤ dwell) (short : dwell < 86400)

include nonneg short

/-- From the time of day on at which a vehicle comes to a call, counted back to its first stop, the
first departure is that of the vehicle. -/
theorem firstFrom_of_dwell (k : ℕ) :
    firstFrom (Scalar.remEuclid ((δ + k * 86400 - dwell : ℝ) : EReal) Clock.day)
      (daily departures) = some (δ : EReal) := by
  rcases le_or_gt dwell δ with today | yesterday
  · exact firstFrom_of_dwell_le finite hd hδ gaps nonneg today k
  · exact firstFrom_of_lt_dwell finite hd hδ gaps short yesterday k

/-- Who asks for the next vehicle when one has come to a call finds this one, if it stays for less
than a day and less than the gaps to other vehicles of the route. -/
theorem nextOf_of_dwell {call : Call EReal} {arrival : ℝ}
    (departs : call.departs = ((arrival + dwell : ℝ) : EReal)) (k : ℕ) :
    nextOf (daily departures) call ((δ + k * 86400 + arrival : ℝ) : EReal) =
      ((δ + k * 86400 + (arrival + dwell) : ℝ) : EReal) := by
  have hfirst : firstFrom (Scalar.remEuclid (((δ + k * 86400 + arrival : ℝ) : EReal) -
      ((arrival + dwell : ℝ) : EReal)) Clock.day) (daily departures) = some (δ : EReal) := by
    rw [← firstFrom_of_dwell finite hd hδ gaps nonneg short k, ← EReal.coe_sub]
    congr 3
    ring
  rw [nextOf_eq_of_least departs hfirst k]
  · congr 1
    ring
  · intro j hj
    have hle : (j : ℝ) + 1 ≤ k := by exact_mod_cast hj
    linarith
  · linarith

end

end Departures

/-- Whether a vehicle of a route leaves its first stop at a time. -/
def Timetable.StartsAt (t : Timetable EReal) (id : RouteId) (starts : EReal) : Prop :=
  ∃ route, t.route? id = some route ∧ ∃ d ∈ route.departures, ∃ k : ℕ,
    starts = Scalar.remEuclid d Clock.day + Scalar.ofNat k * Clock.day

/-- Vehicles start at finite times. -/
theorem Timetable.StartsAt.isFinite {t : Timetable EReal} {id : RouteId} {starts : EReal}
    (h : t.StartsAt id starts) : Scalar.isFinite starts = true := by
  obtain ⟨route, -, d, -, k, rfl⟩ := h
  exact Scalar.isFinite_add (Scalar.isFinite_remEuclid d Clock.day)
    (Scalar.isFinite_mul (Scalar.isFinite_ofNat k) (Scalar.isFinite_ofNat _))

namespace Departures

variable {t : Timetable EReal} (wf : t.WellFormed) (finite : t.IsFinite) {reach : EReal}
  {node : Node EReal} (h : node ∈ (Network.ofTimetable t reach).nodes)

include wf finite h

/-- The next vehicle at a node is one that leaves the first stop of its route. -/
theorem exists_startsAt_of_mem_nodes {time : EReal} (htime : Scalar.isFinite time = true) :
    ∃ starts, t.StartsAt node.route starts ∧
      (Departures.ofTimetable t).lookup.next node.route node.call time =
        starts + node.call.departs := by
  obtain ⟨route, hroute, hmem, -, hcall, -⟩ := Network.exists_route?_of_mem_nodes wf h
  obtain ⟨d, hd, k, hnext, -⟩ := exists_vehicle_of_nextOf (wf.departs route hmem)
    (finite.departures route hmem) (finite.departs hmem (List.mem_of_getElem? hcall)) htime
  exact ⟨_, ⟨route, hroute, d, hd, k, rfl⟩, by rw [next_ofTimetable hroute, hnext]⟩

/-- Who asks for the next vehicle at a node where one has come to a call between the first and the
last of its route finds this one, unless it stays too long. -/
theorem next_of_startsAt {route : Route EReal} (found : t.route? node.route = some route)
    (ordered : route.Ordered) (gaps : route.DwellsWithinGaps) (day : route.DwellsWithinDay)
    {starts : EReal} (run : t.StartsAt node.route starts) (behind : 0 < node.position)
    (before : Network.canDepart t node = true) :
    (Departures.ofTimetable t).lookup.next node.route node.call (starts + node.call.arrives) =
      starts + node.call.departs := by
  obtain ⟨_, hroute, hmem, -, hcall, -⟩ := Network.exists_route?_of_mem_nodes wf h
  cases hroute.symm.trans found
  obtain ⟨_, hroute', d, hd, k, rfl⟩ := run
  cases hroute.symm.trans hroute'
  have hintermediate : route.IsIntermediate node.call := by
    have hlength : node.position + 1 < route.calls.length := by
      rw [Network.canDepart, Network.routeLength, hroute] at before
      exact of_decide_eq_true before
    obtain ⟨i, hi⟩ := Nat.exists_eq_succ_of_ne_zero behind.ne'
    rw [hi] at hcall hlength
    exact ⟨i, hcall, hlength⟩
  have hfinite := finite.departures route hmem
  obtain ⟨a, ha⟩ := Scalar.isFinite_iff_exists.mp
    (finite.arrives hmem (List.mem_of_getElem? hcall))
  obtain ⟨o, ho⟩ := Scalar.isFinite_iff_exists.mp
    (finite.departs hmem (List.mem_of_getElem? hcall))
  obtain ⟨δ, hδ⟩ := Scalar.isFinite_iff_exists.mp (Scalar.isFinite_remEuclid d Clock.day)
  have hnonneg := ordered.dwell node.call (List.mem_of_getElem? hcall)
  have hday := day node.call hintermediate
  rw [← ha, ← ho, EReal.coe_le_coe_iff] at hnonneg
  rw [← ha, ← ho, ← EReal.coe_sub, Clock.day_exact, EReal.coe_lt_coe_iff] at hday
  have hgaps : ∀ d' ∈ route.departures,
      Scalar.remEuclid d Clock.day ≠ Scalar.remEuclid d' Clock.day →
        ((o - a : ℝ) : EReal) < Scalar.remEuclid (d - d') Clock.day := by
    intro d' hd' other
    have hgap := gaps node.call hintermediate d hd d' hd' other
    rwa [← ha, ← ho, ← EReal.coe_sub] at hgap
  have hdeparts : node.call.departs = ((a + (o - a) : ℝ) : EReal) := by
    rw [← ho, add_sub_cancel]
  have hnext := nextOf_of_dwell hfinite hd hδ.symm hgaps (by linarith) hday hdeparts k
  rw [next_ofTimetable hroute, ← ha, ← ho, ← hδ, Clock.day_exact, Scalar.ofNat_exact,
    ← EReal.coe_mul, ← EReal.coe_add, ← EReal.coe_add, ← EReal.coe_add, hnext, add_sub_cancel]

end Departures

end DoorToDoor
