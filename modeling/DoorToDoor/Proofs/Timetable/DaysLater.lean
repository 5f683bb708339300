import DoorToDoor.Proofs.Network.Layout
import DoorToDoor.Proofs.Timetable.Times

/-!
# Whole days later

The lookup of departures repeats every day, but only from the time on at which a vehicle of the
first day may leave the call: before, it has no earlier day to go back to. So whoever asks some days
later, at a time that is late enough (`Timetable.IsLate`), waits just as long:
`Departures.next_sub_add_days`.
-/

namespace DoorToDoor

namespace Clock

/-- The length of some days. -/
def days {α : Type} [Scalar α] (n : Nat) : α := Scalar.ofNat n * day

private theorem days_exact (n : ℕ) : (days n : EReal) = ((n * 86400 : ℝ) : EReal) := by
  rw [days, day_exact, Scalar.ofNat_exact, ← EReal.coe_mul]

/-- Days take a finite time. -/
theorem isFinite_days (n : ℕ) : Scalar.isFinite (days n : EReal) = true := by
  rw [days_exact]
  exact Scalar.isFinite_coe _

private theorem add_days_of_infinite {time : EReal} (infinite : ¬Scalar.isFinite time = true)
    (n : ℕ) :
    time + days n = time := by
  rw [days_exact]
  induction time with
  | bot => exact EReal.bot_add _
  | coe τ => exact absurd (Scalar.isFinite_coe τ) infinite
  | top => exact EReal.top_add_coe _

/-- Some days later it is the same time of day. -/
theorem remEuclid_add_days (x : ℝ) (n : ℕ) :
    Scalar.remEuclid ((x + n * 86400 : ℝ) : EReal) day = Scalar.remEuclid (x : EReal) day := by
  obtain ⟨y, hy⟩ := exists_remEuclid_day x
  obtain ⟨hnonneg, hlt, m, hm⟩ := remEuclid_day_eq_iff.mp hy
  rw [hy]
  refine remEuclid_day_eq_iff.mpr ⟨hnonneg, hlt, m + n, ?_⟩
  rw [hm]
  push_cast
  ring

end Clock

/-- Whether a time is not before any offset at which vehicles leave a call for the next one. An
infinite time always is. -/
def Timetable.IsLate (t : Timetable EReal) (time : EReal) : Prop :=
  Scalar.isFinite time = true → ∀ r ∈ t.routes, ∀ (i : ℕ) (c : Call EReal),
    r.calls[i]? = some c → i + 1 < r.calls.length → c.departs ≤ time

namespace Timetable.IsLate

variable {t : Timetable EReal} {time : EReal}

/-- A late time is late after any more time. -/
theorem add (late : t.IsLate time) {span : EReal} (hspan : Scalar.isFinite time = true → 0 ≤ span) :
    t.IsLate (time + span) := by
  intro hfinite r hr i c hc hnext
  obtain ⟨htime, -⟩ := Scalar.isFinite_of_add hfinite
  exact (late htime r hr i c hc hnext).trans (le_add_of_nonneg_right (hspan htime))

private theorem departs_le (late : t.IsLate time) (wf : t.WellFormed) {reach : EReal}
    {node : Node EReal}
    (h : node ∈ (Network.ofTimetable t reach).nodes) (departs : Network.canDepart t node = true)
    (htime : Scalar.isFinite time = true) : node.call.departs ≤ time := by
  obtain ⟨route, hroute, hmem, -, hcall, -⟩ := Network.exists_route?_of_mem_nodes wf h
  rw [Network.canDepart, Network.routeLength, hroute] at departs
  exact late htime route hmem node.position node.call hcall (of_decide_eq_true departs)

/-- From midnight on every time is late for the shuttle, which is given by its departure from the
first stop. -/
theorem shuttle (htime : 0 ≤ time) : Timetable.shuttle.IsLate time := by
  intro _ r hr i c hc hnext
  obtain rfl : r = shuttleRoute := List.mem_singleton.mp (Array.mem_toList_iff.mpr hr)
  obtain rfl : i = 0 := by
    change i + 1 < 2 at hnext
    omega
  cases hc
  change Scalar.zero ≤ time
  rwa [Scalar.zero_exact]

end Timetable.IsLate

namespace Departures

/-- Who asks some days later is told of a vehicle that leaves as many days later. The time must not
be before the offset of the call, or vehicles of earlier days would be missing. -/
theorem nextOf_add_days {departures : List EReal} (ne : departures ≠ [])
    (finite : ∀ d ∈ departures, Scalar.isFinite d = true) {call : Call EReal}
    {τ o : ℝ} (departs : call.departs = o) (late : o ≤ τ) (n : ℕ) :
    nextOf (daily departures) call ((τ : EReal) + Clock.days n) =
      nextOf (daily departures) call τ + Clock.days n := by
  obtain ⟨d, hd, hfirst⟩ := exists_firstFrom_daily ne finite
    (Scalar.remEuclid ((τ : EReal) - o) Clock.day)
  obtain ⟨δ', hδ'⟩ := Scalar.isFinite_iff_exists.mp (finite d hd)
  obtain ⟨δ, hδ⟩ := Clock.exists_remEuclid_day δ'
  obtain ⟨-, hδ1, -⟩ := Clock.remEuclid_day_eq_iff.mp hδ
  rw [← hδ', hδ] at hfirst
  -- Seen from the first stop it is the same time of day, so the same departure is chosen.
  have hfirst' : firstFrom (Scalar.remEuclid (((τ + n * 86400 : ℝ) : EReal) - o) Clock.day)
      (daily departures) = some (δ : EReal) := by
    rw [← hfirst, ← EReal.coe_sub, ← EReal.coe_sub, add_sub_right_comm, Clock.remEuclid_add_days]
  obtain ⟨k, hnext, hbelow, hbound⟩ := exists_nextOf_eq departs hfirst
  rw [hnext, Clock.days_exact, ← EReal.coe_add, ← EReal.coe_add,
    nextOf_eq_of_least departs hfirst' (k + n)]
  · congr 1
    push_cast
    ring
  · intro j hj
    rcases Nat.lt_or_ge j n with hlt | hge
    · -- On these days the vehicle leaves more than a day before the time.
      have hday : (j : ℝ) + 1 ≤ n := by exact_mod_cast hlt
      linarith
    · obtain ⟨i, rfl⟩ := Nat.exists_eq_add_of_le hge
      have hless := hbelow i (by omega)
      push_cast
      linarith
  · push_cast
    linarith

variable {t : Timetable EReal} (wf : t.WellFormed) (finite : t.IsFinite) {reach : EReal}
  {node : Node EReal} (h : node ∈ (Network.ofTimetable t reach).nodes)

include wf finite h

/-- At a node from which vehicles depart the next one leaves just as long after the time asked for
as it does some days earlier. -/
theorem next_sub_add_days (departs : Network.canDepart t node = true) {time : EReal}
    (late : t.IsLate time) (n : ℕ) (more : EReal) :
    (Departures.ofTimetable t).lookup.next node.route node.call (time + Clock.days n) + more -
        (time + Clock.days n) =
      (Departures.ofTimetable t).lookup.next node.route node.call time + more - time := by
  by_cases htime : Scalar.isFinite time = true
  · obtain ⟨route, hroute, hmem, -, hcall, -⟩ := Network.exists_route?_of_mem_nodes wf h
    obtain ⟨τ, rfl⟩ := Scalar.isFinite_iff_exists.mp htime
    obtain ⟨o, ho⟩ := Scalar.isFinite_iff_exists.mp
      (finite.departs hmem (List.mem_of_getElem? hcall))
    have hle := late.departs_le wf h departs htime
    rw [← ho, EReal.coe_le_coe_iff] at hle
    rw [next_ofTimetable hroute, next_ofTimetable hroute,
      nextOf_add_days (wf.departs route hmem) (finite.departures route hmem) ho.symm hle,
      add_right_comm, Scalar.add_sub_add_of_isFinite (Clock.isFinite_days n)]
  · rw [Clock.add_days_of_infinite htime]

end Departures

end DoorToDoor
