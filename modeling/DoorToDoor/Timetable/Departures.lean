import DoorToDoor.Bisection
import DoorToDoor.Clock
import DoorToDoor.Timetable.Basic

/-!
# Departures

A timetable repeats every day. `Departures` keeps the departures of each route within one day in
ascending order, and `Departures.next` finds the next vehicle at a call. After the last departure of
the day comes the first one of the next. Departures at an infinite time have no time of day; they
are kept as undefined ones in front of all others, and a vehicle of theirs is never of use.
-/

namespace DoorToDoor

/-- Tells when the next vehicle of a route leaves from a call, at or after a time. -/
structure DepartureLookup (α : Type) where
  next : RouteId → Call α → α → α

/-- The departures of each route from its first stop, within one day and in ascending order. -/
structure Departures (α : Type) where
  ofRoute : Array (List α)

namespace Departures

variable {α : Type} [Scalar α]

/-- Whether a time is infinite. -/
def isInfinite (time : α) : Bool := !Scalar.isFinite time && time ≤ time

/-- The departures of a list within one day: first the infinite ones, then the others in ascending
order. -/
def daily (departures : List α) : List α :=
  let ofDay (times : List α) : List α := times.map (Scalar.remEuclid · Clock.day)
  let (endless, others) := departures.partition isInfinite
  ofDay endless ++ Scalar.sort (ofDay others)

/-- Finite departures are brought within one day and sorted. -/
theorem daily_of_finite {departures : List α}
    (finite : ∀ d ∈ departures, Scalar.isFinite d = true) :
    daily departures = Scalar.sort (departures.map (Scalar.remEuclid · Clock.day)) := by
  have noneEndless : departures.filter isInfinite = [] := by
    simp +contextual [List.filter_eq_nil_iff, isInfinite, finite]
  have allOthers : departures.filter (not ∘ isInfinite) = departures := by
    simp +contextual [List.filter_eq_self, isInfinite, finite]
  simp [daily, List.partition_eq_filter_filter, noneEndless, allOthers]

/-- Bringing departures within one day loses none. -/
@[simp] theorem length_daily (departures : List α) :
    (daily departures).length = departures.length := by
  simp [daily, Scalar.sort, List.partition_eq_filter_filter, ← List.countP_eq_length_filter,
    List.length_eq_countP_add_countP isInfinite (l := departures), Function.comp_def]

/-- The departures of all routes. -/
def ofTimetable (t : Timetable α) : Departures α := ⟨t.routes.map fun r ↦ daily r.departures⟩

/-- The departures of one route. A route outside the timetable has none. -/
def departures (d : Departures α) (route : RouteId) : List α := d.ofRoute.getD route.index []

/-- Adds days to a time until it is not before a bound, at most so many as the first argument
says. -/
def catchUp : Nat → α → α → α
  | 0, _, time => time
  | days + 1, bound, time => if time < bound then catchUp days bound (time + Clock.day) else time

/-- The first departure of a day at or after a time of day, and the first of all when the day has no
later one. -/
def firstFrom (earliest : α) (daily : List α) : Option α :=
  daily[Bisection.countFront (· < earliest) daily]?.or daily.head?

/-- In ascending order, `firstFrom` is the first departure that is not before the time of day. -/
theorem firstFrom_eq_find? {earliest : α} {daily : List α}
    (ascending : daily.Pairwise fun a b ↦ b < earliest → a < earliest) :
    firstFrom earliest daily = (daily.find? fun d ↦ !decide (d < earliest)).or daily.head? := by
  rw [firstFrom, Bisection.getElem?_countFront (by simpa using ascending)]

/-- When the next vehicle of a daily list leaves from a call, at or after a time. The time is moved
back to the first stop to choose the departure, and the departure forward by whole days until it is
not before the time. Without departures no vehicle ever comes. -/
def nextOf (daily : List α) (call : Call α) (time : α) : α :=
  let offset := call.departs
  match firstFrom (Scalar.remEuclid (time - offset) Clock.day) daily with
  | none => Scalar.infinity
  | some departure =>
    let first := departure + offset
    catchUp (Scalar.wholePart ((time - first) / Clock.day) + 2) time first

/-- When the next vehicle of a route leaves from a call, at or after a time. -/
def next (d : Departures α) (route : RouteId) (call : Call α) (time : α) : α :=
  nextOf (d.departures route) call time

/-- The lookup of a timetable. -/
def lookup (d : Departures α) : DepartureLookup α := ⟨d.next⟩

end Departures

end DoorToDoor
