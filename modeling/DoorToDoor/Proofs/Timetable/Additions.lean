import DoorToDoor.Proofs.Timetable.Built

/-!
# Timetables after any additions

A builder answers each addition of a stop, a line or a route with an identifier or with the reason
why a route is refused. Whatever was added before, in whatever order, and whatever was refused, the
timetable is sound, every route stands in the list of exactly one line, additions leave what is
there in its place, and a refused route leaves the timetable as it is: `sound_after`.
-/

namespace DoorToDoor

/-- Whether a line is another one that may have got more routes. -/
structure Line.Extends (l l' : Line) : Prop where
  id_eq : l'.id = l.id
  name_eq : l'.name = l.name
  routes : l.routes <+: l'.routes

namespace Timetable

variable {α : Type} {t : Timetable α}

/-- A call of a builder. -/
inductive Addition (α : Type)
  | stop (coord : Point α) (link : LinkId) (name : String)
  | line (name : String)
  | route (line : LineId) (name : String) (calls : List (Call α)) (departures : List α)

/-- The identifier that an addition is answered with. -/
inductive NewId
  | stop (id : StopId)
  | line (id : LineId)
  | route (id : RouteId)

/-- What an addition is answered with, and the timetable after it. -/
def perform (t : Timetable α) : Addition α → Except Error NewId × Timetable α
  | .stop coord link name =>
    let (id, t') := t.addStop coord link name
    (.ok (.stop id), t')
  | .line name =>
    let (id, t') := t.addLine name
    (.ok (.line id), t')
  | .route line name calls departures =>
    match t.addRoute line name calls departures with
    | .ok (id, t') => (.ok (.route id), t')
    | .error e => (.error e, t)

/-- The timetable after additions. -/
def after (t : Timetable α) (additions : List (Addition α)) : Timetable α :=
  additions.foldl (fun t a ↦ (t.perform a).2) t

/-- An addition that is refused leaves the timetable as it is. -/
theorem perform_snd_of_error {a : Addition α} {e : Error} (h : (t.perform a).1 = .error e) :
    (t.perform a).2 = t := by
  cases a with
  | stop coord link name => cases h
  | line name => cases h
  | route line name calls departures =>
    rw [perform] at h ⊢
    split
    · next hadded =>
      rw [hadded] at h
      cases h
    · rfl

/-- An addition leads from one timetable that is built to another. -/
theorem Built.perform (h : t.Built) (a : Addition α) : (t.perform a).2.Built := by
  cases a with
  | stop coord link name => exact h.addStop coord link name
  | line name => exact h.addLine name
  | route line name calls departures =>
    rw [Timetable.perform]
    split
    · next id t' hadded => exact h.addRoute hadded
    · exact h

/-- Any number of additions lead from one timetable that is built to another. -/
theorem Built.after (h : t.Built) (additions : List (Addition α)) : (t.after additions).Built :=
  List.foldlRecOn additions _ h fun _ ht a _ ↦ ht.perform a

/-- Whether a timetable has all that another one has, in the same places: stops and routes as they
are, and lines that may have got more routes. -/
structure Grows (t t' : Timetable α) : Prop where
  stops : ∀ (i : Nat) (s : Stop α), t.stops[i]? = some s → t'.stops[i]? = some s
  routes : ∀ (i : Nat) (r : Route α), t.routes[i]? = some r → t'.routes[i]? = some r
  lines : ∀ (i : Nat) (l : Line), t.lines[i]? = some l → ∃ l', t'.lines[i]? = some l' ∧ l.Extends l'

namespace Grows

/-- Every timetable has what it has. -/
theorem refl (t : Timetable α) : t.Grows t where
  stops _ _ h := h
  routes _ _ h := h
  lines _ l h := ⟨l, h, rfl, rfl, List.prefix_rfl⟩

/-- What a grown timetable has stays when it grows further. -/
theorem trans {t' t'' : Timetable α} (h : t.Grows t') (h' : t'.Grows t'') : t.Grows t'' where
  stops i s hs := h'.stops i s (h.stops i s hs)
  routes i r hr := h'.routes i r (h.routes i r hr)
  lines i l hl := by
    obtain ⟨l', hl', hid, hname, hroutes⟩ := h.lines i l hl
    obtain ⟨l'', hl'', hid', hname', hroutes'⟩ := h'.lines i l' hl'
    exact ⟨l'', hl'', hid'.trans hid, hname'.trans hname, hroutes.trans hroutes'⟩

private theorem getElem?_push_of_some {β : Type} {xs : Array β} {i : Nat} {x : β} (y : β)
    (h : xs[i]? = some x) : (xs.push y)[i]? = some x := by
  have hlt := (Array.getElem?_eq_some_iff.mp h).1
  rw [Array.getElem?_push, if_neg (Nat.ne_of_lt hlt), h]

/-- A timetable grows by an addition. -/
theorem perform (t : Timetable α) (a : Addition α) : t.Grows (t.perform a).2 := by
  cases a with
  | stop coord link name =>
    exact { refl t with stops := fun i s hs ↦ getElem?_push_of_some _ hs }
  | line name =>
    exact { refl t with
      lines := fun i l hl ↦ ⟨l, getElem?_push_of_some _ hl, rfl, rfl, List.prefix_rfl⟩ }
  | route line name calls departures =>
    rw [Timetable.perform]
    split
    · next id t' hadded =>
      obtain ⟨-, -, -, -, rfl, rfl⟩ := addRoute_eq_ok_iff.mp hadded
      refine ⟨fun _ _ hs ↦ hs, fun i r hr ↦ getElem?_push_of_some _ hr, fun i l hl ↦ ?_⟩
      dsimp only
      rw [Array.getElem?_modify, hl]
      split
      · exact ⟨_, rfl, rfl, rfl, List.prefix_append _ _⟩
      · exact ⟨l, rfl, rfl, rfl, List.prefix_rfl⟩
    · exact refl t

/-- A timetable grows by any number of additions. -/
theorem after (t : Timetable α) (additions : List (Addition α)) : t.Grows (t.after additions) := by
  induction additions generalizing t with
  | nil => exact refl t
  | cons a rest ih => exact (perform t a).trans (ih (t.perform a).2)

end Grows

namespace Sound

variable (h : t.Sound)

include h

private theorem eq_of_id_eq {r r' : Route α} (hr : r ∈ t.routes) (hr' : r' ∈ t.routes)
    (same : r.id = r'.id) : r = r' := by
  have hfound := h.route?_of_mem hr
  rw [same, h.route?_of_mem hr'] at hfound
  exact (Option.some.inj hfound).symm

private theorem line_eq_of_id_eq {l l' : Line} (hl : l ∈ t.lines) (hl' : l' ∈ t.lines)
    (same : l.id = l'.id) : l = l' := by
  obtain ⟨i, hi⟩ := Array.mem_iff_getElem?.mp hl
  obtain ⟨j, hj⟩ := Array.mem_iff_getElem?.mp hl'
  have hij : i = j := by rw [← h.line_numbered i l hi, ← h.line_numbered j l' hj, same]
  subst hij
  exact Option.some.inj (hi.symm.trans hj)

private theorem mem_routes_iff {l : Line} (hl : l ∈ t.lines) {r : Route α} (hr : r ∈ t.routes) :
    r.id ∈ l.routes ↔ r.line = l.id := by
  rw [h.listed l hl, List.mem_map]
  constructor
  · rintro ⟨r', hr', hid⟩
    obtain ⟨hmem, hline⟩ := List.mem_filter.mp hr'
    rw [← h.eq_of_id_eq (Array.mem_toList_iff.mp hmem) hr hid]
    exact eq_of_beq hline
  · exact fun hline ↦
      ⟨r, List.mem_filter.mpr ⟨Array.mem_toList_iff.mpr hr, beq_iff_eq.mpr hline⟩, rfl⟩

/-- No line lists a route twice. -/
theorem nodup_routes {l : Line} (hl : l ∈ t.lines) : l.routes.Nodup := by
  rw [h.listed l hl]
  exact h.nodup_ids.sublist (List.filter_sublist.map _)

/-- Every route stands in the list of exactly one line, and once. -/
theorem exists_line {r : Route α} (hr : r ∈ t.routes) : ∃ l ∈ t.lines, l.routes.count r.id = 1 ∧
    ∀ l' ∈ t.lines, r.id ∈ l'.routes → l' = l := by
  obtain ⟨l, hfound⟩ : ∃ l, t.lines[r.line.index]? = some l :=
    ⟨_, Array.getElem?_eq_getElem (h.on_line r hr)⟩
  have hl := Array.mem_of_getElem? hfound
  have hid : r.line = l.id := Id.eq_of_index_eq (h.line_numbered _ l hfound).symm
  have hlisted := (h.mem_routes_iff hl hr).mpr hid
  refine ⟨l, hl, List.count_eq_one_of_mem (h.nodup_routes hl) hlisted, fun l' hl' hmem ↦ ?_⟩
  exact h.line_eq_of_id_eq hl' hl (((h.mem_routes_iff hl' hr).mp hmem).symm.trans hid)

end Sound

/-- Why a route is refused. A line that is not there is named before a stop that is not there, the
first such stop before too few calls, and these before missing departures. -/
inductive Refuses (t : Timetable α) (line : LineId) (name : String) (calls : List (Call α))
    (departures : List α) : Error → Prop
  | unknown_line (line_out : t.line? line = none) :
    Refuses t line name calls departures (.unknownLine line)
  | unknown_stop {before : List (Call α)} {c : Call α} {rest : List (Call α)}
    (line_in : t.line? line ≠ none) (split : calls = before ++ c :: rest)
    (stops_in : ∀ b ∈ before, t.stop? b.stop ≠ none) (stop_out : t.stop? c.stop = none) :
    Refuses t line name calls departures (.unknownStop c.stop)
  | few_calls (line_in : t.line? line ≠ none) (stops_in : ∀ c ∈ calls, t.stop? c.stop ≠ none)
    (few : calls.length < 2) :
    Refuses t line name calls departures (.invalidRoute name .fewerThanTwoStops)
  | no_departures (line_in : t.line? line ≠ none)
    (stops_in : ∀ c ∈ calls, t.stop? c.stop ≠ none) (many : 2 ≤ calls.length)
    (none_given : departures = []) :
    Refuses t line name calls departures (.invalidRoute name .noDepartures)

private theorem line?_eq_none_iff {line : LineId} :
    t.line? line = none ↔ t.lines.size ≤ line.index :=
  Array.getElem?_eq_none_iff

private theorem stop?_eq_none_iff {stop : StopId} :
    t.stop? stop = none ↔ t.stops.size ≤ stop.index :=
  Array.getElem?_eq_none_iff

/-- A route is refused for the first reason against it. -/
theorem addRoute_eq_error_iff (t : Timetable α) (line : LineId) (name : String)
    (calls : List (Call α)) (departures : List α) (e : Error) :
    t.addRoute line name calls departures = .error e ↔ t.Refuses line name calls departures e := by
  have hfound : ∀ c, calls.find? (fun c ↦ t.stops.size ≤ c.stop.index) = some c ↔
      t.stop? c.stop = none ∧
        ∃ before rest, calls = before ++ c :: rest ∧ ∀ b ∈ before, t.stop? b.stop ≠ none := by
    simp [List.find?_eq_some_iff_append, stop?_eq_none_iff]
  have hnone : calls.find? (fun c ↦ t.stops.size ≤ c.stop.index) = none ↔
      ∀ c ∈ calls, t.stop? c.stop ≠ none := by
    simp [stop?_eq_none_iff]
  unfold addRoute
  constructor
  · intro h
    split at h
    · next out =>
      cases h
      exact .unknown_line (line?_eq_none_iff.mpr out)
    · next within =>
      have line_in := mt line?_eq_none_iff.mp within
      split at h
      · next c hc =>
        cases h
        obtain ⟨stop_out, before, rest, split, stops_in⟩ := (hfound c).mp hc
        exact .unknown_stop line_in split stops_in stop_out
      · next hall =>
        have stops_in := hnone.mp hall
        split at h
        · next few =>
          cases h
          exact .few_calls line_in stops_in few
        · next many =>
          split at h
          · next none_given =>
            cases h
            exact .no_departures line_in stops_in (Nat.le_of_not_lt many)
              (List.isEmpty_iff.mp none_given)
          · cases h
  · intro h
    cases h with
    | unknown_line line_out => rw [if_pos (line?_eq_none_iff.mp line_out)]
    | unknown_stop line_in split stops_in stop_out =>
      rw [if_neg (mt line?_eq_none_iff.mpr line_in),
        (hfound _).mpr ⟨stop_out, _, _, split, stops_in⟩]
    | few_calls line_in stops_in few =>
      rw [if_neg (mt line?_eq_none_iff.mpr line_in), hnone.mpr stops_in]
      exact if_pos few
    | no_departures line_in stops_in many none_given =>
      rw [if_neg (mt line?_eq_none_iff.mpr line_in), hnone.mpr stops_in]
      dsimp only
      rw [if_neg (Nat.not_lt.mpr many), if_pos (List.isEmpty_iff.mpr none_given)]

/-- After any additions to the timetable without stops, lines and routes, in any order, refused ones
among them: the timetable is sound; every route stands in the list of exactly one line, and once;
whatever is added further, what is there stays; a route is refused for the first reason against it;
and what is refused leaves the timetable as it is. -/
theorem sound_after (additions : List (Addition α)) :
    let t := empty.after additions
    t.Sound ∧
      (∀ r ∈ t.routes, ∃ l ∈ t.lines, l.routes.count r.id = 1 ∧
        ∀ l' ∈ t.lines, r.id ∈ l'.routes → l' = l) ∧
      (∀ further, t.Grows (t.after further)) ∧
      (∀ line name calls departures e, t.addRoute line name calls departures = .error e ↔
        t.Refuses line name calls departures e) ∧
      ∀ a e, (t.perform a).1 = .error e → (t.perform a).2 = t := by
  intro t
  have hsound : t.Sound := (Built.empty.after additions).sound
  exact ⟨hsound, fun r hr ↦ hsound.exists_line hr, Grows.after t, addRoute_eq_error_iff t,
    fun a e he ↦ perform_snd_of_error he⟩

end Timetable

end DoorToDoor
