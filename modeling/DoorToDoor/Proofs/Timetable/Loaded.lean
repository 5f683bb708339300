import DoorToDoor.Proofs.Timetable.RowSteps
import DoorToDoor.Proofs.Timetable.Times

/-!
# Timetables that are loaded

A timetable that is read from rows is built, its stops lie at the places that the rows give, and all
of its times are whole numbers of seconds: `loaded_of_ofRows`. Nothing else is asked of the times
within a route, so a vehicle may be at a call before it has left the one before.
-/

namespace DoorToDoor.Timetable

variable {α : Type} [Scalar α]

/-- Whether a time is a whole number of seconds. -/
def IsWhole (time : α) : Prop := ∃ n : ℕ, time = Scalar.ofNat n

/-- Whether the times of a call are whole numbers of seconds. -/
def HasWholeTimes (c : Call α) : Prop :=
  (∀ time ∈ c.arrival, IsWhole time) ∧ ∀ time ∈ c.departure, IsWhole time

private theorem isWhole_of_parse {text : String} {time : α} (h : Clock.parse text = .ok time) :
    IsWhole time := by
  obtain ⟨n, -, rfl⟩ := Result.map_eq_ok.mp h
  exact ⟨n, rfl⟩

/-- The times in cells that may be blank are whole numbers of seconds. -/
theorem Offset.isWhole {cell : Option String} {time? : Option α} (h : Offset cell time?) :
    ∀ time ∈ time?, IsWhole time := by
  cases h with
  | missing => exact nofun
  | blank => exact nofun
  | written _ read =>
    rintro _ ⟨⟩
    exact isWhole_of_parse read

/-- Whether the times of a draft are whole numbers of seconds. -/
structure Draft.IsWhole (draft : Draft α) : Prop where
  calls : ∀ c ∈ draft.calls, HasWholeTimes c.2
  departures : ∀ d ∈ draft.departures, Timetable.IsWhole d

/-- Whether all drafts have whole times. -/
def AreWhole (drafts : Drafts α) : Prop := ∀ entry ∈ drafts.toList, entry.2.IsWhole

variable {drafts drafts' : Drafts α}

/-- Inserting a draft with whole times keeps those of all drafts whole. -/
theorem AreWhole.insert (h : AreWhole drafts) (key : RouteKey) {draft : Draft α}
    (whole : draft.IsWhole) : AreWhole (drafts.insert key draft) := by
  intro entry hentry
  rcases drafts.mem_toList_insert hentry with rfl | hentry
  · exact whole
  · exact h entry hentry

/-- A draft that is there has whole times. -/
theorem AreWhole.of_get? (h : AreWhole drafts) {key : RouteKey} {draft : Draft α}
    (found : drafts.get? key = some draft) : draft.IsWhole :=
  h _ ((drafts.get?_eq_some_iff key draft).mp found)

/-- Adding a call keeps all times whole. -/
theorem AreWhole.addCallRow (h : AreWhole drafts) {stops : Std.HashMap String StopId}
    {row : CallRow} (added : addCallRow stops drafts row = .ok drafts') : AreWhole drafts' := by
  obtain ⟨call, -, harrival, hdeparture, rfl⟩ := addCallRow_eq_ok_iff.mp added
  have hdraft : ((drafts.get? row.key).getD default).IsWhole := by
    cases hfound : drafts.get? row.key with
    | none => exact ⟨nofun, nofun⟩
    | some draft => exact h.of_get? hfound
  refine h.insert row.key ⟨fun c hc ↦ ?_, hdraft.departures⟩
  rcases List.mem_append.mp hc with hc | hc
  · exact hdraft.calls c hc
  · rw [List.mem_singleton.mp hc]
    exact ⟨harrival.isWhole, hdeparture.isWhole⟩

/-- Adding a departure keeps all times whole. -/
theorem AreWhole.addDepartureRow (h : AreWhole drafts) {row : DepartureRow}
    (added : addDepartureRow drafts row = .ok drafts') : AreWhole drafts' := by
  obtain ⟨draft, time, hdraft, hparse, rfl⟩ := addDepartureRow_eq_ok_iff.mp added
  have hwhole := h.of_get? hdraft
  refine h.insert row.key ⟨hwhole.calls, fun d hd ↦ ?_⟩
  rcases List.mem_append.mp hd with hd | hd
  · exact hwhole.departures d hd
  · rw [List.mem_singleton.mp hd]
    exact isWhole_of_parse hparse

/-- What holds of a timetable that is read from rows: it is built, its stops lie at some of the
given places, and its times are whole numbers of seconds. -/
structure Loaded (places : List (Point α)) (t : Timetable α) : Prop where
  built : t.Built
  coord : ∀ stop ∈ t.stops, stop.coord ∈ places
  calls : ∀ r ∈ t.routes, ∀ c ∈ r.calls, HasWholeTimes c
  departures : ∀ r ∈ t.routes, ∀ d ∈ r.departures, IsWhole d

namespace Loaded

variable {places : List (Point α)} {t t' : Timetable α}

/-- Nothing is loaded before the first row. -/
theorem empty : Loaded places (empty : Timetable α) where
  built := .empty
  coord stop hstop := by simp [Timetable.empty] at hstop
  calls r hr := by simp [Timetable.empty] at hr
  departures r hr := by simp [Timetable.empty] at hr

/-- A stop is loaded at its place. -/
theorem addStop (h : Loaded places t) {coord : Point α} (place : coord ∈ places) (link : LinkId)
    (name : String) : Loaded places (t.addStop coord link name).2 where
  built := h.built.addStop coord link name
  coord stop hstop := by
    rcases Array.mem_push.mp hstop with hstop | rfl
    · exact h.coord stop hstop
    · exact place
  calls := h.calls
  departures := h.departures

/-- A line has no places and no times. -/
theorem addLine (h : Loaded places t) (name : String) : Loaded places (t.addLine name).2 :=
  { h with built := h.built.addLine name }

/-- A route with whole times is loaded. -/
theorem addRoute (h : Loaded places t) {line : LineId} {name : String} {calls : List (Call α)}
    {departures : List α} {id : RouteId} (whole : ∀ c ∈ calls, HasWholeTimes c)
    (whole' : ∀ d ∈ departures, IsWhole d)
    (added : t.addRoute line name calls departures = .ok (id, t')) : Loaded places t' := by
  obtain ⟨-, -, -, -, rfl, rfl⟩ := addRoute_eq_ok_iff.mp added
  constructor
  case built => exact h.built.addRoute added
  case coord => exact h.coord
  case calls =>
    intro r hr
    rcases Array.mem_push.mp hr with hr | rfl
    · exact h.calls r hr
    · exact whole
  case departures =>
    intro r hr
    rcases Array.mem_push.mp hr with hr | rfl
    · exact h.departures r hr
    · exact whole'

/-- The stop of a row is loaded. -/
theorem addStopRow {index index' : StopIndex α} (h : Loaded places index.1) {row : StopRow α}
    (place : row.coord ∈ places) (added : addStopRow index row = .ok index') :
    Loaded places index'.1 := by
  obtain ⟨-, rfl⟩ := addStopRow_eq_ok_iff.mp added
  exact h.addStop place row.link row.name

/-- The route of a draft is loaded. -/
theorem addDraft {state state' : Timetable α × Std.HashMap String LineId}
    (h : Loaded places state.1) {entry : RouteKey × Draft α} (whole : entry.2.IsWhole)
    (added : addDraft state entry = .ok state') : Loaded places state'.1 := by
  obtain ⟨line, opened, id, hopens, hadded, -⟩ := addDraft_eq_ok_iff.mp added
  have hopened : Loaded places opened.1 := by
    cases hopens with
    | known => exact h
    | new => exact h.addLine entry.1.line
  refine hopened.addRoute (fun c hc ↦ ?_) whole.departures hadded
  obtain ⟨numbered, hnumbered, rfl⟩ := List.mem_map.mp hc
  exact whole.calls numbered (List.mem_mergeSort.mp hnumbered)

/-- Finite places make a loaded timetable finite. -/
theorem isFinite {places : List (Point EReal)} {t : Timetable EReal} (h : Loaded places t)
    (finite : ∀ place ∈ places, place.IsFinite) : t.IsFinite where
  coord stop hstop := finite _ (h.coord stop hstop)
  arrival r hr c hc time htime := by
    obtain ⟨n, rfl⟩ := (h.calls r hr c hc).1 time htime
    exact Scalar.isFinite_ofNat n
  departure r hr c hc time htime := by
    obtain ⟨n, rfl⟩ := (h.calls r hr c hc).2 time htime
    exact Scalar.isFinite_ofNat n
  departures r hr d hd := by
    obtain ⟨n, rfl⟩ := h.departures r hr d hd
    exact Scalar.isFinite_ofNat n

end Loaded

/-- A timetable that is read from rows is loaded from the places of the rows of stops. -/
theorem loaded_of_ofRows {stopRows : Csv.Sheet (StopRow α)} {callRows : Csv.Sheet CallRow}
    {departureRows : Csv.Sheet DepartureRow} {t : Timetable α}
    (h : ofRows stopRows callRows departureRows = .ok t) :
    Loaded (stopRows.rows.map (·.coord)) t := by
  obtain ⟨-, index, drafts, drafts', lines, hindex, hdrafts, hdrafts', hstate⟩ :=
    ofRows_eq_ok_iff_added.mp h
  have hstops : Loaded (stopRows.rows.map (·.coord)) index.1 := by
    refine (Result.inv_of_foldlM (P := fun (rows : List (StopRow α)) (index : StopIndex α) ↦
      rows ⊆ stopRows.rows ∧ Loaded (stopRows.rows.map (·.coord)) index.1) ?_ stopRows.rows
      ⟨List.Subset.refl _, .empty⟩ hindex).2
    rintro row rest index index' ⟨hsub, hloaded⟩ hadded
    obtain ⟨hrow, hrest⟩ := List.cons_subset.mp hsub
    exact ⟨hrest, hloaded.addStopRow (List.mem_map_of_mem hrow) hadded⟩
  have hcalls : AreWhole drafts :=
    Result.inv_of_foldlM (P := fun _ drafts ↦ AreWhole drafts)
      (fun _ _ _ _ hwhole hadded ↦ hwhole.addCallRow hadded) callRows.rows
      (by simp [AreWhole]) hdrafts
  have hdepartures : AreWhole drafts' :=
    Result.inv_of_foldlM (P := fun _ drafts ↦ AreWhole drafts)
      (fun _ _ _ _ hwhole hadded ↦ hwhole.addDepartureRow hadded) departureRows.rows hcalls
      hdrafts'
  refine (Result.inv_of_foldlM
    (P := fun (entries : List (RouteKey × Draft α))
        (state : Timetable α × Std.HashMap String LineId) ↦
      entries ⊆ drafts'.toList ∧ Loaded (stopRows.rows.map (·.coord)) state.1) ?_ drafts'.toList
    ⟨List.Subset.refl _, hstops⟩ hstate).2
  rintro entry rest state state' ⟨hsub, hloaded⟩ hadded
  obtain ⟨hentry, hrest⟩ := List.cons_subset.mp hsub
  exact ⟨hrest, hloaded.addDraft (hdepartures entry hentry) hadded⟩

section

/-- The keys of a shuttle and of its route. -/
def shuttleKey : RouteKey := ⟨"shuttle", "out"⟩

/-- The rows of the stops of a shuttle. -/
def shuttleStopRows : Csv.Sheet (StopRow α) where
  rows := [⟨"west", ⟨Scalar.zero, Scalar.zero⟩, ⟨0⟩, "west"⟩,
    ⟨"east", ⟨Scalar.ofNat 1000, Scalar.zero⟩, ⟨1⟩, "east"⟩]
  intact := true

/-- The rows of the calls of a shuttle. -/
def shuttleCallRows (leaves arrives : String) : Csv.Sheet CallRow where
  rows := [⟨shuttleKey, 0, "west", none, some leaves⟩,
    ⟨shuttleKey, 1, "east", some arrives, none⟩]
  intact := true

/-- The row of the departure of a shuttle. -/
def shuttleDepartureRows (departure : String) : Csv.Sheet DepartureRow where
  rows := [⟨shuttleKey, departure⟩]
  intact := true

/-- The stops of a shuttle have finite coordinates. -/
theorem isFinite_shuttleStopRows :
    ∀ row ∈ (shuttleStopRows (α := EReal)).rows, row.coord.IsFinite := by
  intro row hrow
  rcases List.mem_pair.mp hrow with rfl | rfl
  · exact ⟨Scalar.isFinite_zero, Scalar.isFinite_zero⟩
  · exact ⟨Scalar.isFinite_ofNat 1000, Scalar.isFinite_zero⟩

/-- The identifiers of the stops of a shuttle. -/
def shuttleStopIds : Std.HashMap String StopId :=
  (∅ : Std.HashMap String StopId) |>.insert "west" ⟨0⟩ |>.insert "east" ⟨1⟩

/-- What the first row of calls says about the route of a shuttle. -/
def shuttleOpened (times : ShuttleTimes α) : Draft α :=
  ⟨[(0, ⟨⟨0⟩, none, some times.leaves⟩)], []⟩

/-- What all rows say about the route of a shuttle, with its departures. -/
def shuttleDraft (times : ShuttleTimes α) (departures : List α) : Draft α :=
  ⟨[(0, ⟨⟨0⟩, none, some times.leaves⟩), (1, ⟨⟨1⟩, some times.arrives, none⟩)], departures⟩

/-- The drafts after the rows of calls of a shuttle. -/
def shuttleDrafts (times : ShuttleTimes α) : Drafts α :=
  (OrderedMap.empty.insert shuttleKey (shuttleOpened times)).insert shuttleKey
    (shuttleDraft times [])

variable {times : ShuttleTimes α} {leaves arrives departure : String}

private theorem addStopRow_shuttle (times : ShuttleTimes α) :
    (shuttleStopRows (α := α)).rows.foldlM addStopRow (empty, ∅) =
      .ok (⟨(shuttleAt times).stops, #[], #[]⟩, shuttleStopIds) := by
  have hwest : ¬(∅ : Std.HashMap String StopId).contains "west" = true := by simp
  have heast : ¬((∅ : Std.HashMap String StopId).insert "west" ⟨0⟩).contains "east" = true := by
    simp
  exact Result.bind_eq_ok.mpr ⟨_, if_neg hwest, Result.bind_eq_ok.mpr ⟨_, if_neg heast, rfl⟩⟩

private theorem addCallRow_shuttle (hleaves : readOffset (some leaves) = .ok (some times.leaves))
    (harrives : readOffset (some arrives) = .ok (some times.arrives)) :
    (shuttleCallRows leaves arrives).rows.foldlM (addCallRow shuttleStopIds) OrderedMap.empty =
      .ok (shuttleDrafts times) := by
  have hwest : shuttleStopIds["west"]? = some ⟨0⟩ := by grind [shuttleStopIds]
  have heast : shuttleStopIds["east"]? = some ⟨1⟩ := by grind [shuttleStopIds]
  have hfirst : addCallRow shuttleStopIds OrderedMap.empty
      ⟨shuttleKey, 0, "west", none, some leaves⟩ =
      .ok (OrderedMap.empty.insert shuttleKey (shuttleOpened times)) := by
    simp only [addCallRow, hwest, hleaves, OrderedMap.update, OrderedMap.get?_empty]
    rfl
  have hsecond : addCallRow shuttleStopIds
      (OrderedMap.empty.insert shuttleKey (shuttleOpened times))
      ⟨shuttleKey, 1, "east", some arrives, none⟩ = .ok (shuttleDrafts times) := by
    simp only [addCallRow, heast, harrives, OrderedMap.update, OrderedMap.get?_insert,
      beq_self_eq_true, if_true]
    rfl
  exact Result.bind_eq_ok.mpr ⟨_, hfirst, Result.bind_eq_ok.mpr ⟨_, hsecond, rfl⟩⟩

omit [Scalar α] in
private theorem get?_shuttleDrafts :
    (shuttleDrafts times).get? shuttleKey = some (shuttleDraft times []) := by
  simp only [shuttleDrafts, OrderedMap.get?_insert, beq_self_eq_true, if_true]

private theorem addDepartureRow_shuttle (hdeparture : Clock.parse departure = .ok times.departure) :
    (shuttleDepartureRows departure).rows.foldlM addDepartureRow (shuttleDrafts times) =
      .ok ((shuttleDrafts times).insert shuttleKey (shuttleDraft times [times.departure])) := by
  refine Result.bind_eq_ok.mpr ⟨_, ?_, rfl⟩
  simp only [addDepartureRow, get?_shuttleDrafts, hdeparture]
  rfl

omit [Scalar α] in
private theorem toList_shuttle :
    ((shuttleDrafts times).insert shuttleKey (shuttleDraft times [times.departure])).toList =
      [(shuttleKey, shuttleDraft times [times.departure])] := by
  have hempty : (OrderedMap.empty : Drafts α).get? shuttleKey = none := OrderedMap.get?_empty _
  have hopened : (OrderedMap.empty.insert shuttleKey (shuttleOpened times)).get? shuttleKey =
      some (shuttleOpened times) := by
    simp only [OrderedMap.get?_insert, beq_self_eq_true, if_true]
  rw [OrderedMap.toList_insert_of_get?_eq_some _ _ get?_shuttleDrafts, shuttleDrafts,
    OrderedMap.toList_insert_of_get?_eq_some _ _ hopened,
    OrderedMap.toList_insert_of_get?_eq_none _ _ hempty]
  simp

private theorem addDraft_shuttle : addDraft (⟨(shuttleAt times).stops, #[], #[]⟩, ∅)
    (shuttleKey, shuttleDraft times [times.departure]) =
      .ok (shuttleAt times, (∅ : Std.HashMap String LineId).insert "shuttle" ⟨0⟩) := by
  have hsorted : (shuttleDraft times [times.departure]).calls.Pairwise
      fun a b ↦ decide (a.1 ≤ b.1) = true := by
    simp [shuttleDraft]
  have hordered : (shuttleDraft times [times.departure]).ordered =
      (shuttleRouteAt times).calls := by
    rw [Draft.ordered, List.mergeSort_of_pairwise hsorted]
    rfl
  simp only [addDraft, Std.HashMap.getElem?_empty, hordered]
  rfl

/-- The rows of a shuttle are loaded as its timetable. -/
theorem ofRows_shuttle (hleaves : readOffset (some leaves) = .ok (some times.leaves))
    (harrives : readOffset (some arrives) = .ok (some times.arrives))
    (hdeparture : Clock.parse departure = .ok times.departure) :
    ofRows shuttleStopRows (shuttleCallRows leaves arrives) (shuttleDepartureRows departure) =
      .ok (shuttleAt times) := by
  refine Result.bind_eq_ok.mpr ⟨_, addStopRow_shuttle times, Result.bind_eq_ok.mpr ⟨(), rfl, ?_⟩⟩
  refine Result.bind_eq_ok.mpr ⟨_, addCallRow_shuttle hleaves harrives, ?_⟩
  refine Result.bind_eq_ok.mpr ⟨(), rfl, ?_⟩
  refine Result.bind_eq_ok.mpr ⟨_, addDepartureRow_shuttle hdeparture, ?_⟩
  refine Result.bind_eq_ok.mpr ⟨(), rfl, ?_⟩
  rw [toList_shuttle]
  exact Result.bind_eq_ok.mpr ⟨_, Result.bind_eq_ok.mpr ⟨_, addDraft_shuttle, rfl⟩, rfl⟩

/-- The times of a shuttle by night, as times of day: it leaves the first stop ten minutes before
midnight and is at the second one ten minutes after it. -/
def ShuttleTimes.night : ShuttleTimes α :=
  ⟨Clock.time 23 50 0, Clock.time 0 10 0, Clock.time 0 0 0⟩

/-- The shuttle by night can be loaded from rows. -/
theorem ofRows_shuttle_night : ofRows shuttleStopRows (shuttleCallRows "23:50:00" "00:10:00")
    (shuttleDepartureRows "00:00:00") = .ok (shuttleAt (.night : ShuttleTimes α)) :=
  ofRows_shuttle rfl rfl rfl

end

end DoorToDoor.Timetable
