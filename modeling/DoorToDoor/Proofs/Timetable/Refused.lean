import DoorToDoor.Proofs.Timetable.Additions
import DoorToDoor.Proofs.Timetable.FromRows

/-!
# When sheets are refused

Sheets are loaded if and only if no sheet is broken and their rows are acceptable (`Acceptable`); if
not, they are refused for the first fault (`RefusesSheets`). The stops are judged first, then the
calls, the departures and the routes; each row, and each route, is judged by itself once all before
it are accepted.
-/

namespace DoorToDoor.Timetable

variable {α : Type}

/-- Whether a cell is missing, blank, or gives a time between its blanks. -/
def MayBeOffset (cell : Option String) : Prop :=
  ∀ text, cell = some text →
    (Text.trim text).isEmpty ∨ ∃ n, Clock.parseSeconds (Text.trim text) = .ok n

/-- Whether a row of calls calls at a stop of the given keys and has no bad times. -/
structure CallRow.Accepted (stops : List String) (row : CallRow) : Prop where
  stop : row.stop ∈ stops
  arrival : MayBeOffset row.arrival
  departure : MayBeOffset row.departure

/-- Why a row of calls is refused: its stop is unknown, or else its arrival is no time, or else its
departure is none. -/
inductive CallRow.Refused (stops : List String) (row : CallRow) : Error → Prop
  | stop (unknown : row.stop ∉ stops) : Refused stops row (.unknownStopKey row.stop)
  | arrival {fault : Clock.ParseError} (stop : row.stop ∈ stops)
    (bad : NoOffset row.arrival fault) : Refused stops row (.badTime fault)
  | departure {fault : Clock.ParseError} (stop : row.stop ∈ stops)
    (arrival : MayBeOffset row.arrival) (bad : NoOffset row.departure fault) :
    Refused stops row (.badTime fault)

/-- Whether a row of departures belongs to a route of the given keys and gives a time. -/
structure DepartureRow.Accepted (keys : List RouteKey) (row : DepartureRow) : Prop where
  key : row.key ∈ keys
  time : ∃ n, Clock.parseSeconds row.departure = .ok n

/-- Why a row of departures is refused: its route is unknown, or else it gives no time. -/
inductive DepartureRow.Refused (keys : List RouteKey) (row : DepartureRow) : Error → Prop
  | key (unknown : row.key ∉ keys) :
    Refused keys row
      (.invalidRoute (row.key.line ++ "/" ++ row.key.route) .departureWithoutStops)
  | time {fault : Clock.ParseError} (key : row.key ∈ keys)
    (bad : Clock.parseSeconds row.departure = .error fault) : Refused keys row (.badTime fault)

/-- Whether a key has two rows of calls or more, and a row of departures. -/
structure RouteKey.Accepted (callRows : List CallRow) (departureRows : List DepartureRow)
    (key : RouteKey) : Prop where
  many : 2 ≤ (callRows.filter (·.key == key)).length
  departs : ∃ row ∈ departureRows, row.key = key

/-- Why the route of a key is refused: it has fewer than two rows of calls, or else no row of
departures. -/
inductive RouteKey.Refused (callRows : List CallRow) (departureRows : List DepartureRow)
    (key : RouteKey) : Error → Prop
  | few (few : (callRows.filter (·.key == key)).length < 2) :
    Refused callRows departureRows key (.invalidRoute key.route .fewerThanTwoStops)
  | no_departures (many : 2 ≤ (callRows.filter (·.key == key)).length)
    (none_given : ∀ row ∈ departureRows, row.key ≠ key) :
    Refused callRows departureRows key (.invalidRoute key.route .noDepartures)

/-- Whether items are refused for the first of them that is: all before it are accepted. -/
def FirstRefused {β : Type} (accepted : List β → Prop) (refused : List β → β → Error → Prop)
    (items : List β) (e : Error) : Prop :=
  ∃ before item after, items = before ++ item :: after ∧ accepted before ∧ refused before item e

/-- Whether rows of stops are refused for the first one whose key an earlier one has. -/
def FirstRepeated (rows : List (StopRow α)) (e : Error) : Prop :=
  FirstRefused (fun before ↦ (before.map (·.key)).Nodup)
    (fun before row e ↦ row.key ∈ before.map (·.key) ∧ e = .duplicateStopKey row.key) rows e

/-- Whether rows can be loaded: no two rows of stops have one key, every row of calls calls at a
known stop and has no bad times, every row of departures belongs to a route with calls and gives a
time, and every route has two calls or more and a departure. -/
structure Acceptable (stopRows : List (StopRow α)) (callRows : List CallRow)
    (departureRows : List DepartureRow) : Prop where
  stops : (stopRows.map (·.key)).Nodup
  calls : ∀ row ∈ callRows, row.Accepted (stopRows.map (·.key))
  departures : ∀ row ∈ departureRows, row.Accepted (callRows.map (·.key))
  routes : ∀ key ∈ callRows.map (·.key), key.Accepted callRows departureRows

/-- Why sheets are refused. The sheets are judged in turn, each row by row and then for being broken
behind its rows, and the routes at the end in the order in which their keys first appear. -/
inductive RefusesSheets (stopRows : Csv.Sheet (StopRow α)) (callRows : Csv.Sheet CallRow)
    (departureRows : Csv.Sheet DepartureRow) : Error → Prop
  | stop {e : Error} (first : FirstRepeated stopRows.rows e) :
    RefusesSheets stopRows callRows departureRows e
  | broken_stops (stops : (stopRows.rows.map (·.key)).Nodup) (broken : stopRows.intact = false) :
    RefusesSheets stopRows callRows departureRows .malformedTable
  | call {e : Error} (stops : (stopRows.rows.map (·.key)).Nodup) (intact : stopRows.intact = true)
    (first : FirstRefused (fun before ↦ ∀ row ∈ before, row.Accepted (stopRows.rows.map (·.key)))
      (fun _ row ↦ row.Refused (stopRows.rows.map (·.key))) callRows.rows e) :
    RefusesSheets stopRows callRows departureRows e
  | broken_calls (stops : (stopRows.rows.map (·.key)).Nodup) (intact : stopRows.intact = true)
    (calls : ∀ row ∈ callRows.rows, row.Accepted (stopRows.rows.map (·.key)))
    (broken : callRows.intact = false) :
    RefusesSheets stopRows callRows departureRows .malformedTable
  | departure {e : Error} (stops : (stopRows.rows.map (·.key)).Nodup)
    (intact : stopRows.intact = true ∧ callRows.intact = true)
    (calls : ∀ row ∈ callRows.rows, row.Accepted (stopRows.rows.map (·.key)))
    (first : FirstRefused (fun before ↦ ∀ row ∈ before, row.Accepted (callRows.rows.map (·.key)))
      (fun _ row ↦ row.Refused (callRows.rows.map (·.key))) departureRows.rows e) :
    RefusesSheets stopRows callRows departureRows e
  | broken_departures (stops : (stopRows.rows.map (·.key)).Nodup)
    (intact : stopRows.intact = true ∧ callRows.intact = true)
    (calls : ∀ row ∈ callRows.rows, row.Accepted (stopRows.rows.map (·.key)))
    (departures : ∀ row ∈ departureRows.rows, row.Accepted (callRows.rows.map (·.key)))
    (broken : departureRows.intact = false) :
    RefusesSheets stopRows callRows departureRows .malformedTable
  | route {e : Error} (stops : (stopRows.rows.map (·.key)).Nodup)
    (intact : stopRows.intact ∧ callRows.intact ∧ departureRows.intact)
    (calls : ∀ row ∈ callRows.rows, row.Accepted (stopRows.rows.map (·.key)))
    (departures : ∀ row ∈ departureRows.rows, row.Accepted (callRows.rows.map (·.key)))
    (first : FirstRefused
      (fun before ↦ ∀ key ∈ before, key.Accepted callRows.rows departureRows.rows)
      (fun _ key ↦ key.Refused callRows.rows departureRows.rows)
      (callRows.rows.map (·.key)).eraseDups e) :
    RefusesSheets stopRows callRows departureRows e

section

variable {β γ : Type} {accepted : List β → Prop} {refused : List β → β → Error → Prop}
  {items : List β} {e : Error}

private theorem foldlM_eq_error_iff_firstRefused {f : γ → β → Except Error γ} {x : γ}
    (judged : ∀ before item after, items = before ++ item :: after →
      ((∃ y, before.foldlM f x = .ok y) ↔ accepted before) ∧
        ∀ y, before.foldlM f x = .ok y → (f y item = .error e ↔ refused before item e)) :
    items.foldlM f x = .error e ↔ FirstRefused accepted refused items e := by
  rw [Result.foldlM_eq_error_iff]
  constructor
  · rintro ⟨before, item, after, y, hsplit, hy, he⟩
    obtain ⟨haccepted, hrefused⟩ := judged before item after hsplit
    exact ⟨before, item, after, hsplit, haccepted.mp ⟨y, hy⟩, (hrefused y hy).mp he⟩
  · rintro ⟨before, item, after, hsplit, hbefore, he⟩
    obtain ⟨haccepted, hrefused⟩ := judged before item after hsplit
    obtain ⟨y, hy⟩ := haccepted.mpr hbefore
    exact ⟨before, item, after, y, hsplit, hy, (hrefused y hy).mpr he⟩

private theorem firstRefused_map {f : γ → β} {items : List γ} :
    FirstRefused accepted refused (items.map f) e ↔
      FirstRefused (fun before ↦ accepted (before.map f))
        (fun before item ↦ refused (before.map f) (f item)) items e := by
  constructor
  · rintro ⟨before, item, after, hsplit, hbefore, he⟩
    obtain ⟨before, rest, rfl, rfl, hrest⟩ := List.map_eq_append_iff.mp hsplit
    obtain ⟨item, after, rfl, rfl, rfl⟩ := List.map_eq_cons_iff.mp hrest
    exact ⟨before, item, after, rfl, hbefore, he⟩
  · rintro ⟨before, item, after, rfl, hbefore, he⟩
    exact ⟨before.map f, f item, after.map f, by simp, hbefore, he⟩

end

section

variable {stopRows : List (StopRow α)} {index : StopIndex α}

/-- Rows of stops are added when their keys differ. -/
theorem exists_foldlM_stops_iff :
    (∃ index, stopRows.foldlM addStopRow ((empty, ∅) : StopIndex α) = .ok index) ↔
      (stopRows.map (·.key)).Nodup := by
  constructor
  · rintro ⟨index, hindex⟩
    exact (Indexed.of_foldlM hindex).known.nodup
  · intro nodup
    obtain ⟨index, hindex, -⟩ := Indexed.exists_foldlM nodup
    exact ⟨index, hindex⟩

/-- Rows of stops are refused for the first one whose key an earlier one has. -/
theorem foldlM_stops_eq_error_iff {e : Error} :
    stopRows.foldlM addStopRow ((empty, ∅) : StopIndex α) = .error e ↔
      FirstRepeated stopRows e := by
  refine foldlM_eq_error_iff_firstRefused fun before row after _ ↦
    ⟨exists_foldlM_stops_iff, fun index hindex ↦ ?_⟩
  rw [addStopRow_eq_error_iff, (Indexed.of_foldlM hindex).known.contains_iff]

end

section

variable [Scalar α] {stopRows : List (StopRow α)} {callRows : List CallRow}
  {departureRows : List DepartureRow} {index : StopIndex α} {drafts : Drafts α} {e : Error}

private theorem exists_offset_iff {cell : Option String} :
    (∃ time? : Option α, Offset cell time?) ↔ MayBeOffset cell := by
  constructor
  · rintro ⟨time?, h⟩ text rfl
    cases h with
    | blank empty => exact .inl empty
    | written filled read =>
      obtain ⟨n, hn, -⟩ := Result.map_eq_ok.mp read
      exact .inr ⟨n, hn⟩
  · intro h
    cases cell with
    | none => exact ⟨none, .missing⟩
    | some text =>
      by_cases filled : (Text.trim text).isEmpty
      · exact ⟨none, .blank filled⟩
      · obtain ⟨n, hn⟩ := (h text rfl).resolve_left filled
        exact ⟨_, .written filled (Result.map_eq_ok.mpr ⟨n, hn, rfl⟩)⟩

private theorem CallRow.exists_tells_iff {row : CallRow} :
    (∃ c : Call α, row.Tells stopRows c) ↔ row.Accepted (stopRows.map (·.key)) := by
  constructor
  · rintro ⟨c, hstop, harrival, hdeparture⟩
    exact ⟨List.mem_of_getElem? hstop, exists_offset_iff.mp ⟨_, harrival⟩,
      exists_offset_iff.mp ⟨_, hdeparture⟩⟩
  · rintro ⟨hstop, harrival, hdeparture⟩
    obtain ⟨i, hi⟩ := List.mem_iff_getElem?.mp hstop
    obtain ⟨arrival, harrival⟩ := (exists_offset_iff (α := α)).mpr harrival
    obtain ⟨departure, hdeparture⟩ := (exists_offset_iff (α := α)).mpr hdeparture
    exact ⟨⟨⟨i⟩, arrival, departure⟩, hi, harrival, hdeparture⟩

namespace Indexed

variable (h : Indexed stopRows index)

include h

/-- Rows of calls are added when they are accepted. -/
theorem exists_foldlM_calls_iff :
    (∃ drafts : Drafts α, callRows.foldlM (addCallRow index.2) OrderedMap.empty = .ok drafts) ↔
      ∀ row ∈ callRows, row.Accepted (stopRows.map (·.key)) := by
  constructor
  · rintro ⟨drafts, hdrafts⟩
    refine Result.forall_mem_of_foldlM (fun row _ _ added ↦ ?_) hdrafts
    obtain ⟨c, hc, -⟩ := h.addCallRow_eq_ok_iff.mp added
    exact CallRow.exists_tells_iff.mp ⟨c, hc⟩
  · intro calls
    obtain ⟨drafts, hdrafts, -⟩ := h.exists_foldlM_calls fun row hrow ↦
      CallRow.exists_tells_iff.mpr (calls row hrow)
    exact ⟨drafts, hdrafts⟩

/-- A row of calls is refused as it is by itself. -/
theorem addCallRow_eq_error_iff {row : CallRow} :
    addCallRow index.2 drafts row = .error e ↔ row.Refused (stopRows.map (·.key)) e := by
  have hunknown : index.2[row.stop]? = none ↔ row.stop ∉ stopRows.map (·.key) := by
    rw [← h.known.contains_iff, Std.HashMap.contains_eq_isSome_getElem?]
    simp
  rw [Timetable.addCallRow_eq_error_iff, ne_eq, hunknown, not_not, exists_offset_iff]
  simp only [readOffset_eq_error_iff]
  constructor
  · rintro (⟨unknown, rfl⟩ | ⟨known, ⟨fault, bad, rfl⟩ | ⟨arrival, fault, bad, rfl⟩⟩)
    · exact .stop unknown
    · exact .arrival known bad
    · exact .departure known arrival bad
  · intro refused
    cases refused with
    | stop unknown => exact .inl ⟨unknown, rfl⟩
    | arrival known bad => exact .inr ⟨known, .inl ⟨_, bad, rfl⟩⟩
    | departure known arrival bad => exact .inr ⟨known, .inr ⟨arrival, _, bad, rfl⟩⟩

/-- Rows of calls are refused for the first one that is. -/
theorem foldlM_calls_eq_error_iff :
    callRows.foldlM (addCallRow index.2) (OrderedMap.empty : Drafts α) = .error e ↔
      FirstRefused (fun before ↦ ∀ row ∈ before, row.Accepted (stopRows.map (·.key)))
        (fun _ row ↦ row.Refused (stopRows.map (·.key))) callRows e :=
  foldlM_eq_error_iff_firstRefused fun _ _ _ _ ↦
    ⟨h.exists_foldlM_calls_iff, fun _ _ ↦ h.addCallRow_eq_error_iff⟩

end Indexed

namespace Collected

/-- A row of departures is refused as it is by itself. -/
theorem addDepartureRow_eq_error_iff (h : Collected stopRows callRows departureRows drafts)
    {row : DepartureRow} :
    addDepartureRow drafts row = .error e ↔ row.Refused (callRows.map (·.key)) e := by
  have hunknown : drafts.get? row.key = none ↔ row.key ∉ callRows.map (·.key) := by
    rw [← h.contains_iff, OrderedMap.contains]
    simp
  rw [Timetable.addDepartureRow_eq_error_iff, ne_eq, hunknown, not_not]
  constructor
  · rintro (⟨unknown, rfl⟩ | ⟨known, fault, bad, rfl⟩)
    · exact .key unknown
    · exact .time known bad
  · intro refused
    cases refused with
    | key unknown => exact .inl ⟨unknown, rfl⟩
    | time known bad => exact .inr ⟨known, _, bad, rfl⟩

variable (h : Collected stopRows callRows [] drafts)

include h

/-- Rows of departures are added when they are accepted. -/
theorem exists_foldlM_departures_iff :
    (∃ drafts', departureRows.foldlM addDepartureRow drafts = .ok drafts') ↔
      ∀ row ∈ departureRows, row.Accepted (callRows.map (·.key)) := by
  constructor
  · rintro ⟨drafts', hdrafts'⟩
    have htimes : ∀ row ∈ departureRows, ∃ n, Clock.parseSeconds row.departure = .ok n := by
      refine Result.forall_mem_of_foldlM (fun row _ _ added ↦ ?_) hdrafts'
      obtain ⟨_, _, -, htime, -⟩ := addDepartureRow_eq_ok_iff.mp added
      obtain ⟨n, hn, -⟩ := Result.map_eq_ok.mp htime
      exact ⟨n, hn⟩
    exact fun row hrow ↦
      ⟨(h.of_foldlM_departures hdrafts').departure_keys row hrow, htimes row hrow⟩
  · intro departures
    obtain ⟨drafts', hdrafts', -⟩ := h.exists_foldlM_departures
      (fun row hrow ↦ (departures row hrow).key) fun row hrow ↦ by
        obtain ⟨n, hn⟩ := (departures row hrow).time
        exact ⟨_, Result.map_eq_ok.mpr ⟨n, hn, rfl⟩⟩
    exact ⟨drafts', hdrafts'⟩

/-- Rows of departures are refused for the first one that is. -/
theorem foldlM_departures_eq_error_iff :
    departureRows.foldlM addDepartureRow drafts = .error e ↔
      FirstRefused (fun before ↦ ∀ row ∈ before, row.Accepted (callRows.map (·.key)))
        (fun _ row ↦ row.Refused (callRows.map (·.key))) departureRows e :=
  foldlM_eq_error_iff_firstRefused fun _ _ _ _ ↦
    ⟨h.exists_foldlM_departures_iff,
      fun _ added ↦ (h.of_foldlM_departures added).addDepartureRow_eq_error_iff⟩

end Collected

section

variable {key : RouteKey} {draft : Draft α}

private theorem Draft.Collects.length_ordered
    (h : draft.Collects stopRows callRows departureRows key) :
    draft.ordered.length = (callRows.filter (·.key == key)).length := by
  rw [h.calls.length_eq]
  simp [Draft.ordered]

private theorem Draft.Collects.departures_eq_nil_iff
    (h : draft.Collects stopRows callRows departureRows key) :
    draft.departures = [] ↔ ∀ row ∈ departureRows, row.key ≠ key := by
  rw [← List.length_eq_zero_iff, ← h.departures.length_eq, List.length_eq_zero_iff,
    List.filter_eq_nil_iff]
  simp

private theorem Draft.Collects.enters_iff (h : draft.Collects stopRows callRows departureRows key) :
    2 ≤ draft.ordered.length ∧ draft.departures ≠ [] ↔
      key.Accepted callRows departureRows := by
  rw [h.length_ordered, ne_eq, h.departures_eq_nil_iff]
  simp only [ne_eq, not_forall, not_not, exists_prop]
  exact ⟨fun ⟨many, departs⟩ ↦ ⟨many, departs⟩, fun ⟨many, departs⟩ ↦ ⟨many, departs⟩⟩

end

section

variable {entries : List (RouteKey × Draft α)}

/-- A draft is refused as its key is. -/
theorem Entered.addDraft_eq_error_iff {stops : Array (Stop α)} {entry : RouteKey × Draft α}
    {state : Timetable α × Std.HashMap String LineId} (h : Entered stops entries state)
    (stops_in : stops.size = stopRows.length)
    (collects : entry.2.Collects stopRows callRows departureRows entry.1) :
    Timetable.addDraft state entry = .error e ↔ entry.1.Refused callRows departureRows e := by
  have hopened : ∀ {line opened}, OpensLine state entry.1.line line opened →
      opened.1.line? line ≠ none ∧ ∀ c ∈ entry.2.ordered, opened.1.stop? c.stop ≠ none := by
    intro line opened opens
    obtain ⟨hlined, hline, -, -⟩ := h.opensLine opens
    refine ⟨?_, fun c hc ↦ ?_⟩
    · intro hnone
      rw [hnone] at hline
      cases hline
    · have hlt := collects.stops_in c hc
      rw [← stops_in, ← hlined.stops] at hlt
      exact mt Array.getElem?_eq_none_iff.mp (Nat.not_le_of_lt hlt)
  rw [Timetable.addDraft_eq_error_iff]
  simp only [addRoute_eq_error_iff]
  constructor
  · rintro ⟨line, opened, opens, refuses⟩
    obtain ⟨hline, hstops⟩ := hopened opens
    cases refuses with
    | unknown_line line_out => exact absurd line_out hline
    | unknown_stop _ split _ stop_out => exact absurd stop_out (hstops _ (by simp [split]))
    | few_calls _ _ few => exact .few (collects.length_ordered ▸ few)
    | no_departures _ _ many none_given =>
      exact .no_departures (collects.length_ordered ▸ many)
        (collects.departures_eq_nil_iff.mp none_given)
  · intro refused
    obtain ⟨line, opened, opens⟩ := exists_opensLine state entry.1.line
    obtain ⟨hline, hstops⟩ := hopened opens
    refine ⟨line, opened, opens, ?_⟩
    cases refused with
    | few few => exact .few_calls hline hstops (collects.length_ordered.symm ▸ few)
    | no_departures many none_given =>
      exact .no_departures hline hstops (collects.length_ordered.symm ▸ many)
        (collects.departures_eq_nil_iff.mpr none_given)

/-- Drafts are added when their keys are accepted. -/
theorem Indexed.exists_foldlM_drafts_iff (h : Indexed stopRows index)
    (collects : ∀ entry ∈ entries, entry.2.Collects stopRows callRows departureRows entry.1) :
    (∃ state, entries.foldlM addDraft (index.1, ∅) = .ok state) ↔
      ∀ key ∈ entries.map (·.1), key.Accepted callRows departureRows := by
  rw [List.forall_mem_map]
  constructor
  · rintro ⟨state, hstate⟩ entry hentry
    have henters : ∀ entry ∈ entries, 2 ≤ entry.2.ordered.length ∧ entry.2.departures ≠ [] := by
      refine Result.forall_mem_of_foldlM (fun entry _ _ added ↦ ?_) hstate
      obtain ⟨_, _, _, -, hadded, -⟩ := addDraft_eq_ok_iff.mp added
      obtain ⟨-, -, many, departs, -⟩ := addRoute_eq_ok_iff.mp hadded
      exact ⟨many, departs⟩
    exact (collects entry hentry).enters_iff.mp (henters entry hentry)
  · intro routes
    exact h.exists_foldlM_drafts collects fun entry hentry ↦
      (collects entry hentry).enters_iff.mpr (routes entry hentry)

/-- Drafts are refused for the first one whose key is. -/
theorem Indexed.foldlM_drafts_eq_error_iff (h : Indexed stopRows index)
    (collects : ∀ entry ∈ entries, entry.2.Collects stopRows callRows departureRows entry.1) :
    entries.foldlM addDraft (index.1, ∅) = .error e ↔
      FirstRefused (fun before ↦ ∀ key ∈ before, key.Accepted callRows departureRows)
        (fun _ key ↦ key.Refused callRows departureRows) (entries.map (·.1)) e := by
  rw [firstRefused_map]
  refine foldlM_eq_error_iff_firstRefused fun before entry after hsplit ↦ ⟨?_, fun state added ↦ ?_⟩
  · exact h.exists_foldlM_drafts_iff fun entry hentry ↦ collects entry (by simp [hsplit, hentry])
  · exact (Entered.of_foldlM h added).addDraft_eq_error_iff h.size_stops
      (collects entry (by simp [hsplit]))

end

end

section

variable [Scalar α] {stopRows : Csv.Sheet (StopRow α)} {callRows : Csv.Sheet CallRow}
  {departureRows : Csv.Sheet DepartureRow}

/-- Sheets are loaded when none of them is broken and their rows are acceptable. -/
theorem exists_ofRows_iff : (∃ t, ofRows stopRows callRows departureRows = .ok t) ↔
    (stopRows.intact ∧ callRows.intact ∧ departureRows.intact) ∧
      Acceptable stopRows.rows callRows.rows departureRows.rows := by
  simp only [ofRows_eq_ok_iff_added]
  constructor
  · rintro ⟨t, intact, index, drafts, drafts', lines, hindex, hdrafts, hdrafts', hstate⟩
    have hindexed := Indexed.of_foldlM hindex
    have hcalls := hindexed.of_foldlM_calls hdrafts
    have hdepartures := hcalls.of_foldlM_departures hdrafts'
    refine ⟨intact, hindexed.known.nodup, hindexed.exists_foldlM_calls_iff.mp ⟨drafts, hdrafts⟩,
      hcalls.exists_foldlM_departures_iff.mp ⟨drafts', hdrafts'⟩, fun key hkey ↦ ?_⟩
    refine (hindexed.exists_foldlM_drafts_iff hdepartures.collects_of_mem).mp ⟨_, hstate⟩ key ?_
    rwa [hdepartures.keys, List.mem_eraseDups]
  · rintro ⟨intact, stops, calls, departures, routes⟩
    obtain ⟨index, hindex⟩ := exists_foldlM_stops_iff.mpr stops
    have hindexed := Indexed.of_foldlM hindex
    obtain ⟨drafts, hdrafts⟩ := hindexed.exists_foldlM_calls_iff.mpr calls
    have hcalls := hindexed.of_foldlM_calls hdrafts
    obtain ⟨drafts', hdrafts'⟩ := hcalls.exists_foldlM_departures_iff.mpr departures
    have hdepartures := hcalls.of_foldlM_departures hdrafts'
    have hroutes : ∀ key ∈ drafts'.toList.map (·.1),
        key.Accepted callRows.rows departureRows.rows := by
      intro key hkey
      rw [hdepartures.keys, List.mem_eraseDups] at hkey
      exact routes key hkey
    obtain ⟨⟨t, lines⟩, hstate⟩ :=
      (hindexed.exists_foldlM_drafts_iff hdepartures.collects_of_mem).mpr hroutes
    exact ⟨t, intact, index, drafts, drafts', lines, hindex, hdrafts, hdrafts', hstate⟩

/-- Sheets are refused for the first fault. -/
theorem ofRows_eq_error_iff {e : Error} : ofRows stopRows callRows departureRows = .error e ↔
    RefusesSheets stopRows callRows departureRows e := by
  -- Each step succeeds if and only if the rows it reads are accepted, whatever comes of them.
  have hsteps : ofRows stopRows callRows departureRows = .error e ↔
      FirstRepeated stopRows.rows e ∨ (stopRows.rows.map (·.key)).Nodup ∧
      (stopRows.intact = false ∧ e = .malformedTable ∨ stopRows.intact ∧
      (FirstRefused (fun before ↦ ∀ row ∈ before, row.Accepted (stopRows.rows.map (·.key)))
        (fun _ row ↦ row.Refused (stopRows.rows.map (·.key))) callRows.rows e ∨
        (∀ row ∈ callRows.rows, row.Accepted (stopRows.rows.map (·.key))) ∧
      (callRows.intact = false ∧ e = .malformedTable ∨ callRows.intact ∧
      (FirstRefused (fun before ↦ ∀ row ∈ before, row.Accepted (callRows.rows.map (·.key)))
        (fun _ row ↦ row.Refused (callRows.rows.map (·.key))) departureRows.rows e ∨
        (∀ row ∈ departureRows.rows, row.Accepted (callRows.rows.map (·.key))) ∧
      (departureRows.intact = false ∧ e = .malformedTable ∨ departureRows.intact ∧
      FirstRefused (fun before ↦ ∀ key ∈ before, key.Accepted callRows.rows departureRows.rows)
        (fun _ key ↦ key.Refused callRows.rows departureRows.rows)
        (callRows.rows.map (·.key)).eraseDups e))))) := by
    rw [ofRows_eq_error_iff_step]
    simp only [requireIntact_eq_error_iff]
    refine or_congr foldlM_stops_eq_error_iff
      (Result.exists_eq_ok_and_iff exists_foldlM_stops_iff fun index hindex ↦ ?_)
    have hindexed := Indexed.of_foldlM hindex
    refine or_congr_right (and_congr_right' (or_congr hindexed.foldlM_calls_eq_error_iff
      (Result.exists_eq_ok_and_iff hindexed.exists_foldlM_calls_iff fun drafts hdrafts ↦ ?_)))
    have hcalls := hindexed.of_foldlM_calls hdrafts
    refine or_congr_right (and_congr_right' (or_congr hcalls.foldlM_departures_eq_error_iff
      (Result.exists_eq_ok_and_iff hcalls.exists_foldlM_departures_iff fun drafts' hdrafts' ↦ ?_)))
    have hdepartures := hcalls.of_foldlM_departures hdrafts'
    rw [hindexed.foldlM_drafts_eq_error_iff hdepartures.collects_of_mem, hdepartures.keys]
  rw [hsteps]
  constructor
  · rintro (first | ⟨stops, ⟨broken, rfl⟩ | ⟨intact, first | ⟨calls, ⟨broken, rfl⟩ |
      ⟨intact', first | ⟨departures, ⟨broken, rfl⟩ | ⟨intact'', first⟩⟩⟩⟩⟩⟩)
    · exact .stop first
    · exact .broken_stops stops broken
    · exact .call stops intact first
    · exact .broken_calls stops intact calls broken
    · exact .departure stops ⟨intact, intact'⟩ calls first
    · exact .broken_departures stops ⟨intact, intact'⟩ calls departures broken
    · exact .route stops ⟨intact, intact', intact''⟩ calls departures first
  · intro refuses
    cases refuses with
    | stop first => exact .inl first
    | broken_stops stops broken => exact .inr ⟨stops, .inl ⟨broken, rfl⟩⟩
    | call stops intact first => exact .inr ⟨stops, .inr ⟨intact, .inl first⟩⟩
    | broken_calls stops intact calls broken =>
      exact .inr ⟨stops, .inr ⟨intact, .inr ⟨calls, .inl ⟨broken, rfl⟩⟩⟩⟩
    | departure stops intact calls first =>
      exact .inr ⟨stops, .inr ⟨intact.1, .inr ⟨calls, .inr ⟨intact.2, .inl first⟩⟩⟩⟩
    | broken_departures stops intact calls departures broken =>
      exact .inr ⟨stops, .inr ⟨intact.1, .inr ⟨calls, .inr ⟨intact.2, .inr ⟨departures,
        .inl ⟨broken, rfl⟩⟩⟩⟩⟩⟩
    | route stops intact calls departures first =>
      exact .inr ⟨stops, .inr ⟨intact.1, .inr ⟨calls, .inr ⟨intact.2.1, .inr ⟨departures,
        .inr ⟨intact.2.2, first⟩⟩⟩⟩⟩⟩

/-- Sheets are loaded if and only if none of them is broken and their rows are acceptable, and they
are refused with the error of the first fault. -/
theorem outcome_of_ofRows (stopRows : Csv.Sheet (StopRow α)) (callRows : Csv.Sheet CallRow)
    (departureRows : Csv.Sheet DepartureRow) :
    ((∃ t, ofRows stopRows callRows departureRows = .ok t) ↔
      (stopRows.intact ∧ callRows.intact ∧ departureRows.intact) ∧
        Acceptable stopRows.rows callRows.rows departureRows.rows) ∧
      ∀ e, ofRows stopRows callRows departureRows = .error e ↔
        RefusesSheets stopRows callRows departureRows e :=
  ⟨exists_ofRows_iff, fun _ ↦ ofRows_eq_error_iff⟩

end

end DoorToDoor.Timetable
