import DoorToDoor.Proofs.Result
import DoorToDoor.Timetable.Rows

/-!
# What a row adds

When a row, a draft or a whole sheet is accepted, and what it adds. Whatever is shown of loading is
shown from these lemmas, without opening the functions that load.
-/

namespace DoorToDoor.Timetable

variable {α : Type}

/-- A row of stops is added when its key is new. -/
theorem addStopRow_eq_ok_iff {index index' : StopIndex α} {row : StopRow α} :
    addStopRow index row = .ok index' ↔ ¬index.2.contains row.key ∧
      index' = ((index.1.addStop row.coord row.link row.name).2,
        index.2.insert row.key (index.1.addStop row.coord row.link row.name).1) := by
  unfold addStopRow
  dsimp only
  split
  · next old => exact iff_of_false nofun fun h ↦ h.1 old
  · next new =>
    constructor
    · intro h
      cases h
      exact ⟨new, rfl⟩
    · rintro ⟨-, rfl⟩
      rfl

/-- A row of stops is refused when its key is known. -/
theorem addStopRow_eq_error_iff {index : StopIndex α} {row : StopRow α} {e : Error} :
    addStopRow index row = .error e ↔
      index.2.contains row.key ∧ e = .duplicateStopKey row.key := by
  unfold addStopRow
  dsimp only
  split
  · next old =>
    rw [Except.error.injEq, and_iff_right old]
    exact eq_comm
  · next new => exact iff_of_false nofun fun h ↦ new h.1

section

variable [Scalar α] {drafts drafts' : Drafts α} {e : Error}

/-- Whether a cell gives a time: a cell that is not there or is blank gives none, any other the time
that is written between its blanks. -/
inductive Offset : Option String → Option α → Prop
  | missing : Offset none none
  | blank {text : String} (empty : (Text.trim text).isEmpty) : Offset (some text) none
  | written {text : String} {time : α} (filled : ¬(Text.trim text).isEmpty)
    (read : Clock.parse (Text.trim text) = .ok time) : Offset (some text) (some time)

/-- The time that a cell gives is read from it. -/
theorem readOffset_eq_ok_iff {cell : Option String} {time? : Option α} :
    readOffset cell = .ok time? ↔ Offset cell time? := by
  constructor
  · intro h
    unfold readOffset at h
    cases cell with
    | none =>
      cases h
      exact .missing
    | some text =>
      rw [Option.map_some] at h
      dsimp only at h
      split at h
      · next empty =>
        cases h
        exact .blank empty
      · next filled =>
        split at h
        · next time read =>
          cases h
          exact .written filled read
        · cases h
  · intro h
    cases h with
    | missing => rfl
    | blank empty => exact if_pos empty
    | written filled read =>
      refine (if_neg filled).trans ?_
      rw [read]

/-- Whether a cell is neither missing nor blank and what is written between its blanks is no
time. -/
def NoOffset (cell : Option String) (fault : Clock.ParseError) : Prop :=
  ∃ text, cell = some text ∧ ¬(Text.trim text).isEmpty ∧
    Clock.parseSeconds (Text.trim text) = .error fault

/-- A cell is refused when it gives no time. -/
theorem readOffset_eq_error_iff {cell : Option String} :
    readOffset (α := α) cell = .error e ↔ ∃ fault, NoOffset cell fault ∧ e = .badTime fault := by
  constructor
  · intro h
    unfold readOffset at h
    cases cell with
    | none => cases h
    | some text =>
      rw [Option.map_some] at h
      dsimp only at h
      split at h
      · cases h
      · next filled =>
        split at h
        · cases h
        · next fault read =>
          cases h
          exact ⟨fault, ⟨text, rfl, filled, Result.map_eq_error.mp read⟩, rfl⟩
  · rintro ⟨fault, ⟨text, rfl, filled, read⟩, rfl⟩
    refine (if_neg filled).trans ?_
    rw [Clock.parse, Result.map_eq_error.mpr read]

/-- A row of calls is added when its stop is known and its cells give times, or none. -/
theorem addCallRow_eq_ok_iff {stops : Std.HashMap String StopId} {row : CallRow} :
    addCallRow stops drafts row = .ok drafts' ↔ ∃ c, stops[row.stop]? = some c.stop ∧
      Offset row.arrival c.arrival ∧ Offset row.departure c.departure ∧
      drafts' = drafts.insert row.key
        ⟨((drafts.get? row.key).getD default).calls ++ [(row.sequence, c)],
          ((drafts.get? row.key).getD default).departures⟩ := by
  unfold addCallRow
  constructor
  · intro added
    split at added
    · cases added
    · next stop hstop =>
      obtain ⟨arrival, harrival, added⟩ := Result.bind_eq_ok.mp added
      obtain ⟨departure, hdeparture, added⟩ := Result.bind_eq_ok.mp added
      cases added
      exact ⟨⟨stop, arrival, departure⟩, hstop, readOffset_eq_ok_iff.mp harrival,
        readOffset_eq_ok_iff.mp hdeparture, rfl⟩
  · rintro ⟨c, hstop, harrival, hdeparture, rfl⟩
    rw [hstop]
    exact Result.bind_eq_ok.mpr ⟨_, readOffset_eq_ok_iff.mpr harrival,
      Result.bind_eq_ok.mpr ⟨_, readOffset_eq_ok_iff.mpr hdeparture, rfl⟩⟩

/-- A row of calls is refused when its stop is not known, or else for a bad arrival, or else for a
bad departure. -/
theorem addCallRow_eq_error_iff {stops : Std.HashMap String StopId} {row : CallRow} :
    addCallRow stops drafts row = .error e ↔
      (stops[row.stop]? = none ∧ e = .unknownStopKey row.stop) ∨
      (stops[row.stop]? ≠ none ∧ (readOffset (α := α) row.arrival = .error e ∨
        (∃ time? : Option α, Offset row.arrival time?) ∧
          readOffset (α := α) row.departure = .error e)) := by
  unfold addCallRow
  split
  · next unknown => simp [unknown, eq_comm]
  · next stop known =>
    simp only [Result.bind_eq_error, readOffset_eq_ok_iff, known, reduceCtorEq, false_and,
      false_or, ne_eq, not_false_eq_true, true_and]
    refine or_congr_right ?_
    constructor
    · rintro ⟨arrival, harrival, hdeparture | ⟨_, _, h⟩⟩
      · exact ⟨⟨arrival, harrival⟩, hdeparture⟩
      · cases h
    · rintro ⟨⟨arrival, harrival⟩, hdeparture⟩
      exact ⟨arrival, harrival, .inl hdeparture⟩

/-- A row of departures is added when its route has calls and its time can be read. -/
theorem addDepartureRow_eq_ok_iff {row : DepartureRow} :
    addDepartureRow drafts row = .ok drafts' ↔ ∃ draft time, drafts.get? row.key = some draft ∧
      Clock.parse row.departure = .ok time ∧
      drafts' = drafts.insert row.key ⟨draft.calls, draft.departures ++ [time]⟩ := by
  unfold addDepartureRow
  constructor
  · intro added
    split at added
    · cases added
    · next draft hdraft =>
      split at added
      · cases added
      · next time htime =>
        cases added
        exact ⟨draft, time, hdraft, htime, rfl⟩
  · rintro ⟨draft, time, hdraft, htime, rfl⟩
    rw [hdraft]
    dsimp only
    rw [htime]

/-- A row of departures is refused when its route has no calls, or else for a bad time. -/
theorem addDepartureRow_eq_error_iff {row : DepartureRow} :
    addDepartureRow drafts row = .error e ↔
      (drafts.get? row.key = none ∧
        e = .invalidRoute (row.key.line ++ "/" ++ row.key.route) .departureWithoutStops) ∨
      (drafts.get? row.key ≠ none ∧ ∃ fault, Clock.parseSeconds row.departure = .error fault ∧
        e = .badTime fault) := by
  unfold addDepartureRow
  split
  · next unknown => simp [unknown, eq_comm]
  · next draft known =>
    split
    · next fault read => simp [known, Result.map_eq_error.mp read, eq_comm]
    · next time read =>
      obtain ⟨n, hn, -⟩ := Result.map_eq_ok.mp read
      simp [known, hn]

end

/-- The line of a name, and what is known with it: the line is known by its name, or a new one is
added. -/
inductive OpensLine (state : Timetable α × Std.HashMap String LineId) (name : String) :
    LineId → Timetable α × Std.HashMap String LineId → Prop
  | known {line : LineId} (found : state.2[name]? = some line) : OpensLine state name line state
  | new (missing : state.2[name]? = none) :
    OpensLine state name (state.1.addLine name).1
      ((state.1.addLine name).2, state.2.insert name (state.1.addLine name).1)

/-- Every name opens a line. -/
theorem exists_opensLine (state : Timetable α × Std.HashMap String LineId) (name : String) :
    ∃ line opened, OpensLine state name line opened := by
  cases h : state.2[name]? with
  | some line => exact ⟨line, state, .known h⟩
  | none => exact ⟨_, _, .new h⟩

/-- A draft is added to the line of its key. -/
theorem addDraft_eq_ok_iff {state state' : Timetable α × Std.HashMap String LineId}
    {entry : RouteKey × Draft α} : addDraft state entry = .ok state' ↔
      ∃ line opened id, OpensLine state entry.1.line line opened ∧
        opened.1.addRoute line entry.1.route entry.2.ordered entry.2.departures =
          .ok (id, state'.1) ∧ state'.2 = opened.2 := by
  unfold addDraft
  dsimp only
  constructor
  · intro added
    split at added
    · next line found =>
      obtain ⟨⟨id, t⟩, hroute, added⟩ := Result.bind_eq_ok.mp added
      cases added
      exact ⟨line, state, id, .known found, hroute, rfl⟩
    · next missing =>
      obtain ⟨⟨id, t⟩, hroute, added⟩ := Result.bind_eq_ok.mp added
      cases added
      exact ⟨_, _, id, .new missing, hroute, rfl⟩
  · rintro ⟨line, opened, id, hopened, hroute, hlines⟩
    cases hopened with
    | known found =>
      rw [found]
      exact Result.bind_eq_ok.mpr ⟨_, hroute, by rw [← hlines]; rfl⟩
    | new missing =>
      rw [missing]
      exact Result.bind_eq_ok.mpr ⟨_, hroute, by rw [← hlines]; rfl⟩

/-- A draft is refused when its route is. -/
theorem addDraft_eq_error_iff {state : Timetable α × Std.HashMap String LineId}
    {entry : RouteKey × Draft α} {e : Error} : addDraft state entry = .error e ↔
      ∃ line opened, OpensLine state entry.1.line line opened ∧
        opened.1.addRoute line entry.1.route entry.2.ordered entry.2.departures = .error e := by
  unfold addDraft
  dsimp only
  split
  · next line found =>
    rw [Result.bind_eq_error, or_iff_left fun ⟨_, _, h⟩ ↦ nomatch h]
    constructor
    · exact fun h ↦ ⟨line, state, .known found, h⟩
    · rintro ⟨_, _, opens, h⟩
      cases opens with
      | known found' =>
        cases found.symm.trans found'
        exact h
      | new missing => cases found.symm.trans missing
  · next missing =>
    rw [Result.bind_eq_error, or_iff_left fun ⟨_, _, h⟩ ↦ nomatch h]
    constructor
    · exact fun h ↦ ⟨_, _, .new missing, h⟩
    · rintro ⟨_, _, opens, h⟩
      cases opens with
      | known found => cases found.symm.trans missing
      | new => exact h

section

variable [Scalar α] {stopRows : Csv.Sheet (StopRow α)} {callRows : Csv.Sheet CallRow}
  {departureRows : Csv.Sheet DepartureRow} {t : Timetable α}

private theorem requireIntact_eq_ok_iff {ρ : Type} {sheet : Csv.Sheet ρ} {u : Unit} :
    requireIntact sheet = .ok u ↔ sheet.intact = true := by
  unfold requireIntact
  split
  · next intact => exact iff_of_true rfl intact
  · next broken => exact iff_of_false nofun broken

/-- A sheet that is broken is refused. -/
theorem requireIntact_eq_error_iff {ρ : Type} {sheet : Csv.Sheet ρ} {e : Error} :
    requireIntact sheet = .error e ↔ sheet.intact = false ∧ e = .malformedTable := by
  unfold requireIntact
  split
  · next intact => simp [intact]
  · next broken => simp [broken, eq_comm]

/-- Sheets are loaded if none of them is broken and all rows and all drafts are added. -/
theorem ofRows_eq_ok_iff_added : ofRows stopRows callRows departureRows = .ok t ↔
    (stopRows.intact ∧ callRows.intact ∧ departureRows.intact) ∧ ∃ index drafts drafts' lines,
      stopRows.rows.foldlM addStopRow (empty, ∅) = .ok index ∧
      callRows.rows.foldlM (addCallRow index.2) OrderedMap.empty = .ok drafts ∧
      departureRows.rows.foldlM addDepartureRow drafts = .ok drafts' ∧
      drafts'.toList.foldlM addDraft (index.1, ∅) = .ok (t, lines) := by
  unfold ofRows
  constructor
  · intro h
    obtain ⟨index, hindex, h⟩ := Result.bind_eq_ok.mp h
    obtain ⟨_, hstops, h⟩ := Result.bind_eq_ok.mp h
    obtain ⟨drafts, hdrafts, h⟩ := Result.bind_eq_ok.mp h
    obtain ⟨_, hcalls, h⟩ := Result.bind_eq_ok.mp h
    obtain ⟨drafts', hdrafts', h⟩ := Result.bind_eq_ok.mp h
    obtain ⟨_, hdepartures, h⟩ := Result.bind_eq_ok.mp h
    obtain ⟨state, hstate, h⟩ := Result.bind_eq_ok.mp h
    cases h
    exact ⟨⟨requireIntact_eq_ok_iff.mp hstops, requireIntact_eq_ok_iff.mp hcalls,
      requireIntact_eq_ok_iff.mp hdepartures⟩, index, drafts, drafts', state.2, hindex, hdrafts,
      hdrafts', hstate⟩
  · rintro ⟨⟨hstops, hcalls, hdepartures⟩, index, drafts, drafts', lines, hindex, hdrafts,
      hdrafts', hstate⟩
    refine Result.bind_eq_ok.mpr ⟨index, hindex, ?_⟩
    refine Result.bind_eq_ok.mpr ⟨(), requireIntact_eq_ok_iff.mpr hstops, ?_⟩
    refine Result.bind_eq_ok.mpr ⟨drafts, hdrafts, ?_⟩
    refine Result.bind_eq_ok.mpr ⟨(), requireIntact_eq_ok_iff.mpr hcalls, ?_⟩
    refine Result.bind_eq_ok.mpr ⟨drafts', hdrafts', ?_⟩
    refine Result.bind_eq_ok.mpr ⟨(), requireIntact_eq_ok_iff.mpr hdepartures, ?_⟩
    exact Result.bind_eq_ok.mpr ⟨(t, lines), hstate, rfl⟩

/-- Sheets are refused where one of the steps that load them is, behind steps that succeed. -/
theorem ofRows_eq_error_iff_step {e : Error} : ofRows stopRows callRows departureRows = .error e ↔
    stopRows.rows.foldlM addStopRow ((empty, ∅) : StopIndex α) = .error e ∨
    ∃ index : StopIndex α, stopRows.rows.foldlM addStopRow (empty, ∅) = .ok index ∧
    (requireIntact stopRows = .error e ∨ stopRows.intact ∧
    (callRows.rows.foldlM (addCallRow index.2) (OrderedMap.empty : Drafts α) = .error e ∨
    ∃ drafts : Drafts α,
      callRows.rows.foldlM (addCallRow index.2) OrderedMap.empty = .ok drafts ∧
    (requireIntact callRows = .error e ∨ callRows.intact ∧
    (departureRows.rows.foldlM addDepartureRow drafts = .error e ∨
    ∃ drafts', departureRows.rows.foldlM addDepartureRow drafts = .ok drafts' ∧
    (requireIntact departureRows = .error e ∨ departureRows.intact ∧
    drafts'.toList.foldlM addDraft (index.1, ∅) = .error e))))) := by
  have hintact : ∀ {ρ γ : Type} {sheet : Csv.Sheet ρ} {next : Unit → Except Error γ},
      (requireIntact sheet >>= next) = .error e ↔
        requireIntact sheet = .error e ∨ sheet.intact ∧ next () = .error e := by
    intro ρ γ sheet next
    simp only [Result.bind_eq_error, requireIntact_eq_ok_iff]
    exact or_congr_right ⟨fun ⟨_, h⟩ ↦ h, fun h ↦ ⟨(), h⟩⟩
  unfold ofRows
  simp only [hintact, Result.bind_eq_error]
  simp [pure, Except.pure]

end

end DoorToDoor.Timetable
