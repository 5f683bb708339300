import DoorToDoor.Number.Binary64
import DoorToDoor.Proofs.Timetable.Described
import DoorToDoor.Proofs.Timetable.Loaded

/-!
# What rows are loaded as

Sheets are loaded as the timetable that their rows tell, and they are loaded if and only if no sheet
is broken and the rows tell a timetable: `ofRows_eq_ok_iff`. The rows are read one after the other,
and the invariants say what the rows read so far have led to: the stops (`Indexed`), the drafts of
routes (`Collected`) and the routes entered from drafts (`Entered`).
-/

namespace DoorToDoor.Timetable

variable {α : Type}

/-- Whether the names in a list are known with their places. -/
def Knows {k : Kind} (ids : Std.HashMap String (Id k)) (names : List String) : Prop :=
  ∀ (name : String) (id : Id k), ids[name]? = some id ↔ names[id.index]? = some name

namespace Knows

variable {k : Kind} {ids : Std.HashMap String (Id k)} {names : List String}

/-- No names are known at first. -/
theorem empty : Knows (∅ : Std.HashMap String (Id k)) [] := fun name id ↦ by simp

/-- The names in the list are those that are known. -/
theorem contains_iff (h : Knows ids names) (name : String) :
    ids.contains name = true ↔ name ∈ names := by
  rw [Std.HashMap.contains_eq_isSome_getElem?, Option.isSome_iff_exists, List.mem_iff_getElem?]
  constructor
  · rintro ⟨id, hid⟩
    exact ⟨id.index, (h name id).mp hid⟩
  · rintro ⟨i, hi⟩
    exact ⟨⟨i⟩, (h name ⟨i⟩).mpr hi⟩

/-- No name stands in two places. -/
theorem nodup (h : Knows ids names) : names.Nodup := by
  rw [List.nodup_iff_pairwise_ne, List.pairwise_iff_getElem]
  intro i j hi hj hij heq
  have hfirst := (h names[i] ⟨i⟩).mpr (List.getElem?_eq_getElem hi)
  have hsecond := (h names[i] ⟨j⟩).mpr (heq ▸ List.getElem?_eq_getElem hj)
  cases hfirst.symm.trans hsecond
  exact Nat.lt_irrefl _ hij

/-- A new name is known with its place behind the others. -/
theorem insert (h : Knows ids names) {name : String} (new : name ∉ names) :
    Knows (ids.insert name ⟨names.length⟩) (names ++ [name]) := by
  intro name' id
  have hat : (names ++ [name])[id.index]? = some name' ↔
      names[id.index]? = some name' ∨ id.index = names.length ∧ name = name' := by
    rcases Nat.lt_trichotomy id.index names.length with hlt | heq | hgt
    · simp [List.getElem?_append_left hlt, Nat.ne_of_lt hlt]
    · simp [heq]
    · simp [List.getElem?_append_right (Nat.le_of_lt hgt), Nat.le_of_lt hgt, Nat.ne_of_gt hgt,
        Nat.sub_ne_zero_of_lt hgt]
  rw [Std.HashMap.getElem?_insert, hat]
  split
  · next same =>
    obtain rfl := eq_of_beq same
    rw [or_iff_right fun hold ↦ new (List.mem_of_getElem? hold), and_iff_left rfl,
      Option.some.injEq]
    exact ⟨fun heq ↦ heq ▸ rfl, fun heq ↦ Id.eq_of_index_eq heq.symm⟩
  · next other =>
    rw [or_iff_left fun heq ↦ other (beq_iff_eq.mpr heq.2)]
    exact h name' id

end Knows

/-- What has come of rows of stops: the stops of these rows, in their order, and each under its
key. -/
structure Indexed (rows : List (StopRow α)) (index : StopIndex α) : Prop where
  built : index.1.Built
  stops : index.1.stops.toList = rows.mapIdx fun i row ↦ ⟨⟨i⟩, row.coord, row.link, row.name⟩
  lines : index.1.lines = #[]
  routes : index.1.routes = #[]
  known : Knows index.2 (rows.map (·.key))

namespace Indexed

variable {rows : List (StopRow α)} {index index' : StopIndex α}

/-- Nothing comes of no rows. -/
theorem empty : Indexed [] ((empty, ∅) : StopIndex α) where
  built := .empty
  stops := rfl
  lines := rfl
  routes := rfl
  known := .empty

/-- There are as many stops as rows. -/
theorem size_stops (h : Indexed rows index) : index.1.stops.size = rows.length := by
  rw [← Array.length_toList, h.stops, List.length_mapIdx]

/-- One more row. -/
theorem addStopRow (h : Indexed rows index) {row : StopRow α}
    (added : addStopRow index row = .ok index') : Indexed (rows ++ [row]) index' := by
  obtain ⟨hnew, rfl⟩ := addStopRow_eq_ok_iff.mp added
  rw [h.known.contains_iff] at hnew
  constructor
  case built => exact h.built.addStop row.coord row.link row.name
  case stops =>
    simp only [addStop, Array.toList_push, h.stops, h.size_stops, List.mapIdx_append,
      List.mapIdx_singleton, Nat.zero_add]
  case lines => exact h.lines
  case routes => exact h.routes
  case known =>
    have hknown := h.known.insert hnew
    rw [List.length_map, ← h.size_stops] at hknown
    rw [List.map_append]
    exact hknown

/-- All rows that are added. -/
theorem of_foldlM (added : rows.foldlM Timetable.addStopRow (Timetable.empty, ∅) = .ok index) :
    Indexed rows index :=
  Result.prefix_of_foldlM (fun _ _ _ _ h added ↦ h.addStopRow added) .empty added

/-- Rows with different keys are added. -/
theorem exists_foldlM (nodup : (rows.map (·.key)).Nodup) : ∃ index : StopIndex α,
    rows.foldlM Timetable.addStopRow (Timetable.empty, ∅) = .ok index ∧ Indexed rows index := by
  refine Result.exists_prefix_foldlM (fun done row rest index hsplit h ↦ ?_) .empty
  have hnew : ¬index.2.contains row.key := by
    rw [h.known.contains_iff]
    intro hmem
    rw [← hsplit, List.map_append, List.map_cons, List.nodup_append] at nodup
    exact nodup.2.2 _ hmem _ List.mem_cons_self rfl
  have hadded := addStopRow_eq_ok_iff.mpr ⟨hnew, rfl⟩
  exact ⟨_, hadded, h.addStopRow hadded⟩

end Indexed

section

variable [Scalar α] {stopRows : List (StopRow α)} {callRows : List CallRow}
  {departureRows : List DepartureRow} {drafts drafts' : Drafts α} {key : RouteKey}

/-- What rows say about the draft of a key: the calls of its rows with their sequence numbers, and
the departures of its rows, both in the order of the rows. -/
structure Draft.Collects (stopRows : List (StopRow α)) (callRows : List CallRow)
    (departureRows : List DepartureRow) (key : RouteKey) (draft : Draft α) : Prop where
  calls : List.Forall₂ (fun row c ↦ c.1 = row.sequence ∧ row.Tells stopRows c.2)
    (callRows.filter (·.key == key)) draft.calls
  departures : List.Forall₂ (fun row time ↦ Clock.parse row.departure = .ok time)
    (departureRows.filter (·.key == key)) draft.departures

/-- What has come of rows of calls and departures: a draft for each key of the calls, in the order
in which these first appear. -/
structure Collected (stopRows : List (StopRow α)) (callRows : List CallRow)
    (departureRows : List DepartureRow) (drafts : Drafts α) : Prop where
  keys : drafts.toList.map (·.1) = (callRows.map (·.key)).eraseDups
  collects : ∀ (key : RouteKey) (draft : Draft α), drafts.get? key = some draft →
    draft.Collects stopRows callRows departureRows key
  departure_keys : ∀ row ∈ departureRows, row.key ∈ callRows.map (·.key)

/-- A row of calls is added when it says a call. -/
theorem Indexed.addCallRow_eq_ok_iff {index : StopIndex α} (h : Indexed stopRows index)
    {row : CallRow} : addCallRow index.2 drafts row = .ok drafts' ↔ ∃ c, row.Tells stopRows c ∧
      drafts' = drafts.insert row.key
        ⟨((drafts.get? row.key).getD default).calls ++ [(row.sequence, c)],
          ((drafts.get? row.key).getD default).departures⟩ := by
  rw [Timetable.addCallRow_eq_ok_iff]
  constructor
  · rintro ⟨c, hstop, harrival, hdeparture, rfl⟩
    exact ⟨c, ⟨(h.known _ _).mp hstop, harrival, hdeparture⟩, rfl⟩
  · rintro ⟨c, ⟨hstop, harrival, hdeparture⟩, rfl⟩
    exact ⟨c, (h.known _ _).mpr hstop, harrival, hdeparture, rfl⟩

private theorem filter_concat {β : Type} (p : β → Bool) (xs : List β) (x : β) :
    (xs ++ [x]).filter p = if p x then xs.filter p ++ [x] else xs.filter p := by
  cases h : p x <;> simp [h]

namespace Collected

/-- Nothing comes of no rows. -/
theorem empty : Collected stopRows [] [] (OrderedMap.empty : Drafts α) where
  keys := rfl
  collects key draft h := by simp at h
  departure_keys := nofun

/-- The keys of the calls are those that have drafts. -/
theorem contains_iff (h : Collected stopRows callRows departureRows drafts) (key : RouteKey) :
    drafts.contains key = true ↔ key ∈ callRows.map (·.key) := by
  rw [← OrderedMap.mem_keys_iff, h.keys, List.mem_eraseDups]

private theorem collects_getD (h : Collected stopRows callRows [] drafts) (key : RouteKey) :
    ((drafts.get? key).getD default).Collects stopRows callRows [] key := by
  cases hget : drafts.get? key with
  | some draft => exact h.collects key draft hget
  | none =>
    have hnone : callRows.filter (·.key == key) = [] := by
      refine List.filter_eq_nil_iff.mpr fun row hrow same ↦ ?_
      have hmem := (h.contains_iff key).mpr (eq_of_beq same ▸ List.mem_map_of_mem hrow)
      rw [OrderedMap.contains, hget] at hmem
      cases hmem
    constructor
    case calls =>
      rw [hnone]
      exact .nil
    case departures => exact .nil

private theorem addCall (h : Collected stopRows callRows [] drafts) {row : CallRow} {c : Call α}
    (tells : row.Tells stopRows c) : Collected stopRows (callRows ++ [row]) []
      (drafts.insert row.key ⟨((drafts.get? row.key).getD default).calls ++ [(row.sequence, c)],
        ((drafts.get? row.key).getD default).departures⟩) := by
  constructor
  case keys =>
    have hsame : drafts.contains row.key = (callRows.map (·.key)).contains row.key := by
      rw [Bool.eq_iff_iff, h.contains_iff, List.contains_iff_mem]
    rw [OrderedMap.keys_insert, List.map_append, List.map_singleton, eraseDups_concat, hsame,
      h.keys]
  case collects =>
    intro key draft hget
    rw [OrderedMap.get?_insert] at hget
    split at hget
    · next same =>
      cases hget
      obtain rfl := eq_of_beq same
      have hold := h.collects_getD row.key
      constructor
      case calls =>
        rw [filter_concat, if_pos (beq_self_eq_true _)]
        exact List.rel_append hold.calls (.cons ⟨rfl, tells⟩ .nil)
      case departures => exact hold.departures
    · next other =>
      have hold := h.collects key draft hget
      constructor
      case calls =>
        rw [filter_concat, if_neg other]
        exact hold.calls
      case departures => exact hold.departures
  case departure_keys => exact nofun

private theorem addDeparture (h : Collected stopRows callRows departureRows drafts)
    {row : DepartureRow} {draft : Draft α} {time : α} (found : drafts.get? row.key = some draft)
    (read : Clock.parse row.departure = .ok time) :
    Collected stopRows callRows (departureRows ++ [row])
      (drafts.insert row.key ⟨draft.calls, draft.departures ++ [time]⟩) := by
  have hknown : drafts.contains row.key = true := by
    rw [OrderedMap.contains, found]
    rfl
  constructor
  case keys => rw [OrderedMap.keys_insert, if_pos hknown, h.keys]
  case collects =>
    intro key draft' hget
    rw [OrderedMap.get?_insert] at hget
    split at hget
    · next same =>
      cases hget
      obtain rfl := eq_of_beq same
      have hold := h.collects row.key draft found
      constructor
      case calls => exact hold.calls
      case departures =>
        rw [filter_concat, if_pos (beq_self_eq_true _)]
        exact List.rel_append hold.departures (.cons read .nil)
    · next other =>
      have hold := h.collects key draft' hget
      constructor
      case calls => exact hold.calls
      case departures =>
        rw [filter_concat, if_neg other]
        exact hold.departures
  case departure_keys =>
    intro row' hrow'
    rcases List.mem_append.mp hrow' with hrow' | hrow'
    · exact h.departure_keys row' hrow'
    · rw [List.mem_singleton.mp hrow']
      exact (h.contains_iff row.key).mp hknown

/-- All rows of departures that are added. -/
theorem of_foldlM_departures (h : Collected stopRows callRows [] drafts)
    (added : departureRows.foldlM addDepartureRow drafts = .ok drafts') :
    Collected stopRows callRows departureRows drafts' := by
  refine Result.prefix_of_foldlM (P := fun rows drafts ↦ Collected stopRows callRows rows drafts)
    (fun _ _ _ _ h added ↦ ?_) h added
  obtain ⟨draft, time, hdraft, htime, rfl⟩ := addDepartureRow_eq_ok_iff.mp added
  exact h.addDeparture hdraft htime

/-- Rows of departures are added when their routes have calls and their times can be read. -/
theorem exists_foldlM_departures (h : Collected stopRows callRows [] drafts)
    (keys : ∀ row ∈ departureRows, row.key ∈ callRows.map (·.key))
    (times : ∀ row ∈ departureRows, ∃ time : α, Clock.parse row.departure = .ok time) :
    ∃ drafts', departureRows.foldlM addDepartureRow drafts = .ok drafts' ∧
      Collected stopRows callRows departureRows drafts' := by
  refine Result.exists_prefix_foldlM
    (P := fun rows drafts ↦ Collected stopRows callRows rows drafts)
    (fun done row rest drafts hsplit h ↦ ?_) h
  have hrow : row ∈ departureRows := by simp [← hsplit]
  obtain ⟨time, htime⟩ := times row hrow
  obtain ⟨draft, hdraft⟩ :=
    Option.isSome_iff_exists.mp ((h.contains_iff row.key).mpr (keys row hrow))
  exact ⟨_, addDepartureRow_eq_ok_iff.mpr ⟨draft, time, hdraft, htime, rfl⟩,
    h.addDeparture hdraft htime⟩

end Collected

/-- All rows of calls that are added. -/
theorem Indexed.of_foldlM_calls {index : StopIndex α} (h : Indexed stopRows index)
    (added : callRows.foldlM (addCallRow index.2) OrderedMap.empty = .ok drafts) :
    Collected stopRows callRows [] drafts := by
  refine Result.prefix_of_foldlM (P := fun rows drafts ↦ Collected stopRows rows [] drafts)
    (fun _ _ _ _ collected added ↦ ?_) .empty added
  obtain ⟨c, hc, rfl⟩ := h.addCallRow_eq_ok_iff.mp added
  exact collected.addCall hc

/-- Rows of calls are added when each tells a call. -/
theorem Indexed.exists_foldlM_calls {index : StopIndex α} (h : Indexed stopRows index)
    (calls : ∀ row ∈ callRows, ∃ c : Call α, row.Tells stopRows c) :
    ∃ drafts, callRows.foldlM (addCallRow index.2) OrderedMap.empty = .ok drafts ∧
      Collected stopRows callRows [] drafts := by
  refine Result.exists_prefix_foldlM (P := fun rows drafts ↦ Collected stopRows rows [] drafts)
    (fun done row rest drafts hsplit collected ↦ ?_) .empty
  obtain ⟨c, hc⟩ := calls row (by simp [← hsplit])
  exact ⟨_, h.addCallRow_eq_ok_iff.mpr ⟨c, hc, rfl⟩, collected.addCall hc⟩

/-- The calls of a draft in sequence are what its rows say in sequence. -/
theorem Draft.Collects.ordered {draft : Draft α}
    (h : draft.Collects stopRows callRows departureRows key) :
    ∃ rows, InSequence (callRows.filter (·.key == key)) rows ∧
      List.Forall₂ (CallRow.Tells stopRows) rows draft.ordered := by
  obtain ⟨hlength, hzip⟩ := List.forall₂_iff_zip.mp h.calls
  -- Each row stays with its call when both are sorted.
  let pairs := (callRows.filter (·.key == key)).zip draft.calls
  let sorted := pairs.mergeSort fun p q ↦ p.1.sequence ≤ q.1.sequence
  have hrows : sorted.map (·.1) =
      (callRows.filter (·.key == key)).mergeSort fun a b ↦ a.sequence ≤ b.sequence := by
    calc sorted.map (·.1)
        = (pairs.map (·.1)).mergeSort fun a b ↦ a.sequence ≤ b.sequence :=
          List.map_mergeSort fun _ _ _ _ ↦ rfl
      _ = _ := by rw [List.map_fst_zip (Nat.le_of_eq hlength)]
  have hcalls : sorted.map (·.2) = draft.calls.mergeSort fun a b ↦ a.1 ≤ b.1 := by
    calc sorted.map (·.2)
        = (pairs.map (·.2)).mergeSort fun a b ↦ a.1 ≤ b.1 :=
          List.map_mergeSort fun p hp q hq ↦ by rw [(hzip hp).1, (hzip hq).1]
      _ = _ := by rw [List.map_snd_zip (Nat.le_of_eq hlength.symm)]
  refine ⟨_, InSequence.mergeSort _, ?_⟩
  rw [← hrows, Draft.ordered, ← hcalls, List.map_map, List.forall₂_map_left_iff,
    List.forall₂_map_right_iff, List.forall₂_same]
  exact fun p hp ↦ (hzip (List.mem_mergeSort.mp hp)).2

private theorem exists_of_mem_left {β γ : Type} {R : β → γ → Prop} {bs : List β} {cs : List γ}
    (h : List.Forall₂ R bs cs) {b : β} (hb : b ∈ bs) : ∃ c ∈ cs, R b c := by
  induction h with
  | nil => cases hb
  | cons hbc _ ih =>
    rcases List.mem_cons.mp hb with rfl | hb
    · exact ⟨_, List.mem_cons_self, hbc⟩
    · obtain ⟨c, hc, hR⟩ := ih hb
      exact ⟨c, List.mem_cons_of_mem _ hc, hR⟩

/-- A draft calls at known stops. -/
theorem Draft.Collects.stops_in {draft : Draft α}
    (h : draft.Collects stopRows callRows departureRows key) :
    ∀ c ∈ draft.ordered, c.stop.index < stopRows.length := by
  intro c hc
  obtain ⟨rows, -, hordered⟩ := h.ordered
  obtain ⟨row, -, htold⟩ := exists_of_mem_left hordered.flip hc
  have hlt := (List.getElem?_eq_some_iff.mp htold.stop).1
  rwa [List.length_map] at hlt

end

/-- What has come of names of lines, for the stops that were there: a line for each, in the order in
which they first appear, and each under its name. -/
structure Lined (stops : Array (Stop α)) (names : List String)
    (state : Timetable α × Std.HashMap String LineId) : Prop where
  built : state.1.Built
  stops : state.1.stops = stops
  lines : state.1.lines.toList.map (·.name) = names.eraseDups
  known : Knows state.2 names.eraseDups

namespace Lined

variable {stops : Array (Stop α)} {names : List String} {name : String} {line : LineId}
  {state opened : Timetable α × Std.HashMap String LineId}

private theorem known_iff (h : Lined stops names state) (name : String) (line : LineId) :
    state.2[name]? = some line ↔ (state.1.line? line).map (·.name) = some name := by
  rw [map_name_line?, h.lines]
  exact h.known name line

/-- The line of a name is there once it is opened, and no other line has changed. -/
theorem opensLine (h : Lined stops names state) (opens : OpensLine state name line opened) :
    Lined stops (names ++ [name]) opened ∧ (opened.1.line? line).map (·.name) = some name ∧
      opened.1.routes = state.1.routes ∧ state.1.Grows opened.1 := by
  cases opens with
  | known found =>
    have hold : names.contains name = true := by
      have hmem := List.mem_of_getElem? ((h.known name line).mp found)
      exact List.contains_iff_mem.mpr (List.mem_eraseDups.mp hmem)
    refine ⟨⟨h.built, h.stops, ?_, ?_⟩, (h.known_iff name line).mp found, rfl, .refl _⟩
    · rw [eraseDups_concat, if_pos hold, h.lines]
    · rw [eraseDups_concat, if_pos hold]
      exact h.known
  | new missing =>
    have hnew : name ∉ names.eraseDups := by
      intro hmem
      rw [← h.known.contains_iff, Std.HashMap.contains_eq_isSome_getElem?, missing] at hmem
      cases hmem
    have hnames : (names ++ [name]).eraseDups = names.eraseDups ++ [name] := by
      rw [eraseDups_concat, if_neg]
      rwa [List.contains_iff_mem, ← List.mem_eraseDups]
    have hsize : state.1.lines.size = names.eraseDups.length := by
      rw [← h.lines, List.length_map, Array.length_toList]
    refine ⟨⟨h.built.addLine name, h.stops, ?_, ?_⟩, ?_, rfl, .perform state.1 (.line name)⟩
    · rw [hnames, ← h.lines]
      simp [addLine]
    · rw [hnames]
      simp only [addLine, hsize]
      exact h.known.insert hnew
    · rw [line?_addLine]
      rfl

end Lined

/-- What has come of drafts, for the stops that were there: the lines of their keys, and a route for
each draft on the line of its key. -/
structure Entered (stops : Array (Stop α)) (entries : List (RouteKey × Draft α))
    (state : Timetable α × Std.HashMap String LineId) : Prop
    extends Lined stops (entries.map (·.1.line)) state where
  routes : List.Forall₂ (fun entry r ↦ (state.1.line? r.line).map (·.name) = some entry.1.line ∧
      r.name = entry.1.route ∧ r.calls = entry.2.ordered ∧ r.departures = entry.2.departures)
    entries state.1.routes.toList

namespace Entered

variable {stops : Array (Stop α)} {entries : List (RouteKey × Draft α)}
  {entry : RouteKey × Draft α} {state state' : Timetable α × Std.HashMap String LineId}

/-- Nothing comes of no drafts. -/
theorem empty {stopRows : List (StopRow α)} {index : StopIndex α} (h : Indexed stopRows index) :
    Entered index.1.stops [] (index.1, ∅) where
  built := h.built
  stops := rfl
  lines := by simp [h.lines]
  known := .empty
  routes := by simp [h.routes]

/-- One more draft. -/
theorem addDraft (h : Entered stops entries state) (added : addDraft state entry = .ok state') :
    Entered stops (entries ++ [entry]) state' := by
  obtain ⟨line, opened, id, hopens, hadded, hknown⟩ := addDraft_eq_ok_iff.mp added
  obtain ⟨hlined, hline, hroutes, hgrows⟩ := h.opensLine hopens
  obtain ⟨-, -, -, -, -, ht⟩ := addRoute_eq_ok_iff.mp hadded
  have hnames : ∀ i : Nat, state'.1.lines[i]?.map Line.name = opened.1.lines[i]?.map Line.name := by
    intro i
    rw [ht, Array.getElem?_modify]
    split
    · cases opened.1.lines[i]? <;> rfl
    · rfl
  constructor
  case toLined =>
    rw [List.map_append]
    constructor
    case built => exact hlined.built.addRoute hadded
    case stops =>
      rw [ht]
      exact hlined.stops
    case lines =>
      rw [List.map_singleton, ← hlined.lines]
      refine List.ext_getElem? fun i ↦ ?_
      simp only [List.getElem?_map, Array.getElem?_toList]
      exact hnames i
    case known =>
      rw [hknown]
      exact hlined.known
  case routes =>
    have hkept : ∀ (line : LineId) (name : String), (state.1.line? line).map Line.name = some name →
        (state'.1.line? line).map Line.name = some name := by
      intro line name hname
      obtain ⟨l, hl, rfl⟩ := Option.map_eq_some_iff.mp hname
      obtain ⟨l', hl', hext⟩ := hgrows.lines _ l hl
      rw [line?, hnames, hl', Option.map_some, hext.name_eq]
    have hpushed : state'.1.routes.toList = state.1.routes.toList ++
        [⟨id, line, entry.1.route, entry.2.ordered, entry.2.departures⟩] := by
      rw [ht, Array.toList_push, hroutes]
    rw [hpushed]
    refine List.rel_append ?_ (.cons ⟨?_, rfl, rfl, rfl⟩ .nil)
    · exact h.routes.imp fun _ _ hroute ↦ ⟨hkept _ _ hroute.1, hroute.2⟩
    · rw [line?, hnames]
      exact hline

/-- All drafts that are added. -/
theorem of_foldlM {stopRows : List (StopRow α)} {index : StopIndex α} (h : Indexed stopRows index)
    (added : entries.foldlM Timetable.addDraft (index.1, ∅) = .ok state) :
    Entered index.1.stops entries state :=
  Result.prefix_of_foldlM (fun _ _ _ _ h added ↦ h.addDraft added) (.empty h) added

/-- A draft is added when it calls at known stops, twice or more, and departs. -/
theorem exists_addDraft (h : Entered stops entries state)
    (stops_in : ∀ c ∈ entry.2.ordered, c.stop.index < stops.size)
    (many : 2 ≤ entry.2.ordered.length) (departs : entry.2.departures ≠ []) :
    ∃ state', Timetable.addDraft state entry = .ok state' := by
  obtain ⟨line, opened, hopens⟩ := exists_opensLine state entry.1.line
  obtain ⟨hlined, hline, -, -⟩ := h.opensLine hopens
  obtain ⟨l, hl, -⟩ := Option.map_eq_some_iff.mp hline
  have hstops : ∀ c ∈ entry.2.ordered, c.stop.index < opened.1.stops.size := by
    rw [hlined.stops]
    exact stops_in
  obtain ⟨id, t, hadded⟩ : ∃ id t, opened.1.addRoute line entry.1.route entry.2.ordered
      entry.2.departures = .ok (id, t) :=
    ⟨_, _, addRoute_eq_ok_iff.mpr ⟨(Array.getElem?_eq_some_iff.mp hl).1, hstops, many, departs, rfl,
      rfl⟩⟩
  exact ⟨(t, opened.2), addDraft_eq_ok_iff.mpr ⟨line, opened, id, hopens, hadded, rfl⟩⟩

end Entered

section

variable [Scalar α] {stopRows : List (StopRow α)} {callRows : List CallRow}
  {departureRows : List DepartureRow} {index : StopIndex α} {drafts : Drafts α}
  {state : Timetable α × Std.HashMap String LineId} {t : Timetable α}

/-- What has come of all rows is what they tell. -/
theorem Entered.describes (h : Entered index.1.stops drafts.toList state)
    (indexed : Indexed stopRows index)
    (collected : Collected stopRows callRows departureRows drafts) :
    Describes stopRows callRows departureRows state.1 where
  stop_keys := indexed.known.nodup
  departure_keys := collected.departure_keys
  sound := h.built.sound
  stops := by rw [h.stops, indexed.stops]
  lines := by
    have hkeys : drafts.toList.map (·.1.line) =
        ((callRows.map (·.key)).eraseDups).map (·.line) := by
      rw [← collected.keys, List.map_map]
      rfl
    rw [h.lines, hkeys, eraseDups_map_eraseDups, List.map_map]
    rfl
  routes := by
    obtain ⟨hlength, hzip⟩ := List.forall₂_iff_zip.mp h.routes
    rw [← collected.keys, List.forall₂_map_left_iff]
    refine List.forall₂_iff_zip.mpr ⟨hlength, fun {entry r} hmem ↦ ?_⟩
    obtain ⟨hline, hname, hcalls, hdepartures⟩ := hzip hmem
    have hget := (drafts.get?_eq_some_iff entry.1 entry.2).mpr (List.of_mem_zip hmem).1
    have hcollects := collected.collects entry.1 entry.2 hget
    refine ⟨hline, hname, ?_, ?_⟩
    · rw [hcalls]
      exact hcollects.ordered
    · rw [hdepartures]
      exact hcollects.departures

/-- Each entry is a draft of what rows say about its key. -/
theorem Collected.collects_of_mem (h : Collected stopRows callRows departureRows drafts) :
    ∀ entry ∈ drafts.toList, entry.2.Collects stopRows callRows departureRows entry.1 :=
  fun _ hentry ↦ h.collects _ _ ((drafts.get?_eq_some_iff _ _).mpr hentry)

/-- Drafts of what rows say are added when each calls twice or more and departs. -/
theorem Indexed.exists_foldlM_drafts {entries : List (RouteKey × Draft α)}
    (h : Indexed stopRows index)
    (collects : ∀ entry ∈ entries, entry.2.Collects stopRows callRows departureRows entry.1)
    (enters : ∀ entry ∈ entries, 2 ≤ entry.2.ordered.length ∧ entry.2.departures ≠ []) :
    ∃ state, entries.foldlM addDraft (index.1, ∅) = .ok state := by
  have hstep : ∀ done entry rest state, done ++ entry :: rest = entries →
      Entered index.1.stops done state →
      ∃ state', addDraft state entry = .ok state' ∧
        Entered index.1.stops (done ++ [entry]) state' := by
    intro done entry rest state hsplit entered
    have hentry : entry ∈ entries := by simp [← hsplit]
    have hstops := (collects entry hentry).stops_in
    rw [← h.size_stops] at hstops
    obtain ⟨state', hadded⟩ :=
      entered.exists_addDraft hstops (enters entry hentry).1 (enters entry hentry).2
    exact ⟨state', hadded, entered.addDraft hadded⟩
  obtain ⟨state, hstate, -⟩ := Result.exists_prefix_foldlM hstep (.empty h)
  exact ⟨state, hstate⟩

namespace Describes

variable (h : Describes stopRows callRows departureRows t)

include h

private theorem exists_route {key : RouteKey} (hkey : key ∈ callRows.map (·.key)) :
    ∃ r ∈ t.routes, key.Tells stopRows callRows departureRows r := by
  obtain ⟨r, hr, -, htells⟩ := exists_of_mem_left h.routes (List.mem_eraseDups.mpr hkey)
  exact ⟨r, Array.mem_toList_iff.mp hr, htells⟩

private theorem exists_call {row : CallRow} (hrow : row ∈ callRows) :
    ∃ c : Call α, row.Tells stopRows c := by
  obtain ⟨r, -, htells⟩ := h.exists_route (List.mem_map_of_mem hrow)
  obtain ⟨rows, hrows, hcalls⟩ := htells.calls
  have hmem : row ∈ callRows.filter (·.key == row.key) :=
    List.mem_filter.mpr ⟨hrow, beq_self_eq_true _⟩
  obtain ⟨c, -, hc⟩ := exists_of_mem_left hcalls ((hrows.mem_iff row).mpr hmem)
  exact ⟨c, hc⟩

private theorem exists_time {row : DepartureRow} (hrow : row ∈ departureRows) :
    ∃ time : α, Clock.parse row.departure = .ok time := by
  obtain ⟨r, -, htells⟩ := h.exists_route (h.departure_keys row hrow)
  have hmem : row ∈ departureRows.filter (·.key == row.key) :=
    List.mem_filter.mpr ⟨hrow, beq_self_eq_true _⟩
  obtain ⟨time, -, htime⟩ := exists_of_mem_left htells.departures hmem
  exact ⟨time, htime⟩

/-- The draft of a key can be added. -/
theorem enters {key : RouteKey} {draft : Draft α} (hkey : key ∈ callRows.map (·.key))
    (collects : draft.Collects stopRows callRows departureRows key) :
    2 ≤ draft.ordered.length ∧ draft.departures ≠ [] := by
  obtain ⟨r, hr, htells⟩ := h.exists_route hkey
  obtain ⟨rows, hrows, hcalls⟩ := htells.calls
  obtain ⟨rows', hrows', hordered⟩ := collects.ordered
  obtain rfl := hrows.eq hrows'
  constructor
  · rw [← hordered.length_eq, hcalls.length_eq]
    exact h.sound.calls r hr
  · have hsame : draft.departures = r.departures :=
      List.right_unique_forall₂' DepartureRow.rightUnique collects.departures htells.departures
    rw [hsame]
    exact h.sound.departs r hr

/-- All drafts are added. -/
theorem exists_foldlM_drafts (indexed : Indexed stopRows index)
    (collected : Collected stopRows callRows departureRows drafts) :
    ∃ state, drafts.toList.foldlM addDraft (index.1, ∅) = .ok state := by
  have hcollects := collected.collects_of_mem
  refine indexed.exists_foldlM_drafts hcollects fun entry hentry ↦ ?_
  have hkey : entry.1 ∈ callRows.map (·.key) := by
    rw [← List.mem_eraseDups, ← collected.keys]
    exact List.mem_map_of_mem hentry
  exact h.enters hkey (hcollects entry hentry)

end Describes

end

section

variable [Scalar α] {stopRows : Csv.Sheet (StopRow α)} {callRows : Csv.Sheet CallRow}
  {departureRows : Csv.Sheet DepartureRow} {t : Timetable α}

/-- Sheets are loaded as a timetable if and only if none of them is broken and their rows tell
it. -/
theorem ofRows_eq_ok_iff : ofRows stopRows callRows departureRows = .ok t ↔
    (stopRows.intact ∧ callRows.intact ∧ departureRows.intact) ∧
      Describes stopRows.rows callRows.rows departureRows.rows t := by
  have hdescribes : ∀ {t}, ofRows stopRows callRows departureRows = .ok t →
      Describes stopRows.rows callRows.rows departureRows.rows t := by
    intro t h
    obtain ⟨-, index, drafts, drafts', lines, hindex, hdrafts, hdrafts', hstate⟩ :=
      ofRows_eq_ok_iff_added.mp h
    have hindexed := Indexed.of_foldlM hindex
    have hdepartures := (hindexed.of_foldlM_calls hdrafts).of_foldlM_departures hdrafts'
    have hentered := Entered.of_foldlM hindexed hstate
    exact hentered.describes hindexed hdepartures
  refine ⟨fun h ↦ ⟨(ofRows_eq_ok_iff_added.mp h).1, hdescribes h⟩, fun ⟨hintact, h⟩ ↦ ?_⟩
  -- No row is refused, so the sheets are loaded as some timetable, and the rows tell no other one.
  obtain ⟨t', ht'⟩ : ∃ t', ofRows stopRows callRows departureRows = .ok t' := by
    obtain ⟨index, hindex, hindexed⟩ := Indexed.exists_foldlM h.stop_keys
    obtain ⟨drafts, hdrafts, hcalls⟩ :=
      hindexed.exists_foldlM_calls fun row hrow ↦ h.exists_call hrow
    obtain ⟨drafts', hdrafts', hdepartures⟩ :=
      hcalls.exists_foldlM_departures h.departure_keys fun row hrow ↦ h.exists_time hrow
    obtain ⟨⟨t', lines⟩, hstate⟩ := h.exists_foldlM_drafts hindexed hdepartures
    exact ⟨t', ofRows_eq_ok_iff_added.mpr
      ⟨hintact, index, drafts, drafts', lines, hindex, hdrafts, hdrafts', hstate⟩⟩
  rwa [h.eq (hdescribes ht')]

/-- Sheets that are loaded are loaded as what their rows tell: the stops are those of the rows;
lines and routes come in the order in which their keys first appear in the rows of calls; each route
is on the line of its key, calls where the rows of the key say in the order of their sequence
numbers, and departs when they say. Sheets that keep these first appearances, and the order of the
rows of each key, are loaded as the same timetable. -/
theorem describes_of_ofRows (h : ofRows stopRows callRows departureRows = .ok t) :
    Describes stopRows.rows callRows.rows departureRows.rows t ∧
      ∀ (callRows' : Csv.Sheet CallRow) (departureRows' : Csv.Sheet DepartureRow),
        callRows'.intact → departureRows'.intact →
        (callRows'.rows.map (·.key)).eraseDups = (callRows.rows.map (·.key)).eraseDups →
        (∀ key, callRows'.rows.filter (·.key == key) = callRows.rows.filter (·.key == key)) →
        (∀ key, departureRows'.rows.filter (·.key == key) =
          departureRows.rows.filter (·.key == key)) →
        ofRows stopRows callRows' departureRows' = .ok t := by
  obtain ⟨⟨hstops, -, -⟩, hdescribes⟩ := ofRows_eq_ok_iff.mp h
  refine ⟨hdescribes, fun callRows' departureRows' hcalls hdepartures keys calls departures ↦ ?_⟩
  exact ofRows_eq_ok_iff.mpr
    ⟨⟨hstops, hcalls, hdepartures⟩, hdescribes.rearrange keys calls departures⟩

end

section

/-- The keys of a line that runs at night and of its route. -/
def nightKey : RouteKey := ⟨"night", "back"⟩

/-- A row of calls of the shuttle at the first stop. -/
def shuttleLeaves : CallRow := ⟨shuttleKey, 0, "west", none, some "00:00:00"⟩

/-- A row of calls of the shuttle at the second stop. -/
def shuttleArrives : CallRow := ⟨shuttleKey, 1, "east", some "00:10:00", none⟩

/-- A row of calls of the line at night at the second stop. -/
def nightLeaves : CallRow := ⟨nightKey, 4, "east", some " ", some "00:00"⟩

/-- A row of calls of the line at night at the first stop. -/
def nightArrives : CallRow := ⟨nightKey, 7, "west", some " 00:15 ", none⟩

/-- The rows of calls of two lines in turn. The line at night arrives before it leaves. -/
def inTurn : Csv.Sheet CallRow :=
  ⟨[shuttleLeaves, nightArrives, shuttleArrives, nightLeaves], true⟩

/-- The same rows, with those of the line at night between those of the shuttle. -/
def nested : Csv.Sheet CallRow :=
  ⟨[shuttleLeaves, nightArrives, nightLeaves, shuttleArrives], true⟩

/-- The rows of departures of two lines in turn. -/
def departuresInTurn : Csv.Sheet DepartureRow :=
  ⟨[⟨shuttleKey, "09:00:00"⟩, ⟨nightKey, "22:00:00"⟩, ⟨shuttleKey, "08:00:00"⟩], true⟩

/-- The same rows, with the one of the line at night in front. -/
def nightDepartureFirst : Csv.Sheet DepartureRow :=
  ⟨[⟨nightKey, "22:00:00"⟩, ⟨shuttleKey, "09:00:00"⟩, ⟨shuttleKey, "08:00:00"⟩], true⟩

variable {α : Type} [Scalar α]

/-- The route of the shuttle. -/
def shuttleByDay : Route α where
  id := ⟨0⟩
  line := ⟨0⟩
  name := "out"
  calls := [⟨⟨0⟩, none, some (Clock.time 0 0 0)⟩, ⟨⟨1⟩, some (Clock.time 0 10 0), none⟩]
  departures := [Clock.time 9 0 0, Clock.time 8 0 0]

/-- The route of the line at night. -/
def backByNight : Route α where
  id := ⟨1⟩
  line := ⟨1⟩
  name := "back"
  calls := [⟨⟨1⟩, none, some (Clock.time 0 0 0)⟩, ⟨⟨0⟩, some (Clock.time 0 15 0), none⟩]
  departures := [Clock.time 22 0 0]

/-- The timetable of the two lines. -/
def dayAndNight : Timetable α where
  stops := #[⟨⟨0⟩, ⟨Scalar.zero, Scalar.zero⟩, ⟨0⟩, "west"⟩,
    ⟨⟨1⟩, ⟨Scalar.ofNat 1000, Scalar.zero⟩, ⟨1⟩, "east"⟩]
  lines := #[⟨⟨0⟩, "shuttle", [⟨0⟩]⟩, ⟨⟨1⟩, "night", [⟨1⟩]⟩]
  routes := #[shuttleByDay, backByNight]

private theorem built_dayAndNight : (dayAndNight : Timetable α).Built := by
  have stops : Built (⟨(dayAndNight (α := α)).stops, #[], #[]⟩ : Timetable α) :=
    .addStop (.addStop .empty ⟨Scalar.zero, Scalar.zero⟩ ⟨0⟩ "west")
      ⟨Scalar.ofNat 1000, Scalar.zero⟩ ⟨1⟩ "east"
  have first : ((⟨(dayAndNight (α := α)).stops, #[], #[]⟩ :
        Timetable α).addLine "shuttle").2.addRoute
      ⟨0⟩ "out" (shuttleByDay (α := α)).calls shuttleByDay.departures =
      .ok (⟨0⟩, ⟨dayAndNight.stops, #[⟨⟨0⟩, "shuttle", [⟨0⟩]⟩], #[shuttleByDay]⟩) := rfl
  have second : ((⟨dayAndNight.stops, #[⟨⟨0⟩, "shuttle", [⟨0⟩]⟩], #[shuttleByDay]⟩ :
        Timetable α).addLine "night").2.addRoute
      ⟨1⟩ "back" (backByNight (α := α)).calls backByNight.departures =
      .ok (⟨1⟩, dayAndNight) := rfl
  exact .addRoute (.addLine (.addRoute (.addLine stops "shuttle") first) "night") second

private theorem describes_inTurn : Describes (shuttleStopRows (α := α)).rows inTurn.rows
    departuresInTurn.rows dayAndNight where
  stop_keys := by simp [shuttleStopRows]
  departure_keys := by decide
  sound := built_dayAndNight.sound
  stops := rfl
  lines := by
    change ["shuttle", "night"] = (inTurn.rows.map (·.key.line)).eraseDups
    decide
  routes := by
    have hkeys : (inTurn.rows.map (·.key)).eraseDups = [shuttleKey, nightKey] := by decide
    have hshuttle : inTurn.rows.filter (·.key == shuttleKey) = [shuttleLeaves, shuttleArrives] := by
      decide
    have hnight : inTurn.rows.filter (·.key == nightKey) = [nightArrives, nightLeaves] := by decide
    have hsorted : InSequence [nightArrives, nightLeaves] [nightLeaves, nightArrives] := by
      refine ⟨by decide, fun n ↦ ?_⟩
      by_cases h : nightLeaves.sequence = n
      · subst h
        rfl
      · simp [List.filter_cons, h]
    rw [hkeys]
    refine .cons ⟨rfl, rfl, ⟨[shuttleLeaves, shuttleArrives], ?_, ?_⟩, ?_⟩
      (.cons ⟨rfl, rfl, ⟨[nightLeaves, nightArrives], ?_, ?_⟩, ?_⟩ .nil)
    · rw [hshuttle]
      exact ⟨by decide, fun _ ↦ rfl⟩
    · exact .cons ⟨rfl, .missing, readOffset_eq_ok_iff.mp rfl⟩
        (.cons ⟨rfl, readOffset_eq_ok_iff.mp rfl, .missing⟩ .nil)
    · exact .cons rfl (.cons rfl .nil)
    · rw [hnight]
      exact hsorted
    · exact .cons ⟨rfl, readOffset_eq_ok_iff.mp rfl, readOffset_eq_ok_iff.mp rfl⟩
        (.cons ⟨rfl, readOffset_eq_ok_iff.mp rfl, .missing⟩ .nil)
    · exact .cons rfl .nil

/-- The rows in turn are loaded, and the same rows in another order are loaded as the same
timetable. -/
theorem ofRows_inTurn_and_nested :
    ofRows shuttleStopRows inTurn departuresInTurn = .ok (dayAndNight : Timetable Float) ∧
      ofRows shuttleStopRows nested nightDepartureFirst = .ok (dayAndNight : Timetable Float) := by
  have hloaded : ofRows shuttleStopRows inTurn departuresInTurn =
      .ok (dayAndNight : Timetable Float) :=
    ofRows_eq_ok_iff.mpr ⟨⟨rfl, rfl, rfl⟩, describes_inTurn⟩
  refine ⟨hloaded, (describes_of_ofRows hloaded).2 _ _ rfl rfl (by decide) (fun key ↦ ?_)
    fun key ↦ ?_⟩
  · by_cases h : nightKey = key
    · subst h
      rfl
    · simp [nested, inTurn, nightArrives, nightLeaves, List.filter_cons, h]
  · by_cases h : nightKey = key
    · subst h
      rfl
    · simp [nightDepartureFirst, departuresInTurn, List.filter_cons, h]

end

end DoorToDoor.Timetable
