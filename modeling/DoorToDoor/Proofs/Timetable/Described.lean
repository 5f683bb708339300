import DoorToDoor.Proofs.FirstAppearances
import DoorToDoor.Proofs.Timetable.Additions
import DoorToDoor.Proofs.Timetable.RowSteps
import Mathlib.Data.List.Forall2

/-!
# Timetables as rows describe them

What rows of stops, calls and departures tell about a timetable (`Describes`), stated without
reading them one after the other: the stops are those of the rows in their order; lines and routes
come in the order in which their keys first appear; a route calls where the rows of its key say, in
the order of their sequence numbers, and departs when its rows say. Rows tell one timetable at most
(`Describes.eq`), and rows that keep the first appearances of keys and the order of the rows of each
key tell the same one (`Describes.rearrange`).
-/

namespace DoorToDoor.Timetable

variable {α : Type}

/-- Whether rows are others in the order of their sequence numbers, those with one number in the
order in which they were. -/
structure InSequence (rows sorted : List CallRow) : Prop where
  ascending : sorted.Pairwise (·.sequence ≤ ·.sequence)
  stable : ∀ n, sorted.filter (·.sequence == n) = rows.filter (·.sequence == n)

namespace InSequence

variable {rows sorted sorted' : List CallRow}

/-- Rows in sequence are the rows. -/
theorem mem_iff (h : InSequence rows sorted) (row : CallRow) : row ∈ sorted ↔ row ∈ rows := by
  have hmem := congrArg (row ∈ ·) (h.stable row.sequence)
  simpa using hmem

/-- Rows can be put into sequence. -/
theorem mergeSort (rows : List CallRow) :
    InSequence rows (rows.mergeSort fun a b ↦ a.sequence ≤ b.sequence) := by
  have trans : ∀ a b c : CallRow, decide (a.sequence ≤ b.sequence) →
      decide (b.sequence ≤ c.sequence) → decide (a.sequence ≤ c.sequence) := by
    simp only [decide_eq_true_eq]
    exact fun a b c ↦ Nat.le_trans
  have total : ∀ a b : CallRow,
      (decide (a.sequence ≤ b.sequence) || decide (b.sequence ≤ a.sequence)) = true := by
    simp only [Bool.or_eq_true, decide_eq_true_eq]
    exact fun a b ↦ Nat.le_total _ _
  constructor
  case ascending =>
    have hsorted := List.pairwise_mergeSort trans total rows
    exact hsorted.imp fun h ↦ of_decide_eq_true h
  case stable =>
    intro n
    -- Rows with one number are in sequence as they are, so sorting leaves their order.
    have hequal : (rows.filter (·.sequence == n)).Pairwise
        fun a b ↦ decide (a.sequence ≤ b.sequence) = true := by
      refine List.pairwise_of_forall_mem_list fun a ha b hb ↦ decide_eq_true ?_
      rw [eq_of_beq (List.mem_filter.mp ha).2, eq_of_beq (List.mem_filter.mp hb).2]
    have hsub := List.sublist_mergeSort trans total hequal List.filter_sublist
    have hfilter := hsub.filter (·.sequence == n)
    rw [List.filter_filter] at hfilter
    simp only [Bool.and_self] at hfilter
    refine (hfilter.eq_of_length ?_).symm
    exact ((List.mergeSort_perm rows _).filter _).length_eq.symm

/-- There is one way to put rows into sequence. -/
theorem eq (h : InSequence rows sorted) (h' : InSequence rows sorted') : sorted = sorted' := by
  induction sorted generalizing rows sorted' with
  | nil =>
    cases sorted' with
    | nil => rfl
    | cons b bs => exact absurd ((h.mem_iff b).mpr ((h'.mem_iff b).mp List.mem_cons_self)) (by simp)
  | cons a as ih =>
    cases sorted' with
    | nil => exact absurd ((h'.mem_iff a).mpr ((h.mem_iff a).mp List.mem_cons_self)) (by simp)
    | cons b bs =>
      have hfilter : ∀ n, (a :: as).filter (·.sequence == n) = (b :: bs).filter (·.sequence == n) :=
        fun n ↦ (h.stable n).trans (h'.stable n).symm
      have hab : b.sequence ≤ a.sequence := by
        rcases List.mem_cons.mp ((h'.mem_iff a).mpr ((h.mem_iff a).mp List.mem_cons_self)) with
          rfl | hmem
        · exact Nat.le_refl _
        · exact List.rel_of_pairwise_cons h'.ascending hmem
      have hba : a.sequence ≤ b.sequence := by
        rcases List.mem_cons.mp ((h.mem_iff b).mpr ((h'.mem_iff b).mp List.mem_cons_self)) with
          rfl | hmem
        · exact Nat.le_refl _
        · exact List.rel_of_pairwise_cons h.ascending hmem
      have hnumber : a.sequence = b.sequence := Nat.le_antisymm hba hab
      obtain rfl : a = b := by
        have hfirst := hfilter a.sequence
        rw [List.filter_cons_of_pos (by simp),
          List.filter_cons_of_pos (by simp [hnumber])] at hfirst
        exact (List.cons.inj hfirst).1
      have hrest : ∀ n, as.filter (·.sequence == n) = bs.filter (·.sequence == n) := by
        intro n
        have hall := hfilter n
        simp only [List.filter_cons] at hall
        split at hall
        · exact (List.cons.inj hall).2
        · exact hall
      have has : InSequence as as := ⟨(List.pairwise_cons.mp h.ascending).2, fun _ ↦ rfl⟩
      have hbs : InSequence as bs :=
        ⟨(List.pairwise_cons.mp h'.ascending).2, fun n ↦ (hrest n).symm⟩
      rw [ih has hbs]

end InSequence

variable [Scalar α]

/-- What a row tells about a call of its route, for the rows of stops: the stop is the one whose row
has the key, and the cells give the times. -/
structure CallRow.Tells (stopRows : List (StopRow α)) (row : CallRow) (c : Call α) : Prop where
  stop : (stopRows.map (·.key))[c.stop.index]? = some row.stop
  arrival : Offset row.arrival c.arrival
  departure : Offset row.departure c.departure

/-- What rows tell about the route of a key: it calls where the rows of the key say, in sequence,
and departs when they say. -/
structure RouteKey.Tells (stopRows : List (StopRow α)) (callRows : List CallRow)
    (departureRows : List DepartureRow) (key : RouteKey) (r : Route α) : Prop where
  name : r.name = key.route
  calls : ∃ rows, InSequence (callRows.filter (·.key == key)) rows ∧
    List.Forall₂ (CallRow.Tells stopRows) rows r.calls
  departures : List.Forall₂ (fun row time ↦ Clock.parse row.departure = .ok time)
    (departureRows.filter (·.key == key)) r.departures

/-- What rows tell about a timetable. No two rows of stops have one key, and rows of departures
belong to routes that have calls. The timetable is sound; its stops are those of the rows, in order;
its lines are those of the calls, and its routes are what the rows tell about the keys of the calls,
both in the order in which they first appear; and each route is on the line of its key. -/
structure Describes (stopRows : List (StopRow α)) (callRows : List CallRow)
    (departureRows : List DepartureRow) (t : Timetable α) : Prop where
  stop_keys : (stopRows.map (·.key)).Nodup
  departure_keys : ∀ row ∈ departureRows, row.key ∈ callRows.map (·.key)
  sound : t.Sound
  stops : t.stops.toList = stopRows.mapIdx fun i row ↦ ⟨⟨i⟩, row.coord, row.link, row.name⟩
  lines : t.lines.toList.map (·.name) = (callRows.map (·.key.line)).eraseDups
  routes : List.Forall₂ (fun key r ↦ (t.line? r.line).map (·.name) = some key.line ∧
      key.Tells stopRows callRows departureRows r)
    (callRows.map (·.key)).eraseDups t.routes.toList

section

open Relator

variable {stopRows : List (StopRow α)} {callRows callRows' : List CallRow}
  {departureRows departureRows' : List DepartureRow} {t t' : Timetable α}

/-- A cell gives one time at most. -/
theorem Offset.rightUnique : RightUnique (Offset (α := α)) := by
  intro cell time time' h h'
  exact Except.ok.inj ((readOffset_eq_ok_iff.mpr h).symm.trans (readOffset_eq_ok_iff.mpr h'))

omit [Scalar α] in
private theorem eq_of_getElem?_index_eq {k : Kind} {names : List String} (nodup : names.Nodup)
    {id id' : Id k} {name : String} (h : names[id.index]? = some name)
    (h' : names[id'.index]? = some name) : id = id' :=
  Id.eq_of_index_eq ((List.getElem?_inj (List.getElem?_eq_some_iff.mp h).1 nodup).mp
    (h.trans h'.symm))

/-- A row of departures gives one time at most. -/
theorem DepartureRow.rightUnique : RightUnique fun (row : DepartureRow) (time : α) ↦
    Clock.parse row.departure = .ok time :=
  fun _ _ _ hread hread' ↦ Except.ok.inj (hread.symm.trans hread')

/-- A row tells one call at most. -/
theorem CallRow.Tells.rightUnique (nodup : (stopRows.map (·.key)).Nodup) :
    RightUnique (CallRow.Tells stopRows) := by
  intro row c c' h h'
  have hstop : c.stop = c'.stop := eq_of_getElem?_index_eq nodup h.stop h'.stop
  cases c
  cases c'
  simp only [Call.mk.injEq]
  exact ⟨hstop, Offset.rightUnique h.arrival h'.arrival,
    Offset.rightUnique h.departure h'.departure⟩

/-- Rows tell all of a route but its number and its line. -/
theorem RouteKey.Tells.eq (nodup : (stopRows.map (·.key)).Nodup) {key : RouteKey} {r r' : Route α}
    (h : key.Tells stopRows callRows departureRows r)
    (h' : key.Tells stopRows callRows departureRows r') (id : r.id = r'.id)
    (line : r.line = r'.line) : r = r' := by
  obtain ⟨rows, hrows, hcalls⟩ := h.calls
  obtain ⟨rows', hrows', hcalls'⟩ := h'.calls
  obtain rfl := hrows.eq hrows'
  have hsame : r.calls = r'.calls :=
    List.right_unique_forall₂' (CallRow.Tells.rightUnique nodup) hcalls hcalls'
  have hdepartures : r.departures = r'.departures :=
    List.right_unique_forall₂' DepartureRow.rightUnique h.departures h'.departures
  cases r
  cases r'
  simp only [Route.mk.injEq]
  exact ⟨id, line, h.name.trans h'.name.symm, hsame, hdepartures⟩

omit [Scalar α] in
/-- The name of a line stands among the names of all lines. -/
theorem map_name_line? (t : Timetable α) (line : LineId) :
    (t.line? line).map (·.name) = (t.lines.toList.map (·.name))[line.index]? := by
  rw [List.getElem?_map, Array.getElem?_toList]
  rfl

namespace Describes

variable (h : Describes stopRows callRows departureRows t)

include h

private theorem line_eq {line line' : LineId} {name : String}
    (found : (t.line? line).map (·.name) = some name)
    (found' : (t.line? line').map (·.name) = some name) : line = line' := by
  rw [map_name_line?] at found found'
  exact eq_of_getElem?_index_eq (h.lines ▸ nodup_eraseDups _) found found'

/-- Rows tell one timetable at most. -/
theorem eq (h' : Describes stopRows callRows departureRows t') : t = t' := by
  have hstops : t.stops = t'.stops := Array.toList_inj.mp (h.stops.trans h'.stops.symm)
  have hnames : ∀ i : Nat, t.lines[i]?.map (·.name) = t'.lines[i]?.map (·.name) := by
    intro i
    have heq := congrArg (·[i]?) (h.lines.trans h'.lines.symm)
    simpa only [List.getElem?_map, Array.getElem?_toList] using heq
  have hroutes : t.routes = t'.routes := by
    refine Array.toList_inj.mp (List.ext_getElem ?_ fun i hi hi' ↦ ?_)
    · exact h.routes.length_eq.symm.trans h'.routes.length_eq
    · have hkey : i < (callRows.map (·.key)).eraseDups.length := h.routes.length_eq ▸ hi
      obtain ⟨hline, htells⟩ := h.routes.get hkey hi
      obtain ⟨hline', htells'⟩ := h'.routes.get hkey hi'
      rw [Array.length_toList] at hi hi'
      have hid := h.sound.numbered i _ (Array.getElem?_eq_getElem hi)
      have hid' := h'.sound.numbered i _ (Array.getElem?_eq_getElem hi')
      refine htells.eq h.stop_keys htells' (Id.eq_of_index_eq (hid.trans hid'.symm)) ?_
      exact h.line_eq hline ((hnames _).trans hline')
  have hlines : t.lines = t'.lines := by
    refine Array.ext_getElem? fun i ↦ ?_
    have hname := hnames i
    cases hl : t.lines[i]? with
    | none =>
      rw [hl] at hname
      exact (Option.map_eq_none_iff.mp hname.symm).symm
    | some l =>
      rw [hl] at hname
      obtain ⟨l', hl', hname⟩ := Option.map_eq_some_iff.mp hname.symm
      have hid : l.id = l'.id :=
        Id.eq_of_index_eq ((h.sound.line_numbered i l hl).trans
          (h'.sound.line_numbered i l' hl').symm)
      have hlisted : l.routes = l'.routes := by
        rw [h.sound.listed l (Array.mem_of_getElem? hl), hroutes, hid,
          ← h'.sound.listed l' (Array.mem_of_getElem? hl')]
      rw [hl']
      cases l
      cases l'
      simp_all
  cases t
  cases t'
  simp only [Timetable.mk.injEq]
  exact ⟨hstops, hlines, hroutes⟩

/-- Rows that keep the first appearances of keys, and the order of the rows of each key, tell the
same timetable. -/
theorem rearrange
    (keys : (callRows'.map (·.key)).eraseDups = (callRows.map (·.key)).eraseDups)
    (calls : ∀ key, callRows'.filter (·.key == key) = callRows.filter (·.key == key))
    (departures : ∀ key,
      departureRows'.filter (·.key == key) = departureRows.filter (·.key == key)) :
    Describes stopRows callRows' departureRows' t where
  stop_keys := h.stop_keys
  departure_keys row hrow := by
    have hmem : row ∈ departureRows'.filter (·.key == row.key) :=
      List.mem_filter.mpr ⟨hrow, beq_self_eq_true _⟩
    rw [departures] at hmem
    rw [← List.mem_eraseDups, keys, List.mem_eraseDups]
    exact h.departure_keys row (List.mem_filter.mp hmem).1
  sound := h.sound
  stops := h.stops
  lines := by
    have hlines : ∀ rows : List CallRow, (rows.map (·.key.line)).eraseDups =
        ((rows.map (·.key)).eraseDups.map (·.line)).eraseDups := by
      intro rows
      rw [eraseDups_map_eraseDups, List.map_map]
      rfl
    rw [h.lines, hlines, hlines, keys]
  routes := by
    rw [keys]
    refine h.routes.imp fun key r ⟨hline, htells⟩ ↦ ⟨hline, htells.name, ?_, ?_⟩
    · rw [calls]
      exact htells.calls
    · rw [departures]
      exact htells.departures

end Describes

end

end DoorToDoor.Timetable
