import DoorToDoor.Proofs.Costs

/-!
# Where transfers lead

A change from one node to another is possible when a vehicle brings travellers to the first, another
takes them from the second, and the two lie within reach (`CanChange`). The network has a transfer
for a change between two lines or between two stops, whatever the routes (`hasTransfer_iff`). So
transfers join the nodes of different routes as long as these belong to different lines or lie at
different stops. Two stops of one route are joined as well, and two routes of one line are not
joined where they share a stop (`transfers_branched`).
-/

namespace DoorToDoor

namespace Network

section

variable {α : Type} [Scalar α] {t : Timetable α} {reach : α} {a b : Node α}

/-- Whether a transfer leads from one node to another. -/
def HasTransfer (n : Network α) (a b : Node α) : Prop :=
  ∃ e ∈ n.edges, e.kind = .transfer ∧ e.tail = a ∧ e.head = b

/-- Whether a node is the first call of its route. -/
def IsFirst (node : Node α) : Prop := node.position = 0

/-- Whether a node is the last call of its route. -/
def IsLast (t : Timetable α) (node : Node α) : Prop :=
  ∃ route, t.route? node.route = some route ∧ node.position + 1 = route.calls.length

/-- Whether one can change from one node to another: a vehicle comes to the first and another leaves
the second, and they are at most so far apart. -/
structure CanChange (t : Timetable α) (reach : α) (a b : Node α) : Prop where
  arrives : ¬IsFirst a
  departs : ¬IsLast t b
  near : a.coord.distance b.coord ≤ reach

/-- A node of the network is the last call of its route unless a vehicle departs from it. -/
theorem canDepart_iff (wf : t.WellFormed) (h : b ∈ (ofTimetable t reach).nodes) :
    canDepart t b = true ↔ ¬IsLast t b := by
  obtain ⟨route, hroute, -, -, hcall, -⟩ := exists_route?_of_mem_nodes wf h
  have hlt := (List.getElem?_eq_some_iff.mp hcall).1
  have hlast : IsLast t b ↔ b.position + 1 = route.calls.length := by
    constructor
    · rintro ⟨route', hroute', hlength⟩
      rwa [Option.some.inj (hroute.symm.trans hroute')]
    · exact fun hlength ↦ ⟨route, hroute, hlength⟩
  rw [hlast, canDepart, routeLength, hroute, decide_eq_true_iff]
  change b.position + 1 < route.calls.length ↔ _
  omega

private theorem exists_fan_of_mem {nodes run : List (Node α)} (h : a ∈ run) :
    ∃ es ∈ fans t reach nodes run, transfers t reach nodes a ⊆ es := by
  induction run with
  | nil => cases h
  | cons first rest ih =>
    rw [fans]
    rcases List.mem_cons.mp h with rfl | h
    · exact ⟨_, List.mem_cons_self, List.subset_append_right _ _⟩
    · obtain ⟨es, hes, hsub⟩ := ih h
      exact ⟨es, List.mem_cons_of_mem _ hes, hsub⟩

/-- Transfers lead between joined nodes. -/
theorem joins_of_mem_edges {e : Edge α} (he : e ∈ (ofTimetable t reach).edges)
    (kind : e.kind = .transfer) : joins t reach e.tail e.head = true := by
  rcases ride_or_transfer_of_mem_edges he with ⟨r, -, -, -, -, -, -, -, -, -, hride⟩ | ⟨hjoins, -⟩
  · rw [kind] at hride
    cases hride
  · exact hjoins

/-- The network has a transfer between two of its nodes exactly when they are joined. -/
theorem hasTransfer_iff_joins (ha : a ∈ (ofTimetable t reach).nodes)
    (hb : b ∈ (ofTimetable t reach).nodes) :
    (ofTimetable t reach).HasTransfer a b ↔ joins t reach a b = true := by
  constructor
  · rintro ⟨e, he, kind, rfl, rfl⟩
    exact joins_of_mem_edges he kind
  · intro hjoins
    have htransfer :
        connect .transfer a b ∈ transfers t reach (ofTimetable t reach).nodes.toList a :=
      List.mem_map_of_mem (List.mem_filter.mpr ⟨Array.mem_toList_iff.mpr hb, hjoins⟩)
    rw [← Array.mem_toList_iff, toList_nodes, List.mem_flatten] at ha
    obtain ⟨run, hrun, hmem⟩ := ha
    obtain ⟨es, hes, hsub⟩ :
        ∃ es ∈ fans t reach (ofTimetable t reach).nodes.toList run,
          transfers t reach (ofTimetable t reach).nodes.toList a ⊆ es := exists_fan_of_mem hmem
    have hout : connect .transfer a b ∈ (outLists t reach).flatten :=
      List.mem_flatten_of_mem (List.mem_flatMap.mpr ⟨run, hrun, hes⟩) (hsub htransfer)
    obtain ⟨i, hi⟩ := List.mem_iff_getElem?.mp hout
    refine ⟨{ connect .transfer a b with id := ⟨i⟩ }, ?_, rfl, rfl, rfl⟩
    rw [← Array.mem_toList_iff, toList_edges]
    exact List.mem_of_getElem? (i := i) (by rw [List.getElem?_mapIdx, hi]; rfl)

private theorem line_eq_of_route_eq (wf : t.WellFormed) (ha : a ∈ (ofTimetable t reach).nodes)
    (hb : b ∈ (ofTimetable t reach).nodes) (h : a.route = b.route) : a.line = b.line := by
  obtain ⟨route, hroute, -, hline, -⟩ := exists_route?_of_mem_nodes wf ha
  obtain ⟨route', hroute', -, hline', -⟩ := exists_route?_of_mem_nodes wf hb
  rw [h, hroute'] at hroute
  rw [← hline, ← hline', Option.some.inj hroute]

end

section

variable {t : Timetable EReal} {reach : EReal} {a b : Node EReal}

/-- Nodes lie within reach of each other when their distance is at most the reach. -/
theorem withinReach_iff (nonneg : 0 ≤ reach) (ha : a.coord.IsFinite) (hb : b.coord.IsFinite) :
    withinReach reach a b = true ↔ a.coord.distance b.coord ≤ reach := by
  obtain ⟨x, y, hxy⟩ := ha.exists_coe
  obtain ⟨u, v, huv⟩ := hb.exists_coe
  rw [withinReach, decide_eq_true_iff, hxy, huv, Point.squareTo_coe, Point.distance_coe]
  induction reach with
  | bot => exact absurd nonneg (not_le_of_gt EReal.bot_lt_zero)
  | top => simp
  | coe r =>
    have hr : 0 ≤ r := EReal.coe_nonneg.mp nonneg
    have hsquare :
        (u - x) * (u - x) + (v - y) * (v - y) = (x - u) * (x - u) + (y - v) * (y - v) := by
      ring
    rw [← EReal.coe_mul, EReal.coe_le_coe_iff, EReal.coe_le_coe_iff, hsquare, Real.sqrt_le_left hr,
      pow_two]

/-- Two nodes are joined when one can change between them and they differ in line or stop. -/
theorem joins_iff (wf : t.WellFormed) (places : ∀ stop ∈ t.stops, stop.coord.IsFinite)
    (nonneg : 0 ≤ reach) (ha : a ∈ (ofTimetable t reach).nodes)
    (hb : b ∈ (ofTimetable t reach).nodes) :
    joins t reach a b = true ↔ CanChange t reach a b ∧ (a.line ≠ b.line ∨ a.stop ≠ b.stop) := by
  have place {node : Node EReal} (h : node ∈ (ofTimetable t reach).nodes) :
      node.coord.IsFinite := Timetable.isFinite_coord_of_mem_nodes wf places h
  have hdiffers : (!(a.line == b.line && a.stop == b.stop)) = true ↔
      a.line ≠ b.line ∨ a.stop ≠ b.stop := by
    simp only [Bool.not_eq_true', Bool.and_eq_false_iff, beq_eq_false_iff_ne]
  rw [joins, Bool.and_eq_true, Bool.and_eq_true, Bool.and_eq_true, Bool.and_eq_true, hdiffers,
    canDepart_iff wf hb, withinReach_iff nonneg (place ha) (place hb), canArrive, bne_iff_ne,
    bne_iff_ne]
  constructor
  · rintro ⟨⟨⟨⟨arrives, -⟩, departs⟩, differs⟩, near⟩
    exact ⟨⟨arrives, departs, near⟩, differs⟩
  · rintro ⟨⟨arrives, departs, near⟩, differs⟩
    -- A node differs from itself neither in line nor in stop.
    have hother : a.id ≠ b.id := fun hid ↦ by
      rw [eq_of_mem_nodes ha hb hid] at differs
      exact differs.elim (absurd rfl) (absurd rfl)
    exact ⟨⟨⟨⟨arrives, hother⟩, departs⟩, differs⟩, near⟩

/-- The network of a timetable has a transfer from one node to another if and only if one can change
between them and they differ in line or in stop. Between nodes of different lines, and between nodes
at different stops on different routes, this is whenever the routes differ and one can change. -/
theorem hasTransfer_iff (t : Timetable EReal) (built : t.Built)
    (places : ∀ stop ∈ t.stops, stop.coord.IsFinite) (reach : EReal) (nonneg : 0 ≤ reach)
    (a b : Node EReal) (ha : a ∈ (ofTimetable t reach).nodes)
    (hb : b ∈ (ofTimetable t reach).nodes) :
    let n := ofTimetable t reach
    (n.HasTransfer a b ↔ CanChange t reach a b ∧ (a.line ≠ b.line ∨ a.stop ≠ b.stop)) ∧
      (a.line ≠ b.line ∨ a.route ≠ b.route ∧ a.stop ≠ b.stop →
        (n.HasTransfer a b ↔ a.route ≠ b.route ∧ CanChange t reach a b)) := by
  intro n
  have hjoins : n.HasTransfer a b ↔
      CanChange t reach a b ∧ (a.line ≠ b.line ∨ a.stop ≠ b.stop) :=
    (hasTransfer_iff_joins ha hb).trans (joins_iff built.wellFormed places nonneg ha hb)
  refine ⟨hjoins, fun apart ↦ ?_⟩
  have hdiffers : a.line ≠ b.line ∨ a.stop ≠ b.stop := apart.imp_right And.right
  have hroutes : a.route ≠ b.route := by
    rcases apart with hline | ⟨hroute, -⟩
    · exact mt (line_eq_of_route_eq built.wellFormed ha hb) hline
    · exact hroute
  rw [hjoins, and_iff_left hdiffers, and_iff_right hroutes]

end

end Network

namespace Timetable

variable {α : Type} [Scalar α]

/-- The route of a branch of the tram: it leaves the second stop and goes back to the first one. -/
def branchRoute : Route α where
  id := ⟨1⟩
  line := ⟨0⟩
  name := "back"
  calls := [⟨⟨1⟩, none, some Scalar.zero⟩, ⟨⟨0⟩, some (Scalar.ofNat 100), none⟩]
  departures := [Clock.time 0 30 0]

/-- The tram with a branch as a second route of its line. -/
def branchedTram : Timetable α where
  stops := (tram 0).stops
  lines := #[⟨⟨0⟩, "tram", [⟨0⟩, ⟨1⟩]⟩]
  routes := #[tramRoute 0, branchRoute]

/-- The branch can be added to the tram. -/
theorem built_branchedTram : (branchedTram : Timetable α).Built := by
  have added : (tram 0 : Timetable α).addRoute ⟨0⟩ "back" branchRoute.calls
      branchRoute.departures = .ok (⟨1⟩, branchedTram) := rfl
  exact .addRoute (built_tram 0) added

end Timetable

namespace Network

open Timetable (branchRoute branchedTram built_branchedTram)

/-- Where the branch leaves. -/
def branchNode {α : Type} [Scalar α] : Node α :=
  nodeOf branchedTram branchRoute 3 0 ⟨⟨1⟩, none, some Scalar.zero⟩

private theorem mem_nodes_branchedTram {α : Type} [Scalar α] (reach : α) :
    branchNode ∈ (ofTimetable branchedTram reach).nodes ∧
      ∀ position < 3, tramNode 0 position ∈ (ofTimetable branchedTram reach).nodes := by
  have hnodes : (ofTimetable branchedTram reach).nodes.toList =
      [tramNode 0 0, tramNode 0 1, tramNode 0 2, branchNode,
        nodeOf branchedTram branchRoute 3 1 ⟨⟨0⟩, some (Scalar.ofNat 100), none⟩] := rfl
  simp only [← Array.mem_toList_iff, hnodes]
  refine ⟨by simp, fun position h ↦ ?_⟩
  match position with
  | 0 => simp
  | 1 => simp
  | 2 => simp
  | _ + 3 => omega

private theorem places_branchedTram :
    ∀ stop ∈ (branchedTram : Timetable EReal).stops, stop.coord.IsFinite :=
  (Timetable.isFinite_tram 0).coord

private theorem isFinite_coord_branchedTram {node : Node EReal}
    (h : node ∈ (ofTimetable branchedTram (1000 : EReal)).nodes) : node.coord.IsFinite :=
  Timetable.isFinite_coord_of_mem_nodes built_branchedTram.wellFormed places_branchedTram h

private theorem withinReach_tramNode {position : ℕ} (h : position + 1 < 3) :
    withinReach (1000 : EReal) (tramNode 0 (position + 1)) (tramNode 0 position) = true := by
  have hreach : (1000 : EReal) * 1000 = ((1000 * 1000 : ℝ) : EReal) := by norm_cast
  rw [withinReach, decide_eq_true_iff, Cost.coord_tramNode 0 h,
    Cost.coord_tramNode 0 (Nat.lt_of_succ_lt h), Point.squareTo_coe, hreach, EReal.coe_le_coe_iff]
  push_cast
  linarith

/-- A traveller on the tram with a branch can change from the third call of the tram to the branch
at the stop a kilometre before it, which is another stop on another route, and a transfer leads
there. -/
theorem hasTransfer_iff_branched :
    (branchedTram : Timetable EReal).Built ∧
      (tramNode 0 2 : Node EReal).route ≠ (branchNode : Node EReal).route ∧
      (ofTimetable branchedTram (1000 : EReal)).HasTransfer (tramNode 0 2) branchNode := by
  have nonneg : (0 : EReal) ≤ 1000 := by norm_num
  obtain ⟨hbranch, htram⟩ := mem_nodes_branchedTram (1000 : EReal)
  have hthird := htram 2 (by omega)
  have hroutes : (tramNode 0 2 : Node EReal).route ≠ (branchNode : Node EReal).route := by decide
  have hplace : (branchNode : Node EReal).coord = (tramNode 0 1 : Node EReal).coord := rfl
  have hwithin : withinReach (1000 : EReal) (tramNode 0 2) branchNode = true := by
    rw [withinReach, hplace]
    exact withinReach_tramNode (show 1 + 1 < 3 by omega)
  have near : (tramNode 0 2).coord.distance branchNode.coord ≤ (1000 : EReal) :=
    (withinReach_iff nonneg (isFinite_coord_branchedTram hthird)
      (isFinite_coord_branchedTram hbranch)).mp hwithin
  have change : CanChange branchedTram 1000 (tramNode 0 2 : Node EReal) branchNode :=
    ⟨Nat.succ_ne_zero 1, (canDepart_iff built_branchedTram.wellFormed hbranch).mp rfl, near⟩
  refine ⟨built_branchedTram, hroutes, ?_⟩
  exact ((hasTransfer_iff branchedTram built_branchedTram places_branchedTram 1000 nonneg
    (tramNode 0 2) branchNode hthird hbranch).2 (.inr ⟨hroutes, by decide⟩)).mpr ⟨hroutes, change⟩

/-- On the tram with a branch, with transfers over a kilometre, a transfer leads back from the
second call of the tram to the first one of the same route. None leads from the second call of the
tram to the branch, another route that leaves the very same stop. -/
theorem transfers_branched :
    let n := ofTimetable branchedTram (1000 : EReal)
    let first : Node EReal := tramNode 0 0
    let second : Node EReal := tramNode 0 1
    let branch : Node EReal := branchNode
    (second.route = first.route ∧ n.HasTransfer second first) ∧
      second.route ≠ branch.route ∧ second.stop = branch.stop ∧
      CanChange branchedTram 1000 second branch ∧ ¬n.HasTransfer second branch := by
  intro n first second branch
  obtain ⟨hbranch, htram⟩ := mem_nodes_branchedTram (1000 : EReal)
  have hfirst := htram 0 (by omega)
  have hsecond := htram 1 (by omega)
  have hnear : withinReach 1000 second first = true :=
    withinReach_tramNode (show 0 + 1 < 3 by omega)
  have hself : second.coord.distance branch.coord = 0 :=
    (isFinite_coord_branchedTram hsecond).distance_self
  refine ⟨⟨rfl, ?_⟩, by decide, rfl, ⟨Nat.one_ne_zero, ?_, ?_⟩, ?_⟩
  · rw [hasTransfer_iff_joins hsecond hfirst, joins, hnear]
    rfl
  · exact (canDepart_iff built_branchedTram.wellFormed hbranch).mp rfl
  · rw [hself]
    norm_num
  · rw [hasTransfer_iff_joins hsecond hbranch]
    exact Bool.false_ne_true

end Network

end DoorToDoor
