import DoorToDoor.Proofs.Monotone
import DoorToDoor.Proofs.Search.HeapOrder
import DoorToDoor.Proofs.Search.Step

/-!
# The queue of a search

Entries are in order by their cost and the number of their node. Whatever edges cost, a node is
queued only at a cost below its label, so its entries have different costs and no two entries of the
queue rank alike: `Queued.eq_of_before`. `Queued` says how the labels fit the queue; all that a
search does to them keeps it.
-/

namespace DoorToDoor.LeastCost

variable {α : Type} [Scalar α]

/-- An entry comes before another if its cost is sorted first, or alike at a node with no larger
number. -/
theorem Entry.before_eq_true_iff (a b : Entry α) : a.before b = true ↔
    Scalar.order a.cost b.cost = .lt ∨
      Scalar.order a.cost b.cost = .eq ∧ a.node.index ≤ b.node.index := by
  unfold before
  cases Scalar.order a.cost b.cost <;> simp

/-- Whether two entries that are at one node have costs that can be told apart. -/
def Entry.Apart (a b : Entry α) : Prop := a.node = b.node → a.cost < b.cost ∨ b.cost < a.cost

/-- Entries are apart from each other. -/
theorem Entry.Apart.symm {a b : Entry α} (h : a.Apart b) : b.Apart a := fun hnode ↦
  (h hnode.symm).symm

instance : Std.Symm (Entry.Apart : Entry α → Entry α → Prop) := ⟨fun _ _ ↦ Entry.Apart.symm⟩

section

variable [MonotoneScalar α]

open MonotoneScalar

/-- What comes before an entry comes before all that the entry comes before. -/
theorem Entry.before_trans (a b c : Entry α) (hab : a.before b) (hbc : b.before c) :
    a.before c := by
  have := trans_order (α := α)
  rw [before_eq_true_iff] at hab hbc ⊢
  rcases hab with hab | ⟨hab, hab'⟩
  · rcases hbc with hbc | ⟨hbc, -⟩
    · exact .inl (Std.TransCmp.lt_trans hab hbc)
    · exact .inl (Std.TransCmp.lt_of_lt_of_eq hab hbc)
  · rcases hbc with hbc | ⟨hbc, hbc'⟩
    · exact .inl (Std.TransCmp.lt_of_eq_of_lt hab hbc)
    · exact .inr ⟨Std.TransCmp.eq_trans hab hbc, hab'.trans hbc'⟩

/-- One of two entries comes before the other. -/
theorem Entry.before_total (a b : Entry α) : a.before b ∨ b.before a := by
  have := trans_order (α := α)
  rw [before_eq_true_iff, before_eq_true_iff]
  cases h : Scalar.order a.cost b.cost with
  | lt => exact .inl (.inl rfl)
  | eq =>
    rcases Nat.le_total a.node.index b.node.index with h' | h'
    · exact .inl (.inr ⟨rfl, h'⟩)
    · exact .inr (.inr ⟨Std.OrientedCmp.eq_symm h, h'⟩)
  | gt => exact .inr (.inl (Std.OrientedCmp.lt_of_gt h))

/-- An entry that comes before another costs no more. -/
theorem Entry.le_of_before {a b : Entry α} (ha : a.cost < Scalar.infinity)
    (hb : b.cost < Scalar.infinity) (h : a.before b) : a.cost ≤ b.cost := by
  refine le_of_order ha hb fun hgt ↦ ?_
  rw [before_eq_true_iff, hgt] at h
  rcases h with h | ⟨h, -⟩ <;> cases h

private theorem Entry.node_eq_of_before {a b : Entry α} (hab : a.before b) (hba : b.before a) :
    a.node = b.node ∧ Scalar.order a.cost b.cost = .eq := by
  have := trans_order (α := α)
  rw [before_eq_true_iff] at hab hba
  rcases hab with hlt | ⟨heq, hle⟩
  · have hgt : Scalar.order b.cost a.cost = .gt := Std.OrientedCmp.gt_of_lt hlt
    rw [hgt] at hba
    rcases hba with h | ⟨h, -⟩ <;> cases h
  · refine ⟨?_, heq⟩
    have hge : Scalar.order b.cost a.cost = .eq := Std.OrientedCmp.eq_symm heq
    rw [hge] at hba
    rcases hba with h | ⟨-, hle'⟩
    · cases h
    · exact Id.eq_of_index_eq (Nat.le_antisymm hle hle')

private theorem Entry.Apart.not_before {a b : Entry α} (h : a.Apart b) (hab : a.before b) :
    ¬b.before a := by
  intro hba
  have := trans_order (α := α)
  obtain ⟨hnode, heq⟩ := Entry.node_eq_of_before hab hba
  rcases h hnode with hlt | hlt
  · rw [order_of_lt hlt] at heq
    cases heq
  · rw [Std.OrientedCmp.gt_of_lt (order_of_lt hlt)] at heq
    cases heq

end

/-- How the labels of a search fit its queue. -/
structure Queued (labels : Labels α) (queue : Heap (Entry α)) : Prop where
  whole : queue.isWhole = true
  ordered : queue.Ordered Entry.before
  label_lt : ∀ v label, labels.get? v = some label → label.cost < Scalar.infinity
  entry_lt : ∀ x ∈ queue.toList, x.cost < Scalar.infinity
  /-- Nodes wait at the cost of their label or above. -/
  labelled : ∀ x ∈ queue.toList, ∃ label, labels.get? x.node = some label ∧
    (x.cost = label.cost ∨ label.cost < x.cost)
  apart : queue.toList.Pairwise Entry.Apart

namespace Queued

variable {labels : Labels α} {queue rest : Heap (Entry α)} {entry : Entry α} {v : NodeId}
  {label : Label α}

/-- Nothing is queued before any node is labelled. -/
theorem blank (places : Nat) : Queued (.blank places) (.empty : Heap (Entry α)) where
  whole := rfl
  ordered := Heap.ordered_empty
  label_lt v label hl := by simp at hl
  entry_lt := nofun
  labelled := nofun
  apart := .nil

variable [MonotoneScalar α]

open MonotoneScalar

/-- The label of a node that waits costs no more than it waits at. -/
theorem reaches (h : Queued labels queue) (hentry : entry ∈ queue.toList) :
    labels.Reaches entry.node entry.cost := by
  obtain ⟨label, hlabel, heq | hlt⟩ := h.labelled entry hentry
  · exact ⟨label, hlabel, heq ▸ le_self (h.entry_lt entry hentry)⟩
  · exact ⟨label, hlabel, le_of_lt hlt⟩

/-- An improvement lies below infinity. -/
theorem lt_of_improves (h : Queued labels queue) (better : labels.improves v label.cost = true) :
    label.cost < Scalar.infinity := by
  obtain ⟨-, hfresh, holder⟩ := (labels.improves_iff v label.cost).mp better
  cases hold : labels.get? v with
  | none => exact hfresh hold
  | some old => exact lt_of_lt_of_le (holder old hold) (le_of_lt (h.label_lt v old hold))

private theorem lt_entry_of_improves (h : Queued labels queue)
    (better : labels.improves v label.cost = true) :
    ∀ x ∈ queue.toList, x.node = v → label.cost < x.cost := by
  rintro x hx rfl
  obtain ⟨old, hold, hle⟩ := h.reaches hx
  exact lt_of_lt_of_le (((labels.improves_iff x.node label.cost).mp better).2.2 old hold) hle

/-- Labelling a node at an improvement and queueing it there keeps labels and queue fitting. -/
theorem improve (h : Queued labels queue) (better : labels.improves v label.cost = true) :
    Queued (labels.set v label) (queue.push Entry.before ⟨label.cost, v⟩) := by
  have hget := fun u ↦ labels.get?_set v u label ((labels.improves_iff v label.cost).mp better).1
  have hlt := h.lt_of_improves better
  have habove := h.lt_entry_of_improves better
  have hperm := Heap.perm_push Entry.before h.whole ⟨label.cost, v⟩
  constructor
  case whole => exact Heap.isWhole_push Entry.before h.whole _
  case ordered => exact Heap.ordered_push Entry.before_trans Entry.before_total h.ordered _
  case label_lt =>
    intro u l hl
    rw [hget] at hl
    split at hl
    · cases hl
      exact hlt
    · exact h.label_lt u l hl
  case entry_lt =>
    intro x hx
    rcases List.mem_cons.mp (hperm.mem_iff.mp hx) with rfl | hx
    · exact hlt
    · exact h.entry_lt x hx
  case labelled =>
    intro x hx
    rcases List.mem_cons.mp (hperm.mem_iff.mp hx) with rfl | hx
    · exact ⟨label, by rw [hget, if_pos rfl], .inl rfl⟩
    · obtain ⟨old, hold, hcost⟩ := h.labelled x hx
      by_cases hvx : v = x.node
      · exact ⟨label, by rw [hget, if_pos hvx], .inr (habove x hx hvx.symm)⟩
      · exact ⟨old, by rw [hget, if_neg hvx, hold], hcost⟩
  case apart =>
    rw [hperm.pairwise_iff Entry.Apart.symm, List.pairwise_cons]
    exact ⟨fun x hx hvx ↦ .inl (habove x hx hvx.symm), h.apart⟩

/-- Reaching a node keeps labels and queue fitting. -/
theorem reach {f : Frontier α} (h : Queued f.labels f.queue) (v : NodeId) (label : Label α) :
    Queued (f.reach v label).labels (f.reach v label).queue := by
  unfold Frontier.reach
  split
  · next better => exact h.improve better
  · exact h

/-- Taking an entry keeps labels and queue fitting. -/
theorem pass (h : Queued labels queue) (hpop : queue.pop? Entry.before = some (entry, rest)) :
    Queued labels rest := by
  have hperm := Heap.perm_pop? Entry.before h.whole hpop
  have hrest : ∀ x ∈ rest.toList, x ∈ queue.toList := fun x hx ↦
    hperm.mem_iff.mp (List.mem_cons_of_mem entry hx)
  exact
    { whole := Heap.isWhole_pop? Entry.before hpop
      ordered := Heap.ordered_pop? Entry.before_trans Entry.before_total h.ordered hpop
      label_lt := h.label_lt
      entry_lt := fun x hx ↦ h.entry_lt x (hrest x hx)
      labelled := fun x hx ↦ h.labelled x (hrest x hx)
      apart := (List.pairwise_cons.mp ((hperm.pairwise_iff Entry.Apart.symm).mpr h.apart)).2 }

/-- Entries that come before each other are one entry of the queue. -/
theorem eq_of_before (h : Queued labels queue) :
    ∀ a ∈ queue.toList, ∀ b ∈ queue.toList, a.before b → b.before a → a = b := by
  intro a ha b hb hab hba
  refine Classical.byContradiction fun hne ↦ ?_
  exact (h.apart.forall ha hb hne).not_before hab hba

end Queued

end DoorToDoor.LeastCost
