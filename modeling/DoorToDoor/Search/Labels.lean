import DoorToDoor.Network.Basic

/-!
# Labels

While a search runs it keeps a label for each node that it has reached. The array of labels is used
again by the next search: a list of the labelled nodes tells which places have to be cleared. The
list misses no label, so clearing its places leaves none: `reset_eq_blank`.
-/

namespace DoorToDoor

/-- The cheapest way known to a node: its cost and time, and the edge on which it arrives unless the
way starts there. -/
structure Label (α : Type) where
  cost : α
  time : α
  via : Option (Edge α)
  deriving DecidableEq, Repr

/-- A label or none for each node, and the nodes that have received one. -/
structure Labels (α : Type) where
  slots : Array (Option (Label α))
  touched : List NodeId
  /-- Every node with a label is listed. -/
  covered : ∀ (id : NodeId) (label : Label α), slots[id.index]? = some (some label) → id ∈ touched

namespace Labels

variable {α : Type}

/-- No labels for a number of nodes. -/
def blank (nodeCount : Nat) : Labels α where
  slots := Array.replicate nodeCount none
  touched := []
  covered := by
    intro id label h
    rw [Array.getElem?_replicate] at h
    split at h <;> cases h

/-- Labels before the first search, for no nodes. -/
def empty : Labels α := blank 0

instance : Inhabited (Labels α) := ⟨empty⟩

/-- Takes back the labels of listed nodes. -/
def clear (slots : Array (Option (Label α))) (ids : List NodeId) : Array (Option (Label α)) :=
  ids.foldl (fun slots id ↦ slots.setIfInBounds id.index none) slots

/-- Clearing keeps the number of places. -/
@[simp] theorem size_clear (slots : Array (Option (Label α))) (ids : List NodeId) :
    (clear slots ids).size = slots.size := by
  induction ids generalizing slots with
  | nil => rfl
  | cons id ids ih => exact (ih _).trans (Array.size_setIfInBounds ..)

private theorem getElem?_clear {slots : Array (Option (Label α))} {ids : List NodeId} {i : Nat}
    {label : Label α} (h : (clear slots ids)[i]? = some (some label)) :
    slots[i]? = some (some label) ∧ (⟨i⟩ : NodeId) ∉ ids := by
  induction ids generalizing slots with
  | nil => exact ⟨h, List.not_mem_nil⟩
  | cons id ids ih =>
    have hrest : (clear (slots.setIfInBounds id.index none) ids)[i]? = some (some label) := h
    obtain ⟨hs, hm⟩ := ih hrest
    rw [Array.getElem?_setIfInBounds] at hs
    by_cases hi : id.index = i
    · rw [if_pos hi] at hs
      split at hs <;> cases hs
    · rw [if_neg hi] at hs
      refine ⟨hs, fun hmem ↦ ?_⟩
      rcases List.mem_cons.mp hmem with heq | hmem
      · exact hi (by rw [← heq])
      · exact hm hmem

private theorem getElem?_clear_touched (l : Labels α) (i : Nat) (label : Label α) :
    (clear l.slots l.touched)[i]? ≠ some (some label) := fun h ↦
  (getElem?_clear h).2 (l.covered ⟨i⟩ label (getElem?_clear h).1)

/-- Takes back all labels, for a number of nodes. The array is kept when it has the right size. -/
def reset (l : Labels α) (nodeCount : Nat) : Labels α :=
  if l.slots.size = nodeCount then
    { slots := clear l.slots l.touched
      touched := []
      covered := fun id label h ↦ absurd h (l.getElem?_clear_touched id.index label) }
  else blank nodeCount

/-- The label of a node. -/
def get? (l : Labels α) (id : NodeId) : Option (Label α) := (l.slots[id.index]?).join

/-- Labels a node. -/
def set (l : Labels α) (id : NodeId) (label : Label α) : Labels α where
  slots := l.slots.setIfInBounds id.index (some label)
  touched := if (l.get? id).isNone then id :: l.touched else l.touched
  covered := by
    intro id' label' h
    by_cases hi : id = id'
    · subst hi
      split
      · exact List.mem_cons_self
      · next hs =>
        cases hg : l.get? id with
        | none => simp [hg] at hs
        | some old => exact l.covered id old (Option.join_eq_some_iff.mp hg)
    · have hne : id.index ≠ id'.index := fun heq ↦ hi (by cases id; cases id'; cases heq; rfl)
      rw [Array.getElem?_setIfInBounds, if_neg hne] at h
      have hm := l.covered id' label' h
      split
      · exact List.mem_cons_of_mem _ hm
      · exact hm

/-- Labels that are taken back are as good as new. -/
theorem reset_eq_blank (l : Labels α) (nodeCount : Nat) : l.reset nodeCount = blank nodeCount := by
  unfold reset
  split
  · next hsize =>
    have hslots : clear l.slots l.touched = Array.replicate nodeCount none := by
      apply Array.ext
      · rw [size_clear, Array.size_replicate, hsize]
      · intro i hi _
        rw [Array.getElem_replicate]
        cases h : (clear l.slots l.touched)[i] with
        | none => rfl
        | some label =>
          refine absurd ?_ (l.getElem?_clear_touched i label)
          rw [Array.getElem?_eq_getElem hi, h]
    simp only [blank, hslots]
  · rfl

/-- No node of blank labels has one. -/
@[simp] theorem get?_blank (nodeCount : Nat) (id : NodeId) :
    (blank nodeCount : Labels α).get? id = none := by
  simp only [get?, blank, Array.getElem?_replicate]
  split <;> rfl

/-- The label of a node after one has been labelled. -/
theorem get?_set (l : Labels α) (id id' : NodeId) (label : Label α) (h : id.index < l.slots.size) :
    (l.set id label).get? id' = if id = id' then some label else l.get? id' := by
  simp only [get?, set, Array.getElem?_setIfInBounds]
  by_cases hi : id = id'
  · subst hi
    simp [h]
  · have hne : id.index ≠ id'.index := fun heq ↦ hi (by cases id; cases id'; cases heq; rfl)
    rw [if_neg hne, if_neg hi]

variable [Scalar α]

/-- Whether a cost is below the label of a node. A node without a label is reached at any cost below
infinity; what is no node is never reached. -/
def improves (l : Labels α) (id : NodeId) (cost : α) : Bool :=
  match l.slots[id.index]? with
  | none => false
  | some none => cost < Scalar.infinity
  | some (some label) => cost < label.cost

end Labels

end DoorToDoor
