/-!
# Pairing heaps

A priority queue that gives its entries back by rising rank. A heap is a tree whose children and
siblings are chained, so that each operation is one pass over the children of the root. The
operations neither lose nor invent entries: `perm_push` and `perm_pop?` say so on the list of
entries, for heaps without siblings of the root, as all operations give them.
-/

namespace DoorToDoor

/-- A pairing heap. The root of a whole heap has no siblings. -/
inductive Heap (β : Type)
  | empty
  | node (top : β) (children siblings : Heap β)
  deriving Repr

namespace Heap

variable {β : Type}

/-- The entries in no particular order. -/
def toList : Heap β → List β
  | empty => []
  | node top children siblings => top :: (children.toList ++ siblings.toList)

/-- Whether the root stands alone. -/
def isWhole : Heap β → Bool
  | node _ _ (node ..) => false
  | _ => true

/-- Puts the heap with the later root below the other one. -/
def link (before : β → β → Bool) : Heap β → Heap β → Heap β
  | empty, h => h
  | h, empty => h
  | node a as _, node b bs _ =>
    if before a b then node a (node b bs as) empty else node b (node a as bs) empty

/-- Joins a chain of siblings, two at a time. -/
def join (before : β → β → Bool) : Heap β → Heap β
  | empty => empty
  | node a as empty => node a as empty
  | node a as (node b bs rest) =>
    link before (link before (node a as empty) (node b bs empty)) (join before rest)

/-- Adds an entry. -/
def push (before : β → β → Bool) (h : Heap β) (entry : β) : Heap β :=
  link before (node entry empty empty) h

/-- The first entry and the heap without it. -/
def pop? (before : β → β → Bool) : Heap β → Option (β × Heap β)
  | empty => none
  | node top children _ => some (top, join before children)

/-- The empty heap has no entries. -/
@[simp] theorem toList_empty : (empty : Heap β).toList = [] := rfl

/-- The entries of a tree are its root, those below the root and those beside it. -/
@[simp] theorem toList_node (top : β) (children siblings : Heap β) :
    (node top children siblings).toList = top :: (children.toList ++ siblings.toList) := rfl

/-- Linking whole heaps gives a whole heap. -/
theorem isWhole_link (before : β → β → Bool) {g h : Heap β} (hg : g.isWhole) (hh : h.isWhole) :
    (link before g h).isWhole := by
  unfold link
  split
  · exact hh
  · exact hg
  · split <;> rfl

/-- Joining siblings gives a whole heap. -/
theorem isWhole_join (before : β → β → Bool) (h : Heap β) : (join before h).isWhole := by
  fun_induction join before h with
  | case1 => rfl
  | case2 => rfl
  | case3 a as b bs rest ih => exact isWhole_link before (isWhole_link before rfl rfl) ih

/-- Adding an entry keeps a heap whole. -/
theorem isWhole_push (before : β → β → Bool) {h : Heap β} (hh : h.isWhole) (entry : β) :
    (h.push before entry).isWhole :=
  isWhole_link before rfl hh

/-- Taking the first entry leaves a whole heap. -/
theorem isWhole_pop? (before : β → β → Bool) {h rest : Heap β} {entry : β}
    (hp : h.pop? before = some (entry, rest)) : rest.isWhole := by
  cases h with
  | empty => cases hp
  | node top children siblings =>
    cases hp
    exact isWhole_join before children

/-- Linking whole heaps keeps the entries of both. -/
theorem perm_link (before : β → β → Bool) {g h : Heap β} (hg : g.isWhole) (hh : h.isWhole) :
    (link before g h).toList.Perm (g.toList ++ h.toList) := by
  unfold link
  split
  · exact .refl _
  · rw [toList_empty, List.append_nil]
  · next a as s b bs t =>
    cases s with
    | node => cases hg
    | empty =>
      cases t with
      | node => cases hh
      | empty =>
        simp only [toList_node, toList_empty, List.append_nil]
        split
        · simp only [toList_node, toList_empty, List.append_nil, List.cons_append]
          refine .cons a ?_
          rw [← List.cons_append]
          exact List.perm_append_comm
        · simp only [toList_node, toList_empty, List.append_nil, List.cons_append]
          refine (List.Perm.swap a b _).trans (.cons a ?_)
          exact List.perm_middle.symm

/-- Joining siblings keeps the entries. -/
theorem perm_join (before : β → β → Bool) (h : Heap β) :
    (join before h).toList.Perm h.toList := by
  fun_induction join before h with
  | case1 => exact .refl _
  | case2 => exact .refl _
  | case3 a as b bs rest ih =>
    have hab : (link before (node a as empty) (node b bs empty)).isWhole :=
      isWhole_link before rfl rfl
    refine (perm_link before hab (isWhole_join before rest)).trans ?_
    refine ((perm_link before (g := node a as empty) (h := node b bs empty) rfl rfl).append
      ih).trans ?_
    simp

/-- Adding an entry adds it to the list. -/
theorem perm_push (before : β → β → Bool) {h : Heap β} (hh : h.isWhole) (entry : β) :
    (h.push before entry).toList.Perm (entry :: h.toList) :=
  perm_link before (g := node entry empty empty) rfl hh

/-- Taking the first entry removes it from the list. -/
theorem perm_pop? (before : β → β → Bool) {h rest : Heap β} {entry : β} (hh : h.isWhole)
    (hp : h.pop? before = some (entry, rest)) : (entry :: rest.toList).Perm h.toList := by
  cases h with
  | empty => cases hp
  | node top children siblings =>
    cases hp
    cases siblings with
    | node => cases hh
    | empty =>
      rw [toList_node, toList_empty, List.append_nil]
      exact (perm_join before children).cons _

/-- Only the empty heap has no first entry. -/
theorem pop?_eq_none_iff (before : β → β → Bool) (h : Heap β) :
    h.pop? before = none ↔ h.toList = [] := by
  cases h <;> simp [pop?]

end Heap

end DoorToDoor
