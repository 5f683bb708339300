import DoorToDoor.Search.Heap

/-!
# The order of a pairing heap

In an ordered heap every entry stands before the entries below it. All operations keep heaps
ordered, so the entry that is taken first stands before all others: `before_of_pop?`. The order of
the entries has to be total and transitive; entries may rank alike. Where no two do, the entries
alone decide which of them is taken: `exists_pop?_of_perm`.
-/

namespace DoorToDoor.Heap

variable {β : Type} {before : β → β → Bool}

/-- Every entry stands before the entries below it. -/
def Ordered (before : β → β → Bool) : Heap β → Prop
  | empty => True
  | node top children siblings =>
    (∀ x ∈ children.toList, before top x) ∧ children.Ordered before ∧ siblings.Ordered before

/-- The empty heap is ordered. -/
theorem ordered_empty : (empty : Heap β).Ordered before := trivial

private theorem ordered_singleton (top : β) : (node top empty empty).Ordered before :=
  ⟨by simp, trivial, trivial⟩

/-- A tree without its siblings is ordered. -/
theorem Ordered.tree {top : β} {children siblings : Heap β}
    (h : (node top children siblings).Ordered before) :
    (node top children empty).Ordered before :=
  ⟨h.1, h.2.1, trivial⟩

section

variable (trans : ∀ a b c : β, before a b → before b c → before a c)
  (total : ∀ a b : β, before a b ∨ before b a)

include trans in
private theorem ordered_adopt {a b : β} {as bs : Heap β} (hab : before a b)
    (ha : (node a as empty).Ordered before) (hb : (node b bs empty).Ordered before) :
    (node a (node b bs as) empty).Ordered before := by
  refine ⟨fun x hx ↦ ?_, ⟨hb.1, hb.2.1, ha.2.1⟩, trivial⟩
  rw [toList_node, List.mem_cons, List.mem_append] at hx
  rcases hx with rfl | hx | hx
  · exact hab
  · exact trans a b x hab (hb.1 x hx)
  · exact ha.1 x hx

include trans total

/-- Linking ordered heaps gives an ordered heap. -/
theorem ordered_link {g h : Heap β} (hg : g.Ordered before) (hh : h.Ordered before) :
    (link before g h).Ordered before := by
  unfold link
  split
  · exact hh
  · exact hg
  · next a as _ b bs _ =>
    split
    · next hab => exact ordered_adopt trans hab hg.tree hh.tree
    · next hab => exact ordered_adopt trans ((total a b).resolve_left hab) hh.tree hg.tree

/-- Joining ordered siblings gives an ordered heap. -/
theorem ordered_join {h : Heap β} (hh : h.Ordered before) : (join before h).Ordered before := by
  fun_induction join before h with
  | case1 => exact hh
  | case2 a as => exact hh
  | case3 a as b bs rest ih =>
    have hab : (link before (node a as empty) (node b bs empty)).Ordered before :=
      ordered_link trans total hh.tree hh.2.2.tree
    exact ordered_link trans total hab (ih hh.2.2.2.2)

/-- Adding an entry keeps a heap ordered. -/
theorem ordered_push {h : Heap β} (hh : h.Ordered before) (entry : β) :
    (h.push before entry).Ordered before :=
  ordered_link trans total (ordered_singleton entry) hh

/-- Taking the first entry leaves an ordered heap. -/
theorem ordered_pop? {h rest : Heap β} {entry : β} (hh : h.Ordered before)
    (hp : h.pop? before = some (entry, rest)) : rest.Ordered before := by
  cases h with
  | empty => cases hp
  | node top children siblings =>
    cases hp
    exact ordered_join trans total hh.2.1

end

/-- The entry that is taken first stands before all that are left. -/
theorem before_of_pop? {h rest : Heap β} {entry : β} (hh : h.Ordered before)
    (hp : h.pop? before = some (entry, rest)) : ∀ x ∈ rest.toList, before entry x := by
  cases h with
  | empty => cases hp
  | node top children siblings =>
    cases hp
    intro x hx
    exact hh.1 x ((perm_join before children).mem_iff.mp hx)

/-- However the same entries are arranged in two ordered heaps, both give the same entry first and
leave the same entries, if no two different entries stand before each other. -/
theorem exists_pop?_of_perm {g h rest : Heap β} {entry : β} (hg : g.isWhole) (hh : h.isWhole)
    (og : g.Ordered before) (oh : h.Ordered before) (perm : g.toList.Perm h.toList)
    (antisymm : ∀ a ∈ g.toList, ∀ b ∈ g.toList, before a b → before b a → a = b)
    (hp : g.pop? before = some (entry, rest)) :
    ∃ rest', h.pop? before = some (entry, rest') ∧ rest.toList.Perm rest'.toList := by
  have hleft := perm_pop? before hg hp
  cases hq : h.pop? before with
  | none =>
    rw [pop?_eq_none_iff] at hq
    rw [hq] at perm
    cases (hleft.trans perm).eq_nil
  | some popped =>
    obtain ⟨entry', rest'⟩ := popped
    have hright := perm_pop? before hh hq
    have hboth := (hleft.trans perm).trans hright.symm
    obtain rfl : entry = entry' := by
      refine Classical.byContradiction fun hne ↦ hne (antisymm entry ?_ entry' ?_ ?_ ?_)
      · exact hleft.mem_iff.mp List.mem_cons_self
      · exact perm.mem_iff.mpr (hright.mem_iff.mp List.mem_cons_self)
      · rcases List.mem_cons.mp (hboth.mem_iff.mpr List.mem_cons_self) with heq | hmem
        · exact absurd heq.symm hne
        · exact before_of_pop? og hp entry' hmem
      · rcases List.mem_cons.mp (hboth.mem_iff.mp List.mem_cons_self) with heq | hmem
        · exact absurd heq hne
        · exact before_of_pop? oh hq entry hmem
    exact ⟨rest', rfl, hboth.cons_inv⟩

end DoorToDoor.Heap
