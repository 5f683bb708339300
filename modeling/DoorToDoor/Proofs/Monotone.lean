import DoorToDoor.Proofs.Exact

/-!
# Arithmetic that rounds

The laws that comparison and addition keep although sums are rounded, overflow or are undefined:
comparing is transitive, what lies below infinity can be compared, sorting refines the order, and
adding a number that is not negative does not lead down. Binary64 numbers keep them, as extended
reals do. Over such scalars a search is right about which of two costs it has calculated is less,
though not about what walks cost without rounding.
-/

namespace DoorToDoor

/-- Comparison and addition lead no cost down when a number that is not negative is added. -/
class MonotoneScalar (α : Type) [Scalar α] : Prop where
  le_trans : ∀ {x y z : α}, x ≤ y → y ≤ z → x ≤ z
  lt_iff : ∀ {x y : α}, x < y ↔ x ≤ y ∧ ¬y ≤ x
  /-- Nothing below infinity is undefined. -/
  le_total : ∀ {x y : α}, x < Scalar.infinity → y < Scalar.infinity → x ≤ y ∨ y ≤ x
  trans_order : Std.TransCmp (Scalar.order : α → α → Ordering)
  order_of_lt : ∀ {x y : α}, x < y → Scalar.order x y = .lt
  le_add : ∀ {x y : α}, x < Scalar.infinity → Scalar.isFinite y = true → Scalar.zero ≤ y → x ≤ x + y

/-- Exact arithmetic is monotone. -/
instance : MonotoneScalar EReal where
  le_trans h h' := h.trans h'
  lt_iff := lt_iff_le_not_ge
  le_total _ _ := le_total _ _
  trans_order := inferInstanceAs (Std.TransCmp (compare : EReal → EReal → Ordering))
  order_of_lt h := compare_lt_iff_lt.mpr h
  le_add _ _ h := le_add_of_nonneg_right (Scalar.zero_exact ▸ h)

namespace MonotoneScalar

variable {α : Type} [Scalar α] [MonotoneScalar α] {x y z : α}

/-- What is less is not more. -/
theorem le_of_lt (h : x < y) : x ≤ y := (lt_iff.mp h).1

/-- Nothing is below what is not above it. -/
theorem not_lt_of_le (h : x ≤ y) : ¬y < x := fun hlt ↦ (lt_iff.mp hlt).2 h

/-- Nothing is below itself. -/
theorem lt_irrefl (x : α) : ¬x < x := fun h ↦ not_lt_of_le (le_of_lt h) h

/-- What is below a value is below all that is not below this value. -/
theorem lt_of_lt_of_le (h : x < y) (h' : y ≤ z) : x < z :=
  lt_iff.mpr ⟨le_trans (le_of_lt h) h', fun hzx ↦ (lt_iff.mp h).2 (le_trans h' hzx)⟩

/-- What is below a value is below all that is above this value. -/
theorem lt_trans (h : x < y) (h' : y < z) : x < z := lt_of_lt_of_le h (le_of_lt h')

/-- Below infinity, what is not above another value is at most it. -/
theorem le_of_not_lt (hx : x < Scalar.infinity) (hy : y < Scalar.infinity) (h : ¬y < x) :
    x ≤ y := by
  rcases le_total hx hy with hle | hle
  · exact hle
  · exact Classical.byContradiction fun hnot ↦ h (lt_iff.mpr ⟨hle, hnot⟩)

/-- What lies below infinity is at most itself. -/
theorem le_self (hx : x < Scalar.infinity) : x ≤ x := (le_total hx hx).elim id id

/-- Below infinity, values are in order as they are sorted. -/
theorem le_of_order (hx : x < Scalar.infinity) (hy : y < Scalar.infinity)
    (h : Scalar.order x y ≠ .gt) : x ≤ y := by
  have := trans_order (α := α)
  refine le_of_not_lt hx hy fun hlt ↦ h ?_
  exact Std.OrientedCmp.gt_of_lt (order_of_lt hlt)

end MonotoneScalar

end DoorToDoor
