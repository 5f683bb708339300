import Mathlib.Analysis.Real.Sqrt
import Mathlib.Data.EReal.Inv
import DoorToDoor.Point

/-!
# Exact arithmetic

The extended reals as scalars. The numbers are the reals, calculated with and compared exactly, and
infinity lies above all of them; nothing is rounded and nothing is undefined. What holds over these
scalars holds of the rules of the library as they are meant. The remainder, the square root and the
whole part are those of the reals.
-/

namespace DoorToDoor

/-- Exact arithmetic. -/
noncomputable instance : Scalar EReal where
  decLT := inferInstance
  decLE := inferInstance
  ofNat n := ((n : ℝ) : EReal)
  infinity := ⊤
  emptySum := 0
  sqrt x := if x = ⊤ then ⊤ else (Real.sqrt x.toReal : ℝ)
  remEuclid x y := (x.toReal - y.toReal * ⌊x.toReal / y.toReal⌋ : ℝ)
  order := compare
  isFinite x := x ≠ ⊥ ∧ x ≠ ⊤
  wholePart x := ⌊x.toReal⌋₊

namespace Scalar

/-- Zero is the number zero. -/
@[simp] theorem zero_exact : (zero : EReal) = 0 := by
  change (((0 : ℕ) : ℝ) : EReal) = 0
  rw [Nat.cast_zero, EReal.coe_zero]

/-- No scalar lies above infinity. -/
@[simp] theorem infinity_exact : (infinity : EReal) = ⊤ := rfl

/-- A whole number is the real number that it is. -/
theorem ofNat_exact (n : ℕ) : (ofNat n : EReal) = ((n : ℝ) : EReal) := rfl

/-- Whole numbers are ordered as they are. -/
theorem ofNat_le_ofNat {m n : ℕ} : (ofNat m : EReal) ≤ ofNat n ↔ m ≤ n := by
  rw [ofNat_exact, ofNat_exact, EReal.coe_le_coe_iff, Nat.cast_le]

/-- The finite scalars are the numbers between the two infinities. -/
theorem isFinite_exact {x : EReal} : isFinite x = true ↔ x ≠ ⊥ ∧ x ≠ ⊤ := decide_eq_true_iff

/-- The finite scalars are the real numbers. -/
theorem isFinite_iff_exists {x : EReal} : isFinite x = true ↔ ∃ r : ℝ, (r : EReal) = x := by
  rw [isFinite_exact]
  constructor
  · intro h
    exact ⟨x.toReal, EReal.coe_toReal h.2 h.1⟩
  · rintro ⟨r, rfl⟩
    exact ⟨EReal.coe_ne_bot r, EReal.coe_ne_top r⟩

/-- Every real number is finite. -/
@[simp] theorem isFinite_coe (r : ℝ) : isFinite (r : EReal) = true :=
  isFinite_iff_exists.mpr ⟨r, rfl⟩

/-- Sorting compares scalars by their values. -/
theorem order_exact (x y : EReal) : order x y = compare x y := rfl

/-- The whole part is the largest natural number that is not above a number. -/
theorem wholePart_coe (x : ℝ) : wholePart (x : EReal) = ⌊x⌋₊ := rfl

/-- The remainder of real numbers is a real number. -/
theorem remEuclid_coe (x y : ℝ) :
    remEuclid (x : EReal) (y : EReal) = ((x - y * ⌊x / y⌋ : ℝ) : EReal) := rfl

private theorem sqrt_coe (x : ℝ) : sqrt (x : EReal) = ((Real.sqrt x : ℝ) : EReal) :=
  if_neg (EReal.coe_ne_top x)

variable {x y : EReal}

/-- A whole number is finite. -/
theorem isFinite_ofNat (n : ℕ) : isFinite (ofNat n : EReal) = true := isFinite_coe n

/-- Zero is finite. -/
theorem isFinite_zero : isFinite (zero : EReal) = true := isFinite_ofNat 0

/-- Sums of finite scalars are finite. -/
theorem isFinite_add (hx : isFinite x = true) (hy : isFinite y = true) :
    isFinite (x + y) = true := by
  obtain ⟨a, rfl⟩ := isFinite_iff_exists.mp hx
  obtain ⟨b, rfl⟩ := isFinite_iff_exists.mp hy
  exact isFinite_coe (a + b)

/-- The parts of a finite sum are finite. -/
theorem isFinite_of_add (h : isFinite (x + y) = true) :
    isFinite x = true ∧ isFinite y = true := by
  obtain ⟨hbot, htop⟩ := isFinite_exact.mp h
  rw [ne_eq, EReal.add_eq_bot_iff, not_or] at hbot
  obtain ⟨hx, hy⟩ := hbot
  refine ⟨isFinite_exact.mpr ⟨hx, ?_⟩, isFinite_exact.mpr ⟨hy, ?_⟩⟩
  · rintro rfl
    exact htop (EReal.top_add_of_ne_bot hy)
  · rintro rfl
    exact htop (EReal.add_top_of_ne_bot hx)

/-- Differences of finite scalars are finite. -/
theorem isFinite_sub (hx : isFinite x = true) (hy : isFinite y = true) :
    isFinite (x - y) = true := by
  obtain ⟨a, rfl⟩ := isFinite_iff_exists.mp hx
  obtain ⟨b, rfl⟩ := isFinite_iff_exists.mp hy
  exact isFinite_coe (a - b)

/-- A finite scalar with the sign reversed is finite. -/
theorem isFinite_neg (hx : isFinite x = true) : isFinite (-x) = true := by
  obtain ⟨a, rfl⟩ := isFinite_iff_exists.mp hx
  exact isFinite_coe (-a)

/-- Products of finite scalars are finite. -/
theorem isFinite_mul (hx : isFinite x = true) (hy : isFinite y = true) :
    isFinite (x * y) = true := by
  obtain ⟨a, rfl⟩ := isFinite_iff_exists.mp hx
  obtain ⟨b, rfl⟩ := isFinite_iff_exists.mp hy
  exact isFinite_coe (a * b)

/-- The quotient of a finite scalar by a positive one is finite. -/
theorem isFinite_div (hx : isFinite x = true) (hy : 0 < y) : isFinite (x / y) = true := by
  obtain ⟨a, rfl⟩ := isFinite_iff_exists.mp hx
  induction y with
  | bot => exact absurd hy not_lt_bot
  | top =>
    rw [EReal.div_top]
    exact isFinite_coe 0
  | coe b =>
    rw [← EReal.coe_div]
    exact isFinite_coe (a / b)

/-- A finite scalar and what lies between it and another make up the other. -/
theorem add_sub_cancel_of_isFinite (hx : isFinite x = true) (y : EReal) : x + (y - x) = y := by
  obtain ⟨a, rfl⟩ := isFinite_iff_exists.mp hx
  rw [add_comm, EReal.sub_add_cancel]

/-- Scalars that are both raised by a finite amount keep their difference. -/
theorem add_sub_add_of_isFinite {z : EReal} (hz : isFinite z = true) (x y : EReal) :
    x + z - (y + z) = x - y := by
  obtain ⟨c, rfl⟩ := isFinite_iff_exists.mp hz
  have hneg : -(y + (c : EReal)) = -y - c :=
    EReal.neg_add (.inr (EReal.coe_ne_top c)) (.inr (EReal.coe_ne_bot c))
  have hself : (c : EReal) + -(c : EReal) = 0 := by
    rw [← EReal.coe_neg, ← EReal.coe_add, add_neg_cancel, EReal.coe_zero]
  calc
    x + c - (y + c) = x + c + (-y + -(c : EReal)) := by rw [sub_eq_add_neg, hneg, sub_eq_add_neg]
    _ = x + -y + (c + -(c : EReal)) := add_add_add_comm _ _ _ _
    _ = x - y := by rw [hself, add_zero, sub_eq_add_neg]

/-- Every remainder is finite. -/
theorem isFinite_remEuclid (x y : EReal) : isFinite (remEuclid x y) = true := isFinite_coe _

private theorem sqrt_nonneg (x : EReal) : 0 ≤ sqrt x := by
  change 0 ≤ if x = ⊤ then ⊤ else ((Real.sqrt x.toReal : ℝ) : EReal)
  split
  · exact le_top
  · exact EReal.coe_nonneg.mpr (Real.sqrt_nonneg _)

/-- The square root of a scalar is at most one that is not negative if the scalar is at most its
square. -/
theorem sqrt_le_of_le_mul_self (nonneg : 0 ≤ y) (h : x ≤ y * y) : sqrt x ≤ y := by
  induction y with
  | bot => exact absurd nonneg (not_le_of_gt EReal.bot_lt_zero)
  | top => exact le_top
  | coe b =>
    have hb : 0 ≤ b := EReal.coe_nonneg.mp nonneg
    rw [← EReal.coe_mul] at h
    induction x with
    | bot =>
      change (if (⊥ : EReal) = ⊤ then ⊤ else ((Real.sqrt (⊥ : EReal).toReal : ℝ) : EReal)) ≤ b
      simpa using hb
    | top => exact absurd h (not_le_of_gt (EReal.coe_lt_top _))
    | coe a =>
      rw [sqrt_coe, EReal.coe_le_coe_iff, Real.sqrt_le_left hb, pow_two]
      exact EReal.coe_le_coe_iff.mp h

private theorem sqrt_mul_sqrt (h : 0 ≤ x) : sqrt x * sqrt x = x := by
  induction x with
  | bot => exact absurd h (not_le_of_gt EReal.bot_lt_zero)
  | top =>
    have htop : sqrt (⊤ : EReal) = ⊤ := if_pos rfl
    rw [htop, EReal.top_mul_top]
  | coe a => rw [sqrt_coe, ← EReal.coe_mul, Real.mul_self_sqrt (EReal.coe_nonneg.mp h)]

private theorem sqrt_le_iff (hx : 0 ≤ x) (hy : 0 ≤ y) : sqrt x ≤ y ↔ x ≤ y * y := by
  constructor
  · intro h
    calc
      x = sqrt x * sqrt x := (sqrt_mul_sqrt hx).symm
      _ ≤ y * y := mul_le_mul h h (sqrt_nonneg x) hy
  · exact sqrt_le_of_le_mul_self hy

private theorem sqrt_le_sqrt_iff (hx : 0 ≤ x) (hy : 0 ≤ y) : sqrt x ≤ sqrt y ↔ x ≤ y := by
  rw [sqrt_le_iff hx (sqrt_nonneg y), sqrt_mul_sqrt hy]

end Scalar

namespace Point

/-- A point has finite coordinates. -/
def IsFinite (p : Point EReal) : Prop :=
  Scalar.isFinite p.x = true ∧ Scalar.isFinite p.y = true

/-- No distance is negative. -/
theorem distance_nonneg (p q : Point EReal) : 0 ≤ p.distance q := Scalar.sqrt_nonneg _

/-- The squared distance of points is calculated with real numbers. -/
theorem squareTo_coe (a b c d : ℝ) :
    (⟨a, b⟩ : Point EReal).squareTo ⟨c, d⟩ =
      (((a - c) * (a - c) + (b - d) * (b - d) : ℝ) : EReal) := rfl

/-- It does not matter from which of two points their squared distance is measured. -/
theorem squareTo_comm (p q : Point EReal) : p.squareTo q = q.squareTo p := by
  have hsquare (x y : EReal) : (x - y) * (x - y) = (y - x) * (y - x) := by
    induction x with
    | bot => induction y <;> simp
    | top => induction y <;> simp
    | coe x =>
      induction y with
      | bot => simp
      | top => simp
      | coe y =>
        norm_cast
        ring
  rw [squareTo, squareTo, hsquare, hsquare p.y]

private theorem squareTo_nonneg (p q : Point EReal) : 0 ≤ p.squareTo q := by
  have hsquare (x : EReal) : 0 ≤ x * x := by
    rw [EReal.mul_nonneg_iff, and_self, and_self]
    exact le_total 0 x
  exact add_nonneg (hsquare _) (hsquare _)

/-- Distances are at most a radius when their squares are at most its square. -/
theorem distance_le_iff {p q : Point EReal} {radius : EReal} (nonneg : 0 ≤ radius) :
    p.distance q ≤ radius ↔ p.squareTo q ≤ radius * radius :=
  Scalar.sqrt_le_iff (p.squareTo_nonneg q) nonneg

/-- Distances are in the order of their squares. -/
theorem distance_le_distance_iff {p q p' q' : Point EReal} :
    p.distance q ≤ p'.distance q' ↔ p.squareTo q ≤ p'.squareTo q' :=
  Scalar.sqrt_le_sqrt_iff (p.squareTo_nonneg q) (p'.squareTo_nonneg q')

/-- The distance of points is the square root of a real number. -/
theorem distance_coe (a b c d : ℝ) :
    (⟨a, b⟩ : Point EReal).distance ⟨c, d⟩ =
      ((Real.sqrt ((a - c) * (a - c) + (b - d) * (b - d)) : ℝ) : EReal) := by
  rw [distance, squareTo_coe, Scalar.sqrt_coe]

namespace IsFinite

variable {p q : Point EReal}

/-- The coordinates of a finite point are real numbers. -/
theorem exists_coe (h : p.IsFinite) : ∃ a b : ℝ, p = ⟨(a : EReal), (b : EReal)⟩ := by
  obtain ⟨a, ha⟩ := Scalar.isFinite_iff_exists.mp h.1
  obtain ⟨b, hb⟩ := Scalar.isFinite_iff_exists.mp h.2
  exact ⟨a, b, by rw [ha, hb]⟩

/-- The distance of points is finite. -/
theorem distance (hp : p.IsFinite) (hq : q.IsFinite) : Scalar.isFinite (p.distance q) = true := by
  obtain ⟨a, b, rfl⟩ := hp.exists_coe
  obtain ⟨c, d, rfl⟩ := hq.exists_coe
  rw [distance_coe]
  exact Scalar.isFinite_coe _

/-- A point has no distance from itself. -/
theorem distance_self (h : p.IsFinite) : p.distance p = 0 := by
  obtain ⟨a, b, rfl⟩ := h.exists_coe
  rw [distance_coe, sub_self, sub_self, mul_zero, add_zero, Real.sqrt_zero, EReal.coe_zero]

end IsFinite

end Point

end DoorToDoor
