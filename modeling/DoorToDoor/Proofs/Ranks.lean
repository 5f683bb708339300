import Mathlib
import DoorToDoor.Proofs.Exact

/-!
# The order of sorting

`Scalar.Ranked` says what sorting relies on: all values stand in one line, and numbers stand in it
by their size. Exact numbers and binary64 numbers are ranked. For the latter the bits are read:
without the sign they rise with the magnitude (`Binary64.Reads`), so that comparing two numbers is
comparing two integers (`Binary64.le_iff`).
-/

namespace DoorToDoor

namespace Scalar

/-- The order of sorting is a line of all values. Numbers, which are those values that are at most
themselves, stand in it by their size. -/
class Ranked (α : Type) [Scalar α] : Prop where
  before_trans {x y z : α} : before x y = true → before y z = true → before x z = true
  before_total (x y : α) : before x y = true ∨ before y x = true
  before_antisymm {x y : α} : before x y = true → before y x = true → x = y
  le_trans {x y z : α} : x ≤ y → y ≤ z → x ≤ z
  le_of_before {x y : α} : x ≤ x → y ≤ y → before x y = true → x ≤ y

private theorem before_exact {x y : EReal} : before x y = true ↔ x ≤ y := by
  rw [before, order_exact, bne_iff_ne, ne_eq, compare_gt_iff_gt, not_lt]

instance : Ranked EReal where
  before_trans hxy hyz := before_exact.mpr ((before_exact.mp hxy).trans (before_exact.mp hyz))
  before_total x y := (le_total x y).imp before_exact.mpr before_exact.mpr
  before_antisymm hxy hyx := le_antisymm (before_exact.mp hxy) (before_exact.mp hyx)
  le_trans := le_trans
  le_of_before _ _ := before_exact.mp

end Scalar

namespace Binary64

open Float.Model (UnpackedFloat Format)
open Float.Model.UnpackedFloat (Sign unpack unpackExponent unpackMantissa unpackSign)

/-- The bits of infinity. Those of smaller magnitudes lie below, and those of the undefined value
above. -/
def infinityBits : Nat := lastField * hiddenBit

/-- What a sign bit and the bits below it say. The value of a number is `m * 2 ^ (k - 1074)`, with
the least `k` for which `m` is below twice the hidden bit. -/
inductive Reads : UnpackedFloat → Sign → Nat → Prop
  | undefined {s : Sign} {magnitude : Nat} (above : infinityBits < magnitude) :
    Reads .notANumber s magnitude
  | infinite (s : Sign) : Reads (.infinity s) s infinityBits
  | zero (s : Sign) : Reads (.zero s) s 0
  | finite (s : Sign) {m k : Nat} {pos : 0 < m} (below : m < 2 * hiddenBit)
    (least : k = 0 ∨ hiddenBit ≤ m) (bound : k * hiddenBit + m < infinityBits) :
    Reads (.finite s m (k - 1074) pos) s (k * hiddenBit + m)

/-- The hidden bit as a power of two. -/
theorem hiddenBit_eq : hiddenBit = 2 ^ 52 := rfl

/-- The bits of infinity are those of the last exponent. -/
theorem infinityBits_eq : infinityBits = 2047 * 2 ^ 52 := rfl

private theorem magnitude_eq (b : BitVec Format.binary64.numBits) : b.toNat % 2 ^ 63 =
    (unpackExponent b).toNat * hiddenBit + (unpackMantissa b).toNat := by
  have hexponent : (unpackExponent b).toNat = b.toNat / 2 ^ 52 % 2 ^ 11 := by
    rw [UnpackedFloat.unpackExponent_def, BitVec.extractLsb'_toNat, Nat.shiftRight_eq_div_pow]
  have hmantissa : (unpackMantissa b).toNat = b.toNat % 2 ^ 52 := by
    rw [UnpackedFloat.unpackMantissa_def, BitVec.extractLsb'_toNat, Nat.shiftRight_zero]
  rw [hiddenBit_eq]
  omega

private theorem toNat_hidden (b : BitVec Format.binary64.numBits) :
    (1#1 ++ unpackMantissa b).toNat = 2 ^ 52 + (unpackMantissa b).toNat := by
  rw [BitVec.toNat_append, ← Nat.shiftLeft_add_eq_or_of_lt (unpackMantissa b).isLt]
  rfl

private theorem reads_unpack (b : BitVec Format.binary64.numBits) :
    Reads (unpack Format.binary64 b) (Sign.ofBitVec (unpackSign b)) (b.toNat % 2 ^ 63) := by
  have hhidden := toNat_hidden b
  have hlt : (unpackMantissa b).toNat < 2 ^ 52 := (unpackMantissa b).isLt
  have hlt' : (unpackExponent b).toNat < 2 ^ 11 := (unpackExponent b).isLt
  have hbias : (Format.binary64.exponentBias : Int) = 1023 := rfl
  have hbits : (Format.binary64.mantissaBitsWithoutImplicit : Int) = 52 := rfl
  rw [magnitude_eq, unpack]
  dsimp only
  split
  · next last =>
    have hlast : (unpackExponent b).toNat = lastField := by rw [last]; rfl
    split
    · next zero =>
      have hzero : (unpackMantissa b).toNat = 0 := by rw [zero]; rfl
      rw [hlast, hzero]
      exact .infinite _
    · next nonzero =>
      have hnonzero : (unpackMantissa b).toNat ≠ 0 := fun h ↦ nonzero (BitVec.eq_of_toNat_eq h)
      exact .undefined (by rw [hlast, infinityBits]; omega)
  · next number =>
    have hnumber : (unpackExponent b).toNat ≠ 2047 := fun h ↦ number (BitVec.eq_of_toNat_eq h)
    split
    · next first =>
      have hfirst : (unpackExponent b).toNat = 0 := by rw [first]; rfl
      split
      · next zero =>
        have hzero : (unpackMantissa b).toNat = 0 := by rw [zero]; rfl
        rw [hfirst, hzero]
        exact .zero _
      · next nonzero =>
        have hleast : ((unpackExponent b).toNat : Int) -
            ((Format.binary64.exponentBias : Int) + Format.binary64.mantissaBitsWithoutImplicit)
              + 1 = (0 : Nat) - 1074 := by omega
        rw [hleast, hfirst]
        exact .finite _ (by rw [hiddenBit_eq]; omega) (.inl rfl)
          (by rw [infinityBits_eq, hiddenBit_eq]; omega)
    · next other =>
      -- The hidden bit stands for the first unit of the exponent.
      have hother : (unpackExponent b).toNat ≠ 0 := fun h ↦ other (BitVec.eq_of_toNat_eq h)
      have hfield : ((unpackExponent b).toNat : Int) -
          ((Format.binary64.exponentBias : Int) + Format.binary64.mantissaBitsWithoutImplicit)
            = ((unpackExponent b).toNat - 1 : Nat) - 1074 := by omega
      have hsum : (unpackExponent b).toNat * hiddenBit + (unpackMantissa b).toNat =
          ((unpackExponent b).toNat - 1) * hiddenBit + (1#1 ++ unpackMantissa b).toNat := by
        rw [hiddenBit_eq]
        omega
      rw [hfield, hsum]
      exact .finite _ (by rw [hiddenBit_eq]; omega) (.inr (by rw [hiddenBit_eq]; omega))
        (by rw [infinityBits_eq, hiddenBit_eq]; omega)

private theorem compare_then_compare {m k m' k' : Nat} (below : m < 2 * hiddenBit)
    (below' : m' < 2 * hiddenBit) (least : k = 0 ∨ hiddenBit ≤ m)
    (least' : k' = 0 ∨ hiddenBit ≤ m') :
    (compare ((k : Int) - 1074) (k' - 1074)).then (compare m m') =
      compare (k * hiddenBit + m) (k' * hiddenBit + m') := by
  rw [hiddenBit_eq] at *
  rcases Nat.lt_trichotomy k k' with h | rfl | h
  · have hexponent : compare ((k : Int) - 1074) (k' - 1074) = .lt :=
      Int.compare_eq_lt.mpr (by omega)
    rw [hexponent, Ordering.lt_then, eq_comm, Nat.compare_eq_lt]
    omega
  · have hexponent : compare ((k : Int) - 1074) (k - 1074) = .eq := Int.compare_eq_eq.mpr rfl
    rw [hexponent, Ordering.eq_then]
    simp only [Nat.compare_eq_ite_le, Nat.add_le_add_iff_left]
  · have hexponent : compare ((k : Int) - 1074) (k' - 1074) = .gt :=
      Int.compare_eq_gt.mpr (by omega)
    rw [hexponent, Ordering.gt_then, eq_comm, Nat.compare_eq_gt]
    omega

private theorem le_finite_iff {s s' : Sign} {m m' : Nat} {e e' : Int} {pos : 0 < m} {pos' : 0 < m'}
    {i j : Nat} (hcompare : (compare e e').then (compare m m') = compare i j) (hi : 0 < i)
    (hj : 0 < j) :
    (UnpackedFloat.finite s m e pos).le (.finite s' m' e' pos') = true ↔
      s.apply i ≤ s'.apply j := by
  rw [UnpackedFloat.le]
  cases s with
  | negative =>
    cases s' with
    | negative =>
      rw [UnpackedFloat.compare, hcompare, Nat.compare_swap, Option.any_some, Nat.isLE_compare]
      exact Int.ofNat_le.symm.trans Int.neg_le_neg_iff.symm
    | positive => exact iff_of_true rfl (by simp only [Sign.apply]; omega)
  | positive =>
    cases s' with
    | negative => exact iff_of_false Bool.false_ne_true (by simp only [Sign.apply]; omega)
    | positive =>
      rw [UnpackedFloat.compare, hcompare, Option.any_some, Nat.isLE_compare]
      exact Int.ofNat_le.symm

/-- Numbers are compared by their signs and their magnitudes, and the undefined value is at most
nothing. -/
theorem le_iff_of_reads {u u' : UnpackedFloat} {s s' : Sign} {i j : Nat} (h : Reads u s i)
    (h' : Reads u' s' j) : u.le u' = true ↔
      (i ≤ infinityBits ∧ j ≤ infinityBits) ∧ s.apply i ≤ s'.apply j := by
  cases h with
  | undefined above => simp [UnpackedFloat.le, UnpackedFloat.compare, above]
  | infinite =>
    cases h' with
    | undefined above => simp [UnpackedFloat.le, UnpackedFloat.compare, above]
    | infinite => cases s <;> cases s' <;> decide
    | zero => cases s <;> cases s' <;> decide
    | finite =>
      cases s <;> cases s' <;> simp [UnpackedFloat.le, UnpackedFloat.compare, Sign.apply] <;> omega
  | zero =>
    cases h' with
    | undefined above => simp [UnpackedFloat.le, UnpackedFloat.compare, above]
    | infinite => cases s <;> cases s' <;> decide
    | zero => cases s <;> cases s' <;> decide
    | finite =>
      cases s <;> cases s' <;> simp [UnpackedFloat.le, UnpackedFloat.compare, Sign.apply] <;> omega
  | @finite _ _ _ pos below least bound =>
    cases h' with
    | undefined above => simp [UnpackedFloat.le, UnpackedFloat.compare, above]
    | infinite =>
      cases s <;> cases s' <;> simp [UnpackedFloat.le, UnpackedFloat.compare, Sign.apply] <;> omega
    | zero =>
      cases s <;> cases s' <;> simp [UnpackedFloat.le, UnpackedFloat.compare, Sign.apply] <;> omega
    | @finite _ _ _ pos' below' least' bound' =>
      rw [le_finite_iff (compare_then_compare below below' least least')
        (Nat.add_pos_right _ pos) (Nat.add_pos_right _ pos')]
      exact (and_iff_right ⟨bound.le, bound'.le⟩).symm

/-- The magnitude of a value with its sign. It is zero for both zeros. -/
def level (x : Float) : Int :=
  let bits := x.toBits.toNat
  if bits < signBit then bits else signBit - bits

/-- The level in terms of the bits. -/
theorem level_eq (x : Float) : level x =
    if x.toBits.toNat < 2 ^ 63 then (x.toBits.toNat : Int) else 2 ^ 63 - x.toBits.toNat := rfl

private theorem rank_eq (x : Float) : rank x =
    if x.toBits.toNat < 2 ^ 63 then (x.toBits.toNat : Int) else 2 ^ 63 - 1 - x.toBits.toNat := rfl

/-- The bits of a value say its level. -/
theorem reads_level (x : Float) : ∃ s : Sign,
    Reads x.toModel.unpack s (level x).natAbs ∧ s.apply (level x).natAbs = level x := by
  let b : BitVec Format.binary64.numBits := x.toBits.toBitVec
  have hlt : x.toBits.toNat < 2 ^ 64 := x.toBits.toNat_lt
  have hreads : Reads x.toModel.unpack (Sign.ofBitVec (unpackSign b)) (b.toNat % 2 ^ 63) :=
    reads_unpack b
  have hsign : (unpackSign b).toNat = x.toBits.toNat / 2 ^ 63 := by
    rw [UnpackedFloat.unpackSign_def, BitVec.extractLsb'_toNat, Nat.shiftRight_eq_div_pow]
    change x.toBits.toNat / 2 ^ 63 % 2 = _
    omega
  have hmagnitude : b.toNat % 2 ^ 63 = (level x).natAbs := by
    rw [level_eq]
    change x.toBits.toNat % 2 ^ 63 = _
    split <;> omega
  rw [hmagnitude] at hreads
  rcases Nat.lt_or_ge x.toBits.toNat (2 ^ 63) with hx | hx
  · have hpositive : unpackSign b = 0#1 :=
      BitVec.eq_of_toNat_eq (hsign.trans (Nat.div_eq_of_lt hx))
    rw [hpositive] at hreads
    refine ⟨.positive, hreads, ?_⟩
    rw [Sign.apply, level_eq, if_pos hx, Int.natAbs_natCast]
  · have hnegative : unpackSign b = 1#1 :=
      BitVec.eq_of_toNat_eq (hsign.trans (show x.toBits.toNat / 2 ^ 63 = 1 by omega))
    rw [hnegative] at hreads
    refine ⟨.negative, hreads, ?_⟩
    rw [Sign.apply, level_eq, if_neg (by omega)]
    omega

/-- A value is at most another one if both are numbers and it does not lie on a higher level. -/
theorem le_iff {x y : Float} : x ≤ y ↔
    ((level x).natAbs ≤ infinityBits ∧ (level y).natAbs ≤ infinityBits) ∧ level x ≤ level y := by
  obtain ⟨s, hx, hlevel⟩ := reads_level x
  obtain ⟨s', hy, hlevel'⟩ := reads_level y
  have h := le_iff_of_reads hx hy
  rw [hlevel, hlevel'] at h
  rw [← h]
  change decide _ = true ↔ _
  rw [decide_eq_true_iff]
  rfl

/-- Sorting goes by rank. -/
theorem before_iff {x y : Float} : Scalar.before x y = true ↔ rank x ≤ rank y := by
  change (compare (rank x) (rank y) != .gt) = true ↔ _
  rw [bne_iff_ne, ne_eq, Int.compare_eq_gt, not_lt]

/-- The rank tells all bits. -/
theorem rank_injective : Function.Injective rank := by
  intro x y h
  have hlt : x.toBits.toNat < 2 ^ 64 := x.toBits.toNat_lt
  have hlt' : y.toBits.toNat < 2 ^ 64 := y.toBits.toNat_lt
  have hbits : x.toBits.toNat = y.toBits.toNat := by
    rw [rank_eq, rank_eq] at h
    split at h <;> split at h <;> omega
  exact Float.toBits_inj.mp (UInt64.toNat_inj.mp hbits)

/-- A lower rank is no higher level. -/
theorem level_le_of_rank_le {x y : Float} (h : rank x ≤ rank y) : level x ≤ level y := by
  rw [rank_eq, rank_eq] at h
  rw [level_eq, level_eq]
  split at h <;> split at h <;> omega

/-- Binary64 numbers are ranked. Numbers of different rank have the same size only if they are
zeros of different sign. -/
instance : Scalar.Ranked Float where
  before_trans hxy hyz := before_iff.mpr ((before_iff.mp hxy).trans (before_iff.mp hyz))
  before_total x y := (le_total (rank x) (rank y)).imp before_iff.mpr before_iff.mpr
  before_antisymm hxy hyx := rank_injective (le_antisymm (before_iff.mp hxy) (before_iff.mp hyx))
  le_trans hxy hyz := by
    obtain ⟨⟨hx, -⟩, hxy⟩ := le_iff.mp hxy
    obtain ⟨⟨-, hz⟩, hyz⟩ := le_iff.mp hyz
    exact le_iff.mpr ⟨⟨hx, hz⟩, hxy.trans hyz⟩
  le_of_before hx hy h := by
    obtain ⟨⟨hx, -⟩, -⟩ := le_iff.mp hx
    obtain ⟨⟨hy, -⟩, -⟩ := le_iff.mp hy
    exact le_iff.mpr ⟨⟨hx, hy⟩, level_le_of_rank_le (before_iff.mp h)⟩

end Binary64

end DoorToDoor
