import DoorToDoor.Proofs.Rounding

/-!
# Whole numbers

Binary64 holds each whole number below `2 ^ 53` exactly, and the whole part of a number is exact as
well, so that no whole second is lost where times are read and written.
-/

namespace DoorToDoor.Binary64

open Float.Model (UnpackedFloat Format)
open Float.Model.UnpackedFloat (Sign)

/-- One is two to this power, in units. -/
def oneExponent : Nat := 1074

private theorem units_zero : units 0 = 0 := by decide

/-- What a magnitude stands for is rounded to that magnitude. -/
theorem Rounds.eq_of_units {b c : Nat} (h : Rounds (units c) b) : b = c :=
  Nat.le_antisymm (h.ge le_rfl) (h.le le_rfl)

private theorem exists_units_eq {m : Nat} (pos : 0 < m) (below : m < 2 * hiddenBit) (k : Nat) :
    ∃ b, units b = m * 2 ^ k := by
  obtain ⟨-, hbelow, hleast⟩ := div_scale (Nat.mul_pos pos (Nat.two_pow_pos k))
  refine ⟨scale (m * 2 ^ k) * hiddenBit + m * 2 ^ k / 2 ^ scale (m * 2 ^ k), ?_⟩
  have hlog : m.log2 < 53 := (Nat.log2_lt pos.ne').mpr below
  have hscale : scale (m * 2 ^ k) ≤ k := by
    rw [scale, log2_mul_two_pow pos]
    omega
  rw [units_eq hbelow hleast]
  exact Nat.div_mul_cancel (Dvd.dvd.mul_left (Nat.pow_dvd_pow 2 hscale) m)

private theorem exists_units_whole {n : Nat} (pos : 0 < n) (h : n < 2 * hiddenBit) :
    ∃ b, units b = n * 2 ^ oneExponent ∧ b < infinityBits := by
  obtain ⟨b, hb⟩ := exists_units_eq pos h oneExponent
  have hinfinity : infinityBits = (lastField - 1) * hiddenBit + hiddenBit := by decide
  have hless : n * 2 ^ oneExponent < 2 * hiddenBit * 2 ^ oneExponent :=
    Nat.mul_lt_mul_of_pos_right h (Nat.two_pow_pos _)
  have hmore : 2 * hiddenBit * 2 ^ oneExponent ≤ hiddenBit * 2 ^ (lastField - 1) := by
    rw [Nat.mul_right_comm, Nat.mul_comm, ← Nat.pow_succ']
    exact Nat.mul_le_mul_left _ (Nat.pow_le_pow_right (by decide) (by decide))
  refine ⟨b, hb, units_strictMono.lt_iff_lt.mp ?_⟩
  rw [hb, hinfinity, units_eq (by decide) (.inr le_rfl)]
  exact hless.trans_le hmore

private theorem level_toFloat {n b : Nat} (pos : 0 < n) (h : n < 2 * hiddenBit)
    (hb : units b = n * 2 ^ oneExponent) (finite : b < infinityBits) :
    level n.toUInt64.toFloat = b := by
  have htoNat : n.toUInt64.toNat = n := by
    rw [hiddenBit_eq] at h
    exact Nat.mod_eq_of_lt (by omega)
  obtain ⟨b', hrounds, hlevel⟩ := exists_level_normalize n oneExponent
  have hvalue : (n : Int) * 2 ^ oneExponent = units b := by
    rw [hb]
    push_cast
    rfl
  have hsign : (units b : Int).sign = 1 := by
    rw [hb]
    exact Int.sign_natCast_of_ne_zero (Nat.mul_pos pos (Nat.two_pow_pos _)).ne'
  rw [hvalue, Int.natAbs_natCast] at hrounds
  obtain rfl : b' = b := Rounds.eq_of_units hrounds
  rw [hvalue, hsign, Int.one_mul, Nat.min_eq_left finite.le] at hlevel
  refine Eq.trans ?_ hlevel
  change level (.ofModel (.pack (.normalize .binary64 n.toUInt64.toNat 0 .positive))) = _
  rw [htoNat]
  rfl

private theorem level_mul_one {u : UnpackedFloat} {s : Sign} {b : Nat} (h : Reads u s b)
    (large : 54 * hiddenBit ≤ b) (finite : b < infinityBits) :
    level (.ofModel (.pack (u.mul .binary64 (.finite .positive (2 ^ 52) (-52) (by decide))))) =
      s.apply b := by
  cases h with
  | undefined above => omega
  | infinite => omega
  | zero => exact absurd large (by decide)
  | @finite _ m k pos below least bound =>
    have hk : 52 ≤ k := by
      rw [hiddenBit_eq] at *
      omega
    have hexponent : (k : Int) - 1074 + -52 = (k - 52 : Nat) - 1074 := by omega
    have hvalue : m * 2 ^ 52 * 2 ^ (k - 52) = units (k * hiddenBit + m) := by
      rw [units_eq below least, Nat.mul_assoc, ← Nat.pow_add, Nat.add_sub_cancel' hk]
    have hfits : k - 52 ≤ scale (m * 2 ^ 52 * 2 ^ (k - 52)) := by
      rw [hvalue, units_eq below least, scale, log2_mul_two_pow pos]
      omega
    have hround := isRounded_roundWithAccuracy s (Nat.mul_pos pos (Nat.two_pow_pos 52)) hfits
    obtain ⟨b, hrounds, hlevel⟩ := hround.exists_level
    have hsign : s * Sign.positive = s := by cases s <;> rfl
    rw [hvalue] at hrounds
    rw [UnpackedFloat.mul, hsign, hexponent, hlevel, hrounds.eq_of_units, Nat.min_eq_left bound.le]

/-- Whole numbers that fit into a mantissa are held exactly. -/
theorem exists_level_ofNat {n : Nat} (h : n < 2 ^ 53) :
    ∃ b : Nat, level (Scalar.ofNat n : Float) = b ∧ b < infinityBits ∧
      units b = n * 2 ^ oneExponent := by
  rcases Nat.eq_zero_or_pos n with rfl | pos
  · exact ⟨0, level_zero, by decide, by rw [Nat.zero_mul]; rfl⟩
  obtain ⟨b, hb, hfinite⟩ := exists_units_whole pos h
  refine ⟨b, ?_, hfinite, hb⟩
  have hofNat : (Scalar.ofNat n : Float) =
      n.toUInt64.toFloat * Float.ofBits 0x3FF0000000000000 := by
    change Float.ofScientific n false 0 = _
    rw [Float.ofScientific, dif_pos ⟨h, by decide⟩]
    rfl
  have hlevel := level_toFloat pos h hb hfinite
  obtain ⟨s, hreads, hsigned⟩ := reads_level n.toUInt64.toFloat
  rw [hlevel, Int.natAbs_natCast] at hreads hsigned
  have hlarge : 54 * hiddenBit ≤ b := by
    have hunits : units (54 * hiddenBit) = 2 ^ 105 :=
      units_eq (m := hiddenBit) (k := 53) (by decide) (.inr le_rfl)
    rw [← units_strictMono.le_iff_le, hunits, hb]
    exact (Nat.pow_le_pow_right (by decide) (by decide)).trans (Nat.le_mul_of_pos_left _ pos)
  rw [hofNat]
  exact (level_mul_one hreads hlarge hfinite).trans hsigned

private theorem mul_two_pow_div (m k e : Nat) :
    m * 2 ^ (k - e) / 2 ^ (e - k) = m * 2 ^ k / 2 ^ e := by
  rcases Nat.le_total k e with hle | hle
  · rw [Nat.sub_eq_zero_of_le hle, Nat.pow_zero, Nat.mul_one,
      ← Nat.mul_div_mul_right m _ (Nat.two_pow_pos k), ← Nat.pow_add, Nat.sub_add_cancel hle]
  · obtain ⟨j, rfl⟩ := Nat.exists_eq_add_of_le' hle
    rw [Nat.sub_eq_zero_of_le hle, Nat.pow_zero, Nat.div_one, Nat.add_sub_cancel, Nat.pow_add,
      ← Nat.mul_assoc, Nat.mul_div_cancel _ (Nat.two_pow_pos e)]

private theorem toInt_of_reads {u : UnpackedFloat} {s : Sign} {i : Nat} (h : Reads u s i)
    (finite : i < infinityBits) (low high : Int) :
    u.toInt low high = s.apply (units i / 2 ^ oneExponent : Nat) := by
  cases h with
  | undefined above => omega
  | infinite => omega
  | zero =>
    rw [units_zero, Nat.zero_div]
    cases s <;> rfl
  | @finite _ m k pos below least bound =>
    have hup : ((k : Int) - 1074 - 0).toNat = k - oneExponent := by
      rw [oneExponent]
      omega
    have hdown : ((0 : Int) - ((k : Int) - 1074 - (k - oneExponent : Nat))).toNat =
        oneExponent - k := by
      rw [oneExponent]
      omega
    simp only [UnpackedFloat.toInt, UnpackedFloat.roundToInt, UnpackedFloat.decreaseExponent,
      UnpackedFloat.shiftToExponent, hup, hdown, mantissa_shiftRight, Nat.shiftLeft_eq,
      units_eq below least, mul_two_pow_div]

section

variable {x : Float} {i n : Nat} (hlevel : level x = i) (finite : i < infinityBits)
include hlevel finite

/-- The whole part of a number that is not negative and not too large. -/
theorem wholePart_eq (small : units i / 2 ^ oneExponent < UInt64.size) :
    Scalar.wholePart x = units i / 2 ^ oneExponent := by
  obtain ⟨s, hreads, hsigned⟩ := reads_level x
  rw [hlevel, Int.natAbs_natCast] at hreads hsigned
  have hint : (x.toModel.unpack.toInt 0 (UInt64.size - 1)).toNat = units i / 2 ^ oneExponent := by
    rw [toInt_of_reads hreads finite]
    cases s with
    | positive => rfl
    | negative =>
      obtain rfl : i = 0 := by
        rw [Sign.apply] at hsigned
        omega
      rw [units_zero, Nat.zero_div]
      rfl
  change (UInt64.ofNatClamp (x.toModel.unpack.toInt 0 (UInt64.size - 1)).toNat).toNat = _
  rw [hint, UInt64.toNat_ofNatClamp_of_lt small]

variable (h : n < 2 ^ 53)
include h

private theorem ofNat_le_iff : Scalar.ofNat n ≤ x ↔ n ≤ units i / 2 ^ oneExponent := by
  obtain ⟨b, hb, hfinite, hunits⟩ := exists_level_ofNat h
  rw [le_iff, hb, hlevel, Int.natAbs_natCast, Int.natAbs_natCast,
    and_iff_right ⟨hfinite.le, finite.le⟩, Int.ofNat_le, ← units_strictMono.le_iff_le, hunits,
    Nat.le_div_iff_mul_le (Nat.two_pow_pos _)]

private theorem lt_ofNat_iff : x < Scalar.ofNat n ↔ units i / 2 ^ oneExponent < n := by
  obtain ⟨b, hb, hfinite, -⟩ := exists_level_ofNat h
  have hordered : x < Scalar.ofNat n ↔ ¬Scalar.ofNat n ≤ x := by
    rw [lt_iff, le_iff, le_iff, hb, hlevel]
    omega
  rw [hordered, ofNat_le_iff hlevel finite h, not_le]

end

/-- The whole part of a whole number is this number. -/
theorem wholePart_ofNat {n : Nat} (h : n < 2 ^ 53) :
    Scalar.wholePart (Scalar.ofNat n : Float) = n := by
  obtain ⟨b, hb, hfinite, hunits⟩ := exists_level_ofNat h
  have hwhole : units b / 2 ^ oneExponent = n := by
    rw [hunits, Nat.mul_div_cancel _ (Nat.two_pow_pos _)]
  rw [wholePart_eq hb hfinite (hwhole.trans_lt (h.trans (by decide))), hwhole]

/-- The whole part of a number is the last whole number that is not above it. -/
theorem wholePart_between {x : Float} {n : Nat} (h : n < 2 ^ 53) (nonneg : Scalar.zero ≤ x)
    (below : x < Scalar.ofNat n) : Scalar.wholePart x < n ∧
      Scalar.ofNat (Scalar.wholePart x) ≤ x ∧ x < Scalar.ofNat (Scalar.wholePart x + 1) := by
  obtain ⟨b, hb, hfinite, -⟩ := exists_level_ofNat h
  obtain ⟨i, hi⟩ : ∃ i : Nat, level x = i := by
    rw [le_iff, level_zero] at nonneg
    exact ⟨(level x).toNat, by omega⟩
  have hless : i < infinityBits := by
    rw [lt_iff, le_iff, le_iff, hb, hi] at below
    omega
  have hwhole := (lt_ofNat_iff hi hless h).mp below
  rw [wholePart_eq hi hless (hwhole.trans (h.trans (by decide)))]
  exact ⟨hwhole, (ofNat_le_iff hi hless (hwhole.trans h)).mpr le_rfl,
    (lt_ofNat_iff hi hless (Nat.lt_of_le_of_lt hwhole h)).mpr (Nat.lt_succ_self _)⟩

end DoorToDoor.Binary64
