import DoorToDoor.Proofs.Monotone
import DoorToDoor.Proofs.Ranks

/-!
# Rounding

Binary64 arithmetic is monotone, so that what is known of monotone scalars holds of the running
program. A magnitude stands for a whole number of units (`Binary64.units`), the unit being the least
positive number. An exact result is rounded to a magnitude that no other one separates from it
(`Binary64.Rounds`). This is what mantissas, exponents and residual bits amount to, and the order of
the numbers needs no more.
-/

namespace DoorToDoor.Binary64

open Float.Model (UnpackedFloat Format totalExponent)
open Float.Model.UnpackedFloat (Sign ExtendedMantissa packComponents)

/-- The value that a magnitude stands for, in units of the least positive number. -/
def units (magnitude : Nat) : Nat :=
  if magnitude < hiddenBit then magnitude
  else (hiddenBit + magnitude % hiddenBit) * 2 ^ (magnitude / hiddenBit - 1)

section

variable {m k : Nat} (below : m < 2 * hiddenBit) (least : k = 0 ∨ hiddenBit ≤ m)
include below least

/-- A magnitude stands for its mantissa, shifted up by its exponent. -/
theorem units_eq : units (k * hiddenBit + m) = m * 2 ^ k := by
  rw [units, hiddenBit_eq] at *
  split
  · next h =>
    obtain rfl : k = 0 := by omega
    omega
  · next h =>
    have hquotient : (k * 2 ^ 52 + m) / 2 ^ 52 - 1 = k := by omega
    have hremainder : 2 ^ 52 + (k * 2 ^ 52 + m) % 2 ^ 52 = m := by omega
    rw [hquotient, hremainder]

private theorem units_succ : units (k * hiddenBit + (m + 1)) = (m + 1) * 2 ^ k := by
  rcases Nat.lt_or_ge (m + 1) (2 * hiddenBit) with h | h
  · exact units_eq h (least.imp_right Nat.le_succ_of_le)
  · have hnext : k * hiddenBit + (m + 1) = (k + 1) * hiddenBit + hiddenBit := by
      rw [hiddenBit_eq] at *
      omega
    have htop : m + 1 = 2 * hiddenBit := by omega
    rw [hnext, units_eq (by decide) (.inr (Nat.le_refl _)), htop, Nat.pow_succ]
    ring

end

/-- Each magnitude has a mantissa and an exponent. -/
theorem exists_mantissa (b : Nat) :
    ∃ m k, m < 2 * hiddenBit ∧ (k = 0 ∨ hiddenBit ≤ m) ∧ b = k * hiddenBit + m := by
  rw [hiddenBit_eq]
  rcases Nat.lt_or_ge b (2 ^ 52) with h | h
  · exact ⟨b, 0, by omega, .inl rfl, by omega⟩
  · exact ⟨2 ^ 52 + b % 2 ^ 52, b / 2 ^ 52 - 1, by omega, .inr (by omega), by omega⟩

/-- Of two magnitudes the larger one stands for the larger value. -/
theorem units_strictMono : StrictMono units := by
  refine strictMono_nat_of_lt_succ fun b ↦ ?_
  obtain ⟨m, k, below, least, rfl⟩ := exists_mantissa b
  rw [units_eq below least, Nat.add_assoc, units_succ below least]
  exact Nat.mul_lt_mul_of_pos_right (Nat.lt_succ_self m) (Nat.two_pow_pos k)

/-- A magnitude to which a value may be rounded. Every magnitude lies on the same side of it as of
the value. -/
structure Rounds (value b : Nat) : Prop where
  le : ∀ {c : Nat}, units c ≤ value → c ≤ b
  ge : ∀ {c : Nat}, value ≤ units c → b ≤ c

section

variable {m k value : Nat} (below : m < 2 * hiddenBit) (least : k = 0 ∨ hiddenBit ≤ m)
  (hlt : value < (m + 1) * 2 ^ k)
include below least hlt

private theorem rounds_down (hle : m * 2 ^ k ≤ value) : Rounds value (k * hiddenBit + m) := by
  rw [← units_eq below least] at hle
  rw [← units_succ below least] at hlt
  constructor
  case le =>
    intro c h
    have hc : c < k * hiddenBit + (m + 1) := units_strictMono.lt_iff_lt.mp (h.trans_lt hlt)
    omega
  case ge => exact fun h ↦ units_strictMono.le_iff_le.mp (hle.trans h)

private theorem rounds_up (hless : m * 2 ^ k < value) : Rounds value (k * hiddenBit + (m + 1)) := by
  rw [← units_eq below least] at hless
  rw [← units_succ below least] at hlt
  constructor
  case le => exact fun h ↦ (units_strictMono.lt_iff_lt.mp (h.trans_lt hlt)).le
  case ge =>
    intro c h
    have hc : k * hiddenBit + m < c := units_strictMono.lt_iff_lt.mp (hless.trans_le h)
    omega

end

/-- A shift to the right divides the mantissa. -/
theorem mantissa_shiftRight (m n : Nat) :
    (ExtendedMantissa.ofMantissaAndAccuracy m .exact >>> n).mantissa = m / 2 ^ n := by
  induction n with
  | zero => exact (Nat.div_one m).symm
  | succ n ih =>
    change (ExtendedMantissa.ofMantissaAndAccuracy m .exact >>> n).mantissa / 2 = _
    rw [ih, Nat.div_div_eq_div_mul, Nat.pow_succ]

private theorem shiftRight_exact (m n : Nat) :
    ExtendedMantissa.ofMantissaAndAccuracy (m * 2 ^ n) .exact >>> n =
      .ofMantissaAndAccuracy m .exact := by
  induction n generalizing m with
  | zero =>
    rw [Nat.pow_zero, Nat.mul_one]
    rfl
  | succ n ih =>
    change (ExtendedMantissa.ofMantissaAndAccuracy (m * 2 ^ (n + 1)) .exact >>> n).shiftRightOne = _
    rw [Nat.pow_succ', ← Nat.mul_assoc, ih]
    simp [ExtendedMantissa.shiftRightOne, ExtendedMantissa.ofMantissaAndAccuracy]

private theorem roundedMantissa_eq (em : ExtendedMantissa) :
    em.roundedMantissa = em.mantissa ∨ em.roundedMantissa = em.mantissa + 1 := by
  obtain ⟨m, roundBit, stickyBit⟩ := em
  cases roundBit with
  | false => cases stickyBit <;> exact .inl rfl
  | true =>
    cases stickyBit with
    | false =>
      change m + m % 2 = m ∨ m + m % 2 = m + 1
      omega
    | true => exact .inr rfl

/-- How far a value has to be shifted down until its mantissa fits. -/
def scale (value : Nat) : Nat := value.log2 - 52

/-- Shifted down by its scale, a value is a mantissa, and one of full length unless the scale is
zero. -/
theorem div_scale {value : Nat} (pos : 0 < value) :
    0 < value / 2 ^ scale value ∧ value / 2 ^ scale value < 2 * hiddenBit ∧
      (scale value = 0 ∨ hiddenBit ≤ value / 2 ^ scale value) := by
  have hlow : 2 ^ value.log2 ≤ value := Nat.log2_self_le pos.ne'
  have hhigh : value < 2 ^ (value.log2 + 1) := Nat.lt_log2_self
  rw [scale, hiddenBit_eq]
  rcases Nat.le_total value.log2 52 with h | h
  · have hle : 2 ^ (value.log2 + 1) ≤ 2 ^ 53 := Nat.pow_le_pow_right (by decide) (by omega)
    rw [Nat.sub_eq_zero_of_le h, Nat.pow_zero, Nat.div_one]
    exact ⟨pos, by omega, .inl rfl⟩
  · have hge : 2 ^ 52 ≤ value / 2 ^ (value.log2 - 52) := by
      rw [Nat.le_div_iff_mul_le (Nat.two_pow_pos _), ← Nat.pow_add, Nat.add_sub_cancel' h]
      exact hlow
    have hlt : value / 2 ^ (value.log2 - 52) < 2 ^ 53 := by
      rw [Nat.div_lt_iff_lt_mul (Nat.two_pow_pos _), ← Nat.pow_add]
      exact hhigh.trans_le (Nat.pow_le_pow_right (by decide) (by omega))
    exact ⟨by omega, by omega, .inr hge⟩

/-- Shifting a mantissa up adds to its length. -/
theorem log2_mul_two_pow {m : Nat} (pos : 0 < m) (k : Nat) : (m * 2 ^ k).log2 = m.log2 + k := by
  rw [Nat.log2_eq_iff (Nat.mul_pos pos (Nat.two_pow_pos k)).ne', Nat.pow_add, Nat.add_right_comm,
    Nat.pow_add]
  exact ⟨Nat.mul_le_mul_right _ (Nat.log2_self_le pos.ne'),
    Nat.mul_lt_mul_of_pos_right Nat.lt_log2_self (Nat.two_pow_pos k)⟩

private theorem targetExponent_eq {m : Nat} (pos : 0 < m) (k : Nat) :
    Format.binary64.targetExponent (totalExponent m (k - 1074)) =
      (scale (m * 2 ^ k) : Int) - 1074 := by
  have hbits : (Format.binary64.mantissaBits : Int) = 53 := rfl
  have hleast : Format.binary64.minExponent = -1074 := rfl
  rw [Format.targetExponent, totalExponent, hbits, hleast, scale, log2_mul_two_pow pos]
  omega

private theorem shiftToTargetExponent_eq {m : Nat} (pos : 0 < m) (k : Nat) :
    UnpackedFloat.shiftToTargetExponent .binary64 m (k - 1074) .exact =
      (ExtendedMantissa.ofMantissaAndAccuracy m .exact >>> (scale (m * 2 ^ k) - k),
        ((max k (scale (m * 2 ^ k)) : Nat) : Int) - 1074) := by
  have hamount : ((scale (m * 2 ^ k) : Int) - 1074 - (k - 1074)).toNat = scale (m * 2 ^ k) - k := by
    omega
  simp only [UnpackedFloat.shiftToTargetExponent, targetExponent_eq pos,
    UnpackedFloat.shiftToExponent, hamount]
  refine Prod.ext rfl ?_
  dsimp only
  omega

/-- What a value with a sign is rounded to. -/
inductive IsRounded (s : Sign) (value : Nat) : UnpackedFloat → Prop
  | intro {m k : Nat} {pos : 0 < m} (below : m < 2 * hiddenBit) (least : k = 0 ∨ hiddenBit ≤ m)
    (rounds : Rounds value (k * hiddenBit + m)) : IsRounded s value (.finite s m (k - 1074) pos)

private theorem rounds_roundedMantissa {m k n : Nat} (below : m / 2 ^ n < 2 * hiddenBit)
    (least : k + n = 0 ∨ hiddenBit ≤ m / 2 ^ n) :
    Rounds (m * 2 ^ k) ((k + n) * hiddenBit +
      (ExtendedMantissa.ofMantissaAndAccuracy m .exact >>> n).roundedMantissa) := by
  have hmantissa := mantissa_shiftRight m n
  have hle : m / 2 ^ n * 2 ^ n ≤ m := Nat.div_mul_le_self m _
  have hlt : m * 2 ^ k < (m / 2 ^ n + 1) * 2 ^ (k + n) := by
    rw [Nat.add_comm k, Nat.pow_add, ← Nat.mul_assoc, Nat.mul_comm (_ + 1)]
    exact Nat.mul_lt_mul_of_pos_right (Nat.lt_mul_div_succ m (Nat.two_pow_pos n))
      (Nat.two_pow_pos k)
  have hshift : m / 2 ^ n * 2 ^ (k + n) = m / 2 ^ n * 2 ^ n * 2 ^ k := by
    rw [Nat.add_comm k, Nat.pow_add, Nat.mul_assoc]
  rcases roundedMantissa_eq (ExtendedMantissa.ofMantissaAndAccuracy m .exact >>> n) with hdown | hup
  · rw [hdown, hmantissa]
    exact rounds_down below least hlt (hshift.trans_le (Nat.mul_le_mul_right _ hle))
  · rcases Nat.eq_or_lt_of_le hle with heq | hless
    · -- A shift that loses nothing leaves nothing to round.
      rw [hmantissa, ← heq, shiftRight_exact] at hup
      exact absurd hup (Nat.ne_of_lt (by rw [heq]; exact Nat.lt_succ_self _))
    · rw [hup, hmantissa]
      exact rounds_up below least hlt
        (hshift.trans_lt (Nat.mul_lt_mul_of_pos_right hless (Nat.two_pow_pos k)))

private theorem exists_shiftToTargetExponent {r k : Nat} (pos : 0 < r) (hle : r ≤ 2 * hiddenBit)
    (least : k = 0 ∨ hiddenBit ≤ r) :
    ∃ (em : ExtendedMantissa) (k' : Nat),
      UnpackedFloat.shiftToTargetExponent .binary64 r (k - 1074) .exact = (em, (k' : Int) - 1074) ∧
        0 < em.mantissa ∧ em.mantissa < 2 * hiddenBit ∧ (k' = 0 ∨ hiddenBit ≤ em.mantissa) ∧
        k' * hiddenBit + em.mantissa = k * hiddenBit + r := by
  refine ⟨_, _, shiftToTargetExponent_eq pos k, ?_⟩
  rw [mantissa_shiftRight, scale, log2_mul_two_pow pos]
  rw [hiddenBit_eq] at *
  rcases Nat.lt_or_ge r (2 * 2 ^ 52) with h | h
  · have hlog : r.log2 < 53 := (Nat.log2_lt pos.ne').mpr h
    have hnone : r.log2 + k - 52 - k = 0 := by omega
    have hmax : max k (r.log2 + k - 52) = k := by omega
    rw [hnone, hmax, Nat.pow_zero, Nat.div_one]
    exact ⟨pos, h, least, rfl⟩
  · obtain rfl : r = 2 ^ 53 := by omega
    have hone : 53 + k - 52 - k = 1 := by omega
    have hmax : max k (53 + k - 52) = k + 1 := by omega
    rw [Nat.log2_two_pow, hone, hmax]
    omega

/-- Rounding a mantissa that is not too short is rounding its value. -/
theorem isRounded_roundWithAccuracy (s : Sign) {m k : Nat} (pos : 0 < m)
    (fits : k ≤ scale (m * 2 ^ k)) :
    IsRounded s (m * 2 ^ k) (UnpackedFloat.roundWithAccuracy .binary64 s m (k - 1074) .exact) := by
  obtain ⟨hpos, hbelow, hleast⟩ := div_scale (Nat.mul_pos pos (Nat.two_pow_pos k))
  have hfirst := shiftToTargetExponent_eq pos k
  obtain ⟨n, hn⟩ := Nat.exists_eq_add_of_le fits
  have hquotient : m * 2 ^ k / 2 ^ (k + n) = m / 2 ^ n := by
    rw [Nat.add_comm k, Nat.pow_add, Nat.mul_div_mul_right _ _ (Nat.two_pow_pos k)]
  rw [hn, hquotient] at hpos hbelow hleast
  rw [hn, Nat.max_eq_right (Nat.le_add_right k n), Nat.add_sub_cancel_left] at hfirst
  have hrounds := rounds_roundedMantissa hbelow hleast
  have hmantissa := mantissa_shiftRight m n
  have hcases := roundedMantissa_eq (ExtendedMantissa.ofMantissaAndAccuracy m .exact >>> n)
  generalize ExtendedMantissa.ofMantissaAndAccuracy m .exact >>> n = first at *
  obtain ⟨second, k', hsecond, hpos', hbelow', hleast', heq⟩ :=
    exists_shiftToTargetExponent (r := first.roundedMantissa) (k := k + n) (by omega) (by omega)
      (by omega)
  unfold UnpackedFloat.roundWithAccuracy
  rw [hfirst]
  dsimp only
  rw [hsecond]
  dsimp only
  rw [dif_neg hpos'.ne']
  exact .intro hbelow' hleast' (by rw [heq]; exact hrounds)

/-- Rounding a mantissa is rounding its value. -/
theorem isRounded_round (s : Sign) {m : Nat} (pos : 0 < m) (k : Nat) :
    IsRounded s (m * 2 ^ k) (UnpackedFloat.round .binary64 s m (k - 1074)) := by
  unfold UnpackedFloat.round
  dsimp only [UnpackedFloat.decreaseExponent]
  rw [targetExponent_eq pos, Nat.shiftLeft_eq]
  generalize hK : scale (m * 2 ^ k) = K
  -- A mantissa that is too short is lengthened first.
  have hamount : ((k : Int) - 1074 - (K - 1074)).toNat = k - K := by omega
  have hexponent : (k : Int) - 1074 - (k - K : Nat) = (min k K : Nat) - 1074 := by omega
  have hvalue : m * 2 ^ (k - K) * 2 ^ min k K = m * 2 ^ k := by
    rw [Nat.mul_assoc, ← Nat.pow_add]
    congr 2
    omega
  rw [hamount, hexponent, ← hvalue]
  refine isRounded_roundWithAccuracy s (Nat.mul_pos pos (Nat.two_pow_pos _)) ?_
  rw [hvalue, hK]
  exact Nat.min_le_right k K

private theorem toNat_packComponents (s : Sign) (e : BitVec 11) (m : BitVec 52) :
    (packComponents .binary64 s e m).toNat =
      s.toBitVec.toNat * 2 ^ 63 + (e.toNat * hiddenBit + m.toNat) := by
  have hinner : (s.toBitVec ++ e).toNat = s.toBitVec.toNat * 2 ^ 11 + e.toNat := by
    rw [BitVec.toNat_append, ← Nat.shiftLeft_add_eq_or_of_lt e.isLt, Nat.shiftLeft_eq]
  have houter : (s.toBitVec ++ e ++ m).toNat = (s.toBitVec ++ e).toNat * 2 ^ 52 + m.toNat := by
    rw [BitVec.toNat_append, ← Nat.shiftLeft_add_eq_or_of_lt m.isLt, Nat.shiftLeft_eq]
  refine Eq.trans houter ?_
  rw [hinner, hiddenBit_eq]
  ring

private theorem level_pack {u : UnpackedFloat} {s : Sign} {e : BitVec 11} {m : BitVec 52}
    (h : UnpackedFloat.pack .binary64 u = packComponents .binary64 s e m) :
    level (.ofModel (.pack u)) = s.apply (e.toNat * hiddenBit + m.toNat : Nat) := by
  have hbits : (Float.ofModel (.pack u)).toBits.toNat =
      s.toBitVec.toNat * 2 ^ 63 + (e.toNat * hiddenBit + m.toNat) := by
    rw [← toNat_packComponents, ← h]
    rfl
  have hexponent : e.toNat < 2 ^ 11 := e.isLt
  have hmantissa : m.toNat < 2 ^ 52 := m.isLt
  rw [level_eq, hbits, hiddenBit_eq]
  cases s with
  | negative =>
    have hsign : Sign.negative.toBitVec.toNat = 1 := rfl
    rw [hsign, if_neg (by omega), Sign.apply]
    omega
  | positive =>
    have hsign : Sign.positive.toBitVec.toNat = 0 := rfl
    rw [hsign, if_pos (by omega), Sign.apply]
    omega

/-- Writing a mantissa and an exponent. -/
theorem pack_finite (s : Sign) {m : Nat} (k : Nat) (pos : 0 < m) :
    UnpackedFloat.pack .binary64 (.finite s m (k - 1074) pos) =
      if 2046 ≤ k then packComponents .binary64 s (-1#11) 0#52
      else if m.log2 = 52 then packComponents .binary64 s (.ofNat 11 (k + 1)) (.ofNat 52 m)
      else packComponents .binary64 s 0#11 (.ofNat 52 m) := by
  have hbiased : ((k : Int) - 1074 + (Format.binary64.exponentBias : Nat) +
      (Format.binary64.mantissaBitsWithoutImplicit : Nat)).toNat = k + 1 := by
    have hbias : (Format.binary64.exponentBias : Int) = 1023 := rfl
    have hbits : (Format.binary64.mantissaBitsWithoutImplicit : Int) = 52 := rfl
    omega
  have hlast : 2 ^ Format.binary64.exponentBits ≤ k + 1 + 1 ↔ 2046 ≤ k := by
    change 2048 ≤ k + 2 ↔ _
    omega
  have hlong : m.log2 + 1 = Format.binary64.mantissaBits ↔ m.log2 = 52 := Nat.succ_inj
  simp only [UnpackedFloat.pack, hbiased, hlast, hlong]
  rfl

private theorem level_pack_finite (s : Sign) {m k : Nat} {pos : 0 < m} (below : m < 2 * hiddenBit)
    (least : k = 0 ∨ hiddenBit ≤ m) : level (.ofModel (.pack (.finite s m (k - 1074) pos))) =
      s.apply (min (k * hiddenBit + m) infinityBits : Nat) := by
  have hpack := pack_finite s k pos
  rw [hiddenBit_eq] at below least
  split at hpack
  · next hlast =>
    rw [level_pack hpack, hiddenBit_eq, infinityBits_eq]
    congr 2
    change 2047 * 2 ^ 52 + 0 = _
    omega
  · next hlast =>
    split at hpack
    · next hlog =>
      have hm : 2 ^ 52 ≤ m := hlog ▸ Nat.log2_self_le pos.ne'
      rw [level_pack hpack, BitVec.toNat_ofNat, BitVec.toNat_ofNat, hiddenBit_eq, infinityBits_eq]
      congr 2
      omega
    · next hlog =>
      have hm : m < 2 ^ 52 := by
        by_contra hm
        exact hlog ((Nat.log2_eq_iff pos.ne').mpr (by omega))
      rw [level_pack hpack, BitVec.toNat_ofNat, BitVec.toNat_ofNat, hiddenBit_eq, infinityBits_eq]
      congr 2
      omega

/-- The level of what a value with a sign is rounded to. -/
theorem IsRounded.exists_level {s : Sign} {value : Nat} {u : UnpackedFloat}
    (h : IsRounded s value u) : ∃ b, Rounds value b ∧
      level (.ofModel (.pack u)) = s.apply (min b infinityBits : Nat) := by
  cases h with
  | intro below least rounds => exact ⟨_, rounds, level_pack_finite s below least⟩

private theorem level_pack_of_reads {u : UnpackedFloat} {s : Sign} {i : Nat} (h : Reads u s i)
    (number : i ≤ infinityBits) : level (.ofModel (.pack u)) = s.apply i := by
  cases h with
  | undefined above => omega
  | infinite => exact level_pack (e := -1#11) (m := 0#52) rfl
  | zero => exact level_pack (e := 0#11) (m := 0#52) rfl
  | finite _ below least bound =>
    rw [level_pack_finite s below least, Nat.min_eq_left bound.le]

private theorem rounds_zero : Rounds 0 0 :=
  rounds_down (m := 0) (k := 0) (by decide) (.inl rfl) (by decide) (by decide)

/-- A whole number is rounded by its size. -/
theorem exists_level_normalize (n : Int) (k : Nat) : ∃ b, Rounds (n * 2 ^ k).natAbs b ∧
    level (.ofModel (.pack (UnpackedFloat.normalize .binary64 n (k - 1074) .positive))) =
      (n * 2 ^ k).sign * (min b infinityBits : Nat) := by
  have hsign : (n * 2 ^ k).sign = n.sign := by
    rw [Int.sign_mul, Int.sign_eq_one_of_pos (Int.pow_pos (by decide)), Int.mul_one]
  have hsize : (n * 2 ^ k).natAbs = n.natAbs * 2 ^ k := by
    rw [Int.natAbs_mul, Int.natAbs_pow]
    rfl
  rw [hsign, hsize, UnpackedFloat.normalize]
  rcases Int.lt_trichotomy n 0 with h | rfl | h
  · have hround := isRounded_round .negative (show 0 < (-n).toNat by omega) k
    obtain ⟨b, hrounds, hlevel⟩ := hround.exists_level
    have htoNat : (-n).toNat = n.natAbs := by omega
    rw [Int.compare_eq_lt.mpr h, Int.sign_eq_neg_one_of_neg h]
    refine ⟨b, htoNat ▸ hrounds, hlevel.trans ?_⟩
    rw [Sign.apply, Int.neg_mul, Int.one_mul]
  · exact ⟨0, by simpa using rounds_zero, level_pack_of_reads (.zero .positive) (Nat.zero_le _)⟩
  · have hround := isRounded_round .positive (show 0 < n.toNat by omega) k
    obtain ⟨b, hrounds, hlevel⟩ := hround.exists_level
    have htoNat : n.toNat = n.natAbs := by omega
    rw [Int.compare_eq_gt.mpr h, Int.sign_eq_one_of_pos h]
    refine ⟨b, htoNat ▸ hrounds, hlevel.trans ?_⟩
    rw [Sign.apply, Int.one_mul]

private theorem apply_mul (s : Sign) (n d : Int) : s.apply (n * d) = s.apply n * d := by
  cases s with
  | negative => exact (Int.neg_mul n d).symm
  | positive => rfl

/-- The sum of two finite numbers is their exact sum, rounded. -/
theorem exists_level_add (s s' : Sign) {m m' : Nat} (k k' : Nat) (pos : 0 < m) (pos' : 0 < m')
    {sum : Int} (hsum : sum = s.apply (m * 2 ^ k : Nat) + s'.apply (m' * 2 ^ k' : Nat)) :
    ∃ b, Rounds sum.natAbs b ∧
      level (.ofModel (.pack (UnpackedFloat.add .binary64 (.finite s m (k - 1074) pos)
        (.finite s' m' (k' - 1074) pos')))) = sum.sign * (min b infinityBits : Nat) := by
  have hshift (a j : Nat) (hj : min k k' ≤ j) :
      a * 2 ^ j = a * 2 ^ (j - min k k') * 2 ^ min k k' := by
    rw [Nat.mul_assoc, ← Nat.pow_add, Nat.sub_add_cancel hj]
  have hexponent : min ((k : Int) - 1074) (k' - 1074) = (min k k' : Nat) - 1074 := by omega
  have hamount : ((k : Int) - 1074 - ((min k k' : Nat) - 1074)).toNat = k - min k k' := by omega
  have hamount' : ((k' : Int) - 1074 - ((min k k' : Nat) - 1074)).toNat = k' - min k k' := by omega
  have hcommon : sum = (s.apply (m * 2 ^ (k - min k k') : Nat) +
      s'.apply (m' * 2 ^ (k' - min k k') : Nat)) * 2 ^ min k k' := by
    rw [hsum, hshift m k (Nat.min_le_left k k'), hshift m' k' (Nat.min_le_right k k'),
      Int.add_mul, ← apply_mul, ← apply_mul]
    push_cast
    rfl
  rw [hcommon]
  simp only [UnpackedFloat.add, UnpackedFloat.decreaseExponent, hexponent, hamount, hamount',
    Nat.shiftLeft_eq]
  exact exists_level_normalize _ _

private theorem apply_le_of_rounds {s : Sign} {i b : Nat} {sum : Int} (pos : 0 < units i)
    (bound : i < infinityBits) (hle : s.apply (units i) ≤ sum) (rounds : Rounds sum.natAbs b) :
    s.apply i ≤ sum.sign * (min b infinityBits : Nat) := by
  cases s with
  | positive =>
    rw [Sign.apply] at *
    have hb : i ≤ b := rounds.le (by omega)
    rw [Int.sign_eq_one_of_pos (by omega)]
    omega
  | negative =>
    rw [Sign.apply] at *
    rcases Int.lt_trichotomy sum 0 with h | rfl | h
    · have hb : b ≤ i := rounds.ge (by omega)
      rw [Int.sign_eq_neg_one_of_neg h]
      omega
    · rw [Int.sign_zero]
      omega
    · rw [Int.sign_eq_one_of_pos h]
      omega

private theorem natAbs_apply_le {s : Sign} {i : Nat} (h : i ≤ infinityBits) :
    (s.apply i).natAbs ≤ infinityBits := by
  cases s <;> rw [Sign.apply] <;> omega

private theorem natAbs_sign_mul_le (sum : Int) (b : Nat) :
    (sum.sign * (min b infinityBits : Nat)).natAbs ≤ infinityBits := by
  have hsign : sum.sign.natAbs ≤ 1 := by
    rw [Int.natAbs_sign]
    split <;> omega
  rw [Int.natAbs_mul, Int.natAbs_natCast]
  exact (mul_le_of_le_one_left (Nat.zero_le _) hsign).trans (Nat.min_le_right _ _)

private theorem apply_nonneg {s : Sign} {i : Nat} (pos : 0 < i) (h : 0 ≤ s.apply i) (j : Nat) :
    0 ≤ s.apply j := by
  cases s with
  | negative =>
    rw [Sign.apply] at h
    omega
  | positive => exact Int.natCast_nonneg j

/-- Adding a finite number that is not negative does not lead down. -/
theorem le_level_add {u u' : UnpackedFloat} {s s' : Sign} {i j : Nat} (h : Reads u s i)
    (h' : Reads u' s' j) (number : i ≤ infinityBits) (less : s.apply i < infinityBits)
    (finite : j < infinityBits) (nonneg : 0 ≤ s'.apply j) :
    s.apply i ≤ level (.ofModel (.pack (u.add .binary64 u'))) ∧
      (level (.ofModel (.pack (u.add .binary64 u')))).natAbs ≤ infinityBits := by
  -- When one of the two is infinite or zero, the sum is one of them, written again.
  have again {v : UnpackedFloat} {t : Sign} {l : Nat} (hv : Reads v t l) (hl : l ≤ infinityBits)
      (hle : s.apply i ≤ t.apply l) : s.apply i ≤ level (.ofModel (.pack v)) ∧
        (level (.ofModel (.pack v))).natAbs ≤ infinityBits := by
    rw [level_pack_of_reads hv hl]
    exact ⟨hle, natAbs_apply_le hl⟩
  cases h with
  | undefined above => omega
  | infinite =>
    cases h' with
    | undefined above => omega
    | infinite => omega
    | zero => exact again (.infinite s) le_rfl le_rfl
    | finite => exact again (.infinite s) le_rfl le_rfl
  | zero =>
    have hzero : s.apply (0 : Nat) = 0 := by cases s <;> rfl
    cases h' with
    | undefined above => omega
    | infinite => omega
    | zero =>
      rw [UnpackedFloat.add]
      split
      · exact again (.zero s) number le_rfl
      · exact again (.zero .positive) number hzero.le
    | finite _ below' least' bound' =>
      exact again (.finite s' below' least' bound') bound'.le (hzero.trans_le nonneg)
  | @finite _ m k pos below least bound =>
    cases h' with
    | undefined above => omega
    | infinite => omega
    | zero => exact again (.finite s below least bound) bound.le le_rfl
    | @finite _ m' k' pos' below' least' bound' =>
      have hunits := units_eq below least
      have hpos : 0 < units (k * hiddenBit + m) := hunits ▸ Nat.mul_pos pos (Nat.two_pow_pos k)
      have hother := apply_nonneg (Nat.add_pos_right _ pos') nonneg (m' * 2 ^ k')
      obtain ⟨b, hrounds, hlevel⟩ := exists_level_add s s' k k' pos pos' rfl
      rw [hlevel]
      refine ⟨apply_le_of_rounds hpos bound ?_ hrounds, natAbs_sign_mul_le _ b⟩
      rw [hunits]
      exact Int.le_add_of_nonneg_right hother

private theorem isFinite_iff_of_reads {u : UnpackedFloat} {s : Sign} {i : Nat} (h : Reads u s i) :
    u.isFinite = true ↔ i < infinityBits := by
  cases h with
  | undefined above => simp [UnpackedFloat.isFinite, above.le]
  | infinite => simp [UnpackedFloat.isFinite]
  | zero => exact iff_of_true rfl (by decide)
  | finite _ _ _ bound => exact iff_of_true rfl bound

private theorem isFinite_iff {x : Float} : x.isFinite = true ↔ (level x).natAbs < infinityBits := by
  obtain ⟨s, hreads, -⟩ := reads_level x
  exact isFinite_iff_of_reads hreads

/-- Comparing the other way round. -/
theorem compare_swap (u u' : UnpackedFloat) : u'.compare u = (u.compare u').map Ordering.swap := by
  cases u with
  | notANumber => cases u' <;> rfl
  | infinity s =>
    cases u' with
    | notANumber => cases s <;> rfl
    | infinity s' => cases s <;> cases s' <;> rfl
    | zero => cases s <;> rfl
    | finite s' => cases s <;> cases s' <;> rfl
  | zero =>
    cases u' with
    | notANumber => rfl
    | infinity s' => cases s' <;> rfl
    | zero => rfl
    | finite s' => cases s' <;> rfl
  | finite s m e =>
    cases u' with
    | notANumber => cases s <;> rfl
    | infinity s' => cases s <;> cases s' <;> rfl
    | zero => cases s <;> rfl
    | finite s' m' e' =>
      have hswap : (compare e' e).then (compare m' m) =
          ((compare e e').then (compare m m')).swap := by
        rw [Ordering.swap_then, Int.compare_swap, Nat.compare_swap]
      cases s <;> cases s' <;> simp [UnpackedFloat.compare, hswap]

/-- A value is less than another one if it is at most the other one and not the other way round. -/
theorem lt_iff {x y : Float} : x < y ↔ x ≤ y ∧ ¬y ≤ x := by
  change decide (_ = true) = true ↔ decide (_ = true) = true ∧ ¬decide (_ = true) = true
  simp only [decide_eq_true_iff]
  change x.toModel.unpack.lt y.toModel.unpack = true ↔
    x.toModel.unpack.le y.toModel.unpack = true ∧ ¬y.toModel.unpack.le x.toModel.unpack = true
  rw [UnpackedFloat.lt, UnpackedFloat.le, UnpackedFloat.le, compare_swap x.toModel.unpack]
  cases x.toModel.unpack.compare y.toModel.unpack with
  | none => simp
  | some o => cases o <;> simp

private theorem lt_infinity_iff {x : Float} : x < Scalar.infinity ↔
    (level x).natAbs ≤ infinityBits ∧ level x < infinityBits := by
  have hinfinity : level (Scalar.infinity : Float) = infinityBits := by decide +kernel
  rw [lt_iff, le_iff, le_iff, hinfinity, Int.natAbs_natCast]
  omega

/-- The level of zero. -/
theorem level_zero : level (Scalar.zero : Float) = 0 := by decide +kernel

/-- Binary64 arithmetic is monotone. -/
instance : MonotoneScalar Float where
  le_trans := Scalar.Ranked.le_trans
  lt_iff := lt_iff
  le_total hx hy := by
    rw [lt_infinity_iff] at hx hy
    rw [le_iff, le_iff]
    omega
  trans_order := inferInstanceAs (Std.TransCmp (compareOn rank))
  order_of_lt {x y} h := by
    change compare (rank x) (rank y) = .lt
    rw [Int.compare_eq_lt]
    by_contra hnot
    rw [lt_iff, le_iff, le_iff] at h
    have hle := level_le_of_rank_le (not_lt.mp hnot)
    omega
  le_add {x y} hx hy hnonneg := by
    obtain ⟨s, hreads, hlevel⟩ := reads_level x
    obtain ⟨s', hreads', hlevel'⟩ := reads_level y
    rw [lt_infinity_iff, ← hlevel] at hx
    rw [le_iff, level_zero, ← hlevel'] at hnonneg
    have hsum := le_level_add hreads hreads' (by omega) hx.2 (isFinite_iff.mp hy) hnonneg.2
    rw [le_iff, ← hlevel]
    exact ⟨⟨hx.1, hsum.2⟩, hsum.1⟩

end DoorToDoor.Binary64
