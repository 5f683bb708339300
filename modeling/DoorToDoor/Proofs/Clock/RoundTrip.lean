import DoorToDoor.Proofs.Clock.Grammar
import DoorToDoor.Proofs.WholeNumbers

/-!
# Writing times and reading them again

A written time is read as the time that was written, without the fraction of a second that writing
drops: `roundTrips_binary64`. All times that can be read are whole numbers of seconds that binary64
holds exactly.
-/

namespace DoorToDoor

open Numeral (IsDigits IsDecimal wordBound)

private theorem Text.trims_self {cs : List Char} (h : ∀ c ∈ cs, isBlank c = false) : Trims cs cs :=
  ⟨⟨[], [], (List.append_nil cs).symm, nofun, nofun⟩, fun c hc ↦ h c (List.mem_of_mem_head? hc),
    fun c hc ↦ h c (List.mem_of_mem_getLast? hc)⟩

private theorem Text.isBlank_of_isDigit {c : Char} (h : c.isDigit = true) : isBlank c = false := by
  obtain ⟨hzero, hnine⟩ := Char.isDigit_iff_toNat.mp h
  change 48 ≤ c.toNat at hzero
  change c.toNat ≤ 57 at hnine
  simp only [isBlank, Bool.or_eq_false_iff, Bool.and_eq_false_imp, decide_eq_true_eq,
    decide_eq_false_iff_not, not_le, beq_eq_false_iff_ne, ne_eq]
  omega

private theorem Text.toList_twoDigits (n : Nat) : (twoDigits n).toList =
    List.replicate (2 - (Nat.toDigits 10 n).length) '0' ++ Nat.toDigits 10 n := by
  simp [twoDigits, padFront]

private theorem Text.isDigits_twoDigits (n : Nat) : IsDigits (twoDigits n).toList := by
  rw [toList_twoDigits]
  constructor
  · simp [Nat.toDigits_ne_nil]
  · intro c hc
    rcases List.mem_append.mp hc with hc | hc
    · rw [List.eq_of_mem_replicate hc]
      rfl
    · exact Nat.isDigit_of_mem_toDigits (by decide) (by decide) hc

private theorem Text.isDecimal_twoDigits (n : Nat) : IsDecimal (twoDigits n).toList n := by
  have hvalue : Nat.ofDigitChars 10 (twoDigits n).toList 0 = n := by
    rw [toList_twoDigits, Nat.ofDigitChars_append, Nat.ofDigitChars_replicate_zero, Nat.mul_zero,
      Nat.ofDigitChars_ten_toDigits]
  have h := IsDecimal.unsigned (isDigits_twoDigits n)
  rwa [hvalue] at h

namespace Clock

/-- All times that can be read are less than this number of seconds. -/
def limit : Nat := 3600 * wordBound

private theorem toList_textOfSeconds (n : Nat) : (textOfSeconds n).toList =
    (Text.twoDigits (n / 3600)).toList ++ ':' :: ((Text.twoDigits (n % 3600 / 60)).toList ++
      ':' :: (Text.twoDigits (n % 60)).toList) := by
  simp [textOfSeconds]

/-- Seconds are written as a time in full. -/
theorem isFull_textOfSeconds {n : Nat} (h : n < limit) : IsFull (textOfSeconds n).toList n := by
  have hseconds : seconds (n / 3600) (n % 3600 / 60) (n % 60) = n := by
    rw [seconds]
    omega
  have hfull := IsFull.intro (Text.isDecimal_twoDigits (n / 3600)) (Nat.div_lt_of_lt_mul h)
    (Text.isDecimal_twoDigits (n % 3600 / 60)) (by omega) (Text.isDecimal_twoDigits (n % 60))
    (by omega)
  rwa [hseconds, ← toList_textOfSeconds] at hfull

private theorem trims_textOfSeconds (n : Nat) :
    Text.Trims (textOfSeconds n).toList (textOfSeconds n).toList := by
  refine Text.trims_self fun c hc ↦ ?_
  have hdigits (k : Nat) (hc : c ∈ (Text.twoDigits k).toList) : Text.isBlank c = false :=
    Text.isBlank_of_isDigit ((Text.isDigits_twoDigits k).2 c hc)
  rw [toList_textOfSeconds] at hc
  simp only [List.mem_append, List.mem_cons] at hc
  rcases hc with hc | rfl | hc | rfl | hc
  · exact hdigits _ hc
  · rfl
  · exact hdigits _ hc
  · rfl
  · exact hdigits _ hc

/-- Seconds that are written are read again. -/
theorem parseSeconds_textOfSeconds {n : Nat} (h : n < limit) :
    parseSeconds (textOfSeconds n) = .ok n :=
  parseSeconds_eq_ok_iff.mpr ⟨_, trims_textOfSeconds n, .full (isFull_textOfSeconds h)⟩

private theorem Accepts.lt_limit {cs : List Char} {n : Nat} (h : Accepts cs n) : n < limit := by
  have hless {h m s : Nat} (hh : h < wordBound) (hm : m < 60) (hs : s < 60) :
      seconds h m s < limit := by
    rw [seconds, limit]
    omega
  cases h with
  | short h =>
    cases h with
    | intro _ hh _ hm => exact hless hh hm (by decide)
  | full h =>
    cases h with
    | intro _ hh _ hm _ hs => exact hless hh hm hs
  | overlong h =>
    cases h with
    | intro _ hh _ hm _ hs => exact hless hh hm hs

/-- Times are written so that they can be read again. -/
structure RoundTrips (α : Type) [Scalar α] : Prop where
  /-- No whole number of seconds is changed by being a time. -/
  exact : ∀ n < limit, Scalar.wholePart (Scalar.ofNat n : α) = n
  /-- Whole numbers of seconds are read as they were written. -/
  whole : ∀ n < limit, parse (text (Scalar.ofNat n : α)) = .ok (Scalar.ofNat n : α)
  /-- From any other time that is not negative, the last whole number of seconds before it is
  read. -/
  floor : ∀ t : α, Scalar.zero ≤ t → t < Scalar.ofNat limit → ∃ n < limit,
    Scalar.ofNat n ≤ t ∧ t < Scalar.ofNat (n + 1) ∧ parse (text t) = .ok (Scalar.ofNat n : α)
  /-- Writing a time that was read gives a text from which it is read again. -/
  again : ∀ (written : String) (t : α), parse written = .ok t → parse (text t) = .ok t

/-- Times in binary64 numbers are written so that they can be read again. -/
theorem roundTrips_binary64 : RoundTrips Float := by
  have hexact : ∀ n < limit, Scalar.wholePart (Scalar.ofNat n : Float) = n :=
    fun n hn ↦ Binary64.wholePart_ofNat (hn.trans (by decide))
  have hwhole : ∀ n < limit, parse (text (Scalar.ofNat n : Float)) =
      .ok (Scalar.ofNat n : Float) := by
    intro n hn
    rw [text, hexact n hn, parse, parseSeconds_textOfSeconds hn]
    rfl
  constructor
  case exact => exact hexact
  case whole => exact hwhole
  case floor =>
    intro t hnonneg hless
    obtain ⟨hlt, hle, hnext⟩ :=
      Binary64.wholePart_between (n := limit) (by decide) hnonneg hless
    refine ⟨_, hlt, hle, hnext, ?_⟩
    rw [text, parse, parseSeconds_textOfSeconds hlt]
    rfl
  case again =>
    intro written t h
    rw [parse, Result.map_eq_ok] at h
    obtain ⟨n, hn, rfl⟩ := h
    obtain ⟨body, -, haccepts⟩ := parseSeconds_eq_ok_iff.mp hn
    exact hwhole n haccepts.lt_limit

/-- A time in the night after the simulated day is written with all of its hours. The half second
that it has is dropped, so that what is read lies less than a second below. -/
theorem roundTrips_binary64_night : text (93784.5 : Float) = "26:03:04" ∧
    (∃ n < limit, Scalar.ofNat n ≤ (93784.5 : Float) ∧ (93784.5 : Float) < Scalar.ofNat (n + 1) ∧
      parse (text (93784.5 : Float)) = .ok (Scalar.ofNat n : Float)) :=
  ⟨by decide +kernel, roundTrips_binary64.floor 93784.5 (by decide +kernel) (by decide +kernel)⟩

end Clock

end DoorToDoor
