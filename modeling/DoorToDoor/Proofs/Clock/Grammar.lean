import Mathlib.Data.List.TakeWhile
import DoorToDoor.Clock
import DoorToDoor.Proofs.Result

/-!
# The texts that are times

Which texts `Clock.parse` accepts, and as which times: `outcome_of_parse`. A time is written as
hours and minutes, with or without seconds, and blanks around it do not count. What follows a third
colon is not looked at, so that a text which is no written time may be accepted (`parse_overlong`).
-/

namespace DoorToDoor

namespace Text

/-- Whether dropping all blanks at both ends of a text leaves another one. -/
structure Trims (cs body : List Char) : Prop where
  around : ∃ front back, cs = front ++ body ++ back ∧ (∀ c ∈ front, isBlank c = true) ∧
    ∀ c ∈ back, isBlank c = true
  first : ∀ c ∈ body.head?, isBlank c = false
  last : ∀ c ∈ body.getLast?, isBlank c = false

private theorem trimFront_append {front rest : List Char} (blank : ∀ c ∈ front, isBlank c = true)
    (first : ∀ c ∈ rest.head?, isBlank c = false) : trimFront (front ++ rest) = rest := by
  rw [trimFront, List.dropWhile_append_of_pos blank]
  cases rest with
  | nil => rfl
  | cons c rest => exact List.dropWhile_cons_of_neg (by simp [first c rfl])

private theorem exists_append_trimFront (cs : List Char) :
    ∃ front, cs = front ++ trimFront cs ∧ ∀ c ∈ front, isBlank c = true :=
  ⟨cs.takeWhile isBlank, List.takeWhile_append_dropWhile.symm, fun _ hc ↦ List.mem_takeWhile_imp hc⟩

private theorem trims_trimmed (cs : List Char) : Trims cs (trimmed cs) := by
  obtain ⟨front, hfront, hblank⟩ := exists_append_trimFront cs
  obtain ⟨back, hback, hblank'⟩ := exists_append_trimFront (trimFront cs).reverse
  have hinner : trimFront cs = trimmed cs ++ back.reverse := by
    rw [trimmed, ← List.reverse_append, ← hback, List.reverse_reverse]
  constructor
  case around =>
    refine ⟨front, back.reverse, ?_, hblank, fun c hc ↦ hblank' c (List.mem_reverse.mp hc)⟩
    rw [List.append_assoc, ← hinner]
    exact hfront
  case first =>
    intro c hc
    refine head?_trimFront cs c ?_
    rw [hinner, List.head?_append, Option.mem_def.mp hc]
    rfl
  case last =>
    rw [trimmed, List.getLast?_reverse]
    exact head?_trimFront _

/-- Nothing else is left when the blanks at both ends are dropped. -/
theorem Trims.eq {cs body : List Char} (h : Trims cs body) : trimmed cs = body := by
  obtain ⟨⟨front, back, rfl, hfront, hback⟩, hfirst, hlast⟩ := h
  have hback' : ∀ c ∈ back.reverse, isBlank c = true := fun c hc ↦ hback c (List.mem_reverse.mp hc)
  rw [trimmed, List.append_assoc]
  cases body with
  | nil =>
    have hall : trimFront (front ++ back ++ []) = [] :=
      trimFront_append (fun c hc ↦ (List.mem_append.mp hc).elim (hfront c) (hback c)) nofun
    rw [List.append_nil] at hall
    rw [List.nil_append, hall]
    rfl
  | cons c body =>
    have hlast' : ∀ d ∈ (c :: body).reverse.head?, isBlank d = false := by
      rw [List.head?_reverse]
      exact hlast
    rw [trimFront_append hfront (by simpa using hfirst), List.reverse_append,
      trimFront_append hback' hlast', List.reverse_reverse]

end Text

namespace Numeral

/-- Whether a text is one decimal digit or more. -/
def IsDigits (cs : List Char) : Prop := cs ≠ [] ∧ ∀ c ∈ cs, c.isDigit = true

/-- Whether a text is a decimal natural number, and which one. A plus sign may stand in front of the
digits. -/
inductive IsDecimal : List Char → Nat → Prop
  | unsigned {digits : List Char} (h : IsDigits digits) :
    IsDecimal digits (Nat.ofDigitChars 10 digits 0)
  | signed {digits : List Char} (h : IsDigits digits) :
    IsDecimal ('+' :: digits) (Nat.ofDigitChars 10 digits 0)

private theorem IsDecimal.isDigit_or_eq {cs : List Char} {n : Nat} (h : IsDecimal cs n) :
    ∀ c ∈ cs, c.isDigit = true ∨ c = '+' := by
  cases h with
  | unsigned h => exact fun c hc ↦ .inl (h.2 c hc)
  | signed h => exact List.forall_mem_cons.mpr ⟨.inr rfl, fun c hc ↦ .inl (h.2 c hc)⟩

private theorem digitValue?_ten (c : Char) :
    digitValue? 10 c = if c.isDigit then some (c.toNat - '0'.toNat) else none := by
  have hdigit : '0' ≤ c ∧ c ≤ '9' ↔ c.isDigit = true := Char.isDigit_iff_toNat.symm
  -- Letters stand for ten and more.
  have hletter (d : Nat) : (some (d + 10)).filter (fun x ↦ decide (x < 10)) = none :=
    Option.filter_some_neg (by simp)
  rw [digitValue?]
  by_cases hc : c.isDigit = true
  · have hless : c.toNat - '0'.toNat < 10 := by
      have hnine : c.toNat ≤ 57 := (Char.isDigit_iff_toNat.mp hc).2
      change c.toNat - 48 < 10
      omega
    rw [if_pos (hdigit.mpr hc), if_pos hc]
    exact Option.filter_some_pos (decide_eq_true hless)
  · rw [if_neg (mt hdigit.mp hc), if_neg hc]
    split
    · exact hletter _
    · split
      · exact hletter _
      · rfl

private theorem readDigits_eq_ok_iff {bound value n : Nat} (cs : List Char)
    (below : value < bound) :
    readDigits 10 bound value cs = .ok n ↔
      (∀ c ∈ cs, c.isDigit = true) ∧ Nat.ofDigitChars 10 cs value = n ∧ n < bound := by
  induction cs generalizing value with
  | nil =>
    rw [readDigits, Nat.ofDigitChars_nil]
    constructor
    · rintro ⟨⟩
      exact ⟨nofun, rfl, below⟩
    · rintro ⟨-, rfl, -⟩
      rfl
  | cons c rest ih =>
    rw [readDigits, digitValue?_ten, Nat.ofDigitChars_cons, List.forall_mem_cons]
    have hstep : 10 * value + (c.toNat - '0'.toNat) ≤
        Nat.ofDigitChars 10 rest (10 * value + (c.toNat - '0'.toNat)) := by
      rw [Nat.ofDigitChars_eq_ofDigitChars_zero]
      exact (Nat.le_mul_of_pos_left _ (Nat.pow_pos (by decide))).trans (Nat.le_add_right _ _)
    by_cases hc : c.isDigit = true
    · rw [if_pos hc, Nat.mul_comm value]
      dsimp only
      split
      · next hbelow => rw [ih hbelow, and_iff_right hc]
      · next habove =>
        -- More digits do not bring the value back below the bound.
        refine iff_of_false nofun ?_
        rintro ⟨-, hvalue, hn⟩
        omega
    · rw [if_neg hc]
      exact iff_of_false nofun fun h ↦ hc h.1.1

private theorem IsDigits.head_ne {c : Char} {rest : List Char} (h : IsDigits (c :: rest)) :
    c ≠ '+' ∧ c ≠ '-' := by
  have hc := h.2 c List.mem_cons_self
  constructor
  · rintro rfl
    exact absurd hc (by decide)
  · rintro rfl
    exact absurd hc (by decide)

/-- A natural number is read from a decimal number below the bound, and from nothing else. -/
theorem readNat_eq_ok_iff {bound n : Nat} (pos : 0 < bound) {cs : List Char} :
    readNat 10 bound cs = .ok n ↔ IsDecimal cs n ∧ n < bound := by
  unfold readNat
  split
  · next =>
    refine iff_of_false nofun fun h ↦ ?_
    cases h.1 with
    | unsigned hdigits => exact hdigits.1 rfl
  · next =>
    refine iff_of_false nofun fun h ↦ ?_
    cases h.1 with
    | unsigned hdigits => exact hdigits.head_ne.1 rfl
    | signed hdigits => exact hdigits.1 rfl
  · next =>
    refine iff_of_false nofun fun h ↦ ?_
    cases h.1 with
    | unsigned hdigits => exact hdigits.head_ne.2 rfl
  · next rest hne =>
    rw [readDigits_eq_ok_iff rest pos]
    constructor
    · rintro ⟨hdigits, rfl, hn⟩
      exact ⟨.signed ⟨hne, hdigits⟩, hn⟩
    · rintro ⟨h, hn⟩
      cases h with
      | unsigned h => exact absurd rfl h.head_ne.1
      | signed h => exact ⟨h.2, rfl, hn⟩
  · next hne _ _ hunsigned =>
    rw [readDigits_eq_ok_iff cs pos]
    constructor
    · rintro ⟨hdigits, rfl, hn⟩
      exact ⟨.unsigned ⟨hne, hdigits⟩, hn⟩
    · rintro ⟨h, hn⟩
      cases h with
      | unsigned h => exact ⟨h.2, rfl, hn⟩
      | signed h => exact absurd rfl (hunsigned _)

end Numeral

namespace Clock

section

variable {separator : Char} {cs part rest : List Char}

private theorem cut_of_not_mem (h : separator ∉ cs) : cut separator cs = [cs] := by
  induction cs with
  | nil => rfl
  | cons c rest ih =>
    rw [List.mem_cons, not_or] at h
    rw [cut, if_neg (Ne.symm h.1), ih h.2]

private theorem cut_append (h : separator ∉ part) :
    cut separator (part ++ separator :: rest) = part :: cut separator rest := by
  induction part with
  | nil => exact if_pos rfl
  | cons c part ih =>
    rw [List.mem_cons, not_or] at h
    rw [List.cons_append, cut, if_neg (Ne.symm h.1), ih h.2]

/-- A text is one part, or it is cut at the first separator and what stands behind it is cut
again. -/
theorem cut_cases (separator : Char) (cs : List Char) :
    separator ∉ cs ∧ cut separator cs = [cs] ∨
      ∃ part rest, cs = part ++ separator :: rest ∧
        cut separator cs = part :: cut separator rest := by
  by_cases h : separator ∈ cs
  · obtain ⟨part, rest, rfl, hpart⟩ := List.eq_append_cons_of_mem h
    exact .inr ⟨part, rest, rfl, cut_append hpart⟩
  · exact .inl ⟨h, cut_of_not_mem h⟩

end

open Numeral (IsDecimal wordBound)

/-- Hours and minutes with a colon between them, and the seconds that they make. -/
inductive IsShort : List Char → Nat → Prop
  | intro {hours minutes : List Char} {h m : Nat} (hhours : IsDecimal hours h) (hh : h < wordBound)
    (hminutes : IsDecimal minutes m) (hm : m < 60) :
    IsShort (hours ++ ':' :: minutes) (Clock.seconds h m 0)

/-- Hours, minutes and seconds with colons between them, and the seconds that they make. -/
inductive IsFull : List Char → Nat → Prop
  | intro {hours minutes seconds : List Char} {h m s : Nat} (hhours : IsDecimal hours h)
    (hh : h < wordBound) (hminutes : IsDecimal minutes m) (hm : m < 60)
    (hseconds : IsDecimal seconds s) (hs : s < 60) :
    IsFull (hours ++ ':' :: (minutes ++ ':' :: seconds)) (Clock.seconds h m s)

/-- A field is a decimal number below the bound. -/
theorem readField_eq_ok_iff {field : Field} {cs : List Char} {n : Nat} :
    readField field cs = .ok n ↔ IsDecimal cs n ∧ n < wordBound := by
  rw [← Numeral.readNat_eq_ok_iff (by decide), readField]
  split
  · next k hk => rw [hk, Except.ok.injEq, Except.ok.injEq]
  · next reason hreason => exact iff_of_false nofun (by rw [hreason]; exact nofun)

private theorem secondsOfParts_singleton {part : List Char} {n : Nat} :
    secondsOfParts [part] ≠ .ok n := by
  intro h
  obtain ⟨_, -, hmissing⟩ := Result.bind_eq_ok.mp h
  cases hmissing

private theorem inRange_eq_ok_iff {h m s n : Nat} :
    (if 60 ≤ m ∨ 60 ≤ s then .error Fault.outOfRange else .ok (seconds h m s)) =
      (.ok n : Except Fault Nat) ↔ m < 60 ∧ s < 60 ∧ seconds h m s = n := by
  split
  · exact iff_of_false nofun (by omega)
  · rw [Except.ok.injEq]
    omega

/-- The first two parts have to be hours and minutes, and a third one seconds. Those behind it may
be anything. -/
theorem secondsOfParts_eq_ok_iff {hours minutes : List Char} {rest : List (List Char)} {n : Nat} :
    secondsOfParts (hours :: minutes :: rest) = .ok n ↔
      ∃ h m, (IsDecimal hours h ∧ h < wordBound) ∧ (IsDecimal minutes m ∧ m < 60) ∧
        (rest = [] ∧ seconds h m 0 = n ∨
          ∃ part more s, rest = part :: more ∧ (IsDecimal part s ∧ s < 60) ∧
            seconds h m s = n) := by
  have hbound : 60 ≤ wordBound := by decide
  unfold secondsOfParts
  simp only [List.getElem?_cons_zero, List.getElem?_cons_succ, Result.bind_eq_ok,
    readField_eq_ok_iff]
  cases rest with
  | nil =>
    constructor
    · rintro ⟨h, hhours, m, hminutes, hrange⟩
      obtain ⟨hm, -, hn⟩ := inRange_eq_ok_iff.mp hrange
      exact ⟨h, m, hhours, ⟨hminutes.1, hm⟩, .inl ⟨rfl, hn⟩⟩
    · rintro ⟨h, m, hhours, ⟨hminutes, hm⟩, ⟨-, hn⟩ | ⟨_, _, _, ⟨⟩, _⟩⟩
      exact ⟨h, hhours, m, ⟨hminutes, by omega⟩, inRange_eq_ok_iff.mpr ⟨hm, by decide, hn⟩⟩
  | cons part more =>
    simp only [List.getElem?_cons_zero, Result.bind_eq_ok, readField_eq_ok_iff]
    constructor
    · rintro ⟨h, hhours, m, hminutes, s, hseconds, hrange⟩
      obtain ⟨hm, hs, hn⟩ := inRange_eq_ok_iff.mp hrange
      exact ⟨h, m, hhours, ⟨hminutes.1, hm⟩, .inr ⟨part, more, s, rfl, ⟨hseconds.1, hs⟩, hn⟩⟩
    · rintro ⟨h, m, hhours, ⟨hminutes, hm⟩, ⟨⟨⟩, _⟩ | ⟨_, _, s, ⟨⟩, ⟨hseconds, hs⟩, hn⟩⟩
      exact ⟨h, hhours, m, ⟨hminutes, by omega⟩, s, ⟨hseconds, by omega⟩,
        inRange_eq_ok_iff.mpr ⟨hm, hs, hn⟩⟩

/-- Whether a text is accepted as a time, and as how many seconds: a time without or with seconds,
or one with seconds that a colon and anything else follow. -/
inductive Accepts : List Char → Nat → Prop
  | short {cs : List Char} {n : Nat} (h : IsShort cs n) : Accepts cs n
  | full {cs : List Char} {n : Nat} (h : IsFull cs n) : Accepts cs n
  | overlong {cs rest : List Char} {n : Nat} (h : IsFull cs n) : Accepts (cs ++ ':' :: rest) n

private theorem colon_not_mem {cs : List Char} {n : Nat} (h : IsDecimal cs n) : ':' ∉ cs := by
  intro hmem
  rcases h.isDigit_or_eq ':' hmem with hdigit | heq
  · exact absurd hdigit (by decide)
  · exact absurd heq (by decide)

/-- The parts of a text are read as a time if the text is accepted as one. -/
theorem secondsOfParts_cut_eq_ok_iff {cs : List Char} {n : Nat} :
    secondsOfParts (cut ':' cs) = .ok n ↔ Accepts cs n := by
  constructor
  · intro h
    rcases cut_cases ':' cs with ⟨-, hcut⟩ | ⟨hours, cs, rfl, hcut⟩
    · exact absurd (hcut ▸ h) secondsOfParts_singleton
    rw [hcut] at h
    rcases cut_cases ':' cs with ⟨-, hcut⟩ | ⟨minutes, cs, rfl, hcut⟩
    · rw [hcut, secondsOfParts_eq_ok_iff] at h
      obtain ⟨h, m, hhours, hminutes, ⟨-, rfl⟩ | ⟨_, _, _, ⟨⟩, _⟩⟩ := h
      exact .short (.intro hhours.1 hhours.2 hminutes.1 hminutes.2)
    rw [hcut, secondsOfParts_eq_ok_iff] at h
    rcases cut_cases ':' cs with ⟨-, hcut⟩ | ⟨seconds, cs, rfl, hcut⟩
    · rw [hcut] at h
      obtain ⟨h, m, hhours, hminutes, ⟨⟨⟩, _⟩ | ⟨_, _, s, ⟨⟩, hseconds, rfl⟩⟩ := h
      exact .full (.intro hhours.1 hhours.2 hminutes.1 hminutes.2 hseconds.1 hseconds.2)
    · rw [hcut] at h
      obtain ⟨h, m, hhours, hminutes, ⟨⟨⟩, _⟩ | ⟨_, _, s, ⟨⟩, hseconds, rfl⟩⟩ := h
      have hfull := IsFull.intro hhours.1 hhours.2 hminutes.1 hminutes.2 hseconds.1 hseconds.2
      simpa only [List.append_assoc, List.cons_append] using Accepts.overlong hfull
  · intro h
    cases h with
    | short h =>
      cases h with
      | intro hhours hh hminutes hm =>
        rw [cut_append (colon_not_mem hhours), cut_of_not_mem (colon_not_mem hminutes),
          secondsOfParts_eq_ok_iff]
        exact ⟨_, _, ⟨hhours, hh⟩, ⟨hminutes, hm⟩, .inl ⟨rfl, rfl⟩⟩
    | full h =>
      cases h with
      | intro hhours hh hminutes hm hseconds hs =>
        rw [cut_append (colon_not_mem hhours), cut_append (colon_not_mem hminutes),
          cut_of_not_mem (colon_not_mem hseconds), secondsOfParts_eq_ok_iff]
        exact ⟨_, _, ⟨hhours, hh⟩, ⟨hminutes, hm⟩, .inr ⟨_, _, _, rfl, ⟨hseconds, hs⟩, rfl⟩⟩
    | overlong h =>
      cases h with
      | intro hhours hh hminutes hm hseconds hs =>
        simp only [List.append_assoc, List.cons_append]
        rw [cut_append (colon_not_mem hhours), cut_append (colon_not_mem hminutes),
          cut_append (colon_not_mem hseconds), secondsOfParts_eq_ok_iff]
        exact ⟨_, _, ⟨hhours, hh⟩, ⟨hminutes, hm⟩, .inr ⟨_, _, _, rfl, ⟨hseconds, hs⟩, rfl⟩⟩

/-- A text is read as a time if it is accepted as one without the blanks at its ends. -/
theorem parseSeconds_eq_ok_iff {text : String} {n : Nat} :
    parseSeconds text = .ok n ↔ ∃ body, Text.Trims text.toList body ∧ Accepts body n := by
  have hparts : parseSeconds text = .ok n ↔
      secondsOfParts (cut ':' (Text.trimmed text.toList)) = .ok n := by
    rw [parseSeconds]
    split
    · next k hk => rw [hk, Except.ok.injEq, Except.ok.injEq]
    · next fault hfault => exact iff_of_false nofun (by rw [hfault]; exact nofun)
  rw [hparts, secondsOfParts_cut_eq_ok_iff]
  constructor
  · exact fun h ↦ ⟨_, Text.trims_trimmed _, h⟩
  · rintro ⟨body, htrims, h⟩
    rwa [htrims.eq]

variable {α : Type} [Scalar α]

/-- A text is read as a time if it is accepted as one without the blanks at its ends, and the time
is the number of seconds that are written. Every other text is refused. -/
theorem outcome_of_parse (text : String) :
    (∀ t : α, parse text = .ok t ↔
      ∃ body n, Text.Trims text.toList body ∧ Accepts body n ∧ t = Scalar.ofNat n) ∧
    ((∃ fault, (parse text : Except ParseError α) = .error ⟨text, fault⟩) ↔
      ¬∃ body n, Text.Trims text.toList body ∧ Accepts body n) := by
  constructor
  · intro t
    rw [parse, Result.map_eq_ok]
    constructor
    · rintro ⟨n, hn, rfl⟩
      obtain ⟨body, htrims, haccepts⟩ := parseSeconds_eq_ok_iff.mp hn
      exact ⟨body, n, htrims, haccepts, rfl⟩
    · rintro ⟨body, n, htrims, haccepts, rfl⟩
      exact ⟨n, parseSeconds_eq_ok_iff.mpr ⟨body, htrims, haccepts⟩, rfl⟩
  · simp only [parse, Result.map_eq_error]
    constructor
    · rintro ⟨fault, hfault⟩ ⟨body, n, h⟩
      rw [parseSeconds_eq_ok_iff.mpr ⟨body, h⟩] at hfault
      cases hfault
    · intro hnone
      cases hparse : parseSeconds text with
      | ok n =>
        obtain ⟨body, h⟩ := parseSeconds_eq_ok_iff.mp hparse
        exact absurd ⟨body, n, h⟩ hnone
      | error e =>
        rw [parseSeconds] at hparse
        split at hparse
        · cases hparse
        · next fault _ =>
          cases hparse
          exact ⟨fault, rfl⟩

private theorem count_colon_le {cs : List Char} {n : Nat} (h : IsShort cs n ∨ IsFull cs n) :
    cs.count ':' ≤ 2 := by
  rcases h with ⟨hhours, -, hminutes, -⟩ | ⟨hhours, -, hminutes, -, hseconds, -⟩
  · simp [List.count_eq_zero_of_not_mem (colon_not_mem hhours),
      List.count_eq_zero_of_not_mem (colon_not_mem hminutes)]
  · simp [List.count_eq_zero_of_not_mem (colon_not_mem hhours),
      List.count_eq_zero_of_not_mem (colon_not_mem hminutes),
      List.count_eq_zero_of_not_mem (colon_not_mem hseconds)]

/-- What follows a third colon is not looked at. -/
theorem parse_overlong : parse "08:00:00:junk" = .ok (Scalar.ofNat 28800 : Float) ∧
    ¬∃ body n, Text.Trims "08:00:00:junk".toList body ∧ (IsShort body n ∨ IsFull body n) := by
  constructor
  · have hseconds : parseSeconds "08:00:00:junk" = .ok 28800 := by decide
    rw [parse, hseconds]
    rfl
  · rintro ⟨body, n, htrims, h⟩
    have hcount := count_colon_le h
    rw [← htrims.eq] at hcount
    exact absurd hcount (by decide)

end Clock

end DoorToDoor
