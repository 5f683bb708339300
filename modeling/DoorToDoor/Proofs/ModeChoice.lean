import DoorToDoor.Proofs.Ranks
import DoorToDoor.Access.ByDistance

/-!
# Which mode a distance gets

Modes are given in any order. A distance gets the one with the least limit that covers it, the first
given of those with this limit; a distance beyond all limits gets the one with the greatest limit,
the last given of those (`AccessByDistance.leg_withModes`). Limits stand in the order of sorting,
which is the order by size unless zeros of different sign are given
(`AccessByDistance.car_of_signedZeros`).
-/

namespace DoorToDoor

namespace Limit

variable {α : Type} [Scalar α]

/-- Whether a limit is a number, which may be infinite. -/
def IsNumber : Limit α → Prop
  | .upTo a => a ≤ a
  | .nowhere => False

/-- Whether the first of two limits is a number not above the second. -/
def AtMost : Limit α → Limit α → Prop
  | .upTo a, .upTo b => a ≤ b
  | _, _ => False

instance : DecidablePred (IsNumber : Limit α → Prop)
  | .upTo a => inferInstanceAs (Decidable (a ≤ a))
  | .nowhere => inferInstanceAs (Decidable False)

instance : DecidableRel (AtMost : Limit α → Limit α → Prop)
  | .upTo a, .upTo b => inferInstanceAs (Decidable (a ≤ b))
  | .upTo _, .nowhere => inferInstanceAs (Decidable False)
  | .nowhere, _ => inferInstanceAs (Decidable False)

variable [Scalar.Ranked α] {x y z : Limit α}

private theorem before_trans (hxy : x.before y = true) (hyz : y.before z = true) :
    x.before z = true := by
  cases x with
  | nowhere => rfl
  | upTo a =>
    cases y with
    | nowhere => exact absurd hxy Bool.false_ne_true
    | upTo b =>
      cases z with
      | nowhere => exact absurd hyz Bool.false_ne_true
      | upTo c => exact Scalar.Ranked.before_trans hxy hyz

private theorem before_total (x y : Limit α) : x.before y = true ∨ y.before x = true := by
  cases x with
  | nowhere => exact .inl rfl
  | upTo a =>
    cases y with
    | nowhere => exact .inr rfl
    | upTo b => exact Scalar.Ranked.before_total a b

private theorem before_refl (x : Limit α) : x.before x = true := (before_total x x).elim id id

private theorem before_antisymm (hxy : x.before y = true) (hyx : y.before x = true) : x = y := by
  cases x with
  | nowhere =>
    cases y with
    | nowhere => rfl
    | upTo b => exact absurd hyx Bool.false_ne_true
  | upTo a =>
    cases y with
    | nowhere => exact absurd hxy Bool.false_ne_true
    | upTo b => rw [Scalar.Ranked.before_antisymm hxy hyx]

private theorem atMost_of_before (hx : x.IsNumber) (hy : y.IsNumber) (h : x.before y = true) :
    x.AtMost y := by
  cases x with
  | nowhere => exact hx.elim
  | upTo a =>
    cases y with
    | nowhere => exact hy.elim
    | upTo b => exact Scalar.Ranked.le_of_before hx hy h

private theorem before_iff_atMost (hx : x.IsNumber) (hy : y.IsNumber)
    (antisymm : x.AtMost y → y.AtMost x → x = y) : x.before y = true ↔ x.AtMost y := by
  refine ⟨atMost_of_before hx hy, fun h ↦ ?_⟩
  rcases before_total x y with hxy | hyx
  · exact hxy
  · rw [antisymm h (atMost_of_before hy hx hyx)]
    exact before_refl y

private theorem covers_of_le {s t : α} (hst : s ≤ t) (h : x.covers t = true) :
    x.covers s = true := by
  cases x with
  | nowhere => exact h
  | upTo a =>
    exact decide_eq_true (Scalar.Ranked.le_trans hst (of_decide_eq_true h))

end Limit

private theorem eq_or_mem_of_append_cons_eq {β : Type} {b c b' c' : List β} {a a' : β}
    (h : b ++ a :: c = b' ++ a' :: c') : a = a' ∨ a ∈ b' ∧ a' ∈ c ∨ a' ∈ b ∧ a ∈ c' := by
  rcases List.append_eq_append_iff.mp h with ⟨between, hb, hrest⟩ | ⟨between, hb, hrest⟩
  · cases between with
    | nil => exact .inl (List.cons.inj hrest).1
    | cons x between =>
      obtain ⟨rfl, hc⟩ := List.cons.inj hrest
      exact .inr (.inl ⟨hb ▸ by simp, hc ▸ by simp⟩)
  · cases between with
    | nil => exact .inl (List.cons.inj hrest).1.symm
    | cons x between =>
      obtain ⟨rfl, hc⟩ := List.cons.inj hrest
      exact .inr (.inr ⟨hb ▸ by simp, hc ▸ by simp⟩)

namespace AccessMode

section

variable {α : Type} [Scalar α] {r r' : Limit α → Limit α → Prop} {modes : List (AccessMode α)}
  {straight : α} {a a' : AccessMode α}

/-- Whether a distance should get a mode of those given, where `r` tells which of two limits is not
the greater one. -/
inductive Suits (r : Limit α → Limit α → Prop) (modes : List (AccessMode α)) (straight : α)
    (a : AccessMode α) : Prop
  /-- Of the limits that cover the distance it has the least, and no mode given before it has the
  same. -/
  | covering {before after : List (AccessMode α)} (given : modes = before ++ a :: after)
    (covers : a.limit.covers straight = true)
    (least : ∀ b ∈ modes, b.limit.covers straight = true → r a.limit b.limit)
    (first : ∀ b ∈ before, b.limit.covers straight = true → ¬r b.limit a.limit)
  /-- No limit covers the distance, it has the greatest, and no mode given after it has the same. -/
  | beyond {before after : List (AccessMode α)} (given : modes = before ++ a :: after)
    (uncovered : ∀ b ∈ modes, ¬b.limit.covers straight = true)
    (greatest : ∀ b ∈ modes, r b.limit a.limit)
    (last : ∀ b ∈ after, ¬r a.limit b.limit)

/-- The mode is one of those given. -/
theorem Suits.mem (h : Suits r modes straight a) : a ∈ modes := by
  cases h with
  | covering given => exact given ▸ List.mem_append_right _ List.mem_cons_self
  | beyond given => exact given ▸ List.mem_append_right _ List.mem_cons_self

/-- A distance should get no more than one mode. -/
theorem Suits.eq (h : Suits r modes straight a) (h' : Suits r modes straight a') : a = a' := by
  have hmem := h.mem
  have hmem' := h'.mem
  cases h with
  | covering given covers least first =>
    cases h' with
    | covering given' covers' least' first' =>
      rcases eq_or_mem_of_append_cons_eq (given.symm.trans given') with heq | ⟨hbefore, -⟩ |
        ⟨hbefore, -⟩
      · exact heq
      · exact absurd (least a' hmem' covers') (first' a hbefore covers)
      · exact absurd (least' a hmem covers) (first a' hbefore covers')
    | beyond _ uncovered => exact absurd covers (uncovered a hmem)
  | beyond given uncovered greatest last =>
    cases h' with
    | covering _ covers' => exact absurd covers' (uncovered a' hmem')
    | beyond given' _ greatest' last' =>
      rcases eq_or_mem_of_append_cons_eq (given.symm.trans given') with heq | ⟨-, hafter⟩ |
        ⟨-, hafter⟩
      · exact heq
      · exact absurd (greatest' a hmem) (last a' hafter)
      · exact absurd (greatest a' hmem') (last' a hafter)

private theorem Suits.of_iff
    (hiff : ∀ b ∈ modes, ∀ c ∈ modes, r b.limit c.limit ↔ r' b.limit c.limit)
    (h : Suits r modes straight a) : Suits r' modes straight a := by
  have ha := h.mem
  cases h with
  | @covering before after given covers least first =>
    have hbefore {b : AccessMode α} (hb : b ∈ before) : b ∈ modes :=
      given ▸ List.mem_append_left _ hb
    exact .covering given covers (fun b hb hcovers ↦ (hiff a ha b hb).mp (least b hb hcovers))
      fun b hb hcovers hr ↦ first b hb hcovers ((hiff b (hbefore hb) a ha).mpr hr)
  | @beyond before after given uncovered greatest last =>
    have hafter {b : AccessMode α} (hb : b ∈ after) : b ∈ modes :=
      given ▸ List.mem_append_right _ (List.mem_cons_of_mem _ hb)
    exact .beyond given uncovered (fun b hb ↦ (hiff b hb a ha).mp (greatest b hb))
      fun b hb hr ↦ last b hb ((hiff a ha b (hafter hb)).mpr hr)

/-- A longer distance does not get a mode with a smaller limit. -/
theorem Suits.limit_mono [Scalar.Ranked α] {s t : α} (hst : s ≤ t) (h : Suits r modes s a)
    (h' : Suits r modes t a') : r a.limit a'.limit := by
  have hmem' := h'.mem
  cases h' with
  | covering _ covers' =>
    have hcovers := Limit.covers_of_le hst covers'
    cases h with
    | covering _ _ least => exact least a' hmem' hcovers
    | beyond _ uncovered => exact absurd hcovers (uncovered a' hmem')
  | beyond _ _ greatest => exact greatest a h.mem

end

end AccessMode

namespace AccessByDistance

variable {α : Type} [Scalar α] {modes modes' : List (AccessMode α)}

private theorem modes_withModes (m : AccessByDistance α) (ne : modes ≠ []) :
    (m.withModes modes).modes = byLimit modes := by
  rw [withModes, dif_neg ne]

/-- A distance gets the first mode that covers it, or the last of all. -/
theorem modeFor_cases (m : AccessByDistance α) (straight : α) :
    (∃ lower higher, m.modes = lower ++ m.modeFor straight :: higher ∧
      (m.modeFor straight).limit.covers straight = true ∧
      ∀ b ∈ lower, ¬b.limit.covers straight = true) ∨
    ∃ lower, m.modes = lower ++ [m.modeFor straight] ∧
      ∀ b ∈ m.modes, ¬b.limit.covers straight = true := by
  unfold modeFor
  cases hfind : m.modes.find? fun a ↦ a.limit.covers straight with
  | some a =>
    obtain ⟨hcovers, lower, higher, hsplit, hlower⟩ := List.find?_eq_some_iff_append.mp hfind
    refine .inl ⟨lower, higher, hsplit, hcovers, fun b hb ↦ ?_⟩
    rw [Bool.not_eq_true, ← Bool.not_eq_true']
    exact hlower b hb
  | none =>
    exact .inr ⟨_, (List.dropLast_append_getLast m.modes_ne).symm, List.find?_eq_none.mp hfind⟩

private theorem mem_byLimit {a : AccessMode α} : a ∈ byLimit modes ↔ a ∈ modes :=
  (List.mergeSort_perm _ _).mem_iff

/-- Whether a mode has a limit. -/
def hasLimit (limit : Limit α) (a : AccessMode α) : Bool :=
  a.limit.before limit && limit.before a.limit

variable [Scalar.Ranked α]

private theorem hasLimit_iff {limit : Limit α} {a : AccessMode α} :
    hasLimit limit a = true ↔ a.limit = limit := by
  rw [hasLimit, Bool.and_eq_true]
  constructor
  · rintro ⟨hle, hge⟩
    exact Limit.before_antisymm hle hge
  · rintro rfl
    exact ⟨Limit.before_refl _, Limit.before_refl _⟩

/-- Sorting puts the modes in the order of their limits. -/
theorem pairwise_byLimit (modes : List (AccessMode α)) :
    (byLimit modes).Pairwise fun a b ↦ a.limit.before b.limit = true := by
  refine List.pairwise_mergeSort (fun a b c ↦ ?_) (fun a b ↦ ?_) modes
  · exact Limit.before_trans
  · exact (Bool.or_eq_true _ _).mpr (Limit.before_total a.limit b.limit)

private theorem mem_lower_or_before {lower higher : List (AccessMode α)} {a b : AccessMode α}
    (h : byLimit modes = lower ++ a :: higher) (hb : b ∈ modes) :
    b ∈ lower ∧ b.limit.before a.limit = true ∨
      b ∈ a :: higher ∧ a.limit.before b.limit = true := by
  have hsorted := pairwise_byLimit modes
  rw [h, List.pairwise_append, List.pairwise_cons] at hsorted
  obtain ⟨-, ⟨hhigher, -⟩, hlower⟩ := hsorted
  rw [← mem_byLimit, h, List.mem_append] at hb
  rcases hb with hb | hb
  · exact .inl ⟨hb, hlower b hb a List.mem_cons_self⟩
  · refine .inr ⟨hb, ?_⟩
    rcases List.mem_cons.mp hb with rfl | hmem
    · exact Limit.before_refl _
    · exact hhigher b hmem

/-- Sorting keeps the order of the modes that have one limit. -/
theorem filter_byLimit (modes : List (AccessMode α)) (limit : Limit α) :
    (byLimit modes).filter (hasLimit limit) = modes.filter (hasLimit limit) := by
  have hpairwise : (modes.filter (hasLimit limit)).Pairwise fun a b ↦
      a.limit.before b.limit = true := by
    refine List.pairwise_of_forall_mem_list fun a ha b hb ↦ ?_
    rw [hasLimit_iff.mp (List.mem_filter.mp ha).2, hasLimit_iff.mp (List.mem_filter.mp hb).2]
    exact Limit.before_refl limit
  have hsublist : (modes.filter (hasLimit limit)).Sublist (byLimit modes) := by
    refine List.sublist_mergeSort (fun a b c ↦ ?_) (fun a b ↦ ?_) hpairwise List.filter_sublist
    · exact Limit.before_trans
    · exact (Bool.or_eq_true _ _).mpr (Limit.before_total a.limit b.limit)
  have hfiltered := hsublist.filter (hasLimit limit)
  simp only [List.filter_filter, Bool.and_self] at hfiltered
  exact (hfiltered.eq_of_length ((List.mergeSort_perm modes _).filter _).length_eq.symm).symm

/-- Sorted modes are the same however they were given, when no two have one limit. -/
theorem byLimit_eq_of_perm (distinct : (modes.map (·.limit)).Nodup) (perm : modes'.Perm modes) :
    byLimit modes' = byLimit modes := by
  refine List.Perm.eq_of_pairwise (fun a b ha hb hab hba ↦ ?_) (pairwise_byLimit modes')
    (pairwise_byLimit modes)
    ((List.mergeSort_perm _ _).trans (perm.trans (List.mergeSort_perm _ _).symm))
  exact List.inj_on_of_nodup_map distinct (perm.mem_iff.mp (mem_byLimit.mp ha))
    (mem_byLimit.mp hb) (Limit.before_antisymm hab hba)

private theorem exists_first_of_byLimit {lower higher : List (AccessMode α)} {a : AccessMode α}
    (h : byLimit modes = lower ++ a :: higher) (hlower : ∀ b ∈ lower, b.limit ≠ a.limit) :
    ∃ before after, modes = before ++ a :: after ∧ ∀ b ∈ before, b.limit ≠ a.limit := by
  have hstable := filter_byLimit modes a.limit
  have hnone : lower.filter (hasLimit a.limit) = [] :=
    List.filter_eq_nil_iff.mpr fun b hb hlimit ↦ hlower b hb (hasLimit_iff.mp hlimit)
  rw [h, List.filter_append, hnone, List.nil_append, List.filter_cons_of_pos (hasLimit_iff.mpr rfl),
    eq_comm, List.filter_eq_cons_iff] at hstable
  obtain ⟨before, after, hgiven, hbefore, -, -⟩ := hstable
  exact ⟨before, after, hgiven, fun b hb hlimit ↦ hbefore b hb (hasLimit_iff.mpr hlimit)⟩

private theorem exists_last_of_byLimit {lower : List (AccessMode α)} {a : AccessMode α}
    (h : byLimit modes = lower ++ [a]) :
    ∃ before after, modes = before ++ a :: after ∧ ∀ b ∈ after, b.limit ≠ a.limit := by
  have hstable := filter_byLimit modes a.limit
  rw [h, List.filter_append, List.filter_cons_of_pos (hasLimit_iff.mpr rfl), List.filter_nil,
    eq_comm, List.filter_eq_append_iff] at hstable
  obtain ⟨front, back, rfl, -, hback⟩ := hstable
  obtain ⟨before, after, rfl, -, -, hafter⟩ := List.filter_eq_cons_iff.mp hback
  refine ⟨front ++ before, after, (List.append_assoc _ _ _).symm, fun b hb hlimit ↦ ?_⟩
  exact List.filter_eq_nil_iff.mp hafter b hb (hasLimit_iff.mpr hlimit)

/-- A distance gets the mode that it should get. -/
theorem suits_modeFor (m : AccessByDistance α) (ne : modes ≠ []) (straight : α) :
    AccessMode.Suits (fun x y ↦ x.before y = true) modes straight
      ((m.withModes modes).modeFor straight) := by
  have hcases := (m.withModes modes).modeFor_cases straight
  rw [m.modes_withModes ne] at hcases
  generalize (m.withModes modes).modeFor straight = a at hcases
  rcases hcases with ⟨lower, higher, hsplit, hcovers, hlower⟩ | ⟨lower, hsplit, huncovered⟩
  · have hleast : ∀ b ∈ modes, b.limit.covers straight = true →
        a.limit.before b.limit = true := by
      intro b hb hbcovers
      rcases mem_lower_or_before hsplit hb with ⟨hmem, -⟩ | ⟨-, hbefore⟩
      · exact absurd hbcovers (hlower b hmem)
      · exact hbefore
    obtain ⟨before, after, hgiven, hbefore⟩ := exists_first_of_byLimit hsplit fun b hb hlimit ↦
      hlower b hb (hlimit ▸ hcovers)
    refine .covering hgiven hcovers hleast fun b hb hbcovers hba ↦ hbefore b hb ?_
    have hmem : b ∈ modes := hgiven ▸ List.mem_append_left _ hb
    exact Limit.before_antisymm hba (hleast b hmem hbcovers)
  · have hgreatest : ∀ b ∈ modes, b.limit.before a.limit = true := by
      intro b hb
      rcases mem_lower_or_before hsplit hb with ⟨-, hbefore⟩ | ⟨hmem, -⟩
      · exact hbefore
      · rw [List.mem_singleton.mp hmem]
        exact Limit.before_refl _
    obtain ⟨before, after, hgiven, hafter⟩ := exists_last_of_byLimit hsplit
    refine .beyond hgiven (fun b hb ↦ huncovered b (mem_byLimit.mpr hb)) hgreatest fun b hb hab ↦
      hafter b hb ?_
    have hmem : b ∈ modes := hgiven ▸ List.mem_append_right _ (List.mem_cons_of_mem _ hb)
    exact Limit.before_antisymm (hgreatest b hmem) hab

/-- The leg between two points with a given mode. -/
def legWith (m : AccessByDistance α) (a : AccessMode α) (start finish : Point α) (time : α)
    (surcharged : Bool) : Leg α :=
  let straight := start.distance finish
  .between a.mode start finish time
    (if surcharged then m.timeWith a straight + m.surchargeAt finish else m.timeWith a straight)
    (straight * m.beelineFactor)

/-- For modes given in any order, all with numbers as limits, over whatever modes there were before:
a leg is taken with the mode that its straight-line distance should get, in the order of sorting,
and also in the order by size if no different limits have one size. This is one mode for each
distance, a longer distance gets none with a smaller limit, and the access is the same for all
orders of modes with different limits. -/
theorem leg_withModes (m : AccessByDistance α) (ne : modes ≠ [])
    (numbers : ∀ a ∈ modes, a.limit.IsNumber) :
    let access := m.withModes modes
    (∀ start finish time surcharged, access.leg start finish time surcharged =
      access.legWith (access.modeFor (start.distance finish)) start finish time surcharged) ∧
    (∀ straight a, AccessMode.Suits (fun x y ↦ x.before y = true) modes straight a ↔
      a = access.modeFor straight) ∧
    ((∀ a ∈ modes, ∀ b ∈ modes, a.limit.AtMost b.limit → b.limit.AtMost a.limit →
        a.limit = b.limit) →
      ∀ straight a, AccessMode.Suits Limit.AtMost modes straight a ↔ a = access.modeFor straight) ∧
    (∀ s t, s ≤ t → (access.modeFor s).limit.AtMost (access.modeFor t).limit) ∧
    ((modes.map (·.limit)).Nodup → ∀ modes', modes'.Perm modes → m.withModes modes' = access) := by
  intro access
  have hsuits := m.suits_modeFor ne
  refine ⟨fun _ _ _ _ ↦ rfl, fun straight a ↦ ⟨fun h ↦ h.eq (hsuits straight), ?_⟩,
    fun antisymm straight a ↦ ?_, fun s t hst ↦ ?_, fun distinct modes' perm ↦ ?_⟩
  · rintro rfl
    exact hsuits straight
  · have hsize : AccessMode.Suits Limit.AtMost modes straight (access.modeFor straight) :=
      (hsuits straight).of_iff fun b hb c hc ↦
        Limit.before_iff_atMost (numbers b hb) (numbers c hc) (antisymm b hb c hc)
    constructor
    · exact fun h ↦ h.eq hsize
    · rintro rfl
      exact hsize
  · exact Limit.atMost_of_before (numbers _ (hsuits s).mem) (numbers _ (hsuits t).mem)
      ((hsuits s).limit_mono hst (hsuits t))
  · have hne : modes' ≠ [] := fun hempty ↦ ne (List.nil_perm.mp (hempty ▸ perm))
    simp only [access, withModes, dif_neg ne, dif_neg hne, byLimit_eq_of_perm distinct perm]

end AccessByDistance

namespace AccessMode

/-- Walking up to half a kilometre. -/
def shortWalk : AccessMode Float := ⟨.walk, .upTo 500, 0, false⟩

/-- A bicycle up to a kilometre and a half. -/
def townBike : AccessMode Float := ⟨.bike, .upTo 1500, 5, true⟩

/-- A taxi up to three kilometres. -/
def townTaxi : AccessMode Float := ⟨.taxi, .upTo 3000, 12, true⟩

/-- A taxi that goes nowhere. -/
def standingTaxi : AccessMode Float := ⟨.taxi, .upTo 0, 1, true⟩

/-- A car that goes nowhere, with the limit's sign reversed. -/
def standingCar : AccessMode Float := ⟨.car, .upTo (-0.0), 1, true⟩

end AccessMode

namespace AccessByDistance

open AccessMode

/-- Of a taxi, a bicycle and walking, given in either order, the bicycle is taken for seven hundred
metres and the taxi beyond all limits. -/
theorem modeFor_town :
    (∀ a ∈ [townTaxi, townBike, shortWalk], a.limit.IsNumber) ∧
    ((ofParameters .default).withModes [townTaxi, townBike, shortWalk]).modeFor 700 = townBike ∧
    ((ofParameters .default).withModes [townTaxi, townBike, shortWalk]).modeFor 5000 = townTaxi ∧
    (ofParameters .default).withModes [shortWalk, townBike, townTaxi] =
      (ofParameters .default).withModes [townTaxi, townBike, shortWalk] := by
  have numbers : ∀ a ∈ [townTaxi, townBike, shortWalk], a.limit.IsNumber := by decide +kernel
  obtain ⟨-, hsuits, -, -, hperm⟩ :=
    leg_withModes (ofParameters .default) (List.cons_ne_nil _ _) numbers
  refine ⟨numbers, ((hsuits 700 townBike).mp ?_).symm, ((hsuits 5000 townTaxi).mp ?_).symm,
    hperm (by decide +kernel) _ (List.reverse_perm [townTaxi, townBike, shortWalk])⟩
  · exact .covering (show _ = [townTaxi] ++ townBike :: [shortWalk] from rfl) (by decide +kernel)
      (by decide +kernel) (by decide +kernel)
  · exact .beyond (show _ = [] ++ townTaxi :: [townBike, shortWalk] from rfl) (by decide +kernel)
      (by decide +kernel) (by decide +kernel)

/-- Of a taxi up to zero metres and a car up to minus zero metres, given in this order, a leg of no
length should be taken with the taxi by the sizes of the limits. It is taken with the car. -/
theorem car_of_signedZeros :
    (∀ a ∈ [standingTaxi, standingCar], a.limit.IsNumber) ∧
    AccessMode.Suits Limit.AtMost [standingTaxi, standingCar]
      ((⟨0, 0⟩ : Point Float).distance ⟨0, 0⟩) standingTaxi ∧
    (((ofParameters .default).withModes [standingTaxi, standingCar]).leg ⟨0, 0⟩ ⟨0, 0⟩ 27000
      false).mode = .car := by
  have hdistance : (⟨0, 0⟩ : Point Float).distance ⟨0, 0⟩ = 0 := by decide +kernel
  rw [hdistance]
  refine ⟨by decide +kernel, ?_, ?_⟩
  · exact .covering (show _ = [] ++ standingTaxi :: [standingCar] from rfl) (by decide +kernel)
      (by decide +kernel) (by decide +kernel)
  · have hcar : AccessMode.Suits (fun x y ↦ x.before y = true) [standingTaxi, standingCar] 0
        standingCar :=
      .covering (show _ = [standingTaxi] ++ standingCar :: [] from rfl) (by decide +kernel)
        (by decide +kernel) (by decide +kernel)
    have hsuits :=
      (ofParameters .default).suits_modeFor (List.cons_ne_nil standingTaxi [standingCar]) 0
    change (modeFor _ _).mode = _
    rw [hdistance, ← hcar.eq hsuits]
    rfl

end AccessByDistance

end DoorToDoor
