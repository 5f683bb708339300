/-!
# Computations that succeed

What is known of the parts of a computation that may fail when the whole has succeeded.
-/

namespace DoorToDoor.Result

variable {ε β γ : Type}

/-- A chain succeeds if its parts do. -/
theorem bind_eq_ok {x : Except ε β} {f : β → Except ε γ} {c : γ} :
    (x >>= f) = .ok c ↔ ∃ b, x = .ok b ∧ f b = .ok c := by
  cases x with
  | error e => exact ⟨nofun, fun ⟨_, h, _⟩ ↦ nomatch h⟩
  | ok b => exact ⟨fun h ↦ ⟨b, rfl, h⟩, fun ⟨_, h, h'⟩ ↦ by cases h; exact h'⟩

/-- A chain fails if its first part does, or the next one after the first has succeeded. -/
theorem bind_eq_error {x : Except ε β} {f : β → Except ε γ} {e : ε} :
    (x >>= f) = .error e ↔ x = .error e ∨ ∃ b, x = .ok b ∧ f b = .error e := by
  cases x with
  | error e' =>
    constructor
    · intro h
      cases h
      exact .inl rfl
    · rintro (h | ⟨_, h, _⟩)
      · cases h
        rfl
      · cases h
  | ok b =>
    constructor
    · exact fun h ↦ .inr ⟨b, rfl, h⟩
    · rintro (h | ⟨_, h, h'⟩)
      · cases h
      · cases h
        exact h'

/-- What holds of the answer of a computation, when it does not matter which one it is. -/
theorem exists_eq_ok_and_iff {x : Except ε β} {P : β → Prop} {succeeds Q : Prop}
    (hx : (∃ b, x = .ok b) ↔ succeeds) (h : ∀ b, x = .ok b → (P b ↔ Q)) :
    (∃ b, x = .ok b ∧ P b) ↔ succeeds ∧ Q := by
  constructor
  · rintro ⟨b, hb, hP⟩
    exact ⟨hx.mp ⟨b, hb⟩, (h b hb).mp hP⟩
  · rintro ⟨hsucceeds, hQ⟩
    obtain ⟨b, hb⟩ := hx.mpr hsucceeds
    exact ⟨b, hb, (h b hb).mpr hQ⟩

/-- Changing the answer of a computation lets it succeed as before. -/
theorem map_eq_ok {x : Except ε β} {f : β → γ} {c : γ} :
    x.map f = .ok c ↔ ∃ b, x = .ok b ∧ f b = c := by
  cases x with
  | error e => exact ⟨nofun, fun ⟨_, h, _⟩ ↦ nomatch h⟩
  | ok b =>
    constructor
    · intro h
      exact ⟨b, rfl, Except.ok.inj h⟩
    · rintro ⟨_, h, rfl⟩
      cases h
      rfl

/-- Changing the answer of a computation lets it fail as before. -/
theorem map_eq_error {x : Except ε β} {f : β → γ} {e : ε} :
    x.map f = .error e ↔ x = .error e := by
  cases x with
  | error e' =>
    constructor
    · intro h
      cases h
      rfl
    · intro h
      cases h
      rfl
  | ok b => exact ⟨nofun, nofun⟩

/-- What each step of a fold keeps holds at its end. The property may depend on the items that are
left. -/
theorem inv_of_foldlM {f : γ → β → Except ε γ} {P : List β → γ → Prop}
    (step : ∀ b rest x y, P (b :: rest) x → f x b = .ok y → P rest y) (bs : List β) {x y : γ}
    (start : P bs x) (h : bs.foldlM f x = .ok y) : P [] y := by
  induction bs generalizing x with
  | nil =>
    cases h
    exact start
  | cons b rest ih =>
    rw [List.foldlM_cons] at h
    obtain ⟨z, hz, hrest⟩ := bind_eq_ok.mp h
    exact ih (step b rest x z start hz) hrest

/-- A fold succeeds if each step does and keeps what the next one needs. -/
theorem exists_foldlM {f : γ → β → Except ε γ} {P : List β → γ → Prop}
    (step : ∀ b rest x, P (b :: rest) x → ∃ y, f x b = .ok y ∧ P rest y) (bs : List β) {x : γ}
    (start : P bs x) : ∃ y, bs.foldlM f x = .ok y ∧ P [] y := by
  induction bs generalizing x with
  | nil => exact ⟨x, rfl, start⟩
  | cons b rest ih =>
    obtain ⟨z, hz, hrest⟩ := step b rest x start
    obtain ⟨y, hy, hend⟩ := ih hrest
    refine ⟨y, ?_, hend⟩
    rw [List.foldlM_cons]
    exact bind_eq_ok.mpr ⟨z, hz, hy⟩

/-- What holds of no items at the start and is kept by each step holds of all items at the end of a
fold. -/
theorem prefix_of_foldlM {f : γ → β → Except ε γ} {P : List β → γ → Prop}
    (step : ∀ done b x y, P done x → f x b = .ok y → P (done ++ [b]) y) {bs : List β} {x y : γ}
    (start : P [] x) (h : bs.foldlM f x = .ok y) : P bs y := by
  obtain ⟨done, hdone, hP⟩ := inv_of_foldlM
    (P := fun rest x ↦ ∃ done, done ++ rest = bs ∧ P done x)
    (fun b rest x y ⟨done, hdone, hP⟩ hxy ↦
      ⟨done ++ [b], by rw [← hdone, List.append_assoc]; rfl, step done b x y hP hxy⟩)
    bs ⟨[], rfl, start⟩ h
  rwa [← hdone, List.append_nil]

/-- What holds of each item that a step takes holds of all items of a fold that succeeds. -/
theorem forall_mem_of_foldlM {f : γ → β → Except ε γ} {P : β → Prop}
    (step : ∀ b x y, f x b = .ok y → P b) {bs : List β} {x y : γ} (h : bs.foldlM f x = .ok y) :
    ∀ b ∈ bs, P b := by
  induction bs generalizing x with
  | nil => exact nofun
  | cons b rest ih =>
    rw [List.foldlM_cons] at h
    obtain ⟨z, hz, hrest⟩ := bind_eq_ok.mp h
    exact List.forall_mem_cons.mpr ⟨step b x z hz, ih hrest⟩

/-- A fold succeeds, with what holds of all items, if each step does with what holds of the items up
to it. -/
theorem exists_prefix_foldlM {f : γ → β → Except ε γ} {P : List β → γ → Prop} {bs : List β}
    (step : ∀ done b rest x, done ++ b :: rest = bs → P done x →
      ∃ y, f x b = .ok y ∧ P (done ++ [b]) y) {x : γ} (start : P [] x) :
    ∃ y, bs.foldlM f x = .ok y ∧ P bs y := by
  obtain ⟨y, hy, done, hdone, hP⟩ := exists_foldlM
    (P := fun rest x ↦ ∃ done, done ++ rest = bs ∧ P done x)
    (fun b rest x ⟨done, hdone, hP⟩ ↦ by
      obtain ⟨y, hy, hP'⟩ := step done b rest x hdone hP
      exact ⟨y, hy, done ++ [b], by rw [← hdone, List.append_assoc]; rfl, hP'⟩)
    bs ⟨[], rfl, start⟩
  rw [List.append_nil] at hdone
  exact ⟨y, hy, hdone ▸ hP⟩

/-- A fold fails if it succeeds up to some item and fails at this item. -/
theorem foldlM_eq_error_iff {f : γ → β → Except ε γ} {bs : List β} {x : γ} {e : ε} :
    bs.foldlM f x = .error e ↔ ∃ done b rest y,
      bs = done ++ b :: rest ∧ done.foldlM f x = .ok y ∧ f y b = .error e := by
  induction bs generalizing x with
  | nil => exact ⟨nofun, fun ⟨done, _, _, _, h, _⟩ ↦ by cases done <;> cases h⟩
  | cons b bs ih =>
    rw [List.foldlM_cons, bind_eq_error]
    simp only [ih]
    constructor
    · rintro (h | ⟨z, hz, done, b', rest, y, rfl, hdone, h⟩)
      · exact ⟨[], b, bs, x, rfl, rfl, h⟩
      · exact ⟨b :: done, b', rest, y, rfl, bind_eq_ok.mpr ⟨z, hz, hdone⟩, h⟩
    · rintro ⟨done, b', rest, y, hsplit, hdone, h⟩
      cases done with
      | nil =>
        cases hsplit
        cases hdone
        exact .inl h
      | cons d done =>
        cases hsplit
        rw [List.foldlM_cons] at hdone
        obtain ⟨z, hz, hdone⟩ := bind_eq_ok.mp hdone
        exact .inr ⟨z, hz, done, b', rest, y, rfl, hdone, h⟩

/-- Two folds succeed alike if each step of the second follows the one of the first, from where the
first has come to. The relation may depend on the items that are left. -/
theorem exists_foldlM_of_step {δ : Type} {f : γ → β → Except ε γ} {g : δ → β → Except ε δ}
    {R : List β → γ → δ → Prop}
    (step : ∀ b rest x x' y, R (b :: rest) x x' → f x b = .ok y →
      ∃ y', g x' b = .ok y' ∧ R rest y y')
    (bs : List β) {x y : γ} {x' : δ} (start : R bs x x') (h : bs.foldlM f x = .ok y) :
    ∃ y', bs.foldlM g x' = .ok y' ∧ R [] y y' := by
  induction bs generalizing x x' with
  | nil =>
    cases h
    exact ⟨x', rfl, start⟩
  | cons b rest ih =>
    rw [List.foldlM_cons] at h
    obtain ⟨z, hz, hrest⟩ := bind_eq_ok.mp h
    obtain ⟨z', hz', hR⟩ := step b rest x x' z start hz
    obtain ⟨y', hy', hend⟩ := ih hR hrest
    refine ⟨y', ?_, hend⟩
    rw [List.foldlM_cons]
    exact bind_eq_ok.mpr ⟨z', hz', hy'⟩

/-- Whether two computations fail with the same error, or succeed with related answers. -/
inductive Rel (R : β → γ → Prop) : Except ε β → Except ε γ → Prop
  | error (e : ε) : Rel R (.error e) (.error e)
  | ok {b : β} {c : γ} (h : R b c) : Rel R (.ok b) (.ok c)

/-- Related computations that go on alike from related answers are the same. -/
theorem Rel.bind_eq {δ : Type} {R : β → γ → Prop} {x : Except ε β} {y : Except ε γ}
    {f : β → Except ε δ} {g : γ → Except ε δ} (h : Rel R x y)
    (next : ∀ b c, R b c → f b = g c) : x >>= f = y >>= g := by
  cases h with
  | error e => rfl
  | ok h => exact next _ _ h

/-- A computation is related to itself with two answers of its own. -/
theorem Rel.map {δ ζ : Type} {S : δ → ζ → Prop} (x : Except ε β) {f : β → δ} {g : β → ζ}
    (next : ∀ b, S (f b) (g b)) : Rel S (x.map f) (x.map g) := by
  cases x with
  | error e => exact .error e
  | ok b => exact .ok (next b)

end DoorToDoor.Result
