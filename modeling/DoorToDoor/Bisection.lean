/-!
# Bisection

Finds by halving how far into a list a condition holds. Where the condition never comes back once it
is lost, as in an ordered list, this is the number of items in front of the first one that fails; on
any other list the items in the middle decide. Main statements: `countFront_eq_length_takeWhile` and
`getElem?_countFront`.
-/

namespace DoorToDoor.Bisection

variable {τ : Type}

/-- How many items at the front of a list fulfil a condition. The item in the middle tells whether
to go on behind it or in front of it. -/
def countFront (p : τ → Bool) (xs : List τ) : Nat :=
  if 1 < xs.length then
    let half := xs.length / 2
    if (xs.drop half).head?.any p then half + countFront p (xs.drop half)
    else countFront p (xs.take (xs.length - half))
  else xs.countP p
termination_by xs.length
decreasing_by all_goals simp; omega

private theorem not_of_head?_eq_false {p : τ → Bool} {xs : List τ}
    (h : xs.Pairwise fun a b ↦ p b → p a) (fails : xs.head?.any p = false) :
    ∀ x ∈ xs, ¬p x := by
  cases xs with
  | nil => simp
  | cons y ys =>
    have hy : p y = false := by simpa using fails
    intro x hx
    rcases List.mem_cons.1 hx with rfl | hx
    · simp [hy]
    · intro px
      simp [(List.pairwise_cons.1 h).1 x hx px] at hy

private theorem of_head?_drop {p : τ → Bool} {xs : List τ} {n : Nat}
    (h : xs.Pairwise fun a b ↦ p b → p a) (holds : (xs.drop n).head?.any p = true) :
    ∀ x ∈ xs.take n, p x := by
  rw [← List.take_append_drop n xs, List.pairwise_append] at h
  cases hd : xs.drop n with
  | nil => simp [hd] at holds
  | cons y ys =>
    intro x hx
    exact h.2.2 x hx y (by simp [hd]) (by simpa [hd] using holds)

/-- Where a condition never comes back once it is lost, bisection finds the first item that
fails. -/
theorem countFront_eq_length_takeWhile {p : τ → Bool} {xs : List τ}
    (h : xs.Pairwise fun a b ↦ p b → p a) : countFront p xs = (xs.takeWhile p).length := by
  fun_induction countFront p xs with
  | case1 xs long half holds ih =>
    have front : ∀ x ∈ xs.take half, p x := of_head?_drop h holds
    have parts : xs.takeWhile p = xs.take half ++ (xs.drop half).takeWhile p := by
      rw [← List.takeWhile_append_of_pos front, List.take_append_drop]
    rw [ih (h.sublist (List.drop_sublist half xs)), parts, List.length_append, List.length_take]
    omega
  | case2 xs long half fails ih =>
    have rest : ∀ x ∈ xs.drop (xs.length - half), ¬p x := fun x hx ↦
      not_of_head?_eq_false (h.sublist (List.drop_sublist half xs)) (by simpa using fails) x
        ((List.drop_suffix_drop_left xs (by omega)).subset hx)
    have stops : (xs.drop (xs.length - half)).takeWhile p = [] := by
      cases hd : xs.drop (xs.length - half) with
      | nil => rfl
      | cons y ys => simp [rest y (by simp [hd])]
    have parts : (xs.take (xs.length - half)).takeWhile p = xs.takeWhile p := by
      have whole := List.take_append_drop (xs.length - half) xs
      conv => rhs; rw [← whole, List.takeWhile_append, stops, List.append_nil]
      split
      · exact (List.takeWhile_prefix p).eq_of_length ‹_›
      · rfl
    rw [ih (h.sublist (List.take_sublist _ xs)), parts]
  | case3 xs short =>
    match xs with
    | [] => rfl
    | [x] => cases hx : p x <;> simp [hx]
    | _ :: _ :: _ => simp at short

private theorem getElem?_length_takeWhile (p : τ → Bool) (xs : List τ) :
    xs[(xs.takeWhile p).length]? = xs.find? (!p ·) := by
  induction xs with
  | nil => rfl
  | cons x xs ih => cases hx : p x <;> simp [hx, ih]

/-- Where a condition never comes back once it is lost, bisection leads to the first item that
fails. -/
theorem getElem?_countFront {p : τ → Bool} {xs : List τ}
    (h : xs.Pairwise fun a b ↦ p b → p a) : xs[countFront p xs]? = xs.find? (!p ·) := by
  rw [countFront_eq_length_takeWhile h, getElem?_length_takeWhile]

end DoorToDoor.Bisection
