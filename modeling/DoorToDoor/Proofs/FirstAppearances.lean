import Mathlib.Data.List.Induction
import Mathlib.Data.List.Nodup

/-!
# First appearances

`List.eraseDups` keeps each item of a list where it first appears. Read from the end: an item that
is added at the end first appears there unless it has appeared before (`eraseDups_concat`).
-/

namespace DoorToDoor

variable {β γ : Type} [BEq β] [LawfulBEq β] [BEq γ] [LawfulBEq γ]

/-- An item at the end is one that appears there first, unless it has appeared before. -/
theorem eraseDups_concat (xs : List β) (x : β) :
    (xs ++ [x]).eraseDups = if xs.contains x then xs.eraseDups else xs.eraseDups ++ [x] := by
  have hsingle : [x].eraseDups = [x] := by
    rw [List.eraseDups_cons, List.filter_nil, List.eraseDups_nil]
  rw [List.eraseDups_append, List.removeAll]
  split
  · next h => simp_all
  · next h => simp_all

/-- No item first appears twice. -/
theorem nodup_eraseDups (xs : List β) : xs.eraseDups.Nodup := by
  induction xs using List.reverseRecOn with
  | nil => exact List.nodup_nil
  | append_singleton xs x ih =>
    rw [eraseDups_concat]
    split
    · exact ih
    · next h =>
      have hnew : x ∉ xs.eraseDups := fun hx ↦
        h (List.contains_iff_mem.mpr (List.mem_eraseDups.mp hx))
      rw [← List.concat_eq_append]
      exact ih.concat hnew

/-- The images of the first appearances first appear as the images of all items do. -/
theorem eraseDups_map_eraseDups (f : β → γ) (xs : List β) :
    (xs.eraseDups.map f).eraseDups = (xs.map f).eraseDups := by
  induction xs using List.reverseRecOn with
  | nil => rfl
  | append_singleton xs x ih =>
    rw [eraseDups_concat, List.map_append, List.map_singleton, eraseDups_concat, ← ih]
    split
    · next h =>
      have himage : (xs.map f).contains (f x) = true := by
        rw [List.contains_iff_mem] at h ⊢
        exact List.mem_map_of_mem h
      rw [if_pos himage]
    · next h =>
      rw [List.map_append, List.map_singleton, eraseDups_concat]
      have hsame : (xs.eraseDups.map f).contains (f x) = (xs.map f).contains (f x) := by
        rw [Bool.eq_iff_iff, List.contains_iff_mem, List.contains_iff_mem, List.mem_map,
          List.mem_map]
        simp only [List.mem_eraseDups]
      rw [hsame]

end DoorToDoor
