import Std.Data.HashMap

/-!
# Maps that keep the order of first insertion

A map holds its entries in the order in which their keys were first inserted and finds each by a
hash index of positions. Replacing an entry leaves it where it is. The index knows exactly the keys
of the entries, so a map is determined by its list of entries: `get?_insert` and the two laws of
`toList_insert` say what an insertion does to the look-up and to the list.
-/

namespace DoorToDoor

/-- A map from keys to values that lists its entries in the order of first insertion. -/
structure OrderedMap (κ β : Type) [BEq κ] [Hashable κ] where
  /-- The entries in order. -/
  entries : Array (κ × β)
  /-- The position of each key among the entries. -/
  positions : Std.HashMap κ Nat
  /-- The positions are those of the keys. -/
  indexed : ∀ (k : κ) (i : Nat), positions[k]? = some i ↔ entries[i]?.map Prod.fst = some k

namespace OrderedMap

variable {κ β : Type} [BEq κ] [Hashable κ]

/-- The value of a key. -/
def get? (m : OrderedMap κ β) (k : κ) : Option β :=
  (m.positions[k]?.bind fun i ↦ m.entries[i]?).map (·.2)

/-- Whether the map has a key. -/
def contains (m : OrderedMap κ β) (k : κ) : Bool := (m.get? k).isSome

/-- The entries in order. -/
def toList (m : OrderedMap κ β) : List (κ × β) := m.entries.toList

/-- The values in the order of their keys. -/
def values (m : OrderedMap κ β) : List β := m.toList.map (·.2)

/-- How many keys the map has. -/
def size (m : OrderedMap κ β) : Nat := m.entries.size

/-- Whether the map has no keys. -/
def isEmpty (m : OrderedMap κ β) : Bool := m.entries.isEmpty

/-- The list of entries is as long as the map has keys. -/
@[simp] theorem length_toList (m : OrderedMap κ β) : m.toList.length = m.size := by
  simp [toList, size]

private theorem eq_of_key_eq (m : OrderedMap κ β) {i j : Nat} {k : κ}
    (hi : m.entries[i]?.map Prod.fst = some k) (hj : m.entries[j]?.map Prod.fst = some k) : i = j :=
  Option.some.inj (((m.indexed k i).mpr hi).symm.trans ((m.indexed k j).mpr hj))

/-- A key has a value if and only if the pair is an entry. -/
theorem get?_eq_some_iff (m : OrderedMap κ β) (k : κ) (v : β) :
    m.get? k = some v ↔ (k, v) ∈ m.toList := by
  simp only [get?, Option.map_eq_some_iff, Option.bind_eq_some_iff, m.indexed, toList,
    Array.mem_toList_iff, Array.mem_iff_getElem?]
  constructor
  · rintro ⟨⟨k', v'⟩, ⟨i, ⟨e, he, hk⟩, hi⟩, rfl⟩
    rw [he] at hi
    cases hi
    exact ⟨i, by rw [he]; cases hk; rfl⟩
  · rintro ⟨i, hi⟩
    exact ⟨(k, v), ⟨i, ⟨(k, v), hi, rfl⟩, hi⟩, rfl⟩

/-- A key is one of the entries if and only if the map has it. -/
theorem mem_keys_iff (m : OrderedMap κ β) (k : κ) :
    k ∈ m.toList.map Prod.fst ↔ m.contains k = true := by
  rw [contains, Option.isSome_iff_exists, List.mem_map]
  constructor
  · rintro ⟨⟨_, v⟩, hmem, rfl⟩
    exact ⟨v, (m.get?_eq_some_iff _ v).mpr hmem⟩
  · rintro ⟨v, hv⟩
    exact ⟨(k, v), (m.get?_eq_some_iff k v).mp hv, rfl⟩

/-- The keys of the entries differ from each other. -/
theorem nodup_keys (m : OrderedMap κ β) : (m.toList.map Prod.fst).Nodup := by
  rw [List.nodup_iff_pairwise_ne, List.pairwise_iff_getElem]
  intro i j hi hj lt heq
  simp only [List.length_map, length_toList, size] at hi hj
  simp only [toList, List.getElem_map, Array.getElem_toList] at heq
  have := m.eq_of_key_eq (i := i) (j := j) (k := m.entries[j].1)
    (by simp [Array.getElem?_eq_getElem hi, heq]) (by simp [Array.getElem?_eq_getElem hj])
  omega

variable [LawfulBEq κ] [LawfulHashable κ]

/-- The map without entries. -/
def empty : OrderedMap κ β := ⟨#[], ∅, by simp⟩

instance : Inhabited (OrderedMap κ β) := ⟨empty⟩

/-- Replaces the value of a key, or appends the key with its value. -/
def insert (m : OrderedMap κ β) (k : κ) (v : β) : OrderedMap κ β :=
  match h : m.positions[k]? with
  | some i =>
    { m with
      entries := m.entries.setIfInBounds i (k, v)
      indexed := by
        intro k' j
        rw [m.indexed, Array.getElem?_setIfInBounds]
        have hk := (m.indexed k i).mp h
        by_cases hij : i = j
        · subst hij
          have hlt : i < m.entries.size := by
            cases hi : m.entries[i]? with
            | none => rw [hi] at hk; cases hk
            | some e => exact (Array.getElem?_eq_some_iff.mp hi).1
          rw [Array.getElem?_eq_getElem hlt] at hk
          simp [hlt, Option.some.inj hk]
        · simp [hij] }
  | none =>
    { entries := m.entries.push (k, v)
      positions := m.positions.insert k m.entries.size
      indexed := by
        intro k' j
        have hk : ∀ i, m.entries[i]?.map Prod.fst ≠ some k := fun i hi ↦ by
          rw [(m.indexed k i).mpr hi] at h; cases h
        rw [Std.HashMap.getElem?_insert, Array.getElem?_push]
        by_cases hkk : k = k'
        · subst hkk
          by_cases hj : j = m.entries.size
          · subst hj; simp
          · simpa [hj, Ne.symm hj] using hk j
        · by_cases hj : j = m.entries.size
          · subst hj
            have : ¬ m.positions[k']? = some m.entries.size := by
              rw [m.indexed]; simp
            simp [hkk, this]
          · simp [hkk, hj, m.indexed] }

/-- Replaces the value of a key by one that depends on it, or appends the key with such a value. -/
def update (m : OrderedMap κ β) (k : κ) (f : Option β → β) : OrderedMap κ β :=
  m.insert k (f (m.get? k))

/-- The map without entries lists none. -/
@[simp] theorem toList_empty : (empty : OrderedMap κ β).toList = [] := rfl

/-- The map without entries has no key. -/
@[simp] theorem get?_empty (k : κ) : (empty : OrderedMap κ β).get? k = none := by
  simp [get?, empty]

/-- Inserting a new key adds its entry at the end. -/
theorem toList_insert_of_get?_eq_none (m : OrderedMap κ β) {k : κ} (v : β)
    (h : m.get? k = none) : (m.insert k v).toList = m.toList ++ [(k, v)] := by
  unfold insert
  split
  · next i hi =>
    have hk := (m.indexed k i).mp hi
    simp only [get?, hi, Option.bind_some, Option.map_eq_none_iff] at h
    rw [h] at hk
    cases hk
  · simp [toList]

/-- Inserting a key that is there replaces its value in its place. -/
theorem toList_insert_of_get?_eq_some (m : OrderedMap κ β) {k : κ} {u : β} (v : β)
    (h : m.get? k = some u) :
    (m.insert k v).toList = m.toList.map fun e ↦ if e.1 == k then (k, v) else e := by
  unfold insert
  split
  · next i hi =>
    have hk := (m.indexed k i).mp hi
    apply List.ext_getElem?
    intro j
    simp only [toList, Array.getElem?_toList, List.getElem?_map, Array.getElem?_setIfInBounds]
    cases hj : m.entries[j]? with
    | none =>
      have hge := Array.getElem?_eq_none_iff.mp hj
      by_cases hij : i = j
      · subst hij
        rw [if_pos rfl, if_neg (by omega)]
        rfl
      · rw [if_neg hij]
        rfl
    | some e =>
      have hlt := (Array.getElem?_eq_some_iff.mp hj).1
      by_cases hij : i = j
      · subst hij
        rw [hj] at hk
        rw [if_pos rfl, if_pos hlt, Option.map_some, if_pos (by simpa using hk)]
      · rw [if_neg hij, Option.map_some, if_neg]
        intro he
        exact hij (m.eq_of_key_eq hk (by rw [hj, Option.map_some, eq_of_beq he]))
  · next hn => simp [get?, hn] at h

/-- The look-up after an insertion. -/
theorem get?_insert (m : OrderedMap κ β) (k k' : κ) (v : β) :
    (m.insert k v).get? k' = if k == k' then some v else m.get? k' := by
  apply Option.ext
  intro w
  rw [get?_eq_some_iff]
  cases h : m.get? k with
  | none =>
    rw [m.toList_insert_of_get?_eq_none v h, List.mem_append, ← get?_eq_some_iff]
    by_cases hk : k = k'
    · subst hk
      simp [h, eq_comm]
    · simp [hk, Ne.symm hk]
  | some u =>
    rw [m.toList_insert_of_get?_eq_some v h]
    simp only [List.mem_map]
    by_cases hk : k = k'
    · subst hk
      simp only [beq_self_eq_true, if_true]
      constructor
      · rintro ⟨e, _, he⟩
        split at he
        · rw [(Prod.mk.inj he).2]
        · next hne => subst he; simp at hne
      · rintro hw
        cases hw
        exact ⟨(k, u), (m.get?_eq_some_iff k u).mp h, by simp⟩
    · simp only [beq_iff_eq, hk, if_false, get?_eq_some_iff]
      constructor
      · rintro ⟨e, hmem, he⟩
        split at he
        · exact absurd (Prod.mk.inj he).1 hk
        · rwa [he] at hmem
      · intro hmem
        exact ⟨(k', w), hmem, by simp [Ne.symm hk]⟩

/-- A new key comes behind the others, and a key that is there stays in its place. -/
theorem keys_insert (m : OrderedMap κ β) (k : κ) (v : β) :
    (m.insert k v).toList.map Prod.fst =
      if m.contains k then m.toList.map Prod.fst else m.toList.map Prod.fst ++ [k] := by
  rw [contains]
  cases h : m.get? k with
  | none =>
    rw [m.toList_insert_of_get?_eq_none v h, List.map_append]
    rfl
  | some u =>
    rw [m.toList_insert_of_get?_eq_some v h, List.map_map]
    refine List.map_congr_left fun e _ ↦ ?_
    simp only [Function.comp_apply]
    split
    · next same => exact (eq_of_beq same).symm
    · rfl

/-- An entry after an insertion is the one inserted or one from before. -/
theorem mem_toList_insert (m : OrderedMap κ β) {k : κ} {v : β} {e : κ × β}
    (h : e ∈ (m.insert k v).toList) : e = (k, v) ∨ e ∈ m.toList := by
  obtain ⟨k', v'⟩ := e
  rw [← get?_eq_some_iff, get?_insert] at h
  split at h
  · next same =>
    cases h
    exact .inl (by rw [eq_of_beq same])
  · exact .inr ((m.get?_eq_some_iff k' v').mp h)

end OrderedMap

end DoorToDoor
