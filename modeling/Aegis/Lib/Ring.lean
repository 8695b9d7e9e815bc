import Mathlib.Data.List.Basic
import Mathlib.Data.Nat.ModEq

/-!
# Queues in a circular array

A circular array of some capacity holds the items of a queue from a head index on, one after
another, and goes on at index zero after its last one. `Ring.Holds` says so, and each operation on
the array has a lemma that says what it holds afterwards.
-/

namespace Ring

variable {α : Type}

/-- The array holds the items, the oldest one at the head. -/
structure Holds (slots : List (Option α)) (capacity head : Nat) (items : List α) : Prop where
  length : slots.length = capacity
  head_lt : head < capacity
  bounded : items.length ≤ capacity
  cell : ∀ i (hi : i < items.length), slots[(head + i) % capacity]? = some (some items[i])

/-- Different places have different indices. -/
theorem index_ne {capacity head i j : Nat} (hi : i < capacity) (hj : j < capacity) (hij : i ≠ j) :
    (head + i) % capacity ≠ (head + j) % capacity := by
  intro heq
  have hmod : i % capacity = j % capacity := Nat.ModEq.add_left_cancel' head heq
  rw [Nat.mod_eq_of_lt hi, Nat.mod_eq_of_lt hj] at hmod
  exact hij hmod

/-- The index after the first place is the first index after the head. -/
theorem index_succ (capacity head i : Nat) :
    ((head + 1) % capacity + i) % capacity = (head + (i + 1)) % capacity := by
  rw [Nat.mod_add_mod]
  congr 1
  omega

variable {slots : List (Option α)} {capacity head : Nat} {items : List α}

/-- An array of empty slots holds nothing. -/
theorem holds_replicate (h : 0 < capacity) :
    Holds (List.replicate capacity (none : Option α)) capacity 0 [] :=
  ⟨List.length_replicate, h, Nat.zero_le _, fun i hi ↦ absurd hi (Nat.not_lt_zero i)⟩

/-- A slot that holds no item can be changed. -/
theorem Holds.set_free (h : Holds slots capacity head items) {place : Nat} {value : Option α}
    (hplace : place < capacity) (hfree : items.length ≤ place) :
    Holds (slots.set ((head + place) % capacity) value) capacity head items := by
  refine ⟨(List.length_set ..).trans h.length, h.head_lt, h.bounded, fun i hi ↦ ?_⟩
  have hne : (head + place) % capacity ≠ (head + i) % capacity :=
    index_ne hplace (by omega) (by omega)
  rw [List.getElem?_set_ne hne]
  exact h.cell i hi

/-- An item is put behind the last one. -/
theorem Holds.push (h : Holds slots capacity head items) (hroom : items.length < capacity)
    (item : α) :
    Holds (slots.set ((head + items.length) % capacity) (some item)) capacity head
      (items ++ [item]) := by
  have hfree : Holds (slots.set ((head + items.length) % capacity) (some item)) capacity head
      items := h.set_free hroom (Nat.le_refl _)
  refine ⟨hfree.length, h.head_lt, ?_, fun i hi ↦ ?_⟩
  · rw [List.length_append, List.length_singleton]
    omega
  rw [List.length_append, List.length_singleton] at hi
  obtain hold | rfl : i < items.length ∨ i = items.length := by omega
  · rw [hfree.cell i hold, List.getElem_append_left hold]
  · have hindex : (head + items.length) % capacity < slots.length := by
      rw [h.length]
      exact Nat.mod_lt _ (by omega)
    rw [List.getElem?_set_self hindex, List.getElem_concat_length rfl]

/-- The head leaves the oldest item behind. -/
theorem Holds.advance {item : α} (h : Holds slots capacity head (item :: items)) :
    Holds slots capacity ((head + 1) % capacity) items := by
  have hpositive : 0 < capacity := by
    have := h.head_lt
    omega
  refine ⟨h.length, Nat.mod_lt _ hpositive, ?_, fun i hi ↦ ?_⟩
  · have := h.bounded
    rw [List.length_cons] at this
    omega
  · rw [index_succ]
    exact h.cell (i + 1) (Nat.succ_lt_succ hi)

/-- In a full array, the newest item takes the place of the oldest one. -/
theorem Holds.overwrite {oldest : α} (h : Holds slots capacity head (oldest :: items))
    (hfull : items.length + 1 = capacity) (item : α) :
    Holds (slots.set head (some item)) capacity ((head + 1) % capacity) (items ++ [item]) := by
  have hhead : ((head + 1) % capacity + items.length) % capacity = head := by
    rw [index_succ, hfull, Nat.add_mod_right, Nat.mod_eq_of_lt h.head_lt]
  have hpush := h.advance.push (by omega) item
  rwa [hhead] at hpush

/-- The oldest items are read from the head on. -/
theorem Holds.read (h : Holds slots capacity head items) {count : Nat}
    (hcount : count ≤ items.length) :
    ((List.range count).map fun i ↦ (head + i) % capacity).filterMap (fun i ↦ (slots[i]?).join) =
      items.take count := by
  induction count with
  | zero => rfl
  | succ count ih =>
      have hcell := h.cell count hcount
      rw [List.range_succ, List.map_append, List.filterMap_append, ih (by omega), List.map_singleton,
        List.take_succ_eq_append_getElem hcount]
      simp only [List.filterMap_cons, hcell, Option.join_some, List.filterMap_nil]

/-- The oldest items are cleared from the head on. -/
theorem Holds.clear (h : Holds slots capacity head items) {count : Nat}
    (hcount : count ≤ items.length) :
    Holds (((List.range count).map fun i ↦ (head + i) % capacity).foldl
      (fun slots i ↦ slots.set i none) slots) capacity ((head + count) % capacity)
      (items.drop count) := by
  induction count with
  | zero => simpa [Nat.mod_eq_of_lt h.head_lt] using h
  | succ count ih =>
      have hbounded := h.bounded
      -- The slot to be cleared holds the oldest of what is left.
      have hleft := ih (by omega)
      rw [List.drop_eq_getElem_cons hcount] at hleft
      have hnext := hleft.advance
      have hlast : (head + count) % capacity =
          ((head + count + 1) % capacity + (capacity - 1)) % capacity := by
        rw [Nat.mod_add_mod]
        have : head + count + 1 + (capacity - 1) = head + count + capacity := by omega
        rw [this, Nat.add_mod_right]
      rw [List.range_succ, List.map_append, List.foldl_append, List.map_singleton, List.foldl_cons,
        List.foldl_nil, ← Nat.add_assoc]
      rw [Nat.mod_add_mod] at hnext
      have hplace : capacity - 1 < capacity := by omega
      have hfree : (items.drop (count + 1)).length ≤ capacity - 1 := by
        rw [List.length_drop]
        omega
      rw [hlast]
      exact hnext.set_free hplace hfree

end Ring
