import Mathlib.Data.Finset.Card
import Mathlib.Data.List.Basic
import Mathlib.Data.List.Nodup
import Mathlib.Data.Finset.Dedup

/-!
# Least-recently-used lists

A bounded set of recently used keys, kept as a list with the most recent key first. Using a key
moves it to the front and drops what falls past the capacity. `entries_past` says that the list
is the first `capacity` of the distinct keys ever used, and `mem_past_iff` that a key is in it
exactly when fewer than `capacity` distinct keys have been used since its own last use. Histories
are lists of uses with the most recent use first.
-/

namespace Lru

universe u

variable {α : Type u} [DecidableEq α]

/-- Move a key to the front. -/
def touch (x : α) (l : List α) : List α :=
  x :: l.erase x

/-- Use a key under a capacity. -/
def use (capacity : Nat) (l : List α) (x : α) : List α :=
  (touch x l).take capacity

/-- The distinct keys of a history, ordered by last use. -/
def recent : List α → List α
  | [] => []
  | x :: past => touch x (recent past)

/-- The bounded list after a history of uses. -/
def past (capacity : Nat) : List α → List α
  | [] => []
  | x :: older => use capacity (past capacity older) x

/-- Fewer than `capacity` distinct keys were used since the last use of the key. -/
def RecentlyUsed (capacity : Nat) (x : α) (history : List α) : Prop :=
  ∃ since before, history = since ++ x :: before ∧ x ∉ since ∧ since.toFinset.card < capacity

@[simp] theorem mem_touch {x y : α} {l : List α} : y ∈ touch x l ↔ y = x ∨ y ∈ l := by
  by_cases h : y = x
  · simp [touch, h]
  · simp [touch, h, List.mem_erase_of_ne h]

theorem nodup_touch {x : α} {l : List α} (h : l.Nodup) : (touch x l).Nodup :=
  List.nodup_cons.mpr ⟨h.not_mem_erase, h.erase x⟩

theorem nodup_use {capacity : Nat} {x : α} {l : List α} (h : l.Nodup) :
    (use capacity l x).Nodup :=
  (nodup_touch h).sublist (List.take_sublist _ _)

/-- Moving a key that is in the list to the front keeps the length. -/
theorem length_touch {x : α} {l : List α} (h : x ∈ l) : (touch x l).length = l.length := by
  have := List.length_pos_of_mem h
  rw [touch, List.length_cons, List.length_erase_of_mem h]
  omega

theorem length_use_le (capacity : Nat) (l : List α) (x : α) :
    (use capacity l x).length ≤ capacity :=
  List.length_take_le _ _

/-- Using a key that is in a list within the capacity only moves it. -/
theorem use_of_mem {capacity : Nat} {x : α} {l : List α} (h : x ∈ l) (hl : l.length ≤ capacity) :
    use capacity l x = touch x l :=
  List.take_of_length_le ((length_touch h).trans_le hl)

/-- Cutting a list before a key is used in it changes nothing once it is cut again. -/
theorem use_take (capacity : Nat) (l : List α) (x : α) :
    use capacity (l.take capacity) x = use capacity l x := by
  cases capacity with
  | zero => simp [use]
  | succ n =>
      simp only [use, touch, List.take_succ_cons, List.cons.injEq, true_and]
      induction l generalizing n with
      | nil => simp
      | cons y l ih =>
          rw [List.take_succ_cons, List.erase_cons, List.erase_cons]
          split
          · rw [List.take_take, Nat.min_self]
          · cases n with
            | zero => simp
            | succ m => rw [List.take_succ_cons, List.take_succ_cons, ih m]

/-- The bounded list holds the most recently used distinct keys. -/
theorem entries_past (capacity : Nat) (history : List α) :
    past capacity history = (recent history).take capacity := by
  induction history with
  | nil => simp [past, recent]
  | cons x older ih => rw [past, ih, use_take, use, recent]

@[simp] theorem mem_recent {x : α} {history : List α} : x ∈ recent history ↔ x ∈ history := by
  induction history with
  | nil => simp [recent]
  | cons y older ih => simp [recent, ih]

theorem nodup_recent (history : List α) : (recent history).Nodup := by
  induction history with
  | nil => exact List.nodup_nil
  | cons x older ih => exact nodup_touch ih

/-- As many keys are ordered by last use as there are distinct keys in the history. -/
theorem length_recent (history : List α) : (recent history).length = history.toFinset.card := by
  have hset : (recent history).toFinset = history.toFinset := by
    ext x
    simp
  rw [← hset, List.toFinset_card_of_nodup (nodup_recent history)]

/-- The keys used since the last use of a key come before it. -/
theorem recent_append {x : α} {since : List α} (before : List α) (h : x ∉ since) :
    ∃ tail, recent (since ++ x :: before) = recent since ++ x :: tail := by
  induction since with
  | nil => exact ⟨(recent before).erase x, rfl⟩
  | cons y since ih =>
      rw [List.mem_cons, not_or] at h
      obtain ⟨tail, htail⟩ := ih h.2
      rw [List.cons_append, recent, recent, touch, touch, htail]
      by_cases hy : y ∈ recent since
      · exact ⟨tail, by rw [List.erase_append_left _ hy, List.cons_append]⟩
      · refine ⟨tail.erase y, ?_⟩
        rw [List.erase_append_right _ hy, List.erase_of_not_mem hy, List.erase_cons,
          if_neg (by simpa using h.1), List.cons_append]

/-- A key stays in the bounded list while fewer than `capacity` others are used. -/
theorem mem_past_append {capacity : Nat} {x : α} {since : List α} (before : List α) (h : x ∉ since) :
    x ∈ past capacity (since ++ x :: before) ↔ since.toFinset.card < capacity := by
  obtain ⟨tail, htail⟩ := recent_append before h
  rw [entries_past, htail, ← length_recent]
  constructor
  · intro hmem
    by_contra hlong
    rw [List.take_append_of_le_length (by omega)] at hmem
    exact h (mem_recent.mp (List.mem_of_mem_take hmem))
  · intro hshort
    rw [List.take_append, List.mem_append]
    refine .inr ?_
    obtain ⟨n, hn⟩ := Nat.exists_eq_add_of_lt hshort
    rw [hn, show (recent since).length + n + 1 - (recent since).length = n + 1 by omega]
    simp

/-- A key is in the bounded list exactly when it was recently used. -/
theorem mem_past_iff {capacity : Nat} {x : α} {history : List α} :
    x ∈ past capacity history ↔ RecentlyUsed capacity x history := by
  constructor
  · intro hmem
    have hused := hmem
    rw [entries_past] at hused
    obtain ⟨since, before, rfl, hx⟩ :=
      List.eq_append_cons_of_mem (mem_recent.mp (List.mem_of_mem_take hused))
    exact ⟨since, before, rfl, hx, (mem_past_append before hx).mp hmem⟩
  · rintro ⟨since, before, rfl, hx, hcard⟩
    exact (mem_past_append before hx).mpr hcard

/-- Whether a key was recently used is decided by the bounded list. -/
instance {capacity : Nat} {x : α} {history : List α} :
    Decidable (RecentlyUsed capacity x history) :=
  decidable_of_iff _ mem_past_iff

end Lru
