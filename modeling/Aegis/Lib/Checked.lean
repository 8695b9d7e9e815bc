import Mathlib.Data.List.Forall2

/-!
# Checked computations

What the success of an `Except` computation says about its parts. Every rule takes one sequencing
apart, so that a chain of checks is read off step by step.
-/

namespace Checked

universe u v w

variable {ε : Type u} {ε' : Type v} {α β : Type w}

/-- A sequence succeeds when its first part does and the rest does with its result. -/
theorem bind_eq_ok {x : Except ε α} {f : α → Except ε β} {b : β} :
    (x >>= f) = .ok b ↔ ∃ a, x = .ok a ∧ f a = .ok b := by
  cases x with
  | error e => exact ⟨fun h ↦ (nomatch h), fun ⟨_, h, _⟩ ↦ (nomatch h)⟩
  | ok a => exact ⟨fun h ↦ ⟨a, rfl, h⟩, fun ⟨_, h, hf⟩ ↦ by cases h; exact hf⟩

/-- Renaming the errors changes no success. -/
theorem map_error_eq_ok {x : Except ε α} {f : ε → ε'} {a : α} :
    x.mapError f = .ok a ↔ x = .ok a := by
  cases x <;> simp [Except.mapError]

/-- A loop of checks succeeds only when every turn does. -/
theorem ok_of_for_m {check : α → Except ε PUnit} {items : List α}
    (h : items.forM check = .ok .unit) : ∀ item ∈ items, check item = .ok .unit := by
  induction items with
  | nil => simp
  | cons item items ih =>
      obtain ⟨_, hitem, hrest⟩ := bind_eq_ok.mp h
      exact List.forall_mem_cons.mpr ⟨hitem, ih hrest⟩

/-- A list is converted when each of its items is. -/
theorem map_m_eq_ok_iff {f : α → Except ε β} {xs : List α} {ys : List β} :
    xs.mapM f = .ok ys ↔ List.Forall₂ (fun x y ↦ f x = .ok y) xs ys := by
  induction xs generalizing ys with
  | nil =>
      rw [List.mapM_nil, List.forall₂_nil_left_iff]
      exact ⟨fun h ↦ by cases h; rfl, fun h ↦ by rw [h]; rfl⟩
  | cons x xs ih =>
      rw [List.mapM_cons, bind_eq_ok, List.forall₂_cons_left_iff]
      constructor
      · rintro ⟨y, hy, hrest⟩
        obtain ⟨zs, hzs, hpure⟩ := bind_eq_ok.mp hrest
        cases hpure
        exact ⟨y, zs, hy, ih.mp hzs, rfl⟩
      · rintro ⟨y, zs, hy, hzs, rfl⟩
        exact ⟨y, hy, bind_eq_ok.mpr ⟨zs, ih.mpr hzs, rfl⟩⟩

/-- What every item has a conversion for, the list has one for. -/
theorem exists_map_m_eq_ok {f : α → Except ε β} {xs : List α}
    (h : ∀ x ∈ xs, ∃ y, f x = .ok y) : ∃ ys, xs.mapM f = .ok ys := by
  simp only [map_m_eq_ok_iff]
  induction xs with
  | nil => exact ⟨[], .nil⟩
  | cons x xs ih =>
      obtain ⟨y, hy⟩ := h x List.mem_cons_self
      obtain ⟨ys, hys⟩ := ih fun x hx ↦ h x (List.mem_cons_of_mem _ hx)
      exact ⟨y :: ys, .cons hy hys⟩

/-- What the conversion of an item says of the item, the conversion of a list says of the list. -/
theorem forall_map_m_iff {f : α → Except ε β} {P : α → Prop} {Q : β → Prop}
    (h : ∀ x y, f x = .ok y → (Q y ↔ P x)) {xs : List α} {ys : List β} (hys : xs.mapM f = .ok ys) :
    (∀ y ∈ ys, Q y) ↔ ∀ x ∈ xs, P x := by
  rw [map_m_eq_ok_iff] at hys
  induction hys with
  | nil => simp
  | cons hy _ ih => rw [List.forall_mem_cons, List.forall_mem_cons, h _ _ hy, ih]

/-- A list that is converted has a conversion for each of its items. -/
theorem exists_of_map_m_eq_ok {f : α → Except ε β} {xs : List α} {ys : List β}
    (h : xs.mapM f = .ok ys) : ∀ x ∈ xs, ∃ y, f x = .ok y := by
  rw [map_m_eq_ok_iff] at h
  induction h with
  | nil => simp
  | cons hy _ ih => exact List.forall_mem_cons.mpr ⟨⟨_, hy⟩, ih⟩

end Checked
