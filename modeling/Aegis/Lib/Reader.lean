import Mathlib.Data.List.Basic

/-!
# Readers

A reader takes a value from the front of a text and leaves what follows. `Reads` says that a text
is read as a value whatever comes after it, within what may follow: a writer is undone by the
reader when every text it writes is read as the value it was written for. Items between
separators are read one after the other.
-/

namespace Aegis

variable {σ α β ι : Type*}

/-- A reader: the value at the front of a text and the rest of it, or nothing. -/
abbrev Reader (σ α : Type*) := List σ → Option (α × List σ)

/-- The text is read as the value, before every rest that may follow it. -/
def Reads (read : Reader σ α) (follow : List σ → Prop) (text : List σ) (value : α) : Prop :=
  ∀ rest, follow rest → read (text ++ rest) = some (value, rest)

/-- A text that has nothing after it is read as one value at most. -/
theorem Reads.unique {read : Reader σ α} {follow : List σ → Prop} {text : List σ} {a b : α}
    (ha : Reads read follow text a) (hb : Reads read follow text b) (hend : follow []) : a = b :=
  (Prod.mk.inj (Option.some.inj ((ha [] hend).symm.trans (hb [] hend)))).1

/-- What is read before more rests is read before fewer. -/
theorem Reads.mono {read : Reader σ α} {follow follow' : List σ → Prop} {text : List σ} {a : α}
    (h : Reads read follow text a) (himp : ∀ rest, follow' rest → follow rest) :
    Reads read follow' text a :=
  fun rest hrest ↦ h rest (himp rest hrest)

namespace Reader

/-- Joined texts are at least as long as there are separators. -/
theorem length_le_intercalate (comma : σ) (texts : List (List σ)) :
    texts.length ≤ ([comma].intercalate texts).length + 1 := by
  induction texts with
  | nil => simp
  | cons text texts ih =>
      cases texts with
      | nil => simp
      | cons next texts =>
          rw [List.intercalate_cons_cons]
          simp only [List.length_cons, List.length_append, List.length_nil] at *
          omega

/-- Joined texts are at least as long as each of them. -/
theorem length_le_of_mem_intercalate (comma : σ) {texts : List (List σ)} {text : List σ}
    (h : text ∈ texts) : text.length ≤ ([comma].intercalate texts).length := by
  induction texts with
  | nil => cases h
  | cons first texts ih =>
      cases texts with
      | nil => simp [List.mem_singleton.mp h]
      | cons next texts =>
          rw [List.intercalate_cons_cons]
          simp only [List.length_append]
          rcases List.mem_cons.mp h with rfl | h
          · omega
          · have := ih h
            omega

variable [DecidableEq σ]

section

variable (item : Reader σ α) (skip : List σ → List σ) (comma close : σ)

/-- The items up to the closing character, with a separator between two of them. `skip` passes
over what may stand around an item. -/
def items : Nat → Reader σ (List α)
  | 0, _ => none
  | fuel + 1, text =>
      match item (skip text) with
      | none => none
      | some (value, rest) =>
          match skip rest with
          | [] => none
          | c :: rest =>
              if c = close then some ([value], rest)
              else if c = comma then
                (items fuel rest).map fun (values, rest) ↦ (value :: values, rest)
              else none

/-- No item, or items, up to the closing character. Each of them takes at least one character, so
there are no more of them than characters. -/
def enclosed : Reader σ (List α) := fun text ↦
  match skip text with
  | [] => none
  | c :: rest =>
      if c = close then some ([], rest)
      else items item skip comma close text.length text

end

variable {item : Reader σ α} {skip : List σ → List σ} {comma close : σ}

/-- What may follow an item. -/
def Follows (comma close : σ) (rest : List σ) : Prop :=
  rest.head? = some comma ∨ rest.head? = some close

/-- Items that are read one by one, and that nothing to skip stands around, are read together. -/
theorem reads_items {xs : List ι} {text : ι → List σ} {value : ι → α} (hsome : xs ≠ [])
    (hitem : ∀ x ∈ xs, Reads item (Follows comma close) (text x) (value x))
    (hskip : ∀ x ∈ xs, ∀ rest, skip (text x ++ rest) = text x ++ rest)
    (hcomma : ∀ rest, skip (comma :: rest) = comma :: rest)
    (hclose : ∀ rest, skip (close :: rest) = close :: rest) (hne : comma ≠ close) {fuel : Nat}
    (hfuel : xs.length ≤ fuel) :
    Reads (items item skip comma close fuel) (fun _ ↦ True)
      ([comma].intercalate (xs.map text) ++ [close]) (xs.map value) := by
  induction xs generalizing fuel with
  | nil => exact absurd rfl hsome
  | cons x xs ih =>
      obtain ⟨hx, hxs⟩ := List.forall_mem_cons.mp hitem
      obtain ⟨hskipx, hskips⟩ := List.forall_mem_cons.mp hskip
      obtain ⟨fuel, rfl⟩ : ∃ n, fuel = n + 1 := ⟨fuel - 1, by simp at hfuel; omega⟩
      intro rest _
      cases xs with
      | nil =>
          have hread : item (text x ++ close :: rest) = some (value x, close :: rest) :=
            hx _ (.inr rfl)
          rw [List.map_singleton, List.intercalate_singleton, List.append_assoc,
            List.singleton_append, items, hskipx, hread]
          simp [hclose]
      | cons y ys =>
          have hmore := ih (List.cons_ne_nil _ _) hxs hskips (Nat.le_of_succ_le_succ hfuel) rest
            trivial
          have hread := fun after ↦ hx (comma :: after) (.inl rfl)
          rw [List.map_cons, List.map_cons, List.intercalate_cons_cons, List.append_assoc,
            List.append_assoc, List.append_assoc, List.singleton_append, items, hskipx, hread]
          rw [List.append_assoc] at hmore
          simpa [hcomma, hne] using hmore

/-- So are none, and items of which each begins with a character that does not close. -/
theorem reads_enclosed {xs : List ι} {text : ι → List σ} {value : ι → α}
    (hitem : ∀ x ∈ xs, Reads item (Follows comma close) (text x) (value x))
    (hskip : ∀ x ∈ xs, ∀ rest, skip (text x ++ rest) = text x ++ rest)
    (hhead : ∀ x ∈ xs, ∃ c more, text x = c :: more ∧ c ≠ close)
    (hcomma : ∀ rest, skip (comma :: rest) = comma :: rest)
    (hclose : ∀ rest, skip (close :: rest) = close :: rest) (hne : comma ≠ close) :
    Reads (enclosed item skip comma close) (fun _ ↦ True)
      ([comma].intercalate (xs.map text) ++ [close]) (xs.map value) := by
  intro rest _
  cases xs with
  | nil => simp [enclosed, hclose]
  | cons x xs =>
      obtain ⟨c, more, htext, hc⟩ := hhead x List.mem_cons_self
      obtain ⟨after, hafter⟩ : ∃ after, [comma].intercalate ((x :: xs).map text) ++ [close] ++ rest =
          text x ++ after := by
        cases xs with
        | nil => exact ⟨close :: rest, by simp⟩
        | cons y ys =>
            exact ⟨comma :: ([comma].intercalate ((y :: ys).map text) ++ [close] ++ rest), by simp⟩
      have hlength : (x :: xs).length ≤
          ([comma].intercalate ((x :: xs).map text) ++ [close] ++ rest).length := by
        have := length_le_intercalate comma ((x :: xs).map text)
        simp only [List.length_map, List.length_append, List.length_singleton] at *
        omega
      have hread := reads_items (List.cons_ne_nil x xs) hitem hskip hcomma hclose hne hlength rest
        trivial
      have hskipped := hskip x List.mem_cons_self after
      rw [← hafter] at hskipped
      rw [enclosed, hskipped, hafter, htext, List.cons_append]
      show (if c = close then _ else _) = _
      rw [if_neg hc, ← List.cons_append, ← htext, ← hafter, hread]

/-- What holds of every item that is read holds of all items that are read. -/
theorem forall_of_items {p : α → Prop} (hp : ∀ text a rest, item text = some (a, rest) → p a)
    {fuel : Nat} {text rest : List σ} {values : List α}
    (h : items item skip comma close fuel text = some (values, rest)) : ∀ a ∈ values, p a := by
  induction fuel generalizing text values with
  | zero => cases h
  | succ fuel ih =>
      rw [items] at h
      split at h
      · cases h
      · next value after hvalue =>
          split at h
          · cases h
          · next c after' hskip =>
              split_ifs at h
              · obtain ⟨rfl, -⟩ := Prod.mk.inj (Option.some.inj h)
                exact List.forall_mem_singleton.mpr (hp _ _ _ hvalue)
              · obtain ⟨⟨more, after''⟩, hmore, heq⟩ := Option.map_eq_some_iff.mp h
                obtain ⟨rfl, rfl⟩ := Prod.mk.inj heq
                exact List.forall_mem_cons.mpr ⟨hp _ _ _ hvalue, ih hmore⟩

/-- So it does between the opening and the closing character. -/
theorem forall_of_enclosed {p : α → Prop} (hp : ∀ text a rest, item text = some (a, rest) → p a)
    {text rest : List σ} {values : List α}
    (h : enclosed item skip comma close text = some (values, rest)) : ∀ a ∈ values, p a := by
  rw [enclosed] at h
  split at h
  · cases h
  · split_ifs at h
    · obtain ⟨rfl, -⟩ := Prod.mk.inj (Option.some.inj h)
      exact fun _ h ↦ (nomatch h)
    · exact forall_of_items hp h

end Reader

end Aegis
