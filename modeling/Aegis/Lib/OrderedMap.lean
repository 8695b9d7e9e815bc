import Mathlib.Data.List.Nodup

/-!
# Maps in insertion order

A map whose entries are kept in the order in which their keys were first set, as the dictionaries of
scripting languages keep them. Setting a key that is there changes its value in place.

Where several parties share such a map, it covers what each of them has set (`Covers`), and
`find_of_own` says when a search of it finds something just when a party alone would.
-/

universe u v

/-- Entries with different keys, in the order in which the keys were first set. -/
structure OrderedMap (κ : Type u) (α : Type v) where
  entries : List (κ × α)
  nodup : (entries.map Prod.fst).Nodup

namespace OrderedMap

variable {κ : Type u} {α : Type v}

instance : EmptyCollection (OrderedMap κ α) :=
  ⟨[], List.nodup_nil⟩

variable [DecidableEq κ]

/-- The value of a key. -/
def get? (m : OrderedMap κ α) (k : κ) : Option α :=
  (m.entries.find? fun entry ↦ entry.1 == k).map Prod.snd

/-- An entry, with another value if its key is set. -/
def setAt (k : κ) (v : α) (entry : κ × α) : κ × α :=
  if entry.1 = k then (k, v) else entry

theorem fst_set_at (k : κ) (v : α) (entry : κ × α) : (setAt k v entry).1 = entry.1 := by
  unfold setAt
  split
  · next h => exact h.symm
  · rfl

/-- Set the value of a key: in place, or at the end. -/
def set (m : OrderedMap κ α) (k : κ) (v : α) : OrderedMap κ α :=
  if h : k ∈ m.entries.map Prod.fst then
    ⟨m.entries.map (setAt k v), by
      rw [List.map_map]
      exact (List.map_congr_left fun entry _ ↦ fst_set_at k v entry).symm ▸ m.nodup⟩
  else
    ⟨m.entries ++ [(k, v)], by
      rw [List.map_append]
      exact m.nodup.append (List.nodup_singleton k) (List.disjoint_singleton.mpr h)⟩

@[simp] theorem get_empty (k : κ) : (∅ : OrderedMap κ α).get? k = none := rfl

/-- A key has a value when there is an entry for it. -/
theorem get_eq_some_iff {m : OrderedMap κ α} {k : κ} {v : α} :
    m.get? k = some v ↔ (k, v) ∈ m.entries := by
  unfold get?
  constructor
  · intro h
    obtain ⟨⟨k', v'⟩, hfound, rfl⟩ := Option.map_eq_some_iff.mp h
    have hkey : k' = k := by simpa using List.find?_some hfound
    exact hkey ▸ List.mem_of_find?_eq_some hfound
  · intro h
    cases hfound : m.entries.find? fun entry ↦ entry.1 == k with
    | none => exact absurd (beq_self_eq_true k) (List.find?_eq_none.mp hfound _ h)
    | some entry =>
        have hkey : entry.1 = k := by simpa using List.find?_some hfound
        have hsame := List.inj_on_of_nodup_map m.nodup (List.mem_of_find?_eq_some hfound) h hkey
        rw [hsame]
        rfl

/-- A key has a value when it is the key of an entry. -/
theorem get_is_some_iff {m : OrderedMap κ α} {k : κ} :
    (m.get? k).isSome ↔ ∃ entry ∈ m.entries, entry.1 = k := by
  rw [Option.isSome_iff_exists]
  constructor
  · rintro ⟨v, hv⟩
    exact ⟨(k, v), get_eq_some_iff.mp hv, rfl⟩
  · rintro ⟨⟨k', v⟩, hmem, rfl⟩
    exact ⟨v, get_eq_some_iff.mpr hmem⟩

/-- The keys after one is set. -/
theorem get_set_is_some {m : OrderedMap κ α} {k k' : κ} {v : α} :
    ((m.set k v).get? k').isSome ↔ k' = k ∨ (m.get? k').isSome := by
  rw [get_is_some_iff, get_is_some_iff, set]
  split
  · next hmem =>
      obtain ⟨old, hold, hkey⟩ := List.mem_map.mp hmem
      constructor
      · rintro ⟨entry, hentry, rfl⟩
        obtain ⟨before, hbefore, rfl⟩ := List.mem_map.mp hentry
        exact .inr ⟨before, hbefore, (fst_set_at k v before).symm⟩
      · rintro (rfl | ⟨entry, hentry, rfl⟩)
        · exact ⟨_, List.mem_map_of_mem hold, (fst_set_at k' v old).trans hkey⟩
        · exact ⟨_, List.mem_map_of_mem hentry, fst_set_at k v entry⟩
  · constructor
    · rintro ⟨entry, hentry, rfl⟩
      rcases List.mem_append.mp hentry with hold | hnew
      · exact .inr ⟨entry, hold, rfl⟩
      · exact .inl (congrArg Prod.fst (List.mem_singleton.mp hnew))
    · rintro (rfl | ⟨entry, hentry, rfl⟩)
      · exact ⟨_, List.mem_append_right _ (List.mem_singleton_self _), rfl⟩
      · exact ⟨entry, List.mem_append_left _ hentry, rfl⟩

/-- The entries after a key is set are the new one and old ones. -/
theorem mem_set {m : OrderedMap κ α} {k : κ} {v : α} {entry : κ × α}
    (h : entry ∈ (m.set k v).entries) : entry = (k, v) ∨ entry ∈ m.entries := by
  rw [set] at h
  split at h
  · obtain ⟨before, hbefore, rfl⟩ := List.mem_map.mp h
    unfold setAt
    split
    · exact .inl rfl
    · exact .inr hbefore
  · rcases List.mem_append.mp h with hold | hnew
    · exact .inr hold
    · exact .inl (List.mem_singleton.mp hnew)

/-! ## A map that parties share -/

/-- Every key of a map is a key of another. -/
def Covers (own shared : OrderedMap κ α) : Prop :=
  ∀ k, (own.get? k).isSome → (shared.get? k).isSome

theorem covers_empty (shared : OrderedMap κ α) : Covers ∅ shared :=
  nofun

/-- Others may set keys of the shared map. -/
theorem Covers.set_shared {own shared : OrderedMap κ α} (h : Covers own shared) (k : κ) (v : α) :
    Covers own (shared.set k v) := fun k' hk' ↦
  get_set_is_some.mpr (.inr (h k' hk'))

/-- A party sets its keys in the shared map. -/
theorem Covers.set {own shared : OrderedMap κ α} (h : Covers own shared) (k : κ) (v : α) :
    Covers (own.set k v) (shared.set k v) := fun k' hk' ↦
  get_set_is_some.mpr ((get_set_is_some.mp hk').imp id (h k'))

/-- A search finds an entry of a party, or nothing, just when the party alone would find one: the
first that meets the condition is its own, and one does when one of its own does. -/
theorem find_of_own {β : Type u} {shared own : List β} {p : β → Bool}
    (hfirst : ∀ a, shared.find? p = some a → a ∈ own)
    (hkept : ∀ a ∈ own, p a = true → ∃ b ∈ shared, p b = true) :
    (shared.find? p).isSome = (own.find? p).isSome := by
  rw [Bool.eq_iff_iff, List.find?_isSome, List.find?_isSome]
  constructor
  · rintro ⟨b, hb, hmeets⟩
    obtain ⟨a, ha⟩ := Option.isSome_iff_exists.mp (List.find?_isSome.mpr ⟨b, hb, hmeets⟩)
    exact ⟨a, hfirst a ha, List.find?_some ha⟩
  · rintro ⟨a, ha, hmeets⟩
    exact hkept a ha hmeets

end OrderedMap
