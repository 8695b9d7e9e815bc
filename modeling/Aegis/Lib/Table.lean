import Mathlib.Data.List.Nodup

/-!
# Tables

A table is a list of rows no two of which have one primary key. A row is inserted, modified or
deleted by its key, and a modification keeps the key, so a table with two rows of one key cannot
be built.
-/

/-- The rows of a table have a primary key. -/
class Keyed (K : outParam Type) (V : Type) where
  /-- The primary key of a row. -/
  key : V → K

export Keyed (key)

/-- A table: rows with distinct primary keys, in the order they were inserted in. -/
structure Table (V : Type) {K : Type} [Keyed K V] where
  rows : List V
  nodup : (rows.map key).Nodup

/-- A change of a row that keeps its primary key. -/
structure Edit (V : Type) {K : Type} [Keyed K V] where
  run : V → V
  key_run : ∀ row, key (run row) = key row

namespace Table

variable {V K : Type} [Keyed K V]

/-- The table without rows. -/
def empty : Table V :=
  ⟨[], List.nodup_nil⟩

/-- Delete the rows that meet a condition. -/
def deleteIf (t : Table V) (p : V → Bool) : Table V :=
  ⟨t.rows.filter fun row ↦ !p row, t.nodup.sublist (List.filter_sublist.map key)⟩

/-- Two rows of a table with one primary key are one row. -/
theorem eq_of_key_eq {t : Table V} {a b : V} (ha : a ∈ t.rows) (hb : b ∈ t.rows)
    (h : key a = key b) : a = b :=
  List.inj_on_of_nodup_map t.nodup ha hb h

/-- A condition that only the rows of one key can meet finds the row of this key. -/
theorem find_rows_eq_some {t : Table V} {row : V} {p : V → Bool} (hrow : row ∈ t.rows)
    (hp : p row = true) (honly : ∀ other, p other = true → key other = key row) :
    t.rows.find? p = some row := by
  cases hfound : t.rows.find? p with
  | none =>
      have hnot := List.find?_eq_none.mp hfound row hrow
      exact absurd hp hnot
  | some other =>
      have hother := List.mem_of_find?_eq_some hfound
      rw [eq_of_key_eq hother hrow (honly other (List.find?_some hfound))]

/-- The rows after a deletion are the rows before it that do not meet the condition. -/
theorem mem_delete_if {t : Table V} {p : V → Bool} {row : V} :
    row ∈ (t.deleteIf p).rows ↔ row ∈ t.rows ∧ p row = false := by
  simp [deleteIf]

variable [DecidableEq K]

/-- The row with a primary key. -/
def find? (t : Table V) (k : K) : Option V :=
  t.rows.find? fun row ↦ key row == k

/-- Insert a row. A row with a primary key the table has is not inserted. -/
def insert (t : Table V) (row : V) : Table V :=
  if h : key row ∈ t.rows.map key then t
  else
    ⟨t.rows ++ [row], by
      rw [List.map_append, List.nodup_append]
      refine ⟨t.nodup, List.nodup_singleton _, fun a ha b hb hab ↦ ?_⟩
      rw [List.map_singleton, List.mem_singleton] at hb
      exact h (hb ▸ hab ▸ ha)⟩

/-- Change a row, if it has the primary key. -/
def editAt (k : K) (edit : Edit V) (row : V) : V :=
  if key row = k then edit.run row else row

theorem key_edit_at (k : K) (edit : Edit V) (row : V) : key (editAt k edit row) = key row := by
  unfold editAt
  split
  · exact edit.key_run row
  · rfl

/-- Change the row with a primary key. -/
def modify (t : Table V) (k : K) (edit : Edit V) : Table V :=
  ⟨t.rows.map (editAt k edit), by
    have hkeys : (t.rows.map (editAt k edit)).map key = t.rows.map key := by
      rw [List.map_map]
      exact List.map_congr_left fun row _ ↦ key_edit_at k edit row
    rw [hkeys]
    exact t.nodup⟩

/-- Delete the row with a primary key. -/
def delete (t : Table V) (k : K) : Table V :=
  t.deleteIf fun row ↦ key row == k

/-! ## What the operations leave -/

/-- The row found is the row of the table with the key. -/
theorem find_eq_some_iff {t : Table V} {k : K} {row : V} :
    t.find? k = some row ↔ row ∈ t.rows ∧ key row = k := by
  constructor
  · intro h
    exact ⟨List.mem_of_find?_eq_some h, by simpa using List.find?_some h⟩
  · rintro ⟨hmem, hkey⟩
    obtain ⟨found, hfound⟩ : ∃ found, t.find? k = some found := by
      rw [← Option.isSome_iff_exists, find?, List.find?_isSome]
      exact ⟨row, hmem, by simpa using hkey⟩
    have hfoundKey : key found = k := by simpa using List.find?_some hfound
    have hsame := eq_of_key_eq (List.mem_of_find?_eq_some hfound) hmem (hfoundKey.trans hkey.symm)
    rw [hfound, hsame]

/-- A key that is not found is no row's. -/
theorem find_eq_none_iff {t : Table V} {k : K} : t.find? k = none ↔ ∀ row ∈ t.rows, key row ≠ k := by
  simp [find?]

/-- The rows after an insertion are the rows before it, and the row when its key is new. -/
theorem mem_insert {t : Table V} {row other : V} :
    other ∈ (t.insert row).rows ↔
      other ∈ t.rows ∨ (other = row ∧ ∀ old ∈ t.rows, key old ≠ key row) := by
  unfold insert
  split
  · rename_i h
    obtain ⟨old, hold, hkey⟩ := List.mem_map.mp h
    exact ⟨.inl, fun hother ↦ hother.elim id fun hnew ↦ absurd hkey (hnew.2 old hold)⟩
  · rename_i h
    have hnew : ∀ old ∈ t.rows, key old ≠ key row :=
      fun old hold hkey ↦ h (List.mem_map.mpr ⟨old, hold, hkey⟩)
    rw [List.mem_append, List.mem_singleton]
    exact or_congr_right ⟨fun hother ↦ ⟨hother, hnew⟩, And.left⟩

/-- A row with a new key is appended. -/
theorem rows_insert_of_new {t : Table V} {row : V} (h : ∀ old ∈ t.rows, key old ≠ key row) :
    (t.insert row).rows = t.rows ++ [row] := by
  rw [insert, dif_neg]
  intro hmem
  obtain ⟨old, hold, hkey⟩ := List.mem_map.mp hmem
  exact h old hold hkey

@[simp] theorem rows_modify (t : Table V) (k : K) (edit : Edit V) :
    (t.modify k edit).rows = t.rows.map (editAt k edit) := rfl

/-- The rows after a modification are the rows before it, the one with the key changed. -/
theorem mem_modify {t : Table V} {k : K} {edit : Edit V} {row : V} :
    row ∈ (t.modify k edit).rows ↔ ∃ old ∈ t.rows, editAt k edit old = row :=
  List.mem_map

theorem mem_delete {t : Table V} {k : K} {row : V} :
    row ∈ (t.delete k).rows ↔ row ∈ t.rows ∧ key row ≠ k := by
  simp [delete, mem_delete_if]

/-- A row whose key is not the one to change is not changed. -/
theorem edit_at_of_ne {k : K} {edit : Edit V} {row : V} (h : key row ≠ k) :
    editAt k edit row = row :=
  if_neg h

theorem edit_at_of_eq {k : K} {edit : Edit V} {row : V} (h : key row = k) :
    editAt k edit row = edit.run row :=
  if_pos h

end Table

/-! ## Row writes -/

/-- A write of one row. -/
inductive RowWrite (V : Type) {K : Type} [Keyed K V] where
  | insert (row : V)
  | modify (k : K) (edit : Edit V)
  | delete (k : K)

namespace RowWrite

variable {V K : Type} [Keyed K V]

/-- The primary key of the row a write is about. -/
def rowKey : RowWrite V → K
  | insert row => key row
  | modify k _ => k
  | delete k => k

variable [DecidableEq K]

/-- The table after a write. -/
def apply (t : Table V) : RowWrite V → Table V
  | insert row => t.insert row
  | modify k edit => t.modify k edit
  | delete k => t.delete k

/-- What a write makes of the row with its key, if there is one. -/
def applied : RowWrite V → Option V → Option V
  | insert row, found => found.or (some row)
  | modify _ edit, found => found.map edit.run
  | delete _, _ => none

/-- A write changes the row with its key and no other. -/
theorem find_apply (u : RowWrite V) (t : Table V) (k : K) :
    (apply t u).find? k = if u.rowKey = k then u.applied (t.find? k) else t.find? k := by
  cases u with
  | insert row =>
      show (t.insert row).find? k = if key row = k then (t.find? k).or (some row) else t.find? k
      by_cases hnew : ∀ old ∈ t.rows, key old ≠ key row
      · unfold Table.find?
        rw [Table.rows_insert_of_new hnew, List.find?_append]
        split
        · next hk =>
            rw [List.find?_cons_of_pos (by simpa using hk)]
        · next hk =>
            rw [List.find?_cons_of_neg (by simpa using hk), List.find?_nil, Option.or_none]
      · have hsame : t.insert row = t := by
          rw [Table.insert, dif_pos]
          push Not at hnew
          obtain ⟨old, hold, hkey⟩ := hnew
          exact List.mem_map.mpr ⟨old, hold, hkey⟩
        rw [hsame]
        split
        · next hk =>
            cases hfound : t.find? k with
            | none =>
                exact absurd (fun old hold ↦ hk ▸ Table.find_eq_none_iff.mp hfound old hold) hnew
            | some old => rfl
        · rfl
  | modify k' edit =>
      show (t.modify k' edit).find? k = if k' = k then (t.find? k).map edit.run else t.find? k
      unfold Table.find?
      rw [Table.rows_modify, List.find?_map]
      have hkeys : ((fun row ↦ key row == k) ∘ Table.editAt k' edit) = fun row ↦ key row == k := by
        funext row
        rw [Function.comp_apply, Table.key_edit_at]
      rw [hkeys]
      cases hfound : t.rows.find? fun row ↦ key row == k with
      | none => simp
      | some row =>
          have hkey : key row = k := by simpa using List.find?_some hfound
          rw [Option.map_some, Table.editAt, hkey]
          by_cases hk : k' = k
          · rw [if_pos hk.symm, if_pos hk]
            rfl
          · rw [if_neg (Ne.symm hk), if_neg hk]
  | delete k' =>
      show (t.delete k').find? k = if k' = k then none else t.find? k
      unfold Table.find? Table.delete Table.deleteIf
      dsimp only
      rw [List.find?_filter]
      split
      · next hk =>
          rw [List.find?_eq_none]
          intro row _ hmeets
          simp [hk] at hmeets
      · next hk =>
          congr 1
          funext row
          rw [Bool.eq_iff_iff, decide_eq_true_iff]
          simp only [Bool.not_eq_true', beq_eq_false_iff_ne, beq_iff_eq]
          exact and_iff_right_of_imp fun hrow ↦ hrow ▸ Ne.symm hk

/-- One modification of each of some distinct keys changes the rows with these keys. -/
theorem rows_modify_each {keys : List K} (hkeys : keys.Nodup) (t : Table V) (edit : Edit V) :
    ((keys.map fun k ↦ modify k edit).foldl apply t).rows =
      t.rows.map fun row ↦ if key row ∈ keys then edit.run row else row := by
  induction keys generalizing t with
  | nil => simp
  | cons k keys ih =>
      obtain ⟨hk, hkeys⟩ := List.nodup_cons.mp hkeys
      rw [List.map_cons, List.foldl_cons, ih hkeys, apply, Table.rows_modify, List.map_map]
      refine List.map_congr_left fun row _ ↦ ?_
      show (if key (Table.editAt k edit row) ∈ keys then _ else _) = _
      rw [Table.key_edit_at]
      by_cases hrow : key row = k
      · rw [if_neg (hrow ▸ hk), if_pos (List.mem_cons.mpr (.inl hrow)), Table.edit_at_of_eq hrow]
      · simp [Table.edit_at_of_ne hrow, hrow]

/-- Rows of a table are modified, each in its own way. -/
theorem rows_modify_rows [DecidableEq V] {rows : List V} (hkeys : (rows.map key).Nodup)
    (t : Table V) (hmem : ∀ row ∈ rows, row ∈ t.rows) (edit : V → Edit V) :
    ((rows.map fun row ↦ modify (key row) (edit row)).foldl apply t).rows =
      t.rows.map fun row ↦ if row ∈ rows then (edit row).run row else row := by
  induction rows generalizing t with
  | nil => simp
  | cons first rows ih =>
      obtain ⟨hfirst, hrest⟩ := List.forall_mem_cons.mp hmem
      obtain ⟨hkey, hkeys⟩ := List.nodup_cons.mp hkeys
      have hother : ∀ row ∈ rows, key row ≠ key first := fun row hrow hsame ↦
        hkey (hsame ▸ List.mem_map_of_mem hrow)
      have hmem' : ∀ row ∈ rows, row ∈ (t.modify (key first) (edit first)).rows := fun row hrow ↦
        List.mem_map.mpr ⟨row, hrest row hrow, Table.edit_at_of_ne (hother row hrow)⟩
      rw [List.map_cons, List.foldl_cons, apply, ih hkeys _ hmem', Table.rows_modify, List.map_map]
      refine List.map_congr_left fun row hrow ↦ ?_
      show (if Table.editAt (key first) (edit first) row ∈ rows then _ else _) = _
      by_cases hsame : key row = key first
      · obtain rfl := Table.eq_of_key_eq hrow hfirst hsame
        rw [Table.edit_at_of_eq rfl, if_pos List.mem_cons_self, if_neg]
        exact fun hin ↦ hother _ hin ((edit row).key_run row)
      · have hne : row ≠ first := fun heq ↦ hsame (congrArg key heq)
        rw [Table.edit_at_of_ne hsame]
        exact if_congr (by simp [hne]) rfl rfl

end RowWrite
