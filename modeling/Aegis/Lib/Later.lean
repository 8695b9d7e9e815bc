import Aegis.Lib.Table

/-!
# Tables that only grow

Where rows are inserted and modified, and never deleted, a row stays where it is. `Table.Later` says
that a table is a later state of another one, each row of which has become what a relation admits;
a query for one row that the relation does not affect then finds the same row.
-/

namespace Table

variable {V K : Type} [Keyed K V] {R : V → V → Prop}

/-- The rows of the table stand in the later one where they stood. -/
def Later (R : V → V → Prop) (t t' : Table V) : Prop :=
  ∀ (i : Nat) (row : V), t.rows[i]? = some row → ∃ row', t'.rows[i]? = some row' ∧ R row row'

theorem later_refl (hrefl : ∀ row, R row row) (t : Table V) : Later R t t :=
  fun _ row h ↦ ⟨row, h, hrefl row⟩

theorem Later.trans (htrans : ∀ {a b c}, R a b → R b c → R a c) {t t' t'' : Table V}
    (h : Later R t t') (h' : Later R t' t'') : Later R t t'' := by
  intro i row hrow
  obtain ⟨middle, hmiddle, hlater⟩ := h i row hrow
  obtain ⟨last, hlast, hlater'⟩ := h' i middle hmiddle
  exact ⟨last, hlast, htrans hlater hlater'⟩

/-- No row goes away. -/
theorem Later.mem {t t' : Table V} (h : Later R t t') {row : V} (hrow : row ∈ t.rows) :
    ∃ row' ∈ t'.rows, R row row' := by
  obtain ⟨i, hi⟩ := List.mem_iff_getElem?.mp hrow
  obtain ⟨row', hrow', hlater⟩ := h i row hi
  exact ⟨row', List.mem_of_getElem? hrow', hlater⟩

/-- The row that a query finds is found later too: no other row comes before it. -/
theorem Later.find {t t' : Table V} (h : Later R t t') {p : V → Bool}
    (hp : ∀ row row', R row row' → p row' = p row) {row : V}
    (hfound : t.rows.find? p = some row) : ∃ row', t'.rows.find? p = some row' ∧ R row row' := by
  obtain ⟨hmeets, i, hi, hrow, hbefore⟩ := List.find?_eq_some_iff_getElem.mp hfound
  obtain ⟨row', hrow', hlater⟩ := h i row (hrow ▸ List.getElem?_eq_getElem hi)
  refine ⟨row', List.find?_eq_some_iff_getElem.mpr ⟨?_, i, ?_, ?_, fun j hj ↦ ?_⟩, hlater⟩
  · rw [hp row row' hlater, hmeets]
  · exact (List.getElem?_eq_some_iff.mp hrow').1
  · exact (List.getElem?_eq_some_iff.mp hrow').2
  · obtain ⟨other, hother, hsame⟩ := h j _ (List.getElem?_eq_getElem (Nat.lt_trans hj hi))
    rw [(List.getElem?_eq_some_iff.mp hother).2, hp _ other hsame]
    exact hbefore j hj

variable [DecidableEq K]

/-- A row that is inserted comes after the others. -/
theorem later_insert (hrefl : ∀ row, R row row) (t : Table V) (row : V) :
    Later R t (t.insert row) := by
  intro i old hold
  refine ⟨old, ?_, hrefl old⟩
  rw [Table.insert]
  split
  · exact hold
  · show (t.rows ++ [row])[i]? = some old
    rw [List.getElem?_append_left (List.getElem?_eq_some_iff.mp hold).1, hold]

/-- One that is modified stays in its place. -/
theorem later_modify (hrefl : ∀ row, R row row) {edit : Edit V}
    (hedit : ∀ row, R row (edit.run row)) (t : Table V) (k : K) : Later R t (t.modify k edit) := by
  intro i old hold
  refine ⟨editAt k edit old, ?_, ?_⟩
  · rw [rows_modify, List.getElem?_map, hold]
    rfl
  · unfold editAt
    split
    · exact hedit old
    · exact hrefl old

end Table
