import Aegis.Lib.Table
import Aegis.Lib.Transaction

/-!
# Statements on a table

What a transaction reads and writes, one table at a time. An UPDATE or DELETE with a condition
first finds its rows, then takes them one after another, and leaves out a row that by then no
longer meets the condition: another transaction may have committed in between.
-/

/-- One table of a state. -/
structure TableAt (D W V : Type) {K : Type} [Keyed K V] [DecidableEq K] [Store D W] where
  /-- The rows of the table. -/
  read : D → Table V
  /-- A write of the table. -/
  write : RowWrite V → W
  /-- A write of the table changes its rows as it says. -/
  read_write : ∀ d u, read (Store.apply d (write u)) = RowWrite.apply (read d) u
  /-- Two rows have one value of a unique column. -/
  collide : V → V → Bool

namespace TableAt

open Transaction

variable {D W V K R S Q : Type} [Keyed K V] [DecidableEq K] [Store D W] (t : TableAt D W V)

/-- Whether a row cannot be inserted for a primary key or a unique column. -/
def violates (row : V) (d : D) : Bool :=
  (t.read d).rows.any fun old ↦ key old == key row || t.collide old row

/-- Whether the row with a primary key meets a condition. -/
def still (p : V → Bool) (k : K) (d : D) : Bool :=
  ((t.read d).find? k).any p

/-- `SELECT … WHERE p`. -/
def select (p : V → Bool) : Txn D W R (List V) :=
  Txn.read fun d ↦ (t.read d).rows.filter p

/-- `SELECT … WHERE p`, for a condition that one row meets at most. -/
def selectOne (p : V → Bool) : Txn D W R (Option V) :=
  Txn.read fun d ↦ (t.read d).rows.find? p

/-- `SELECT count(*) … WHERE p`. -/
def count (p : V → Bool) : Txn D W R Nat :=
  Txn.read fun d ↦ (t.read d).rows.countP p

/-- `INSERT`. A row that a constraint forbids ends the transaction. -/
def insert (row : V) (refused : R) : Txn D W R Unit :=
  .act (fun d ↦ if t.violates row d then [] else [t.write (.insert row)])
    fun d ↦ if t.violates row d then .abort refused else .pure ()

/-- `UPDATE … WHERE key = k` of a row that was read: the row may be gone. -/
def update (k : K) (edit : Edit V) (gone : R) : Txn D W R Unit :=
  .act (fun d ↦ if t.still (fun _ ↦ true) k d then [t.write (.modify k edit)] else [])
    fun d ↦ if t.still (fun _ ↦ true) k d then .pure () else .abort gone

/-- Write the rows with some keys that still meet a condition, and count them. -/
def writeEach (p : V → Bool) (w : K → RowWrite V) : List K → Nat → Txn D W R Nat
  | [], n => .pure n
  | k :: keys, n =>
      .act (fun d ↦ if t.still p k d then [t.write (w k)] else [])
        fun d ↦ writeEach p w keys (if t.still p k d then n + 1 else n)

/-- `UPDATE … WHERE p`. -/
def updateWhere (p : V → Bool) (edit : Edit V) : Txn D W R Nat := do
  let rows ← t.select p
  t.writeEach p (fun k ↦ .modify k edit) (rows.map key) 0

/-- `DELETE … WHERE p`. -/
def deleteWhere (p : V → Bool) : Txn D W R Nat := do
  let rows ← t.select p
  t.writeEach p .delete (rows.map key) 0

/-! ## What a transaction sees of a table -/

/-- A table after writes of that table. -/
theorem read_view (us : List (RowWrite V)) (d : D) :
    t.read (view (us.map t.write) d) = us.foldl RowWrite.apply (t.read d) := by
  induction us generalizing d with
  | nil => rfl
  | cons u us ih =>
      show t.read (view (us.map t.write) (Store.apply d (t.write u))) = _
      rw [ih, t.read_write, List.foldl_cons]

/-- A modification of every row that meets a condition. -/
theorem rows_modify_where (p : V → Bool) (edit : Edit V) (d : D) :
    (t.read (view ((((t.read d).rows.filter p).map key).map fun k ↦ t.write (.modify k edit))
      d)).rows = (t.read d).rows.map fun row ↦ if p row then edit.run row else row := by
  have hkeys : (((t.read d).rows.filter p).map key).Nodup :=
    (t.read d).nodup.sublist (List.filter_sublist.map key)
  have hview := t.read_view
    ((((t.read d).rows.filter p).map key).map fun k ↦ RowWrite.modify k edit) d
  rw [List.map_map] at hview
  refine (congrArg Table.rows hview).trans ?_
  rw [RowWrite.rows_modify_each hkeys]
  refine List.map_congr_left fun row hrow ↦ if_congr ?_ rfl rfl
  rw [List.mem_map]
  constructor
  · rintro ⟨other, hother, hkey⟩
    obtain ⟨hmem, hmeets⟩ := List.mem_filter.mp hother
    rwa [Table.eq_of_key_eq hmem hrow hkey] at hmeets
  · exact fun hmeets ↦ ⟨row, List.mem_filter.mpr ⟨hrow, hmeets⟩, rfl⟩

variable {t}

/-- A row that violates no constraint has a new key. -/
theorem key_ne_of_not_violates {row : V} {d : D} (h : t.violates row d = false) :
    ∀ old ∈ (t.read d).rows, key old ≠ key row ∧ t.collide old row = false := by
  intro old hold
  have := List.any_eq_false.mp h old hold
  simpa using this

/-- The row with a key still meets a condition when it is there and meets it. -/
theorem still_of_mem {p : V → Bool} {row : V} {d : D} (hrow : row ∈ (t.read d).rows)
    (hp : p row = true) : t.still p (key row) d = true := by
  rw [still, Table.find_eq_some_iff.mpr ⟨hrow, rfl⟩]
  exact hp

/-! ## What statements write -/

section
variable {P : W → Prop}

/-- An insertion writes the row. -/
theorem within_insert {row : V} {refused : R} (h : P (t.write (.insert row))) :
    (t.insert row refused : Txn D W R Unit).Within P := by
  intro d
  dsimp only
  split
  · exact ⟨nofun, trivial⟩
  · exact ⟨fun u hu ↦ List.mem_singleton.mp hu ▸ h, trivial⟩

/-- An update writes the row with the key. -/
theorem within_update {k : K} {edit : Edit V} {gone : R} (h : P (t.write (.modify k edit))) :
    (t.update k edit gone : Txn D W R Unit).Within P := by
  intro d
  dsimp only
  split
  · exact ⟨fun u hu ↦ List.mem_singleton.mp hu ▸ h, trivial⟩
  · exact ⟨nofun, trivial⟩

/-- The rows with some keys are written. -/
theorem within_write_each {p : V → Bool} {write : K → RowWrite V} (h : ∀ k, P (t.write (write k)))
    (keys : List K) (n : Nat) : (t.writeEach p write keys n : Txn D W R Nat).Within P := by
  induction keys generalizing n with
  | nil => trivial
  | cons k keys ih =>
      intro d
      refine ⟨fun u hu ↦ ?_, ih _⟩
      dsimp only at hu
      split at hu
      · exact List.mem_singleton.mp hu ▸ h k
      · cases hu

/-- An UPDATE writes rows by its edit. -/
theorem within_update_where {p : V → Bool} {edit : Edit V} (h : ∀ k, P (t.write (.modify k edit))) :
    (t.updateWhere p edit : Txn D W R Nat).Within P :=
  (Txn.within_read _).bind fun _ ↦ within_write_each h _ 0

/-- A DELETE deletes rows. -/
theorem within_delete_where {p : V → Bool} (h : ∀ k, P (t.write (.delete k))) :
    (t.deleteWhere p : Txn D W R Nat).Within P :=
  (Txn.within_read _).bind fun _ ↦ within_write_each h _ 0

end

/-! ## Rules -/

section
variable {rely : World D Q S → World D Q S → Prop} {ends : Bool → R → World D Q S → D → Prop}
variable {ws : List W} {w : World D Q S}

@[simp] theorem wp_select {p : V → Bool} {post : List V → List W → World D Q S → Prop} :
    Wp rely ends (t.select p) post ws w ↔
      ∀ w', rely w w' → post ((t.read (view ws w'.db)).rows.filter p) ws w' :=
  wp_read

@[simp] theorem wp_select_one {p : V → Bool} {post : Option V → List W → World D Q S → Prop} :
    Wp rely ends (t.selectOne p) post ws w ↔
      ∀ w', rely w w' → post ((t.read (view ws w'.db)).rows.find? p) ws w' :=
  wp_read

@[simp] theorem wp_count {p : V → Bool} {post : Nat → List W → World D Q S → Prop} :
    Wp rely ends (t.count p) post ws w ↔
      ∀ w', rely w w' → post ((t.read (view ws w'.db)).rows.countP p) ws w' :=
  wp_read

/-- Alone, a row that violates no constraint is inserted. -/
theorem wp_insert_alone {row : V} {refused : R} {post : Unit → List W → World D Q S → Prop}
    (hfree : t.violates row (view ws w.db) = false) (h : post () (ws ++ [t.write (.insert row)]) w) :
    Wp (fun w w' ↦ w' = w) ends (t.insert row refused) post ws w := by
  rintro _ rfl
  dsimp only
  rw [hfree, if_neg Bool.false_ne_true, if_neg Bool.false_ne_true]
  exact h

/-- Alone, a row that is there is modified. -/
theorem wp_update_alone {row : V} {k : K} {edit : Edit V} {gone : R}
    {post : Unit → List W → World D Q S → Prop} (hrow : row ∈ (t.read (view ws w.db)).rows)
    (hkey : key row = k) (h : post () (ws ++ [t.write (.modify k edit)]) w) :
    Wp (fun w w' ↦ w' = w) ends (t.update k edit gone) post ws w := by
  have hstill : t.still (fun _ ↦ true) k (view ws w.db) = true := hkey ▸ still_of_mem hrow rfl
  rintro _ rfl
  dsimp only
  rw [hstill, if_pos rfl, if_pos rfl]
  exact h

variable (hrely : Interference rely)
include hrely

/-- A row is inserted, or the transaction ends. -/
theorem wp_insert {row : V} {refused : R} {post : Unit → List W → World D Q S → Prop}
    (hrefused : ∀ w', rely w w' → ends false refused w' w'.db)
    (h : ∀ w', rely w w' → t.violates row (view ws w'.db) = false →
      post () (ws ++ [t.write (.insert row)]) w') :
    Wp rely ends (t.insert row refused) post ws w := by
  intro w' hw
  dsimp only
  split
  · exact fun u hu ↦ hrefused u (hrely.trans hw hu)
  · rename_i hviolates
    exact h w' hw (by simpa using hviolates)

/-- A row is modified, or the transaction ends. -/
theorem wp_update {k : K} {edit : Edit V} {gone : R} {post : Unit → List W → World D Q S → Prop}
    (hgone : ∀ w', rely w w' → ends false gone w' w'.db)
    (h : ∀ w', rely w w' → post () (ws ++ [t.write (.modify k edit)]) w') :
    Wp rely ends (t.update k edit gone) post ws w := by
  intro w' hw
  dsimp only
  split
  · exact h w' hw
  · exact fun u hu ↦ hgone u (hrely.trans hw hu)

/-- Whichever of some rows are written, the writes are of these rows. -/
theorem wp_write_each {p : V → Bool} {write : K → RowWrite V} {keys : List K} {n : Nat}
    {post : Nat → List W → World D Q S → Prop}
    (h : ∀ w' n us, rely w w' → (∀ u ∈ us, ∃ k ∈ keys, u = t.write (write k)) →
      post n (ws ++ us) w') :
    Wp rely ends (t.writeEach p write keys n) post ws w := by
  induction keys generalizing ws w n with
  | nil =>
      have := h w n [] (hrely.refl w) (by simp)
      rwa [List.append_nil] at this
  | cons k keys ih =>
      intro w' hw
      refine ih fun v m us hv hus ↦ ?_
      rw [List.append_assoc]
      refine h v m _ (hrely.trans hw hv) fun u hu ↦ ?_
      rcases List.mem_append.mp hu with hu | hu
      · refine ⟨k, List.mem_cons_self, ?_⟩
        dsimp only at hu
        split at hu
        · exact List.mem_singleton.mp hu
        · cases hu
      · obtain ⟨j, hj, rfl⟩ := hus u hu
        exact ⟨j, List.mem_cons_of_mem k hj, rfl⟩

/-- Whichever rows an UPDATE changes, it changes them by its edit. -/
theorem wp_update_where {p : V → Bool} {edit : Edit V}
    {post : Nat → List W → World D Q S → Prop}
    (h : ∀ w' n us, rely w w' → (∀ u ∈ us, ∃ k, u = t.write (.modify k edit)) →
      post n (ws ++ us) w') :
    Wp rely ends (t.updateWhere p edit) post ws w := by
  rw [updateWhere, wp_bind, wp_select]
  intro w' hw
  refine wp_write_each hrely fun v n us hv hus ↦ h v n us (hrely.trans hw hv) fun u hu ↦ ?_
  obtain ⟨k, -, rfl⟩ := hus u hu
  exact ⟨k, rfl⟩

/-- Whichever rows a DELETE takes, they met its condition when it found them. -/
theorem wp_delete_where {p : V → Bool} {post : Nat → List W → World D Q S → Prop}
    (h : ∀ w' n us, rely w w' → (∀ u ∈ us, ∃ row, p row = true ∧ u = t.write (.delete (key row))) →
      post n (ws ++ us) w') :
    Wp rely ends (t.deleteWhere p) post ws w := by
  rw [deleteWhere, wp_bind, wp_select]
  intro w' hw
  refine wp_write_each hrely fun v n us hv hus ↦ h v n us (hrely.trans hw hv) fun u hu ↦ ?_
  obtain ⟨k, hk, rfl⟩ := hus u hu
  obtain ⟨row, hrow, rfl⟩ := List.mem_map.mp hk
  exact ⟨row, (List.mem_filter.mp hrow).2, rfl⟩

/-- When others leave the rows that meet the condition as they are, an UPDATE changes all of
them. -/
theorem wp_update_where_stable {p : V → Bool} {edit : Edit V}
    {post : Nat → List W → World D Q S → Prop} {rows : List V}
    (hrows : ∀ w', rely w w' → (t.read (view ws w'.db)).rows.filter p = rows)
    (h : ∀ w', rely w w' →
      post rows.length (ws ++ (rows.map key).map fun k ↦ t.write (.modify k edit)) w') :
    Wp rely ends (t.updateWhere p edit) post ws w := by
  rw [updateWhere, wp_bind, wp_select]
  intro w₁ hw₁
  rw [hrows w₁ hw₁]
  -- `done` are the rows changed so far, `rest` those still to be changed.
  suffices hloop : ∀ rest done : List V, done ++ rest = rows → ∀ w', rely w w' →
      Wp rely ends (t.writeEach p (fun k ↦ .modify k edit) (rest.map key) done.length) post
        (ws ++ (done.map key).map fun k ↦ t.write (.modify k edit)) w' by
    simpa using hloop rows [] rfl w₁ hw₁
  intro rest
  induction rest with
  | nil =>
      intro done hdone w' hw'
      rw [List.append_nil] at hdone
      subst hdone
      exact h w' hw'
  | cons row rest ih =>
      intro done hdone w' hw' v hv
      have hv' := hrely.trans hw' hv
      have hmem : row ∈ (t.read (view ws v.db)).rows.filter p := by
        rw [hrows v hv', ← hdone]
        simp
      obtain ⟨hrow, hp⟩ := List.mem_filter.mp hmem
      -- The keys are distinct, so the rows changed so far leave this one as it is.
      have hnodup : (rows.map key).Nodup := by
        rw [← hrows v hv']
        exact (t.read _).nodup.sublist (List.filter_sublist.map key)
      have hnotDone : key row ∉ done.map key := by
        rw [← hdone, List.map_append, List.nodup_append] at hnodup
        exact fun hk ↦ hnodup.2.2 _ hk _ (by simp) rfl
      have hdoneNodup : (done.map key).Nodup := by
        rw [← hdone, List.map_append, List.nodup_append] at hnodup
        exact hnodup.1
      have hseen : row ∈ (t.read (view (ws ++ (done.map key).map fun k ↦
          t.write (.modify k edit)) v.db)).rows := by
        have hwrites : ((done.map key).map fun k ↦ t.write (.modify k edit)) =
            ((done.map key).map fun k ↦ RowWrite.modify k edit).map t.write := by
          rw [List.map_map (l := done.map key)]
          rfl
        rw [view_append, hwrites, t.read_view, RowWrite.rows_modify_each hdoneNodup]
        exact List.mem_map.mpr ⟨row, hrow, if_neg hnotDone⟩
      have hnext := ih (done ++ [row]) (by simp [hdone]) v hv'
      dsimp only
      rw [if_pos (still_of_mem hseen hp), if_pos (still_of_mem hseen hp)]
      simpa using hnext

end

end TableAt
