import Mathlib.Data.List.Sort

/-!
# Pages by key

Rows are listed in the order of a key, a page at a time. A query looks one row further than its
page goes, and the last row of a page that does not end the list is where the next page starts.
-/

namespace Aegis.Keyset

variable {α κ γ ε : Type*}

/-! ## Order -/

section

variable [LinearOrder κ] (key : α → κ)

/-- The rows in the order of their keys. -/
def ordered (rows : List α) : List α :=
  rows.mergeSort fun a b ↦ decide (key a ≤ key b)

theorem ordered_perm (rows : List α) : (ordered key rows).Perm rows :=
  List.mergeSort_perm _ _

theorem ordered_le (rows : List α) : (ordered key rows).Pairwise fun a b ↦ key a ≤ key b := by
  refine (List.pairwise_mergeSort (fun a b c hab hbc ↦ ?_) (fun a b ↦ ?_) rows).imp fun h ↦
    of_decide_eq_true h
  · exact decide_eq_true ((of_decide_eq_true hab).trans (of_decide_eq_true hbc))
  · simpa using le_total (key a) (key b)

/-- Rows whose keys differ are in strict order. -/
theorem ordered_lt {rows : List α} (h : (rows.map key).Nodup) :
    (ordered key rows).Pairwise fun a b ↦ key a < key b := by
  have hnodup : ((ordered key rows).map key).Nodup :=
    ((ordered_perm key rows).map key).nodup_iff.mpr h
  exact (ordered_le key rows).imp₂ (fun _ _ hle hne ↦ lt_of_le_of_ne hle hne)
    (List.pairwise_map.mp hnodup)

/-- Which rows are listed does not change the order of the others. -/
theorem ordered_filter {rows : List α} (h : (rows.map key).Nodup) (p : α → Bool) :
    ordered key (rows.filter p) = (ordered key rows).filter p := by
  have hsub : (((ordered key rows).filter p).Pairwise fun a b ↦ key a ≤ key b) :=
    (ordered_le key rows).filter p
  have hperm : (ordered key (rows.filter p)).Perm ((ordered key rows).filter p) :=
    (ordered_perm key _).trans ((ordered_perm key rows).filter p).symm
  refine hperm.eq_of_pairwise (fun a b ha hb hab hba ↦ ?_) (ordered_le key _) hsub
  have ha' : a ∈ rows := List.mem_of_mem_filter ((ordered_perm key _).subset ha)
  have hb' : b ∈ rows := (ordered_perm key rows).subset (List.mem_of_mem_filter hb)
  exact List.inj_on_of_nodup_map h ha' hb' (le_antisymm hab hba)

/-- Rows with one list of keys are told apart by their order. -/
theorem ordered_inj {rows others : List α} (h : (rows.map key).Nodup)
    (hkeys : rows.map key = others.map key) :
    ordered key rows = ordered key others ↔ rows = others := by
  refine ⟨fun hordered ↦ ?_, congrArg _⟩
  have hperm : rows.Perm others :=
    (ordered_perm key rows).symm.trans (hordered ▸ ordered_perm key others)
  refine List.ext_getElem (by simpa using congrArg List.length hkeys) fun i hi hi' ↦ ?_
  have hmem : rows[i] ∈ others := hperm.subset (List.getElem_mem hi)
  refine List.inj_on_of_nodup_map (hkeys ▸ h) hmem (List.getElem_mem hi') ?_
  simpa [hi, hi'] using congrArg (fun keys ↦ keys[i]?) hkeys

/-- Rows that are changed but for their keys are listed in the same order. -/
theorem ordered_map {β : Type*} {key' : β → κ} {f : α → β} (h : ∀ row, key' (f row) = key row)
    (rows : List α) : ordered key' (rows.map f) = (ordered key rows).map f :=
  (List.map_mergeSort (f := f) fun a _ b _ ↦ by rw [h, h]).symm

end

/-! ## Pages -/

/-- The rows of a page out of those that were found, and the last one of them if more were. -/
def trim (limit : Nat) (found : List α) : List α × Option α :=
  if limit < found.length then (found.take limit, (found.take limit).getLast?) else (found, none)

/-- The page of changed rows is the changed page. -/
theorem trim_map {β : Type*} (f : α → β) (limit : Nat) (found : List α) :
    trim limit (found.map f) = ((trim limit found).1.map f, (trim limit found).2.map f) := by
  unfold trim
  rw [List.length_map]
  split
  · rw [← List.map_take, List.getLast?_map]
  · rfl

/-- A page that the rows found give does not need all of them. -/
theorem trim_take (limit : Nat) (rows : List α) : trim limit (rows.take (limit + 1)) =
    if limit < rows.length then (rows.take limit, (rows.take limit).getLast?) else (rows, none) := by
  have htake : (rows.take (limit + 1)).take limit = rows.take limit := by
    rw [List.take_take, min_eq_left (Nat.le_succ limit)]
  unfold trim
  rw [htake, List.length_take]
  split_ifs with h₁ h₂ h₂
  · rfl
  · omega
  · omega
  · rw [List.take_of_length_le (by omega)]

/-- All rows, page after page, for at most `fuel` pages. -/
def follow (page : Option γ → Except ε (List α × Option γ)) : Nat → Option γ → Option (List α)
  | 0, _ => none
  | fuel + 1, cursor =>
      match page cursor with
      | .error _ => none
      | .ok (rows, none) => some rows
      | .ok (rows, some next) => (follow page fuel (some next)).map (rows ++ ·)

/-- Following the cursors from the first page ends, and has visited the rows, each of them once and
in the order of the keys. -/
def Visits {β : Type*} [LT κ] (key : α → κ) (entity : α → β) (rows : List α)
    (page : Option γ → Except ε (List β × Option γ)) : Prop :=
  ∃ listed : List α, listed.Perm rows ∧ (listed.Pairwise fun a b ↦ key a < key b) ∧
    ∀ fuel > rows.length, follow page fuel none = some (listed.map entity)

/-- What is made of each row does not matter for the cursors. -/
theorem follow_map {β : Type*} (f : α → β) (page : Option γ → Except ε (List α × Option γ))
    (fuel : Nat) (cursor : Option γ) :
    follow (fun cursor ↦ (page cursor).map (Prod.map (List.map f) id)) fuel cursor =
      (follow page fuel cursor).map (List.map f) := by
  induction fuel generalizing cursor with
  | zero => rfl
  | succ fuel ih =>
      rw [follow, follow]
      cases page cursor with
      | error e => rfl
      | ok result =>
          obtain ⟨rows, _ | next⟩ := result
          · rfl
          · show (follow _ fuel (some next)).map (List.map f rows ++ ·) = _
            rw [ih]
            show ((follow page fuel (some next)).map (List.map f)).map _ =
              ((follow page fuel (some next)).map (rows ++ ·)).map (List.map f)
            rw [Option.map_map, Option.map_map]
            congr 1
            funext more
            exact List.map_append.symm

/-- The pages of a list: the first one, and for each row the one after it, which the row's cursor
asks for. -/
structure Pages (rows : List α) (limit : Nat) (before : α → α → Prop) [DecidableRel before]
    (cursor : α → γ) (page : Option γ → Except ε (List α × Option γ)) : Prop where
  ordered : rows.Pairwise before
  first : page none =
    .ok ((trim limit (rows.take (limit + 1))).map id fun last ↦ last.map cursor)
  next : ∀ row ∈ rows, page (some (cursor row)) =
    .ok ((trim limit ((rows.filter (before row)).take (limit + 1))).map id
      fun last ↦ last.map cursor)

section

variable {rows : List α} {limit : Nat} {before : α → α → Prop} [DecidableRel before]
  {cursor : α → γ} {page : Option γ → Except ε (List α × Option γ)}

/-- The rows after a row are the rest of the list. -/
theorem filter_after (hasymm : ∀ a b, before a b → ¬ before b a) {front rest : List α} {row : α}
    (h : (front ++ row :: rest).Pairwise before) :
    (front ++ row :: rest).filter (before row) = rest := by
  obtain ⟨-, hrow, hfront⟩ := List.pairwise_append.mp h
  have hbefore : front.filter (before row) = [] :=
    List.filter_eq_nil_iff.mpr fun a ha ↦ by
      simpa using hasymm a row (hfront a ha row List.mem_cons_self)
  have hself : decide (before row row) = false :=
    decide_eq_false fun hself ↦ hasymm row row hself hself
  have hafter : rest.filter (before row) = rest :=
    List.filter_eq_self.mpr fun b hb ↦ decide_eq_true (List.rel_of_pairwise_cons hrow hb)
  rw [List.filter_append, hbefore, List.filter_cons_of_neg (by simp [hself]), hafter,
    List.nil_append]

/-- From a row on, the pages give the rest of the list. -/
theorem follow_rest (h : Pages rows limit before cursor page) (hlimit : 0 < limit)
    (hasymm : ∀ a b, before a b → ¬ before b a) {rest : List α} :
    ∀ {fuel : Nat} {front : List α} {row : α}, rows = front ++ row :: rest → rest.length < fuel →
      follow page fuel (some (cursor row)) = some rest := by
  induction hlength : rest.length using Nat.strong_induction_on generalizing rest with
  | _ n ih =>
      intro fuel front row hrows hfuel
      obtain ⟨fuel, rfl⟩ : ∃ f, fuel = f + 1 := ⟨fuel - 1, by omega⟩
      have hpage := h.next row (hrows ▸ by simp)
      have hordered := h.ordered
      rw [hrows] at hordered
      rw [hrows, filter_after hasymm hordered, trim_take] at hpage
      rw [follow, hpage]
      split_ifs with hmore
      · obtain ⟨last, hlast⟩ : ∃ last, (rest.take limit).getLast? = some last :=
          Option.isSome_iff_exists.mp (by
            rw [List.getLast?_isSome]
            exact List.ne_nil_of_length_pos (by rw [List.length_take]; omega))
        obtain ⟨init, hinit⟩ := List.getLast?_eq_some_iff.mp hlast
        have hrest : rest = init ++ last :: rest.drop limit := by
          rw [List.append_cons, ← hinit, List.take_append_drop]
        have hsplit : rows = (front ++ row :: init) ++ last :: rest.drop limit := by
          rw [List.append_assoc, List.cons_append, ← hrest, hrows]
        have hshorter : (rest.drop limit).length < n := by
          rw [List.length_drop]
          omega
        have hfollow : follow page fuel (some (cursor last)) = some (rest.drop limit) :=
          ih _ hshorter rfl hsplit (by omega)
        simp only [Prod.map_apply, id_eq, hlast, Option.map_some, hfollow,
          List.take_append_drop]
      · rfl

/-- All the pages together are the list, each of its rows once and in its order. -/
theorem follow_all (h : Pages rows limit before cursor page) (hlimit : 0 < limit)
    (hasymm : ∀ a b, before a b → ¬ before b a) {fuel : Nat} (hfuel : rows.length < fuel) :
    follow page fuel none = some rows := by
  obtain ⟨fuel, rfl⟩ : ∃ f, fuel = f + 1 := ⟨fuel - 1, by omega⟩
  have hpage := h.first
  rw [trim_take] at hpage
  rw [follow, hpage]
  split_ifs with hmore
  · obtain ⟨last, hlast⟩ : ∃ last, (rows.take limit).getLast? = some last :=
      Option.isSome_iff_exists.mp (by
        rw [List.getLast?_isSome]
        exact List.ne_nil_of_length_pos (by rw [List.length_take]; omega))
    obtain ⟨init, hinit⟩ := List.getLast?_eq_some_iff.mp hlast
    have hsplit : rows = init ++ last :: rows.drop limit := by
      rw [List.append_cons, ← hinit, List.take_append_drop]
    have hrest : follow page fuel (some (cursor last)) = some (rows.drop limit) :=
      follow_rest h hlimit hasymm hsplit (by rw [List.length_drop]; omega)
    simp only [Prod.map_apply, id_eq, hlast, Option.map_some, hrest, List.take_append_drop]
  · rfl

/-- Pages of rows in the order of their keys visit the rows. -/
theorem visits_of_pages {β : Type*} [LinearOrder κ] {key : α → κ} (entity : α → β)
    (hkeys : (rows.map key).Nodup) (hlimit : 0 < limit)
    (h : Pages (ordered key rows) limit (fun a b ↦ key a < key b) cursor page) :
    Visits key entity rows fun cursor ↦ (page cursor).map (Prod.map (List.map entity) id) := by
  refine ⟨ordered key rows, ordered_perm key rows, ordered_lt key hkeys, fun fuel hfuel ↦ ?_⟩
  have hlength : (ordered key rows).length < fuel := by
    rw [(ordered_perm key rows).length_eq]
    exact hfuel
  rw [follow_map, follow_all h hlimit (fun _ _ ↦ lt_asymm) hlength]
  rfl

end

end Aegis.Keyset
