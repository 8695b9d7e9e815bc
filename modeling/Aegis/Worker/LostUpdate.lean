import Aegis.Api.Grouping
import Aegis.Worker.Concurrency

/-!
# No lost occurrence

A transaction counts its events on what it has looked up. While no other transaction commits a
write of a finding that it has looked up, each event it commits is counted once, and no transaction
fails for a finding that another has created; and so it is in every run.
-/

namespace Aegis.Worker

open Server Api Transaction

/-- A column that nobody else has written is written as it is. -/
theorem written_self {α : Type} [DecidableEq α] (loaded entity : α) :
    written loaded entity loaded = entity := by
  unfold written
  split
  · rename_i h
    exact h.symm
  · rfl

/-- Alone, a record is written back as `applyToRecord` says. -/
theorem write_back_self (finding row : Finding) :
    writeBack row finding row = Tenant.applyToRecord finding row := by
  unfold writeBack Tenant.applyToRecord
  simp only [written_self]

/-! ## What a write leaves -/

namespace FoldWrite

variable (tenant tenant' : Tenant) (u : FoldWrite) (identity : PyStr)

/-- A worker writes no agent. -/
theorem agents_apply : (Store.apply tenant u).agents = tenant.agents := by
  cases u with
  | lookedUp identity => rfl
  | insert row =>
      show (FoldWrite.apply tenant (insert row)).agents = tenant.agents
      rw [FoldWrite.apply]
      cases tenant.rowOf row.val.identityHash <;> rfl
  | update identity loaded finding =>
      show (FoldWrite.apply tenant (update identity loaded finding)).agents = tenant.agents
      rw [FoldWrite.apply]
      cases tenant.rowOf identity with
      | none => rfl
      | some row =>
          dsimp only
          split <;> rfl
  | occurrence o => rfl

/-- The row of a finding after a write, from the row before. -/
def rowAfter (u : FoldWrite) (identity : PyStr) (row : Option FindingRow) : Option FindingRow :=
  if u.identity? = some identity then
    match u, row with
    | insert new, none => some new
    | update _ loaded finding, some row =>
        if h : StoresFinding (writeBack loaded finding row.val) then some ⟨_, h⟩ else some row
    | _, row => row
  else row

theorem row_of_apply :
    (Store.apply tenant u).rowOf identity = u.rowAfter identity (tenant.rowOf identity) := by
  unfold rowAfter
  cases u with
  | lookedUp other => rfl
  | occurrence o => rfl
  | insert new =>
      show (FoldWrite.apply tenant (insert new)).rowOf identity = _
      rw [FoldWrite.apply]
      by_cases hidentity : new.val.identityHash = identity
      · rw [if_pos (show (insert new).identity? = some identity from congrArg some hidentity),
          hidentity]
        cases hrow : tenant.rowOf identity with
        | some row => exact hrow
        | none => rw [Tenant.row_of_put, if_pos hidentity.symm]
      · rw [if_neg (show (insert new).identity? ≠ some identity from
          fun h ↦ hidentity (Option.some.inj h))]
        cases tenant.rowOf new.val.identityHash with
        | some row => rfl
        | none => rw [Tenant.row_of_put, if_neg (Ne.symm hidentity)]
  | update other loaded finding =>
      show (FoldWrite.apply tenant (update other loaded finding)).rowOf identity = _
      rw [FoldWrite.apply]
      by_cases hidentity : other = identity
      · subst hidentity
        rw [if_pos (show (update other loaded finding).identity? = some other from rfl)]
        cases hrow : tenant.rowOf other with
        | none => exact hrow
        | some row =>
            dsimp only
            split
            · rw [Tenant.row_of_put]
              exact if_pos (Tenant.identity_of_row_of hrow).symm
            · exact hrow
      · rw [if_neg (show (update other loaded finding).identity? ≠ some identity from
          fun h ↦ hidentity (Option.some.inj h))]
        cases hrow : tenant.rowOf other with
        | none => rfl
        | some row =>
            dsimp only
            split
            · rw [Tenant.row_of_put]
              exact if_neg fun h ↦ hidentity ((Tenant.identity_of_row_of hrow).symm.trans h.symm)
            · rfl

end FoldWrite

/-! ## What a transaction sees -/

section View

variable {ws : List FoldWrite} {d d' : Tenant} {identity : PyStr}

theorem agents_view : (view ws d).agents = d.agents :=
  view_congr (fun u _ d ↦ FoldWrite.agents_apply d u) d

/-- What a transaction sees of a finding rests on the row of that finding. -/
theorem row_of_view_congr (h : d.rowOf identity = d'.rowOf identity) :
    (view ws d).rowOf identity = (view ws d').rowOf identity := by
  induction ws generalizing d d' with
  | nil => exact h
  | cons u us ih =>
      refine ih ?_
      rw [FoldWrite.row_of_apply, FoldWrite.row_of_apply, h]

/-- A finding that is not written is seen as it is. -/
theorem row_of_view (h : ∀ u ∈ ws, u.identity? ≠ some identity) :
    (view ws d).rowOf identity = d.rowOf identity :=
  view_congr (f := fun tenant ↦ tenant.rowOf identity)
    (fun u hu d ↦ (FoldWrite.row_of_apply d u identity).trans (if_neg (h u hu))) d

theorem sightings_congr (h : d.rowOf identity = d'.rowOf identity) :
    d.sightings identity = d'.sightings identity := by
  unfold Tenant.sightings
  rw [h]

end View

/-! ## What a transaction relies on -/

/-- What is committed, with the transactions of workers that have ended. -/
abbrev Ledger := World Tenant FoldRequest FoldOutcome

/-- No other transaction commits a write of a finding that has been looked up. -/
def Undisturbed (ws : List FoldWrite) (w w' : Ledger) : Prop :=
  w'.db.agents = w.db.agents ∧
    ∀ identity, .lookedUp identity ∈ ws → w'.db.rowOf identity = w.db.rowOf identity

theorem interference_undisturbed (ws : List FoldWrite) : Interference (Undisturbed ws) where
  refl _ := ⟨rfl, fun _ _ ↦ rfl⟩
  trans h h' := ⟨h'.1.trans h.1, fun identity hmem ↦ (h'.2 identity hmem).trans (h.2 identity hmem)⟩

/-- No transaction has failed because another has created a finding. -/
def FoldOutcome.Unraced (outcome : FoldOutcome) : Prop :=
  outcome ≠ .integrity .identity ∧ outcome ≠ .integrity .finding

instance (outcome : FoldOutcome) : Decidable outcome.Unraced :=
  inferInstanceAs (Decidable (_ ∧ _))

theorem unraced_raised (exception : PyException) : (FoldOutcome.raised exception).Unraced :=
  ⟨nofun, nofun⟩

theorem unraced_primary_key : (FoldOutcome.integrity .primaryKey).Unraced :=
  ⟨nofun, nofun⟩

variable (pipeline : ProcessRuntimeEvents) (organizationId : Uuid)

/-- How a transaction ends: when it is committed, each of its events that becomes part of a finding
is counted once. -/
structure Counts (request : FoldRequest) (committed : Bool) (outcome : FoldOutcome) (w : Ledger)
    (db : Tenant) : Prop where
  agents : db.agents = w.db.agents
  unraced : outcome.Unraced
  sightings : ∀ identity, db.sightings identity = w.db.sightings identity +
    if committed then foldedCount pipeline organizationId w.db identity request.records else 0

variable {pipeline organizationId} {request : FoldRequest}

/-- A transaction that is rolled back counts nothing. -/
theorem counts_abort {outcome : FoldOutcome} (h : outcome.Unraced) (w : Ledger) :
    Counts pipeline organizationId request false outcome w w.db :=
  ⟨rfl, h, fun _ ↦ rfl⟩

/-- Where a transaction stands: what it has counted so far, on findings that it has looked up. -/
structure Counted (base : Tenant) (counts : PyStr → Nat) (ws : List FoldWrite) (w : Ledger) :
    Prop where
  agents : w.db.agents = base.agents
  noted : ∀ u ∈ ws, ∀ identity, u.identity? = some identity → .lookedUp identity ∈ ws
  counted : ∀ identity, .lookedUp identity ∈ ws →
    (view ws w.db).sightings identity = w.db.sightings identity + counts identity
  uncounted : ∀ identity, .lookedUp identity ∉ ws → counts identity = 0

variable {base : Tenant} {counts : PyStr → Nat} {ws : List FoldWrite} {w w' : Ledger}

theorem Counted.of_rely (h : Counted base counts ws w) (hrely : Undisturbed ws w w') :
    Counted base counts ws w' where
  agents := hrely.1.trans h.agents
  noted := h.noted
  counted identity hmem := by
    have hrow := hrely.2 identity hmem
    rw [sightings_congr (row_of_view_congr hrow), h.counted identity hmem, sightings_congr hrow]
  uncounted := h.uncounted

/-- Where a transaction stands that has looked up a finding: it sees this row. -/
structure Looked (base : Tenant) (counts : PyStr → Nat) (identity : PyStr) (row : Option FindingRow)
    (ws : List FoldWrite) (w : Ledger) : Prop where
  counted : Counted base counts ws w
  mem : .lookedUp identity ∈ ws
  row : (view ws w.db).rowOf identity = row

variable {identity : PyStr} {row : Option FindingRow}

theorem Looked.of_rely (h : Looked base counts identity row ws w) (hrely : Undisturbed ws w w') :
    Looked base counts identity row ws w' where
  counted := h.counted.of_rely hrely
  mem := h.mem
  row := (row_of_view_congr (hrely.2 identity h.mem)).trans h.row

/-- Looking up a finding. -/
theorem Counted.look (h : Counted base counts ws w) (identity : PyStr) :
    Looked base counts identity ((view ws w.db).rowOf identity) (ws ++ [.lookedUp identity]) w := by
  have hview : view (ws ++ [.lookedUp identity]) w.db = view ws w.db := view_append _ _ _
  refine ⟨⟨h.agents, fun u hu other hother ↦ ?_, fun other hother ↦ ?_, fun other hother ↦ ?_⟩,
    List.mem_append_right _ List.mem_cons_self, by rw [hview]⟩
  · obtain hold | hnew := List.mem_append.mp hu
    · exact List.mem_append_left _ (h.noted u hold other hother)
    · rw [List.mem_singleton.mp hnew] at hother
      cases hother
  · rw [hview]
    by_cases hmem : FoldWrite.lookedUp other ∈ ws
    · exact h.counted other hmem
    · rw [h.uncounted other hmem]
      exact sightings_congr (row_of_view fun u hu hwritten ↦ hmem (h.noted u hu other hwritten))
  · exact h.uncounted other fun hmem ↦ hother (List.mem_append_left _ hmem)

/-- A write of a finding that was looked up, which counts one more event. -/
theorem Looked.write (h : Looked base counts identity row ws w) {u : FoldWrite}
    (hu : u.identity? = some identity) {new : FindingRow}
    (hrow : u.rowAfter identity row = some new)
    (hsightings : new.val.sightings = (row.map fun row ↦ row.val.sightings).getD 0 + 1) :
    Looked base (fun other ↦ counts other + if other = identity then 1 else 0) identity (some new)
      (ws ++ [u]) w := by
  have hview : view (ws ++ [u]) w.db = Store.apply (view ws w.db) u := view_append _ _ _
  have hnew : (view (ws ++ [u]) w.db).rowOf identity = some new := by
    rw [hview, FoldWrite.row_of_apply, h.row, hrow]
  have hmem := h.mem
  refine ⟨⟨h.counted.agents, fun v hv other hother ↦ ?_, fun other hother ↦ ?_,
    fun other hother ↦ ?_⟩, List.mem_append_left _ hmem, hnew⟩
  · obtain hold | hlast := List.mem_append.mp hv
    · exact List.mem_append_left _ (h.counted.noted v hold other hother)
    · rw [List.mem_singleton.mp hlast, hu] at hother
      cases hother
      exact List.mem_append_left _ hmem
  · have hnoted : FoldWrite.lookedUp other ∈ ws := by
      obtain hold | hlast := List.mem_append.mp hother
      · exact hold
      · rw [← List.mem_singleton.mp hlast] at hu
        cases hu
    have hcounted := h.counted.counted other hnoted
    by_cases hsame : other = identity
    · subst hsame
      rw [if_pos rfl, ← Nat.add_assoc, ← hcounted]
      unfold Tenant.sightings
      rw [hnew, h.row]
      cases row <;> exact hsightings
    · rw [if_neg hsame, Nat.add_zero, ← hcounted, hview]
      refine sightings_congr ((FoldWrite.row_of_apply _ _ _).trans (if_neg ?_))
      rw [hu]
      exact fun heq ↦ hsame (Option.some.inj heq).symm
  · have hnoted : FoldWrite.lookedUp other ∉ ws := fun hmem ↦ hother (List.mem_append_left _ hmem)
    have hne : other ≠ identity := fun heq ↦ hnoted (heq ▸ hmem)
    rw [h.counted.uncounted other hnoted, if_neg hne]

/-! ## The steps of a transaction -/

section Steps

variable {α : Type} {post : α → List FoldWrite → Ledger → Prop}

/-- The rule for the transactions of workers. -/
abbrev WpFold (pipeline : ProcessRuntimeEvents) (organizationId : Uuid) (request : FoldRequest)
    {α : Type} (p : FoldTxn α) (post : α → List FoldWrite → Ledger → Prop)
    (ws : List FoldWrite) (w : Ledger) : Prop :=
  WpNoted Undisturbed (Counts pipeline organizationId request) p post ws w

theorem wp_abort_raised (exception : PyException) :
    WpFold pipeline organizationId request (.abort (.raised exception) : FoldTxn α) post ws w :=
  fun w' _ ↦ counts_abort (unraced_raised exception) w'

theorem wp_compute {x : Except PyException α} (h : ∀ a, x = .ok a → post a ws w) :
    WpFold pipeline organizationId request (FoldTxn.compute x) post ws w := by
  cases x with
  | error exception => exact wp_abort_raised exception
  | ok a => exact h a rfl

/-- A finding that was looked up and has not been found is inserted. -/
theorem wp_insert_finding {finding : Finding} {post : Unit → List FoldWrite → Ledger → Prop}
    (h : Looked base counts finding.identityHash none ws w) (hcount : finding.sightings = 1)
    (hpost : ∀ row ws' w', row.val.id = finding.id →
      Looked base (fun other ↦ counts other + if other = finding.identityHash then 1 else 0)
        finding.identityHash (some row) ws' w' → post () ws' w') :
    WpFold pipeline organizationId request (FoldTxn.insertFinding finding) post ws w := by
  refine wp_noted_bind.mpr (wp_compute fun row hinsert ↦ fun w' hw' ↦ ?_)
  have hlooked := h.of_rely hw'
  obtain ⟨hidentity, hsightings⟩ := Tenant.row_of_insert_row hinsert
  have hid : row.val.id = finding.id := by
    unfold Tenant.insertRow at hinsert
    split at hinsert
    · cases hinsert
      rfl
    · cases hinsert
  have hunknown : ((view ws w'.db).rowOf row.val.identityHash).isSome = false := by
    rw [hidentity, hlooked.row]
    rfl
  simp only [hunknown, Bool.or_false, Bool.false_eq_true, if_false]
  split
  · exact fun u _ ↦ counts_abort unraced_primary_key u
  · refine hpost row _ w' hid (hlooked.write ?_ ?_ ?_)
    · exact congrArg some hidentity
    · exact if_pos (congrArg some hidentity)
    · rw [hsightings, hcount]
      rfl

/-- A finding that was looked up and found is updated. -/
theorem wp_update_finding {row : FindingRow} {finding : Finding}
    {post : Unit → List FoldWrite → Ledger → Prop}
    (h : Looked base counts finding.identityHash (some row) ws w)
    (hcount : finding.sightings = row.val.sightings + 1) (hid : row.val.id = finding.id)
    (hpost : ∀ row ws' w', row.val.id = finding.id →
      Looked base (fun other ↦ counts other + if other = finding.identityHash then 1 else 0)
        finding.identityHash (some row) ws' w' → post () ws' w') :
    WpFold pipeline organizationId request (FoldTxn.updateFinding row.val finding) post ws w := by
  intro w' hw'
  have hlooked := h.of_rely hw'
  simp only [hlooked.row, Option.any_some, decide_eq_true_eq]
  split
  · rename_i hfits
    refine hpost ⟨_, hfits⟩ _ w' hid (hlooked.write rfl ?_ ?_)
    · exact (if_pos rfl).trans (dif_pos hfits)
    · exact (congrArg Finding.sightings (write_back_self finding row.val)).trans hcount
  · exact wp_abort_raised _

theorem wp_upsert {finding : Finding} {post : Unit → List FoldWrite → Ledger → Prop}
    (h : Looked base counts finding.identityHash row ws w)
    (hcount : finding.sightings = (row.map fun row ↦ row.val.sightings).getD 0 + 1)
    (hid : ∀ old, row = some old → old.val.id = finding.id)
    (hpost : ∀ row ws' w', row.val.id = finding.id →
      Looked base (fun other ↦ counts other + if other = finding.identityHash then 1 else 0)
        finding.identityHash (some row) ws' w' → post () ws' w') :
    WpFold pipeline organizationId request (FoldTxn.upsert finding) post ws w := by
  refine wp_noted_bind.mpr (wp_noted_read.mpr fun w' hw' ↦ ?_)
  have hlooked := h.of_rely hw'
  rw [hlooked.row]
  cases row with
  | none => exact wp_insert_finding hlooked hcount hpost
  | some row => exact wp_update_finding hlooked hcount (hid row rfl) hpost

/-- Evidence is no write of a finding. -/
theorem Looked.keep (h : Looked base counts identity row ws w) (o : Occurrence) :
    Looked base counts identity row (ws ++ [.occurrence o]) w := by
  have hview : ∀ other, (view (ws ++ [.occurrence o]) w.db).rowOf other =
      (view ws w.db).rowOf other := by
    intro other
    rw [view_append]
    rfl
  have hmem : ∀ other, FoldWrite.lookedUp other ∈ ws ++ [.occurrence o] ↔
      FoldWrite.lookedUp other ∈ ws := by simp
  refine ⟨⟨h.counted.agents, fun u hu other hother ↦ ?_, fun other hother ↦ ?_,
    fun other hother ↦ ?_⟩, (hmem _).mpr h.mem, (hview identity).trans h.row⟩
  · obtain hold | hlast := List.mem_append.mp hu
    · exact (hmem _).mpr (h.counted.noted u hold other hother)
    · rw [List.mem_singleton.mp hlast] at hother
      cases hother
  · rw [sightings_congr (hview other), h.counted.counted other ((hmem _).mp hother)]
  · exact h.counted.uncounted other fun hnoted ↦ hother ((hmem _).mpr hnoted)

/-- Evidence is kept of a finding that is there. -/
theorem wp_add_occurrence {lib : Library} {o : Occurrence} {new : FindingRow}
    {post : Unit → List FoldWrite → Ledger → Prop}
    (h : Looked base counts identity (some new) ws w) (hid : new.val.id = o.findingId)
    (hpost : ∀ ws' w', Looked base counts identity (some new) ws' w' → post () ws' w') :
    WpFold pipeline organizationId request (FoldTxn.addOccurrence lib o) post ws w := by
  unfold FoldTxn.addOccurrence
  split
  · intro w' hw'
    have hlooked := h.of_rely hw'
    have hfound : ((view ws w'.db).findings.any fun row ↦ row.val.id = o.findingId) = true := by
      rw [List.any_eq_true]
      exact ⟨new, List.mem_of_find?_eq_some hlooked.row, decide_eq_true hid⟩
    simp only [hfound, Bool.true_and, if_true]
    split
    · exact fun u _ ↦ counts_abort unraced_primary_key u
    · rename_i htaken
      simp only [Bool.not_eq_true] at htaken
      simp only [htaken, Bool.not_false, if_true]
      exact hpost _ w' (hlooked.keep o)
  · exact wp_abort_raised _

theorem wp_keep_evidence {record : JsonObject} {hit : Hit} {finding : Finding}
    {observedAt : Instant} {draws : Nat} {new : FindingRow}
    {post : Nat → List FoldWrite → Ledger → Prop}
    (h : Looked base counts identity (some new) ws w) (hid : new.val.id = finding.id)
    (hpost : ∀ draws ws' w', Looked base counts identity (some new) ws' w' → post draws ws' w') :
    WpFold pipeline organizationId request
      (request.keepEvidence pipeline organizationId record hit finding observedAt draws) post ws
      w := by
  have hkept : ∀ keep w', Looked base counts identity (some new) ws w' →
      WpFold pipeline organizationId request (if keep = true then do
        let occurrence ← FoldTxn.compute
          (pipeline.evidence organizationId record hit finding.id observedAt (request.newId draws))
        FoldTxn.addOccurrence pipeline.library occurrence
        .pure (draws + 1)
      else .pure draws) post ws w' := by
    intro keep w' hlooked
    split
    · refine wp_noted_bind.mpr (wp_compute fun o hevidence ↦ wp_noted_bind.mpr ?_)
      have hfinding : o.findingId = finding.id := by
        obtain ⟨_, -, h⟩ := Checked.bind_eq_ok.mp hevidence
        obtain ⟨_, -, h⟩ := Checked.bind_eq_ok.mp h
        obtain ⟨_, -, h⟩ := Checked.bind_eq_ok.mp h
        obtain ⟨_, -, h⟩ := Checked.bind_eq_ok.mp h
        obtain ⟨_, -, h⟩ := Checked.bind_eq_ok.mp h
        cases h
        rfl
      exact wp_add_occurrence hlooked (hid.trans hfinding.symm) fun ws' w' h ↦ hpost _ ws' w' h
    · exact hpost _ ws w' hlooked
  refine wp_noted_bind.mpr ?_
  unfold FoldRequest.shouldKeepEvidence
  split
  · exact hkept true w h
  · exact wp_noted_bind.mpr (wp_noted_read.mpr fun w' hw' ↦ hkept _ w' (h.of_rely hw'))

/-- The finding a hit is folded into has the identity, the sightings and the id of its row. -/
theorem find_or_create_eq_ok {tenant : Tenant} {hit : Hit} {stackHash : PyStr} {draws : Nat}
    {found : Finding × Nat}
    (h : request.findOrCreate pipeline organizationId hit identity stackHash draws
      (tenant.getByIdentity identity) = .ok found) :
    found.1.identityHash = identity ∧ found.1.sightings =
        ((tenant.rowOf identity).map fun row ↦ row.val.sightings).getD 0 ∧
      ∀ old, tenant.rowOf identity = some old → old.val.id = found.1.id := by
  unfold Tenant.getByIdentity at h
  cases hrow : tenant.rowOf identity with
  | none =>
      rw [hrow, Option.map_none, FoldRequest.findOrCreate] at h
      obtain ⟨finding, hnew, hok⟩ := Checked.bind_eq_ok.mp h
      obtain rfl := Except.ok.inj hok
      obtain ⟨hidentity, hcount⟩ := new_finding_eq_ok hnew
      exact ⟨hidentity, hcount, fun _ hold ↦ (by cases hold)⟩
  | some row =>
      rw [hrow, Option.map_some, FoldRequest.findOrCreate] at h
      obtain rfl := Except.ok.inj h
      dsimp only
      rw [Finding.raise_confidence_eq]
      refine ⟨Tenant.identity_of_row_of hrow, rfl, fun old hold ↦ ?_⟩
      cases hold
      rfl

/-- A hit that is folded is counted once. -/
theorem wp_fold_hit (h : Counted base counts ws w) {record : JsonObject} {hit : Hit} {draws : Nat}
    {post : Nat → List FoldWrite → Ledger → Prop}
    (hpost : ∀ identity stackHash draws ws' w',
      pipeline.identify organizationId hit = .ok (identity, stackHash) →
      Counted base (fun other ↦ counts other + if other = identity then 1 else 0) ws' w' →
      post draws ws' w') :
    WpFold pipeline organizationId request
      (request.foldHit pipeline organizationId record hit draws) post ws w := by
  unfold FoldRequest.foldHit
  refine wp_noted_bind.mpr (wp_compute ?_)
  rintro ⟨identity, stackHash⟩ hidentity
  refine wp_noted_bind.mpr (wp_compute ?_)
  rintro ⟨observed, drawn⟩ -
  refine wp_noted_bind.mpr ?_
  intro w' hw'
  have hlooked := (h.of_rely hw').look identity
  refine wp_noted_bind.mpr (wp_compute ?_)
  rintro ⟨finding, drawn'⟩ hfound
  obtain ⟨hhash, hcount, hid⟩ := find_or_create_eq_ok hfound
  have hsame := finding.same_defect_see hit.context (routeTemplate pipeline.library hit.payload)
    observed
  have hsightings := finding.sightings_see hit.context (routeTemplate pipeline.library hit.payload)
    observed
  dsimp only at hhash hcount hid ⊢
  generalize (finding.see hit.context (routeTemplate pipeline.library hit.payload) observed).1 =
    seen at hsame hsightings ⊢
  obtain rfl : seen.identityHash = identity := hsame.identityHash.trans hhash
  refine wp_noted_bind.mpr (wp_upsert hlooked (hsightings.trans (congrArg (· + 1) hcount))
    (fun old hold ↦ (hid old hold).trans hsame.id.symm) fun row ws' w'' hrow hwritten ↦ ?_)
  exact wp_keep_evidence hwritten hrow fun drawn ws' w' hkept ↦
    hpost _ stackHash drawn ws' w' hidentity hkept.counted

/-- An event is counted once in the finding it becomes part of. -/
theorem wp_fold_record (h : Counted base counts ws w) {record : JsonObject} {draws : Nat}
    {post : Nat → List FoldWrite → Ledger → Prop}
    (hpost : ∀ draws ws' w', Counted base (fun identity ↦ counts identity +
      if foldedIdentity pipeline organizationId base record = some identity then 1 else 0) ws' w' →
      post draws ws' w') :
    WpFold pipeline organizationId request
      (request.foldRecord pipeline organizationId record draws) post ws w := by
  refine wp_noted_bind.mpr (wp_noted_read.mpr fun w' hw' ↦ ?_)
  have hcounted := h.of_rely hw'
  have hadmitted : admitted pipeline.library (view ws w'.db) record =
      admitted pipeline.library base record :=
    admitted_congr (agents_view.trans hcounted.agents) record
  rw [hadmitted]
  cases hhit : admitted pipeline.library base record with
  | none =>
      refine hpost draws ws w' ?_
      simp only [foldedIdentity, hhit, Option.bind_none, reduceCtorEq, if_false, Nat.add_zero]
      exact hcounted
  | some hit =>
      refine wp_fold_hit hcounted fun identity stackHash drawn ws' w' hidentity hnext ↦
        hpost drawn ws' w' ?_
      have hfolded : foldedIdentity pipeline organizationId base record = some identity := by
        rw [foldedIdentity, hhit, Option.bind_some, hidentity]
        rfl
      simpa only [hfolded, Option.some.injEq, eq_comm (a := identity)] using hnext

/-- The loop counts each of its events once. -/
theorem wp_fold_records {records : List JsonObject} {draws : Nat}
    {post : Empty → List FoldWrite → Ledger → Prop} (h : Counted base counts ws w)
    (hall : ∀ identity, counts identity +
      foldedCount pipeline organizationId base identity records =
        foldedCount pipeline organizationId base identity request.records) :
    WpFold pipeline organizationId request
      (request.foldRecords pipeline organizationId records draws) post ws w := by
  induction records generalizing counts draws ws w with
  | nil =>
      intro w' hw'
      have hcounted := h.of_rely hw'
      refine ⟨agents_view, ⟨nofun, nofun⟩, fun identity ↦ ?_⟩
      have htotal : counts identity = foldedCount pipeline organizationId w'.db identity
          request.records := by
        rw [folded_count_congr hcounted.agents, ← hall identity]
        rfl
      rw [if_pos rfl, ← htotal]
      by_cases hmem : FoldWrite.lookedUp identity ∈ ws
      · exact hcounted.counted identity hmem
      · rw [hcounted.uncounted identity hmem]
        exact sightings_congr (row_of_view fun u hu hwritten ↦
          hmem (hcounted.noted u hu identity hwritten))
  | cons record records ih =>
      refine wp_noted_bind.mpr (wp_fold_record h fun drawn ws' w' hnext ↦ ih hnext fun identity ↦ ?_)
      rw [← hall identity, foldedCount, foldedCount, List.countP_cons]
      simp only [decide_eq_true_eq]
      omega

end Steps

/-! ## Every run -/

/-- The events that the transactions that are committed count for a finding. -/
def committedCount (pipeline : ProcessRuntimeEvents) (organizationId : Uuid) (tenant : Tenant)
    (identity : PyStr) (log : List (Entry FoldRequest FoldOutcome)) : Nat :=
  (log.map fun entry ↦
    if entry.committed then
      foldedCount pipeline organizationId tenant identity entry.request.records
    else 0).sum

/-- Every event of a committed transaction is counted once, and no transaction has failed because
another has created a finding. -/
structure Exactly (pipeline : ProcessRuntimeEvents) (organizationId : Uuid) (tenant : Tenant)
    (w : Ledger) : Prop where
  sightings : ∀ identity, w.db.sightings identity = tenant.sightings identity +
    committedCount pipeline organizationId tenant identity w.log
  unraced : ∀ entry ∈ w.log, entry.outcome.Unraced

/-- The step commits no write of a finding that another transaction in flight has looked up. -/
def Apart (s : Server Tenant FoldWrite FoldRequest FoldOutcome) (l : Label FoldRequest) : Prop :=
  ∀ f ∈ others s l, ∀ identity, .lookedUp identity ∈ f.pending →
    ∀ u ∈ committing s l, u.identity? ≠ some identity

/-- Whether a write and a note are of one finding. -/
def FoldWrite.disturbs (u v : FoldWrite) : Bool :=
  match v with
  | lookedUp identity => u.identity? = some identity
  | _ => false

instance (s : Server Tenant FoldWrite FoldRequest FoldOutcome) (l : Label FoldRequest) :
    Decidable (Apart s l) :=
  decidable_of_iff ((others s l).all fun f ↦ f.pending.all fun v ↦ (committing s l).all fun u ↦
      !u.disturbs v) <| by
    simp only [List.all_eq_true, Bool.not_eq_true', Apart]
    constructor
    · exact fun h f hf identity hmem u hu ↦ of_decide_eq_false (h f hf _ hmem u hu)
    · intro h f hf v hv u hu
      cases v with
      | lookedUp identity => exact decide_eq_false (h f hf identity hv u hu)
      | _ => rfl

/-- In every run of workers in which no transaction commits a write of a finding that another one
in flight has looked up, whatever the order of their statements, every event of a committed
transaction is counted once, and no transaction fails because another has created its finding. -/
theorem no_lost_occurrence (pipeline : ProcessRuntimeEvents) (organizationId : Uuid)
    (tenant : Tenant) (labels : List (Label FoldRequest))
    (hapart : Machine.Meets (step (FoldRequest.transaction pipeline organizationId)) Apart
      ⟨⟨tenant, []⟩, []⟩ labels) :
    ∀ p ∈ Machine.visited (step (FoldRequest.transaction pipeline organizationId))
      ⟨⟨tenant, []⟩, []⟩ labels, Exactly pipeline organizationId tenant p.2.world := by
  let rely : FoldRequest → List FoldWrite → Ledger → Ledger → Prop := fun _ ↦ Undisturbed
  let inv : Ledger → Prop := fun w ↦
    w.db.agents = tenant.agents ∧ Exactly pipeline organizationId tenant w
  have henter : ∀ (s : Server Tenant FoldWrite FoldRequest FoldOutcome) request, inv s.world →
      Apart s (.start request) → Flight.Safe rely (Counts pipeline organizationId)
        ⟨request, [], request.transaction pipeline organizationId⟩ s.world := by
    intro s request _ _
    have hstart : Counted s.world.db (fun _ ↦ 0) [] s.world :=
      ⟨rfl, fun _ h ↦ (by cases h), fun _ h ↦ (by cases h), fun _ _ ↦ rfl⟩
    exact wp_fold_records hstart fun _ ↦ Nat.zero_add _
  have hends : ∀ (s : Server Tenant FoldWrite FoldRequest FoldOutcome) l, inv s.world → Apart s l →
      Ended (Counts pipeline organizationId) s.world
        (step (FoldRequest.transaction pipeline organizationId) s l).2.world →
      inv (step (FoldRequest.transaction pipeline organizationId) s l).2.world ∧
        ∀ f ∈ others s l, rely f.request f.pending s.world
          (step (FoldRequest.transaction pipeline organizationId) s l).2.world := by
    rintro s l ⟨hagents, hexactly⟩ hcondition ⟨request, committed, outcome, db, hworld, hcounts⟩
    have hdb := db_step (FoldRequest.transaction pipeline organizationId) s l
    have hnext : (step (FoldRequest.transaction pipeline organizationId) s l).2.world.db.agents =
        s.world.db.agents := by
      rw [hworld]
      exact hcounts.agents
    refine ⟨⟨hnext.trans hagents, fun identity ↦ ?_, ?_⟩, fun f hf ↦ ⟨hnext, fun identity hmem ↦ ?_⟩⟩
    · rw [hworld]
      show db.sightings identity = _
      rw [hcounts.sightings, hexactly.sightings, folded_count_congr hagents]
      show _ = _ + ((if committed = true then
        foldedCount pipeline organizationId tenant identity request.records else 0) +
          committedCount pipeline organizationId tenant identity s.world.log)
      omega
    · rw [hworld]
      exact List.forall_mem_cons.mpr ⟨hcounts.unraced, hexactly.unraced⟩
    · rw [hdb]
      exact row_of_view fun u hu ↦ hcondition f hf identity hmem u hu
  have hstart : inv ⟨tenant, []⟩ := ⟨rfl, fun _ ↦ rfl, fun _ h ↦ (by cases h)⟩
  exact fun p hp ↦ (invariant_run (fun _ ↦ interference_undisturbed) henter hends hstart hapart p
    hp).2

/-! ## Two workers and one finding -/

/-- A worker that is given one hit, and draws ids from some number on. -/
def oneHit (first : Nat) : FoldRequest :=
  ⟨fun _ ↦ 0, fun n ↦ BitVec.ofNat _ (first + n), [hitAt 1]⟩

/-- What a run of workers over an organization with one agent comes to. -/
def afterWorkers (labels : List (Label FoldRequest)) : Ledger :=
  (Machine.final (step (FoldRequest.transaction examplePipeline 1))
    ⟨⟨.fresh [(2, exampleContext)], []⟩, []⟩ labels).world

/-- The finding is created; then two workers look it up before either writes it. -/
def lostUpdate : List (Label FoldRequest) :=
  [.start (oneHit 10), .advance 0, .advance 0, .advance 0, .advance 0, .advance 0,
    .start (oneHit 20), .advance 0, .start (oneHit 30), .advance 0,
    .advance 1, .advance 0, .advance 0, .advance 0, .advance 0, .advance 0, .advance 0, .advance 0]

/-- Two workers look up a finding that neither has created yet. -/
def creationRace : List (Label FoldRequest) :=
  [.start (oneHit 10), .advance 0, .start (oneHit 20), .advance 0,
    .advance 1, .advance 0, .advance 0, .advance 0, .advance 0, .advance 0, .advance 0]

/-- Three transactions are committed and two events are counted; and a transaction fails because
another has created its finding. -/
theorem occurrences_are_lost :
    ((afterWorkers lostUpdate).log.map fun entry ↦ (entry.committed, entry.outcome)) =
        List.replicate 3 (true, .folded) ∧
      (afterWorkers lostUpdate).db.sightings (PyStr.hex 64 0) = 2 ∧
      committedCount examplePipeline 1 (.fresh [(2, exampleContext)]) (PyStr.hex 64 0)
        (afterWorkers lostUpdate).log = 3 ∧
      ((afterWorkers creationRace).log.map fun entry ↦ (entry.committed, entry.outcome)) =
        [(false, .integrity .finding), (true, .folded)] := by
  decide +kernel

/-- A worker starts while another one folds, and looks the finding up when that one is done. -/
def oneAfterTheOther : List (Label FoldRequest) :=
  [.start (oneHit 10), .advance 0, .advance 0, .start (oneHit 20), .advance 1, .advance 0,
    .advance 0, .advance 0, .advance 0, .advance 0, .advance 0, .advance 0]

/-- Both are counted. -/
theorem one_after_the_other_is_exact :
    Exactly examplePipeline 1 (.fresh [(2, exampleContext)]) (afterWorkers oneAfterTheOther) := by
  obtain ⟨_, hfinal⟩ : ∃ o, (o, Machine.final (step (FoldRequest.transaction examplePipeline 1))
      ⟨⟨.fresh [(2, exampleContext)], []⟩, []⟩ oneAfterTheOther) ∈
      Machine.visited (step (FoldRequest.transaction examplePipeline 1))
        ⟨⟨.fresh [(2, exampleContext)], []⟩, []⟩ oneAfterTheOther :=
    Machine.exists_visited_final _ _ _
  have hexact := no_lost_occurrence examplePipeline 1 (.fresh [(2, exampleContext)])
    oneAfterTheOther (by decide +kernel)
  have hworld := hexact _ hfinal
  rwa [afterWorkers]

end Aegis.Worker
