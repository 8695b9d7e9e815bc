import Aegis.Api.Admission

/-!
# What folding a hit changes

The fields of a finding that one more sighting leaves alone and those it counts, and what storing
the finding does to the rows of its organization.
-/

namespace Aegis.Api

open Server

/-! ## The finding -/

namespace Finding

variable (finding : Finding) (context : AgentContext) (route : PyStr) (observedAt : Instant)

/-- Raising the confidence changes the confidence only. -/
theorem raise_confidence_eq (confidence : Confidence) :
    finding.raiseConfidence confidence =
      { finding with confidence := (finding.raiseConfidence confidence).confidence } := by
  unfold raiseConfidence
  split <;> rfl

/-- An attack that is not blocked is counted, and nothing else changes. -/
theorem count_attack_eq :
    finding.countAttack context =
      { finding with
        wouldBlockCount :=
          if finding.confidence = .EXPLOITED ∧ context.protectionMode ≠ .BLOCK then
            finding.wouldBlockCount + 1
          else finding.wouldBlockCount } := by
  unfold countAttack recordWouldBlock
  split <;> rfl

/-- Of the two counters of sightings the status chooses one. -/
theorem counts_record_occurrence (environment : PyStr) :
    (finding.recordOccurrence environment route observedAt).1 =
      { finding.recordPlace environment route observedAt with
        occurrenceCount :=
          if finding.status.isSuppressed then finding.occurrenceCount
          else finding.occurrenceCount + 1
        suppressedOccurrenceCount :=
          if finding.status.isSuppressed then finding.suppressedOccurrenceCount + 1
          else finding.suppressedOccurrenceCount
        status := (finding.recordOccurrence environment route observedAt).1.status
        regressed := (finding.recordOccurrence environment route observedAt).1.regressed
        remediatedAt := (finding.recordOccurrence environment route observedAt).1.remediatedAt } := by
  unfold recordOccurrence
  dsimp only
  split <;> try split
  all_goals rfl

/-- What a sighting leaves alone. -/
structure SameDefect (seen finding : Finding) : Prop where
  id : seen.id = finding.id
  identityHash : seen.identityHash = finding.identityHash
  ruleKey : seen.ruleKey = finding.ruleKey
  title : seen.title = finding.title
  sinkSignature : seen.sinkSignature = finding.sinkSignature
  sourceKind : seen.sourceKind = finding.sourceKind
  stackHash : seen.stackHash = finding.stackHash
  triageNote : seen.triageNote = finding.triageNote

/-- A sighting is one of the same defect. -/
theorem same_defect_see : SameDefect (finding.see context route observedAt).1 finding := by
  rw [see, counts_record_occurrence, count_attack_eq]
  exact ⟨rfl, rfl, rfl, rfl, rfl, rfl, rfl, rfl⟩

/-- A sighting of a suppressed finding leaves the counter of the others alone. -/
theorem occurrence_count_see :
    (finding.see context route observedAt).1.occurrenceCount =
      if finding.status.isSuppressed then finding.occurrenceCount
      else finding.occurrenceCount + 1 := by
  rw [see, counts_record_occurrence, count_attack_eq]
  rfl

/-- And the other way round. -/
theorem suppressed_count_see :
    (finding.see context route observedAt).1.suppressedOccurrenceCount =
      if finding.status.isSuppressed then finding.suppressedOccurrenceCount + 1
      else finding.suppressedOccurrenceCount := by
  rw [see, counts_record_occurrence, count_attack_eq]
  rfl

/-- An attack that is not blocked is counted. -/
theorem would_block_count_see :
    (finding.see context route observedAt).1.wouldBlockCount =
      if finding.confidence = .EXPLOITED ∧ context.protectionMode ≠ .BLOCK then
        finding.wouldBlockCount + 1
      else finding.wouldBlockCount := by
  rw [see, counts_record_occurrence, count_attack_eq]
  rfl

/-- A sighting is placed as `record_occurrence` says. -/
theorem place_see :
    (finding.see context route observedAt).1.environmentsSeen =
        (finding.recordPlace context.environmentKind.value route observedAt).environmentsSeen ∧
      (finding.see context route observedAt).1.routeTemplates =
        (finding.recordPlace context.environmentKind.value route observedAt).routeTemplates := by
  rw [see, counts_record_occurrence, count_attack_eq]
  exact ⟨rfl, rfl⟩

/-- A sighting is counted once, whatever the status. -/
theorem sightings_see :
    (finding.see context route observedAt).1.sightings = finding.sightings + 1 := by
  rw [sightings, occurrence_count_see, suppressed_count_see, sightings]
  split <;> omega

end Finding

/-! ## The rows -/

namespace Tenant

variable {tenant tenant' : Tenant} {finding : Finding}

/-- A row that is inserted has the counters and the identity of its finding. -/
theorem row_of_insert_row {row : FindingRow} (h : insertRow finding = .ok row) :
    row.val.identityHash = finding.identityHash ∧ row.val.sightings = finding.sightings := by
  unfold insertRow at h
  split at h
  · cases h
    exact ⟨rfl, rfl⟩
  · cases h

/-- So has a row that is updated, except that it keeps its identity. -/
theorem row_of_update_row {old row : FindingRow} (h : updateRow old finding = .ok row) :
    row.val.identityHash = old.val.identityHash ∧ row.val.sightings = finding.sightings := by
  unfold updateRow at h
  split at h
  · cases h
    exact ⟨rfl, rfl⟩
  · cases h

/-- Storing a finding puts one row, with the identity and the counters of the finding. -/
theorem exists_put_of_upsert (h : tenant.upsert finding = .ok tenant') :
    ∃ row : FindingRow, tenant' = tenant.put row ∧
      row.val.identityHash = finding.identityHash ∧ row.val.sightings = finding.sightings := by
  unfold upsert at h
  cases hold : tenant.rowOf finding.identityHash with
  | none =>
      rw [hold] at h
      obtain ⟨row, hrow, hput⟩ := Checked.bind_eq_ok.mp h
      cases hput
      exact ⟨row, rfl, row_of_insert_row hrow⟩
  | some old =>
      rw [hold] at h
      obtain ⟨row, hrow, hput⟩ := Checked.bind_eq_ok.mp h
      cases hput
      obtain ⟨hidentity, hsightings⟩ := row_of_update_row hrow
      exact ⟨row, rfl, hidentity.trans (identity_of_row_of hold), hsightings⟩

/-- A new finding is stored when its columns take it. -/
theorem exists_upsert_new_iff (hrow : tenant.rowOf finding.identityHash = none) :
    (∃ tenant', tenant.upsert finding = .ok tenant') ↔
      StoresFinding { finding with sourceKind := finding.sourceKind.take 20 } ∧
        StoresVarchar 20 finding.sourceKind := by
  unfold upsert
  rw [hrow]
  constructor
  · rintro ⟨tenant', h⟩
    obtain ⟨row, hinsert, -⟩ := Checked.bind_eq_ok.mp h
    unfold insertRow at hinsert
    split at hinsert
    · next hstores => exact hstores
    · cases hinsert
  · exact fun hstores ↦ ⟨_, Checked.bind_eq_ok.mpr ⟨_, dif_pos hstores, rfl⟩⟩

/-- A finding that exists is stored when its columns take the change. -/
theorem exists_upsert_known_iff {row : FindingRow}
    (hrow : tenant.rowOf finding.identityHash = some row) :
    (∃ tenant', tenant.upsert finding = .ok tenant') ↔
      StoresFinding (applyToRecord finding row.val) := by
  unfold upsert
  rw [hrow]
  constructor
  · rintro ⟨tenant', h⟩
    obtain ⟨row, hupdate, -⟩ := Checked.bind_eq_ok.mp h
    unfold updateRow at hupdate
    split at hupdate
    · next hstores => exact hstores
    · cases hupdate
  · exact fun hstores ↦ ⟨_, Checked.bind_eq_ok.mpr ⟨_, dif_pos hstores, rfl⟩⟩

/-- Storing a finding changes how often its own defect was seen, and nothing of the agents and the
evidence. -/
theorem sightings_upsert (h : tenant.upsert finding = .ok tenant') (identity : PyStr) :
    tenant'.sightings identity =
      if identity = finding.identityHash then finding.sightings
      else tenant.sightings identity := by
  obtain ⟨row, rfl, hidentity, hsightings⟩ := exists_put_of_upsert h
  unfold sightings
  rw [row_of_put, hidentity]
  by_cases hsame : identity = finding.identityHash <;> simp [hsame, hsightings]

/-- A finding read by its identity has the sightings of its row. -/
theorem sightings_get_by_identity (tenant : Tenant) (identity : PyStr) :
    tenant.sightings identity = ((tenant.getByIdentity identity).map Finding.sightings).getD 0 := by
  unfold sightings getByIdentity
  cases tenant.rowOf identity <;> rfl

end Tenant

end Aegis.Api
