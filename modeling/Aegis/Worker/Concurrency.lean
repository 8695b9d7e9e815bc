import Aegis.Lib.Transaction
import Aegis.Api.Folding
import Aegis.Worker.Loop

/-!
# Workers beside each other

The transaction of `ProcessRuntimeEvents` statement by statement, as several workers run it at read
committed over the rows of one organization. Which events are folded rests on the rows of agents,
which no worker writes.
-/

namespace Aegis.Worker

open Server Api

/-! ## What a worker writes -/

deriving instance DecidableEq for ScoreFactor

/-- A column after a record is written back: only what differs from what was loaded is written. -/
def written {α : Type} [DecidableEq α] (loaded entity current : α) : α :=
  if entity = loaded then current else entity

/-- `apply_finding_to_record`, of a record that was loaded, and the UPDATE of the row as it is by
then. -/
def writeBack (loaded finding row : Finding) : Finding :=
  { row with
    title := written loaded.title finding.title row.title
    severity := written loaded.severity finding.severity row.severity
    confidence := written loaded.confidence finding.confidence row.confidence
    status := written loaded.status finding.status row.status
    riskScore := written loaded.riskScore finding.riskScore row.riskScore
    riskFactors := written loaded.riskFactors
      (finding.riskFactors.map fun factor ↦ { factor with delta := roundTo 3 factor.delta })
      row.riskFactors
    occurrenceCount := written loaded.occurrenceCount finding.occurrenceCount row.occurrenceCount
    suppressedOccurrenceCount := written loaded.suppressedOccurrenceCount
      finding.suppressedOccurrenceCount row.suppressedOccurrenceCount
    wouldBlockCount := written loaded.wouldBlockCount finding.wouldBlockCount row.wouldBlockCount
    environmentsSeen :=
      written loaded.environmentsSeen finding.environmentsSeen row.environmentsSeen
    routeTemplates := written loaded.routeTemplates finding.routeTemplates row.routeTemplates
    firstSeenAt := written loaded.firstSeenAt finding.firstSeenAt row.firstSeenAt
    lastSeenAt := written loaded.lastSeenAt finding.lastSeenAt row.lastSeenAt
    remediatedAt := written loaded.remediatedAt finding.remediatedAt row.remediatedAt
    regressed := written loaded.regressed finding.regressed row.regressed
    acceptedUntil := written loaded.acceptedUntil finding.acceptedUntil row.acceptedUntil
    triageNote := written loaded.triageNote finding.triageNote row.triageNote
    triagedBy := written loaded.triagedBy finding.triagedBy row.triagedBy }

/-- A write of a worker, or a note of a finding it has looked up. -/
inductive FoldWrite where
  /-- The finding of an identity was looked up. Nothing is written. -/
  | lookedUp (identity : PyStr)
  | insert (row : FindingRow)
  | update (identity : PyStr) (loaded finding : Finding)
  | occurrence (occurrence : Occurrence)

namespace FoldWrite

/-- The identity of the finding that is written. -/
def identity? : FoldWrite → Option PyStr
  | insert row => some row.val.identityHash
  | update identity _ _ => some identity
  | lookedUp _ | occurrence _ => none

/-- The rows after a write. -/
def apply (tenant : Tenant) : FoldWrite → Tenant
  | lookedUp _ => tenant
  | insert row =>
      match tenant.rowOf row.val.identityHash with
      | some _ => tenant
      | none => tenant.put row
  | update identity loaded finding =>
      match tenant.rowOf identity with
      | some row =>
          if h : StoresFinding (writeBack loaded finding row.val) then tenant.put ⟨_, h⟩
          else tenant
      | none => tenant
  | occurrence o => { tenant with occurrences := tenant.occurrences ++ [o] }

/-- Writes of one finding wait for each other, and so do findings and evidence of one id. -/
def clashes : FoldWrite → FoldWrite → Bool
  | insert a, insert b => a.val.identityHash = b.val.identityHash || a.val.id = b.val.id
  | occurrence a, occurrence b => a.id = b.id
  | a, b => a.identity?.isSome && a.identity? = b.identity?

end FoldWrite

instance : Store Tenant FoldWrite := ⟨FoldWrite.apply, FoldWrite.clashes⟩

/-! ## The transaction -/

/-- A constraint of the tables of findings. -/
inductive Constraint where
  /-- `uq_findings_organization_id_identity_hash`. -/
  | identity
  /-- The foreign key of an occurrence. -/
  | finding
  | primaryKey
  deriving DecidableEq

/-- How a transaction of a worker ends. -/
inductive FoldOutcome where
  | folded
  | raised (exception : PyException)
  /-- An `IntegrityError`. -/
  | integrity (violated : Constraint)
  deriving DecidableEq

/-- The transaction of a worker. -/
abbrev FoldTxn := Txn Tenant FoldWrite FoldOutcome

namespace FoldTxn

/-- A computation that may raise. -/
def compute {α : Type} : Except PyException α → FoldTxn α
  | .ok a => .pure a
  | .error exception => .abort (.raised exception)

/-- `get_by_identity`: the finding, with a note that it was looked up. -/
def getByIdentity (identity : PyStr) : FoldTxn (Option Finding) :=
  .act (fun _ ↦ [.lookedUp identity]) fun tenant ↦ .pure (tenant.getByIdentity identity)

/-- The INSERT of a new finding. -/
def insertFinding (finding : Finding) : FoldTxn Unit := do
  let row ← compute (Tenant.insertRow finding)
  let taken (tenant : Tenant) : Bool := tenant.findings.any fun old ↦ old.val.id = row.val.id
  let known (tenant : Tenant) : Bool := (tenant.rowOf row.val.identityHash).isSome
  .act (fun tenant ↦ if taken tenant || known tenant then [] else [.insert row]) fun tenant ↦
    if known tenant then .abort (.integrity .identity)
    else if taken tenant then .abort (.integrity .primaryKey)
    else .pure ()

/-- The UPDATE of a finding that was loaded. A column may refuse its value. -/
def updateFinding (loaded finding : Finding) : FoldTxn Unit :=
  let fits (tenant : Tenant) : Bool := (tenant.rowOf finding.identityHash).any fun row ↦
    StoresFinding (writeBack loaded finding row.val)
  .act (fun tenant ↦
      if fits tenant then [.update finding.identityHash loaded finding] else []) fun tenant ↦
    if fits tenant then .pure () else .abort (.raised .DataError)

/-- `upsert`: the finding is looked for once more, and its record loaded anew. -/
def upsert (finding : Finding) : FoldTxn Unit := do
  let existing ← Txn.read fun tenant ↦ tenant.rowOf finding.identityHash
  match existing with
  | none => insertFinding finding
  | some row => updateFinding row.val finding

/-- `add_occurrence`. Its finding has to be there. -/
def addOccurrence (lib : Library) (occurrence : Occurrence) : FoldTxn Unit :=
  if StoresOccurrence lib occurrence then
    let found (tenant : Tenant) : Bool :=
      tenant.findings.any fun row ↦ row.val.id = occurrence.findingId
    let taken (tenant : Tenant) : Bool := tenant.occurrences.any fun old ↦ old.id = occurrence.id
    .act (fun tenant ↦ if found tenant && !taken tenant then [.occurrence occurrence] else [])
      fun tenant ↦
        if taken tenant then .abort (.integrity .primaryKey)
        else if found tenant then .pure ()
        else .abort (.integrity .finding)
  else .abort (.raised .DataError)

end FoldTxn

/-- What a worker is given to fold, with the times and ids it draws, one after another. -/
structure FoldRequest where
  now : Nat → Instant
  newId : Nat → Uuid
  records : List JsonObject

namespace FoldRequest

variable (pipeline : ProcessRuntimeEvents) (organizationId : Uuid) (request : FoldRequest)

/-- `_observed_at`, and the number of times and ids drawn after it. -/
def observedAt (record : JsonObject) (draws : Nat) : Except PyException (Instant × Nat) := do
  let millis ← readMillis pipeline.library record
  if millis ≤ 0 then .ok (request.now draws, draws + 1)
  else do
    let observed ← fromTimestamp millis
    .ok (observed, draws)

/-- The finding of an identity, or a new one. -/
def findOrCreate (hit : Hit) (identity stackHash : PyStr) (draws : Nat) :
    Option Finding → Except PyException (Finding × Nat)
  | none => do
      let finding ← pipeline.newFinding organizationId hit identity stackHash (request.newId draws)
      .ok (finding, draws + 1)
  | some finding =>
      .ok (finding.raiseConfidence
        (confidenceOf pipeline.library (dictGet hit.payload (py "confidence"))), draws)

/-- `_should_keep_evidence`. -/
def shouldKeepEvidence (finding : Finding) (observedAt : Instant) : FoldTxn Bool :=
  if finding.occurrenceCount ≤ 1 then .pure true
  else do
    let latest ← Txn.read fun tenant ↦ tenant.latestOccurrenceAt finding.id
    .pure (latest.all fun latest ↦ observedAt - latest ≥ pipeline.evidenceInterval)

/-- Keep the evidence of a hit when it is due. -/
def keepEvidence (record : JsonObject) (hit : Hit) (finding : Finding) (observedAt : Instant)
    (draws : Nat) : FoldTxn Nat := do
  if ← shouldKeepEvidence pipeline finding observedAt then
    let occurrence ← FoldTxn.compute
      (pipeline.evidence organizationId record hit finding.id observedAt (request.newId draws))
    FoldTxn.addOccurrence pipeline.library occurrence
    .pure (draws + 1)
  else .pure draws

/-- The part of `_apply` after a hit is admitted. -/
def foldHit (record : JsonObject) (hit : Hit) (draws : Nat) : FoldTxn Nat := do
  let (identity, stackHash) ← FoldTxn.compute (pipeline.identify organizationId hit)
  let (observed, draws) ← FoldTxn.compute (request.observedAt pipeline record draws)
  let existing ← FoldTxn.getByIdentity identity
  let (finding, draws) ← FoldTxn.compute
    (request.findOrCreate pipeline organizationId hit identity stackHash draws existing)
  let seen := (finding.see hit.context (routeTemplate pipeline.library hit.payload) observed).1
  FoldTxn.upsert seen
  request.keepEvidence pipeline organizationId record hit seen observed draws

/-- `_apply`. An event that is ignored or rejected changes nothing. -/
def foldRecord (record : JsonObject) (draws : Nat) : FoldTxn Nat := do
  match ← Txn.read fun tenant ↦ admitted pipeline.library tenant record with
  | none => .pure draws
  | some hit => request.foldHit pipeline organizationId record hit draws

/-- The loop of `execute` over a tenant's events, and the commit. -/
def foldRecords : List JsonObject → Nat → FoldTxn Empty
  | [], _ => .commit .folded
  | record :: records, draws => do
      let draws ← request.foldRecord pipeline organizationId record draws
      foldRecords records draws

/-- The transaction of a worker. -/
def transaction : FoldTxn Empty :=
  request.foldRecords pipeline organizationId request.records 0

end FoldRequest

end Aegis.Worker
