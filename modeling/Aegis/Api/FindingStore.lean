import Aegis.Api.Finding
import Aegis.Lib.Checked

/-!
# The tables of findings

The rows of one organization, as PostgreSQL keeps them, and the queries the worker makes. A value
that a column refuses raises a `DataError`. Every query names the organization and the row-level
security of the tables names it again, so the rows of an organization are a state of their own.
-/

namespace Aegis.Api

open Server

/-! ## Columns -/

/-- A `TEXT` column refuses what has no UTF-8 encoding, and NUL. -/
def StoresText (s : PyStr) : Prop :=
  ∀ c ∈ s, c ≠ 0 ∧ PyStr.isSurrogate c = false

instance (s : PyStr) : Decidable (StoresText s) :=
  List.decidableBAll _ s

/-- A `VARCHAR` column also refuses text that is too long, unless only spaces are in excess. -/
def StoresVarchar (size : Nat) (s : PyStr) : Prop :=
  StoresText s ∧ ∀ c ∈ s.drop size, c = 32

instance (size : Nat) (s : PyStr) : Decidable (StoresVarchar size s) :=
  @instDecidableAnd _ _ _ (List.decidableBAll _ (s.drop size))

/-- An `INTEGER` column has 32 bits. -/
def StoresInteger (n : Nat) : Prop :=
  n < 2 ^ 31

instance (n : Nat) : Decidable (StoresInteger n) :=
  inferInstanceAs (Decidable (n < 2 ^ 31))

/-- A string in a `JSONB` column. -/
def StoresJson (s : PyStr) : Prop :=
  StoresText (joinSurrogates s)

instance (s : PyStr) : Decidable (StoresJson s) :=
  inferInstanceAs (Decidable (StoresText _))

/-- A text that a column stores has an encoding. -/
theorem StoresText.encodable {s : PyStr} (h : StoresText s) : PyStr.Encodable s :=
  fun c hc ↦ (h c hc).2

/-- The parts of a text are stored when the text is. -/
theorem StoresText.mono {s t : PyStr} (h : StoresText t) (hmem : ∀ c ∈ s, c ∈ t) :
    StoresText s :=
  fun c hc ↦ h c (hmem c hc)

/-- A text that fits its column is refused only for its characters. -/
theorem stores_varchar_iff {size : Nat} {s : PyStr} (h : s.length ≤ size) :
    StoresVarchar size s ↔ StoresText s := by
  simp [StoresVarchar, List.drop_eq_nil_of_le h]

/-- An identity is a digest. -/
theorem digest_of_finding_identity {lib : Library} {organizationId applicationId : Uuid}
    {ruleKey sinkSignature sourceKind stackHash identity : PyStr}
    (h : findingIdentity lib organizationId applicationId ruleKey sinkSignature sourceKind
      stackHash = .ok identity) : ∃ data, identity = lib.hexdigest data := by
  obtain ⟨data, -, hidentity⟩ := Checked.bind_eq_ok.mp h
  exact ⟨data, (Except.ok.inj hidentity).symm⟩

/-- A digest is written in ASCII. -/
theorem ascii_hexdigest (lib : Library) (data : PyBytes) :
    ∀ c ∈ lib.hexdigest data, c.val < 128 := by
  intro c hc
  have := PyStr.val_of_mem_hex hc
  omega

/-- A digest fits its column. -/
theorem stores_hexdigest (lib : Library) (data : PyBytes) :
    StoresVarchar 64 (lib.hexdigest data) := by
  rw [stores_varchar_iff (length_hexdigest lib data).le]
  intro c hc
  have hval := PyStr.val_of_mem_hex hc
  refine ⟨fun h ↦ ?_, PyStr.encodable_of_ascii (ascii_hexdigest lib data) c hc⟩
  rw [h] at hval
  exact absurd hval.1 (by decide)

/-! ## Rows -/

/-- The columns of a finding that could refuse a value. The reasoning of its score is left out: it
is made of constants and digits. -/
structure StoresFinding (finding : Finding) : Prop where
  identityHash : StoresVarchar 64 finding.identityHash
  ruleKey : StoresVarchar 60 finding.ruleKey
  title : StoresVarchar 200 finding.title.val
  sinkSignature : StoresVarchar 400 finding.sinkSignature
  sourceKind : StoresVarchar 20 finding.sourceKind
  stackHash : StoresVarchar 64 finding.stackHash
  occurrenceCount : StoresInteger finding.occurrenceCount
  suppressedOccurrenceCount : StoresInteger finding.suppressedOccurrenceCount
  wouldBlockCount : StoresInteger finding.wouldBlockCount
  environmentsSeen : ∀ environment ∈ finding.environmentsSeen, StoresText environment
  routeTemplates : ∀ route ∈ finding.routeTemplates, StoresText route
  triageNote : StoresVarchar 2000 finding.triageNote

/-- A row is refused when one of its columns refuses. -/
theorem stores_finding_iff (finding : Finding) : StoresFinding finding ↔
    StoresVarchar 64 finding.identityHash ∧ StoresVarchar 60 finding.ruleKey ∧
      StoresVarchar 200 finding.title.val ∧ StoresVarchar 400 finding.sinkSignature ∧
      StoresVarchar 20 finding.sourceKind ∧ StoresVarchar 64 finding.stackHash ∧
      StoresInteger finding.occurrenceCount ∧ StoresInteger finding.suppressedOccurrenceCount ∧
      StoresInteger finding.wouldBlockCount ∧
      (∀ environment ∈ finding.environmentsSeen, StoresText environment) ∧
      (∀ route ∈ finding.routeTemplates, StoresText route) ∧
      StoresVarchar 2000 finding.triageNote :=
  ⟨fun ⟨h₁, h₂, h₃, h₄, h₅, h₆, h₇, h₈, h₉, h₁₀, h₁₁, h₁₂⟩ ↦
      ⟨h₁, h₂, h₃, h₄, h₅, h₆, h₇, h₈, h₉, h₁₀, h₁₁, h₁₂⟩,
    fun ⟨h₁, h₂, h₃, h₄, h₅, h₆, h₇, h₈, h₉, h₁₀, h₁₁, h₁₂⟩ ↦
      ⟨h₁, h₂, h₃, h₄, h₅, h₆, h₇, h₈, h₉, h₁₀, h₁₁, h₁₂⟩⟩

instance (finding : Finding) : Decidable (StoresFinding finding) :=
  decidable_of_iff' _ (stores_finding_iff finding)

/-- A row of the table of findings. -/
abbrev FindingRow := { finding : Finding // StoresFinding finding }

/-- The columns of an occurrence that could refuse a value. -/
structure StoresOccurrence (lib : Library) (occurrence : Occurrence) : Prop where
  environment : StoresVarchar 20 occurrence.environment
  traceId : StoresVarchar 64 occurrence.traceId
  requestMethod : StoresVarchar 10 occurrence.requestMethod
  requestPath : StoresVarchar 500 occurrence.requestPath
  routeTemplate : StoresVarchar 500 occurrence.routeTemplate
  sinkArgument : StoresText occurrence.sinkArgument
  taintedRanges : ∀ range ∈ occurrence.taintedRanges,
    StoresJson range.2.2.1 ∧ StoresJson range.2.2.2
  stackFrames : ∀ frame ∈ occurrence.stackFrames, StoresJson frame.1 ∧ StoresJson frame.2.1
  remoteAddress : occurrence.remoteAddress = [] ∨ lib.isInet occurrence.remoteAddress = true

/-- An occurrence is refused when one of its columns refuses. -/
theorem stores_occurrence_iff (lib : Library) (occurrence : Occurrence) :
    StoresOccurrence lib occurrence ↔
      StoresVarchar 20 occurrence.environment ∧ StoresVarchar 64 occurrence.traceId ∧
      StoresVarchar 10 occurrence.requestMethod ∧ StoresVarchar 500 occurrence.requestPath ∧
      StoresVarchar 500 occurrence.routeTemplate ∧ StoresText occurrence.sinkArgument ∧
      (∀ range ∈ occurrence.taintedRanges,
        StoresJson range.2.2.1 ∧ StoresJson range.2.2.2) ∧
      (∀ frame ∈ occurrence.stackFrames, StoresJson frame.1 ∧ StoresJson frame.2.1) ∧
      (occurrence.remoteAddress = [] ∨ lib.isInet occurrence.remoteAddress = true) :=
  ⟨fun ⟨h₁, h₂, h₃, h₄, h₅, h₆, h₇, h₈, h₉⟩ ↦ ⟨h₁, h₂, h₃, h₄, h₅, h₆, h₇, h₈, h₉⟩,
    fun ⟨h₁, h₂, h₃, h₄, h₅, h₆, h₇, h₈, h₉⟩ ↦ ⟨h₁, h₂, h₃, h₄, h₅, h₆, h₇, h₈, h₉⟩⟩

instance (lib : Library) (occurrence : Occurrence) :
    Decidable (StoresOccurrence lib occurrence) :=
  decidable_of_iff' _ (stores_occurrence_iff lib occurrence)

/-- The rows of one organization. An agent is listed with the context that its environment and
application give it; an identity has one finding. -/
structure Tenant where
  agents : List (Uuid × AgentContext)
  findings : List FindingRow
  occurrences : List Occurrence
  unique : (findings.map fun row ↦ row.val.identityHash).Nodup

/-! ## Queries -/

namespace Tenant

/-- An organization without findings. -/
def fresh (agents : List (Uuid × AgentContext)) : Tenant :=
  ⟨agents, [], [], List.nodup_nil⟩

/-- The row of an identity. -/
def rowOf (tenant : Tenant) (identity : PyStr) : Option FindingRow :=
  tenant.findings.find? fun row ↦ row.val.identityHash = identity

/-- `get_by_identity`, through `finding_to_domain`. -/
def getByIdentity (tenant : Tenant) (identity : PyStr) : Option Finding :=
  (tenant.rowOf identity).map fun row ↦ { row.val with title := row.val.title.reload }

/-- The rows with this row in the place of the one of its identity, or at the end. -/
def put (tenant : Tenant) (row : FindingRow) : Tenant where
  agents := tenant.agents
  occurrences := tenant.occurrences
  findings :=
    if (tenant.rowOf row.val.identityHash).isSome then
      tenant.findings.map fun old ↦
        if old.val.identityHash = row.val.identityHash then row else old
    else tenant.findings ++ [row]
  unique := by
    split
    · have hmap : (tenant.findings.map fun old ↦
          if old.val.identityHash = row.val.identityHash then row else old).map
            (fun row ↦ row.val.identityHash) =
          tenant.findings.map fun row ↦ row.val.identityHash := by
        rw [List.map_map]
        refine List.map_congr_left fun old _ ↦ ?_
        by_cases h : old.val.identityHash = row.val.identityHash <;> simp [h]
      rw [hmap]
      exact tenant.unique
    · next h =>
        have hnone : tenant.rowOf row.val.identityHash = none := by simpa using h
        rw [rowOf, List.find?_eq_none] at hnone
        rw [List.map_append, List.nodup_append]
        refine ⟨tenant.unique, by simp, fun identity hmem other hother ↦ ?_⟩
        obtain ⟨old, hold, rfl⟩ := List.mem_map.mp hmem
        have hne := hnone old hold
        simp only [List.map_cons, List.map_nil, List.mem_singleton] at hother
        rw [hother]
        simpa using hne

/-- `finding_to_record`: the row of a new finding. -/
def insertRow (finding : Finding) : Except PyException FindingRow :=
  if h : StoresFinding { finding with sourceKind := finding.sourceKind.take 20 } ∧
      StoresVarchar 20 finding.sourceKind then
    .ok ⟨{ finding with sourceKind := finding.sourceKind.take 20 }, h.1⟩
  else .error .DataError

/-- `apply_finding_to_record`: copy the mutable half of a finding onto its record. -/
def applyToRecord (finding record : Finding) : Finding :=
  { record with
    title := finding.title
    severity := finding.severity
    confidence := finding.confidence
    status := finding.status
    riskScore := finding.riskScore
    riskFactors := finding.riskFactors.map fun factor ↦
      { factor with delta := roundTo 3 factor.delta }
    occurrenceCount := finding.occurrenceCount
    suppressedOccurrenceCount := finding.suppressedOccurrenceCount
    wouldBlockCount := finding.wouldBlockCount
    environmentsSeen := finding.environmentsSeen
    routeTemplates := finding.routeTemplates
    firstSeenAt := finding.firstSeenAt
    lastSeenAt := finding.lastSeenAt
    remediatedAt := finding.remediatedAt
    regressed := finding.regressed
    acceptedUntil := finding.acceptedUntil
    triageNote := finding.triageNote
    triagedBy := finding.triagedBy }

/-- The row of a finding that exists. -/
def updateRow (row : FindingRow) (finding : Finding) : Except PyException FindingRow :=
  if h : StoresFinding (applyToRecord finding row.val) then .ok ⟨_, h⟩ else .error .DataError

/-- `upsert`: insert a new finding, or update the one already carrying this identity. -/
def upsert (tenant : Tenant) (finding : Finding) : Except PyException Tenant := do
  let row ←
    match tenant.rowOf finding.identityHash with
    | none => insertRow finding
    | some existing => updateRow existing finding
  .ok (tenant.put row)

/-- `add_occurrence`. -/
def addOccurrence (lib : Library) (tenant : Tenant) (occurrence : Occurrence) :
    Except PyException Tenant :=
  if StoresOccurrence lib occurrence then
    .ok { tenant with occurrences := tenant.occurrences ++ [occurrence] }
  else .error .DataError

/-- `latest_occurrence_at`. -/
def latestOccurrenceAt (tenant : Tenant) (findingId : Uuid) : Option Instant :=
  ((tenant.occurrences.filter fun occurrence ↦ occurrence.findingId = findingId).map
    Occurrence.observedAt).max?

/-- `resolve_agent_context`, for an id that is a UUID. -/
def resolveAgentContext (tenant : Tenant) (agentId : Uuid) : Option AgentContext :=
  tenant.agents.lookup agentId

/-- How often the defect of this identity was seen. -/
def sightings (tenant : Tenant) (identity : PyStr) : Nat :=
  match tenant.rowOf identity with
  | none => 0
  | some row => row.val.sightings

/-! ## What an update changes -/

/-- A row is found under its identity. -/
theorem identity_of_row_of {tenant : Tenant} {identity : PyStr} {row : FindingRow}
    (h : tenant.rowOf identity = some row) : row.val.identityHash = identity := by
  simpa using List.find?_some h

/-- A row that is put is found under its identity, and other identities keep their rows. -/
theorem row_of_put (tenant : Tenant) (row : FindingRow) (identity : PyStr) :
    (tenant.put row).rowOf identity =
      if identity = row.val.identityHash then some row else tenant.rowOf identity := by
  show List.find? _ (if _ then _ else _) = _
  split
  · next hsome =>
      have hsame : ((fun row : FindingRow ↦ decide (row.val.identityHash = identity)) ∘ fun old ↦
          if old.val.identityHash = row.val.identityHash then row else old) =
          fun row ↦ decide (row.val.identityHash = identity) := by
        funext old
        by_cases h : old.val.identityHash = row.val.identityHash <;> simp [h]
      rw [List.find?_map, hsame]
      show (tenant.rowOf identity).map _ = _
      split
      · next hidentity =>
          obtain ⟨old, hold⟩ := Option.isSome_iff_exists.mp hsome
          simp [hidentity, hold, identity_of_row_of hold]
      · next hidentity =>
          cases hold : tenant.rowOf identity with
          | none => rfl
          | some old => simp [identity_of_row_of hold, hidentity]
  · next hnone =>
      rw [List.find?_append]
      show (tenant.rowOf identity).or _ = _
      split
      · next hidentity =>
          rw [hidentity, Option.not_isSome_iff_eq_none.mp hnone]
          simp
      · next hidentity => simp [Ne.symm hidentity]

end Tenant

end Aegis.Api
