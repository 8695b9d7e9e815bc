import Aegis.Lib.Prog
import Aegis.Api.FindingStore

/-!
# The worker pipeline

`ProcessRuntimeEvents`: runtime events in, managed findings out. A batch is split by tenant, and
each tenant is one transaction. A fault is a database operation that fails.
-/

namespace Aegis.Api

open Server

/-! ## The rules -/

/-- `TITLE_BY_RULE`. -/
def TITLE_BY_RULE : List (PyStr × PyStr) :=
  [(py "sql-injection", py "SQL injection"),
    (py "command-injection", py "OS command injection"),
    (py "path-traversal", py "Path traversal"),
    (py "unsafe-deserialization", py "Unsafe deserialization"),
    (py "xxe", py "XML External Entity (XXE) injection"),
    (py "reflected-xss", py "Reflected cross-site scripting"),
    (py "ssrf", py "Server-side request forgery"),
    (py "ldap-injection", py "LDAP injection"),
    (py "xpath-injection", py "XPath injection"),
    (py "open-redirect", py "Open redirect"),
    (py "log-injection", py "Log injection"),
    (py "header-injection", py "HTTP header injection")]

/-- `CWE_BY_RULE`. -/
def CWE_BY_RULE : List (PyStr × Nat) :=
  [(py "sql-injection", 89), (py "command-injection", 78), (py "path-traversal", 22),
    (py "unsafe-deserialization", 502), (py "xxe", 611), (py "reflected-xss", 79),
    (py "ssrf", 918), (py "ldap-injection", 90), (py "xpath-injection", 643),
    (py "open-redirect", 601), (py "log-injection", 117), (py "header-injection", 113)]

/-! ## Reading an event -/

section Reading

variable (lib : Library)

/-- The objects of a list; what is not a list has none. -/
def objectsOf : Json → List JsonObject
  | .list items =>
      items.filterMap fun
        | .object fields => some fields
        | _ => none
  | _ => []

/-- `_frames`. -/
def framesOf (stack : Json) : List Frame :=
  (objectsOf stack).map fun frame ↦
    ⟨(dictGet frame (py "declaring_class")).strOr lib,
      (dictGet frame (py "method_name")).strOr lib,
      (dictGet frame (py "application_code")).truthy⟩

/-- `_stack_frames`. The line number is converted as it comes. -/
def stackFrames (stack : Json) : Except PyException (List (PyStr × PyStr × Int × Bool)) :=
  (objectsOf stack).mapM fun frame ↦ do
    let lineNumber ← (dictGet frame (py "line_number")).intOr lib
    .ok ((dictGet frame (py "declaring_class")).strOr lib,
      (dictGet frame (py "method_name")).strOr lib, lineNumber,
      (dictGet frame (py "application_code")).truthy)

/-- `_ranges`. -/
def rangesOf (ranges : Json) : Except PyException (List (Int × Int × PyStr × PyStr)) :=
  (objectsOf ranges).mapM fun item ↦ do
    let start ← (dictGet item (py "start")).intOr lib
    let length ← (dictGet item (py "length")).intOr lib
    .ok (start, length, (dictGet item (py "source")).strOr lib,
      (dictGet item (py "source_name")).strOr lib)

/-- `_primary_source_kind`: the source kind identity is keyed on. -/
def primarySourceKind : Json → PyStr
  | .list (.object first :: _) =>
      let kind := lib.upper
        (PyStr.removePrefix (py "SOURCE_KIND_") ((dictGet first (py "source")).strOr lib))
      if kind.isEmpty then py "UNKNOWN" else kind
  | _ => py "UNKNOWN"

/-- `_severity`. -/
def severityOf (raw : Json) : Severity :=
  let value := lib.upper (PyStr.removePrefix (py "SEVERITY_") (raw.strOr lib))
  (Severity.values.find? fun severity ↦ severity.value == value).getD .MEDIUM

/-- `_confidence`. -/
def confidenceOf (raw : Json) : Confidence :=
  let value := lib.upper (PyStr.removePrefix (py "CONFIDENCE_") (raw.strOr lib))
  (Confidence.values.find? fun confidence ↦ confidence.value == value).getD .SUSPECTED

/-- `_route_template`. A request that is not an object has none. -/
def routeTemplate (hit : JsonObject) : PyStr :=
  match dictGetD hit (py "request") (.object []) with
  | .object request =>
      let route := dictGet request (py "route_template")
      (if route.truthy then route.toStr lib
      else (dictGet request (py "path")).strOr lib).take 500
  | _ => []

/-- `str(hit.get("request", {}).get(key) or "")`: the request is taken for an object. -/
def requestField (hit : JsonObject) (key : PyStr) : Except PyException PyStr :=
  match dictGetD hit (py "request") (.object []) with
  | .object request => .ok ((dictGet request key).strOr lib)
  | _ => .error .AttributeError

/-- `_title`. -/
def titleOf (ruleKey : PyStr) (frames : List Frame) : PyStr :=
  let label := (TITLE_BY_RULE.lookup ruleKey).getD ruleKey
  match frames.find? fun frame ↦ frame.isApplicationCode && !frame.declaringClass.isEmpty with
  | some frame =>
      (label ++ py " in " ++ PyStr.afterLast 46 frame.declaringClass ++ py "." ++
        frame.methodName).take 200
  | none => label

/-- `datetime.fromtimestamp(millis / 1000, tz=UTC)`: a `datetime` ends with the year 9999. -/
def fromTimestamp (millis : Int) : Except PyException Instant :=
  if millis < 253402300800000 then .ok (millis * 1000) else .error .ValueError

/-- The milliseconds `_observed_at` reads; zero for what is no number. -/
def readMillis (record : JsonObject) : Except PyException Int :=
  match (dictGet record (py "occurred_at_ms")).intOr lib with
  | .error .TypeError | .error .ValueError => .ok 0
  | read => read

/-- `record.get("type") != "EVENT_TYPE_TAINT_HIT"`, negated. -/
def isTaintHit (record : JsonObject) : Bool :=
  match dictGet record (py "type") with
  | .str type => type == py "EVENT_TYPE_TAINT_HIT"
  | _ => false

end Reading

/-! ## The transaction of a tenant -/

/-- How a step of the pipeline fails: an `EventRejectedError`, or any other exception. -/
inductive Failure where
  | rejected (rejection : PyStr)
  | raised (exception : PyException)

/-- What a batch came to. -/
structure ProcessingResult where
  findingsCreated : Nat
  findingsUpdated : Nat
  regressions : Nat
  occurrencesStored : Nat
  rejected : Nat
  ignored : Nat
  rejections : List PyStr
  deriving DecidableEq

namespace ProcessingResult

/-- The result of no event. -/
def initial : ProcessingResult := ⟨0, 0, 0, 0, 0, 0, []⟩

/-- The events that became part of a finding. -/
def processed (result : ProcessingResult) : Nat :=
  result.findingsCreated + result.findingsUpdated

/-- The events the result accounts for. -/
def accounted (result : ProcessingResult) : Nat :=
  result.processed + result.ignored + result.rejected

/-- Count a rejection, and keep its text while there is room. -/
def reject (result : ProcessingResult) (rejection : PyStr) : ProcessingResult :=
  { result with
    rejected := result.rejected + 1
    rejections :=
      if result.rejections.length < 50 then result.rejections ++ [rejection]
      else result.rejections }

/-- Count an event that cannot become a finding. -/
def ignore (result : ProcessingResult) : ProcessingResult :=
  { result with ignored := result.ignored + 1 }

/-- Count an event that became part of a finding. -/
def fold (result : ProcessingResult) (created : Bool) : ProcessingResult :=
  if created then { result with findingsCreated := result.findingsCreated + 1 }
  else { result with findingsUpdated := result.findingsUpdated + 1 }

end ProcessingResult

/-- What the broadcaster is given for a folded event. -/
structure Announcement where
  organizationId : Uuid
  created : Bool
  findingId : Uuid
  ruleKey : PyStr
  severity : Severity
  confidence : Confidence
  sinkSignature : PyStr
  applicationId : Uuid
  occurrenceCount : Nat
  observedAt : Instant

/-- The pipeline: its library, the clock and the ids it draws from, one after another, and how far
apart evidence is kept. -/
structure ProcessRuntimeEvents where
  library : Library
  now : Nat → Instant
  newId : Nat → Uuid
  evidenceInterval : Int

/-- The state of a transaction: the rows as it sees them, the contexts it has resolved, and what
outlives it. -/
structure Batch where
  tenant : Tenant
  contexts : List (PyStr × Option AgentContext)
  result : ProcessingResult
  announcements : List Announcement
  draws : Nat

/-- A taint hit that can become part of a finding. -/
structure Hit where
  context : AgentContext
  payload : JsonObject
  ruleKey : PyStr

/-- A step of a transaction. -/
abbrev Step := Prog Failure Batch

namespace Step

/-- A computation that may raise. -/
def compute {α : Type} (x : Except PyException α) : Step α :=
  Prog.lift (x.mapError .raised)

/-- A query of the database. -/
def query {α : Type} (read : Tenant → α) : Step α := do
  Prog.attempt (.raised .OperationalError)
  Prog.read fun batch ↦ read batch.tenant

/-- A change of the database. -/
def write (change : Tenant → Except PyException Tenant) : Step PUnit := do
  let tenant ← query change
  let tenant ← compute tenant
  Prog.modify fun batch ↦ { batch with tenant := tenant }

/-- Change the result. -/
def count (change : ProcessingResult → ProcessingResult) : Step PUnit :=
  Prog.modify fun batch ↦ { batch with result := change batch.result }

end Step

/-! ## Folding an event -/

/-- `_CONFIDENCE_ORDER`. -/
def Confidence.order : Confidence → Nat
  | SUSPECTED => 0
  | CONFIRMED => 1
  | EXPLOITED => 2

/-- Confidence only grows. -/
def Finding.raiseConfidence (finding : Finding) (confidence : Confidence) : Finding :=
  if confidence.order > finding.confidence.order then { finding with confidence := confidence }
  else finding

/-- Count an attack that was not blocked. -/
def Finding.countAttack (finding : Finding) (context : AgentContext) : Finding :=
  if finding.confidence = .EXPLOITED ∧ context.protectionMode ≠ .BLOCK then
    finding.recordWouldBlock
  else finding

/-- The score of a finding in the context of an agent. -/
def Finding.scoreIn (finding : Finding) (context : AgentContext) : RiskScore :=
  scoreFinding finding.severity finding.confidence context.exposureWeight
    context.criticality.weight (finding.confidence = .EXPLOITED) finding.occurrenceCount

/-- One sighting folded into a finding: counted, placed and scored. True for a regression. -/
def Finding.see (finding : Finding) (context : AgentContext) (route : PyStr)
    (observedAt : Instant) : Finding × Bool :=
  let seen := (finding.countAttack context).recordOccurrence context.environmentKind.value route
    observedAt
  (seen.1.rescore (seen.1.scoreIn context), seen.2)

namespace ProcessRuntimeEvents

variable (pipeline : ProcessRuntimeEvents)

/-- A new id. -/
def drawId : Step Uuid := do
  let id ← Prog.read fun batch ↦ pipeline.newId batch.draws
  Prog.modify fun batch ↦ { batch with draws := batch.draws + 1 }
  pure id

/-- `_observed_at`. -/
def observedAt (record : JsonObject) : Step Instant := do
  let millis ← Step.compute (readMillis pipeline.library record)
  if millis ≤ 0 then
    let now ← Prog.read fun batch ↦ pipeline.now batch.draws
    Prog.modify fun batch ↦ { batch with draws := batch.draws + 1 }
    pure now
  else Step.compute (fromTimestamp millis)

/-- The context of an agent, resolved once in a transaction. -/
def contextOf (agentId : PyStr) : Step (Option AgentContext) := do
  match ← Prog.read fun batch ↦ batch.contexts.lookup agentId with
  | some context => pure context
  | none =>
      let context ←
        match pipeline.library.parseUuid agentId with
        | none => pure none
        | some id => Step.query fun tenant ↦ tenant.resolveAgentContext id
      Prog.modify fun batch ↦ { batch with contexts := (agentId, context) :: batch.contexts }
      pure context

/-- The part of `_apply` that may reject a taint hit. -/
def admitHit (record : JsonObject) : Step Hit := do
  let agentId := (dictGet record (py "agent_id")).strOr pipeline.library
  if agentId.isEmpty then
    Prog.raise (.rejected
      (py "event carries no agent id; cannot attribute it to an application"))
  else
    match ← pipeline.contextOf agentId with
    | none => Prog.raise (.rejected (py "agent " ++ agentId ++ py " is not registered"))
    | some context =>
        match dictGet record (py "payload") with
        | .object payload =>
            if (payload.lookup (py "sink_signature")).isNone then
              Prog.raise (.rejected (py "taint hit event carries no usable payload"))
            else
              let ruleKey := pipeline.library.lower
                ((dictGet payload (py "rule_key")).strOr pipeline.library).strip
              if (TITLE_BY_RULE.lookup ruleKey).isNone then
                Prog.raise (.rejected
                  (py "unknown rule key " ++ pipeline.library.repr (.str ruleKey)))
              else pure ⟨context, payload, ruleKey⟩
        | _ => Prog.raise (.rejected (py "taint hit event carries no usable payload"))

/-- The signature of the sink a hit names. -/
def sinkSignature (payload : JsonObject) : PyStr :=
  (dictGet payload (py "sink_signature")).strOr pipeline.library

/-- The identity of a hit, with the hash of its stack. -/
def identify (organizationId : Uuid) (hit : Hit) : Except PyException (PyStr × PyStr) := do
  let lib := pipeline.library
  let frames := framesOf lib (dictGetD hit.payload (py "stack") (.list []))
  let sourceKind := primarySourceKind lib (dictGetD hit.payload (py "ranges") (.list []))
  let stackHash ← stackFingerprint lib frames 1
  let identity ← findingIdentity lib organizationId hit.context.applicationId hit.ruleKey
    (pipeline.sinkSignature hit.payload) sourceKind stackHash
  .ok (identity, stackHash)

/-- The fields of the finding a hit creates. -/
def freshFinding (organizationId : Uuid) (hit : Hit) (identity stackHash : PyStr) (id : Uuid)
    (title : Title) : Finding :=
  let lib := pipeline.library
  { id := id
    organizationId := organizationId
    applicationId := hit.context.applicationId
    identityHash := identity
    ruleKey := hit.ruleKey
    title := title
    severity := severityOf lib (dictGet hit.payload (py "severity"))
    confidence := confidenceOf lib (dictGet hit.payload (py "confidence"))
    sinkSignature := (pipeline.sinkSignature hit.payload).take 400
    sourceKind := primarySourceKind lib (dictGetD hit.payload (py "ranges") (.list []))
    stackHash := stackHash
    status := .OPEN
    riskScore := 0
    riskFactors := []
    occurrenceCount := 0
    suppressedOccurrenceCount := 0
    wouldBlockCount := 0
    environmentsSeen := []
    routeTemplates := []
    firstSeenAt := none
    lastSeenAt := none
    remediatedAt := none
    regressed := false
    acceptedUntil := none
    triageNote := []
    triagedBy := none
    cweId := CWE_BY_RULE.lookup hit.ruleKey }

/-- The finding a hit creates. It needs a title and an identity. -/
def newFinding (organizationId : Uuid) (hit : Hit) (identity stackHash : PyStr) (id : Uuid) :
    Except PyException Finding := do
  let frames := framesOf pipeline.library (dictGetD hit.payload (py "stack") (.list []))
  let title ← Title.make (titleOf hit.ruleKey frames)
  if identity.isEmpty then .error .InvalidStateError
  else .ok (pipeline.freshFinding organizationId hit identity stackHash id title)

/-- The finding of an identity, or a new one. -/
def findOrCreate (organizationId : Uuid) (hit : Hit) (identity stackHash : PyStr)
    (existing : Option Finding) : Step Finding :=
  match existing with
  | none => do
      let id ← pipeline.drawId
      Step.compute (pipeline.newFinding organizationId hit identity stackHash id)
  | some finding =>
      pure (finding.raiseConfidence
        (confidenceOf pipeline.library (dictGet hit.payload (py "confidence"))))

/-- `_should_keep_evidence`: one sample for each finding and interval, and always the first. -/
def shouldKeepEvidence (finding : Finding) (observedAt : Instant) : Step Bool :=
  if finding.occurrenceCount ≤ 1 then pure true
  else do
    let latest ← Step.query fun tenant ↦ tenant.latestOccurrenceAt finding.id
    pure (latest.all fun latest ↦ observedAt - latest ≥ pipeline.evidenceInterval)

/-- The evidence of a hit. -/
def evidence (organizationId : Uuid) (record : JsonObject) (hit : Hit) (findingId : Uuid)
    (observedAt : Instant) (id : Uuid) : Except PyException Occurrence := do
  let lib := pipeline.library
  let requestMethod ← requestField lib hit.payload (py "method")
  let requestPath ← requestField lib hit.payload (py "path")
  let taintedRanges ← rangesOf lib (dictGetD hit.payload (py "ranges") (.list []))
  let frames ← stackFrames lib (dictGetD hit.payload (py "stack") (.list []))
  let remoteAddress ← requestField lib hit.payload (py "remote_addr")
  .ok
    { id := id
      organizationId := organizationId
      findingId := findingId
      environment := hit.context.environmentKind.value
      traceId := ((dictGet record (py "trace_id")).strOr lib).take 64
      requestMethod := requestMethod.take 10
      requestPath := requestPath.take 500
      routeTemplate := routeTemplate lib hit.payload
      sinkArgument := (dictGet hit.payload (py "sink_argument")).strOr lib
      taintedRanges := taintedRanges
      stackFrames := frames
      remoteAddress := remoteAddress
      attackDetected := confidenceOf lib (dictGet hit.payload (py "confidence")) = .EXPLOITED
      observedAt := observedAt }

/-- Keep the evidence of a hit when it is due. -/
def keepEvidence (organizationId : Uuid) (record : JsonObject) (hit : Hit) (finding : Finding)
    (observedAt : Instant) : Step PUnit := do
  if ← pipeline.shouldKeepEvidence finding observedAt then
    let id ← pipeline.drawId
    let occurrence ← Step.compute
      (pipeline.evidence organizationId record hit finding.id observedAt id)
    Step.write fun tenant ↦ tenant.addOccurrence pipeline.library occurrence
    Step.count fun result ↦
      { result with occurrencesStored := result.occurrencesStored + 1 }
  else pure .unit

/-- `findings_broadcaster.publish`. -/
def announce (organizationId : Uuid) (hit : Hit) (finding : Finding) (created : Bool)
    (observedAt : Instant) : Step PUnit :=
  Prog.modify fun batch ↦
    { batch with
      announcements := batch.announcements ++
        [⟨organizationId, created, finding.id, finding.ruleKey, finding.severity,
          finding.confidence, finding.sinkSignature, hit.context.applicationId,
          finding.occurrenceCount, observedAt⟩] }

/-- The part of `_apply` after a hit is admitted. -/
def foldHit (organizationId : Uuid) (record : JsonObject) (hit : Hit) : Step PUnit := do
  let (identity, stackHash) ← Step.compute (pipeline.identify organizationId hit)
  let observedAt ← pipeline.observedAt record
  let existing ← Step.query fun tenant ↦ tenant.getByIdentity identity
  let finding ← pipeline.findOrCreate organizationId hit identity stackHash existing
  let (finding, regressed) :=
    finding.see hit.context (routeTemplate pipeline.library hit.payload) observedAt
  Step.count fun result ↦
    if regressed then { result with regressions := result.regressions + 1 } else result
  Step.write fun tenant ↦ tenant.upsert finding
  Step.count fun result ↦ result.fold existing.isNone
  announce organizationId hit finding existing.isNone observedAt
  pipeline.keepEvidence organizationId record hit finding observedAt

/-- `_apply`. -/
def apply (organizationId : Uuid) (record : JsonObject) : Step PUnit :=
  if isTaintHit record then do
    let hit ← pipeline.admitHit record
    pipeline.foldHit organizationId record hit
  else Step.count ProcessingResult.ignore

/-- One turn of the loop of `execute` over a tenant's events: a rejection is counted. -/
def foldRecord (organizationId : Uuid) (record : JsonObject) : Step PUnit :=
  Prog.handle (pipeline.apply organizationId record) fun
    | .rejected rejection => Step.count fun result ↦ result.reject rejection
    | .raised exception => Prog.raise (.raised exception)

/-- The loop of `execute` over a tenant's events. -/
def foldRecords (organizationId : Uuid) : List JsonObject → Step PUnit
  | [] => pure .unit
  | record :: records => do
      pipeline.foldRecord organizationId record
      foldRecords organizationId records

end ProcessRuntimeEvents

/-! ## The batch -/

/-- The state of the worker: the rows of every organization, what was announced, how many ids and
times were drawn, and the result of the batch at hand. -/
structure WorkerState where
  database : Uuid → Tenant
  result : ProcessingResult
  announcements : List Announcement
  draws : Nat

namespace WorkerState

/-- The state a transaction starts in. -/
def begin (worker : WorkerState) (organizationId : Uuid) : Batch :=
  ⟨worker.database organizationId, [], worker.result, worker.announcements, worker.draws⟩

/-- What a transaction leaves when it is rolled back: what is not of the database. -/
def rollback (worker : WorkerState) (batch : Batch) : WorkerState :=
  ⟨worker.database, batch.result, batch.announcements, batch.draws⟩

/-- What a transaction leaves when it is committed. -/
def commit (worker : WorkerState) (organizationId : Uuid) (batch : Batch) : WorkerState :=
  ⟨Function.update worker.database organizationId batch.tenant, batch.result,
    batch.announcements, batch.draws⟩

end WorkerState

/-- Put a record with the others of its organization. -/
def insertGroup (organizationId : Uuid) (record : JsonObject) :
    List (Uuid × List JsonObject) → List (Uuid × List JsonObject)
  | [] => [(organizationId, [record])]
  | (id, records) :: groups =>
      if id = organizationId then (id, records ++ [record]) :: groups
      else (id, records) :: insertGroup organizationId record groups

/-- `_group_by_tenant`, from the groups and the result of the records before. A record that is not
an object has no `get`. -/
def groupByTenant (lib : Library) :
    List Json → List (Uuid × List JsonObject) → ProcessingResult →
      Except PyException (List (Uuid × List JsonObject) × ProcessingResult)
  | [], groups, result => .ok (groups, result)
  | .object record :: records, groups, result =>
      let raw := dictGet record (py "organization_id")
      match lib.parseUuid (raw.toStr lib) with
      | none =>
          groupByTenant lib records groups
            (result.reject (py "unusable organization id " ++ lib.repr raw))
      | some organizationId =>
          groupByTenant lib records (insertGroup organizationId record groups) result
  | _ :: _, _, _ => .error .AttributeError

namespace ProcessRuntimeEvents

variable (pipeline : ProcessRuntimeEvents)

/-- The transaction of one tenant: all of its events and the commit, or nothing. -/
def transaction (group : Uuid × List JsonObject) : Prog Failure WorkerState PUnit :=
  fun worker faults ↦
    let body : Step PUnit := do
      Prog.attempt (.raised .OperationalError)
      pipeline.foldRecords group.1 group.2
      Prog.attempt (.raised .OperationalError)
    match body (worker.begin group.1) faults with
    | ⟨.ok _, batch, faults⟩ => ⟨.ok .unit, worker.commit group.1 batch, faults⟩
    | ⟨.error failure, batch, faults⟩ => ⟨.error failure, worker.rollback batch, faults⟩

/-- The transactions of a batch, one after another. -/
def transactions : List (Uuid × List JsonObject) → Prog Failure WorkerState PUnit
  | [] => pure .unit
  | group :: groups => do
      pipeline.transaction group
      transactions groups

/-- `execute`: fold a batch of runtime events into findings. -/
def execute (records : List Json) : Prog Failure WorkerState ProcessingResult := do
  let (groups, result) ←
    Prog.lift ((groupByTenant pipeline.library records [] .initial).mapError .raised)
  Prog.modify fun worker ↦ { worker with result := result }
  pipeline.transactions groups
  Prog.read WorkerState.result

end ProcessRuntimeEvents

end Aegis.Api
