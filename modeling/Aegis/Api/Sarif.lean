import Mathlib.Data.List.Infix
import Aegis.Api.FindingStore
import Aegis.Server.Json.Loads

/-!
# The import of SARIF reports

`application/hybrid_orchestrator.py`: `ingest_sarif` reads the first run of a report and makes each
of its results a finding, or corroborates the finding that carries the identity already. The report
is one transaction.
-/

namespace Aegis.Api

open Server

/-! ## Reading a report -/

/-- A report: its text, or what it decodes to. -/
inductive SarifJson where
  | text (text : PyStr)
  | data (value : Json)

/-- How an import fails: the report is none of SARIF 2.1.0, or another exception. -/
inductive SarifFailure where
  | invalid (message : PyStr)
  | raised (exception : PyException)

/-- `value.get(key, default)`: the value is taken for an object. -/
def getD (value : Json) (key : PyStr) (default : Json) : Except PyException Json :=
  match value with
  | .object fields => .ok (dictGetD fields key default)
  | _ => .error .AttributeError

/-- `json.loads`, of a report that is text. -/
def SarifJson.load : SarifJson → Except SarifFailure Json
  | .text raw =>
      match Json.loads raw with
      | some value => .ok value
      | none => .error (.raised .ValueError)
  | .data value => .ok value

/-- The message for a document that is refused. -/
def INVALID_SARIF : PyStr :=
  py "Invalid SARIF document. Version 2.1.0 required."

/-- The runs of a document. What is no list has none. -/
def sarifRuns : Json → Except SarifFailure (List Json)
  | .object fields =>
      match dictGet fields (py "version") with
      | .str version =>
          if version = py "2.1.0" then
            match dictGetD fields (py "runs") (.list []) with
            | .list runs => .ok runs
            | _ => .ok []
          else .error (.invalid INVALID_SARIF)
      | _ => .error (.invalid INVALID_SARIF)
  | _ => .error (.invalid INVALID_SARIF)

/-- The items a loop over the results takes, where they have a length. -/
def itemsOf : Json → Except PyException (List Json)
  | .list items => .ok items
  | .object fields => .ok (fields.map fun field ↦ .str field.1)
  | .str text => .ok (text.map fun c ↦ .str [c])
  | .null | .bool _ | .int _ | .float _ => .error .TypeError

section Reading

variable (lib : Library)

/-- The name of the tool. -/
def toolNameOf (run : Json) : Except PyException PyStr := do
  let tool ← getD run (py "tool") (.object [])
  let driver ← getD tool (py "driver") (.object [])
  let name ← getD driver (py "name") .null
  .ok (if name.truthy then name.toStr lib else py "External Scanner")

/-- The name of the tool and the results of the first run. A report without runs has no results. -/
def readReport (report : SarifJson) : Except SarifFailure (PyStr × List Json) := do
  match ← sarifRuns (← report.load) with
  | [] => .ok (py "unknown", [])
  | run :: _ =>
      Except.mapError .raised do
        let toolName ← toolNameOf lib run
        let results ← itemsOf (← getD run (py "results") (.list []))
        .ok (toolName, results)

/-- What is read of a result. -/
structure SarifResult where
  ruleId : PyStr
  level : PyStr
  title : PyStr
  uri : PyStr

/-- The artifact of the first location. -/
def uriOf : Json → Except PyException PyStr
  | .list (first :: _) => do
      let phys ← getD first (py "physicalLocation") (.object [])
      let artifact ← getD phys (py "artifactLocation") (.object [])
      .ok ((← getD artifact (py "uri") .null).strOr lib)
  | _ => .ok []

/-- Reading a result. -/
def readResult (toolName : PyStr) (item : Json) : Except PyException SarifResult := do
  let ruleId ← getD item (py "ruleId") .null
  let rule ←
    if ruleId.truthy then .ok ruleId
    else do getD (← getD item (py "rule") (.object [])) (py "id") .null
  let level ← getD item (py "level") .null
  let text ← getD (← getD item (py "message") (.object [])) (py "text") .null
  let uri ← uriOf lib (← getD item (py "locations") (.list []))
  .ok { ruleId := rule.strOr lib
        level := lib.lower (if level.truthy then level.toStr lib else py "warning")
        title := (if text.truthy then text.toStr lib
          else py "External " ++ toolName ++ py " alert").take 200
        uri := uri }

end Reading

/-! ## The finding of a result -/

/-- `_normalize_rule_key`. -/
def normalizeRuleKey (ruleId : PyStr) : PyStr :=
  if py "sql" <:+: ruleId then py "sql-injection"
  else if py "command" <:+: ruleId ∨ py "exec" <:+: ruleId then py "command-injection"
  else if py "traversal" <:+: ruleId ∨ py "path" <:+: ruleId then py "path-traversal"
  else if py "xss" <:+: ruleId then py "reflected-xss"
  else if py "redirect" <:+: ruleId then py "open-redirect"
  else if py "ssrf" <:+: ruleId then py "ssrf"
  else py "sql-injection"

/-- The kind of source of a finding that is imported. -/
def EXTERNAL_SCANNER : PyStr :=
  py "EXTERNAL_SCANNER"

namespace SarifResult

variable (lib : Library) (toolName : PyStr) (result : SarifResult)

/-- `rule_key`. -/
def ruleKey : PyStr :=
  normalizeRuleKey (lib.lower result.ruleId)

/-- `sink_signature`. -/
def sinkSignature : PyStr :=
  py "sarif:" ++ toolName ++ py ":" ++ lib.lower result.ruleId

/-- `stack_hash`: the start of the artifact's URI. -/
def stackHash : PyStr :=
  if (result.uri.take 64).isEmpty then List.replicate 64 48 else result.uri.take 64

/-- `severity`. -/
def severity : Severity :=
  if result.level = py "error" then .HIGH else .MEDIUM

/-- The score of a finding that is new. -/
def riskScore : ℚ :=
  if result.severity = .HIGH then 75 / 10 else 5

/-- The identity under which a result becomes a finding. -/
def identity (organizationId applicationId : Uuid) : Except PyException PyStr :=
  findingIdentity lib organizationId applicationId (result.ruleKey lib)
    (result.sinkSignature lib toolName) EXTERNAL_SCANNER result.stackHash

/-- A new finding under the title. -/
def titled (organizationId applicationId id : Uuid) (identity : PyStr) (title : Title) : Finding :=
  { Finding.create id organizationId applicationId identity (result.ruleKey lib) title
      result.severity .CONFIRMED (result.sinkSignature lib toolName) EXTERNAL_SCANNER
      result.stackHash with
    riskScore := result.riskScore }

/-- The finding of a result that is new. -/
def finding (organizationId applicationId id : Uuid) (identity : PyStr) :
    Except PyException Finding := do
  let title ← Title.make result.title
  .ok (result.titled lib toolName organizationId applicationId id identity title)

end SarifResult

/-- Cross-scanner correlation of a finding that exists. -/
def Finding.correlate (existing : Finding) : Finding :=
  { existing with riskScore := min 10 (existing.riskScore + 2), confidence := .EXPLOITED }

/-! ## The import -/

/-- What an import came to. -/
structure SarifIngestResult where
  toolName : PyStr
  totalResults : Nat
  findingsImported : Nat
  findingsCorrelated : Nat
  errors : List PyStr

/-- The state of the transaction. -/
structure SarifImport where
  tenant : Tenant
  findingsImported : Nat
  findingsCorrelated : Nat

section Ingest

variable (lib : Library) (organizationId applicationId : Uuid) (newId : Nat → Uuid)

/-- One turn of the loop over the results. A new finding draws the next id. -/
def ingestResult (toolName : PyStr) (state : SarifImport) (item : Json) :
    Except PyException SarifImport := do
  let result ← readResult lib toolName item
  let identity ← result.identity lib toolName organizationId applicationId
  match state.tenant.getByIdentity identity with
  | none =>
      let finding ← result.finding lib toolName organizationId applicationId
        (newId state.findingsImported) identity
      let tenant ← state.tenant.upsert finding
      .ok { state with tenant := tenant, findingsImported := state.findingsImported + 1 }
  | some existing =>
      let tenant ← state.tenant.upsert existing.correlate
      .ok { state with tenant := tenant, findingsCorrelated := state.findingsCorrelated + 1 }

/-- `ingest_sarif`: what the import came to, and the rows that are committed. -/
def ingestSarif (tenant : Tenant) (report : SarifJson) :
    Except SarifFailure (SarifIngestResult × Tenant) := do
  let (toolName, results) ← readReport lib report
  let state ← Except.mapError .raised
    (results.foldlM (ingestResult lib organizationId applicationId newId toolName) ⟨tenant, 0, 0⟩)
  .ok (⟨toolName, results.length, state.findingsImported, state.findingsCorrelated, []⟩,
    state.tenant)

/-- The rows behind an import. One that fails is rolled back. -/
def importSarif (tenant : Tenant) (report : SarifJson) : Tenant :=
  match ingestSarif lib organizationId applicationId newId tenant report with
  | .ok (_, next) => next
  | .error _ => tenant

end Ingest

end Aegis.Api
