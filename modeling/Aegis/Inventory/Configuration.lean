import Mathlib.Data.List.Lex
import Mathlib.Order.Fin.Basic
import Aegis.Access.Rules
import Aegis.Inventory.Agents

/-!
# The configuration of an agent

`GetAgentConfiguration` of `application/agents.py`, and what an agent that compares versions can
miss: the version is a column of its own row, and the rest is read from its environment and from
the settings of its organization.
-/

namespace Aegis.Inventory

open Aegis.Server Aegis.Access Aegis.Api Database Transaction

/-! ## Settings -/

/-- Python's `float`, as far as it rests on rounding. -/
structure Floats where
  /-- `float(value)` of an integer, or `none` for the `OverflowError`. -/
  ofInt : Int → Option PyFloat
  /-- `float(text)`, or `none` for the `ValueError`. -/
  parse : PyStr → Option PyFloat

/-- `float(value)`. -/
def Floats.toFloat (floats : Floats) : Json → Except PyException PyFloat
  | .float value => .ok value
  | .bool value => .ok (.finite (if value then 1 else 0))
  | .int value => (floats.ofInt value).elim (.error .OverflowError) .ok
  | .str value => (floats.parse value).elim (.error .ValueError) .ok
  | .null | .list _ | .object _ => .error .TypeError

/-- `list(value)`: of a text its characters, of a `dict` its keys. -/
def toList : Json → Except PyException (List Json)
  | .list items => .ok items
  | .str value => .ok (value.map fun c ↦ .str [c])
  | .object fields => .ok (fields.map fun field ↦ .str field.1)
  | .null | .bool _ | .int _ | .float _ => .error .TypeError

/-- The deny-list an agent redacts by before anything is transmitted. -/
def DEFAULT_REDACT_KEYS : List PyStr :=
  [py "password", py "passwd", py "secret", py "token", py "api_key", py "apikey",
    py "authorization", py "cookie", py "set-cookie", py "session", py "ssn", py "card", py "cvv",
    py "pan", py "private_key"]

/-- The rules that are enabled on a new agent. -/
def DEFAULT_ENABLED_RULES : List PyStr :=
  [py "sql-injection", py "command-injection", py "path-traversal", py "unsafe-deserialization",
    py "xxe", py "reflected-xss", py "ssrf", py "ldap-injection", py "xpath-injection",
    py "open-redirect", py "weak-cryptography", py "insecure-cookie",
    py "missing-security-headers", py "verbose-error-response", py "hardcoded-credentials",
    py "sensitive-data-in-log"]

section
variable (lib : Library) (floats : Floats) (settings : JsonObject)

/-- `str(settings.get("capture_request_body", "TRUNCATED"))`. -/
def captureRequestBody : PyStr :=
  (dictGetD settings (py "capture_request_body") (.str (py "TRUNCATED"))).toStr lib

/-- `[str(k).lower() for k in settings.get("redact_keys", [])]`. -/
def extraKeys : Except PyException (List PyStr) := do
  let keys ← toList (dictGetD settings (py "redact_keys") (.list []))
  .ok (keys.map fun k ↦ lib.lower (k.toStr lib))

/-- `int(settings.get("max_value_length", 512))`. -/
def maxValueLength : Except PyException Int :=
  (dictGetD settings (py "max_value_length") (.int 512)).toInt lib

/-- `float(settings.get("cpu_budget_pct", 5.0))`. -/
def cpuBudgetPct : Except PyException PyFloat :=
  floats.toFloat (dictGetD settings (py "cpu_budget_pct") (.float (.finite 5)))

/-- `list(settings.get("enabled_rules", DEFAULT_ENABLED_RULES))`. -/
def enabledRules : Except PyException (List Json) :=
  toList (dictGetD settings (py "enabled_rules") (.list (DEFAULT_ENABLED_RULES.map .str)))

end

/-- `sorted(set(DEFAULT_REDACT_KEYS) | set(extra_keys))`. -/
def redactKeys (extra : List PyStr) : List PyStr :=
  (DEFAULT_REDACT_KEYS ++ extra).dedup.insertionSort (· ≤ ·)

/-! ## The use case -/

structure AgentConfiguration where
  configVersion : PyStr
  protectionMode : PyStr
  captureRequestBody : PyStr
  maxValueLength : Int
  redactKeys : List PyStr
  cpuBudgetPct : PyFloat
  enabledRules : List Json
  heartbeatIntervalSeconds : Nat

namespace GetAgentConfiguration

variable (lib : Library) (floats : Floats)

/-- The configuration that is delivered to an agent in an environment. -/
def configuration (agent : Agent) (environment : ApplicationEnvironment) (settings : JsonObject) :
    Except PyException AgentConfiguration := do
  let extra ← extraKeys lib settings
  let length ← maxValueLength lib settings
  let budget ← cpuBudgetPct floats settings
  let rules ← enabledRules settings
  .ok { configVersion := agent.configVersion
        protectionMode := environment.protectionMode.value
        captureRequestBody := captureRequestBody lib settings
        maxValueLength := length
        redactKeys := redactKeys extra
        cpuBudgetPct := budget
        enabledRules := rules
        heartbeatIntervalSeconds := HEARTBEAT_INTERVAL_SECONDS }

/-- `GetAgentConfiguration.execute(…)`. It commits nothing. -/
def execute (principal : Principal) : Tx AgentConfiguration Empty := do
  let organizationId := principal.organizationId
  let some agentId := principal.agentId.filter fun _ ↦ principal.kind == .AGENT
    | raise (.AuthenticationError
        (py "Only an agent credential may fetch agent configuration."))
  let some agent ← Agents.get organizationId agentId
    | raise (.NotFoundError (py "Agent"))
  let some environment ← Environments.get organizationId agent.applicationEnvironmentId
    | raise (.NotFoundError (py "Environment"))
  let organization ← Organizations.get organizationId
  let settings := organization.elim [] Organization.settings
  let delivered ← check ((configuration lib floats agent environment settings).mapError .BuiltinError)
  .abort (.ok delivered)

/-! ## What is delivered -/

variable {lib floats} {principal : Principal} {agent agent' : Agent}
variable {environment environment' : ApplicationEnvironment} {db db' : Database}
variable {delivered delivered' : AgentConfiguration}

/-- The rows a configuration is assembled from: the caller is an agent of the tenant, in an
environment of the tenant. -/
structure Serves (principal : Principal) (db : Database) (agent : Agent)
    (environment : ApplicationEnvironment) : Prop where
  kind : principal.kind = .AGENT
  agentId : principal.agentId = some agent.id
  row : db.agents.rows.find? (fun row ↦
    row.organizationId == principal.organizationId && row.id == agent.id) = some agent
  place : db.environments.rows.find? (fun row ↦
    row.organizationId == principal.organizationId && row.id == agent.applicationEnvironmentId) =
      some environment

/-- The settings of the organization of the caller. -/
def settingsOf (principal : Principal) (db : Database) : JsonObject :=
  (db.organizations.find? principal.organizationId).elim [] Organization.settings

/-- A configuration is delivered to an agent exactly when it can be assembled. -/
theorem run_eq_ok_iff (h : Serves principal db agent environment) :
    (run (execute lib floats principal) [] db).1.2 = .ok delivered ↔
      configuration lib floats agent environment (settingsOf principal db) = .ok delivered := by
  have hcaller : (principal.agentId.filter fun _ ↦ principal.kind == .AGENT) = some agent.id := by
    rw [h.agentId, h.kind]
    rfl
  rw [execute, hcaller]
  show (run (match db.agents.rows.find? _ with | some _ => _ | _ => _) [] db).1.2 = _ ↔ _
  rw [h.row]
  show (run (match db.environments.rows.find? _ with | some _ => _ | _ => _) [] db).1.2 = _ ↔ _
  rw [h.place]
  show (run (check ((configuration lib floats agent environment (settingsOf principal db)).mapError
    .BuiltinError) >>= fun delivered ↦ .abort (.ok delivered)) [] db).1.2 = _ ↔ _
  cases configuration lib floats agent environment (settingsOf principal db) with
  | error e => exact iff_of_false nofun nofun
  | ok other => exact ⟨fun h ↦ congrArg _ (Except.ok.inj h), fun h ↦ congrArg _ (Except.ok.inj h)⟩

/-- What is delivered is assembled from the two rows and the settings. -/
theorem configuration_eq_ok {settings : JsonObject}
    (h : configuration lib floats agent environment settings = .ok delivered) :
    ∃ extra length budget rules, extraKeys lib settings = .ok extra ∧
      maxValueLength lib settings = .ok length ∧ cpuBudgetPct floats settings = .ok budget ∧
      enabledRules settings = .ok rules ∧
      delivered = ⟨agent.configVersion, environment.protectionMode.value,
        captureRequestBody lib settings, length, redactKeys extra, budget, rules,
        HEARTBEAT_INTERVAL_SECONDS⟩ := by
  obtain ⟨extra, hextra, h⟩ := Checked.bind_eq_ok.mp h
  obtain ⟨length, hlength, h⟩ := Checked.bind_eq_ok.mp h
  obtain ⟨budget, hbudget, h⟩ := Checked.bind_eq_ok.mp h
  obtain ⟨rules, hrules, h⟩ := Checked.bind_eq_ok.mp h
  exact ⟨extra, length, budget, rules, hextra, hlength, hbudget, hrules, (Except.ok.inj h).symm⟩

end GetAgentConfiguration

/-! ## What a version detects -/

/-- The deny-list is determined by the keys it adds to the default ones. -/
theorem redact_keys_eq_iff {extra extra' : List PyStr} :
    redactKeys extra = redactKeys extra' ↔
      ∀ k ∉ DEFAULT_REDACT_KEYS, k ∈ extra ↔ k ∈ extra' := by
  have hmem : ∀ (extra : List PyStr) (k : PyStr),
      k ∈ redactKeys extra ↔ k ∈ DEFAULT_REDACT_KEYS ∨ k ∈ extra := by
    intro extra k
    rw [redactKeys, List.mem_insertionSort, List.mem_dedup, List.mem_append]
  constructor
  · intro h k hk
    have hboth := hmem extra k
    rw [h, hmem extra' k, or_iff_right hk, or_iff_right hk] at hboth
    exact hboth.symm
  · intro h
    have hsorted : ∀ extra : List PyStr, (redactKeys extra).Pairwise (· ≤ ·) :=
      fun extra ↦ List.pairwise_insertionSort _ _
    have hnodup : ∀ extra : List PyStr, (redactKeys extra).Nodup := fun extra ↦
      (List.perm_insertionSort _ _).nodup_iff.mpr (List.nodup_dedup _)
    have hperm : (redactKeys extra).Perm (redactKeys extra') := by
      rw [List.perm_ext_iff_of_nodup (hnodup extra) (hnodup extra')]
      intro k
      rw [hmem, hmem]
      by_cases hk : k ∈ DEFAULT_REDACT_KEYS
      · exact iff_of_true (.inl hk) (.inl hk)
      · exact or_congr_right (h k hk)
    exact hperm.eq_of_pairwise (fun _ _ _ _ hab hba ↦ le_antisymm hab hba) (hsorted _)
      (hsorted _)

/-- The texts of the modes tell them apart. -/
theorem protection_mode_value_injective : Function.Injective ProtectionMode.value := by
  intro mode mode' h
  cases mode <;> cases mode' <;> first | rfl | exact absurd h (by decide)

/-- Two organizations have settings that make the same of every field. -/
structure SameSettings (lib : Library) (floats : Floats) (settings settings' : JsonObject) :
    Prop where
  capture : captureRequestBody lib settings = captureRequestBody lib settings'
  length : maxValueLength lib settings = maxValueLength lib settings'
  budget : cpuBudgetPct floats settings = cpuBudgetPct floats settings'
  rules : enabledRules settings = enabledRules settings'
  redact : ∀ extra extra', extraKeys lib settings = .ok extra →
    extraKeys lib settings' = .ok extra' → ∀ k ∉ DEFAULT_REDACT_KEYS, k ∈ extra ↔ k ∈ extra'

namespace GetAgentConfiguration

variable {lib : Library} {floats : Floats} {principal : Principal} {agent agent' : Agent}
variable {environment environment' : ApplicationEnvironment} {db db' : Database}
variable {delivered delivered' : AgentConfiguration}

/-- The agent of a database with one, whose row has the version of its environment. -/
def agentPrincipal : Principal :=
  { ownerPrincipal with kind := .AGENT, agentId := some 9 }

/-- The environment of the agent. -/
def production : ApplicationEnvironment :=
  environmentToRecord (.make 7 1 3 .PRODUCTION) 0

/-- The agent, with the version of its environment. -/
def productionAgent : Agent :=
  ⟨9, 1, 7, py "host-a", py "a", py "1", py "21", .JAVA, .ONLINE,
    RegisterAgent.configVersion production 0, none, none, 0, 0, none, none, none⟩

/-- Its organization has some settings. -/
def withSettings (settings : JsonObject) : Database :=
  { Database.empty with
    organizations := ⟨[⟨1, py "Acme", py "acme", .ACTIVE, settings⟩], by simp⟩
    environments := ⟨[production], by simp⟩
    agents := ⟨[productionAgent], by simp⟩ }

/-- Floats of small integers, which are exact. -/
def plainFloats : Floats :=
  ⟨fun n ↦ some (.finite n), fun _ ↦ none⟩

theorem serves_with_settings (settings : JsonObject) :
    Serves agentPrincipal (withSettings settings) productionAgent production :=
  ⟨rfl, rfl, rfl, rfl⟩

end GetAgentConfiguration

end Aegis.Inventory
