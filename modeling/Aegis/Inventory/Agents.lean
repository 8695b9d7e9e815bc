import Aegis.Access.Rbac

/-!
# Agents

`application/agents.py`: an agent process registers, which also creates its application and its
environment when they are new, and fetches the configuration it should run with. The identifiers a
use case draws are its arguments, with the time and the time its transaction began at.
-/

namespace Aegis.Inventory

open Aegis.Server Aegis.Access Aegis.Api

/-! ## Replies -/

structure AgentSummary where
  id : Uuid
  applicationEnvironmentId : Uuid
  fingerprint : PyStr
  hostname : PyStr
  language : PyStr
  agentVersion : PyStr
  runtimeVersion : PyStr
  status : PyStr
  configVersion : PyStr
  cpuOverheadPct : Option PyFloat
  memoryMb : Option Int
  eventsSent : Nat
  eventsDropped : Nat
  pinnedVersion : Option PyStr
  lastSeenAt : Option Instant
  createdAt : Option Instant
  deriving DecidableEq

/-- `_summary(agent)`. -/
def summary (agent : Agent) : AgentSummary :=
  ⟨agent.id, agent.applicationEnvironmentId, agent.fingerprint, agent.hostname,
    agent.language.value, agent.agentVersion, agent.runtimeVersion, agent.status.value,
    agent.configVersion, agent.cpuOverheadPct, agent.memoryMb, agent.eventsSent,
    agent.eventsDropped, agent.pinnedVersion, agent.lastSeenAt, agent.createdAt⟩

/-- The claims of a token for one purpose. -/
structure ChallengeToken where
  subject : Uuid
  organizationId : Uuid
  purpose : PyStr
  issuedAt : Instant
  expiresAt : Instant
  deriving DecidableEq

structure AgentRegistration where
  agent : AgentSummary
  agentToken : ChallengeToken
  agentTokenExpiresAt : Instant
  configVersion : PyStr
  heartbeatIntervalSeconds : Nat
  deriving DecidableEq

/-- How often an agent must check in. -/
def HEARTBEAT_INTERVAL_SECONDS : Nat := 30

/-- How long the credential of an agent is valid. -/
def AGENT_TOKEN_TTL_SECONDS : Nat := 86400

/-! ## Registration -/

/-- What an agent registers with. -/
structure RegisterAgent where
  principal : Principal
  applicationName : PyStr
  environment : EnvironmentKind
  language : Language
  fingerprint : PyStr
  hostname : PyStr
  agentVersion : PyStr
  runtimeVersion : PyStr
  applicationId : Uuid
  environmentId : Uuid
  agentId : Uuid
  now : Instant
  databaseNow : Instant

namespace RegisterAgent

/-- `RegisterAgent._config_version(environment, now)`. -/
def configVersion (environment : ApplicationEnvironment) (now : Instant) : PyStr :=
  let updated := (environment.updatedAt <|> environment.createdAt).getD now
  environment.protectionMode.value ++ py "-" ++ py (toString (updated.tdiv 1000000))

/-- The licence of the tenant must have room for one more of what is counted. -/
def checkLicense {R : Type} (organizationId : Uuid) (room : License → Nat → Except DomainError Unit)
    (count : Tx R Nat) : Tx R Unit := do
  match ← Licenses.getForOrganization organizationId with
  | none => pure ()
  | some license => do
      let n ← count
      check (room license n)

variable (request : RegisterAgent)

/-- `RegisterAgent._ensure_application(uow, principal, name, language)`. -/
def ensureApplication (unicode : Unicode) : Tx AgentRegistration Application := do
  let organizationId := request.principal.organizationId
  let slug ← check (Slug.fromName unicode request.applicationName)
  match ← Applications.getBySlug organizationId slug with
  | some application => pure application
  | none => do
      checkLicense organizationId License.checkApplications (Applications.count organizationId)
      let application ← check (Application.make request.applicationId organizationId
        request.applicationName slug request.language)
      Applications.add application
      Audit.record request.principal (py "application.created") (py "application")
        (some application.id)
      pure application

/-- `RegisterAgent._ensure_environment(uow, principal, application, kind)`. -/
def ensureEnvironment (application : Application) :
    Tx AgentRegistration ApplicationEnvironment := do
  let organizationId := request.principal.organizationId
  match ← Environments.find organizationId application.id request.environment with
  | some existing => pure existing
  | none => do
      let environment := ApplicationEnvironment.make request.environmentId organizationId
        application.id request.environment
      Environments.add environment request.databaseNow
      pure environment

/-- Who may register, and where the agent runs: the checks, the application and the
environment. -/
def place (unicode : Unicode) : Tx AgentRegistration ApplicationEnvironment := do
  check (request.principal.require .AGENT_WRITE)
  refuseIf request.fingerprint.strip.isEmpty
    (.ValidationError (py "A fingerprint is required.") (py "fingerprint") [])
  let application ← request.ensureApplication unicode
  request.ensureEnvironment application

/-- A new agent. -/
def enrol (environment : ApplicationEnvironment) : Tx AgentRegistration Agent := do
  let organizationId := request.principal.organizationId
  checkLicense organizationId License.checkAgents (Agents.count organizationId)
  let agent ← check (Agent.make request.agentId organizationId environment.id
    request.fingerprint.strip request.hostname request.agentVersion request.runtimeVersion
    request.language (configVersion environment request.now) request.now)
  Agents.add agent request.databaseNow
  Audit.record request.principal (py "agent.registered") (py "agent") (some agent.id)
  pure agent

/-- An agent that registers again. -/
def reenrol (environment : ApplicationEnvironment) (loaded : Agent) :
    Tx AgentRegistration Agent := do
  let agent := Agent.enable { loaded with
    hostname := request.hostname.take 255
    agentVersion := request.agentVersion
    runtimeVersion := request.runtimeVersion
    applicationEnvironmentId := environment.id
    configVersion := configVersion environment request.now }
  Agents.update request.principal.organizationId loaded agent
  pure agent

/-- `codec.issue_challenge(…)` for an agent. -/
def token (agent : Agent) : ChallengeToken :=
  ⟨agent.id, request.principal.organizationId, py "agent", request.now,
    request.now + seconds AGENT_TOKEN_TTL_SECONDS⟩

/-- What the agent receives. -/
def reply (agent : Agent) : AgentRegistration :=
  ⟨summary agent, request.token agent, request.now + seconds AGENT_TOKEN_TTL_SECONDS,
    agent.configVersion, HEARTBEAT_INTERVAL_SECONDS⟩

/-- The agent of the fingerprint is registered, or registered again. -/
def register (environment : ApplicationEnvironment) : Tx AgentRegistration Agent := do
  match ← Agents.getByFingerprint request.principal.organizationId request.fingerprint.strip with
  | none => request.enrol environment
  | some loaded => request.reenrol environment loaded

/-- `RegisterAgent.execute(…)`. -/
def execute (unicode : Unicode) : Tx AgentRegistration Empty := do
  let environment ← request.place unicode
  let agent ← request.register environment
  .commit (.ok (request.reply agent))

end RegisterAgent

end Aegis.Inventory
