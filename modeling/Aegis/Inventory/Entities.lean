import Aegis.Access.Permissions
import Aegis.Api.Inventory

/-!
# Applications, environments and agents

`domain/entities/inventory.py`: the services of a tenant, the environments they are deployed to
with the mode their agents run in, and the agents themselves.
-/

namespace Aegis.Inventory

open Aegis.Server Aegis.Access Aegis.Api

/-! ## Applications -/

inductive Language where
  | JAVA
  | DOTNET
  | NODE
  | PYTHON
  | GO
  deriving DecidableEq, Repr

/-- The name of the language. -/
def Language.value : Language → PyStr
  | JAVA => py "JAVA"
  | DOTNET => py "DOTNET"
  | NODE => py "NODE"
  | PYTHON => py "PYTHON"
  | GO => py "GO"

/-- A service under test. -/
structure Application where
  id : Uuid
  organizationId : Uuid
  name : PyStr
  slug : PyStr
  language : Language
  criticality : Criticality
  tags : List PyStr
  repositoryUrl : Option PyStr
  description : PyStr
  deriving DecidableEq, Repr

/-- `Application(...)`: the name is stripped, and a blank or long one is refused. -/
def Application.make (id organizationId : Uuid) (name slug : PyStr) (language : Language)
    (criticality : Criticality := .MEDIUM) (tags : List PyStr := [])
    (repositoryUrl : Option PyStr := none) (description : PyStr := []) :
    Except DomainError Application :=
  if name.strip.isEmpty then .error (.InvalidStateError (py "An application must have a name."))
  else if 120 < name.strip.length then
    .error (.InvalidStateError (py "An application name may be at most 120 characters."))
  else
    .ok ⟨id, organizationId, name.strip, slug, language, criticality, tags, repositoryUrl,
      description.strip.take 1000⟩

/-! ## Environments -/

/-- A deployment target of an application. The two times are those of its row, which the database
sets. -/
structure ApplicationEnvironment where
  id : Uuid
  organizationId : Uuid
  applicationId : Uuid
  kind : EnvironmentKind
  internetFacing : Bool
  protectionMode : ProtectionMode
  soakCompletedAt : Option Instant
  createdAt : Option Instant
  updatedAt : Option Instant
  deriving DecidableEq, Repr

namespace ApplicationEnvironment

/-- `ApplicationEnvironment(organization_id=…, application_id=…, kind=…)`. -/
def make (id organizationId applicationId : Uuid) (kind : EnvironmentKind) :
    ApplicationEnvironment :=
  ⟨id, organizationId, applicationId, kind, false, .MONITOR, none, none, none⟩

/-- Monitor-mode soak required before blocking may be enabled in production. -/
def REQUIRED_SOAK_DAYS : Nat := 14

/-- `timedelta(days=REQUIRED_SOAK_DAYS)`, in microseconds. -/
def requiredSoak : Int :=
  REQUIRED_SOAK_DAYS * 86400000000

/-- `environment._soak_satisfied(now)`. -/
def soakSatisfied (environment : ApplicationEnvironment) (now : Instant) : Bool :=
  environment.soakCompletedAt.any fun completed ↦ completed ≤ now

/-- `environment.set_protection_mode(mode, now)`. -/
def setProtectionMode (environment : ApplicationEnvironment) (mode : ProtectionMode)
    (now : Instant) : Except DomainError ApplicationEnvironment :=
  if mode = .BLOCK ∧ environment.kind = .PRODUCTION ∧ environment.soakSatisfied now = false then
    .error (.InvalidStateError (py "Blocking requires " ++ PyStr.decimal REQUIRED_SOAK_DAYS ++
      py " days in monitor mode first."))
  else
    .ok { environment with
      soakCompletedAt :=
        -- Entering monitor mode (re)starts the soak clock.
        if mode = .MONITOR ∧ environment.protectionMode ≠ .MONITOR then some (now + requiredSoak)
        else environment.soakCompletedAt
      protectionMode := mode }

end ApplicationEnvironment

/-! ## Agents -/

inductive AgentStatus where
  | REGISTERED
  | ONLINE
  | DEGRADED
  | OFFLINE
  | DISABLED
  deriving DecidableEq, Repr

/-- The name of the status. -/
def AgentStatus.value : AgentStatus → PyStr
  | REGISTERED => py "REGISTERED"
  | ONLINE => py "ONLINE"
  | DEGRADED => py "DEGRADED"
  | OFFLINE => py "OFFLINE"
  | DISABLED => py "DISABLED"

/-- A runtime agent process reporting into the platform. -/
structure Agent where
  id : Uuid
  organizationId : Uuid
  applicationEnvironmentId : Uuid
  fingerprint : PyStr
  hostname : PyStr
  agentVersion : PyStr
  runtimeVersion : PyStr
  language : Language
  status : AgentStatus
  configVersion : PyStr
  cpuOverheadPct : Option PyFloat
  memoryMb : Option Int
  eventsSent : Nat
  eventsDropped : Nat
  pinnedVersion : Option PyStr
  lastSeenAt : Option Instant
  createdAt : Option Instant
  deriving DecidableEq

namespace Agent

/-- `Agent(...)` of an agent that has not reported yet. -/
def make (id organizationId applicationEnvironmentId : Uuid)
    (fingerprint hostname agentVersion runtimeVersion : PyStr) (language : Language)
    (configVersion : PyStr) (createdAt : Instant) : Except DomainError Agent :=
  if fingerprint.strip.isEmpty then
    .error (.InvalidStateError (py "An agent must present a fingerprint."))
  else
    .ok { id := id
          organizationId := organizationId
          applicationEnvironmentId := applicationEnvironmentId
          fingerprint := fingerprint.strip
          hostname := (if hostname.isEmpty then py "unknown" else hostname).take 255
          agentVersion := agentVersion
          runtimeVersion := runtimeVersion
          language := language
          status := .REGISTERED
          configVersion := configVersion
          cpuOverheadPct := none
          memoryMb := none
          eventsSent := 0
          eventsDropped := 0
          pinnedVersion := none
          lastSeenAt := none
          createdAt := some createdAt }

/-- `agent.enable()`. -/
def enable (agent : Agent) : Agent :=
  if agent.status = .DISABLED then { agent with status := .REGISTERED } else agent

end Agent

end Aegis.Inventory
