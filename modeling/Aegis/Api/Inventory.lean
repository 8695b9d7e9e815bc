import Aegis.Server.Builtins

/-!
# The application inventory

Where an agent's telemetry belongs: the application and environment it reports for, with the
weights they give to a finding.
-/

namespace Aegis.Api

open Server

/-- How much an application matters to the business. -/
inductive Criticality where
  | LOW | MEDIUM | HIGH | CRITICAL
  deriving DecidableEq, Repr

/-- The name of the criticality. -/
def Criticality.value : Criticality → PyStr
  | LOW => py "LOW"
  | MEDIUM => py "MEDIUM"
  | HIGH => py "HIGH"
  | CRITICAL => py "CRITICAL"

/-- Multiplier applied to risk scores. -/
def Criticality.weight : Criticality → ℚ
  | LOW => 6 / 10
  | MEDIUM => 8 / 10
  | HIGH => 1
  | CRITICAL => 125 / 100

/-- The kinds of environment. -/
inductive EnvironmentKind where
  | DEVELOPMENT | QA | STAGING | PRODUCTION
  deriving DecidableEq, Repr

/-- The name of the kind. -/
def EnvironmentKind.value : EnvironmentKind → PyStr
  | DEVELOPMENT => py "DEVELOPMENT"
  | QA => py "QA"
  | STAGING => py "STAGING"
  | PRODUCTION => py "PRODUCTION"

/-- Application Detection and Response mode. -/
inductive ProtectionMode where
  | OFF | MONITOR | BLOCK
  deriving DecidableEq, Repr

/-- The name of the mode. -/
def ProtectionMode.value : ProtectionMode → PyStr
  | OFF => py "OFF"
  | MONITOR => py "MONITOR"
  | BLOCK => py "BLOCK"

/-- Where an agent's telemetry belongs, resolved once per agent. -/
structure AgentContext where
  applicationId : Uuid
  environmentKind : EnvironmentKind
  internetFacing : Bool
  criticality : Criticality
  protectionMode : ProtectionMode

/-- Contribution of the environment to a risk score. -/
def AgentContext.exposureWeight (context : AgentContext) : ℚ :=
  let base : ℚ :=
    match context.environmentKind with
    | .DEVELOPMENT => 3 / 10
    | .QA => 4 / 10
    | .STAGING => 7 / 10
    | .PRODUCTION => 1
  base * if context.internetFacing then 13 / 10 else 1

end Aegis.Api
