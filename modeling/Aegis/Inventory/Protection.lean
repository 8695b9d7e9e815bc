import Aegis.Access.Rbac

/-!
# Changing the protection mode

`SetProtectionMode` of `application/inventory.py`. The environment decides whether a change to
blocking has been soaked for long enough, and the licence whether blocking is part of it.
-/

namespace Aegis.Inventory

open Aegis.Server Aegis.Access Aegis.Api

structure EnvironmentSummary where
  id : Uuid
  applicationId : Uuid
  kind : PyStr
  internetFacing : Bool
  protectionMode : PyStr
  createdAt : Option Instant
  deriving DecidableEq, Repr

/-- `_environment_summary(environment)`. -/
def environmentSummary (environment : ApplicationEnvironment) : EnvironmentSummary :=
  ⟨environment.id, environment.applicationId, environment.kind.value, environment.internetFacing,
    environment.protectionMode.value, environment.createdAt⟩

/-- Whether the licence leaves blocking out. -/
def withoutBlocking (license : Option License) : Bool :=
  license.any fun license ↦ !license.protectionEnabled

/-- `SetProtectionMode.execute(…)`, at a time `now`, in a transaction that began at
`databaseNow`. -/
def SetProtectionMode.execute (principal : Principal) (environmentId : Uuid)
    (mode : ProtectionMode) (now databaseNow : Instant) : Tx EnvironmentSummary Empty := do
  check (principal.require .POLICY_WRITE)
  let organizationId := principal.organizationId
  let some loaded ← Environments.get organizationId environmentId
    | raise (.NotFoundError (py "Environment"))
  let license ← Licenses.getForOrganization organizationId
  refuseIf (mode == .BLOCK && withoutBlocking license)
    (.FeatureNotLicensedError (py "Application Detection & Response blocking"))
  let environment ← check (loaded.setProtectionMode mode now)
  Environments.update organizationId loaded environment databaseNow
  Audit.record principal (py "environment.protection_mode_changed") (py "environment")
    (some environment.id)
  .commit (.ok (environmentSummary environment))

end Aegis.Inventory
