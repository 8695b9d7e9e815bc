import Aegis.Access.Rbac

/-!
# API keys

`application/api_keys.py` and the principals of `application/auth.py`: a key carries a subset of
the permissions of the caller who creates it, and a caller's permissions are read from the database
when it is resolved.
-/

namespace Aegis.Access

open Aegis.Server Permission

/-- `_MAX_TTL_DAYS`. -/
def MAX_TTL_DAYS : Int :=
  730

/-- What the client learns of a key. Its secret is shown once. -/
structure ApiKeySummary where
  id : Uuid
  name : PyStr
  keyPrefix : PyStr
  permissions : List PyStr
  createdAt : Option Instant
  expiresAt : Option Instant
  lastUsedAt : Option Instant
  revokedAt : Option Instant
  deriving DecidableEq, Repr

/-- `_summary(api_key)`. -/
def apiKeySummary (key : ApiKey) : ApiKeySummary :=
  ⟨key.id, key.name, key.keyPrefix, sortedValues key.permissions, key.createdAt, key.expiresAt,
    key.lastUsedAt, key.revokedAt⟩

/-- What `CreateApiKey` draws: an identifier, a prefix, and a secret with its hash. -/
structure KeyDraw where
  id : Uuid
  keyPrefix : PyStr
  secret : PyStr
  secretHash : PyStr

namespace CreateApiKey

/-- A lifetime, when one is given, is at least a day and at most two years. -/
def checkLifetime (expiresInDays : Option Int) : Except DomainError Unit :=
  if expiresInDays.all fun days ↦ 1 ≤ days && days ≤ MAX_TTL_DAYS then .ok ()
  else
    .error (.ValidationError (py "Expiry must be between 1 and 730 days.") (py "expires_in_days") [])

/-- `CreateApiKey.execute(…)`, with the key in plain text. -/
def execute (principal : Principal) (name : PyStr) (permissions : List PyStr)
    (expiresInDays : Option Int) (now : Instant) (draw : KeyDraw) :
    Tx (ApiKeySummary × PyStr) Empty := do
  check (principal.require .SETTINGS_WRITE)
  let parsed ← check (parsePermissions permissions)
  refuseIf (parsed = ∅)
    (.ValidationError (py "An API key must carry at least one permission.") (py "permissions") [])
  check (principal.assertCanGrant parsed)
  check (checkLifetime expiresInDays)
  let key ← check (ApiKey.make ⟨draw.id, principal.organizationId, name, draw.keyPrefix,
    draw.secretHash, parsed, principal.userId,
    expiresInDays.map fun days ↦ now + seconds (days * 86400), none, none, some now⟩)
  ApiKeys.add key
  Audit.record principal (py "api_key.created") (py "api_key") (some key.id)
  .commit (.ok (apiKeySummary key, py "ak_" ++ draw.keyPrefix ++ py "." ++ draw.secret))

end CreateApiKey

/-! ## Callers -/

/-- The claims of an access token that resolution reads. -/
structure AccessClaims where
  subject : Uuid
  organizationId : Uuid
  sessionId : Option Uuid
  mfa : Bool
  deriving DecidableEq, Repr

namespace ResolveUserPrincipal

/-- A token of a session that is revoked or gone is refused. -/
def checkSession {R : Type} : Option Uuid → Tx R Unit
  | none => pure ()
  | some sessionId => do
      let session ← Sessions.getById sessionId
      refuseIf (session.all fun session ↦ session.revokedAt.isSome)
        (.TokenError (py "This session has been revoked."))

/-- `ResolveUserPrincipal.execute(…)`, of the claims of a token. -/
def execute (claims : AccessClaims) (now : Instant) (context : RequestContext) :
    Tx Principal Empty := do
  let some user ← Users.get claims.subject | raise .invalidCredentials
  refuseIf (!user.isActive) .invalidCredentials
  refuseIf (user.isLocked now) .invalidCredentials
  checkSession claims.sessionId
  let organization ← Organizations.get claims.organizationId
  refuseIf (organization.all fun organization ↦ !organization.isActive) .invalidCredentials
  let some membership ← Memberships.getForUser claims.organizationId claims.subject
    | raise .invalidCredentials
  refuseIf (!membership.isActive) .invalidCredentials
  .abort (.ok (.forMembership membership claims.sessionId user.email claims.mfa
    user.isPlatformAdmin context))

end ResolveUserPrincipal

/-- `ResolveApiKeyPrincipal.execute(…)`, of the prefix and the secret of a key. -/
def ResolveApiKeyPrincipal.execute (verify : PyStr → PyStr → Bool) (keyPrefix secret : PyStr)
    (now : Instant) (context : RequestContext) : Tx Principal Empty := do
  let some key ← ApiKeys.getByPrefix keyPrefix | raise .invalidCredentials
  refuseIf (!key.isActive now) .invalidCredentials
  refuseIf (!verify secret key.secretHash) .invalidCredentials
  let organization ← Organizations.get key.organizationId
  refuseIf (organization.all fun organization ↦ !organization.isActive) .invalidCredentials
  ApiKeys.touch key.id now
  .commit (.ok
    { kind := .API_KEY
      organizationId := key.organizationId
      permissions := key.permissions
      userId := none
      sessionId := none
      apiKeyId := some key.id
      membershipId := none
      label := py "api-key:" ++ key.name
      mfaSatisfied := true
      isPlatformAdmin := false
      isOwner := false
      context := context })

end Aegis.Access
