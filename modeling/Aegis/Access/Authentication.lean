import Aegis.Access.Rbac

/-!
# Authentication

`application/auth.py`: signing in with a password, completing a challenge with a second factor,
exchanging a refresh token and signing out. A token is its claims, `decode` is what the codec made
of the token that was presented, and whatever a use case draws or reads from a clock is an argument.
-/

namespace Aegis.Access

open Aegis.Server Permission

/-! ## Ports -/

/-- `infrastructure/security/totp.py`, over the codes that `pyotp` computes for a secret. -/
structure TotpService where
  digits : Nat
  periodSeconds : Nat
  validWindow : Nat
  /-- `str.isdigit()`. -/
  isDigit : PyStr → Bool
  /-- `unicodedata.normalize("NFKC", …)`. -/
  nfkc : PyStr → PyStr
  /-- The code of a secret for a time step. -/
  generateOtp : PyStr → Int → PyStr

/-- `(code or "").strip().replace(" ", "")`. -/
def stripSpaces (code : PyStr) : PyStr :=
  code.strip.filter fun c ↦ c.val != 32

namespace TotpService

/-- The time step of an instant. -/
def timecode (totp : TotpService) (now : Instant) : Int :=
  now / seconds totp.periodSeconds

/-- The time steps whose codes are accepted at an instant. -/
def window (totp : TotpService) (now : Instant) : List Int :=
  (List.range (2 * totp.validWindow + 1)).map fun i ↦ totp.timecode now - totp.validWindow + i

/-- `pyotp` takes two codes for one. -/
def sameCode (totp : TotpService) (code other : PyStr) : Bool :=
  totp.nfkc code == totp.nfkc other

/-- `totp.verify(secret, code, now=now)`. -/
def verify (totp : TotpService) (secret code : PyStr) (now : Instant) : Bool :=
  let candidate := stripSpaces code
  totp.isDigit candidate && candidate.length == totp.digits &&
    (totp.window now).any fun step ↦ totp.sameCode candidate (totp.generateOtp secret step)

end TotpService

/-- The ports and policies that authentication uses. -/
structure AuthDependencies where
  unicode : Unicode
  /-- `hasher.verify(password, hash)`. -/
  verify : PyStr → PyStr → Bool
  /-- `hasher.needs_rehash(hash)`. -/
  needsRehash : PyStr → Bool
  /-- `tokens.hash(token)`. -/
  hashToken : PyStr → TokenHash
  totp : TotpService
  /-- `cipher.decrypt(ciphertext)`, or `none` when no key decrypts it. -/
  decrypt : PyStr → Option PyStr
  lockoutPolicy : LockoutPolicy
  tokenPolicy : TokenPolicy

/-- The clocks that a use case reads, and what it draws: a session, its refresh token and a new
hash of the password. -/
structure Moment where
  now : Instant
  databaseNow : Instant
  sessionId : Uuid
  refreshToken : PyStr
  rehash : PyStr

/-! ## Tokens -/

/-- The claims of an access token. -/
structure AccessToken where
  subject : Uuid
  organizationId : Uuid
  sessionId : Uuid
  permissions : List PyStr
  mfa : Bool
  issuedAt : Instant
  expiresAt : Instant
  deriving DecidableEq, Repr

/-- The claims of a challenge token. -/
structure ChallengeToken where
  subject : Uuid
  organizationId : Uuid
  purpose : Option PyStr
  deriving DecidableEq, Repr

structure TokenPair where
  accessToken : AccessToken
  accessTokenExpiresAt : Instant
  refreshToken : PyStr
  refreshTokenExpiresAt : Instant
  sessionId : Uuid
  deriving DecidableEq, Repr

structure MfaChallenge where
  challengeToken : ChallengeToken
  expiresAt : Instant
  methods : List PyStr
  deriving DecidableEq, Repr

/-- Either a token pair or a challenge. -/
inductive AuthenticationResult where
  | tokens (tokens : TokenPair)
  | challenge (challenge : MfaChallenge)
  deriving DecidableEq, Repr

variable {R : Type}

/-- `codec.issue(…)`, for a member whose refresh token expires at an instant. -/
def tokenPair (policy : TokenPolicy) (subject : Uuid) (membership : Membership)
    (sessionId : Uuid) (mfaSatisfied : Bool) (now : Instant) (refreshToken : PyStr)
    (refreshTokenExpiresAt : Instant) : TokenPair :=
  let expiresAt := now + seconds policy.accessTtlSeconds
  ⟨⟨subject, membership.organizationId, sessionId, sortedValues membership.permissions,
    mfaSatisfied, now, expiresAt⟩, expiresAt, refreshToken, refreshTokenExpiresAt, sessionId⟩

namespace SessionIssuer

/-- The sessions to revoke for room: the oldest ones. -/
def overflow (policy : TokenPolicy) (active : List Session) : List Session :=
  (active.insertionSort fun a b ↦ a.createdAt ≤ b.createdAt).take
    (active.length - policy.maxSessionsPerUser + 1)

/-- `_enforce_session_cap(uow, user_id=user_id, now=now)`. -/
def enforceSessionCap (policy : TokenPolicy) (userId : Uuid) (now : Instant) : Tx R Unit := do
  let active ← Sessions.listActiveForUser userId now
  if active.length < policy.maxSessionsPerUser then pure ()
  else
    Txn.each (overflow policy active) fun session ↦
      Sessions.update session (session.revoke now (py "session_cap_exceeded"))

/-- `issue(uow, user=user, membership=membership, …)`. -/
def issue (deps : AuthDependencies) (user : User) (membership : Membership) (mfaSatisfied : Bool)
    (context : RequestContext) (moment : Moment) : Tx R TokenPair := do
  let policy := deps.tokenPolicy
  enforceSessionCap policy user.id moment.now
  let session := Session.start moment.sessionId user.id membership.organizationId
    (deps.hashToken moment.refreshToken) policy.refreshTtlSeconds moment.now context
  Sessions.add session moment.databaseNow
  pure (tokenPair policy user.id membership session.id mfaSatisfied moment.now moment.refreshToken
    session.expiresAt)

end SessionIssuer

/-! ## Signing in -/

/-- `memberships.get_for_user(user_id)`, when the membership is active. -/
def activeMembership (organizationId userId : Uuid) : Tx R Membership := do
  let some membership ← Memberships.getForUser organizationId userId | raise .invalidCredentials
  refuseIf (!membership.isActive) .invalidCredentials
  pure membership

/-- The slug of a request, when it has one. -/
def namedSlug (organizationSlug : Option PyStr) : Option PyStr :=
  organizationSlug.filter fun slug ↦ !slug.isEmpty

namespace AuthenticateUser

/-- `_resolve_membership(uow, user, organization_slug)`. -/
def resolveMembership (unicode : Unicode) (user : User) (organizationSlug : Option PyStr) :
    Tx R (Membership × Organization) :=
  match namedSlug organizationSlug with
  | some text => do
      let slug ← check (Slug.make unicode text)
      let some organization ← Organizations.getBySlug slug | raise .invalidCredentials
      refuseIf (!organization.isActive) .invalidCredentials
      let membership ← activeMembership organization.id user.id
      pure (membership, organization)
  | none => do
      match ← Organizations.findActiveForUser user.id with
      | [] => raise .invalidCredentials
      | [organization] => do
          let membership ← activeMembership organization.id user.id
          pure (membership, organization)
      | candidates =>
          raise (.ValidationError (py "Specify which organization to sign in to.")
            (py "organization_slug") (candidates.map Organization.slug))

/-- `_audit_failure(uow, user, organization_slug, context, now)`. -/
def auditFailure (user : User) (organizationSlug : Option PyStr) (now : Instant) :
    Tx R Unit := do
  let organizations ← Organizations.findActiveForUser user.id
  let record (organization : Organization) (action : PyStr) : Tx R Unit :=
    Audit.recordUser organization.id (user.id, user.email) action (py "user") (some user.id)
      .FAILURE
  match organizations.filter fun organization ↦
      (namedSlug organizationSlug).all fun slug ↦ organization.slug == slug with
  | [organization] => do
      record organization (py "auth.login_failed")
      if user.isLocked now then record organization (py "auth.account_locked") else pure ()
  | _ => pure ()

/-- What follows a wrong password. -/
def reject (deps : AuthDependencies) (loaded : User) (organizationSlug : Option PyStr)
    (now : Instant) : Tx AuthenticationResult Empty := do
  let user := loaded.recordFailedLogin now deps.lockoutPolicy
  Users.update loaded user
  auditFailure user organizationSlug now
  .commit (.error .invalidCredentials)

/-- What follows the right password, which is hashed anew when its hash is outdated. -/
def accept (deps : AuthDependencies) (loaded : User) (passwordHash : PyStr)
    (organizationSlug : Option PyStr) (context : RequestContext) (moment : Moment) :
    Tx AuthenticationResult Empty := do
  let rehashed := if deps.needsRehash passwordHash then
      { loaded with passwordHash := some moment.rehash }
    else loaded
  let (membership, organization) ← resolveMembership deps.unicode rehashed organizationSlug
  let user := rehashed.recordSuccessfulLogin moment.now
  Users.update loaded user
  if user.mfaEnabled then
    .commit (.ok (.challenge ⟨⟨user.id, organization.id, some (py "mfa")⟩,
      moment.now + seconds deps.tokenPolicy.mfaChallengeTtlSeconds,
      [py "totp", py "recovery_code"]⟩))
  else do
    let tokens ← SessionIssuer.issue deps user membership false context moment
    Audit.record (.forMembership membership none user.email false false context)
      (py "auth.login_succeeded") (py "user") (some user.id)
    .commit (.ok (.tokens tokens))

/-- `AuthenticateUser.execute(…)`. -/
def execute (deps : AuthDependencies) (email password : PyStr) (organizationSlug : Option PyStr)
    (context : RequestContext) (moment : Moment) : Tx AuthenticationResult Empty :=
  match EmailAddress.make deps.unicode email with
  | .error _ => raise .invalidCredentials
  | .ok address => do
      let some loaded ← Users.getByEmail address | raise .invalidCredentials
      let some passwordHash := loaded.passwordHash | raise .invalidCredentials
      check (loaded.assertCanAuthenticate moment.now)
      if deps.verify password passwordHash then
        accept deps loaded passwordHash organizationSlug context moment
      else reject deps loaded organizationSlug moment.now

end AuthenticateUser

/-! ## Second factors -/

namespace CompleteMfaChallenge

/-- The part of `_verify_code` that is about the authenticator. -/
def verifyTotp (deps : AuthDependencies) (candidate : PyStr) (now : Instant) :
    Option MfaCredential → Tx R Bool
  | none => pure false
  | some totp =>
      match deps.decrypt totp.secretEncrypted with
      | none => raise .SecretDecryptionError
      | some secret =>
          if deps.totp.verify secret candidate now then do
            MfaCredentials.update totp { totp with lastUsedAt := some now }
            pure true
          else pure false

/-- The part of `_verify_code` that is about the recovery codes. -/
def consumeRecovery (deps : AuthDependencies) (candidate : PyStr) (now : Instant) :
    List MfaCredential → Tx R Bool
  | [] => pure false
  | recovery :: rest =>
      if recovery.isUsable && deps.verify (normalizeRecoveryCode deps.unicode candidate)
          recovery.secretEncrypted then do
        let consumed ← check (recovery.consume now)
        MfaCredentials.update recovery consumed
        pure true
      else consumeRecovery deps candidate now rest

/-- `_verify_code(uow, user_id, code, now)`. -/
def verifyCode (deps : AuthDependencies) (userId : Uuid) (code : PyStr) (now : Instant) :
    Tx R Bool :=
  let candidate := stripSpaces code
  if candidate.isEmpty then pure false
  else do
    let totp ← MfaCredentials.getTotp userId true
    if ← verifyTotp deps candidate now totp then pure true
    else do
      let codes ← MfaCredentials.listRecoveryCodes userId
      consumeRecovery deps candidate now codes

/-- What follows a wrong code. -/
def reject (deps : AuthDependencies) (loaded : User) (organizationId : Uuid) (now : Instant) :
    Tx TokenPair Empty := do
  Users.update loaded (loaded.recordFailedLogin now deps.lockoutPolicy)
  Audit.recordUser organizationId (loaded.id, loaded.email) (py "auth.mfa_challenge_failed")
    (py "user") (some loaded.id) .FAILURE
  .commit (.error .InvalidMfaCodeError)

/-- What follows a code that is right. -/
def accept (deps : AuthDependencies) (loaded : User) (membership : Membership)
    (context : RequestContext) (moment : Moment) : Tx TokenPair Empty := do
  let user := loaded.recordSuccessfulLogin moment.now
  Users.update loaded user
  let tokens ← SessionIssuer.issue deps user membership true context moment
  Audit.record (.forMembership membership none user.email true false context)
    (py "auth.login_succeeded") (py "user") (some user.id)
  .commit (.ok tokens)

/-- `CompleteMfaChallenge.execute(…)`, of what the challenge token is decoded to. -/
def execute (deps : AuthDependencies) (decoded : Except DomainError ChallengeToken)
    (code : PyStr) (context : RequestContext) (moment : Moment) : Tx TokenPair Empty := do
  let claims ← check decoded
  refuseIf (claims.purpose != some (py "mfa"))
    (.TokenError (py "This token cannot be used to complete sign-in."))
  let some loaded ← Users.get claims.subject | raise .invalidCredentials
  refuseIf (!loaded.isActive) .invalidCredentials
  check (loaded.assertCanAuthenticate moment.now)
  let membership ← activeMembership claims.organizationId claims.subject
  if ← verifyCode deps claims.subject code moment.now then
    accept deps loaded membership context moment
  else reject deps loaded claims.organizationId moment.now

end CompleteMfaChallenge

/-! ## Refreshing and signing out -/

namespace RefreshSession

/-- `_reissue_from_successor(uow, session, context, now)`, which returns without a commit. -/
def reissueFromSuccessor (deps : AuthDependencies) (session : Session) (now : Instant) :
    Tx TokenPair Empty :=
  match session.replacedById with
  | none => raise (.TokenError (py "This session has been superseded."))
  | some successorId => do
      let some user ← Users.get session.userId | raise .invalidCredentials
      refuseIf (!user.isActive) .invalidCredentials
      let membership ← activeMembership session.organizationId session.userId
      .abort (.ok (tokenPair deps.tokenPolicy user.id membership successorId user.mfaEnabled now []
        session.expiresAt))

/-- `_handle_reuse(uow, session, context, now)`. -/
def handleReuse (session : Session) (now : Instant) : Tx TokenPair Empty := do
  let _ ← Sessions.revokeFamily session.familyId now Session.REUSE_REVOCATION_REASON
  let user ← Users.get session.userId
  Audit.recordUser session.organizationId (session.userId, (user.map User.email).getD [])
    (py "security.token_reuse") (py "session") (some session.id) .DENIED
  .commit (.error .TokenReuseError)

/-- What follows a token of a live session. -/
def rotate (deps : AuthDependencies) (session : Session) (context : RequestContext)
    (moment : Moment) : Tx TokenPair Empty := do
  let some user ← Users.get session.userId | raise .invalidCredentials
  refuseIf (!user.isActive) .invalidCredentials
  check (user.assertCanAuthenticate moment.now)
  let membership ← Memberships.getForUser session.organizationId session.userId
  match membership.filter Membership.isActive with
  | none => do
      let _ ← Sessions.revokeFamily session.familyId moment.now (py "membership_revoked")
      .commit (.error .invalidCredentials)
  | some membership => do
      let (consumed, successor) ← check (session.rotate moment.sessionId
        (deps.hashToken moment.refreshToken) moment.now session.expiresAt context)
      Sessions.update session consumed
      Sessions.add successor moment.databaseNow
      .commit (.ok (tokenPair deps.tokenPolicy user.id membership successor.id user.mfaEnabled
        moment.now moment.refreshToken successor.expiresAt))

/-- `RefreshSession.execute(…)`. -/
def execute (deps : AuthDependencies) (refreshToken : PyStr) (context : RequestContext)
    (moment : Moment) : Tx TokenPair Empty := do
  let some session ← Sessions.getByTokenHash (deps.hashToken refreshToken)
    | raise (.TokenError (py "This refresh token is not recognized."))
  refuseIf session.revokedAt.isSome .TokenReuseError
  if session.isRotated then
    if session.isWithinRotationGrace moment.now deps.tokenPolicy.rotationGraceSeconds then
      reissueFromSuccessor deps session moment.now
    else handleReuse session moment.now
  else do
    refuseIf (session.isExpired moment.now)
      (.TokenError (py "This session has expired. Please sign in again."))
    rotate deps session context moment

end RefreshSession

namespace RevokeSession

/-- The part of `RevokeSession.execute` that is about sessions. -/
def revoke (principal : Principal) (userId : Uuid) (allSessions : Bool) (now : Instant) :
    Tx R Nat :=
  if allSessions then Sessions.revokeAllForUser userId now (py "user_logout_all") none
  else
    match principal.sessionId with
    | none => pure 0
    | some sessionId => do
        match ← Sessions.getById sessionId with
        | none => pure 0
        | some session => Sessions.revokeFamily session.familyId now (py "user_logout")

/-- `RevokeSession.execute(…)`. -/
def execute (principal : Principal) (allSessions : Bool) (now : Instant) : Tx Nat Empty := do
  let some userId := principal.userId
    | raise (.InvalidStateError (py "Only a user session can be revoked."))
  let count ← revoke principal userId allSessions now
  Audit.record principal (py "auth.logout") (py "user") (some userId)
  .commit (.ok count)

end RevokeSession

end Aegis.Access
