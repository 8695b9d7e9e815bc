import Aegis.Access.Authentication

/-!
# Second factors

`application/mfa.py`: enrolling, confirming and disabling a second factor. The secret and the
recovery codes of an enrolment, and what is stored of them, are drawn.
-/

namespace Aegis.Access

open Aegis.Server Permission

/-- A recovery code as it is shown, and as it is stored. -/
structure RecoveryDraw where
  id : Uuid
  code : PyStr
  hash : PyStr

/-- What an enrolment draws. -/
structure EnrolmentDraw where
  id : Uuid
  secret : PyStr
  secretEncrypted : PyStr
  recovery : List RecoveryDraw

/-- What an enrolment shows, once. -/
structure MfaEnrolmentResult where
  secret : PyStr
  recoveryCodes : List PyStr
  deriving DecidableEq, Repr

/-- The user of a principal whose password is given. -/
def reauthenticate {R : Type} (deps : AuthDependencies) (principal : Principal)
    (refusal password : PyStr) : Tx R User := do
  let some userId := principal.userId | raise (.InvalidStateError refusal)
  let some user ← Users.get userId | raise (.NotFoundError (py "User"))
  let some passwordHash := user.passwordHash | raise (.NotFoundError (py "User"))
  refuseIf (!deps.verify password passwordHash)
    (.AuthenticationError (py "The password is incorrect."))
  pure user

namespace EnrolMfa

/-- The credential of the authenticator. -/
def totpCredential (draw : EnrolmentDraw) (userId : Uuid) : MfaCredential :=
  ⟨draw.id, userId, .TOTP, draw.secretEncrypted, false, none, none⟩

/-- The credential of a recovery code. -/
def recoveryCredential (userId : Uuid) (draw : RecoveryDraw) : MfaCredential :=
  ⟨draw.id, userId, .RECOVERY_CODE, draw.hash, false, none, none⟩

/-- `EnrolMfa.execute(principal=principal, password=password)`. -/
def execute (deps : AuthDependencies) (principal : Principal) (password : PyStr)
    (draw : EnrolmentDraw) : Tx MfaEnrolmentResult Empty := do
  let user ← reauthenticate deps principal
    (py "Only a user principal can enrol a second factor.") password
  refuseIf user.mfaEnabled (.InvalidStateError
    (py "Multi-factor authentication is already enabled. Disable it first to re-enrol."))
  MfaCredentials.deleteForUser user.id
  MfaCredentials.add (totpCredential draw user.id)
  Txn.each draw.recovery fun code ↦ MfaCredentials.add (recoveryCredential user.id code)
  .commit (.ok ⟨draw.secret, draw.recovery.map RecoveryDraw.code⟩)

end EnrolMfa

/-- `ConfirmMfa.execute(principal=principal, code=code)`. -/
def ConfirmMfa.execute (deps : AuthDependencies) (principal : Principal) (code : PyStr)
    (now : Instant) : Tx Unit Empty := do
  let some userId := principal.userId
    | raise (.InvalidStateError (py "Only a user principal can confirm a second factor."))
  let some user ← Users.get userId | raise (.NotFoundError (py "User"))
  let some credential ← MfaCredentials.getTotp user.id false
    | raise (.InvalidStateError (py "There is no pending enrolment to confirm."))
  let some secret := deps.decrypt credential.secretEncrypted | raise .SecretDecryptionError
  refuseIf (!deps.totp.verify secret code.strip now) .InvalidMfaCodeError
  let confirmed ← check (credential.confirm now)
  MfaCredentials.update credential confirmed
  Users.update user user.enableMfa
  Audit.record principal (py "auth.mfa_enrolled") (py "user") (some user.id)
  .commit (.ok ())

/-- `DisableMfa.execute(principal=principal, password=password)`. -/
def DisableMfa.execute (deps : AuthDependencies) (requireForPrivilegedRoles : Bool)
    (principal : Principal) (password : PyStr) : Tx Unit Empty := do
  let user ← reauthenticate deps principal
    (py "Only a user principal can disable a second factor.") password
  refuseIf (!user.mfaEnabled)
    (.InvalidStateError (py "Multi-factor authentication is not enabled."))
  refuseIf (requireForPrivilegedRoles && isPrivileged principal.permissions)
    (.InvalidStateError
      (py "This organization requires multi-factor authentication for privileged roles."))
  MfaCredentials.deleteForUser user.id
  Users.update user user.disableMfa
  Audit.record principal (py "auth.mfa_disabled") (py "user") (some user.id)
  .commit (.ok ())

/-! ## The requests -/

/-- A request of an account. -/
inductive AccountRequest where
  | signIn (email password : PyStr) (organizationSlug : Option PyStr) (context : RequestContext)
      (moment : Moment)
  | completeMfa (decoded : Except DomainError ChallengeToken) (code : PyStr)
      (context : RequestContext) (moment : Moment)
  | refresh (refreshToken : PyStr) (context : RequestContext) (moment : Moment)
  | signOut (principal : Principal) (allSessions : Bool) (now : Instant)
  | enrol (principal : Principal) (password : PyStr) (draw : EnrolmentDraw)
  | confirm (principal : Principal) (code : PyStr) (now : Instant)
  | disable (principal : Principal) (password : PyStr)

/-- The answer to a request. -/
inductive AccountAnswer where
  | result (result : AuthenticationResult)
  | pair (tokens : TokenPair)
  | revoked (count : Nat)
  | enrolled (enrolment : MfaEnrolmentResult)
  | done
  deriving DecidableEq, Repr

/-- The transaction of a request. -/
def AccountRequest.program (deps : AuthDependencies) (requireForPrivilegedRoles : Bool) :
    AccountRequest → Tx AccountAnswer Empty
  | signIn email password organizationSlug context moment =>
      (AuthenticateUser.execute deps email password organizationSlug context moment).mapOutcome
        (Except.map .result)
  | completeMfa decoded code context moment =>
      (CompleteMfaChallenge.execute deps decoded code context moment).mapOutcome (Except.map .pair)
  | refresh refreshToken context moment =>
      (RefreshSession.execute deps refreshToken context moment).mapOutcome (Except.map .pair)
  | signOut principal allSessions now =>
      (RevokeSession.execute principal allSessions now).mapOutcome (Except.map .revoked)
  | enrol principal password draw =>
      (EnrolMfa.execute deps principal password draw).mapOutcome (Except.map .enrolled)
  | confirm principal code now =>
      (ConfirmMfa.execute deps principal code now).mapOutcome (Except.map fun _ ↦ .done)
  | disable principal password =>
      (DisableMfa.execute deps requireForPrivilegedRoles principal password).mapOutcome
        (Except.map fun _ ↦ .done)

/-- A request that has been served alone, with the state it found. -/
structure AccountStep where
  before : Database
  request : AccountRequest
  committed : Bool
  outcome : Except DomainError AccountAnswer

/-- Requests are served one after another. -/
def accountStep (deps : AuthDependencies) (requireForPrivilegedRoles : Bool) (db : Database)
    (request : AccountRequest) : AccountStep × Database :=
  let served := Transaction.run (request.program deps requireForPrivilegedRoles) [] db
  (⟨db, request, served.1.1, served.1.2⟩, served.2)

/-! ## A plain deployment -/

/-- Ports that keep passwords, secrets and tokens as they are, with room for one session. -/
def plainDependencies : AuthDependencies where
  unicode := ⟨plainLibrary, id, id⟩
  verify password hash := password == hash
  needsRehash _ := false
  hashToken token := BitVec.ofNat _ (ofDigits 0x110000 (token.map Fin.val))
  totp := ⟨6, 30, 1, fun _ ↦ true, id, fun _ _ ↦ py "123456"⟩
  decrypt := some
  lockoutPolicy := .default
  tokenPolicy := { TokenPolicy.default with maxSessionsPerUser := 1, one_le_max_sessions := le_rfl }

/-- User 7, whose password is `secret`. -/
def plainUser : User :=
  ⟨7, py "a@b.co", some (py "secret"), py "A", .ACTIVE, false, false, 0, none, none⟩

/-- The user is a member of organization 1, and has some sessions. -/
def plainAccounts (user : User) (sessions : Table Session) : Database :=
  { Database.empty with
    organizations := ⟨[⟨1, py "acme", py "acme", .ACTIVE, []⟩], by decide⟩
    users := ⟨[user], List.nodup_singleton _⟩
    memberships := ⟨[⟨100, 1, 7, .ACTIVE, none, none⟩], by decide⟩
    sessions := sessions }

/-- A sign-in of the user. -/
def plainSignIn (password : String) (now : Instant) (sessionId : Uuid) : AccountRequest :=
  .signIn (py "a@b.co") (py password) none ⟨[], none, []⟩ ⟨now, now, sessionId, [], []⟩

end Aegis.Access
