import Aegis.Access.Entities

/-!
# Identity

`domain/entities/user.py`, the sessions of `domain/entities/access.py` and the policies of
`domain/policies.py` that they are checked against: users with their lockout, refresh-token
sessions in families, and second factors.
-/

namespace Aegis.Access

open Aegis.Server

/-- `timedelta(seconds=…)`, in the unit of an instant. -/
def seconds (n : Int) : Int :=
  n * 1000000

/-! ## Policies -/

/-- Throttling for repeated failed sign-in attempts, with the bounds `config.py` sets. -/
structure LockoutPolicy where
  maxFailedAttempts : Nat
  baseSeconds : Nat
  maxSeconds : Nat
  /-- How long a failure is to count. -/
  decaySeconds : Nat
  three_le_max_failed_attempts : 3 ≤ maxFailedAttempts
  five_le_base_seconds : 5 ≤ baseSeconds
  sixty_le_max_seconds : 60 ≤ maxSeconds

namespace LockoutPolicy

/-- The defaults. -/
def default : LockoutPolicy :=
  ⟨5, 60, 3600, 900, by decide, by decide, by decide⟩

/-- `policy.lock_duration(failed_count)`: seconds to lock after consecutive failures. -/
def lockDuration (policy : LockoutPolicy) (failedCount : Nat) : Nat :=
  if failedCount < policy.maxFailedAttempts then 0
  else min (policy.baseSeconds * 2 ^ (failedCount - policy.maxFailedAttempts)) policy.maxSeconds

/-- There is a lock from the threshold on. -/
theorem lock_duration_pos_iff (policy : LockoutPolicy) (failedCount : Nat) :
    0 < policy.lockDuration failedCount ↔ policy.maxFailedAttempts ≤ failedCount := by
  unfold lockDuration
  split
  · omega
  · have hbase := policy.five_le_base_seconds
    have hmax := policy.sixty_le_max_seconds
    have hpow : 0 < policy.baseSeconds * 2 ^ (failedCount - policy.maxFailedAttempts) :=
      Nat.mul_pos (by omega) (Nat.two_pow_pos _)
    omega

end LockoutPolicy

/-- Lifetimes and rotation of the token pair, with the lower bounds `config.py` sets. -/
structure TokenPolicy where
  accessTtlSeconds : Nat
  refreshTtlSeconds : Nat
  mfaChallengeTtlSeconds : Nat
  rotationGraceSeconds : Nat
  maxSessionsPerUser : Nat
  refresh_ttl_ge : 3600 ≤ refreshTtlSeconds
  one_le_max_sessions : 1 ≤ maxSessionsPerUser

/-- The defaults. -/
def TokenPolicy.default : TokenPolicy :=
  ⟨900, 2592000, 300, 10, 10, by decide, by decide⟩

/-! ## Users -/

inductive UserStatus where
  | ACTIVE
  | INVITED
  | DISABLED
  deriving DecidableEq, Repr

/-- A person who can sign in. -/
structure User where
  id : Uuid
  email : PyStr
  passwordHash : Option PyStr
  fullName : PyStr
  status : UserStatus
  isPlatformAdmin : Bool
  mfaEnabled : Bool
  failedLoginCount : Nat
  lockedUntil : Option Instant
  lastLoginAt : Option Instant
  deriving DecidableEq, Repr

namespace User

/-- `User(email=…, full_name=…, status=UserStatus.INVITED)`. -/
def invited (id : Uuid) (email fullName : PyStr) : User :=
  ⟨id, email, none, fullName.strip.take 200, .INVITED, false, false, 0, none, none⟩

/-- `user.is_active`. -/
def isActive (user : User) : Bool :=
  user.status == .ACTIVE

/-- `user.is_locked(now)`. -/
def isLocked (user : User) (now : Instant) : Bool :=
  user.lockedUntil.any fun until_ ↦ now < until_

/-- `user.lock_retry_after(now)`. -/
def lockRetryAfter (user : User) (now : Instant) : Int :=
  match user.lockedUntil with
  | some until_ => if now < until_ then max 1 ((until_ - now) / seconds 1) else 0
  | none => 0

/-- `user.assert_can_authenticate(now)`. -/
def assertCanAuthenticate (user : User) (now : Instant) : Except DomainError Unit :=
  if user.status = .DISABLED then .error .AccountDisabledError
  else if user.isLocked now then .error (.AccountLockedError (user.lockRetryAfter now))
  else .ok ()

/-- `user.record_failed_login(now, policy)`. -/
def recordFailedLogin (user : User) (now : Instant) (policy : LockoutPolicy) : User :=
  let count := user.failedLoginCount + 1
  let duration := policy.lockDuration count
  { user with
    failedLoginCount := count
    lockedUntil := if duration ≠ 0 then some (now + seconds duration) else user.lockedUntil }

/-- `user.record_successful_login(now)`. -/
def recordSuccessfulLogin (user : User) (now : Instant) : User :=
  { user with failedLoginCount := 0, lockedUntil := none, lastLoginAt := some now }

/-- `user.enable_mfa()`. -/
def enableMfa (user : User) : User :=
  { user with mfaEnabled := true }

/-- `user.disable_mfa()`. -/
def disableMfa (user : User) : User :=
  { user with mfaEnabled := false }

/-- Sign-in goes on for an account that is neither disabled nor locked. -/
theorem assert_can_authenticate_eq_ok_iff {user : User} {now : Instant} :
    user.assertCanAuthenticate now = .ok () ↔
      user.status ≠ .DISABLED ∧ user.isLocked now = false := by
  unfold assertCanAuthenticate
  split
  · simp_all
  · split <;> simp_all

end User

/-! ## Sessions -/

/-- The SHA-256 digest of a refresh token. -/
abbrev TokenHash := BitVec 256

/-- A refresh-token session. Its successors have its family. -/
structure Session where
  id : Uuid
  userId : Uuid
  organizationId : Uuid
  familyId : Uuid
  refreshTokenHash : TokenHash
  expiresAt : Instant
  userAgent : PyStr
  ipAddress : Option PyStr
  rotatedAt : Option Instant
  revokedAt : Option Instant
  revokedReason : Option PyStr
  replacedById : Option Uuid
  createdAt : Instant
  deriving DecidableEq, Repr

namespace Session

/-- `Session.REUSE_REVOCATION_REASON`. -/
def REUSE_REVOCATION_REASON : PyStr :=
  py "token_reuse_detected"

/-- `Session.start(…)`: a new family. -/
def start (id userId organizationId : Uuid) (refreshTokenHash : TokenHash) (ttlSeconds : Nat)
    (now : Instant) (context : RequestContext) : Session where
  id := id
  userId := userId
  organizationId := organizationId
  familyId := id
  refreshTokenHash := refreshTokenHash
  expiresAt := now + seconds ttlSeconds
  userAgent := context.userAgent.take 400
  ipAddress := context.ipAddress
  rotatedAt := none
  revokedAt := none
  revokedReason := none
  replacedById := none
  createdAt := now

/-- `first or second` for text. -/
def orText (first second : PyStr) : PyStr :=
  if first.isEmpty then second else first

/-- `first or second` for text that may be missing. -/
def orAddress (first second : Option PyStr) : Option PyStr :=
  if first.all List.isEmpty then second else first

/-- `session.rotate(…)`: the consumed session and its successor. -/
def rotate (session : Session) (successorId : Uuid) (refreshTokenHash : TokenHash) (now : Instant)
    (absoluteExpiry : Instant) (context : RequestContext) :
    Except DomainError (Session × Session) :=
  if session.revokedAt.isSome then
    .error (.InvalidStateError (py "A revoked session cannot be rotated."))
  else
    .ok ({ session with rotatedAt := some now, replacedById := some successorId },
      { id := successorId
        userId := session.userId
        organizationId := session.organizationId
        familyId := session.familyId
        refreshTokenHash := refreshTokenHash
        expiresAt := absoluteExpiry
        userAgent := (orText context.userAgent session.userAgent).take 400
        ipAddress := orAddress context.ipAddress session.ipAddress
        rotatedAt := none
        revokedAt := none
        revokedReason := none
        replacedById := none
        createdAt := now })

/-- `session.is_rotated`. -/
def isRotated (session : Session) : Bool :=
  session.rotatedAt.isSome

/-- `session.is_expired(now)`. -/
def isExpired (session : Session) (now : Instant) : Bool :=
  session.expiresAt ≤ now

/-- `session.is_active(now)`. -/
def isActive (session : Session) (now : Instant) : Bool :=
  session.revokedAt.isNone && !session.isRotated && !session.isExpired now

/-- `session.is_within_rotation_grace(now, grace_seconds)`. -/
def isWithinRotationGrace (session : Session) (now : Instant) (graceSeconds : Nat) : Bool :=
  session.rotatedAt.any fun rotated ↦ now - rotated ≤ seconds graceSeconds

/-- `session.revoke(now, reason)`. -/
def revoke (session : Session) (now : Instant) (reason : PyStr) : Session :=
  if session.revokedAt.isNone then
    { session with revokedAt := some now, revokedReason := some reason }
  else session

end Session

/-! ## Second factors -/

inductive MfaKind where
  | TOTP
  | RECOVERY_CODE
  deriving DecidableEq, Repr

/-- A second factor: an encrypted TOTP secret or the hash of a recovery code. -/
structure MfaCredential where
  id : Uuid
  userId : Uuid
  kind : MfaKind
  secretEncrypted : PyStr
  confirmed : Bool
  consumedAt : Option Instant
  lastUsedAt : Option Instant
  deriving DecidableEq, Repr

namespace MfaCredential

/-- `credential.is_usable`. -/
def isUsable (credential : MfaCredential) : Bool :=
  if credential.kind = .RECOVERY_CODE then credential.consumedAt.isNone else credential.confirmed

/-- `credential.confirm(now)`. -/
def confirm (credential : MfaCredential) (now : Instant) : Except DomainError MfaCredential :=
  if credential.kind = .TOTP then
    .ok { credential with confirmed := true, lastUsedAt := some now }
  else .error (.InvalidStateError (py "Only a TOTP credential can be confirmed."))

/-- `credential.consume(now)`. -/
def consume (credential : MfaCredential) (now : Instant) : Except DomainError MfaCredential :=
  if credential.kind ≠ .RECOVERY_CODE then
    .error (.InvalidStateError (py "Only a recovery code can be consumed."))
  else if credential.consumedAt.isSome then
    .error (.InvalidStateError (py "This recovery code has already been used."))
  else .ok { credential with consumedAt := some now, lastUsedAt := some now }

end MfaCredential

end Aegis.Access
