import Aegis.Access.Database

/-!
# Repositories

`infrastructure/db/repositories.py`, one statement after another. The repositories of a tenant
read and write only its rows, as row-level security also has it, and the roles of a membership are
read by a statement of their own. An update of an entity writes the columns that were changed
since its row was loaded, and nothing when none was.
-/

namespace Aegis.Access

open Aegis.Server Aegis.Inventory Database

/-- A transaction of a use case that returns a result or raises an error. -/
abbrev Tx (R : Type) (α : Type) :=
  Txn Database Write (Except DomainError R) α

variable {R : Type}

/-- `raise error`: leaving the unit of work rolls back what was not committed. -/
def raise {α : Type} (error : DomainError) : Tx R α :=
  .abort (.error error)

/-- A check that raises its error. -/
def check {α : Type} : Except DomainError α → Tx R α
  | .ok a => .pure a
  | .error error => raise error

/-! ## Users, organizations and licences -/

namespace Users

/-- `users.get(user_id)`. -/
def get (userId : Uuid) : Tx R (Option User) :=
  usersTable.selectOne fun user ↦ user.id == userId

/-- `users.get_by_email(email)`. -/
def getByEmail (email : PyStr) : Tx R (Option User) :=
  usersTable.selectOne fun user ↦ user.email == email

/-- `users.add(user)`. -/
def add (user : User) : Tx R Unit :=
  usersTable.insert user (.error .IntegrityError)

/-- `users.update(user)`. -/
def update (loaded user : User) : Tx R Unit :=
  if user = loaded then pure ()
  else usersTable.update user.id (applyUser loaded user) (.error .StaleDataError)

end Users

namespace Organizations

/-- `organizations.get(organization_id)`. -/
def get (organizationId : Uuid) : Tx R (Option Organization) :=
  .read fun db ↦ db.organizations.find? organizationId

/-- `organizations.get_by_slug(slug)`. -/
def getBySlug (slug : PyStr) : Tx R (Option Organization) :=
  .read fun db ↦ db.organizations.rows.find? fun organization ↦ organization.slug == slug

/-- `find_active_organizations_for_user(user_id)`. -/
def findActiveForUser (userId : Uuid) : Tx R (List Organization) :=
  .read fun db ↦ db.organizations.rows.filter fun organization ↦
    organization.isActive && db.memberships.rows.any fun membership ↦
      membership.organizationId == organization.id && membership.userId == userId &&
        membership.status == .ACTIVE

end Organizations

/-- `licenses.get_for_organization(organization_id)`. -/
def Licenses.getForOrganization (organizationId : Uuid) : Tx R (Option License) :=
  .read fun db ↦ db.licenses.rows.find? fun license ↦ license.organizationId == organizationId

/-! ## Memberships -/

namespace Memberships

/-- The roles of a membership, as `selectin` loads them in a tenant. -/
def rolesOf (organizationId membershipId : Uuid) (db : Database) : List RoleRecord :=
  db.roles.rows.filter fun role ↦ role.organizationId == organizationId &&
    db.membershipRoles.rows.any fun link ↦
      link.membershipId == membershipId && link.roleId == role.id

/-- The membership of a row. -/
def load (organizationId : Uuid) (record : MembershipRecord) : Tx R Membership := do
  let roles ← Txn.read (rolesOf organizationId record.id)
  check (membershipToDomain record roles)

/-- The membership of the row that meets a condition. -/
def find (organizationId : Uuid) (p : MembershipRecord → Bool) : Tx R (Option Membership) := do
  match ← membershipsTable.selectOne fun row ↦ row.organizationId == organizationId && p row with
  | none => pure none
  | some record => do
      let membership ← load organizationId record
      pure (some membership)

/-- `memberships.get(membership_id)`. -/
def get (organizationId membershipId : Uuid) : Tx R (Option Membership) :=
  find organizationId fun row ↦ row.id == membershipId

/-- `memberships.get_for_user(user_id)`. -/
def getForUser (organizationId userId : Uuid) : Tx R (Option Membership) :=
  find organizationId fun row ↦ row.userId == userId

/-- `memberships.count()`. -/
def count (organizationId : Uuid) : Tx R Nat :=
  membershipsTable.count fun row ↦ row.organizationId == organizationId

/-- Whether a membership holds the system role named Owner, by the columns of the role. -/
def isOwnerRow (organizationId membershipId : Uuid) (db : Database) : Bool :=
  db.membershipRoles.rows.any fun link ↦ link.membershipId == membershipId &&
    db.roles.rows.any fun role ↦ role.id == link.roleId &&
      role.organizationId == organizationId && role.isSystem && role.name == py "Owner"

/-- How many memberships hold the system role named Owner. -/
def ownerCount (organizationId : Uuid) (db : Database) : Nat :=
  db.memberships.rows.countP fun row ↦
    row.organizationId == organizationId && isOwnerRow organizationId row.id db

/-- `memberships.count_owners()`. -/
def countOwners (organizationId : Uuid) : Tx R Nat :=
  .read (ownerCount organizationId)

/-- Whether a link cannot be inserted: it is there, or its membership or its role is not. -/
def forbidsLink (link : MembershipRole) (db : Database) : Bool :=
  membershipRolesTable.violates link db || (db.memberships.find? link.membershipId).isNone ||
    (db.roles.find? link.roleId).isNone

/-- `membership_roles.insert()`. -/
def addRole (membershipId : Uuid) (role : Role) : Tx R Unit :=
  let link : MembershipRole := ⟨membershipId, role.id⟩
  .act (fun db ↦ if forbidsLink link db then [] else [.membershipRoles (.insert link)])
    fun db ↦ if forbidsLink link db then raise .IntegrityError else .pure ()

/-- `memberships.add(membership)`. -/
def add (membership : Membership) : Tx R Unit := do
  membershipsTable.insert (membershipToRecord membership) (.error .IntegrityError)
  Txn.each membership.roles (addRole membership.id)
  let _ ← load membership.organizationId (membershipToRecord membership)

/-- The part of an update that is about the row itself. -/
def updateRow (loaded membership : Membership) : Tx R Unit :=
  if membership.status = loaded.status ∧ membership.joinedAt = loaded.joinedAt then pure ()
  else
    membershipsTable.update membership.id
      (applyMembership (membershipToRecord loaded) membership) (.error .StaleDataError)

/-- `memberships.update(membership)`. -/
def update (organizationId : Uuid) (loaded membership : Membership) : Tx R Unit := do
  let some record ← membershipsTable.selectOne fun row ↦
      row.organizationId == organizationId && row.id == membership.id
    | raise .LookupError
  updateRow loaded membership
  let _ ← membershipRolesTable.deleteWhere fun link ↦ link.membershipId == membership.id
  Txn.each membership.roles (addRole membership.id)
  let _ ← load organizationId record

/-- `memberships.delete(membership_id)`. -/
def delete (organizationId membershipId : Uuid) : Tx R Unit := do
  let _ ← membershipsTable.deleteWhere fun row ↦
    row.id == membershipId && row.organizationId == organizationId

end Memberships

/-! ## Roles -/

namespace Roles

/-- The role of the row that meets a condition. -/
def find (organizationId : Uuid) (p : RoleRecord → Bool) : Tx R (Option (RoleRecord × Role)) := do
  match ← rolesTable.selectOne fun row ↦ row.organizationId == organizationId && p row with
  | none => pure none
  | some record => do
      let role ← check (roleToDomain record)
      pure (some (record, role))

/-- `roles.get(role_id)`, with its row. -/
def get (organizationId roleId : Uuid) : Tx R (Option (RoleRecord × Role)) :=
  find organizationId fun row ↦ row.id == roleId

/-- `roles.get_by_name(name)`, with its row. -/
def getByName (organizationId : Uuid) (name : PyStr) : Tx R (Option (RoleRecord × Role)) :=
  find organizationId fun row ↦ row.name == name

/-- `roles.get_many(role_ids)`. -/
def getMany (organizationId : Uuid) (roleIds : List Uuid) : Tx R (List Role) := do
  let rows ← rolesTable.select fun row ↦
    row.organizationId == organizationId && roleIds.contains row.id
  check (rows.mapM roleToDomain)

/-- `roles.add(role)`. -/
def add (role : Role) : Tx R Unit :=
  rolesTable.insert (roleToRecord role) (.error .IntegrityError)

/-- The error of an update of a role: its row is gone, or its new name is taken. -/
def refusal (role : Role) (db : Database) : Option DomainError :=
  if (db.roles.find? role.id).isNone then some .StaleDataError
  else if db.roles.rows.any fun row ↦ row.id != role.id && Write.sameName row (roleToRecord role) then
    some .IntegrityError
  else none

/-- `roles.update(role)`. -/
def update (organizationId : Uuid) (loaded : RoleRecord) (role : Role) : Tx R Unit := do
  let some _ ← rolesTable.selectOne fun row ↦
      row.organizationId == organizationId && row.id == role.id
    | raise .LookupError
  if roleToRecord role = loaded then pure ()
  else
    .act (fun db ↦ if (refusal role db).isSome then []
        else [.roles (.modify role.id (applyRole loaded role))])
      fun db ↦ match refusal role db with
        | some error => raise error
        | none => .pure ()

end Roles

/-! ## Sessions -/

namespace Sessions

/-- `sessions.add(session)`, in a transaction that began at `databaseNow`. -/
def add (session : Session) (databaseNow : Instant) : Tx R Unit :=
  sessionsTable.insert (sessionToRecord session databaseNow) (.error .IntegrityError)

/-- `sessions.get_by_id(session_id)`. -/
def getById (sessionId : Uuid) : Tx R (Option Session) :=
  sessionsTable.selectOne fun session ↦ session.id == sessionId

/-- `sessions.get_by_token_hash(token_hash)`. -/
def getByTokenHash (tokenHash : TokenHash) : Tx R (Option Session) :=
  sessionsTable.selectOne fun session ↦ session.refreshTokenHash == tokenHash

/-- `sessions.update(session)`. -/
def update (loaded session : Session) : Tx R Unit :=
  if session = loaded then pure ()
  else sessionsTable.update session.id (applySession loaded session) (.error .StaleDataError)

/-- The columns a bulk revocation sets. -/
def revocation (now : Instant) (reason : PyStr) : Edit Session where
  run session := { session with revokedAt := some now, revokedReason := some reason }
  key_run _ := rfl

/-- `sessions.revoke_family(family_id, …)`. -/
def revokeFamily (familyId : Uuid) (now : Instant) (reason : PyStr) : Tx R Nat :=
  sessionsTable.updateWhere
    (fun session ↦ session.familyId == familyId && session.revokedAt.isNone)
    (revocation now reason)

/-- The sessions `revoke_all_for_user` is about. -/
def revocable (userId : Uuid) (exceptSessionId : Option Uuid) (session : Session) : Bool :=
  session.userId == userId && session.revokedAt.isNone &&
    exceptSessionId.all fun kept ↦ session.id != kept

/-- `sessions.revoke_all_for_user(user_id, …)`. -/
def revokeAllForUser (userId : Uuid) (now : Instant) (reason : PyStr)
    (exceptSessionId : Option Uuid) : Tx R Nat :=
  sessionsTable.updateWhere (revocable userId exceptSessionId) (revocation now reason)

/-- `sessions.list_active_for_user(user_id, now=now)`. -/
def listActiveForUser (userId : Uuid) (now : Instant) : Tx R (List Session) :=
  sessionsTable.select fun session ↦ session.userId == userId && session.revokedAt.isNone &&
    session.rotatedAt.isNone && decide (now < session.expiresAt)

end Sessions

/-! ## API keys and second factors -/

namespace ApiKeys

/-- `api_keys.add(api_key)`. -/
def add (key : ApiKey) : Tx R Unit :=
  apiKeysTable.insert (apiKeyToRecord key) (.error .IntegrityError)

/-- `api_key_lookup.get_by_prefix(prefix)`. -/
def getByPrefix (keyPrefix : PyStr) : Tx R (Option ApiKey) := do
  match ← apiKeysTable.selectOne fun row ↦ row.keyPrefix == keyPrefix with
  | none => pure none
  | some record => do
      let key ← check (apiKeyToDomain record)
      pure (some key)

/-- `api_key_lookup.touch(api_key_id, now)`. -/
def touch (apiKeyId : Uuid) (now : Instant) : Tx R Unit := do
  let _ ← apiKeysTable.updateWhere (fun row ↦ row.id == apiKeyId)
    ⟨fun row ↦ { row with lastUsedAt := some now }, fun _ ↦ rfl⟩

end ApiKeys

namespace MfaCredentials

/-- `mfa_credentials.add(credential)`. -/
def add (credential : MfaCredential) : Tx R Unit :=
  mfaCredentialsTable.insert credential (.error .IntegrityError)

/-- `mfa_credentials.get_totp(user_id, confirmed=…)`. -/
def getTotp (userId : Uuid) (confirmed : Bool) : Tx R (Option MfaCredential) :=
  mfaCredentialsTable.selectOne fun row ↦
    row.userId == userId && row.kind == .TOTP && row.confirmed == confirmed

/-- `mfa_credentials.list_recovery_codes(user_id)`. -/
def listRecoveryCodes (userId : Uuid) : Tx R (List MfaCredential) :=
  mfaCredentialsTable.select fun row ↦
    row.userId == userId && row.kind == .RECOVERY_CODE && row.consumedAt.isNone

/-- `mfa_credentials.update(credential)`. -/
def update (loaded credential : MfaCredential) : Tx R Unit :=
  if credential = loaded then pure ()
  else
    mfaCredentialsTable.update credential.id (applyMfa loaded credential) (.error .StaleDataError)

/-- `mfa_credentials.delete_for_user(user_id)`. -/
def deleteForUser (userId : Uuid) : Tx R Unit := do
  let _ ← mfaCredentialsTable.deleteWhere fun row ↦ row.userId == userId

end MfaCredentials

/-! ## The inventory -/

namespace Applications

/-- `applications.get_by_slug(slug)`. -/
def getBySlug (organizationId : Uuid) (slug : PyStr) : Tx R (Option Application) :=
  applicationsTable.selectOne fun row ↦ row.organizationId == organizationId && row.slug == slug

/-- `applications.count()`. -/
def count (organizationId : Uuid) : Tx R Nat :=
  applicationsTable.count fun row ↦ row.organizationId == organizationId

/-- `applications.add(application)`. -/
def add (application : Application) : Tx R Unit :=
  applicationsTable.insert application (.error .IntegrityError)

end Applications

namespace Environments

/-- `environments.get(environment_id)`. -/
def get (organizationId environmentId : Uuid) : Tx R (Option ApplicationEnvironment) :=
  environmentsTable.selectOne fun row ↦
    row.organizationId == organizationId && row.id == environmentId

/-- `environments.find(application_id, kind)`. -/
def find (organizationId applicationId : Uuid) (kind : Api.EnvironmentKind) :
    Tx R (Option ApplicationEnvironment) :=
  environmentsTable.selectOne fun row ↦ row.organizationId == organizationId &&
    row.applicationId == applicationId && row.kind == kind

/-- `environments.add(environment)`, in a transaction that began at `databaseNow`. -/
def add (environment : ApplicationEnvironment) (databaseNow : Instant) : Tx R Unit :=
  environmentsTable.insert (environmentToRecord environment databaseNow) (.error .IntegrityError)

/-- `environments.update(environment)`, in a transaction that began at `databaseNow`. -/
def update (organizationId : Uuid) (loaded environment : ApplicationEnvironment)
    (databaseNow : Instant) : Tx R Unit := do
  let some _ ← environmentsTable.selectOne fun row ↦
      row.organizationId == organizationId && row.id == environment.id
    | raise .LookupError
  if environment = loaded then pure ()
  else
    environmentsTable.update environment.id (applyEnvironment loaded environment databaseNow)
      (.error .StaleDataError)

end Environments

namespace Agents

/-- `agents.get(agent_id)`. -/
def get (organizationId agentId : Uuid) : Tx R (Option Agent) :=
  agentsTable.selectOne fun row ↦ row.organizationId == organizationId && row.id == agentId

/-- `agents.get_by_fingerprint(fingerprint)`. -/
def getByFingerprint (organizationId : Uuid) (fingerprint : PyStr) : Tx R (Option Agent) :=
  agentsTable.selectOne fun row ↦
    row.organizationId == organizationId && row.fingerprint == fingerprint

/-- `agents.count()`. -/
def count (organizationId : Uuid) : Tx R Nat :=
  agentsTable.count fun row ↦ row.organizationId == organizationId

/-- `agents.add(agent)`, in a transaction that began at `databaseNow`. -/
def add (agent : Agent) (databaseNow : Instant) : Tx R Unit :=
  agentsTable.insert (agentToRecord agent databaseNow) (.error .IntegrityError)

/-- `agents.update(agent)`. -/
def update (organizationId : Uuid) (loaded agent : Agent) : Tx R Unit := do
  let some _ ← agentsTable.selectOne fun row ↦
      row.organizationId == organizationId && row.id == agent.id
    | raise .LookupError
  if agent = loaded then pure ()
  else agentsTable.update agent.id (applyAgent loaded agent) (.error .StaleDataError)

end Agents

/-! ## The audit chain -/

namespace Audit

/-- The next number of a tenant's audit chain. -/
def nextSequence (organizationId : Uuid) (db : Database) : Nat :=
  (db.auditEvents.rows.filter fun event ↦ event.organizationId == organizationId).foldl
    (fun tail event ↦ max tail event.sequence) 0 + 1

/-- `audit.append(event)`: take the tenant's lock, and insert the event after the last one. -/
def append (event : AuditEventRecord) : Tx R Unit := do
  Txn.write fun _ ↦ [.auditLock event.organizationId]
  let sequence ← Txn.read (nextSequence event.organizationId)
  auditEventsTable.insert { event with sequence := sequence } (.error .IntegrityError)

/-- `AuditRecorder(uow.audit).record(principal=principal, …)`. -/
def record (principal : Principal) (action resourceType : PyStr) (resourceId : Option Uuid) :
    Tx R Unit :=
  append ⟨principal.organizationId, 0, action, principal.kind, principal.userId, principal.label,
    resourceType, resourceId, .SUCCESS⟩

/-- `AuditRecorder(uow.audit).record(principal=None, …)`, for a user of an organization. -/
def recordUser (organizationId : Uuid) (user : Uuid × PyStr) (action resourceType : PyStr)
    (resourceId : Option Uuid) (outcome : AuditOutcome) : Tx R Unit :=
  append ⟨organizationId, 0, action, .USER, some user.1, user.2, resourceType, resourceId, outcome⟩

end Audit

end Aegis.Access
