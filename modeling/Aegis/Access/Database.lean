import Aegis.Access.Identity
import Aegis.Inventory.Entities
import Aegis.Lib.Statements

/-!
# The database

`infrastructure/db/models.py` and `infrastructure/db/mappers.py`, as far as access, authentication
and the inventory use them: the tables, what a transaction writes of them and whom it waits for,
and the translation between rows and entities. A user, a session, a second factor, an application,
an environment and an agent are stored with the fields they have as entities.
-/

namespace Aegis.Access

open Aegis.Server Aegis.Inventory

/-! ## Rows -/

/-- A row of `roles`. -/
structure RoleRecord where
  id : Uuid
  organizationId : Uuid
  name : PyStr
  description : PyStr
  isSystem : Bool
  permissions : List PyStr
  deriving DecidableEq, Repr

/-- A row of `memberships`. -/
structure MembershipRecord where
  id : Uuid
  organizationId : Uuid
  userId : Uuid
  status : MembershipStatus
  invitedBy : Option Uuid
  joinedAt : Option Instant
  deriving DecidableEq, Repr

/-- A row of `membership_roles`. -/
structure MembershipRole where
  membershipId : Uuid
  roleId : Uuid
  deriving DecidableEq, Repr

/-- A row of `api_keys`. -/
structure ApiKeyRecord where
  id : Uuid
  organizationId : Uuid
  name : PyStr
  keyPrefix : PyStr
  secretHash : PyStr
  permissions : List PyStr
  createdBy : Option Uuid
  expiresAt : Option Instant
  revokedAt : Option Instant
  lastUsedAt : Option Instant
  createdAt : Option Instant
  deriving DecidableEq, Repr

inductive AuditOutcome where
  | SUCCESS
  | FAILURE
  | DENIED
  deriving DecidableEq, Repr

/-- A row of `audit_events`. -/
structure AuditEventRecord where
  organizationId : Uuid
  sequence : Nat
  action : PyStr
  actorType : ActorType
  actorUserId : Option Uuid
  actorLabel : PyStr
  resourceType : PyStr
  resourceId : Option Uuid
  outcome : AuditOutcome
  deriving DecidableEq, Repr

instance : Keyed Uuid Organization := ⟨Organization.id⟩
instance : Keyed Uuid License := ⟨License.id⟩
instance : Keyed Uuid User := ⟨User.id⟩
instance : Keyed Uuid MembershipRecord := ⟨MembershipRecord.id⟩
instance : Keyed (Uuid × Uuid) MembershipRole := ⟨fun link ↦ (link.membershipId, link.roleId)⟩
instance : Keyed Uuid RoleRecord := ⟨RoleRecord.id⟩
instance : Keyed Uuid Session := ⟨Session.id⟩
instance : Keyed Uuid ApiKeyRecord := ⟨ApiKeyRecord.id⟩
instance : Keyed Uuid MfaCredential := ⟨MfaCredential.id⟩
instance : Keyed Uuid Application := ⟨Application.id⟩
instance : Keyed Uuid ApplicationEnvironment := ⟨ApplicationEnvironment.id⟩
instance : Keyed Uuid Agent := ⟨Agent.id⟩
instance : Keyed (Uuid × Nat) AuditEventRecord :=
  ⟨fun event ↦ (event.organizationId, event.sequence)⟩

/-! ## Writes -/

/-- The tables. -/
structure Database where
  organizations : Table Organization
  licenses : Table License
  users : Table User
  memberships : Table MembershipRecord
  membershipRoles : Table MembershipRole
  roles : Table RoleRecord
  sessions : Table Session
  apiKeys : Table ApiKeyRecord
  mfaCredentials : Table MfaCredential
  applications : Table Application
  environments : Table ApplicationEnvironment
  agents : Table Agent
  auditEvents : Table AuditEventRecord

/-- The database without rows. -/
def Database.empty : Database :=
  ⟨.empty, .empty, .empty, .empty, .empty, .empty, .empty, .empty, .empty, .empty, .empty, .empty,
    .empty⟩

/-- A write of one row, or the lock of a tenant's audit chain. -/
inductive Write where
  | users (u : RowWrite User)
  | memberships (u : RowWrite MembershipRecord)
  | membershipRoles (u : RowWrite MembershipRole)
  | roles (u : RowWrite RoleRecord)
  | sessions (u : RowWrite Session)
  | apiKeys (u : RowWrite ApiKeyRecord)
  | mfaCredentials (u : RowWrite MfaCredential)
  | applications (u : RowWrite Application)
  | environments (u : RowWrite ApplicationEnvironment)
  | agents (u : RowWrite Agent)
  | auditEvents (u : RowWrite AuditEventRecord)
  /-- `pg_advisory_xact_lock(ns, hashtext(org))`. -/
  | auditLock (organizationId : Uuid)

namespace Write

/-- The database after a write. The links of a membership go with it. -/
def apply (db : Database) : Write → Database
  | users u => { db with users := u.apply db.users }
  | memberships (.delete id) =>
      { db with
        memberships := db.memberships.delete id
        membershipRoles := db.membershipRoles.deleteIf fun link ↦ link.membershipId == id }
  | memberships u => { db with memberships := u.apply db.memberships }
  | membershipRoles u => { db with membershipRoles := u.apply db.membershipRoles }
  | roles u => { db with roles := u.apply db.roles }
  | sessions u => { db with sessions := u.apply db.sessions }
  | apiKeys u => { db with apiKeys := u.apply db.apiKeys }
  | mfaCredentials u => { db with mfaCredentials := u.apply db.mfaCredentials }
  | applications u => { db with applications := u.apply db.applications }
  | environments u => { db with environments := u.apply db.environments }
  | agents u => { db with agents := u.apply db.agents }
  | auditEvents u => { db with auditEvents := u.apply db.auditEvents }
  | auditLock _ => db

/-- Two writes of one table are of one row, or of two rows with one value of a unique column. -/
def sameRow {V K : Type} [Keyed K V] [DecidableEq K] (collide : V → V → Bool)
    (a b : RowWrite V) : Bool :=
  a.rowKey == b.rowKey ||
    match a, b with
    | .insert x, .insert y => collide x y
    | _, _ => false

/-- Two users have one address. -/
def sameEmail (a b : User) : Bool :=
  a.email == b.email

/-- `uq_memberships_organization_id_user_id`. -/
def sameMember (a b : MembershipRecord) : Bool :=
  a.organizationId == b.organizationId && a.userId == b.userId

/-- `uq_roles_organization_id_name`. -/
def sameName (a b : RoleRecord) : Bool :=
  a.organizationId == b.organizationId && a.name == b.name

/-- Two sessions have one refresh token. -/
def sameToken (a b : Session) : Bool :=
  a.refreshTokenHash == b.refreshTokenHash

/-- Two API keys have one prefix. -/
def samePrefix (a b : ApiKeyRecord) : Bool :=
  a.keyPrefix == b.keyPrefix

/-- `uq_applications_organization_id_slug`. -/
def sameSlug (a b : Application) : Bool :=
  a.organizationId == b.organizationId && a.slug == b.slug

/-- `uq_application_environments_application_id_kind`. -/
def sameKind (a b : ApplicationEnvironment) : Bool :=
  a.applicationId == b.applicationId && a.kind == b.kind

/-- `uq_agents_fingerprint`: the tenant is not in it. -/
def sameFingerprint (a b : Agent) : Bool :=
  a.fingerprint == b.fingerprint

/-- Whether a write of one transaction waits for a write of another. A link holds its membership
and its role. -/
def clashes : Write → Write → Bool
  | users a, users b => sameRow sameEmail a b
  | memberships a, memberships b => sameRow sameMember a b
  | membershipRoles a, membershipRoles b => sameRow (fun _ _ ↦ false) a b
  | memberships (.delete id), membershipRoles b => b.rowKey.1 == id
  | membershipRoles a, memberships (.delete id) => a.rowKey.1 == id
  | roles (.delete id), membershipRoles b => b.rowKey.2 == id
  | membershipRoles a, roles (.delete id) => a.rowKey.2 == id
  | roles a, roles b => sameRow sameName a b
  | sessions a, sessions b => sameRow sameToken a b
  | apiKeys a, apiKeys b => sameRow samePrefix a b
  | mfaCredentials a, mfaCredentials b => sameRow (fun _ _ ↦ false) a b
  | applications a, applications b => sameRow sameSlug a b
  | environments a, environments b => sameRow sameKind a b
  | agents a, agents b => sameRow sameFingerprint a b
  | auditEvents a, auditEvents b => sameRow (fun _ _ ↦ false) a b
  | auditLock a, auditLock b => a == b
  | _, _ => false

end Write

instance : Store Database Write := ⟨Write.apply, Write.clashes⟩

namespace Database

open Write

def usersTable : TableAt Database Write User :=
  ⟨users, .users, fun _ _ ↦ rfl, sameEmail⟩

def membershipsTable : TableAt Database Write MembershipRecord :=
  ⟨memberships, .memberships, fun _ u ↦ by cases u <;> rfl, sameMember⟩

def membershipRolesTable : TableAt Database Write MembershipRole :=
  ⟨membershipRoles, .membershipRoles, fun _ _ ↦ rfl, fun _ _ ↦ false⟩

def rolesTable : TableAt Database Write RoleRecord :=
  ⟨roles, .roles, fun _ _ ↦ rfl, sameName⟩

def sessionsTable : TableAt Database Write Session :=
  ⟨sessions, .sessions, fun _ _ ↦ rfl, sameToken⟩

def apiKeysTable : TableAt Database Write ApiKeyRecord :=
  ⟨apiKeys, .apiKeys, fun _ _ ↦ rfl, samePrefix⟩

def mfaCredentialsTable : TableAt Database Write MfaCredential :=
  ⟨mfaCredentials, .mfaCredentials, fun _ _ ↦ rfl, fun _ _ ↦ false⟩

def applicationsTable : TableAt Database Write Application :=
  ⟨applications, .applications, fun _ _ ↦ rfl, sameSlug⟩

def environmentsTable : TableAt Database Write ApplicationEnvironment :=
  ⟨environments, .environments, fun _ _ ↦ rfl, sameKind⟩

def agentsTable : TableAt Database Write Agent :=
  ⟨agents, .agents, fun _ _ ↦ rfl, sameFingerprint⟩

def auditEventsTable : TableAt Database Write AuditEventRecord :=
  ⟨auditEvents, .auditEvents, fun _ _ ↦ rfl, fun _ _ ↦ false⟩

end Database

/-! ## Rows and entities -/

/-- `role_to_domain(record)`. -/
def roleToDomain (record : RoleRecord) : Except DomainError Role :=
  Role.make record.id record.organizationId record.name record.description record.isSystem
    (Permission.ofStored record.permissions)

/-- `role_to_record(entity)`. -/
def roleToRecord (role : Role) : RoleRecord :=
  ⟨role.id, role.organizationId, role.name, role.description, role.isSystem,
    Permission.sortedValues role.permissions⟩

/-- The value of a column after an entity is written back: only what was changed since it was
loaded is written. -/
def changed {α : Type} [DecidableEq α] (loaded entity current : α) : α :=
  if entity = loaded then current else entity

/-- `apply_role(record, entity)`, of a record that was loaded. -/
def applyRole (loaded : RoleRecord) (role : Role) : Edit RoleRecord where
  run row := { row with
    name := changed loaded.name role.name row.name
    description := changed loaded.description role.description row.description
    permissions := changed loaded.permissions (Permission.sortedValues role.permissions)
      row.permissions }
  key_run _ := rfl

/-- `membership_to_domain(record)`, with the roles that were loaded for it. -/
def membershipToDomain (record : MembershipRecord) (roles : List RoleRecord) :
    Except DomainError Membership := do
  let roles ← roles.mapM roleToDomain
  Membership.make record.id record.organizationId record.userId roles record.status
    record.invitedBy record.joinedAt

/-- `membership_to_record(entity)`. -/
def membershipToRecord (membership : Membership) : MembershipRecord :=
  ⟨membership.id, membership.organizationId, membership.userId, membership.status,
    membership.invitedBy, membership.joinedAt⟩

/-- What an update writes of a membership other than its roles. -/
def applyMembership (loaded : MembershipRecord) (membership : Membership) :
    Edit MembershipRecord where
  run row := { row with
    status := changed loaded.status membership.status row.status
    joinedAt := changed loaded.joinedAt membership.joinedAt row.joinedAt }
  key_run _ := rfl

/-- `api_key_to_domain(record)`. -/
def apiKeyToDomain (record : ApiKeyRecord) : Except DomainError ApiKey :=
  ApiKey.make ⟨record.id, record.organizationId, record.name, record.keyPrefix, record.secretHash,
    Permission.ofStored record.permissions, record.createdBy, record.expiresAt, record.revokedAt,
    record.lastUsedAt, record.createdAt⟩

/-- `api_key_to_record(entity)`. -/
def apiKeyToRecord (key : ApiKey) : ApiKeyRecord :=
  ⟨key.id, key.organizationId, key.name, key.keyPrefix, key.secretHash,
    Permission.sortedValues key.permissions, key.createdBy, key.expiresAt, key.revokedAt,
    key.lastUsedAt, key.createdAt⟩

/-- `apply_user(record, entity)`, of a record that was loaded. -/
def applyUser (loaded user : User) : Edit User where
  run row := { row with
    email := changed loaded.email user.email row.email
    passwordHash := changed loaded.passwordHash user.passwordHash row.passwordHash
    fullName := changed loaded.fullName user.fullName row.fullName
    status := changed loaded.status user.status row.status
    isPlatformAdmin := changed loaded.isPlatformAdmin user.isPlatformAdmin row.isPlatformAdmin
    mfaEnabled := changed loaded.mfaEnabled user.mfaEnabled row.mfaEnabled
    failedLoginCount := changed loaded.failedLoginCount user.failedLoginCount row.failedLoginCount
    lockedUntil := changed loaded.lockedUntil user.lockedUntil row.lockedUntil
    lastLoginAt := changed loaded.lastLoginAt user.lastLoginAt row.lastLoginAt }
  key_run _ := rfl

/-- `session_to_record(entity)`, inserted at `databaseNow`. -/
def sessionToRecord (session : Session) (databaseNow : Instant) : Session :=
  { session with createdAt := databaseNow }

/-- `apply_session(record, entity)`, of a record that was loaded. -/
def applySession (loaded session : Session) : Edit Session where
  run row := { row with
    rotatedAt := changed loaded.rotatedAt session.rotatedAt row.rotatedAt
    revokedAt := changed loaded.revokedAt session.revokedAt row.revokedAt
    revokedReason := changed loaded.revokedReason session.revokedReason row.revokedReason
    replacedById := changed loaded.replacedById session.replacedById row.replacedById }
  key_run _ := rfl

/-- `apply_mfa(record, entity)`, of a record that was loaded. -/
def applyMfa (loaded credential : MfaCredential) : Edit MfaCredential where
  run row := { row with
    confirmed := changed loaded.confirmed credential.confirmed row.confirmed
    consumedAt := changed loaded.consumedAt credential.consumedAt row.consumedAt
    lastUsedAt := changed loaded.lastUsedAt credential.lastUsedAt row.lastUsedAt }
  key_run _ := rfl

/-- `environment_to_record(entity)`, inserted at `databaseNow`. -/
def environmentToRecord (environment : ApplicationEnvironment) (databaseNow : Instant) :
    ApplicationEnvironment :=
  { environment with createdAt := some databaseNow, updatedAt := some databaseNow }

/-- `apply_environment(record, entity)`, of a record that was loaded. The database sets the time of
the update. -/
def applyEnvironment (loaded environment : ApplicationEnvironment) (databaseNow : Instant) :
    Edit ApplicationEnvironment where
  run row := { row with
    internetFacing := changed loaded.internetFacing environment.internetFacing row.internetFacing
    protectionMode := changed loaded.protectionMode environment.protectionMode row.protectionMode
    soakCompletedAt :=
      changed loaded.soakCompletedAt environment.soakCompletedAt row.soakCompletedAt
    updatedAt := some databaseNow }
  key_run _ := rfl

/-- `agent_to_record(entity)`, inserted at `databaseNow`. -/
def agentToRecord (agent : Agent) (databaseNow : Instant) : Agent :=
  { agent with createdAt := some databaseNow }

/-- `apply_agent(record, entity)`, of a record that was loaded. -/
def applyAgent (loaded agent : Agent) : Edit Agent where
  run row := { row with
    applicationEnvironmentId := changed loaded.applicationEnvironmentId
      agent.applicationEnvironmentId row.applicationEnvironmentId
    hostname := changed loaded.hostname agent.hostname row.hostname
    agentVersion := changed loaded.agentVersion agent.agentVersion row.agentVersion
    runtimeVersion := changed loaded.runtimeVersion agent.runtimeVersion row.runtimeVersion
    status := changed loaded.status agent.status row.status
    configVersion := changed loaded.configVersion agent.configVersion row.configVersion
    cpuOverheadPct := changed loaded.cpuOverheadPct agent.cpuOverheadPct row.cpuOverheadPct
    memoryMb := changed loaded.memoryMb agent.memoryMb row.memoryMb
    eventsSent := changed loaded.eventsSent agent.eventsSent row.eventsSent
    eventsDropped := changed loaded.eventsDropped agent.eventsDropped row.eventsDropped
    pinnedVersion := changed loaded.pinnedVersion agent.pinnedVersion row.pinnedVersion
    lastSeenAt := changed loaded.lastSeenAt agent.lastSeenAt row.lastSeenAt }
  key_run _ := rfl

/-- A column that nobody else has written is written as it is in the entity. -/
@[simp] theorem changed_self {α : Type} [DecidableEq α] (loaded entity : α) :
    changed loaded entity loaded = entity := by
  unfold changed
  split <;> simp_all

/-- A role is what its row says. -/
theorem role_to_domain_eq_ok {record : RoleRecord} {role : Role}
    (h : roleToDomain record = .ok role) :
    role.id = record.id ∧ role.organizationId = record.organizationId ∧
      role.name = record.name.strip ∧ role.isSystem = record.isSystem ∧
      role.permissions = Permission.ofStored record.permissions := by
  unfold roleToDomain Role.make at h
  split at h
  · cases h
  · split at h
    · cases h
    · cases h
      exact ⟨rfl, rfl, rfl, rfl, rfl⟩

/-- A membership has the fields of its row and the roles that were loaded for it. -/
theorem membership_to_domain_eq_ok {record : MembershipRecord} {records : List RoleRecord}
    {membership : Membership} (h : membershipToDomain record records = .ok membership) :
    ∃ roles, records.mapM roleToDomain = .ok roles ∧
      membership = ⟨record.id, record.organizationId, record.userId, roles, record.status,
        record.invitedBy, record.joinedAt⟩ := by
  obtain ⟨roles, hroles, hmake⟩ := Checked.bind_eq_ok.mp h
  exact ⟨roles, hroles, Membership.make_eq_ok hmake⟩

end Aegis.Access
