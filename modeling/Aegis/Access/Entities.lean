import Aegis.Access.Permissions
import Aegis.Lib.Checked

/-!
# Access entities

`domain/entities/access.py`, `domain/entities/organization.py` and `application/context.py`:
organizations and their licence, roles, memberships, API keys, and the principal that every use
case is called with.
-/

namespace Aegis.Access

open Aegis.Server Permission

/-! ## Organizations -/

inductive OrganizationStatus where
  | ACTIVE
  | SUSPENDED
  | PENDING_DELETION
  deriving DecidableEq, Repr

/-- A tenant. -/
structure Organization where
  id : Uuid
  name : PyStr
  slug : PyStr
  status : OrganizationStatus
  settings : JsonObject

/-- `organization.is_active`. -/
def Organization.isActive (organization : Organization) : Bool :=
  organization.status == .ACTIVE

/-- What an organization may use. A negative number is no limit. -/
structure License where
  id : Uuid
  organizationId : Uuid
  maxApplications : Int
  maxAgents : Int
  maxUsers : Int
  protectionEnabled : Bool
  deriving DecidableEq, Repr

namespace License

/-- Whether there is room for one more, under a limit with a name. -/
def checkLimit (limitName : PyStr) (limit : Int) (currentCount : Nat) : Except DomainError Unit :=
  if 0 ≤ limit ∧ limit ≤ currentCount then .error (.LicenseLimitExceededError limitName limit)
  else .ok ()

/-- `license_.check_applications(current_count)`. -/
def checkApplications (license : License) : Nat → Except DomainError Unit :=
  checkLimit (py "applications") license.maxApplications

/-- `license_.check_agents(current_count)`. -/
def checkAgents (license : License) : Nat → Except DomainError Unit :=
  checkLimit (py "agents") license.maxAgents

/-- `license_.check_users(current_count)`. -/
def checkUsers (license : License) : Nat → Except DomainError Unit :=
  checkLimit (py "users") license.maxUsers

end License

/-! ## Roles -/

/-- A named bundle of permissions of one organization. -/
structure Role where
  id : Uuid
  organizationId : Uuid
  name : PyStr
  description : PyStr
  isSystem : Bool
  permissions : Finset Permission
  deriving DecidableEq

namespace Role

/-- `Role(...)`: the name is stripped, and a role without a name is refused. -/
def make (id organizationId : Uuid) (name description : PyStr) (isSystem : Bool)
    (permissions : Finset Permission) : Except DomainError Role :=
  if name.strip.isEmpty then .error (.InvalidStateError (py "A role must have a name."))
  else if 80 < name.strip.length then
    .error (.InvalidStateError (py "A role name may be at most 80 characters."))
  else .ok ⟨id, organizationId, name.strip, description, isSystem, permissions⟩

/-- `role.assert_mutable()`. -/
def assertMutable (lib : Library) (role : Role) : Except DomainError Unit :=
  if role.isSystem then
    .error (.InvalidStateError (lib.repr (.str role.name) ++
      py " is a system role and cannot be modified or deleted."))
  else .ok ()

/-- The part of `role.update` that is about the name. -/
def updateName (role : Role) : Option PyStr → Except DomainError Role
  | none => .ok role
  | some name =>
      if name.strip.isEmpty then .error (.InvalidStateError (py "A role must have a name."))
      else .ok { role with name := name.strip.take 80 }

/-- The part of `role.update` that is about the description. -/
def updateDescription (role : Role) : Option PyStr → Role
  | none => role
  | some description => { role with description := description.strip.take 500 }

/-- The part of `role.update` that is about the permissions. -/
def updatePermissions (role : Role) : Option (Finset Permission) → Except DomainError Role
  | none => .ok role
  | some permissions =>
      if (permissions ∩ OWNER_ONLY_PERMISSIONS).Nonempty then
        .error (.InvalidStateError (py "These permissions belong exclusively to the Owner role: " ++
          PyStr.join (py ", ") (sortedValues (permissions ∩ OWNER_ONLY_PERMISSIONS))))
      else .ok { role with permissions := permissions }

/-- `role.update(name=…, description=…, permissions=…)`. -/
def update (lib : Library) (role : Role) (name description : Option PyStr)
    (permissions : Option (Finset Permission)) : Except DomainError Role := do
  role.assertMutable lib
  let role ← role.updateName name
  (role.updateDescription description).updatePermissions permissions

/-- Only a custom role is mutable. -/
theorem assert_mutable_eq_ok {lib : Library} {role : Role}
    (h : role.assertMutable lib = .ok ()) : role.isSystem = false := by
  unfold assertMutable at h
  split at h
  · cases h
  · simpa using ‹¬role.isSystem = true›

/-- Of the name, only the name is changed. -/
theorem update_name_eq_ok {role role' : Role} {name : Option PyStr}
    (h : role.updateName name = .ok role') : ∃ name', role' = { role with name := name' } := by
  cases name with
  | none => exact ⟨role.name, (Except.ok.inj h).symm⟩
  | some name =>
      rw [updateName] at h
      split at h
      · cases h
      · exact ⟨_, (Except.ok.inj h).symm⟩

/-- Permissions are replaced by permissions without those of the owner. -/
theorem update_permissions_eq_ok {role role' : Role} {permissions : Option (Finset Permission)}
    (h : role.updatePermissions permissions = .ok role') :
    role' = { role with permissions := role'.permissions } ∧
      (permissions = none ∧ role'.permissions = role.permissions ∨
        permissions = some role'.permissions ∧
          Disjoint role'.permissions OWNER_ONLY_PERMISSIONS) := by
  cases permissions with
  | none =>
      cases h
      exact ⟨rfl, .inl ⟨rfl, rfl⟩⟩
  | some permissions =>
      rw [updatePermissions] at h
      split at h
      · cases h
      · rename_i hforbidden
        cases h
        rw [Finset.not_nonempty_iff_eq_empty] at hforbidden
        exact ⟨rfl, .inr ⟨rfl, Finset.disjoint_iff_inter_eq_empty.mpr hforbidden⟩⟩

/-- What an update leaves: a custom role that is still one, whose permissions are those it had or
the new ones, without those of the owner. -/
theorem update_eq_ok {lib : Library} {role role' : Role} {name description : Option PyStr}
    {permissions : Option (Finset Permission)}
    (h : role.update lib name description permissions = .ok role') :
    role.isSystem = false ∧ role'.isSystem = false ∧ role'.id = role.id ∧
      role'.organizationId = role.organizationId ∧
      (permissions = none ∧ role'.permissions = role.permissions ∨
        permissions = some role'.permissions ∧
          Disjoint role'.permissions OWNER_ONLY_PERMISSIONS) := by
  obtain ⟨_, hmutable, h⟩ := Checked.bind_eq_ok.mp h
  obtain ⟨named, hnamed, h⟩ := Checked.bind_eq_ok.mp h
  have hcustom := assert_mutable_eq_ok hmutable
  obtain ⟨name', rfl⟩ := update_name_eq_ok hnamed
  obtain ⟨hrole', hpermissions⟩ := update_permissions_eq_ok h
  rw [hrole']
  cases description <;> exact ⟨hcustom, hcustom, rfl, rfl, hpermissions⟩

/-- `Role.system(organization_id, role, …)`. -/
def system (id organizationId : Uuid) (role : SystemRole) : Role :=
  ⟨id, organizationId, role.value, role.description, true, role.permissions⟩

/-- Whether the role is the system role of the owner. -/
def isOwnerRole (role : Role) : Bool :=
  role.isSystem && role.name == SystemRole.OWNER.value

end Role

/-- The union of the permissions of some roles. -/
def grantedBy (roles : List Role) : Finset Permission :=
  roles.foldr (fun role granted ↦ role.permissions ∪ granted) ∅

theorem mem_granted_by {roles : List Role} {p : Permission} :
    p ∈ grantedBy roles ↔ ∃ role ∈ roles, p ∈ role.permissions := by
  induction roles with
  | nil => simp [grantedBy]
  | cons role roles ih =>
      rw [grantedBy, List.foldr_cons, Finset.mem_union, List.exists_mem_cons_iff]
      exact or_congr_right ih

/-! ## Memberships -/

inductive MembershipStatus where
  | ACTIVE
  | INVITED
  | SUSPENDED
  deriving DecidableEq, Repr

/-- A user's participation in one organization. -/
structure Membership where
  id : Uuid
  organizationId : Uuid
  userId : Uuid
  roles : List Role
  status : MembershipStatus
  invitedBy : Option Uuid
  joinedAt : Option Instant
  deriving DecidableEq

namespace Membership

/-- The error of a membership with a role of another organization. -/
def foreignRole : DomainError :=
  .InvalidStateError (py "A membership cannot carry a role belonging to another organization.")

/-- `Membership(...)`. -/
def make (id organizationId userId : Uuid) (roles : List Role) (status : MembershipStatus)
    (invitedBy : Option Uuid) (joinedAt : Option Instant) : Except DomainError Membership :=
  if roles.any fun role ↦ role.organizationId != organizationId then .error foreignRole
  else .ok ⟨id, organizationId, userId, roles, status, invitedBy, joinedAt⟩

/-- `membership.is_active`. -/
def isActive (membership : Membership) : Bool :=
  membership.status == .ACTIVE

/-- `membership.permissions`: those of its roles, while the membership is active. -/
def permissions (membership : Membership) : Finset Permission :=
  if membership.isActive then grantedBy membership.roles else ∅

/-- `membership.is_owner`. -/
def isOwner (membership : Membership) : Bool :=
  membership.roles.any Role.isOwnerRole

/-- `membership.assign_roles(roles)`. -/
def assignRoles (membership : Membership) (roles : List Role) : Except DomainError Membership :=
  if roles.any fun role ↦ role.organizationId != membership.organizationId then .error foreignRole
  else if roles.isEmpty then
    .error (.InvalidStateError (py "A membership must retain at least one role."))
  else .ok { membership with roles := roles }

/-- What is built has the fields it was built from. -/
theorem make_eq_ok {id organizationId userId : Uuid} {roles : List Role}
    {status : MembershipStatus} {invitedBy : Option Uuid} {joinedAt : Option Instant}
    {membership : Membership}
    (h : make id organizationId userId roles status invitedBy joinedAt = .ok membership) :
    membership = ⟨id, organizationId, userId, roles, status, invitedBy, joinedAt⟩ := by
  unfold make at h
  split at h
  · cases h
  · exact (Except.ok.inj h).symm

/-- Only the roles are assigned. -/
theorem assign_roles_eq_ok {membership membership' : Membership} {roles : List Role}
    (h : membership.assignRoles roles = .ok membership') :
    membership' = { membership with roles := roles } := by
  unfold assignRoles at h
  split at h
  · cases h
  · split at h
    · cases h
    · exact (Except.ok.inj h).symm

end Membership

/-! ## API keys -/

/-- A credential for CI systems and the registration of agents. -/
structure ApiKey where
  id : Uuid
  organizationId : Uuid
  name : PyStr
  keyPrefix : PyStr
  secretHash : PyStr
  permissions : Finset Permission
  createdBy : Option Uuid
  expiresAt : Option Instant
  revokedAt : Option Instant
  lastUsedAt : Option Instant
  createdAt : Option Instant
  deriving DecidableEq

namespace ApiKey

/-- `ApiKey(...)`: the name is stripped and cut, and a key without a name is refused. -/
def make (key : ApiKey) : Except DomainError ApiKey :=
  if key.name.strip.isEmpty then .error (.InvalidStateError (py "An API key must have a name."))
  else .ok { key with name := key.name.strip.take 120 }

/-- `api_key.is_active(now)`. -/
def isActive (key : ApiKey) (now : Instant) : Bool :=
  key.revokedAt.isNone && key.expiresAt.all fun expiry ↦ now < expiry

end ApiKey

/-! ## Principals -/

inductive ActorType where
  | USER
  | API_KEY
  | AGENT
  | SYSTEM
  deriving DecidableEq, Repr

/-- Ambient facts about a call. None is used for authorization. -/
structure RequestContext where
  requestId : PyStr
  ipAddress : Option PyStr
  userAgent : PyStr
  deriving DecidableEq, Repr

/-- An authenticated caller, resolved to a tenant and a set of permissions. -/
structure Principal where
  kind : ActorType
  organizationId : Uuid
  permissions : Finset Permission
  userId : Option Uuid
  sessionId : Option Uuid
  apiKeyId : Option Uuid
  agentId : Option Uuid := none
  membershipId : Option Uuid
  label : PyStr
  mfaSatisfied : Bool
  isPlatformAdmin : Bool
  isOwner : Bool
  context : RequestContext
  deriving DecidableEq

namespace Principal

/-- `Principal.for_membership(membership, …)`. -/
def forMembership (membership : Membership) (sessionId : Option Uuid) (label : PyStr)
    (mfaSatisfied isPlatformAdmin : Bool) (context : RequestContext) : Principal where
  kind := .USER
  organizationId := membership.organizationId
  permissions := membership.permissions
  userId := some membership.userId
  sessionId := sessionId
  apiKeyId := none
  membershipId := some membership.id
  label := label
  mfaSatisfied := mfaSatisfied
  isPlatformAdmin := isPlatformAdmin
  isOwner := membership.isOwner
  context := context

/-- `principal.require(permission)`. -/
def require (principal : Principal) (permission : Permission) : Except DomainError Unit :=
  if permission ∈ principal.permissions then .ok ()
  else .error (.PermissionDeniedError permission.value)

/-- `principal.assert_can_grant(permissions)`. -/
def assertCanGrant (principal : Principal) (permissions : Finset Permission) :
    Except DomainError Unit :=
  if permissions ⊆ principal.permissions then .ok ()
  else .error (.PrivilegeEscalationError (sortedValues (permissions \ principal.permissions)))

/-- What may be granted is held. -/
theorem assert_can_grant_eq_ok {principal : Principal} {permissions : Finset Permission}
    (h : principal.assertCanGrant permissions = .ok ()) :
    permissions ⊆ principal.permissions := by
  unfold assertCanGrant at h
  split at h
  · assumption
  · cases h

end Principal

/-- A role with all permissions, and a membership of organization 1 that carries it. -/
def ownerPrincipal : Principal where
  kind := .USER
  organizationId := 1
  permissions := Finset.univ
  userId := some 10
  sessionId := none
  apiKeyId := none
  membershipId := some 100
  label := []
  mfaSatisfied := false
  isPlatformAdmin := false
  isOwner := true
  context := ⟨[], none, []⟩

end Aegis.Access
