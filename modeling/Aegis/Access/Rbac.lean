import Mathlib.Data.List.Lex
import Mathlib.Data.List.Sort
import Mathlib.Order.Fin.Basic
import Aegis.Access.Repositories
import Aegis.Access.Values

/-!
# Membership and role management

`application/rbac.py`: inviting, changing and removing members, and creating and editing roles.
Each use case checks its permission, and one that grants access also checks that the caller holds
what is granted. The identifiers a use case draws are its arguments.
-/

namespace Aegis.Access

open Aegis.Server Permission

variable {R : Type}

/-- Raise the error when the condition holds. -/
def refuseIf (condition : Bool) (error : DomainError) : Tx R Unit :=
  check (if condition then .error error else .ok ())

structure RoleSummary where
  id : Uuid
  name : PyStr
  description : PyStr
  isSystem : Bool
  permissions : List PyStr
  deriving DecidableEq, Repr

structure MemberSummary where
  membershipId : Uuid
  userId : Uuid
  email : PyStr
  fullName : PyStr
  status : MembershipStatus
  roles : List RoleSummary
  permissions : List PyStr
  joinedAt : Option Instant
  lastLoginAt : Option Instant
  deriving DecidableEq, Repr

/-- `_role_summary(role)`. -/
def roleSummary (role : Role) : RoleSummary :=
  ⟨role.id, role.name, role.description, role.isSystem, sortedValues role.permissions⟩

/-- `_member_summary(membership, user)`. -/
def memberSummary (membership : Membership) (user : User) : MemberSummary :=
  ⟨membership.id, user.id, user.email, user.fullName, membership.status,
    membership.roles.map roleSummary, sortedValues membership.permissions, membership.joinedAt,
    user.lastLoginAt⟩

/-- `parse_permissions(raw)`: a text that is not in the catalogue is an error. -/
def parsePermissions (raw : List PyStr) : Except DomainError (Finset Permission) :=
  let unknown := raw.filter fun item ↦ (parse item).isNone
  if unknown.isEmpty then .ok (ofStored raw)
  else
    .error (.ValidationError (py "Unknown permissions: " ++
      PyStr.join (py ", ") (unknown.insertionSort (· ≤ ·))) (py "permissions") [])

/-! ## Members -/

/-- `InviteMember._resolve_roles(uow, principal, role_ids)`. -/
def resolveRoles (principal : Principal) (roleIds : List Uuid) : Tx R (List Role) := do
  refuseIf roleIds.isEmpty
    (.ValidationError (py "At least one role must be assigned.") (py "role_ids") [])
  let roles ← Roles.getMany principal.organizationId roleIds
  refuseIf (roles.length != roleIds.dedup.length) (.NotFoundError (py "Role"))
  check (principal.assertCanGrant (grantedBy roles))
  pure roles

namespace InviteMember

/-- The licence must have room for another member. -/
def checkLicense (organizationId : Uuid) : Tx R Unit := do
  match ← Licenses.getForOrganization organizationId with
  | none => pure ()
  | some license => do
      let members ← Memberships.count organizationId
      check (license.checkUsers members)

/-- The user with the address, or a new one. -/
def invitee (address fullName : PyStr) (userId : Uuid) : Tx R User := do
  match ← Users.getByEmail address with
  | some user => pure user
  | none => do
      let user := User.invited userId address fullName
      Users.add user
      pure user

/-- The part of `InviteMember.execute` that is about the membership of the user. -/
def invite (principal : Principal) (roles : List Role) (membershipId : Uuid) (user : User) :
    Tx MemberSummary Empty := do
  let existing ← Memberships.getForUser principal.organizationId user.id
  refuseIf existing.isSome
    (.ConflictError (py "This person is already a member of the organization."))
  let membership ← check (Membership.make membershipId principal.organizationId user.id roles
    .INVITED principal.userId none)
  Memberships.add membership
  Audit.record principal (py "member.invited") (py "membership") (some membership.id)
  .commit (.ok (memberSummary membership user))

/-- `InviteMember.execute(…)`. -/
def execute (unicode : Unicode) (principal : Principal) (email fullName : PyStr)
    (roleIds : List Uuid) (userId membershipId : Uuid) : Tx MemberSummary Empty := do
  check (principal.require .USER_INVITE)
  let address ← check (EmailAddress.make unicode email)
  let roles ← resolveRoles principal roleIds
  checkLicense principal.organizationId
  let user ← invitee address fullName userId
  invite principal roles membershipId user

end InviteMember

/-- The error of an organization that would be left without an owner. -/
def lastOwner : DomainError :=
  .InvalidStateError (py "An organization must retain at least one Owner.")

/-- `… and await uow.memberships.count_owners() <= 1`, which raises when it holds. -/
def retainOwner (organizationId : Uuid) (taken : Bool) : Tx R Unit :=
  if taken then do
    let owners ← Memberships.countOwners organizationId
    refuseIf (owners ≤ 1) lastOwner
  else pure ()

/-- `UpdateMemberRoles.execute(…)`. -/
def UpdateMemberRoles.execute (principal : Principal) (membershipId : Uuid)
    (roleIds : List Uuid) : Tx MemberSummary Empty := do
  check (principal.require .ROLE_WRITE)
  let organizationId := principal.organizationId
  let some loaded ← Memberships.get organizationId membershipId
    | raise (.NotFoundError (py "Membership"))
  let roles ← resolveRoles principal roleIds
  let membership ← check (loaded.assignRoles roles)
  retainOwner organizationId (loaded.isOwner && !membership.isOwner)
  Memberships.update organizationId loaded membership
  let some user ← Users.get membership.userId | raise (.NotFoundError (py "User"))
  Audit.record principal (py "member.roles_changed") (py "membership") (some membership.id)
  .commit (.ok (memberSummary membership user))

/-- `RemoveMember.execute(…)`, at a time `now`. -/
def RemoveMember.execute (principal : Principal) (membershipId : Uuid) (now : Instant) :
    Tx Unit Empty := do
  check (principal.require .USER_REMOVE)
  let organizationId := principal.organizationId
  let some membership ← Memberships.get organizationId membershipId
    | raise (.NotFoundError (py "Membership"))
  refuseIf (some membership.userId == principal.userId)
    (.InvalidStateError (py "You cannot remove your own membership."))
  retainOwner organizationId membership.isOwner
  Memberships.delete organizationId membershipId
  let _ ← Sessions.revokeAllForUser membership.userId now (py "membership_removed") none
  Audit.record principal (py "member.removed") (py "membership") (some membershipId)
  .commit (.ok ())

/-! ## Roles -/

/-- The error of a name another role has. -/
def nameTaken (lib : Library) (name : PyStr) : DomainError :=
  .ConflictError (py "A role named " ++ lib.repr (.str name.strip) ++ py " already exists.")

/-- `CreateRole.execute(…)`. -/
def CreateRole.execute (lib : Library) (principal : Principal) (name description : PyStr)
    (permissions : List PyStr) (roleId : Uuid) : Tx RoleSummary Empty := do
  check (principal.require .ROLE_WRITE)
  let parsed ← check (parsePermissions permissions)
  check (principal.assertCanGrant parsed)
  let organizationId := principal.organizationId
  let clash ← Roles.getByName organizationId name.strip
  refuseIf clash.isSome (nameTaken lib name)
  let empty ← check (Role.make roleId organizationId name description false ∅)
  let role ← check (empty.update lib none none (some parsed))
  Roles.add role
  Audit.record principal (py "role.created") (py "role") (some role.id)
  .commit (.ok (roleSummary role))

namespace UpdateRole

/-- The permissions a request names, which the caller must hold. -/
def parsed (principal : Principal) :
    Option (List PyStr) → Except DomainError (Option (Finset Permission))
  | none => .ok none
  | some permissions => do
      let parsed ← parsePermissions permissions
      principal.assertCanGrant parsed
      return some parsed

/-- A new name must not be another role's. -/
def checkName (lib : Library) (role : Role) : Option PyStr → Tx R Unit
  | none => pure ()
  | some name =>
      if name.strip = role.name then pure ()
      else do
        let clash ← Roles.getByName role.organizationId name.strip
        refuseIf clash.isSome (nameTaken lib name)

/-- `UpdateRole.execute(…)`. -/
def execute (lib : Library) (principal : Principal) (roleId : Uuid)
    (name description : Option PyStr) (permissions : Option (List PyStr)) :
    Tx RoleSummary Empty := do
  check (principal.require .ROLE_WRITE)
  let parsed ← check (parsed principal permissions)
  let organizationId := principal.organizationId
  let some (record, loaded) ← Roles.get organizationId roleId
    | raise (.NotFoundError (py "Role"))
  checkName lib loaded name
  let role ← check (loaded.update lib name description parsed)
  Roles.update organizationId record role
  Audit.record principal (py "role.updated") (py "role") (some role.id)
  .commit (.ok (roleSummary role))

end UpdateRole

end Aegis.Access
