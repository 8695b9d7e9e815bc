import Aegis.Access.Passwords
import Aegis.Access.Programs

/-!
# Requests of a tenant

The requests that sign users in, manage members, roles and API keys, and resolve API keys, as the
transactions of one server. `DeleteRole`, `RevokeApiKey` and `RecordDeniedAction` are added to the
use cases of the other files.
-/

namespace Aegis.Access

open Aegis.Server Permission Database Transaction

variable {R : Type}

/-! ## Deleting a role -/

namespace Roles

/-- `roles.count_memberships_using(role_id)`. -/
def countMembershipsUsing (organizationId roleId : Uuid) : Tx R Nat :=
  .read fun db ↦ db.membershipRoles.rows.countP fun link ↦ link.roleId == roleId &&
    db.memberships.rows.any fun row ↦
      row.id == link.membershipId && row.organizationId == organizationId

/-- `roles.delete(role_id)`. The links to a role go with it. -/
def delete (organizationId roleId : Uuid) : Tx R Unit := do
  let deleted ← rolesTable.deleteWhere fun row ↦
    row.id == roleId && row.organizationId == organizationId
  let _ ← membershipRolesTable.deleteWhere fun link ↦ 0 < deleted && link.roleId == roleId

end Roles

/-- `DeleteRole.execute(…)`. -/
def DeleteRole.execute (lib : Library) (principal : Principal) (roleId : Uuid) :
    Tx Unit Empty := do
  check (principal.require .ROLE_WRITE)
  let organizationId := principal.organizationId
  let some (_, role) ← Roles.get organizationId roleId | raise (.NotFoundError (py "Role"))
  check (role.assertMutable lib)
  let inUse ← Roles.countMembershipsUsing organizationId roleId
  refuseIf (inUse != 0) (.ConflictError (py "This role is assigned to " ++ PyStr.decimal inUse ++
    py " member(s). Reassign them before deleting it."))
  Roles.delete organizationId roleId
  Audit.record principal (py "role.deleted") (py "role") (some roleId)
  .commit (.ok ())

/-! ## Revoking an API key -/

/-- `api_key.revoke(now)`. -/
def ApiKey.revoke (key : ApiKey) (now : Instant) : ApiKey :=
  if key.revokedAt.isNone then { key with revokedAt := some now } else key

/-- `apply_api_key(record, entity)`, of a record that was loaded. -/
def applyApiKey (loaded : ApiKeyRecord) (key : ApiKey) : Edit ApiKeyRecord where
  run row := { row with
    name := changed loaded.name key.name row.name
    permissions := changed loaded.permissions (sortedValues key.permissions) row.permissions
    expiresAt := changed loaded.expiresAt key.expiresAt row.expiresAt
    revokedAt := changed loaded.revokedAt key.revokedAt row.revokedAt
    lastUsedAt := changed loaded.lastUsedAt key.lastUsedAt row.lastUsedAt }
  key_run _ := rfl

namespace ApiKeys

/-- `api_keys.get(api_key_id)`, with its row. -/
def get (organizationId apiKeyId : Uuid) : Tx R (Option (ApiKeyRecord × ApiKey)) := do
  match ← apiKeysTable.selectOne fun row ↦
      row.organizationId == organizationId && row.id == apiKeyId with
  | none => pure none
  | some record => do
      let key ← check (apiKeyToDomain record)
      pure (some (record, key))

/-- `api_keys.update(api_key)`. -/
def update (organizationId : Uuid) (loaded : ApiKeyRecord) (key : ApiKey) : Tx R Unit := do
  let some _ ← apiKeysTable.selectOne fun row ↦
      row.organizationId == organizationId && row.id == key.id
    | raise .LookupError
  if apiKeyToRecord key = loaded then pure ()
  else apiKeysTable.update key.id (applyApiKey loaded key) (.error .StaleDataError)

end ApiKeys

/-- `RevokeApiKey.execute(…)`, at a time `now`. -/
def RevokeApiKey.execute (principal : Principal) (apiKeyId : Uuid) (now : Instant) :
    Tx Unit Empty := do
  check (principal.require .SETTINGS_WRITE)
  let some (record, key) ← ApiKeys.get principal.organizationId apiKeyId
    | raise (.NotFoundError (py "ApiKey"))
  ApiKeys.update principal.organizationId record (key.revoke now)
  Audit.record principal (py "api_key.revoked") (py "api_key") (some key.id)
  .commit (.ok ())

/-- `RecordDeniedAction.execute(…)`. -/
def RecordDeniedAction.execute (principal : Principal) (action resourceType : PyStr) :
    Tx Unit Empty := do
  Audit.append ⟨principal.organizationId, 0, action, principal.kind, principal.userId,
    principal.label, resourceType, none, .DENIED⟩
  .commit (.ok ())

/-! ## The requests -/

/-- What the use cases are given besides a request. -/
structure AccessPorts where
  deps : AuthDependencies
  requireForPrivilegedRoles : Bool
  policy : PasswordPolicy
  classes : CharacterClasses

/-- A request of a tenant. What it draws is part of it. -/
inductive AccessRequest where
  | account (request : AccountRequest)
  | changePassword (principal : Principal) (currentPassword newPassword hashed : PyStr)
      (now : Instant)
  | inviteMember (principal : Principal) (email fullName : PyStr) (roleIds : List Uuid)
      (userId membershipId : Uuid)
  | updateMemberRoles (principal : Principal) (membershipId : Uuid) (roleIds : List Uuid)
  | removeMember (principal : Principal) (membershipId : Uuid) (now : Instant)
  | createRole (principal : Principal) (name description : PyStr) (permissions : List PyStr)
      (roleId : Uuid)
  | updateRole (principal : Principal) (roleId : Uuid) (name description : Option PyStr)
      (permissions : Option (List PyStr))
  | deleteRole (principal : Principal) (roleId : Uuid)
  | createApiKey (principal : Principal) (name : PyStr) (permissions : List PyStr)
      (expiresInDays : Option Int) (now : Instant) (draw : KeyDraw)
  | revokeApiKey (principal : Principal) (apiKeyId : Uuid) (now : Instant)
  | resolveApiKey (keyPrefix secret : PyStr) (now : Instant) (context : RequestContext)
  | recordDenied (principal : Principal) (action resourceType : PyStr)

/-- The answer to a request. -/
inductive AccessAnswer where
  | account (answer : AccountAnswer)
  | member (summary : MemberSummary)
  | role (summary : RoleSummary)
  | apiKey (summary : ApiKeySummary) (plaintext : PyStr)
  | caller (principal : Principal)
  | revoked (count : Nat)
  | done

/-- The transaction of a request. -/
def AccessRequest.program (ports : AccessPorts) : AccessRequest → Tx AccessAnswer Empty
  | account request =>
      (request.program ports.deps ports.requireForPrivilegedRoles).mapOutcome
        (Except.map .account)
  | changePassword principal currentPassword newPassword hashed now =>
      (ChangePassword.execute ports.deps ports.policy ports.classes principal currentPassword
        newPassword hashed now).mapOutcome (Except.map .revoked)
  | inviteMember principal email fullName roleIds userId membershipId =>
      (InviteMember.execute ports.deps.unicode principal email fullName roleIds userId
        membershipId).mapOutcome (Except.map .member)
  | updateMemberRoles principal membershipId roleIds =>
      (UpdateMemberRoles.execute principal membershipId roleIds).mapOutcome (Except.map .member)
  | removeMember principal membershipId now =>
      (RemoveMember.execute principal membershipId now).mapOutcome (Except.map fun _ ↦ .done)
  | createRole principal name description permissions roleId =>
      (CreateRole.execute ports.deps.unicode.library principal name description permissions
        roleId).mapOutcome (Except.map .role)
  | updateRole principal roleId name description permissions =>
      (UpdateRole.execute ports.deps.unicode.library principal roleId name description
        permissions).mapOutcome (Except.map .role)
  | deleteRole principal roleId =>
      (DeleteRole.execute ports.deps.unicode.library principal roleId).mapOutcome
        (Except.map fun _ ↦ .done)
  | createApiKey principal name permissions expiresInDays now draw =>
      (CreateApiKey.execute principal name permissions expiresInDays now draw).mapOutcome
        (Except.map fun issued ↦ .apiKey issued.1 issued.2)
  | revokeApiKey principal apiKeyId now =>
      (RevokeApiKey.execute principal apiKeyId now).mapOutcome (Except.map fun _ ↦ .done)
  | resolveApiKey keyPrefix secret now context =>
      (ResolveApiKeyPrincipal.execute ports.deps.verify keyPrefix secret now context).mapOutcome
        (Except.map .caller)
  | recordDenied principal action resourceType =>
      (RecordDeniedAction.execute principal action resourceType).mapOutcome
        (Except.map fun _ ↦ .done)

/-! ## What the requests are composed of -/

/-- The condition admits what is written of API keys. -/
structure AllowsKeys (P : Write → Prop) : Prop where
  issued : ∀ key : ApiKey, P (.apiKeys (.insert (apiKeyToRecord key)))
  revoked : ∀ record key now, apiKeyToDomain record = .ok key →
    P (.apiKeys (.modify key.id (applyApiKey record (key.revoke now))))
  touched : ∀ apiKeyId now, P (.apiKeys (.modify apiKeyId
    ⟨fun row ↦ { row with lastUsedAt := some now }, fun _ ↦ rfl⟩))

/-- The condition admits what the requests of a tenant write, but for events and roles. -/
structure AllowsAccess (P : Write → Prop) : Prop extends AllowsKeys P where
  user : ∀ u, P (.users u)
  session : ∀ u, P (.sessions u)
  factor : ∀ u, P (.mfaCredentials u)
  membership : ∀ u, P (.memberships u)
  link : ∀ u, P (.membershipRoles u)

theorem AllowsAccess.statements {P : Write → Prop} (hP : AllowsAccess P) : AllowsStatements P :=
  ⟨fun _ _ ↦ hP.user _, hP.factor, fun _ _ _ ↦ hP.session _, fun _ _ ↦ hP.session _⟩

section
variable {P : Write → Prop}

theorem within_load {organizationId : Uuid} {record : MembershipRecord} :
    (Memberships.load organizationId record : Tx R Membership).Within P :=
  (Txn.within_read _).bind fun _ ↦ within_check

theorem within_resolve_roles {principal : Principal} {roleIds : List Uuid} :
    (resolveRoles principal roleIds : Tx R (List Role)).Within P := by
  refine within_refuse_if.bind fun _ ↦ ?_
  refine ((Txn.within_read _).bind fun _ ↦ within_check).bind fun roles ↦ ?_
  exact within_refuse_if.bind fun _ ↦ within_check.bind fun _ ↦ Txn.within_pure roles

theorem within_find_role {organizationId : Uuid} {p : RoleRecord → Bool} :
    (Roles.find organizationId p : Tx R (Option (RoleRecord × Role))).Within P := by
  refine (Txn.within_read _).bind fun found ↦ ?_
  cases found with
  | none => exact Txn.within_pure none
  | some record => exact within_check.bind fun _ ↦ Txn.within_pure _

theorem within_check_name {lib : Library} {role : Role} {name : Option PyStr} :
    (UpdateRole.checkName lib role name : Tx R Unit).Within P := by
  unfold UpdateRole.checkName
  split
  · exact Txn.within_pure ()
  · split
    · exact Txn.within_pure ()
    · exact within_find_role.bind fun _ ↦ within_refuse_if

theorem within_retain_owner {organizationId : Uuid} {taken : Bool} :
    (retainOwner organizationId taken : Tx R Unit).Within P := by
  unfold retainOwner
  split
  · exact (Txn.within_read _).bind fun _ ↦ within_refuse_if
  · exact Txn.within_pure ()

end

section
variable {P : Write → Prop} {C : (R α : Type) → Tx R α → Prop} (hC : Composes P C)
variable (hP : AllowsAccess P)
include hC hP

theorem composed_change_password {deps : AuthDependencies} {policy : PasswordPolicy}
    {classes : CharacterClasses} {principal : Principal}
    {currentPassword newPassword hashed : PyStr} {now : Instant} :
    C _ _ (ChangePassword.execute deps policy classes principal currentPassword newPassword hashed
      now) := by
  unfold ChangePassword.execute
  split
  · refine hC.after (Txn.within_read _) fun found ↦ ?_
    cases found with
    | none => exact hC.raise
    | some user =>
        dsimp only
        split
        · refine hC.after within_refuse_if fun _ ↦ hC.after within_check fun _ ↦ ?_
          refine hC.after within_refuse_if fun _ ↦ hC.after within_check fun _ ↦ ?_
          refine hC.after (within_update_user hP.statements _ _) fun _ ↦ ?_
          refine hC.after (within_revocation hP.statements _ _ _) fun _ ↦ ?_
          exact hC.record _ (hC.only trivial)
        · exact hC.raise
  · exact hC.raise

omit hC in
theorem within_add_role (membershipId : Uuid) (role : Role) :
    (Memberships.addRole membershipId role : Tx R Unit).Within P := by
  intro db
  dsimp only
  split
  · exact ⟨by simp, trivial⟩
  · exact ⟨by simpa using hP.link _, trivial⟩

/-- An invitation inserts a membership with its links, and the user when there was none. -/
theorem composed_invite_member {unicode : Unicode} {principal : Principal} {email fullName : PyStr}
    {roleIds : List Uuid} {userId membershipId : Uuid} :
    C _ _ (InviteMember.execute unicode principal email fullName roleIds userId membershipId) := by
  have hlicense : (InviteMember.checkLicense principal.organizationId :
      Tx MemberSummary Unit).Within P := by
    refine (Txn.within_read _).bind fun found ↦ ?_
    cases found with
    | none => exact Txn.within_pure ()
    | some license => exact (Txn.within_read _).bind fun _ ↦ within_check
  have hinvitee : ∀ address, (InviteMember.invitee address fullName userId :
      Tx MemberSummary User).Within P := by
    intro address
    refine (Txn.within_read _).bind fun found ↦ ?_
    cases found with
    | none => exact (TableAt.within_insert (hP.user _)).bind fun _ ↦ Txn.within_pure _
    | some user => exact Txn.within_pure user
  have hadd : ∀ membership, (Memberships.add membership : Tx MemberSummary Unit).Within P := by
    intro membership
    refine (TableAt.within_insert (hP.membership _)).bind fun _ ↦ ?_
    refine (Txn.within_each fun role ↦ within_add_role hP _ role).bind fun _ ↦ ?_
    exact within_load.bind fun _ ↦ Txn.within_pure ()
  refine hC.after within_check fun _ ↦ hC.after within_check fun address ↦ ?_
  refine hC.after within_resolve_roles fun roles ↦ hC.after hlicense fun _ ↦ ?_
  refine hC.after (hinvitee address) fun user ↦ hC.after within_find fun existing ↦ ?_
  refine hC.after within_refuse_if fun _ ↦ hC.after within_check fun membership ↦ ?_
  exact hC.after (hadd membership) fun _ ↦ hC.record _ (hC.only trivial)

/-- A change of roles replaces the links of a membership. -/
theorem composed_update_member_roles {principal : Principal} {membershipId : Uuid}
    {roleIds : List Uuid} :
    C _ _ (UpdateMemberRoles.execute principal membershipId roleIds) := by
  have hupdate : ∀ loaded membership, (Memberships.update principal.organizationId loaded
      membership : Tx MemberSummary Unit).Within P := by
    intro loaded membership
    refine (Txn.within_read _).bind fun found ↦ ?_
    cases found with
    | none => trivial
    | some record =>
        have hrow : (Memberships.updateRow loaded membership : Tx MemberSummary Unit).Within P := by
          unfold Memberships.updateRow
          split
          · exact Txn.within_pure ()
          · exact TableAt.within_update (hP.membership _)
        refine hrow.bind fun _ ↦ (TableAt.within_delete_where fun _ ↦ hP.link _).bind fun _ ↦ ?_
        refine (Txn.within_each fun role ↦ within_add_role hP _ role).bind fun _ ↦ ?_
        exact within_load.bind fun _ ↦ Txn.within_pure ()
  refine hC.after within_check fun _ ↦ hC.after within_find fun found ↦ ?_
  cases found with
  | none => exact hC.raise
  | some loaded =>
      refine hC.after within_resolve_roles fun roles ↦ hC.after within_check fun membership ↦ ?_
      refine hC.after within_retain_owner fun _ ↦ hC.after (hupdate _ _) fun _ ↦ ?_
      refine hC.after (Txn.within_read _) fun user ↦ ?_
      cases user with
      | none => exact hC.raise
      | some user => exact hC.record _ (hC.only trivial)

/-- Removing a member deletes the membership and revokes sessions. -/
theorem composed_remove_member {principal : Principal} {membershipId : Uuid} {now : Instant} :
    C _ _ (RemoveMember.execute principal membershipId now) := by
  refine hC.after within_check fun _ ↦ hC.after within_find fun found ↦ ?_
  cases found with
  | none => exact hC.raise
  | some membership =>
      refine hC.after within_refuse_if fun _ ↦ hC.after within_retain_owner fun _ ↦ ?_
      have hdelete : (Memberships.delete principal.organizationId membershipId :
          Tx Unit Unit).Within P :=
        (TableAt.within_delete_where fun _ ↦ hP.membership _).bind fun _ ↦ Txn.within_pure ()
      refine hC.after hdelete fun _ ↦ ?_
      refine hC.after (within_revocation hP.statements _ _ _) fun _ ↦ ?_
      exact hC.record _ (hC.only trivial)

/-! ## Roles -/

section
variable (hrole : ∀ u, P (.roles u))
include hrole

omit hP in
theorem composed_create_role {lib : Library} {principal : Principal} {name description : PyStr}
    {permissions : List PyStr} {roleId : Uuid} :
    C _ _ (CreateRole.execute lib principal name description permissions roleId) := by
  refine hC.after within_check fun _ ↦ hC.after within_check fun parsed ↦ ?_
  refine hC.after within_check fun _ ↦ hC.after within_find_role fun clash ↦ ?_
  refine hC.after within_refuse_if fun _ ↦ hC.after within_check fun empty ↦ ?_
  refine hC.after within_check fun role ↦ ?_
  exact hC.after (TableAt.within_insert (hrole _)) fun _ ↦ hC.record _ (hC.only trivial)

omit hP in
theorem composed_update_role {lib : Library} {principal : Principal} {roleId : Uuid}
    {name description : Option PyStr} {permissions : Option (List PyStr)} :
    C _ _ (UpdateRole.execute lib principal roleId name description permissions) := by
  have hupdate : ∀ record role, (Roles.update principal.organizationId record role :
      Tx RoleSummary Unit).Within P := by
    intro record role
    refine (Txn.within_read _).bind fun found ↦ ?_
    cases found with
    | none => trivial
    | some row =>
        dsimp only
        split
        · exact Txn.within_pure ()
        · intro db
          dsimp only
          split
          · exact ⟨by simp, by split <;> trivial⟩
          · exact ⟨by simpa using hrole _, by split <;> trivial⟩
  refine hC.after within_check fun _ ↦ hC.after within_check fun parsed ↦ ?_
  refine hC.after within_find_role fun found ↦ ?_
  cases found with
  | none => exact hC.raise
  | some found =>
      obtain ⟨record, loaded⟩ := found
      refine hC.after within_check_name fun _ ↦ hC.after within_check fun role ↦ ?_
      exact hC.after (hupdate record role) fun _ ↦ hC.record _ (hC.only trivial)

theorem composed_delete_role {lib : Library} {principal : Principal} {roleId : Uuid} :
    C _ _ (DeleteRole.execute lib principal roleId) := by
  have hdelete : (Roles.delete principal.organizationId roleId : Tx Unit Unit).Within P := by
    refine (TableAt.within_delete_where fun _ ↦ hrole _).bind fun _ ↦ ?_
    exact (TableAt.within_delete_where fun _ ↦ hP.link _).bind fun _ ↦ Txn.within_pure ()
  refine hC.after within_check fun _ ↦ hC.after within_find_role fun found ↦ ?_
  cases found with
  | none => exact hC.raise
  | some found =>
      obtain ⟨record, role⟩ := found
      refine hC.after within_check fun _ ↦ hC.after (Txn.within_read _) fun inUse ↦ ?_
      refine hC.after within_refuse_if fun _ ↦ hC.after hdelete fun _ ↦ ?_
      exact hC.record _ (hC.only trivial)

end

/-! ## API keys -/

theorem composed_create_api_key {principal : Principal} {name : PyStr} {permissions : List PyStr}
    {expiresInDays : Option Int} {now : Instant} {draw : KeyDraw} :
    C _ _ (CreateApiKey.execute principal name permissions expiresInDays now draw) := by
  refine hC.after within_check fun _ ↦ hC.after within_check fun parsed ↦ ?_
  refine hC.after within_refuse_if fun _ ↦ hC.after within_check fun _ ↦ ?_
  refine hC.after within_check fun _ ↦ hC.after within_check fun key ↦ ?_
  exact hC.after (TableAt.within_insert (hP.issued key)) fun _ ↦ hC.record _ (hC.only trivial)

theorem composed_revoke_api_key {principal : Principal} {apiKeyId : Uuid} {now : Instant} :
    C _ _ (RevokeApiKey.execute principal apiKeyId now) := by
  have hupdate : ∀ record key, apiKeyToDomain record = .ok key →
      (ApiKeys.update principal.organizationId record (key.revoke now) :
        Tx Unit Unit).Within P := by
    intro record key hkey
    refine (Txn.within_read _).bind fun found ↦ ?_
    cases found with
    | none => trivial
    | some row =>
        dsimp only
        split
        · exact Txn.within_pure ()
        · refine TableAt.within_update ?_
          have hid : (key.revoke now).id = key.id := by
            unfold ApiKey.revoke
            split <;> rfl
          rw [hid]
          exact hP.revoked record key now hkey
  refine hC.after within_check fun _ ↦ ?_
  rw [ApiKeys.get, Txn.bind_bind]
  refine hC.after (Txn.within_read _) fun found ↦ ?_
  cases found with
  | none => exact hC.raise
  | some record =>
      -- What is loaded is the key of the row, or the check ends the request.
      dsimp only
      cases hkey : apiKeyToDomain record with
      | error e => exact hC.raise
      | ok key =>
          show C Unit Empty (ApiKeys.update principal.organizationId record (key.revoke now) >>= _)
          exact hC.after (hupdate record key hkey) fun _ ↦ hC.record _ (hC.only trivial)

theorem composed_resolve_api_key {verify : PyStr → PyStr → Bool} {keyPrefix secret : PyStr}
    {now : Instant} {context : RequestContext} :
    C _ _ (ResolveApiKeyPrincipal.execute verify keyPrefix secret now context) := by
  have hfind : (ApiKeys.getByPrefix keyPrefix : Tx Principal (Option ApiKey)).Within P := by
    refine (Txn.within_read _).bind fun found ↦ ?_
    cases found with
    | none => exact Txn.within_pure none
    | some record => exact within_check.bind fun _ ↦ Txn.within_pure _
  have htouch : ∀ apiKeyId, (ApiKeys.touch apiKeyId now : Tx Principal Unit).Within P := by
    intro apiKeyId
    refine (TableAt.within_update_where fun k ↦ hP.touched k now).bind fun _ ↦ ?_
    exact Txn.within_pure ()
  refine hC.after hfind fun found ↦ ?_
  cases found with
  | none => exact hC.raise
  | some key =>
      refine hC.after within_refuse_if fun _ ↦ hC.after within_refuse_if fun _ ↦ ?_
      refine hC.after (Txn.within_read _) fun organization ↦ hC.after within_refuse_if fun _ ↦ ?_
      exact hC.after (htouch key.id) fun _ ↦ hC.only trivial

/-- The request is about roles. -/
def AccessRequest.IsRole : AccessRequest → Prop
  | .createRole .. | .updateRole .. | .deleteRole .. => True
  | _ => False

/-- Every request is composed of statements that the condition admits, and of events. -/
theorem composed_access {ports : AccessPorts} {request : AccessRequest}
    (hrole : request.IsRole → ∀ u, P (.roles u)) : C _ _ (request.program ports) := by
  have hsession : ∀ session, AllowsRotation P session := fun _ ↦
    ⟨fun _ _ ↦ hP.session _, fun _ _ ↦ hP.session _⟩
  cases request with
  | account request =>
      refine hC.mapOutcome _ (composed_account hC hP.statements (fun _ _ _ _ _ ↦ hP.session _) ?_)
      exact fun _ _ _ _ ↦ composed_refresh_session hC hP.statements hsession
  | changePassword => exact hC.mapOutcome _ (composed_change_password hC hP)
  | inviteMember => exact hC.mapOutcome _ (composed_invite_member hC hP)
  | updateMemberRoles => exact hC.mapOutcome _ (composed_update_member_roles hC hP)
  | removeMember => exact hC.mapOutcome _ (composed_remove_member hC hP)
  | createRole => exact hC.mapOutcome _ (composed_create_role hC (hrole trivial))
  | updateRole => exact hC.mapOutcome _ (composed_update_role hC (hrole trivial))
  | deleteRole => exact hC.mapOutcome _ (composed_delete_role hC hP (hrole trivial))
  | createApiKey => exact hC.mapOutcome _ (composed_create_api_key hC hP)
  | revokeApiKey => exact hC.mapOutcome _ (composed_revoke_api_key hC hP)
  | resolveApiKey => exact hC.mapOutcome _ (composed_resolve_api_key hC hP)
  | recordDenied => exact hC.mapOutcome _ (hC.record _ (hC.only trivial))

end

/-- Ports that are not asked. -/
def plainPorts : AccessPorts :=
  ⟨plainDependencies, false, .default, fun _ ↦ false, fun _ ↦ false, fun _ ↦ false, fun _ ↦ false⟩

end Aegis.Access
