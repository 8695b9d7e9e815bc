import Aegis.Access.Requests
import Aegis.Lib.Guarantee

/-!
# What becomes of a role

`Role.assert_mutable` keeps system roles from being changed, and `Role.update` keeps the permissions
of the owner from custom roles. Between the check and the write other requests commit; that the row
of a custom role does not turn into one of a system role in between is what makes the checks hold of
every run.
-/

namespace Aegis.Access

open Aegis.Server Permission Database Transaction

/-! ## What the roles stay -/

/-- The rows of the system roles. -/
def systemRoles (db : Database) : List RoleRecord :=
  db.roles.rows.filter RoleRecord.isSystem

/-- No custom role has a permission that belongs to the owner. -/
def OwnerExclusive (db : Database) : Prop :=
  ∀ row ∈ db.roles.rows, row.isSystem = false →
    Disjoint (ofStored row.permissions) OWNER_ONLY_PERMISSIONS

/-- The system roles are what they were, and custom roles have got no permission of the owner. -/
structure RolesKept (db db' : Database) : Prop where
  system : systemRoles db' = systemRoles db
  custom : OwnerExclusive db → OwnerExclusive db'

theorem RolesKept.refl (db : Database) : RolesKept db db :=
  ⟨rfl, fun h ↦ h⟩

theorem RolesKept.trans {a b c : Database} (hab : RolesKept a b) (hbc : RolesKept b c) :
    RolesKept a c :=
  ⟨hbc.system.trans hab.system, fun h ↦ hbc.custom (hab.custom h)⟩

/-- What leaves the table as it is keeps the roles. -/
theorem roles_kept_of_eq {db db' : Database} (h : db'.roles = db.roles) : RolesKept db db' := by
  constructor
  · unfold systemRoles
    rw [h]
  · unfold OwnerExclusive
    rw [h]
    exact fun hold ↦ hold

/-- Others keep the roles. -/
theorem interference_roles {Q R : Type} : Interference fun w w' : World Database Q R ↦
    RolesKept w.db w'.db :=
  ⟨fun _ ↦ .refl _, .trans⟩

/-- The identifier is no system role's. -/
def NotSystem (roleId : Uuid) (db : Database) : Prop :=
  ∀ row ∈ systemRoles db, row.id ≠ roleId

/-- It stays so. -/
theorem NotSystem.later {roleId : Uuid} {db db' : Database} (h : NotSystem roleId db)
    (hkept : RolesKept db db') : NotSystem roleId db' := by
  unfold NotSystem
  rw [hkept.system]
  exact h

/-- Two roles have two identifiers. -/
theorem not_system_of_mem {db : Database} {record : RoleRecord} (hmem : record ∈ db.roles.rows)
    (hcustom : record.isSystem = false) : NotSystem record.id db := by
  intro row hrow hid
  obtain ⟨hrow, hsystem⟩ := List.mem_filter.mp hrow
  rw [Table.eq_of_key_eq hrow hmem hid, hcustom] at hsystem
  cases hsystem

/-! ## What writes do to them -/

/-- The write keeps the roles when the identifier is no system role's. -/
def KeepsRolesBut (roleId : Uuid) (u : Write) : Prop :=
  ∀ db : Database, NotSystem roleId db → RolesKept db (Store.apply db u)

/-- So do several. -/
theorem roles_kept_view {roleId : Uuid} {us : List Write} (hus : ∀ u ∈ us, KeepsRolesBut roleId u)
    {db : Database} (h : NotSystem roleId db) : RolesKept db (view us db) :=
  view_kept (fun a b ↦ NotSystem roleId a → RolesKept a b) (fun d _ ↦ .refl d)
    (fun hab hbc ha ↦ (hab ha).trans (hbc (ha.later (hab ha)))) (fun _ hu ↦ hu) hus db h

/-- A write of another table keeps them. -/
theorem keeps_roles_of_other {roleId : Uuid} {u : Write}
    (h : ∀ db : Database, (Store.apply db u).roles = db.roles) : KeepsRolesBut roleId u :=
  fun db _ ↦ roles_kept_of_eq (h db)

theorem roles_apply_of_audit {u : Write} (hu : u.IsAudit) (db : Database) :
    (Store.apply db u).roles = db.roles := by
  rw [apply_of_is_audit hu db]

/-- A custom role without the permissions of the owner is inserted. -/
theorem keeps_roles_insert {role : Role} (hcustom : role.isSystem = false)
    (hdisjoint : Disjoint role.permissions OWNER_ONLY_PERMISSIONS) (roleId : Uuid) :
    KeepsRolesBut roleId (.roles (.insert (roleToRecord role))) := by
  intro db _
  by_cases hnew : ∀ old ∈ db.roles.rows, key old ≠ key (roleToRecord role)
  · have hrows : (Store.apply db (Write.roles (.insert (roleToRecord role)))).roles.rows =
        db.roles.rows ++ [roleToRecord role] := Table.rows_insert_of_new hnew
    constructor
    · unfold systemRoles
      rw [hrows, List.filter_append, List.filter_cons_of_neg
        (by simpa [roleToRecord] using hcustom), List.filter_nil, List.append_nil]
    · intro hexclusive row hrow hrowCustom
      rw [hrows] at hrow
      rcases List.mem_append.mp hrow with hrow | hrow
      · exact hexclusive row hrow hrowCustom
      · rw [List.mem_singleton.mp hrow]
        show Disjoint (ofStored (sortedValues role.permissions)) _
        rw [of_stored_sorted_values]
        exact hdisjoint
  · refine roles_kept_of_eq ?_
    show db.roles.insert (roleToRecord role) = db.roles
    rw [Table.insert, dif_pos]
    push Not at hnew
    obtain ⟨old, hold, hkey⟩ := hnew
    exact List.mem_map.mpr ⟨old, hold, hkey⟩

/-- A custom role is modified, and gets no permission of the owner. -/
theorem keeps_roles_modify {record : RoleRecord} {role : Role}
    (hdisjoint : Disjoint role.permissions OWNER_ONLY_PERMISSIONS) :
    KeepsRolesBut role.id (.roles (.modify role.id (applyRole record role))) := by
  intro db hother
  have hrows : (Store.apply db (Write.roles (.modify role.id (applyRole record role)))).roles.rows =
      db.roles.rows.map (Table.editAt role.id (applyRole record role)) := rfl
  have hsystem : ∀ row : RoleRecord,
      (Table.editAt role.id (applyRole record role) row).isSystem = row.isSystem := by
    intro row
    unfold Table.editAt
    split <;> rfl
  constructor
  · unfold systemRoles
    rw [hrows, List.filter_map]
    have hsame : RoleRecord.isSystem ∘ Table.editAt role.id (applyRole record role) =
        RoleRecord.isSystem := funext hsystem
    have hid : ∀ row ∈ systemRoles db,
        Table.editAt role.id (applyRole record role) row = row :=
      fun row hrow ↦ Table.edit_at_of_ne (hother row hrow)
    rw [hsame]
    exact (List.map_congr_left hid).trans (List.map_id' _)
  · intro hexclusive row hrow hrowCustom
    rw [hrows] at hrow
    obtain ⟨old, hold, rfl⟩ := List.mem_map.mp hrow
    rw [hsystem] at hrowCustom
    have hkept := hexclusive old hold hrowCustom
    unfold Table.editAt
    split
    · show Disjoint (ofStored (changed record.permissions (sortedValues role.permissions)
        old.permissions)) _
      unfold changed
      split
      · exact hkept
      · rw [of_stored_sorted_values]
        exact hdisjoint
    · exact hkept

/-- A custom role is deleted. -/
theorem keeps_roles_delete (roleId : Uuid) : KeepsRolesBut roleId (.roles (.delete roleId)) := by
  intro db hother
  have hrows : (Store.apply db (Write.roles (.delete roleId))).roles.rows =
      db.roles.rows.filter fun row ↦ !(key row == roleId) := rfl
  constructor
  · unfold systemRoles
    rw [hrows, List.filter_filter]
    refine List.filter_congr fun row hrow ↦ ?_
    cases hsystem : row.isSystem with
    | false => rfl
    | true =>
        have := hother row (List.mem_filter.mpr ⟨hrow, hsystem⟩)
        simpa [key] using this
  · intro hexclusive row hrow
    rw [hrows] at hrow
    exact hexclusive row (List.mem_of_mem_filter hrow)

/-! ## What the requests keep -/

section
variable {R Q S α : Type}

/-- Statements that write nothing leave what others leave. -/
theorem wp_of_reads {rely : World Database Q S → World Database Q S → Prop}
    {ends : Bool → Except DomainError R → World Database Q S → Database → Prop} {p : Tx R α}
    {post : α → List Write → World Database Q S → Prop} {ws : List Write} {w : World Database Q S}
    (hrely : Interference rely) (hp : p.Within fun _ ↦ False)
    (habort : ∀ o w', rely w w' → ends false o w' w'.db)
    (h : ∀ a w', rely w w' → post a ws w') : Wp rely ends p post ws w := by
  refine wp_of_within hrely hp habort fun a us w' hw hus ↦ ?_
  rw [List.eq_nil_iff_forall_not_mem.mpr hus, List.append_nil]
  exact h a w' hw

/-- Whatever the outcome, the roles are kept. -/
def EndsKeeping (_ : Bool) (_ : R) (w : World Database Q S) (db : Database) : Prop :=
  RolesKept w.db db

theorem refuses_keeping (w : World Database Q S) :
    Refuses (fun w w' ↦ RolesKept w.db w'.db) (EndsKeeping (R := Except DomainError R)) w :=
  fun _ w' _ ↦ RolesKept.refl w'.db

/-- The end of a request about a custom role: an event, and the commit. -/
theorem wp_record_commit {principal : Principal} {action resourceType : PyStr}
    {resourceId : Option Uuid} {answer : R} {roleId : Uuid} {ws : List Write}
    {w : World Database Q S} (hws : ∀ u ∈ ws, KeepsRolesBut roleId u)
    (hother : NotSystem roleId w.db) :
    Wp (fun w w' ↦ RolesKept w.db w'.db) (EndsKeeping (R := Except DomainError R))
      (Audit.record principal action resourceType resourceId >>= fun _ ↦
        (Txn.commit (.ok answer) : Tx R Empty))
      (fun e _ _ ↦ e.elim) ws w := by
  rw [wp_bind]
  refine wp_append interference_roles (refuses_keeping w) fun w₁ events hw₁ hevents ↦ ?_
  rw [wp_commit]
  intro w₂ hw₂
  refine roles_kept_view (fun u hu ↦ ?_) ((hother.later hw₁).later hw₂)
  rcases List.mem_append.mp hu with hu | hu
  · exact hws u hu
  · exact keeps_roles_of_other (roles_apply_of_audit (hevents u hu))

variable {lib : Library} {principal : Principal} {w : World Database Q S}

/-- A role that is created is a custom one, with permissions that an update allows. -/
theorem wp_create_role {name description : PyStr} {permissions : List PyStr} {roleId : Uuid} :
    Wp (fun w w' ↦ RolesKept w.db w'.db) (EndsKeeping (R := Except DomainError RoleSummary))
      (CreateRole.execute lib principal name description permissions roleId)
      (fun e _ _ ↦ e.elim) [] w := by
  unfold CreateRole.execute
  rw [wp_bind]
  refine wp_check (refuses_keeping w) fun _ _ ↦ ?_
  rw [wp_bind]
  refine wp_check (refuses_keeping w) fun parsed _ ↦ ?_
  rw [wp_bind]
  refine wp_check (refuses_keeping w) fun _ _ ↦ ?_
  dsimp only
  rw [wp_bind]
  refine wp_of_reads interference_roles within_find_role (fun _ w' _ ↦ .refl w'.db)
    fun clash w₁ hw₁ ↦ ?_
  rw [wp_bind]
  refine wp_refuse_if (refuses_keeping w₁) fun _ ↦ ?_
  rw [wp_bind]
  refine wp_check (refuses_keeping w₁) fun empty _ ↦ ?_
  rw [wp_bind]
  refine wp_check (refuses_keeping w₁) fun role hrole ↦ ?_
  obtain ⟨-, hcustom, -, -, hpermissions⟩ := Role.update_eq_ok hrole
  have hdisjoint := (hpermissions.resolve_left fun h ↦ Option.some_ne_none _ h.1).2
  rw [wp_bind]
  refine TableAt.wp_insert interference_roles (fun w' _ ↦ .refl w'.db) fun w₂ hw₂ hfree ↦ ?_
  -- The row is new, so its identifier is no system role's.
  have hother : NotSystem role.id w₂.db := fun row hrow ↦
    (TableAt.key_ne_of_not_violates hfree row (List.mem_of_mem_filter hrow)).1
  refine wp_record_commit (fun u hu ↦ ?_) hother
  obtain rfl := List.mem_singleton.mp hu
  exact keeps_roles_insert hcustom hdisjoint role.id

/-- A role that is updated was a custom one when it was read, and still is when it is written. -/
theorem wp_update_role {roleId : Uuid} {name description : Option PyStr}
    {permissions : Option (List PyStr)} (hexclusive : OwnerExclusive w.db) :
    Wp (fun w w' ↦ RolesKept w.db w'.db) (EndsKeeping (R := Except DomainError RoleSummary))
      (UpdateRole.execute lib principal roleId name description permissions)
      (fun e _ _ ↦ e.elim) [] w := by
  unfold UpdateRole.execute
  rw [wp_bind]
  refine wp_check (refuses_keeping w) fun _ _ ↦ ?_
  rw [wp_bind]
  refine wp_check (refuses_keeping w) fun parsed _ ↦ ?_
  dsimp only
  rw [wp_bind, Roles.get]
  refine wp_find_role interference_roles (refuses_keeping w)
    (fun w₁ _ ↦ wp_raise (refuses_keeping w₁)) fun w₁ record loaded hw₁ hmem _ _ hloaded ↦ ?_
  dsimp only
  rw [wp_bind]
  refine wp_of_reads interference_roles within_check_name (fun _ w' _ ↦ .refl w'.db)
    fun _ w₂ hw₂ ↦ ?_
  rw [wp_bind]
  refine wp_check (refuses_keeping w₂) fun role hrole ↦ ?_
  obtain ⟨hloadedCustom, -, hid, -, hpermissions⟩ := Role.update_eq_ok hrole
  obtain ⟨hloadedId, -, -, hsystem, hstored⟩ := role_to_domain_eq_ok hloaded
  have hcustom : record.isSystem = false := hsystem.symm.trans hloadedCustom
  have hdisjoint : Disjoint role.permissions OWNER_ONLY_PERMISSIONS := by
    rcases hpermissions with ⟨-, hsame⟩ | ⟨-, hdisjoint⟩
    · rw [hsame, hstored]
      exact hw₁.custom hexclusive record hmem hcustom
    · exact hdisjoint
  have hother : NotSystem role.id w₂.db := by
    rw [hid, hloadedId]
    exact (not_system_of_mem hmem hcustom).later hw₂
  rw [wp_bind, Roles.update, wp_bind, TableAt.wp_select_one]
  intro w₃ hw₃
  cases (rolesTable.read (view [] w₃.db)).rows.find? fun row ↦
      row.organizationId == principal.organizationId && row.id == role.id with
  | none => exact wp_raise (refuses_keeping w₃)
  | some _ =>
      dsimp only
      split
      · exact wp_record_commit (fun u hu ↦ absurd hu List.not_mem_nil) (hother.later hw₃)
      · intro w₄ hw₄
        dsimp only
        cases hrefusal : Roles.refusal role (view [] w₄.db) with
        | some error => exact wp_raise (refuses_keeping w₄)
        | none =>
            refine wp_record_commit (fun u hu ↦ ?_) ((hother.later hw₃).later hw₄)
            obtain rfl := List.mem_singleton.mp hu
            exact keeps_roles_modify hdisjoint

/-- A role that is deleted was a custom one when it was read, and still is when it is deleted. -/
theorem wp_delete_role {roleId : Uuid} :
    Wp (fun w w' ↦ RolesKept w.db w'.db) (EndsKeeping (R := Except DomainError Unit))
      (DeleteRole.execute lib principal roleId) (fun e _ _ ↦ e.elim) [] w := by
  unfold DeleteRole.execute
  rw [wp_bind]
  refine wp_check (refuses_keeping w) fun _ _ ↦ ?_
  dsimp only
  rw [wp_bind, Roles.get]
  refine wp_find_role interference_roles (refuses_keeping w)
    (fun w₁ _ ↦ wp_raise (refuses_keeping w₁)) fun w₁ record loaded hw₁ hmem _ hfound hloaded ↦ ?_
  dsimp only
  rw [wp_bind]
  refine wp_check (refuses_keeping w₁) fun _ hmutable ↦ ?_
  have hcustom : record.isSystem = false :=
    (role_to_domain_eq_ok hloaded).2.2.2.1.symm.trans (Role.assert_mutable_eq_ok hmutable)
  have hother : NotSystem roleId w₁.db :=
    beq_iff_eq.mp hfound ▸ not_system_of_mem hmem hcustom
  rw [wp_bind]
  refine wp_of_reads interference_roles (Txn.within_read _) (fun _ w' _ ↦ .refl w'.db)
    fun inUse w₂ hw₂ ↦ ?_
  rw [wp_bind]
  refine wp_refuse_if (refuses_keeping w₂) fun _ ↦ ?_
  rw [wp_bind, Roles.delete, wp_bind]
  refine TableAt.wp_delete_where interference_roles fun w₃ deleted roles hw₃ hroles ↦ ?_
  rw [wp_bind]
  refine TableAt.wp_delete_where interference_roles fun w₄ _ links hw₄ hlinks ↦ ?_
  refine wp_record_commit (fun u hu ↦ ?_) (((hother.later hw₂).later hw₃).later hw₄)
  rcases List.mem_append.mp hu with hu | hu
  · obtain ⟨row, hrow, rfl⟩ := hroles u hu
    rw [Bool.and_eq_true, beq_iff_eq] at hrow
    rw [show key row = roleId from hrow.1]
    exact keeps_roles_delete roleId
  · obtain ⟨link, -, rfl⟩ := hlinks u hu
    exact keeps_roles_of_other fun _ ↦ rfl

end

/-- What leaves the table of roles as it is. -/
def LeavesRoles (u : Write) : Prop :=
  ∀ db : Database, (Store.apply db u).roles = db.roles

theorem allows_access_leaves_roles : AllowsAccess LeavesRoles where
  issued _ _ := rfl
  revoked _ _ _ _ _ := rfl
  touched _ _ _ := rfl
  user _ _ := rfl
  session _ _ := rfl
  factor _ _ := rfl
  membership u _ := by cases u <;> rfl
  link _ _ := rfl

/-- Every request among others keeps the roles. -/
theorem safe_roles {ports : AccessPorts}
    {w : World Database AccessRequest (Except DomainError AccessAnswer)}
    (hexclusive : OwnerExclusive w.db) (request : AccessRequest) :
    Wp (fun w w' ↦ RolesKept w.db w'.db)
      (EndsKeeping (R := Except DomainError AccessAnswer)) (request.program ports)
      (fun e _ _ ↦ e.elim) [] w := by
  by_cases hrole : request.IsRole
  · cases request with
    | createRole => exact wp_map_outcome.mpr wp_create_role
    | updateRole => exact wp_map_outcome.mpr (wp_update_role hexclusive)
    | deleteRole => exact wp_map_outcome.mpr wp_delete_role
    | _ => exact hrole.elim
  · have honly : (request.program ports).Only LeavesRoles :=
      composed_access (composes_only fun _ hu ↦ roles_apply_of_audit hu)
        allows_access_leaves_roles fun h ↦ absurd h hrole
    refine wp_of_only interference_roles honly (by simp) (fun _ w' _ ↦ .refl w'.db) ?_
    exact fun _ us w' _ hus ↦ roles_kept_of_eq (view_congr hus w'.db)

/-- However the requests of tenants interleave, and whichever of them are lost: the system roles are
at every moment what they were at the beginning, none is added, and no custom role has ever a
permission that belongs to the owner. -/
theorem system_roles_kept (ports : AccessPorts) {db : Database} (hdb : OwnerExclusive db)
    (labels : List (Label AccessRequest)) :
    ∀ reached ∈ Machine.visited (Transaction.step (AccessRequest.program ports))
        ⟨⟨db, []⟩, []⟩ labels,
      systemRoles reached.2.world.db = systemRoles db ∧ OwnerExclusive reached.2.world.db := by
  have hrun := guaranteed_run (AccessRequest.program ports) labels interference_roles
    (fun _ _ hexclusive hkept ↦ hkept.custom hexclusive)
    (fun _ _ _ _ _ hends ↦ And.intro hends trivial)
    (fun request _ _ hexclusive ↦ safe_roles hexclusive request) hdb
  exact fun reached hreached ↦ ⟨(hrun reached hreached).1.system, (hrun reached hreached).2.1⟩

/-- A tenant with the role of the owner. -/
def plainRoles : Database :=
  { Database.empty with
    roles := ⟨[roleToRecord (.system 2 1 .OWNER)], List.nodup_singleton _⟩ }

/-- A role is created with a permission of the owner while the role of the owner is deleted. -/
def rolesAttacked : List (Label AccessRequest) :=
  [.start (.createRole ownerPrincipal (py "Deputy") [] [py "org:delete"] 5),
    .start (.deleteRole ownerPrincipal 2), .advance 0, .advance 0, .advance 0]

/-- The only role is a system role. -/
theorem owner_exclusive_plain : OwnerExclusive plainRoles := by
  intro row hrow hcustom
  rw [List.mem_singleton.mp hrow] at hcustom
  cases hcustom

theorem system_roles_kept_attacked :
    OwnerExclusive plainRoles ∧
      ∀ reached ∈ Machine.visited (Transaction.step (AccessRequest.program plainPorts))
          ⟨⟨plainRoles, []⟩, []⟩ rolesAttacked,
        systemRoles reached.2.world.db = systemRoles plainRoles ∧
          OwnerExclusive reached.2.world.db :=
  ⟨owner_exclusive_plain, system_roles_kept plainPorts owner_exclusive_plain rolesAttacked⟩

end Aegis.Access
