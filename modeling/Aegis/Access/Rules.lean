import Aegis.Access.ApiKeys

/-!
# Rules for the statements of a use case

What each repository operation leaves when it does not end the transaction. The rules say what was
read and when, and which rows were written; what ends a transaction early is left to `Refuses`.
-/

namespace Aegis.Access

open Aegis.Server Database Transaction

variable {R S Q α : Type} {rely : World Database Q S → World Database Q S → Prop}
variable {ends : Bool → Except DomainError R → World Database Q S →
  Database → Prop}
variable {ws : List Write} {w : World Database Q S}

/-- Whatever others commit, the transaction may end with an error. -/
def Refuses (rely : World Database Q S → World Database Q S → Prop)
    (ends : Bool → Except DomainError R → World Database Q S →
      Database → Prop) (w : World Database Q S) : Prop :=
  ∀ e w', rely w w' → ends false (.error e) w' w'.db

/-- It may still do so later. -/
theorem Refuses.later (hrely : Interference rely) (h : Refuses rely ends w)
    {w' : World Database Q S} (hw : rely w w') : Refuses rely ends w' :=
  fun e u hu ↦ h e u (hrely.trans hw hu)

section
variable {post : α → List Write → World Database Q S → Prop}

theorem wp_raise (hrefuses : Refuses rely ends w) {e : DomainError} :
    Wp rely ends (raise e : Tx R α) post ws w :=
  hrefuses e

theorem wp_check (hrefuses : Refuses rely ends w) {x : Except DomainError α}
    (h : ∀ a, x = .ok a → post a ws w) : Wp rely ends (check x : Tx R α) post ws w := by
  cases x with
  | error e => exact hrefuses e
  | ok a => exact h a rfl

/-- Alone, a check is passed or ends the transaction. -/
theorem wp_check_alone {x : Except DomainError α} :
    Wp (fun w w' ↦ w' = w) ends (check x : Tx R α) post ws w ↔
      (∀ a, x = .ok a → post a ws w) ∧ ∀ e, x = .error e → ends false (.error e) w w.db := by
  cases x with
  | error e =>
      constructor
      · intro h
        exact ⟨nofun, fun _ he ↦ Except.error.inj he ▸ h w rfl⟩
      · rintro ⟨-, h⟩ _ rfl
        exact h e rfl
  | ok a => exact ⟨fun h ↦ ⟨fun _ ha ↦ Except.ok.inj ha ▸ h, nofun⟩, fun h ↦ h.1 a rfl⟩

end

theorem wp_refuse_if (hrefuses : Refuses rely ends w) {condition : Bool} {e : DomainError}
    {post : Unit → List Write → World Database Q S → Prop}
    (h : condition = false → post () ws w) :
    Wp rely ends (refuseIf condition e : Tx R Unit) post ws w := by
  refine wp_check hrefuses fun _ hok ↦ h ?_
  cases condition
  · rfl
  · cases hok

/-- Alone, a condition that does not hold is passed, and one that holds ends the transaction. -/
theorem wp_refuse_if_alone {condition : Bool} {e : DomainError}
    {post : Unit → List Write → World Database Q S → Prop} :
    Wp (fun w w' ↦ w' = w) ends (refuseIf condition e : Tx R Unit) post ws w ↔
      (condition = false → post () ws w) ∧
        (condition = true → ends false (.error e) w w.db) := by
  rw [refuseIf, wp_check_alone]
  cases condition with
  | false => exact ⟨fun h ↦ ⟨fun _ ↦ h.1 () rfl, nofun⟩, fun h ↦ ⟨fun _ _ ↦ h.1 rfl, nofun⟩⟩
  | true =>
      refine ⟨fun h ↦ ⟨nofun, fun _ ↦ h.2 e rfl⟩, fun h ↦ ⟨nofun, fun e' he ↦ ?_⟩⟩
      obtain rfl := Except.error.inj he
      exact h.2 rfl

/-! ## What statements write -/

section
variable {P : Write → Prop}

theorem within_check {x : Except DomainError α} : (check x : Tx R α).Within P := by
  cases x <;> trivial

theorem within_refuse_if {condition : Bool} {e : DomainError} :
    (refuseIf condition e : Tx R Unit).Within P :=
  within_check

/-- Appending to an audit chain writes its lock and an event. -/
theorem within_append {event : AuditEventRecord} (hlock : ∀ id, P (.auditLock id))
    (hevent : ∀ event, P (.auditEvents (.insert event))) :
    (Audit.append event : Tx R Unit).Within P := by
  refine (Txn.within_write fun _ u hu ↦ ?_).bind fun _ ↦ (Txn.within_read _).bind fun _ ↦ ?_
  · rw [List.mem_singleton.mp hu]
    exact hlock _
  · exact TableAt.within_insert (hevent _)

end

/-! ## Memberships -/

section
variable (hrely : Interference rely) (hrefuses : Refuses rely ends w)
include hrely hrefuses

/-- The roles of a membership are read after its row. -/
theorem wp_load {organizationId : Uuid} {record : MembershipRecord}
    {post : Membership → List Write → World Database Q S → Prop}
    (h : ∀ w' membership, rely w w' →
      membershipToDomain record
        (Memberships.rolesOf organizationId record.id (view ws w'.db)) = .ok membership →
      post membership ws w') :
    Wp rely ends (Memberships.load organizationId record : Tx R Membership) post ws w := by
  rw [Memberships.load, wp_bind, wp_read]
  exact fun w' hw ↦ wp_check (hrefuses.later hrely hw) fun membership hok ↦ h w' membership hw hok

/-- A membership is found by its row, and its roles are read later. -/
theorem wp_find {organizationId : Uuid} {p : MembershipRecord → Bool}
    {post : Option Membership → List Write → World Database Q S → Prop}
    (hnone : ∀ w', rely w w' → post none ws w')
    (hsome : ∀ w₁ w₂ record membership, rely w w₁ → rely w₁ w₂ →
      record ∈ (view ws w₁.db).memberships.rows → record.organizationId = organizationId →
      p record = true →
      membershipToDomain record
        (Memberships.rolesOf organizationId record.id (view ws w₂.db)) = .ok membership →
      post (some membership) ws w₂) :
    Wp rely ends (Memberships.find organizationId p : Tx R (Option Membership)) post ws w := by
  rw [Memberships.find, wp_bind, TableAt.wp_select_one]
  intro w₁ hw₁
  cases hfound : (membershipsTable.read (view ws w₁.db)).rows.find? fun row ↦
      row.organizationId == organizationId && p row with
  | none => exact hnone w₁ hw₁
  | some record =>
      have hrow := List.mem_of_find?_eq_some hfound
      have hmeets := List.find?_some hfound
      rw [Bool.and_eq_true, beq_iff_eq] at hmeets
      show Wp rely ends (Memberships.load organizationId record >>= fun m ↦ pure (some m)) post ws w₁
      rw [wp_bind]
      exact wp_load hrely (hrefuses.later hrely hw₁) fun w₂ membership hw₂ hok ↦
        hsome w₁ w₂ record membership hw₁ hw₂ hrow hmeets.1 hmeets.2 hok

/-- A link is inserted. -/
theorem wp_add_role {membershipId : Uuid} {role : Role}
    {post : Unit → List Write → World Database Q S → Prop}
    (h : ∀ w', rely w w' →
      post () (ws ++ [.membershipRoles (.insert ⟨membershipId, role.id⟩)]) w') :
    Wp rely ends (Memberships.addRole membershipId role : Tx R Unit) post ws w := by
  intro w' hw
  dsimp only
  split
  · exact wp_raise (hrefuses.later hrely hw)
  · exact h w' hw

/-- A link is inserted for each role. -/
theorem wp_each_add_role {membershipId : Uuid} {roles : List Role}
    {post : Unit → List Write → World Database Q S → Prop}
    (h : ∀ w', rely w w' →
      post () (ws ++ roles.map fun role ↦
        .membershipRoles (.insert ⟨membershipId, role.id⟩)) w') :
    Wp rely ends (Txn.each roles (Memberships.addRole membershipId) : Tx R Unit) post ws w := by
  induction roles generalizing ws w with
  | nil =>
      have := h w (hrely.refl w)
      rwa [List.map_nil, List.append_nil] at this
  | cons role roles ih =>
      show Wp rely ends (Memberships.addRole membershipId role >>= fun _ ↦
        Txn.each roles (Memberships.addRole membershipId)) post ws w
      rw [wp_bind]
      refine wp_add_role hrely hrefuses fun w' hw ↦ ih (hrefuses.later hrely hw) fun v hv ↦ ?_
      have := h v (hrely.trans hw hv)
      rwa [List.map_cons, List.append_cons] at this

/-- The writes that replace the roles of a membership. -/
def Reassigns (membershipId : Uuid) (roles : List Role) (us : List Write) : Prop :=
  ∃ deletions, (∀ u ∈ deletions, ∃ link : MembershipRole,
      link.membershipId = membershipId ∧ u = .membershipRoles (.delete (key link))) ∧
    us = deletions ++ roles.map fun role ↦ .membershipRoles (.insert ⟨membershipId, role.id⟩)

/-- An update that keeps the status and the time of joining replaces the roles. -/
theorem wp_update_membership {organizationId : Uuid} {loaded membership : Membership}
    {post : Unit → List Write → World Database Q S → Prop}
    (hsame : membership.status = loaded.status ∧ membership.joinedAt = loaded.joinedAt)
    (h : ∀ w' us, rely w w' → Reassigns membership.id membership.roles us → post () (ws ++ us) w') :
    Wp rely ends (Memberships.update organizationId loaded membership : Tx R Unit) post ws w := by
  rw [Memberships.update, wp_bind, TableAt.wp_select_one]
  intro w₁ hw₁
  cases (membershipsTable.read (view ws w₁.db)).rows.find? fun row ↦
      row.organizationId == organizationId && row.id == membership.id with
  | none => exact wp_raise (hrefuses.later hrely hw₁)
  | some record =>
      dsimp only
      rw [wp_bind, Memberships.updateRow, if_pos hsame, wp_pure, wp_bind]
      refine TableAt.wp_delete_where hrely fun w₂ _ deletions hw₂ hdeletions ↦ ?_
      have hw₂' := hrely.trans hw₁ hw₂
      rw [wp_bind]
      refine wp_each_add_role hrely (hrefuses.later hrely hw₂') fun w₃ hw₃ ↦ ?_
      have hw₃' := hrely.trans hw₂' hw₃
      rw [wp_bind]
      refine wp_load hrely (hrefuses.later hrely hw₃') fun w₄ _ hw₄ _ ↦ ?_
      rw [List.append_assoc]
      refine h w₄ _ (hrely.trans hw₃' hw₄) ⟨deletions, fun u hu ↦ ?_, rfl⟩
      obtain ⟨link, hlink, rfl⟩ := hdeletions u hu
      exact ⟨link, by simpa using hlink, rfl⟩

/-! ## Roles and the audit chain -/

/-- The roles a request names: rows of the tenant whose permissions the caller holds. -/
def Resolved (principal : Principal) (roleIds : List Uuid) (db : Database) (roles : List Role) :
    Prop :=
  ((db.roles.rows.filter fun row ↦
      row.organizationId == principal.organizationId && roleIds.contains row.id).mapM
    roleToDomain) = .ok roles ∧ grantedBy roles ⊆ principal.permissions

theorem wp_resolve_roles {principal : Principal} {roleIds : List Uuid}
    {post : List Role → List Write → World Database Q S → Prop}
    (h : ∀ w' roles, rely w w' → Resolved principal roleIds (view ws w'.db) roles →
      post roles ws w') :
    Wp rely ends (resolveRoles principal roleIds : Tx R (List Role)) post ws w := by
  rw [resolveRoles, wp_bind]
  refine wp_refuse_if hrefuses fun _ ↦ ?_
  rw [wp_bind, Roles.getMany, wp_bind, TableAt.wp_select]
  intro w₁ hw₁
  have hlater := hrefuses.later hrely hw₁
  refine wp_check hlater fun roles hroles ↦ ?_
  rw [wp_bind]
  refine wp_refuse_if hlater fun _ ↦ ?_
  rw [wp_bind]
  exact wp_check hlater fun _ hgrant ↦
    h w₁ roles hw₁ ⟨hroles, Principal.assert_can_grant_eq_ok hgrant⟩

/-- The role of a row of the tenant, with its row. -/
theorem wp_find_role {organizationId : Uuid} {p : RoleRecord → Bool}
    {post : Option (RoleRecord × Role) → List Write → World Database Q S → Prop}
    (hnone : ∀ w', rely w w' → post none ws w')
    (hsome : ∀ w' record role, rely w w' → record ∈ (view ws w'.db).roles.rows →
      record.organizationId = organizationId → p record = true →
      roleToDomain record = .ok role → post (some (record, role)) ws w') :
    Wp rely ends (Roles.find organizationId p : Tx R (Option (RoleRecord × Role))) post ws w := by
  rw [Roles.find, wp_bind, TableAt.wp_select_one]
  intro w₁ hw₁
  cases hfound : (rolesTable.read (view ws w₁.db)).rows.find? fun row ↦
      row.organizationId == organizationId && p row with
  | none => exact hnone w₁ hw₁
  | some record =>
      have hrow := List.mem_of_find?_eq_some hfound
      have hmeets := List.find?_some hfound
      rw [Bool.and_eq_true, beq_iff_eq] at hmeets
      show Wp rely ends (check (roleToDomain record) >>= fun role ↦ pure (some (record, role)))
        post ws w₁
      rw [wp_bind]
      exact wp_check (hrefuses.later hrely hw₁) fun role hok ↦
        hsome w₁ record role hw₁ hrow hmeets.1 hmeets.2 hok

/-- A write of the audit chain. -/
def Write.IsAudit : Write → Prop
  | .auditEvents _ | .auditLock _ => True
  | _ => False

omit hrely hrefuses in
/-- A write of the audit chain leaves every other table as it is. -/
theorem apply_of_is_audit {u : Write} (hu : u.IsAudit) (db : Database) :
    Store.apply db u = { db with auditEvents := (Store.apply db u).auditEvents } := by
  cases u <;> first | rfl | exact hu.elim

omit hrely hrefuses in
/-- So do several. -/
theorem view_of_audit {events : List Write} (hevents : ∀ u ∈ events, u.IsAudit) (db : Database) :
    view events db = { db with auditEvents := (view events db).auditEvents } := by
  induction events generalizing db with
  | nil => rfl
  | cons u us ih =>
      obtain ⟨hu, hus⟩ := List.forall_mem_cons.mp hevents
      show view us (Store.apply db u) = { db with auditEvents := (view us (Store.apply db u)).auditEvents }
      rw [apply_of_is_audit hu db]
      exact ih hus _

/-- An event is appended to the audit chain, and nothing else is written. -/
theorem wp_append {event : AuditEventRecord}
    {post : Unit → List Write → World Database Q S → Prop}
    (h : ∀ w' us, rely w w' → (∀ u ∈ us, u.IsAudit) → post () (ws ++ us) w') :
    Wp rely ends (Audit.append event : Tx R Unit) post ws w := by
  rw [Audit.append, wp_bind, wp_write]
  intro w₁ hw₁
  rw [wp_bind, wp_read]
  intro w₂ hw₂
  have hw₂' := hrely.trans hw₁ hw₂
  refine TableAt.wp_insert hrely (fun w₃ hw₃ ↦ hrefuses _ w₃ (hrely.trans hw₂' hw₃))
    fun w₃ hw₃ _ ↦ ?_
  rw [List.append_assoc]
  refine h w₃ _ (hrely.trans hw₂' hw₃) fun u hu ↦ ?_
  rcases List.mem_append.mp hu with hu | hu
  · rw [List.mem_singleton.mp hu]
    trivial
  · rw [List.mem_singleton.mp hu]
    trivial

end

/-- The next number of a chain is the number of none of its events. -/
theorem sequence_lt_next {organizationId : Uuid} {db : Database} {event : AuditEventRecord}
    (hevent : event ∈ db.auditEvents.rows) (horganization : event.organizationId = organizationId) :
    event.sequence < Audit.nextSequence organizationId db := by
  have hmax : ∀ (events : List AuditEventRecord) (n : Nat), n ≤ events.foldl
      (fun tail event ↦ max tail event.sequence) n ∧ ∀ event ∈ events, event.sequence ≤
        events.foldl (fun tail event ↦ max tail event.sequence) n := by
    intro events
    induction events with
    | nil => exact fun n ↦ ⟨le_rfl, nofun⟩
    | cons first events ih =>
        intro n
        obtain ⟨hle, hmem⟩ := ih (max n first.sequence)
        rw [List.foldl_cons, List.forall_mem_cons]
        exact ⟨(le_max_left _ _).trans hle, (le_max_right _ _).trans hle, hmem⟩
  have hmem : event ∈ db.auditEvents.rows.filter fun event ↦
      event.organizationId == organizationId :=
    List.mem_filter.mpr ⟨hevent, beq_iff_eq.mpr horganization⟩
  exact Nat.lt_succ_of_le ((hmax _ 0).2 event hmem)

/-- Alone, an event is always appended. -/
theorem wp_append_alone {event : AuditEventRecord}
    {post : Unit → List Write → World Database Q S → Prop}
    (h : ∀ us, (∀ u ∈ us, u.IsAudit) → post () (ws ++ us) w) :
    Wp (fun w w' ↦ w' = w) ends (Audit.append event : Tx R Unit) post ws w := by
  rw [Audit.append, wp_bind, wp_write]
  rintro _ rfl
  rw [wp_bind, wp_read]
  rintro _ rfl
  have hsequence : ∀ db : Database, auditEventsTable.violates
      { event with sequence := Audit.nextSequence event.organizationId db } db = false := by
    intro db
    refine List.any_eq_false.mpr fun old hold ↦ ?_
    have hkey : key old ≠ (event.organizationId, Audit.nextSequence event.organizationId db) := by
      intro hkey
      obtain ⟨horganization, hsequence⟩ := Prod.mk.inj hkey
      have hlt := sequence_lt_next hold horganization
      omega
    rw [Bool.or_eq_true, not_or]
    exact ⟨fun h ↦ hkey (LawfulBEq.eq_of_beq h), Bool.false_ne_true⟩
  refine TableAt.wp_insert_alone (hsequence _) ?_
  rw [List.append_assoc]
  refine h _ fun u hu ↦ ?_
  rcases List.mem_append.mp hu with hu | hu
  · rw [List.mem_singleton.mp hu]
    trivial
  · rw [List.mem_singleton.mp hu]
    trivial

end Aegis.Access
