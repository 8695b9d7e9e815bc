import Aegis.Access.Rules

/-!
# What the member use cases do

One rule for each of `InviteMember`, `UpdateMemberRoles` and `RemoveMember`: what it has read, and
when, and what it has written by the time it commits. Whatever ends it earlier ends it with an
error and nothing written.
-/

namespace Aegis.Access

open Aegis.Server Database Transaction

variable {R S Q : Type} {ws : List Write}

/-- A membership as two statements read it: its row in one state, its roles in another. -/
structure LoadedFrom (organizationId : Uuid) (membership : Membership) (rowAt rolesAt : Database) :
    Prop where
  /-- The row of the membership is a row of the organization. -/
  row : ∃ record ∈ rowAt.memberships.rows, record.organizationId = organizationId ∧
    membershipToDomain record (Memberships.rolesOf organizationId record.id rolesAt) = .ok membership

namespace LoadedFrom

variable {organizationId : Uuid} {membership : Membership} {rowAt rolesAt : Database}

/-- The row is the row of the membership. -/
theorem mem_rows (h : LoadedFrom organizationId membership rowAt rolesAt) :
    membershipToRecord membership ∈ rowAt.memberships.rows ∧
      membership.organizationId = organizationId := by
  obtain ⟨record, hrow, horganization, hdomain⟩ := h.row
  obtain ⟨roles, -, rfl⟩ := membership_to_domain_eq_ok hdomain
  exact ⟨hrow, horganization⟩

/-- The roles are those of the rows that the links of the membership lead to. -/
theorem roles_eq (h : LoadedFrom organizationId membership rowAt rolesAt) :
    (Memberships.rolesOf organizationId membership.id rolesAt).mapM roleToDomain =
      .ok membership.roles := by
  obtain ⟨record, -, -, hdomain⟩ := h.row
  obtain ⟨roles, hroles, rfl⟩ := membership_to_domain_eq_ok hdomain
  exact hroles

end LoadedFrom

section
variable {rely : World Database Q S → World Database Q S → Prop}
variable {ends : Bool → Except DomainError R → World Database Q S →
  Database → Prop}
variable {w : World Database Q S}
variable (hrely : Interference rely) (hrefuses : Refuses rely ends w)
include hrely hrefuses

/-- The owners are counted only when one is about to lose the role. -/
theorem wp_retain_owner {organizationId : Uuid} {taken : Bool}
    {post : Unit → List Write → World Database Q S → Prop}
    (h : ∀ w', rely w w' →
      (taken = true → 2 ≤ Memberships.ownerCount organizationId (view ws w'.db)) →
      post () ws w') :
    Wp rely ends (retainOwner organizationId taken : Tx R Unit) post ws w := by
  cases taken with
  | false => exact h w (hrely.refl w) fun hfalse ↦ nomatch hfalse
  | true =>
      rw [retainOwner, if_pos rfl, wp_bind, Memberships.countOwners, wp_read]
      intro w' hw
      refine wp_refuse_if (hrefuses.later hrely hw) fun hcount ↦ h w' hw fun _ ↦ ?_
      rw [decide_eq_false_iff_not] at hcount
      omega

/-- A membership of the tenant is read by its identifier, or the transaction ends. -/
theorem wp_get_membership {organizationId membershipId : Uuid}
    {post : Option Membership → List Write → World Database Q S → Prop}
    (hnone : ∀ w', rely w w' → post none ws w')
    (hsome : ∀ w₁ w₂ membership, rely w w₁ → rely w₁ w₂ →
      LoadedFrom organizationId membership (view ws w₁.db) (view ws w₂.db) →
      membership.id = membershipId → post (some membership) ws w₂) :
    Wp rely ends (Memberships.get organizationId membershipId : Tx R (Option Membership))
      post ws w := by
  refine wp_find hrely hrefuses hnone
    fun w₁ w₂ record membership hw₁ hw₂ hrow horganization hid hdomain ↦ ?_
  refine hsome w₁ w₂ membership hw₁ hw₂ ⟨record, hrow, horganization, hdomain⟩ ?_
  obtain ⟨roles, -, rfl⟩ := membership_to_domain_eq_ok hdomain
  exact beq_iff_eq.mp hid

end

/-! ## The use cases -/

section
variable {rely : World Database Q S → World Database Q S → Prop}
variable {ends : Bool → Except DomainError MemberSummary →
  World Database Q S → Database → Prop}
variable {w : World Database Q S}
variable (hrely : Interference rely) (hrefuses : Refuses rely ends w)
include hrely hrefuses

/-- `UpdateMemberRoles` has read the membership, then the roles to assign, then the owners when the
membership is to lose the role. It replaces the links of the membership. -/
theorem wp_update_member_roles {principal : Principal} {membershipId : Uuid} {roleIds : List Uuid}
    {post : Empty → List Write → World Database Q S → Prop}
    (h : ∀ w₁ w₂ w₃ w₄ w₅ loaded roles changes events summary, rely w w₁ → rely w₁ w₂ →
      rely w₂ w₃ → rely w₃ w₄ → rely w₄ w₅ →
      LoadedFrom principal.organizationId loaded w₁.db w₂.db → loaded.id = membershipId →
      Resolved principal roleIds w₃.db roles →
      (loaded.isOwner = true → roles.any Role.isOwnerRole = false →
        2 ≤ Memberships.ownerCount principal.organizationId w₄.db) →
      Reassigns membershipId roles changes → (∀ u ∈ events, u.IsAudit) →
      ends true (.ok summary) w₅ (view (changes ++ events) w₅.db)) :
    Wp rely ends (UpdateMemberRoles.execute principal membershipId roleIds) post [] w := by
  rw [UpdateMemberRoles.execute, wp_bind]
  refine wp_check hrefuses fun _ _ ↦ ?_
  rw [wp_bind]
  refine wp_get_membership hrely hrefuses (fun w₁ hw₁ ↦ wp_raise (hrefuses.later hrely hw₁))
    fun w₁ w₂ loaded hw₁ hw₂ hloaded hid ↦ ?_
  have hlater₂ := hrefuses.later hrely (hrely.trans hw₁ hw₂)
  show Wp rely ends (resolveRoles principal roleIds >>= _) _ _ _
  rw [wp_bind]
  refine wp_resolve_roles hrely hlater₂ fun w₃ roles hw₃ hresolved ↦ ?_
  have hlater₃ := hlater₂.later hrely hw₃
  rw [wp_bind]
  refine wp_check hlater₃ fun membership hassigned ↦ ?_
  obtain rfl := Membership.assign_roles_eq_ok hassigned
  rw [wp_bind]
  refine wp_retain_owner hrely hlater₃ fun w₄ hw₄ hcount ↦ ?_
  have hlater₄ := hlater₃.later hrely hw₄
  rw [wp_bind]
  refine wp_update_membership hrely hlater₄ ⟨rfl, rfl⟩ fun w₅ changes hw₅ hchanges ↦ ?_
  have hlater₅ := hlater₄.later hrely hw₅
  rw [wp_bind, Users.get, TableAt.wp_select_one]
  intro w₆ hw₆
  have hlater₆ := hlater₅.later hrely hw₆
  split
  · rw [wp_bind]
    refine wp_append hrely hlater₆ fun w₇ events hw₇ hevents ↦ ?_
    intro w₈ hw₈
    have hw : rely w₄ w₈ := hrely.trans (hrely.trans (hrely.trans hw₅ hw₆) hw₇) hw₈
    rw [List.nil_append]
    refine h w₁ w₂ w₃ w₄ w₈ loaded roles changes events _ hw₁ hw₂ hw₃ hw₄ hw hloaded hid hresolved
      (fun howner hlost ↦ hcount ?_) (hid ▸ hchanges) hevents
    show (loaded.isOwner && !roles.any Role.isOwnerRole) = true
    rw [howner, hlost]
    rfl
  · exact wp_raise hlater₆

/-- The licence lets the invitation go on, or ends it. -/
theorem wp_check_license {organizationId : Uuid}
    {post : Unit → List Write → World Database Q S → Prop}
    (h : ∀ w', rely w w' → post () ws w') :
    Wp rely ends (InviteMember.checkLicense organizationId : Tx MemberSummary Unit) post ws w := by
  rw [InviteMember.checkLicense, wp_bind, Licenses.getForOrganization, wp_read]
  intro w₁ hw₁
  split
  · exact h w₁ hw₁
  · rw [wp_bind, Memberships.count, TableAt.wp_count]
    intro w₂ hw₂
    exact wp_check (hrefuses.later hrely (hrely.trans hw₁ hw₂)) fun _ _ ↦ h w₂ (hrely.trans hw₁ hw₂)

/-- The user is there, or is inserted. -/
theorem wp_invitee {address fullName : PyStr} {userId : Uuid}
    {post : User → List Write → World Database Q S → Prop}
    (h : ∀ w' user newUsers, rely w w' →
      (∀ u ∈ newUsers, ∃ user : User, u = Write.users (.insert user)) →
      post user (ws ++ newUsers) w') :
    Wp rely ends (InviteMember.invitee address fullName userId : Tx MemberSummary User)
      post ws w := by
  rw [InviteMember.invitee, wp_bind, Users.getByEmail, TableAt.wp_select_one]
  intro w₁ hw₁
  split
  · have := h w₁ ‹User› [] hw₁ (by simp)
    rwa [List.append_nil] at this
  · rw [wp_bind]
    refine TableAt.wp_insert hrely (fun w' hw ↦ hrefuses _ w' (hrely.trans hw₁ hw))
      fun w₂ hw₂ _ ↦ ?_
    exact h w₂ _ _ (hrely.trans hw₁ hw₂) fun u hu ↦ ⟨_, List.mem_singleton.mp hu⟩

/-- The membership is inserted with its links. -/
theorem wp_invite {principal : Principal} {roles : List Role} {membershipId : Uuid} {user : User}
    {post : Empty → List Write → World Database Q S → Prop}
    (h : ∀ w₁ w₂ record events summary, rely w w₁ → rely w₁ w₂ →
      record.id = membershipId → record.organizationId = principal.organizationId →
      record.status = .INVITED → membershipsTable.violates record (view ws w₁.db) = false →
      (∀ u ∈ events, u.IsAudit) →
      ends true (.ok summary) w₂ (view (ws ++ (.memberships (.insert record) ::
        (roles.map fun role ↦ .membershipRoles (.insert ⟨membershipId, role.id⟩)) ++ events))
        w₂.db)) :
    Wp rely ends (InviteMember.invite principal roles membershipId user) post ws w := by
  rw [InviteMember.invite, wp_bind]
  have hrest : ∀ w' (existing : Option Membership), rely w w' → Wp rely ends (do
      refuseIf existing.isSome
        (.ConflictError (py "This person is already a member of the organization."))
      let membership ← check (Membership.make membershipId principal.organizationId user.id roles
        .INVITED principal.userId none)
      Memberships.add membership
      Audit.record principal (py "member.invited") (py "membership") (some membership.id)
      .commit (.ok (memberSummary membership user))) post ws w' := by
    intro w₁ existing hw₁
    have hlater₁ := hrefuses.later hrely hw₁
    rw [wp_bind]
    refine wp_refuse_if hlater₁ fun _ ↦ ?_
    rw [wp_bind]
    refine wp_check hlater₁ fun membership hmake ↦ ?_
    obtain rfl := Membership.make_eq_ok hmake
    rw [wp_bind, Memberships.add, wp_bind]
    refine TableAt.wp_insert hrely (fun w' hw ↦ hlater₁ _ w' hw) fun w₂ hw₂ hviolates ↦ ?_
    have hlater₂ := hlater₁.later hrely hw₂
    rw [wp_bind]
    refine wp_each_add_role hrely hlater₂ fun w₃ hw₃ ↦ ?_
    have hlater₃ := hlater₂.later hrely hw₃
    rw [wp_bind]
    refine wp_load hrely hlater₃ fun w₄ _ hw₄ _ ↦ ?_
    have hlater₄ := hlater₃.later hrely hw₄
    rw [wp_pure, wp_bind]
    refine wp_append hrely hlater₄ fun w₅ events hw₅ hevents ↦ ?_
    intro w₆ hw₆
    have hlast := hrely.trans (hrely.trans (hrely.trans hw₃ hw₄) hw₅) hw₆
    simp only [List.append_assoc, List.cons_append, List.nil_append]
    exact h w₂ w₆ _ events _ (hrely.trans hw₁ hw₂) hlast rfl rfl rfl hviolates hevents
  exact wp_find hrely hrefuses (fun w' hw ↦ hrest w' none hw)
    fun w₁ w₂ _ membership hw₁ hw₂ _ _ _ _ ↦ hrest w₂ (some membership) (hrely.trans hw₁ hw₂)

/-- `InviteMember` has read the roles to assign. It inserts a membership with these roles, and the
user when there was none. -/
theorem wp_invite_member {unicode : Unicode} {principal : Principal} {email fullName : PyStr}
    {roleIds : List Uuid} {userId membershipId : Uuid}
    {post : Empty → List Write → World Database Q S → Prop}
    (h : ∀ w₁ w₂ w₃ roles newUsers record events summary, rely w w₁ → rely w₁ w₂ → rely w₂ w₃ →
      Resolved principal roleIds w₁.db roles →
      (∀ u ∈ newUsers, ∃ user, u = .users (.insert user)) →
      record.id = membershipId → record.organizationId = principal.organizationId →
      record.status = .INVITED →
      membershipsTable.violates record (view newUsers w₂.db) = false →
      (∀ u ∈ events, u.IsAudit) →
      ends true (.ok summary) w₃ (view (newUsers ++ (.memberships (.insert record) ::
        (roles.map fun role ↦ .membershipRoles (.insert ⟨membershipId, role.id⟩)) ++ events))
        w₃.db)) :
    Wp rely ends
      (InviteMember.execute unicode principal email fullName roleIds userId membershipId)
      post [] w := by
  rw [InviteMember.execute, wp_bind]
  refine wp_check hrefuses fun _ _ ↦ ?_
  rw [wp_bind]
  refine wp_check hrefuses fun address _ ↦ ?_
  rw [wp_bind]
  refine wp_resolve_roles hrely hrefuses fun w₁ roles hw₁ hresolved ↦ ?_
  have hlater₁ := hrefuses.later hrely hw₁
  rw [wp_bind]
  refine wp_check_license hrely hlater₁ fun w₂ hw₂ ↦ ?_
  have hlater₂ := hlater₁.later hrely hw₂
  rw [wp_bind]
  refine wp_invitee hrely hlater₂ fun w₃ user newUsers hw₃ hnewUsers ↦ ?_
  rw [List.nil_append]
  refine wp_invite hrely (hlater₂.later hrely hw₃) fun w₄ w₅ record events summary hw₄ hw₅ ↦ ?_
  exact h w₁ w₄ w₅ roles newUsers record events summary hw₁
    (hrely.trans (hrely.trans hw₂ hw₃) hw₄) hw₅ hresolved hnewUsers

end

section
variable {rely : World Database Q S → World Database Q S → Prop}
variable {ends : Bool → Except DomainError Unit → World Database Q S →
  Database → Prop}
variable {w : World Database Q S}
variable (hrely : Interference rely) (hrefuses : Refuses rely ends w)
include hrely hrefuses

/-- `RemoveMember` has read the membership, then the owners when the membership holds the role. It
deletes the row, and goes on to revoke sessions. -/
theorem wp_remove_member {principal : Principal} {membershipId : Uuid} {now : Instant}
    {post : Empty → List Write → World Database Q S → Prop}
    (h : ∀ w₁ w₂ w₃ w₄ loaded deletions, rely w w₁ → rely w₁ w₂ → rely w₂ w₃ → rely w₃ w₄ →
      LoadedFrom principal.organizationId loaded w₁.db w₂.db → loaded.id = membershipId →
      (loaded.isOwner = true → 2 ≤ Memberships.ownerCount principal.organizationId w₃.db) →
      (∀ u ∈ deletions, u = .memberships (.delete membershipId)) →
      Wp rely ends (do
        let _ ← Sessions.revokeAllForUser loaded.userId now (py "membership_removed") none
        Audit.record principal (py "member.removed") (py "membership") (some membershipId)
        .commit (.ok ())) post deletions w₄) :
    Wp rely ends (RemoveMember.execute principal membershipId now) post [] w := by
  rw [RemoveMember.execute, wp_bind]
  refine wp_check hrefuses fun _ _ ↦ ?_
  rw [wp_bind]
  refine wp_get_membership hrely hrefuses (fun w₁ hw₁ ↦ wp_raise (hrefuses.later hrely hw₁))
    fun w₁ w₂ loaded hw₁ hw₂ hloaded hid ↦ ?_
  have hlater₂ := hrefuses.later hrely (hrely.trans hw₁ hw₂)
  show Wp rely ends (refuseIf _ _ >>= _) _ _ _
  rw [wp_bind]
  refine wp_refuse_if hlater₂ fun _ ↦ ?_
  rw [wp_bind]
  refine wp_retain_owner hrely hlater₂ fun w₃ hw₃ hcount ↦ ?_
  rw [wp_bind, Memberships.delete, wp_bind]
  refine TableAt.wp_delete_where hrely fun w₄ _ deletions hw₄ hdeletions ↦ ?_
  rw [wp_pure, List.nil_append]
  refine h w₁ w₂ w₃ w₄ loaded deletions hw₁ hw₂ hw₃ hw₄ hloaded hid hcount fun u hu ↦ ?_
  obtain ⟨row, hrow, rfl⟩ := hdeletions u hu
  rw [Bool.and_eq_true, beq_iff_eq] at hrow
  rw [← hrow.1]
  rfl

end

end Aegis.Access
