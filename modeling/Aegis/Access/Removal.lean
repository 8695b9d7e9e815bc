import Aegis.Access.Members

/-!
# Removing a member, seen from other organizations

`RemoveMember` deletes a membership of its own organization and ends the sessions of the user. The
sessions are those of the user in every organization: `revoke_all_for_user` is the operation that a
change of the password uses. `remove_member_frame_iff` says when other organizations see nothing of
it.
-/

namespace Aegis.Access

open Aegis.Server Database Transaction

/-- Whether a link is of a membership of another organization. -/
def isForeignLink (organizationId : Uuid) (memberships : Table MembershipRecord)
    (link : MembershipRole) : Bool :=
  memberships.rows.any fun row ↦
    row.id == link.membershipId && row.organizationId != organizationId

/-- The memberships of other organizations, invitations among them, the roles they carry, and the
roles of other organizations. -/
def outsideMembers (organizationId : Uuid) (db : Database) :
    List MembershipRecord × List MembershipRole × List RoleRecord :=
  (db.memberships.rows.filter fun row ↦ row.organizationId != organizationId,
    db.membershipRoles.rows.filter (isForeignLink organizationId db.memberships),
    db.roles.rows.filter fun role ↦ role.organizationId != organizationId)

/-- The sessions of other organizations. -/
def outsideSessions (organizationId : Uuid) (db : Database) : List Session :=
  db.sessions.rows.filter fun session ↦ session.organizationId != organizationId

/-! ## What is written -/

/-- Deleting a membership of the organization is not seen by others. -/
theorem outside_members_delete {organizationId membershipId : Uuid} {db : Database}
    (h : ∀ row ∈ db.memberships.rows, row.id = membershipId → row.organizationId = organizationId) :
    outsideMembers organizationId (Store.apply db (.memberships (.delete membershipId))) =
      outsideMembers organizationId db := by
  have hmemberships : (db.memberships.delete membershipId).rows.filter
      (fun row ↦ row.organizationId != organizationId) =
      db.memberships.rows.filter fun row ↦ row.organizationId != organizationId := by
    show (db.memberships.rows.filter _).filter _ = _
    rw [List.filter_filter]
    refine List.filter_congr fun row hrow ↦ ?_
    by_cases hid : row.id = membershipId
    · simp [h row hrow hid]
    · have hkey : (key row == membershipId) = false := beq_false_of_ne hid
      simp [hkey]
  have hlinks : (db.membershipRoles.deleteIf fun link ↦ link.membershipId == membershipId).rows.filter
      (isForeignLink organizationId (db.memberships.delete membershipId)) =
      db.membershipRoles.rows.filter (isForeignLink organizationId db.memberships) := by
    show (db.membershipRoles.rows.filter _).filter _ = _
    rw [List.filter_filter]
    refine List.filter_congr fun link _ ↦ ?_
    rw [Bool.eq_iff_iff]
    simp only [isForeignLink, Bool.and_eq_true, List.any_eq_true, beq_iff_eq, bne_iff_ne,
      Bool.not_eq_true', beq_eq_false_iff_ne]
    constructor
    · rintro ⟨⟨row, hrow, hlink⟩, -⟩
      exact ⟨row, (Table.mem_delete.mp hrow).1, hlink⟩
    · rintro ⟨row, hrow, hid, hforeign⟩
      have hother : row.id ≠ membershipId := fun heq ↦ hforeign (h row hrow heq)
      exact ⟨⟨row, Table.mem_delete.mpr ⟨hrow, hother⟩, hid, hforeign⟩, hid ▸ hother⟩
  exact Prod.ext hmemberships (Prod.ext hlinks rfl)

/-- However often a membership of the organization is deleted, others do not see it, and the
sessions are as they were. -/
theorem outside_members_deletions {organizationId membershipId : Uuid} {deletions : List Write}
    (hdeletions : ∀ u ∈ deletions, u = .memberships (.delete membershipId)) {db : Database}
    (h : ∀ row ∈ db.memberships.rows, row.id = membershipId → row.organizationId = organizationId) :
    outsideMembers organizationId (view deletions db) = outsideMembers organizationId db := by
  induction deletions generalizing db with
  | nil => rfl
  | cons u us ih =>
      obtain ⟨rfl, hus⟩ := List.forall_mem_cons.mp hdeletions
      refine (ih hus fun row hrow ↦ h row (Table.mem_delete.mp hrow).1).trans ?_
      exact outside_members_delete h

/-- Others do not see what is written of sessions and of the audit chain. -/
theorem outside_members_view {organizationId : Uuid} {ws us : List Write} {db : Database}
    (h : ∀ u ∈ us, (∃ v, u = .sessions v) ∨ u.IsAudit) :
    outsideMembers organizationId (view (ws ++ us) db) =
      outsideMembers organizationId (view ws db) := by
  rw [view_append]
  refine view_congr (fun u hu d ↦ ?_) _
  rcases h u hu with ⟨v, rfl⟩ | haudit
  · rfl
  · rw [apply_of_is_audit haudit d]
    rfl

/-! ## What is left -/

/-- What `RemoveMember` leaves of other organizations, and of the sessions. -/
def Removes (organizationId userId : Uuid) (now : Instant) (db db' : Database) : Prop :=
  outsideMembers organizationId db' = outsideMembers organizationId db ∧
    db'.sessions.rows = db.sessions.rows.map fun session ↦
      if Sessions.revocable userId none session then
        (Sessions.revocation now (py "membership_removed")).run session
      else session

/-- A successful `RemoveMember` has found the membership in its organization, and leaves what
`Removes` says. -/
theorem removes_of_run {principal : Principal} {membershipId : Uuid} {now : Instant}
    {db : Database}
    (h : (run (RemoveMember.execute principal membershipId now) [] db).1 = (true, .ok ())) :
    ∃ row ∈ db.memberships.rows, row.id = membershipId ∧
      row.organizationId = principal.organizationId ∧
      Removes principal.organizationId row.userId now db
        (run (RemoveMember.execute principal membershipId now) [] db).2 := by
  -- What the transaction does when it commits; nothing is said of it when it does not.
  let ends : Bool → Except DomainError Unit → World Database Unit (Except DomainError Unit) →
      Database → Prop := fun committed _ w after ↦ committed = true →
    ∃ row ∈ w.db.memberships.rows, row.id = membershipId ∧
      row.organizationId = principal.organizationId ∧
      Removes principal.organizationId row.userId now w.db after
  have hrefuses : ∀ w, Refuses (fun w w' ↦ w' = w) ends w := fun _ _ _ _ hcommitted ↦
    nomatch hcommitted
  have hwp : Wp (fun w w' ↦ w' = w) ends (RemoveMember.execute principal membershipId now)
      (fun e _ _ ↦ e.elim) [] ⟨db, []⟩ := by
    refine wp_remove_member interference_eq (hrefuses _) ?_
    rintro _ _ _ _ loaded deletions rfl rfl rfl rfl hloaded hid - hdeletions
    obtain ⟨hrow, horganization⟩ := hloaded.mem_rows
    have hsame : ∀ row ∈ db.memberships.rows, row.id = membershipId →
        row.organizationId = principal.organizationId := by
      intro row hmem hrowId
      rw [Table.eq_of_key_eq hmem hrow (hrowId.trans hid.symm)]
      exact horganization
    have hsessions : (view deletions db).sessions = db.sessions :=
      view_congr (fun u hu d ↦ by rw [hdeletions u hu]; rfl) db
    rw [wp_bind]
    have hstable : ∀ w' : World Database Unit (Except DomainError Unit), w' = ⟨db, []⟩ →
        (sessionsTable.read (view deletions w'.db)).rows.filter
          (Sessions.revocable loaded.userId none) =
        (view deletions db).sessions.rows.filter (Sessions.revocable loaded.userId none) := by
      rintro _ rfl
      rfl
    refine TableAt.wp_update_where_stable interference_eq hstable ?_
    rintro _ rfl
    rw [wp_bind]
    refine wp_append interference_eq (hrefuses _) ?_
    rintro _ events rfl hevents _ rfl -
    refine ⟨membershipToRecord loaded, hrow, hid, horganization, ?_, ?_⟩
    · rw [List.append_assoc]
      refine (outside_members_view fun u hu ↦ ?_).trans
        (outside_members_deletions hdeletions hsame)
      rcases List.mem_append.mp hu with hu | hu
      · obtain ⟨k, -, rfl⟩ := List.mem_map.mp hu
        exact .inl ⟨_, rfl⟩
      · exact .inr (hevents u hu)
    · rw [view_append, view_of_audit hevents, view_append]
      refine (sessionsTable.rows_modify_where _ _ (view deletions db)).trans ?_
      show (view deletions db).sessions.rows.map _ = _
      rw [hsessions]
      rfl
  have hrun := hwp.run interference_eq
  rw [h] at hrun
  exact hrun rfl

/-- A list is as it was after a change of its items when no item is changed. -/
theorem map_ite_eq_self_iff {α : Type} {rows : List α} {p : α → Bool} {f : α → α}
    (hf : ∀ row, p row = true → f row ≠ row) :
    (rows.map fun row ↦ if p row then f row else row) = rows ↔ ∀ row ∈ rows, p row = false := by
  induction rows with
  | nil => simp
  | cons row rows ih =>
      rw [List.map_cons, List.cons.injEq, List.forall_mem_cons, ih]
      refine and_congr_left fun _ ↦ ?_
      cases hp : p row with
      | false => simp
      | true => simpa using hf row hp

/-- The removal of a member is not seen in other organizations exactly when the user has no session
there that is not revoked yet. -/
theorem remove_member_frame_iff {principal : Principal} {membershipId : Uuid} {now : Instant}
    {db : Database} {removed : MembershipRecord}
    (h : (run (RemoveMember.execute principal membershipId now) [] db).1 = (true, .ok ()))
    (hmem : removed ∈ db.memberships.rows) (hid : removed.id = membershipId) :
    (outsideSessions principal.organizationId
          (run (RemoveMember.execute principal membershipId now) [] db).2 =
        outsideSessions principal.organizationId db ∧
      outsideMembers principal.organizationId
          (run (RemoveMember.execute principal membershipId now) [] db).2 =
        outsideMembers principal.organizationId db) ↔
      ∀ session ∈ db.sessions.rows, session.userId = removed.userId →
        session.organizationId ≠ principal.organizationId → session.revokedAt ≠ none := by
  obtain ⟨row, hrow, hrowId, -, hmembers, hsessions⟩ := removes_of_run h
  obtain rfl : row = removed := Table.eq_of_key_eq hrow hmem (hrowId.trans hid.symm)
  rw [and_iff_left hmembers, outsideSessions, outsideSessions, hsessions, List.filter_map]
  -- A revocation keeps the organization, so the rows outside are changed among themselves.
  have houtside : ((fun session : Session ↦ session.organizationId != principal.organizationId) ∘
      fun session ↦ if Sessions.revocable row.userId none session then
        (Sessions.revocation now (py "membership_removed")).run session else session) =
      fun session ↦ session.organizationId != principal.organizationId := by
    funext session
    show ((if _ then _ else _ : Session).organizationId != _) = _
    split <;> rfl
  rw [houtside, map_ite_eq_self_iff]
  · simp only [List.mem_filter, Sessions.revocable, bne_iff_ne, Option.all_none, Bool.and_true,
      Bool.and_eq_false_iff, beq_eq_false_iff_ne, Option.isNone_eq_false_iff,
      Option.isSome_iff_ne_none]
    constructor
    · intro hkept session hsession huser horganization
      exact (hkept session ⟨hsession, horganization⟩).resolve_left fun hne ↦ hne huser
    · rintro hkept session ⟨hsession, horganization⟩
      exact or_iff_not_imp_left.mpr fun huser ↦
        hkept session hsession (not_not.mp huser) horganization
  · intro session hrevocable hsame
    have hrevoked : session.revokedAt = some now := by
      rw [← hsame]
      rfl
    simp [Sessions.revocable, hrevoked] at hrevocable

/-! ## A member of two organizations -/

/-- A session of user 11 that is neither rotated nor revoked. -/
def sessionOf (id organizationId : Uuid) : Session :=
  Session.start id 11 organizationId id.toNat 1000 0 ⟨[], none, []⟩

/-- User 11 is a member of the organizations 1 and 2, and signed in to the organizations given. -/
def twoOrganizations (signedIn : List Uuid) (h : (signedIn.map fun id ↦ sessionOf id id).map
    (key : Session → Uuid) |>.Nodup) : Database :=
  { Database.empty with
    memberships := ⟨[⟨100, 1, 10, .ACTIVE, none, none⟩, ⟨101, 1, 11, .ACTIVE, none, none⟩,
      ⟨102, 2, 11, .ACTIVE, none, none⟩], by decide⟩
    sessions := ⟨signedIn.map fun id ↦ sessionOf id id, h⟩ }

/-- Removed from organization 1, the user is signed out of organization 2. -/
theorem removal_ends_session_elsewhere :
    (run (RemoveMember.execute ownerPrincipal 101 5) []
        (twoOrganizations [1, 2] (by decide))).1 = (true, .ok ()) ∧
      (∃ session ∈ outsideSessions 1 (twoOrganizations [1, 2] (by decide)),
        session.isActive 5 = true) ∧
      ∀ session ∈ outsideSessions 1 (run (RemoveMember.execute ownerPrincipal 101 5) []
        (twoOrganizations [1, 2] (by decide))).2, session.isActive 5 = false := by
  decide +kernel

/-- Signed in to organization 1 only, the user is removed without others seeing it. -/
theorem removal_of_local_session :
    (outsideSessions 1 (run (RemoveMember.execute ownerPrincipal 101 5) []
          (twoOrganizations [1] (by decide))).2 =
        outsideSessions 1 (twoOrganizations [1] (by decide)) ∧
      outsideMembers 1 (run (RemoveMember.execute ownerPrincipal 101 5) []
          (twoOrganizations [1] (by decide))).2 =
        outsideMembers 1 (twoOrganizations [1] (by decide))) ↔
      ∀ session ∈ (twoOrganizations [1] (by decide)).sessions.rows, session.userId = 11 →
        session.organizationId ≠ 1 → session.revokedAt ≠ none :=
  @remove_member_frame_iff ownerPrincipal 101 5 (twoOrganizations [1] (by decide))
    ⟨101, 1, 11, .ACTIVE, none, none⟩ (by decide +kernel) (by decide +kernel) rfl

end Aegis.Access
