import Aegis.Access.Members
import Aegis.Api.Listing
import Aegis.Lib.Twin

/-!
# Invitations and existing accounts

`InviteMember` answers with the account it has found or made, and `ListMembers` shows that account
from then on. Two databases that differ in the account of the invited address, and in what belongs
to that account outside the organization, therefore look the same to the organization just when the
invitation is refused before the address is looked up, or what is shown of the two accounts is the
same; a new account has the name that was submitted, and has never signed in
(`invitation_hides_account_iff`).
-/

namespace Aegis.Access

open Aegis.Server Database Transaction Keyset

/-! ## Listing members -/

/-- A page of members. -/
structure MemberPage where
  items : List MemberSummary
  nextCursor : Option PyStr
  limit : Nat
  deriving DecidableEq

section
variable {R : Type} (lib : Library) (createdAt : Uuid → Instant)

namespace Memberships

/-- The order of the list, by the times the rows were inserted. -/
def listKey (row : MembershipRecord) : Instant ×ₗ Nat :=
  toLex (createdAt row.id, row.id.toNat)

/-- The condition that a row comes after the one of the cursor. -/
def after (position : Instant × Uuid) (row : MembershipRecord) : Bool :=
  position.1 < createdAt row.id ||
    (createdAt row.id = position.1 && position.2.toNat < row.id.toNat)

/-- The rows that a query of the list reads: one more than the page has. -/
def listed (organizationId : Uuid) (limit : Nat) (position : Option (Instant × Uuid))
    (db : Database) : List MembershipRecord :=
  (ordered (listKey createdAt) (db.memberships.rows.filter fun row ↦
    row.organizationId == organizationId && position.all (after createdAt · row))).take (limit + 1)

/-- `memberships.list_all(limit=limit, cursor=cursor)`. -/
def listAll (organizationId : Uuid) (limit : Nat) (cursor : Option PyStr) :
    Tx R (List Membership × Option PyStr) := do
  let position ← check (Api.timePosition lib cursor)
  let rows ← Txn.read (listed createdAt organizationId limit position)
  let loaded ← Txn.read fun db ↦ rows.map fun row ↦ (row, rolesOf organizationId row.id db)
  let (page, last) := trim limit loaded
  let memberships ← check (page.mapM fun record ↦ membershipToDomain record.1 record.2)
  pure (memberships, last.map fun record ↦ Api.encodeCursor (createdAt record.1.id) record.1.id)

end Memberships

/-- The summaries of the members whose users are there. -/
def summarize : List Membership → Tx R (List MemberSummary)
  | [] => pure []
  | membership :: memberships => do
      let user ← Users.get membership.userId
      let rest ← summarize memberships
      pure ((user.map (memberSummary membership)).toList ++ rest)

/-- `ListMembers.execute(…)`. -/
def ListMembers.execute (principal : Principal) (limit : Nat) (cursor : Option PyStr) :
    Tx MemberPage Empty := do
  check (principal.require .ORG_READ)
  let (memberships, nextCursor) ← Memberships.listAll lib createdAt principal.organizationId limit
    cursor
  let summaries ← summarize memberships
  .abort (.ok ⟨summaries, nextCursor, limit⟩)

/-- The rows that a query of the list reads, with the roles that are loaded for them. -/
def loadedRows (organizationId : Uuid) (limit : Nat) (position : Option (Instant × Uuid))
    (db : Database) : List (MembershipRecord × List RoleRecord) :=
  (Memberships.listed createdAt organizationId limit position db).map fun row ↦
    (row, Memberships.rolesOf organizationId row.id db)

/-- The memberships of a page and the next cursor. -/
def pageOf (limit : Nat) (loaded : List (MembershipRecord × List RoleRecord)) :
    Except DomainError (List Membership × Option PyStr) :=
  ((trim limit loaded).1.mapM fun record ↦ membershipToDomain record.1 record.2).map
    fun memberships ↦ (memberships, (trim limit loaded).2.map fun record ↦
      Api.encodeCursor (createdAt record.1.id) record.1.id)

/-- The summaries of the members whose users are in a database. -/
def summaries (memberships : List Membership) (db : Database) : List MemberSummary :=
  memberships.filterMap fun membership ↦
    (db.users.find? membership.userId).map (memberSummary membership)

/-- What `ListMembers` answers in a database. -/
def memberPage (principal : Principal) (limit : Nat) (cursor : Option PyStr) (db : Database) :
    Except DomainError MemberPage :=
  (principal.require .ORG_READ).bind fun _ ↦ (Api.timePosition lib cursor).bind fun position ↦
    (pageOf createdAt limit (loadedRows createdAt principal.organizationId limit position db)).map
      fun page ↦ ⟨summaries page.1 db, page.2, limit⟩

end

section
variable {R α β : Type}

/-- Alone, the transaction reads a value, or is refused, and writes nothing. -/
def Reads (p : Tx R α) (f : Database → Except DomainError α) : Prop :=
  ∀ db, eval p [] db =
    match f db with
    | .ok a => .ok (a, [])
    | .error e => .error ⟨false, .error e, []⟩

theorem reads_check (x : Except DomainError α) : Reads (check x : Tx R α) fun _ ↦ x := by
  intro db
  cases x <;> rfl

theorem reads_read (f : Database → α) : Reads (Txn.read f : Tx R α) fun db ↦ .ok (f db) :=
  fun _ ↦ rfl

theorem reads_pure (a : α) : Reads (pure a : Tx R α) fun _ ↦ .ok a :=
  fun _ ↦ rfl

/-- One after another. -/
theorem Reads.bind {p : Tx R α} {f : Database → Except DomainError α} {k : α → Tx R β}
    {g : α → Database → Except DomainError β} (hp : Reads p f) (hk : ∀ a, Reads (k a) (g a)) :
    Reads (p >>= k) fun db ↦ f db >>= fun a ↦ g a db := by
  intro db
  rw [eval_bind, hp db]
  dsimp only
  cases f db with
  | error e => rfl
  | ok a => exact hk a db

/-- What only reads is followed by what it is followed by, or is refused. -/
theorem Reads.run_bind {p : Tx R α} {f : Database → Except DomainError α} (hp : Reads p f)
    (k : α → Tx R Empty) (db : Database) :
    run (p >>= k) [] db =
      match f db with
      | .ok a => run (k a) [] db
      | .error e => ((false, .error e), db) := by
  have heval := hp db
  cases hf : f db with
  | error e =>
      rw [hf] at heval
      rw [run_bind_of_ended heval]
      rfl
  | ok a =>
      rw [hf] at heval
      rw [run_bind_of_eval heval]

/-- The memberships are read with one statement for the rows and one for the roles. -/
theorem reads_list_all (lib : Library) (createdAt : Uuid → Instant) (organizationId : Uuid)
    (limit : Nat) (cursor : Option PyStr) :
    Reads (Memberships.listAll lib createdAt organizationId limit cursor : Tx R _) fun db ↦
      (Api.timePosition lib cursor).bind fun position ↦
        pageOf createdAt limit (loadedRows createdAt organizationId limit position db) := by
  intro db
  dsimp only
  rw [Memberships.listAll]
  cases Api.timePosition lib cursor with
  | error e => rfl
  | ok position =>
      show eval (check ((trim limit (loadedRows createdAt organizationId limit position db)).1.mapM
        fun record ↦ membershipToDomain record.1 record.2) >>= _) [] db = _
      unfold Except.bind pageOf
      dsimp only
      cases (trim limit (loadedRows createdAt organizationId limit position db)).1.mapM
        fun record ↦ membershipToDomain record.1 record.2 <;> rfl

/-- The users are read one after another. -/
theorem reads_summarize (memberships : List Membership) :
    Reads (summarize memberships : Tx R _) fun db ↦ .ok (summaries memberships db) := by
  induction memberships with
  | nil => exact reads_pure []
  | cons membership memberships ih =>
      intro db
      have huser : Reads (Users.get membership.userId : Tx R _) fun db ↦
          .ok (db.users.find? membership.userId) := reads_read _
      refine (huser.bind (fun _ ↦ ih.bind fun _ ↦ reads_pure _) db).trans ?_
      show Except.ok (((db.users.find? membership.userId).map _).toList ++ _, _) =
        Except.ok (List.filterMap _ (membership :: memberships), _)
      rw [List.filterMap_cons]
      cases db.users.find? membership.userId <;> rfl

/-- `ListMembers` reads its answer and leaves everything as it is. -/
theorem run_list_members (lib : Library) (createdAt : Uuid → Instant) (principal : Principal)
    (limit : Nat) (cursor : Option PyStr) (db : Database) :
    run (ListMembers.execute lib createdAt principal limit cursor) [] db =
      ((false, memberPage lib createdAt principal limit cursor db), db) := by
  rw [ListMembers.execute, (reads_check _).run_bind, memberPage]
  cases principal.require .ORG_READ with
  | error e => rfl
  | ok _ =>
      show run (Memberships.listAll _ _ _ _ _ >>= _) [] db = _
      rw [(reads_list_all lib createdAt _ _ _).run_bind]
      cases Api.timePosition lib cursor with
      | error e => rfl
      | ok position =>
          unfold Except.bind
          dsimp only
          cases pageOf createdAt limit
            (loadedRows createdAt principal.organizationId limit position db) with
          | error e => rfl
          | ok page =>
              show run (summarize page.1 >>= _) [] db = _
              rw [(reads_summarize _).run_bind]
              rfl

end

/-! ## Two databases that look the same to an organization -/

/-- The identifiers of one run in another, which has an account where the first has drawn an
identifier for a new one. -/
def renamed (drawn account userId : Uuid) : Uuid :=
  if userId = drawn then account else userId

def MembershipRecord.rename (f : Uuid → Uuid) (row : MembershipRecord) : MembershipRecord :=
  { row with userId := f row.userId }

def Membership.rename (f : Uuid → Uuid) (membership : Membership) : Membership :=
  { membership with userId := f membership.userId }

def MemberSummary.rename (f : Uuid → Uuid) (summary : MemberSummary) : MemberSummary :=
  { summary with userId := f summary.userId }

def MemberPage.rename (f : Uuid → Uuid) (page : MemberPage) : MemberPage :=
  { page with items := page.items.map (MemberSummary.rename f) }

/-- What a summary shows of a user other than the identifier. -/
def User.profile (user : User) : PyStr × PyStr × Option Instant :=
  (user.email, user.fullName, user.lastLoginAt)

/-- What the organization sees of the two databases is the same, but for the identifier of one
user. -/
structure Alike (organizationId drawn account : Uuid) (db db' : Database) : Prop where
  memberships : (db'.memberships.rows.filter fun row ↦ row.organizationId == organizationId) =
    (db.memberships.rows.filter fun row ↦ row.organizationId == organizationId).map
      (MembershipRecord.rename (renamed drawn account))
  roles : db'.roles = db.roles
  links : ∀ row ∈ db.memberships.rows, row.organizationId = organizationId → ∀ roleId,
    ⟨row.id, roleId⟩ ∈ db'.membershipRoles.rows ↔ ⟨row.id, roleId⟩ ∈ db.membershipRoles.rows
  others : ∀ userId, userId ≠ drawn → userId ≠ account →
    db'.users.find? userId = db.users.find? userId
  invited : ∀ row ∈ db.memberships.rows, row.organizationId = organizationId →
    row.userId = drawn →
      (db'.users.find? account).map User.profile = (db.users.find? drawn).map User.profile
  stranger : ∀ row ∈ db.memberships.rows, row.organizationId = organizationId →
    row.userId ≠ drawn → row.userId ≠ account

section
variable {organizationId drawn account : Uuid} {db db' : Database}

/-- Equal roles and links give a membership equal roles. -/
theorem roles_of_congr {membershipId : Uuid} (hroles : db'.roles = db.roles)
    (hlinks : ∀ roleId, ⟨membershipId, roleId⟩ ∈ db'.membershipRoles.rows ↔
      ⟨membershipId, roleId⟩ ∈ db.membershipRoles.rows) :
    Memberships.rolesOf organizationId membershipId db' =
      Memberships.rolesOf organizationId membershipId db := by
  unfold Memberships.rolesOf
  rw [hroles]
  refine List.filter_congr fun role _ ↦ congrArg _ ?_
  have hany : ∀ links : List MembershipRole, (links.any fun link ↦
      link.membershipId == membershipId && link.roleId == role.id) = true ↔
        ⟨membershipId, role.id⟩ ∈ links := by
    intro links
    rw [List.any_eq_true]
    constructor
    · rintro ⟨link, hmem, hmeets⟩
      rw [Bool.and_eq_true, beq_iff_eq, beq_iff_eq] at hmeets
      obtain ⟨rfl, hrole⟩ := hmeets
      rwa [← hrole]
    · exact fun hmem ↦ ⟨_, hmem, by simp⟩
  rw [Bool.eq_iff_iff, hany, hany]
  exact hlinks role.id

/-- The roles of a member are the same. -/
theorem Alike.rolesOf (h : Alike organizationId drawn account db db') {row : MembershipRecord}
    (hrow : row ∈ db.memberships.rows) (horganization : row.organizationId = organizationId) :
    Memberships.rolesOf organizationId row.id db' = Memberships.rolesOf organizationId row.id db :=
  roles_of_congr h.roles (h.links row hrow horganization)

/-- Users that show the same, but for the identifier, have the same summaries but for it. -/
theorem summary_rename {person person' : User} {f : Uuid → Uuid} (membership : Membership)
    (hprofile : person'.profile = person.profile) (hid : person'.id = f person.id) :
    memberSummary (membership.rename f) person' = (memberSummary membership person).rename f := by
  obtain ⟨hemail, hname, hlogin⟩ : person'.email = person.email ∧
      person'.fullName = person.fullName ∧ person'.lastLoginAt = person.lastLoginAt := by
    simpa [User.profile] using hprofile
  unfold memberSummary MemberSummary.rename
  rw [hemail, hname, hlogin, hid]
  rfl

/-- What is shown of a member is the same, but for the identifier. -/
theorem Alike.summary (h : Alike organizationId drawn account db db') {row : MembershipRecord}
    (hrow : row ∈ db.memberships.rows) (horganization : row.organizationId = organizationId)
    {membership : Membership} (huser : membership.userId = row.userId) :
    (db'.users.find? (renamed drawn account membership.userId)).map
        (memberSummary (membership.rename (renamed drawn account))) =
      ((db.users.find? membership.userId).map (memberSummary membership)).map
        (MemberSummary.rename (renamed drawn account)) := by
  have hprofile : (db'.users.find? (renamed drawn account membership.userId)).map User.profile =
      (db.users.find? membership.userId).map User.profile := by
    rw [huser, renamed]
    split
    · next hdrawn =>
        rw [hdrawn]
        exact h.invited row hrow horganization hdrawn
    · next hother =>
        rw [h.others _ hother (h.stranger row hrow horganization hother)]
  cases hfound : db.users.find? membership.userId with
  | none =>
      rw [hfound, Option.map_none, Option.map_eq_none_iff] at hprofile
      rw [hprofile]
      rfl
  | some user =>
      rw [hfound, Option.map_some, Option.map_eq_some_iff] at hprofile
      obtain ⟨user', hfound', hprofile⟩ := hprofile
      have hid : user.id = membership.userId := (Table.find_eq_some_iff.mp hfound).2
      have hid' : user'.id = renamed drawn account membership.userId :=
        (Table.find_eq_some_iff.mp hfound').2
      rw [hfound', Option.map_some, Option.map_some, Option.map_some,
        summary_rename membership hprofile (hid'.trans (congrArg _ hid.symm))]

/-- The rows that a query of the list reads are the same. -/
theorem Alike.listed (h : Alike organizationId drawn account db db') (createdAt : Uuid → Instant)
    (limit : Nat) (position : Option (Instant × Uuid)) :
    Memberships.listed createdAt organizationId limit position db' =
      (Memberships.listed createdAt organizationId limit position db).map
        (MembershipRecord.rename (renamed drawn account)) := by
  unfold Memberships.listed
  have hsplit : ∀ rows : List MembershipRecord, (rows.filter fun row ↦
      row.organizationId == organizationId && position.all (Memberships.after createdAt · row)) =
        (rows.filter fun row ↦ row.organizationId == organizationId).filter fun row ↦
          position.all (Memberships.after createdAt · row) := by
    intro rows
    rw [List.filter_filter]
    exact List.filter_congr fun row _ ↦ Bool.and_comm _ _
  rw [hsplit, hsplit, h.memberships, List.filter_map, List.map_take]
  exact congrArg (List.take _) (ordered_map _ (fun _ ↦ rfl) _)

/-- A renamed row is loaded as the renamed membership. -/
theorem membership_to_domain_rename (f : Uuid → Uuid) (record : MembershipRecord)
    (roles : List RoleRecord) :
    membershipToDomain (record.rename f) roles =
      (membershipToDomain record roles).map (Membership.rename f) := by
  unfold membershipToDomain
  cases roles.mapM roleToDomain with
  | error e => rfl
  | ok roles =>
      show (if roles.any fun role ↦ role.organizationId != record.organizationId then _ else _) =
        Except.map _ (if roles.any fun role ↦ role.organizationId != record.organizationId then _
          else _)
      cases roles.any fun role ↦ role.organizationId != record.organizationId <;> rfl

/-- A list is converted item by item, also when the items are changed before and after. -/
theorem map_m_map {α β γ δ ε : Type} {f : α → Except ε β} {g : γ → Except ε δ} {s : α → γ}
    {t : β → δ} {xs : List α} (h : ∀ x ∈ xs, g (s x) = (f x).map t) :
    (xs.map s).mapM g = (xs.mapM f).map (List.map t) := by
  induction xs with
  | nil => rfl
  | cons x xs ih =>
      obtain ⟨hx, hxs⟩ := List.forall_mem_cons.mp h
      rw [List.map_cons, List.mapM_cons, List.mapM_cons, hx, ih hxs]
      cases f x with
      | error e => rfl
      | ok y => cases xs.mapM f <;> rfl

/-- A membership that is loaded for a row is of the user of the row. -/
theorem user_id_of_membership_to_domain {record : MembershipRecord} {roles : List RoleRecord}
    {membership : Membership} (h : membershipToDomain record roles = .ok membership) :
    membership.userId = record.userId := by
  obtain ⟨-, -, rfl⟩ := membership_to_domain_eq_ok h
  rfl

/-- A page of a list that was read is a part of it. -/
theorem mem_of_mem_trim {α : Type} {limit : Nat} {found : List α} {row : α}
    (h : row ∈ (trim limit found).1) : row ∈ found := by
  unfold trim at h
  split at h
  · exact List.mem_of_mem_take h
  · exact h

/-- What is listed is of the organization. -/
theorem mem_of_mem_listed {createdAt : Uuid → Instant} {limit : Nat}
    {position : Option (Instant × Uuid)} {row : MembershipRecord}
    (h : row ∈ Memberships.listed createdAt organizationId limit position db) :
    row ∈ db.memberships.rows ∧ row.organizationId = organizationId := by
  have hmem := (ordered_perm _ _).subset (List.mem_of_mem_take h)
  obtain ⟨hrow, hmeets⟩ := List.mem_filter.mp hmem
  rw [Bool.and_eq_true, beq_iff_eq] at hmeets
  exact ⟨hrow, hmeets.1⟩

/-- The rows that are loaded are the same. -/
theorem Alike.loaded_rows (h : Alike organizationId drawn account db db')
    (createdAt : Uuid → Instant) (limit : Nat) (position : Option (Instant × Uuid)) :
    loadedRows createdAt organizationId limit position db' =
      (loadedRows createdAt organizationId limit position db).map fun record ↦
        (record.1.rename (renamed drawn account), record.2) := by
  unfold loadedRows
  rw [h.listed, List.map_map, List.map_map]
  refine List.map_congr_left fun row hrow ↦ ?_
  obtain ⟨hmem, horganization⟩ := mem_of_mem_listed hrow
  exact congrArg _ (h.rolesOf hmem horganization)

/-- Renamed rows give the renamed page. -/
theorem page_of_rename (createdAt : Uuid → Instant) (limit : Nat) (f : Uuid → Uuid)
    (loaded : List (MembershipRecord × List RoleRecord)) :
    pageOf createdAt limit (loaded.map fun record ↦ (record.1.rename f, record.2)) =
      (pageOf createdAt limit loaded).map fun page ↦ (page.1.map (Membership.rename f), page.2) := by
  unfold pageOf
  rw [trim_map, map_m_map (f := fun record : MembershipRecord × List RoleRecord ↦
    membershipToDomain record.1 record.2) (t := Membership.rename f)
      fun record _ ↦ membership_to_domain_rename f _ _]
  dsimp only
  rw [Option.map_map]
  cases (trim limit loaded).1.mapM fun record : MembershipRecord × List RoleRecord ↦
    membershipToDomain record.1 record.2 <;> rfl

/-- Every membership of a page is of the user of a row of the organization. -/
theorem row_of_page {createdAt : Uuid → Instant} {limit : Nat}
    {position : Option (Instant × Uuid)} {page : List Membership × Option PyStr}
    (h : pageOf createdAt limit (loadedRows createdAt organizationId limit position db) = .ok page) :
    ∀ membership ∈ page.1, ∃ row ∈ db.memberships.rows, row.organizationId = organizationId ∧
      membership.userId = row.userId := by
  unfold pageOf at h
  cases hmapped : (trim limit (loadedRows createdAt organizationId limit position db)).1.mapM
    fun record : MembershipRecord × List RoleRecord ↦ membershipToDomain record.1 record.2 with
  | error e =>
      rw [hmapped] at h
      cases h
  | ok members =>
      rw [hmapped] at h
      obtain rfl := Except.ok.inj h
      refine (Checked.forall_map_m_iff (P := fun record ↦ ∃ row ∈ db.memberships.rows,
        row.organizationId = organizationId ∧ record.1.userId = row.userId)
        (fun record membership hdomain ↦ ?_) hmapped).mpr fun record hrecord ↦ ?_
      · rw [user_id_of_membership_to_domain hdomain]
      · obtain ⟨row, hrow, rfl⟩ := List.mem_map.mp (mem_of_mem_trim hrecord)
        obtain ⟨hmem, horganization⟩ := mem_of_mem_listed hrow
        exact ⟨row, hmem, horganization, rfl⟩

/-- `ListMembers` answers the same, but for the identifier. -/
theorem Alike.member_page (h : Alike organizationId drawn account db db') (lib : Library)
    (createdAt : Uuid → Instant) {principal : Principal}
    (horganization : principal.organizationId = organizationId) (limit : Nat)
    (cursor : Option PyStr) :
    memberPage lib createdAt principal limit cursor db' =
      (memberPage lib createdAt principal limit cursor db).map
        (MemberPage.rename (renamed drawn account)) := by
  subst horganization
  unfold memberPage
  cases principal.require .ORG_READ with
  | error e => rfl
  | ok _ =>
  cases Api.timePosition lib cursor with
  | error e => rfl
  | ok position =>
  show (pageOf _ _ _).map _ = ((pageOf _ _ _).map _).map _
  rw [h.loaded_rows, page_of_rename]
  cases hpage : pageOf createdAt limit
      (loadedRows createdAt principal.organizationId limit position db) with
  | error e => rfl
  | ok page =>
      suffices hitems : summaries (page.1.map (Membership.rename (renamed drawn account))) db' =
          (summaries page.1 db).map (MemberSummary.rename (renamed drawn account)) by
        exact congrArg (fun items ↦ Except.ok (MemberPage.mk items page.2 limit)) hitems
      unfold summaries
      rw [List.filterMap_map, List.map_filterMap]
      refine List.filterMap_congr fun membership hmembership ↦ ?_
      obtain ⟨row, hrow, horganization, huser⟩ := row_of_page hpage membership hmembership
      exact h.summary hrow horganization huser

end

/-! ## What others do -/

/-- A change of a membership that keeps its organization and its user, and does not look at the
user. -/
structure KeepsMember (edit : Edit MembershipRecord) : Prop where
  organization : ∀ row : MembershipRecord, (edit.run row).organizationId = row.organizationId
  rename : ∀ (row : MembershipRecord) (f : Uuid → Uuid),
    edit.run (row.rename f) = (edit.run row).rename f

/-- The identifier of a membership is new to the database. -/
structure NewMember (id : Uuid) (db : Database) : Prop where
  row : ∀ old ∈ db.memberships.rows, key old ≠ id
  links : ∀ link ∈ db.membershipRoles.rows, link.membershipId ≠ id

/-- A write that somebody other than the invited person commits in both databases. -/
inductive Common (drawn account : Uuid) (db db' : Database) : Write → Prop
  | users (u : RowWrite User) (hdrawn : u.rowKey ≠ drawn) (haccount : u.rowKey ≠ account) :
      Common drawn account db db' (.users u)
  | insert (row : MembershipRecord) (hnew : NewMember row.id db) (hnew' : NewMember row.id db')
      (hdrawn : row.userId ≠ drawn) (haccount : row.userId ≠ account) :
      Common drawn account db db' (.memberships (.insert row))
  | modify (id : Uuid) (edit : Edit MembershipRecord) (h : KeepsMember edit) :
      Common drawn account db db' (.memberships (.modify id edit))
  | delete (id : Uuid) : Common drawn account db db' (.memberships (.delete id))
  | links (u : RowWrite MembershipRole) : Common drawn account db db' (.membershipRoles u)
  | roles (u : RowWrite RoleRecord) : Common drawn account db db' (.roles u)

/-- A write of one of the databases that the organization does not see: of another table, or of a
membership elsewhere. -/
def Unseen (organizationId : Uuid) (db : Database) : Write → Prop
  | .users _ | .roles _ => False
  | .memberships (.insert row) => row.organizationId ≠ organizationId ∧ NewMember row.id db
  | .memberships (.modify id edit) => KeepsMember edit ∧
      ∀ row ∈ db.memberships.rows, row.id = id → row.organizationId ≠ organizationId
  | .memberships (.delete id) =>
      ∀ row ∈ db.memberships.rows, row.id = id → row.organizationId ≠ organizationId
  | .membershipRoles u =>
      ∀ row ∈ db.memberships.rows, row.id = u.rowKey.1 → row.organizationId ≠ organizationId
  | _ => True

/-- The links of some roles of a membership. -/
def linksOf (membershipId : Uuid) (roles : List Role) : List Write :=
  roles.map fun role ↦ .membershipRoles (.insert ⟨membershipId, role.id⟩)

/-- What others may have committed in the two databases by the time of a listing. -/
inductive Onward (organizationId drawn account : Uuid) (db db' : Database) :
    Database → Database → Prop
  | refl : Onward organizationId drawn account db db' db db'
  | both {e e' : Database} {u : Write} (h : Onward organizationId drawn account db db' e e')
      (hu : Common drawn account e e' u) :
      Onward organizationId drawn account db db' (Store.apply e u) (Store.apply e' u)
  | left {e e' : Database} {u : Write} (h : Onward organizationId drawn account db db' e e')
      (hu : Unseen organizationId e u) :
      Onward organizationId drawn account db db' (Store.apply e u) e'
  | right {e e' : Database} {u : Write} (h : Onward organizationId drawn account db db' e e')
      (hu : Unseen organizationId e' u) :
      Onward organizationId drawn account db db' e (Store.apply e' u)

section
variable {organizationId drawn account : Uuid} {db db' : Database}

/-- A row of the organization in the second database is a renamed row of the first. -/
theorem Alike.exists_row (h : Alike organizationId drawn account db db') {row' : MembershipRecord}
    (hrow : row' ∈ db'.memberships.rows) (horganization : row'.organizationId = organizationId) :
    ∃ row ∈ db.memberships.rows, row.organizationId = organizationId ∧
      row' = row.rename (renamed drawn account) := by
  have hmem : row' ∈ db'.memberships.rows.filter fun row ↦ row.organizationId == organizationId :=
    List.mem_filter.mpr ⟨hrow, beq_iff_eq.mpr horganization⟩
  rw [h.memberships] at hmem
  obtain ⟨row, hfiltered, rfl⟩ := List.mem_map.mp hmem
  obtain ⟨hmem, horganization⟩ := List.mem_filter.mp hfiltered
  exact ⟨row, hmem, beq_iff_eq.mp horganization, rfl⟩

/-- And the other way round. -/
theorem Alike.exists_renamed (h : Alike organizationId drawn account db db')
    {row : MembershipRecord} (hrow : row ∈ db.memberships.rows)
    (horganization : row.organizationId = organizationId) :
    row.rename (renamed drawn account) ∈ db'.memberships.rows := by
  have hfiltered : row ∈ db.memberships.rows.filter fun row ↦
      row.organizationId == organizationId :=
    List.mem_filter.mpr ⟨hrow, beq_iff_eq.mpr horganization⟩
  have hmem := List.mem_map_of_mem (f := MembershipRecord.rename (renamed drawn account)) hfiltered
  rw [← h.memberships] at hmem
  exact (List.mem_filter.mp hmem).1

/-- Rows are changed among those of the organization. -/
theorem filter_edit {edit : Edit MembershipRecord} (h : KeepsMember edit) (id : Uuid)
    (rows : List MembershipRecord) :
    ((rows.map (Table.editAt id edit)).filter fun row ↦ row.organizationId == organizationId) =
      (rows.filter fun row ↦ row.organizationId == organizationId).map (Table.editAt id edit) := by
  rw [List.filter_map]
  refine congrArg _ (List.filter_congr fun row _ ↦ ?_)
  rw [Function.comp_apply, Table.editAt]
  split
  · rw [h.organization]
  · rfl

/-- A link is there after a write when it was there, or was inserted. -/
theorem mem_links_iff {link : MembershipRole} {t : Table MembershipRole} :
    link ∈ t.rows ↔ (t.find? (key link)).isSome = true := by
  constructor
  · intro hmem
    rw [Table.find_eq_some_iff.mpr ⟨hmem, rfl⟩]
    rfl
  · intro hsome
    obtain ⟨found, hfound⟩ := Option.isSome_iff_exists.mp hsome
    obtain ⟨hmem, hkey⟩ := Table.find_eq_some_iff.mp hfound
    obtain ⟨hmembership, hrole⟩ := Prod.mk.inj hkey
    obtain rfl : found = link := by
      cases found
      cases link
      cases hmembership
      cases hrole
      rfl
    exact hmem

/-- A link is there after a write in both tables or in none, when it was before it. -/
theorem mem_links_apply_congr {t t' : Table MembershipRole} {link : MembershipRole}
    (h : link ∈ t'.rows ↔ link ∈ t.rows) (u : RowWrite MembershipRole) :
    link ∈ (RowWrite.apply t' u).rows ↔ link ∈ (RowWrite.apply t u).rows := by
  rw [mem_links_iff, mem_links_iff] at h
  rw [mem_links_iff, mem_links_iff, RowWrite.find_apply, RowWrite.find_apply]
  split
  · cases u with
    | insert row => simp [RowWrite.applied]
    | modify k edit => simpa [RowWrite.applied] using h
    | delete k => rfl
  · exact h

/-- What the organization sees of two states of one database is the same. -/
structure SameView (organizationId : Uuid) (db e : Database) : Prop where
  memberships : (e.memberships.rows.filter fun row ↦ row.organizationId == organizationId) =
    db.memberships.rows.filter fun row ↦ row.organizationId == organizationId
  roles : e.roles = db.roles
  users : e.users = db.users
  links : ∀ row ∈ db.memberships.rows, row.organizationId = organizationId → ∀ roleId,
    ⟨row.id, roleId⟩ ∈ e.membershipRoles.rows ↔ ⟨row.id, roleId⟩ ∈ db.membershipRoles.rows

/-- The rows of the organization are the same. -/
theorem SameView.mem_iff {e : Database} (h : SameView organizationId db e) {row : MembershipRecord}
    (horganization : row.organizationId = organizationId) :
    row ∈ e.memberships.rows ↔ row ∈ db.memberships.rows := by
  have hfilter : ∀ rows : List MembershipRecord,
      row ∈ rows.filter (fun row ↦ row.organizationId == organizationId) ↔ row ∈ rows := fun rows ↦
    List.mem_filter.trans (and_iff_left (beq_iff_eq.mpr horganization))
  rw [← hfilter, h.memberships, hfilter]

/-- A write that is not seen changes nothing that is. -/
theorem Unseen.same_view {u : Write} (hu : Unseen organizationId db u) :
    SameView organizationId db (Store.apply db u) := by
  cases u with
  | users u => exact hu.elim
  | roles u => exact hu.elim
  | memberships u =>
      cases u with
      | insert row =>
          refine ⟨?_, rfl, rfl, fun _ _ _ _ ↦ Iff.rfl⟩
          show List.filter _ (db.memberships.insert row).rows = _
          rw [Table.rows_insert_of_new hu.2.row, List.filter_append,
            List.filter_cons_of_neg (by simpa using hu.1), List.filter_nil, List.append_nil]
      | modify id edit =>
          refine ⟨?_, rfl, rfl, fun _ _ _ _ ↦ Iff.rfl⟩
          show List.filter _ (db.memberships.rows.map (Table.editAt id edit)) = _
          rw [filter_edit hu.1]
          refine (List.map_congr_left fun row hrow ↦ ?_).trans (List.map_id _)
          obtain ⟨hmem, horganization⟩ := List.mem_filter.mp hrow
          exact Table.edit_at_of_ne fun hid ↦
            hu.2 row hmem hid (beq_iff_eq.mp horganization)
      | delete id =>
          refine ⟨?_, rfl, rfl, fun row hrow horganization roleId ↦ ?_⟩
          · show List.filter _ (db.memberships.rows.filter fun row ↦ !(key row == id)) = _
            rw [List.filter_filter]
            refine List.filter_congr fun row hrow ↦ ?_
            rw [Bool.eq_iff_iff, Bool.and_eq_true, Bool.not_eq_true', beq_eq_false_iff_ne]
            refine and_iff_left_of_imp fun horganization hid ↦ ?_
            exact hu row hrow hid (beq_iff_eq.mp horganization)
          · show _ ∈ (db.membershipRoles.deleteIf fun link ↦ link.membershipId == id).rows ↔ _
            rw [Table.mem_delete_if]
            exact and_iff_left (beq_eq_false_iff_ne.mpr fun hid ↦ hu row hrow hid horganization)
  | membershipRoles u =>
      refine ⟨rfl, rfl, rfl, fun row hrow horganization roleId ↦ ?_⟩
      show _ ∈ (RowWrite.apply db.membershipRoles u).rows ↔ _
      rw [mem_links_iff, RowWrite.find_apply, if_neg, ← mem_links_iff]
      intro hkey
      exact hu row hrow (congrArg Prod.fst hkey).symm horganization
  | _ => exact ⟨rfl, rfl, rfl, fun _ _ _ _ ↦ Iff.rfl⟩

/-- What is not seen in one of the databases leaves them alike. -/
theorem Alike.left (h : Alike organizationId drawn account db db') {e : Database}
    (hview : SameView organizationId db e) : Alike organizationId drawn account e db' where
  memberships := by rw [hview.memberships, h.memberships]
  roles := by rw [hview.roles, h.roles]
  links row hrow horganization roleId := by
    have hold := (hview.mem_iff horganization).mp hrow
    rw [hview.links row hold horganization, h.links row hold horganization]
  others userId hdrawn haccount := by rw [hview.users, h.others userId hdrawn haccount]
  invited row hrow horganization huser := by
    rw [hview.users]
    exact h.invited row ((hview.mem_iff horganization).mp hrow) horganization huser
  stranger row hrow horganization huser :=
    h.stranger row ((hview.mem_iff horganization).mp hrow) horganization huser

theorem Alike.right (h : Alike organizationId drawn account db db') {e' : Database}
    (hview : SameView organizationId db' e') : Alike organizationId drawn account db e' where
  memberships := by rw [hview.memberships, h.memberships]
  roles := by rw [hview.roles, h.roles]
  links row hrow horganization roleId :=
    (hview.links _ (h.exists_renamed hrow horganization) horganization roleId).trans
      (h.links row hrow horganization roleId)
  others userId hdrawn haccount := by rw [hview.users, h.others userId hdrawn haccount]
  invited row hrow horganization huser := by
    rw [hview.users]
    exact h.invited row hrow horganization huser
  stranger row hrow horganization huser := h.stranger row hrow horganization huser

/-- A new membership leaves them alike, when its user shows the same. -/
theorem Alike.insert (h : Alike organizationId drawn account db db') (row : MembershipRecord)
    (hnew : NewMember row.id db) (hnew' : NewMember row.id db')
    (hinvited : row.userId = drawn →
      (db'.users.find? account).map User.profile = (db.users.find? drawn).map User.profile)
    (hstranger : row.userId ≠ drawn → row.userId ≠ account) :
    Alike organizationId drawn account (Store.apply db (.memberships (.insert row)))
      (Store.apply db' (.memberships (.insert (row.rename (renamed drawn account))))) := by
  have hmem : ∀ other : MembershipRecord, other ∈ (db.memberships.insert row).rows →
      other ∈ db.memberships.rows ∨ other = row := fun other hother ↦
    (Table.mem_insert.mp hother).imp id And.left
  constructor
  · show List.filter _ (db'.memberships.insert _).rows =
      (List.filter _ (db.memberships.insert row).rows).map _
    have hright : (db'.memberships.insert (row.rename (renamed drawn account))).rows =
        db'.memberships.rows ++ [row.rename (renamed drawn account)] :=
      Table.rows_insert_of_new hnew'.row
    rw [Table.rows_insert_of_new hnew.row, hright, List.filter_append, List.filter_append,
      List.map_append, h.memberships]
    refine congrArg _ ?_
    rw [List.filter_singleton, List.filter_singleton]
    show (bif row.organizationId == organizationId then _ else _) = _
    cases row.organizationId == organizationId <;> rfl
  · exact h.roles
  · intro other hother horganization roleId
    rcases hmem other hother with hold | rfl
    · exact h.links other hold horganization roleId
    · exact iff_of_false (fun hlink ↦ hnew'.links _ hlink rfl) fun hlink ↦ hnew.links _ hlink rfl
  · exact h.others
  · intro other hother horganization huser
    rcases hmem other hother with hold | rfl
    · exact h.invited other hold horganization huser
    · exact hinvited huser
  · intro other hother horganization huser
    rcases hmem other hother with hold | rfl
    · exact h.stranger other hold horganization huser
    · exact hstranger huser

/-- A change of a membership keeps its user. -/
theorem KeepsMember.user {edit : Edit MembershipRecord} (h : KeepsMember edit)
    (row : MembershipRecord) : (edit.run row).userId = row.userId := by
  have hsame : edit.run row = (edit.run row).rename fun _ ↦ row.userId :=
    h.rename row fun _ ↦ row.userId
  have huser := congrArg MembershipRecord.userId hsame
  exact huser

/-- A changed row has the identifier, the organization and the user it had. -/
theorem KeepsMember.edit_at {edit : Edit MembershipRecord} (h : KeepsMember edit) (id : Uuid)
    (row : MembershipRecord) :
    (Table.editAt id edit row).id = row.id ∧
      (Table.editAt id edit row).organizationId = row.organizationId ∧
      (Table.editAt id edit row).userId = row.userId := by
  refine ⟨Table.key_edit_at id edit row, ?_⟩
  unfold Table.editAt
  split
  · exact ⟨h.organization row, h.user row⟩
  · exact ⟨rfl, rfl⟩

/-- A changed membership leaves them alike. -/
theorem Alike.modify (h : Alike organizationId drawn account db db') (id : Uuid)
    {edit : Edit MembershipRecord} (hedit : KeepsMember edit) :
    Alike organizationId drawn account (Store.apply db (.memberships (.modify id edit)))
      (Store.apply db' (.memberships (.modify id edit))) := by
  constructor
  · show List.filter _ (db'.memberships.rows.map _) =
      (List.filter _ (db.memberships.rows.map (Table.editAt id edit))).map _
    rw [filter_edit hedit, filter_edit hedit, h.memberships, List.map_map, List.map_map]
    refine List.map_congr_left fun row _ ↦ ?_
    rw [Function.comp_apply, Function.comp_apply, Table.editAt, Table.editAt]
    show (if key row = id then _ else _) = _
    split
    · exact hedit.rename row _
    · rfl
  · exact h.roles
  · intro row hrow horganization roleId
    obtain ⟨old, hold, rfl⟩ := List.mem_map.mp hrow
    obtain ⟨hid, horganization', -⟩ := hedit.edit_at id old
    rw [hid]
    exact h.links old hold (horganization'.symm.trans horganization) roleId
  · exact h.others
  · intro row hrow horganization huser
    obtain ⟨old, hold, rfl⟩ := List.mem_map.mp hrow
    obtain ⟨-, horganization', huser'⟩ := hedit.edit_at id old
    exact h.invited old hold (horganization'.symm.trans horganization) (huser'.symm.trans huser)
  · intro row hrow horganization huser
    obtain ⟨old, hold, rfl⟩ := List.mem_map.mp hrow
    obtain ⟨-, horganization', huser'⟩ := hedit.edit_at id old
    rw [huser'] at huser ⊢
    exact h.stranger old hold (horganization'.symm.trans horganization) huser

/-- A removed membership leaves them alike. -/
theorem Alike.delete (h : Alike organizationId drawn account db db') (id : Uuid) :
    Alike organizationId drawn account (Store.apply db (.memberships (.delete id)))
      (Store.apply db' (.memberships (.delete id))) := by
  have hold : ∀ {row : MembershipRecord}, row ∈ (db.memberships.delete id).rows →
      row ∈ db.memberships.rows := fun hrow ↦ (Table.mem_delete.mp hrow).1
  constructor
  · show List.filter _ (db'.memberships.rows.filter fun row ↦ !(key row == id)) =
      (List.filter _ (db.memberships.rows.filter fun row ↦ !(key row == id))).map _
    have hcomm : ∀ rows : List MembershipRecord,
        (rows.filter fun row ↦ !(key row == id)).filter
            (fun row ↦ row.organizationId == organizationId) =
          (rows.filter fun row ↦ row.organizationId == organizationId).filter
            fun row ↦ !(key row == id) := by
      intro rows
      rw [List.filter_filter, List.filter_filter]
      exact List.filter_congr fun row _ ↦ Bool.and_comm _ _
    rw [hcomm, hcomm, h.memberships, List.filter_map]
    rfl
  · exact h.roles
  · intro row hrow horganization roleId
    show _ ∈ (db'.membershipRoles.deleteIf fun link ↦ link.membershipId == id).rows ↔
      _ ∈ (db.membershipRoles.deleteIf fun link ↦ link.membershipId == id).rows
    rw [Table.mem_delete_if, Table.mem_delete_if]
    exact and_congr_left' (h.links row (hold hrow) horganization roleId)
  · exact h.others
  · exact fun row hrow horganization huser ↦ h.invited row (hold hrow) horganization huser
  · exact fun row hrow horganization huser ↦ h.stranger row (hold hrow) horganization huser

/-- So does whatever somebody else commits in both. -/
theorem Alike.both (h : Alike organizationId drawn account db db') {u : Write}
    (hu : Common drawn account db db' u) :
    Alike organizationId drawn account (Store.apply db u) (Store.apply db' u) := by
  cases hu with
  | users u hdrawn haccount =>
      refine ⟨h.memberships, h.roles, h.links, fun userId hne hne' ↦ ?_,
        fun row hrow horganization huser ↦ ?_, h.stranger⟩
      · show (RowWrite.apply db'.users u).find? userId = (RowWrite.apply db.users u).find? userId
        rw [RowWrite.find_apply, RowWrite.find_apply, h.others userId hne hne']
      · show ((RowWrite.apply db'.users u).find? account).map _ =
          ((RowWrite.apply db.users u).find? drawn).map _
        rw [RowWrite.find_apply, RowWrite.find_apply, if_neg haccount, if_neg hdrawn]
        exact h.invited row hrow horganization huser
  | insert row hnew hnew' hdrawn haccount =>
      have hsame : row.rename (renamed drawn account) = row := by
        unfold MembershipRecord.rename renamed
        rw [if_neg hdrawn]
      have hinsert := h.insert row hnew hnew' (fun huser ↦ absurd huser hdrawn) fun _ ↦ haccount
      rwa [hsame] at hinsert
  | modify id edit hedit => exact h.modify id hedit
  | delete id => exact h.delete id
  | links u =>
      refine ⟨h.memberships, h.roles, fun row hrow horganization roleId ↦ ?_, h.others, h.invited,
        h.stranger⟩
      exact mem_links_apply_congr (h.links row hrow horganization roleId) u
  | roles u =>
      refine ⟨h.memberships, ?_, h.links, h.others, h.invited, h.stranger⟩
      exact congrArg (RowWrite.apply · u) h.roles

/-- Links of the same roles leave them alike. -/
theorem Alike.links_of (h : Alike organizationId drawn account db db') (membershipId : Uuid)
    (roles : List Role) :
    Alike organizationId drawn account (view (linksOf membershipId roles) db)
      (view (linksOf membershipId roles) db') := by
  induction roles generalizing db db' with
  | nil => exact h
  | cons role roles ih => exact ih (h.both (.links _))

/-- The organization does not see the audit chain. -/
theorem same_view_of_audit {events : List Write} (hevents : ∀ u ∈ events, u.IsAudit)
    (db : Database) : SameView organizationId db (view events db) := by
  rw [view_of_audit hevents]
  exact ⟨rfl, rfl, rfl, fun _ _ _ _ ↦ Iff.rfl⟩

/-- The databases stay alike until the invited person acts. -/
theorem Onward.alike {e e' : Database} (hlater : Onward organizationId drawn account db db' e e')
    (h : Alike organizationId drawn account db db') :
    Alike organizationId drawn account e e' := by
  induction hlater with
  | refl => exact h
  | both _ hu ih => exact ih.both hu
  | left _ hu ih => exact ih.left hu.same_view
  | right _ hu ih => exact ih.right hu.same_view

end

/-! ## An invitation alone -/

section
variable {R S Q : Type} {ends : Bool → Except DomainError R → World Database Q S → Database → Prop}
variable {ws : List Write} {w : World Database Q S}

/-- Alone, a link is inserted for each of some roles that the membership does not have yet. -/
theorem wp_each_add_role_alone {membershipId : Uuid} {roles : List Role}
    {post : Unit → List Write → World Database Q S → Prop}
    (hmember : ((view ws w.db).memberships.find? membershipId).isSome)
    (hroles : ∀ role ∈ roles, ((view ws w.db).roles.find? role.id).isSome)
    (hnodup : (roles.map Role.id).Nodup)
    (hfree : ∀ role ∈ roles, ⟨membershipId, role.id⟩ ∉ (view ws w.db).membershipRoles.rows)
    (h : post () (ws ++ roles.map fun role ↦ .membershipRoles (.insert ⟨membershipId, role.id⟩)) w) :
    Wp (fun w w' ↦ w' = w) ends (Txn.each roles (Memberships.addRole membershipId) : Tx R Unit)
      post ws w := by
  induction roles generalizing ws with
  | nil => rwa [List.map_nil, List.append_nil] at h
  | cons role roles ih =>
      show Wp _ ends (Memberships.addRole membershipId role >>= fun _ ↦
        Txn.each roles (Memberships.addRole membershipId)) post ws w
      rw [wp_bind]
      obtain ⟨hrole, hroles⟩ := List.forall_mem_cons.mp hroles
      obtain ⟨hlink, hfree⟩ := List.forall_mem_cons.mp hfree
      obtain ⟨hnot, hnodup⟩ := List.nodup_cons.mp hnodup
      have hforbids :
          Memberships.forbidsLink ⟨membershipId, role.id⟩ (view ws w.db) = false := by
        have hviolates : membershipRolesTable.violates ⟨membershipId, role.id⟩ (view ws w.db) =
            false := by
          refine List.any_eq_false.mpr fun old hold ↦ ?_
          rw [Bool.or_eq_true, not_or]
          refine ⟨fun hsame ↦ hlink ?_, Bool.false_ne_true⟩
          have hkey : key old = (membershipId, role.id) := LawfulBEq.eq_of_beq hsame
          rw [mem_links_iff]
          show ((view ws w.db).membershipRoles.find? (membershipId, role.id)).isSome = true
          rw [← hkey]
          exact mem_links_iff.mp hold
        unfold Memberships.forbidsLink
        rw [hviolates, Option.isNone_eq_false_iff.mpr hmember,
          Option.isNone_eq_false_iff.mpr hrole]
        rfl
      rintro _ rfl
      dsimp only
      rw [hforbids, if_neg Bool.false_ne_true, if_neg Bool.false_ne_true]
      refine ih ?_ ?_ hnodup ?_ ?_
      · rw [view_append]
        exact hmember
      · rw [view_append]
        exact hroles
      · intro other hother hmem
        rw [view_append] at hmem
        rcases (Table.mem_insert.mp hmem) with hmem | ⟨heq, -⟩
        · exact hfree other hother hmem
        · have hid : other.id = role.id := congrArg MembershipRole.roleId heq
          exact hnot (hid ▸ List.mem_map_of_mem hother)
      · rwa [List.append_assoc, List.singleton_append]

/-- The roles of the organization that a request names. -/
def namedRoles (organizationId : Uuid) (roleIds : List Uuid) (db : Database) : List RoleRecord :=
  db.roles.rows.filter fun row ↦ row.organizationId == organizationId && roleIds.contains row.id

/-- What is known of the roles that named rows are made into. -/
theorem roles_of_named {organizationId : Uuid} {roleIds : List Uuid} {db : Database}
    {roles : List Role}
    (h : (namedRoles organizationId roleIds db).mapM roleToDomain = .ok roles) :
    roles.map Role.id = (namedRoles organizationId roleIds db).map RoleRecord.id ∧
      ∀ role ∈ roles, role.organizationId = organizationId := by
  have hmembers : ∀ row ∈ namedRoles organizationId roleIds db,
      row.organizationId = organizationId := by
    intro row hrow
    have hmeets := (List.mem_filter.mp hrow).2
    rw [Bool.and_eq_true, beq_iff_eq] at hmeets
    exact hmeets.1
  generalize namedRoles organizationId roleIds db = rows at h hmembers
  constructor
  · rw [Checked.map_m_eq_ok_iff] at h
    induction h with
    | nil => rfl
    | cons hrole _ ih =>
        rw [List.map_cons, List.map_cons, (role_to_domain_eq_ok hrole).1,
          ih fun row hrow ↦ hmembers row (List.mem_cons_of_mem _ hrow)]
  · exact (Checked.forall_map_m_iff (P := fun row : RoleRecord ↦ row.organizationId = organizationId)
      (fun row role hrole ↦ by rw [(role_to_domain_eq_ok hrole).2.1]) h).mpr hmembers

end

/-- Links change no other table. -/
theorem view_links_of (membershipId : Uuid) (roles : List Role) (db : Database) :
    (view (linksOf membershipId roles) db).roles = db.roles ∧
      ∀ link ∈ (view (linksOf membershipId roles) db).membershipRoles.rows,
        link ∈ db.membershipRoles.rows ∨ ∃ role ∈ roles, link.roleId = role.id := by
  constructor
  · refine view_congr (f := Database.roles) (fun u hu d ↦ ?_) db
    obtain ⟨role, -, rfl⟩ := List.mem_map.mp hu
    rfl
  · induction roles generalizing db with
    | nil => exact fun link hlink ↦ .inl hlink
    | cons role roles ih =>
        intro link hlink
        rcases ih _ link hlink with hmem | ⟨other, hother, heq⟩
        · rcases Table.mem_insert.mp hmem with hmem | ⟨rfl, -⟩
          · exact .inl hmem
          · exact .inr ⟨role, List.mem_cons_self, rfl⟩
        · exact .inr ⟨other, List.mem_cons_of_mem _ hother, heq⟩

/-- A membership with roles of its organization can be built. -/
theorem make_of_own {id organizationId userId : Uuid} {roles : List Role}
    (h : ∀ role ∈ roles, role.organizationId = organizationId) (status : MembershipStatus)
    (invitedBy : Option Uuid) (joinedAt : Option Instant) :
    Membership.make id organizationId userId roles status invitedBy joinedAt =
      .ok ⟨id, organizationId, userId, roles, status, invitedBy, joinedAt⟩ := by
  rw [Membership.make, if_neg]
  simpa using h

/-- A membership with the named roles is loaded. -/
theorem load_named {organizationId : Uuid} {roleIds : List Uuid} {db : Database}
    {roles : List Role} {record : MembershipRecord}
    (hroles : (namedRoles organizationId roleIds db).mapM roleToDomain = .ok roles)
    (horganization : record.organizationId = organizationId)
    (hlinks : ∀ link ∈ db.membershipRoles.rows, link.membershipId = record.id →
      ∃ role ∈ roles, link.roleId = role.id) :
    ∃ membership, membershipToDomain record (Memberships.rolesOf organizationId record.id db) =
      .ok membership := by
  obtain ⟨hids, -⟩ := roles_of_named hroles
  have hloads : ∀ row ∈ Memberships.rolesOf organizationId record.id db,
      ∃ role, roleToDomain row = .ok role := by
    intro row hrow
    obtain ⟨hmem, hmeets⟩ := List.mem_filter.mp hrow
    rw [Bool.and_eq_true, List.any_eq_true] at hmeets
    obtain ⟨-, link, hlink, hlinked⟩ := hmeets
    rw [Bool.and_eq_true, beq_iff_eq, beq_iff_eq] at hlinked
    obtain ⟨role, hrole, hid⟩ := hlinks link hlink hlinked.1
    have hnamed : role.id ∈ (namedRoles organizationId roleIds db).map RoleRecord.id :=
      hids ▸ List.mem_map_of_mem hrole
    obtain ⟨named, hnamed, hnamedId⟩ := List.mem_map.mp hnamed
    have hsame : named = row := Table.eq_of_key_eq (List.mem_filter.mp hnamed).1 hmem
      (hnamedId.trans (hid.symm.trans hlinked.2))
    exact Checked.exists_of_map_m_eq_ok hroles row (hsame ▸ hnamed)
  obtain ⟨loaded, hloaded⟩ := Checked.exists_map_m_eq_ok hloads
  have hown : ∀ role ∈ loaded, role.organizationId = organizationId :=
    (Checked.forall_map_m_iff
      (P := fun row : RoleRecord ↦ row.organizationId = organizationId)
      (fun row role hrole ↦ by rw [(role_to_domain_eq_ok hrole).2.1]) hloaded).mpr fun row hrow ↦ by
        have hmeets := (List.mem_filter.mp hrow).2
        rw [Bool.and_eq_true, beq_iff_eq] at hmeets
        exact hmeets.1
  exact ⟨_, Checked.bind_eq_ok.mpr ⟨loaded, hloaded, make_of_own (horganization ▸ hown) _ _ _⟩⟩

/-- Alone, a person who is not a member yet is invited with the roles that were named. -/
theorem run_invite {principal : Principal} {roles : List Role} {roleIds : List Uuid}
    {membershipId : Uuid} {user : User} {ws : List Write} {db : Database}
    (hmember : ∀ row ∈ (view ws db).memberships.rows,
      row.organizationId = principal.organizationId → row.userId ≠ user.id)
    (hnew : NewMember membershipId (view ws db))
    (hroles : (namedRoles principal.organizationId roleIds (view ws db)).mapM roleToDomain =
      .ok roles) :
    ∃ events, (∀ u ∈ events, Write.IsAudit u) ∧
      run (InviteMember.invite principal roles membershipId user) ws db =
        ((true, .ok (memberSummary ⟨membershipId, principal.organizationId, user.id, roles, .INVITED,
            principal.userId, none⟩ user)),
          view (ws ++ (.memberships (.insert ⟨membershipId, principal.organizationId, user.id,
            .INVITED, principal.userId, none⟩) :: linksOf membershipId roles ++ events)) db) := by
  obtain ⟨hids, hown⟩ := roles_of_named hroles
  let record : MembershipRecord :=
    ⟨membershipId, principal.organizationId, user.id, .INVITED, principal.userId, none⟩
  let summary : MemberSummary := memberSummary ⟨membershipId, principal.organizationId, user.id,
    roles, .INVITED, principal.userId, none⟩ user
  let ends : Bool → Except DomainError MemberSummary → World Database Unit Unit → Database →
      Prop := fun committed outcome _ e ↦ ∃ events, (∀ u ∈ events, Write.IsAudit u) ∧
    ((committed, outcome), e) = ((true, .ok summary),
      view (ws ++ (.memberships (.insert record) :: linksOf membershipId roles ++ events)) db)
  have hwp : Wp (fun w w' ↦ w' = w) ends (InviteMember.invite principal roles membershipId user)
      (fun (e : Empty) _ _ ↦ e.elim) ws ⟨db, []⟩ := by
    have hnone : ((membershipsTable.read (view ws db)).rows.find? fun row ↦
        row.organizationId == principal.organizationId && row.userId == user.id) = none := by
      rw [List.find?_eq_none]
      intro row hrow hmeets
      rw [Bool.and_eq_true, beq_iff_eq, beq_iff_eq] at hmeets
      exact hmember row hrow hmeets.1 hmeets.2
    rw [InviteMember.invite, wp_bind, Memberships.getForUser, Memberships.find, wp_bind,
      TableAt.wp_select_one]
    rintro _ rfl
    rw [hnone]
    dsimp only
    rw [wp_pure, wp_bind, wp_refuse_if_alone]
    refine ⟨fun _ ↦ ?_, fun hsome ↦ absurd hsome Bool.false_ne_true⟩
    rw [wp_bind, make_of_own hown, wp_check_alone]
    refine ⟨fun membership hmade ↦ ?_, fun e he ↦ absurd he (by simp)⟩
    obtain rfl := Except.ok.inj hmade
    rw [wp_bind, Memberships.add, wp_bind]
    refine TableAt.wp_insert_alone ?_ ?_
    · refine List.any_eq_false.mpr fun old hold ↦ ?_
      rw [Bool.or_eq_true, not_or, beq_iff_eq]
      refine ⟨hnew.row old hold, ?_⟩
      show ¬(old.organizationId == principal.organizationId && old.userId == user.id) = true
      rw [Bool.and_eq_true, beq_iff_eq, beq_iff_eq]
      exact fun hsame ↦ hmember old hold hsame.1 hsame.2
    have hview : view (ws ++ [.memberships (.insert record)]) db =
        Store.apply (view ws db) (.memberships (.insert record)) := view_append ..
    -- every link finds its membership and its role, and is new
    rw [wp_bind]
    refine wp_each_add_role_alone ?_ (fun role hrole ↦ ?_) ?_ (fun role _ hlink ↦ ?_) ?_
    · show ((view (ws ++ [.memberships (.insert record)]) db).memberships.find? _).isSome = true
      rw [hview]
      refine Option.isSome_iff_exists.mpr ⟨record, Table.find_eq_some_iff.mpr ⟨?_, rfl⟩⟩
      exact Table.mem_insert.mpr (.inr ⟨rfl, hnew.row⟩)
    · show ((view (ws ++ [.memberships (.insert record)]) db).roles.find? _).isSome = true
      rw [hview]
      have hmem : role.id ∈ (namedRoles principal.organizationId roleIds (view ws db)).map
          RoleRecord.id := hids ▸ List.mem_map_of_mem hrole
      obtain ⟨row, hrow, hid⟩ := List.mem_map.mp hmem
      exact Option.isSome_iff_exists.mpr
        ⟨row, Table.find_eq_some_iff.mpr ⟨(List.mem_filter.mp hrow).1, hid⟩⟩
    · show (roles.map Role.id).Nodup
      rw [hids]
      exact (view ws db).roles.nodup.sublist (List.filter_sublist.map key)
    · change _ ∈ (view (ws ++ [.memberships (.insert record)]) db).membershipRoles.rows at hlink
      rw [hview] at hlink
      exact hnew.links _ hlink rfl
    -- the membership is loaded with the roles it was given
    obtain ⟨hsameRoles, hlinked⟩ := view_links_of membershipId roles
      (view (ws ++ [.memberships (.insert record)]) db)
    have hseen : view ((ws ++ [.memberships (.insert record)]) ++ linksOf membershipId roles) db =
        view (linksOf membershipId roles) (view (ws ++ [.memberships (.insert record)]) db) :=
      view_append ..
    have hnamed : (namedRoles principal.organizationId roleIds
        (view ((ws ++ [.memberships (.insert record)]) ++ linksOf membershipId roles) db)).mapM
          roleToDomain = .ok roles := by
      rw [namedRoles, hseen, hsameRoles, hview]
      exact hroles
    obtain ⟨loaded, hloaded⟩ := load_named hnamed
      (rfl : record.organizationId = principal.organizationId) fun link hlink hid ↦ by
        rw [hseen] at hlink
        refine (hlinked link hlink).resolve_left fun hold ↦ ?_
        rw [hview] at hold
        exact hnew.links link hold hid
    rw [wp_bind, Memberships.load, wp_bind, wp_read]
    rintro _ rfl
    refine wp_check_alone.mpr ⟨fun _ _ ↦ ?_, fun e he ↦ ?_⟩
    swap
    · cases hloaded.symm.trans he
    rw [wp_pure, wp_bind]
    refine wp_append_alone fun events hevents ↦ ?_
    rintro _ rfl
    refine ⟨events, hevents, congrArg _ (congrArg (view · db) ?_)⟩
    simp only [linksOf, List.append_assoc, List.cons_append, List.nil_append]
    rfl
  obtain ⟨events, hevents, hrun⟩ := hwp.run interference_eq
  exact ⟨events, hevents, hrun⟩

namespace InviteMember

variable (unicode : Unicode) (principal : Principal) (email : PyStr) (roleIds : List Uuid)

/-- The roles that are named, all of them there and the caller's to grant. -/
def resolved (db : Database) : Except DomainError (List Role) :=
  if roleIds.isEmpty then
    .error (.ValidationError (py "At least one role must be assigned.") (py "role_ids") [])
  else ((namedRoles principal.organizationId roleIds db).mapM roleToDomain).bind fun roles ↦
    if roles.length != roleIds.dedup.length then .error (.NotFoundError (py "Role"))
    else (principal.assertCanGrant (grantedBy roles)).map fun _ ↦ roles

/-- Whether the licence has room for another member. -/
def licensed (db : Database) : Except DomainError Unit :=
  match db.licenses.rows.find? fun license ↦ license.organizationId == principal.organizationId with
  | none => .ok ()
  | some license => license.checkUsers (db.memberships.rows.countP fun row ↦
      row.organizationId == principal.organizationId)

/-- What is checked before the address is looked up: the permission of the caller, the form of the
address, the roles and the licence. -/
def admission (db : Database) : Except DomainError (PyStr × List Role) :=
  (principal.require .USER_INVITE).bind fun _ ↦ (EmailAddress.make unicode email).bind fun address ↦
    (resolved principal roleIds db).bind fun roles ↦
      (licensed principal db).map fun _ ↦ (address, roles)

variable {unicode principal email roleIds} {R : Type} {db : Database}

/-- A call that is admitted has a well-formed address and names roles that can be loaded. -/
theorem admission_eq_ok {address : PyStr} {roles : List Role}
    (h : admission unicode principal email roleIds db = .ok (address, roles)) :
    EmailAddress.make unicode email = .ok address ∧
      (namedRoles principal.organizationId roleIds db).mapM roleToDomain = .ok roles := by
  obtain ⟨_, -, h⟩ := Checked.bind_eq_ok.mp h
  obtain ⟨address', haddress, h⟩ := Checked.bind_eq_ok.mp h
  obtain ⟨roles', hroles, h⟩ := Checked.bind_eq_ok.mp h
  have hresult : (address', roles') = (address, roles) := by
    cases hlicensed : licensed principal db with
    | error e =>
        rw [hlicensed] at h
        cases h
    | ok _ =>
        rw [hlicensed] at h
        exact Except.ok.inj h
  obtain ⟨rfl, rfl⟩ := Prod.mk.inj hresult
  refine ⟨haddress, ?_⟩
  unfold resolved at hroles
  split at hroles
  · cases hroles
  obtain ⟨loaded, hloaded, hroles⟩ := Checked.bind_eq_ok.mp hroles
  split at hroles
  · cases hroles
  rw [hloaded]
  cases hgrant : principal.assertCanGrant (grantedBy loaded) with
  | error e =>
      rw [hgrant] at hroles
      cases hroles
  | ok _ =>
      rw [hgrant] at hroles
      exact hroles

theorem reads_resolve_roles : Reads (resolveRoles principal roleIds : Tx R _)
    (resolved principal roleIds) := by
  intro db
  unfold resolved
  rw [resolveRoles, refuseIf]
  by_cases hempty : roleIds.isEmpty = true
  · rw [if_pos hempty, if_pos hempty]
    rfl
  rw [if_neg hempty, if_neg hempty]
  show eval (check ((namedRoles principal.organizationId roleIds db).mapM roleToDomain) >>= _) [] db =
    _
  cases (namedRoles principal.organizationId roleIds db).mapM roleToDomain with
  | error e => rfl
  | ok roles =>
      unfold Except.bind
      dsimp only
      show eval (check (if roles.length != roleIds.dedup.length then _ else _) >>= _) [] db = _
      by_cases hcount : (roles.length != roleIds.dedup.length) = true
      · rw [if_pos hcount, if_pos hcount]
        rfl
      rw [if_neg hcount, if_neg hcount]
      show eval (check (principal.assertCanGrant (grantedBy roles)) >>= _) [] db = _
      cases principal.assertCanGrant (grantedBy roles) <;> rfl

theorem reads_check_license :
    Reads (checkLicense principal.organizationId : Tx R _) (licensed principal) := by
  intro db
  unfold licensed
  show eval (match db.licenses.rows.find? fun license ↦
    license.organizationId == principal.organizationId with | none => _ | some license => _) [] db = _
  cases db.licenses.rows.find? fun license ↦
      license.organizationId == principal.organizationId with
  | none => rfl
  | some license =>
      show eval (check (license.checkUsers (db.memberships.rows.countP fun row ↦
        row.organizationId == principal.organizationId))) [] db = _
      dsimp only
      cases license.checkUsers _ <;> rfl

/-- An invitation is refused before the address is looked up, or goes on to look it up. -/
theorem run_execute (fullName : PyStr) (userId membershipId : Uuid) (db : Database) :
    run (execute unicode principal email fullName roleIds userId membershipId) [] db =
      match admission unicode principal email roleIds db with
      | .ok (address, roles) =>
          run (invitee address fullName userId >>= invite principal roles membershipId) [] db
      | .error e => ((false, .error e), db) := by
  rw [execute, (reads_check _).run_bind, admission]
  cases principal.require .USER_INVITE with
  | error e => rfl
  | ok _ =>
  show run (check (EmailAddress.make unicode email) >>= _) [] db = _
  rw [(reads_check _).run_bind]
  cases EmailAddress.make unicode email with
  | error e => rfl
  | ok address =>
  show run (resolveRoles principal roleIds >>= _) [] db = _
  rw [reads_resolve_roles.run_bind]
  unfold Except.bind
  dsimp only
  cases resolved principal roleIds db with
  | error e => rfl
  | ok roles =>
  show run (checkLicense principal.organizationId >>= _) [] db = _
  rw [reads_check_license.run_bind]
  dsimp only
  cases licensed principal db <;> rfl

/-- An invitation that is admitted goes on to look the address up. -/
theorem run_admitted {address : PyStr} {roles : List Role}
    (h : admission unicode principal email roleIds db = .ok (address, roles)) (fullName : PyStr)
    (userId membershipId : Uuid) :
    run (execute unicode principal email fullName roleIds userId membershipId) [] db =
      run (invitee address fullName userId >>= invite principal roles membershipId) [] db := by
  rw [run_execute, h]

end InviteMember

/-! ## With an account and without -/

/-- What a database has for an address: an account, or none. A new one would be drawn an identifier
that no user has, and the users of the members of the organization are there. -/
structure HasAccount (organizationId drawn : Uuid) (address : PyStr) (account : Option User)
    (db : Database) : Prop where
  found : (db.users.rows.filter fun user ↦ user.email == address) = account.toList
  fresh : ∀ user ∈ db.users.rows, user.id ≠ drawn
  referenced : ∀ row ∈ db.memberships.rows, row.organizationId = organizationId →
    ∃ user ∈ db.users.rows, user.id = row.userId

/-- Two databases have the same for an organization, but for the account of an address. What they
have in other tables, and for other organizations, is not compared. -/
structure SameButAccount (organizationId : Uuid) (address : PyStr) (db db' : Database) : Prop where
  others : (db'.users.rows.filter fun user ↦ user.email != address) =
    db.users.rows.filter fun user ↦ user.email != address
  members : (db'.memberships.rows.filter fun row ↦ row.organizationId == organizationId) =
    db.memberships.rows.filter fun row ↦ row.organizationId == organizationId
  links : ∀ row ∈ db.memberships.rows, row.organizationId = organizationId → ∀ roleId,
    ⟨row.id, roleId⟩ ∈ db'.membershipRoles.rows ↔ ⟨row.id, roleId⟩ ∈ db.membershipRoles.rows
  roles : db'.roles = db.roles
  licenses : db'.licenses = db.licenses

/-- The person who is invited: the account of the address, or a new one. -/
def invitedPerson (account : Option User) (drawn : Uuid) (address fullName : PyStr) : User :=
  account.getD (User.invited drawn address fullName)

/-- Whether a user has a membership of an organization. -/
def IsMember (organizationId userId : Uuid) (db : Database) : Prop :=
  ∃ row ∈ db.memberships.rows, row.organizationId = organizationId ∧ row.userId = userId

section
variable {organizationId drawn : Uuid} {address fullName : PyStr} {account account' : Option User}
variable {db db' : Database}

/-- The account is what is found under the address. -/
theorem HasAccount.mem_iff (h : HasAccount organizationId drawn address account db) {user : User} :
    account = some user ↔ user ∈ db.users.rows ∧ user.email = address := by
  rw [← Option.mem_toList, ← h.found, List.mem_filter, beq_iff_eq]

/-- A user with the identifier of the person who is invited is the account. -/
theorem HasAccount.mem_of_id (h : HasAccount organizationId drawn address account db) {user : User}
    (huser : user ∈ db.users.rows)
    (hid : user.id = (invitedPerson account drawn address fullName).id) : account = some user := by
  cases haccount : account with
  | none =>
      rw [haccount] at hid
      exact absurd hid (h.fresh user huser)
  | some person =>
      rw [haccount] at hid
      have hmem := h.mem_iff.mp haccount
      exact congrArg some (Table.eq_of_key_eq hmem.1 huser hid.symm)

/-- Alone, the invited person is found or made, and no other user is changed. -/
theorem HasAccount.eval_invitee (h : HasAccount organizationId drawn address account db)
    {R : Type} (fullName : PyStr) :
    ∃ ws users, eval (InviteMember.invitee address fullName drawn : Tx R User) [] db =
        .ok (invitedPerson account drawn address fullName, ws) ∧
      (account.isSome → ws = []) ∧ view ws db = { db with users := users } ∧
      ∀ userId, users.find? userId =
        if (invitedPerson account drawn address fullName).id = userId then
          some (invitedPerson account drawn address fullName)
        else db.users.find? userId := by
  have hfind : (db.users.rows.find? fun user ↦ user.email == address) = account := by
    rw [← List.head?_filter, h.found, Option.head?_toList]
  have hget : eval (Users.getByEmail address : Tx R (Option User)) [] db = .ok (account, []) :=
    congrArg (fun found ↦ Except.ok (found, [])) hfind
  rw [InviteMember.invitee, eval_bind, hget]
  cases haccount : account with
  | none =>
      have hfree : usersTable.violates (User.invited drawn address fullName) db = false := by
        refine List.any_eq_false.mpr fun user huser ↦ ?_
        rw [Bool.or_eq_true, not_or, beq_iff_eq]
        refine ⟨h.fresh user huser, fun hemail ↦ ?_⟩
        have hmem := h.mem_iff.mpr ⟨huser, beq_iff_eq.mp hemail⟩
        rw [haccount] at hmem
        cases hmem
      refine ⟨[.users (.insert (User.invited drawn address fullName))], _, ?_,
        fun hsome ↦ absurd hsome Bool.false_ne_true, rfl, fun userId ↦ ?_⟩
      · show eval ((Users.add (User.invited drawn address fullName) : Tx R Unit) >>= fun _ ↦
          pure (User.invited drawn address fullName)) [] db = _
        rw [eval_bind, Users.add, TableAt.eval_insert_of_not_violates hfree]
        rfl
      · have hnone : db.users.find? drawn = none := Table.find_eq_none_iff.mpr h.fresh
        refine (RowWrite.find_apply (.insert (User.invited drawn address fullName)) _ _).trans ?_
        show (if drawn = userId then _ else _) = if drawn = userId then _ else _
        split
        · next hid =>
            rw [← hid, hnone]
            rfl
        · rfl
  | some person =>
      refine ⟨[], db.users, rfl, fun _ ↦ rfl, rfl, fun userId ↦ ?_⟩
      have hmem := h.mem_iff.mp haccount
      show _ = if person.id = userId then some person else _
      split
      · next hid => exact Table.find_eq_some_iff.mpr ⟨hmem.1, hid⟩
      · rfl

/-- The relation does not depend on the order. -/
theorem SameButAccount.symm (h : SameButAccount organizationId address db db') :
    SameButAccount organizationId address db' db where
  others := h.others.symm
  members := h.members.symm
  links row hrow horganization roleId := by
    have hmem : row ∈ db'.memberships.rows.filter fun row ↦ row.organizationId == organizationId :=
      List.mem_filter.mpr ⟨hrow, beq_iff_eq.mpr horganization⟩
    rw [h.members] at hmem
    exact (h.links row (List.mem_filter.mp hmem).1 horganization roleId).symm
  roles := h.roles.symm
  licenses := h.licenses.symm

/-- A member is in both databases. -/
theorem SameButAccount.mem_right (h : SameButAccount organizationId address db db')
    {row : MembershipRecord} (hrow : row ∈ db.memberships.rows)
    (horganization : row.organizationId = organizationId) : row ∈ db'.memberships.rows := by
  have hmem : row ∈ db.memberships.rows.filter fun row ↦ row.organizationId == organizationId :=
    List.mem_filter.mpr ⟨hrow, beq_iff_eq.mpr horganization⟩
  rw [← h.members] at hmem
  exact (List.mem_filter.mp hmem).1

/-- A member who is the invited person in one database is the invited person in the other. -/
theorem SameButAccount.member_right (h : SameButAccount organizationId address db db')
    (hleft : HasAccount organizationId drawn address account db)
    (hright : HasAccount organizationId drawn address account' db') {row : MembershipRecord}
    (hrow : row ∈ db.memberships.rows) (horganization : row.organizationId = organizationId)
    (huser : row.userId = (invitedPerson account drawn address fullName).id) :
    row.userId = (invitedPerson account' drawn address fullName).id := by
  obtain ⟨person, hperson, hid⟩ := hleft.referenced row hrow horganization
  obtain ⟨person', hperson', hid'⟩ :=
    hright.referenced row (h.mem_right hrow horganization) horganization
  have hemail : person.email = address :=
    (hleft.mem_iff.mp (hleft.mem_of_id hperson (hid.trans huser))).2
  -- another user of the second database would be one of the first, which has only one with the id
  have hemail' : person'.email = address := by
    by_contra hother
    have hmem : person' ∈ db'.users.rows.filter fun user ↦ user.email != address :=
      List.mem_filter.mpr ⟨hperson', bne_iff_ne.mpr hother⟩
    rw [h.others] at hmem
    have hsame : person' = person :=
      Table.eq_of_key_eq (List.mem_filter.mp hmem).1 hperson (hid'.trans hid.symm)
    exact hother (hsame ▸ hemail)
  have haccount' : account' = some person' := hright.mem_iff.mpr ⟨hperson', hemail'⟩
  rw [← hid', haccount']
  rfl

/-- Users who are not invited are the same. -/
theorem SameButAccount.find_user (h : SameButAccount organizationId address db db')
    (hleft : HasAccount organizationId drawn address account db)
    (hright : HasAccount organizationId drawn address account' db') {userId : Uuid}
    (hne : userId ≠ (invitedPerson account drawn address fullName).id)
    (hne' : userId ≠ (invitedPerson account' drawn address fullName).id) :
    db'.users.find? userId = db.users.find? userId := by
  have hother : ∀ {account : Option User} {db : Database},
      HasAccount organizationId drawn address account db →
      userId ≠ (invitedPerson account drawn address fullName).id → db.users.find? userId =
        (db.users.rows.filter fun user ↦ user.email != address).find? fun user ↦
          key user == userId := by
    intro account db h hne
    unfold Table.find?
    rw [← List.head?_filter, ← List.head?_filter, List.filter_filter]
    refine congrArg _ (List.filter_congr fun user huser ↦ ?_)
    rw [Bool.eq_iff_iff, Bool.and_eq_true, bne_iff_ne, beq_iff_eq]
    refine (and_iff_left_of_imp fun hkey hemail ↦ hne ?_).symm
    have haccount : account = some user := h.mem_iff.mpr ⟨huser, hemail⟩
    rw [haccount]
    exact hkey.symm
  rw [hother hleft hne, hother hright hne', h.others]

/-- The two databases are alike, also with the users that an invitation leaves, while the invited
person is no member or shows the same. -/
theorem SameButAccount.alike (h : SameButAccount organizationId address db db')
    (hleft : HasAccount organizationId drawn address account db)
    (hright : HasAccount organizationId drawn address account' db') (fullName : PyStr)
    (users users' : Table User)
    (hothers : ∀ userId, userId ≠ (invitedPerson account drawn address fullName).id →
      userId ≠ (invitedPerson account' drawn address fullName).id →
        users'.find? userId = users.find? userId)
    (hinvited : IsMember organizationId (invitedPerson account drawn address fullName).id db →
      (users'.find? (invitedPerson account' drawn address fullName).id).map User.profile =
        (users.find? (invitedPerson account drawn address fullName).id).map User.profile) :
    Alike organizationId (invitedPerson account drawn address fullName).id
      (invitedPerson account' drawn address fullName).id { db with users := users }
      { db' with users := users' } where
  memberships := by
    refine h.members.trans ((List.map_congr_left fun row hrow ↦ ?_).trans (List.map_id _)).symm
    obtain ⟨hmem, horganization⟩ := List.mem_filter.mp hrow
    unfold MembershipRecord.rename renamed
    split
    · next huser =>
        rw [← h.member_right hleft hright hmem (beq_iff_eq.mp horganization) huser]
        rfl
    · rfl
  roles := h.roles
  links := h.links
  others := hothers
  invited row hrow horganization huser := hinvited ⟨row, hrow, horganization, huser⟩
  stranger row hrow horganization huser huser' :=
    huser (h.symm.member_right hright hleft (h.mem_right hrow horganization) horganization huser')

/-- The account that is found is the user with its identifier. -/
theorem HasAccount.find_person (h : HasAccount organizationId drawn address account db)
    (hmember : IsMember organizationId (invitedPerson account drawn address fullName).id db) :
    db.users.find? (invitedPerson account drawn address fullName).id =
      some (invitedPerson account drawn address fullName) := by
  obtain ⟨row, hrow, horganization, huser⟩ := hmember
  obtain ⟨user, hmem, hid⟩ := h.referenced row hrow horganization
  have haccount := h.mem_of_id hmem (hid.trans huser)
  rw [haccount]
  exact Table.find_eq_some_iff.mpr ⟨hmem, rfl⟩

/-- A member has an account, which is found. -/
theorem HasAccount.eval_member (h : HasAccount organizationId drawn address account db)
    (hmember : IsMember organizationId (invitedPerson account drawn address fullName).id db)
    {R : Type} :
    eval (InviteMember.invitee address fullName drawn : Tx R User) [] db =
      .ok (invitedPerson account drawn address fullName, []) := by
  obtain ⟨row, hrow, horganization, huser⟩ := hmember
  obtain ⟨user, hmem, hid⟩ := h.referenced row hrow horganization
  have haccount := h.mem_of_id hmem (hid.trans huser)
  obtain ⟨ws, users, heval, hnil, -⟩ := h.eval_invitee (R := R) fullName
  rw [heval, hnil (by rw [haccount]; rfl)]

/-- A member of one database is the same member of the other. -/
theorem SameButAccount.is_member_right (h : SameButAccount organizationId address db db')
    (hleft : HasAccount organizationId drawn address account db)
    (hright : HasAccount organizationId drawn address account' db')
    (hmember : IsMember organizationId (invitedPerson account drawn address fullName).id db) :
    IsMember organizationId (invitedPerson account' drawn address fullName).id db' ∧
      (invitedPerson account' drawn address fullName).id =
        (invitedPerson account drawn address fullName).id := by
  obtain ⟨row, hrow, horganization, huser⟩ := hmember
  have huser' := h.member_right hleft hright hrow horganization huser
  exact ⟨⟨row, h.mem_right hrow horganization, horganization, huser'⟩, huser'.symm.trans huser⟩

/-- The checks before the look-up end in the same way. -/
theorem SameButAccount.admission {principal : Principal} (unicode : Unicode) (email : PyStr)
    (roleIds : List Uuid) (h : SameButAccount principal.organizationId address db db') :
    InviteMember.admission unicode principal email roleIds db' =
      InviteMember.admission unicode principal email roleIds db := by
  unfold InviteMember.admission InviteMember.resolved InviteMember.licensed namedRoles
  rw [h.roles, h.licenses, List.countP_eq_length_filter, List.countP_eq_length_filter, h.members]

/-- The membership of a user in an organization, or the error of loading it. -/
def membershipOf (organizationId userId : Uuid) (db : Database) :
    Except DomainError (Option Membership) :=
  match db.memberships.rows.find? fun row ↦
    row.organizationId == organizationId && row.userId == userId with
  | none => .ok none
  | some record =>
      (membershipToDomain record (Memberships.rolesOf organizationId record.id db)).map some

theorem reads_get_for_user (organizationId userId : Uuid) {R : Type} :
    Reads (Memberships.getForUser organizationId userId : Tx R _)
      (membershipOf organizationId userId) := by
  intro db
  unfold membershipOf
  show eval (match db.memberships.rows.find? fun row ↦
    row.organizationId == organizationId && row.userId == userId with
      | none => _
      | some record => _) [] db = _
  cases db.memberships.rows.find? fun row ↦
      row.organizationId == organizationId && row.userId == userId with
  | none => rfl
  | some record =>
      show eval (check (membershipToDomain record
        (Memberships.rolesOf organizationId record.id db)) >>= _) [] db = _
      dsimp only
      cases membershipToDomain record (Memberships.rolesOf organizationId record.id db) <;> rfl

/-- The membership of a user is the same in both. -/
theorem SameButAccount.membership_of (h : SameButAccount organizationId address db db')
    (userId : Uuid) :
    membershipOf organizationId userId db' = membershipOf organizationId userId db := by
  have hfind : ∀ rows : List MembershipRecord, (rows.find? fun row ↦
      row.organizationId == organizationId && row.userId == userId) =
        (rows.filter fun row ↦ row.organizationId == organizationId).find? fun row ↦
          row.userId == userId := by
    intro rows
    rw [List.find?_filter]
    congr 1
    funext row
    rw [Bool.eq_iff_iff, decide_eq_true_iff, Bool.and_eq_true]
  unfold membershipOf
  rw [hfind, hfind, h.members]
  cases hfound : (db.memberships.rows.filter fun row ↦
      row.organizationId == organizationId).find? fun row ↦ row.userId == userId with
  | none => rfl
  | some row =>
      obtain ⟨hmem, horganization⟩ := List.mem_filter.mp (List.mem_of_find?_eq_some hfound)
      dsimp only
      rw [roles_of_congr h.roles (h.links row hmem (beq_iff_eq.mp horganization))]

/-- An invitation of a member is refused. -/
theorem run_invite_member {principal : Principal} {user : User}
    (hmember : IsMember principal.organizationId user.id db) (roles : List Role)
    (membershipId : Uuid) :
    ∃ e, run (InviteMember.invite principal roles membershipId user) [] db =
        ((false, .error e), db) ∧
      e = (match membershipOf principal.organizationId user.id db with
        | .ok _ => .ConflictError (py "This person is already a member of the organization.")
        | .error e => e) := by
  refine ⟨_, ?_, rfl⟩
  rw [InviteMember.invite, (reads_get_for_user _ _).run_bind]
  cases hfound : membershipOf principal.organizationId user.id db with
  | error e => rfl
  | ok existing =>
      cases existing with
      | some membership => rfl
      | none =>
          obtain ⟨row, hrow, horganization, huser⟩ := hmember
          exfalso
          unfold membershipOf at hfound
          split at hfound
          · next hnone =>
              refine List.find?_eq_none.mp hnone row hrow ?_
              rw [horganization, huser]
              simp
          · next record _ =>
              cases hload : membershipToDomain record
                (Memberships.rolesOf principal.organizationId record.id db) with
              | error e =>
                  rw [hload] at hfound
                  cases hfound
              | ok membership =>
                  rw [hload] at hfound
                  cases hfound

/-- Alone, a person who is no member yet is found or made, and invited. -/
theorem HasAccount.run_new {principal : Principal} {roles : List Role} {roleIds : List Uuid}
    {membershipId : Uuid}
    (h : HasAccount principal.organizationId drawn address account db) (fullName : PyStr)
    (hmember : ¬ IsMember principal.organizationId
      (invitedPerson account drawn address fullName).id db)
    (hnew : NewMember membershipId db)
    (hroles : (namedRoles principal.organizationId roleIds db).mapM roleToDomain = .ok roles) :
    ∃ users events, (∀ u ∈ events, Write.IsAudit u) ∧
      (∀ userId, users.find? userId =
        if (invitedPerson account drawn address fullName).id = userId then
          some (invitedPerson account drawn address fullName)
        else db.users.find? userId) ∧
      run (InviteMember.invitee address fullName drawn >>=
          InviteMember.invite principal roles membershipId) [] db =
        ((true, .ok (memberSummary ⟨membershipId, principal.organizationId,
            (invitedPerson account drawn address fullName).id, roles, .INVITED, principal.userId,
            none⟩ (invitedPerson account drawn address fullName))),
          view events (view (linksOf membershipId roles) (Store.apply { db with users := users }
            (.memberships (.insert ⟨membershipId, principal.organizationId,
              (invitedPerson account drawn address fullName).id, .INVITED, principal.userId,
              none⟩))))) := by
  obtain ⟨ws, users, heval, -, hview, husers⟩ := h.eval_invitee (R := MemberSummary) fullName
  have hmember' : ∀ row ∈ (view ws db).memberships.rows,
      row.organizationId = principal.organizationId →
        row.userId ≠ (invitedPerson account drawn address fullName).id := by
    rw [hview]
    exact fun row hrow horganization huser ↦ hmember ⟨row, hrow, horganization, huser⟩
  have hnew' : NewMember membershipId (view ws db) := by
    rw [hview]
    exact ⟨hnew.row, hnew.links⟩
  have hroles' : (namedRoles principal.organizationId roleIds (view ws db)).mapM roleToDomain =
      .ok roles := by
    rw [hview]
    exact hroles
  obtain ⟨events, hevents, hrun⟩ := run_invite hmember' hnew' hroles'
  refine ⟨users, events, hevents, husers, ?_⟩
  rw [run_bind_of_eval heval, hrun, view_append, hview, List.cons_append]
  exact congrArg _ (view_append (linksOf membershipId roles) events _)

/-- What a summary shows of the user tells the profile. -/
theorem profile_of_summary {membership membership' : Membership} {person person' : User}
    {f : Uuid → Uuid}
    (h : memberSummary membership' person' = (memberSummary membership person).rename f) :
    person'.profile = person.profile := by
  have hemail : person'.email = person.email := congrArg MemberSummary.email h
  have hname : person'.fullName = person.fullName := congrArg MemberSummary.fullName h
  have hlogin : person'.lastLoginAt = person.lastLoginAt := congrArg MemberSummary.lastLoginAt h
  unfold User.profile
  rw [hemail, hname, hlogin]

end

/-! ## Reading the account off the list -/

/-- The removal of some memberships. -/
def removals (ids : List Uuid) : List Write :=
  ids.map fun id ↦ .memberships (.delete id)

/-- The removal of some links. -/
def unlinks (links : List MembershipRole) : List Write :=
  links.map fun link ↦ .membershipRoles (.delete (key link))

section
variable {organizationId drawn account : Uuid} {db db' : Database}

/-- What remains when some memberships are removed. -/
theorem view_removals (ids : List Uuid) (db : Database) :
    (∀ row, row ∈ (view (removals ids) db).memberships.rows ↔
        row ∈ db.memberships.rows ∧ row.id ∉ ids) ∧
      (view (removals ids) db).users = db.users ∧
      ∀ link ∈ (view (removals ids) db).membershipRoles.rows, link ∈ db.membershipRoles.rows := by
  induction ids generalizing db with
  | nil => exact ⟨fun row ↦ by simp [removals], rfl, fun link hlink ↦ hlink⟩
  | cons id ids ih =>
      obtain ⟨hrows, husers, hlinks⟩ := ih (Store.apply db (.memberships (.delete id)))
      refine ⟨fun row ↦ ?_, husers, fun link hlink ↦ ?_⟩
      · refine (hrows row).trans ?_
        show row ∈ (db.memberships.delete id).rows ∧ _ ↔ _
        rw [Table.mem_delete, List.mem_cons, not_or, and_assoc]
        rfl
      · have hmem : link ∈ (db.membershipRoles.deleteIf fun link ↦ link.membershipId == id).rows :=
          hlinks link hlink
        exact (Table.mem_delete_if.mp hmem).1

/-- What remains when some links are removed. -/
theorem view_unlinks (links : List MembershipRole) (db : Database) :
    (view (unlinks links) db).memberships = db.memberships ∧
      (view (unlinks links) db).users = db.users ∧
      ∀ link ∈ (view (unlinks links) db).membershipRoles.rows,
        link ∈ db.membershipRoles.rows ∧ link ∉ links := by
  induction links generalizing db with
  | nil => exact ⟨rfl, rfl, fun link hlink ↦ ⟨hlink, List.not_mem_nil⟩⟩
  | cons removed links ih =>
      obtain ⟨hrows, husers, hlinks⟩ := ih (Store.apply db (.membershipRoles (.delete (key removed))))
      refine ⟨hrows, husers, fun link hlink ↦ ?_⟩
      obtain ⟨hmem, hnot⟩ := hlinks link hlink
      obtain ⟨hold, hkey⟩ := Table.mem_delete.mp hmem
      refine ⟨hold, fun hcons ↦ ?_⟩
      rcases List.mem_cons.mp hcons with rfl | hrest
      · exact hkey rfl
      · exact hnot hrest

/-- Others may remove memberships and links in both databases. -/
theorem onward_removals (ids : List Uuid) (links : List MembershipRole) :
    Onward organizationId drawn account db db'
      (view (unlinks links) (view (removals ids) db))
      (view (unlinks links) (view (removals ids) db')) := by
  have hremovals : ∀ {e e' : Database}, Onward organizationId drawn account db db' e e' →
      Onward organizationId drawn account db db' (view (removals ids) e)
        (view (removals ids) e') := by
    induction ids with
    | nil => exact fun h ↦ h
    | cons id ids ih => exact fun h ↦ ih (h.both (.delete id))
  have hunlinks : ∀ {e e' : Database}, Onward organizationId drawn account db db' e e' →
      Onward organizationId drawn account db db' (view (unlinks links) e)
        (view (unlinks links) e') := by
    induction links with
    | nil => exact fun h ↦ h
    | cons link links ih => exact fun h ↦ ih (h.both (.links _))
  exact hunlinks (hremovals .refl)

/-- The only member, without roles, is shown. -/
theorem member_page_of_only {reader : Principal} {row : MembershipRecord} {person : User}
    (hreader : reader.require .ORG_READ = .ok ())
    (hrows : ∀ other, other ∈ db.memberships.rows ∧
      other.organizationId = reader.organizationId ↔ other = row)
    (hlinks : ∀ link, link ∉ db.membershipRoles.rows)
    (huser : db.users.find? row.userId = some person) (lib : Library)
    (createdAt : Uuid → Instant) :
    memberPage lib createdAt reader 1 none db =
      .ok ⟨[memberSummary ⟨row.id, row.organizationId, row.userId, [], row.status, row.invitedBy,
        row.joinedAt⟩ person], none, 1⟩ := by
  have hfilter : (db.memberships.rows.filter fun other ↦
      other.organizationId == reader.organizationId && (none : Option (Instant × Uuid)).all
        (Memberships.after createdAt · other)) = [row] := by
    refine List.perm_singleton.mp ((List.perm_ext_iff_of_nodup ?_ (List.nodup_singleton row)).mpr
      fun other ↦ ?_)
    · exact (List.Nodup.of_map key db.memberships.nodup).filter _
    · rw [List.mem_filter, List.mem_singleton, ← hrows, Bool.and_eq_true, beq_iff_eq]
      simp
  have hlisted : Memberships.listed createdAt reader.organizationId 1 none db = [row] := by
    unfold Memberships.listed
    rw [hfilter, List.perm_singleton.mp (ordered_perm _ [row])]
    rfl
  have hroles : Memberships.rolesOf reader.organizationId row.id db = [] := by
    unfold Memberships.rolesOf
    rw [List.eq_nil_iff_forall_not_mem.mpr hlinks]
    simp
  have hloaded : loadedRows createdAt reader.organizationId 1 none db = [(row, [])] := by
    rw [loadedRows, hlisted, List.map_singleton, hroles]
  unfold memberPage
  rw [hreader]
  show (pageOf createdAt 1 (loadedRows createdAt reader.organizationId 1 none db)).map _ = _
  rw [hloaded]
  show Except.ok (MemberPage.mk (summaries [⟨row.id, row.organizationId, row.userId, [], row.status,
    row.invitedBy, row.joinedAt⟩] db) none 1) = _
  unfold summaries
  rw [List.filterMap_cons, huser]
  rfl

end

/-! ## What an invitation tells -/

/-- What an invitation answers in two databases, and what every listing of the members answers that
follows it, is the same but for the identifier of the invited person. -/
def InviteMember.Hides (unicode : Unicode) (lib : Library) (createdAt : Uuid → Instant)
    (principal : Principal) (email fullName : PyStr) (roleIds : List Uuid)
    (userId membershipId invited invited' : Uuid) (db db' : Database) : Prop :=
  let invitation := execute unicode principal email fullName roleIds userId membershipId
  (run invitation [] db').1 = ((run invitation [] db).1.1,
      (run invitation [] db).1.2.map (MemberSummary.rename (renamed invited invited'))) ∧
    ∀ e e', Onward principal.organizationId invited invited' (run invitation [] db).2
        (run invitation [] db').2 e e' →
      ∀ (reader : Principal) (limit : Nat) (cursor : Option PyStr),
        reader.organizationId = principal.organizationId →
          let listing := ListMembers.execute lib createdAt reader limit cursor
          (run listing [] e').1 = ((run listing [] e).1.1,
            (run listing [] e).1.2.map (MemberPage.rename (renamed invited invited')))

section
variable {unicode : Unicode} {lib : Library} {createdAt : Uuid → Instant} {principal : Principal}
variable {email address fullName : PyStr} {roleIds : List Uuid} {drawn membershipId : Uuid}
variable {account account' : Option User} {db db' : Database}

/-- Alike databases list alike. -/
theorem Alike.listing {invited invited' : Uuid}
    (h : Alike principal.organizationId invited invited' db db') (lib : Library)
    (createdAt : Uuid → Instant) {reader : Principal}
    (hreader : reader.organizationId = principal.organizationId) (limit : Nat)
    (cursor : Option PyStr) :
    (run (ListMembers.execute lib createdAt reader limit cursor) [] db').1 =
      ((run (ListMembers.execute lib createdAt reader limit cursor) [] db).1.1,
        (run (ListMembers.execute lib createdAt reader limit cursor) [] db).1.2.map
          (MemberPage.rename (renamed invited invited'))) := by
  rw [run_list_members, run_list_members, h.member_page lib createdAt hreader]

/-- A call of a member, or one that is refused before, is refused in both databases. -/
theorem SameButAccount.run_refused (h : SameButAccount principal.organizationId address db db')
    (haddress : EmailAddress.make unicode email = .ok address)
    (hleft : HasAccount principal.organizationId drawn address account db)
    (hright : HasAccount principal.organizationId drawn address account' db') (fullName : PyStr)
    (roleIds : List Uuid) (membershipId : Uuid)
    (hrefused : IsMember principal.organizationId
        (invitedPerson account drawn address fullName).id db ∨
      ∀ roles, InviteMember.admission unicode principal email roleIds db ≠ .ok (address, roles)) :
    ∃ e, ∀ d ∈ [db, db'],
      run (InviteMember.execute unicode principal email fullName roleIds drawn membershipId) [] d =
        ((false, .error e), d) := by
  cases hadmission : InviteMember.admission unicode principal email roleIds db with
  | error e =>
      refine ⟨e, fun d hd ↦ ?_⟩
      rw [InviteMember.run_execute]
      rcases List.mem_pair.mp hd with rfl | rfl
      · rw [hadmission]
      · rw [h.admission, hadmission]
  | ok admitted =>
      obtain ⟨address', roles⟩ := admitted
      obtain ⟨haddress', -⟩ := InviteMember.admission_eq_ok hadmission
      obtain rfl : address = address' := Except.ok.inj (haddress.symm.trans haddress')
      have hmember := hrefused.resolve_right fun hnever ↦ hnever roles hadmission
      obtain ⟨hmember', hsame⟩ := h.is_member_right hleft hright hmember
      obtain ⟨e, hrun, he⟩ := run_invite_member hmember roles membershipId
      obtain ⟨e', hrun', he'⟩ := run_invite_member hmember' roles membershipId
      obtain rfl : e' = e := by rw [he, he', hsame, h.membership_of]
      refine ⟨e', fun d hd ↦ ?_⟩
      rw [InviteMember.run_execute]
      rcases List.mem_pair.mp hd with rfl | rfl
      · rw [hadmission]
        exact (run_bind_of_eval (hleft.eval_member hmember)).trans hrun
      · rw [h.admission, hadmission]
        exact (run_bind_of_eval (hright.eval_member hmember')).trans hrun'

/-- Whoever is a member is shown, once the other memberships and all roles are removed. -/
theorem SameButAccount.profile_of_listings
    (h : SameButAccount principal.organizationId address db db')
    (hleft : HasAccount principal.organizationId drawn address account db)
    (hright : HasAccount principal.organizationId drawn address account' db')
    (hmember : IsMember principal.organizationId (invitedPerson account drawn address fullName).id db)
    (lib : Library) (createdAt : Uuid → Instant)
    (hlisted : ∀ e e', Onward principal.organizationId
        (invitedPerson account drawn address fullName).id
        (invitedPerson account' drawn address fullName).id db db' e e' →
      ∀ (reader : Principal) (limit : Nat) (cursor : Option PyStr),
        reader.organizationId = principal.organizationId →
          memberPage lib createdAt reader limit cursor e' =
            (memberPage lib createdAt reader limit cursor e).map
              (MemberPage.rename (renamed (invitedPerson account drawn address fullName).id
                (invitedPerson account' drawn address fullName).id))) :
    (invitedPerson account' drawn address fullName).profile =
      (invitedPerson account drawn address fullName).profile := by
  obtain ⟨hmember', hsame⟩ := h.is_member_right hleft hright hmember
  have hperson := hleft.find_person hmember
  have hperson' := hright.find_person hmember'
  obtain ⟨row, hrow, horganization, huser⟩ := hmember
  let ids := (db.memberships.rows.filter fun other ↦ other.id != row.id).map MembershipRecord.id
  let links := db.membershipRoles.rows ++ db'.membershipRoles.rows
  let reader : Principal := { ownerPrincipal with organizationId := principal.organizationId }
  have hreader : reader.require .ORG_READ = .ok () := if_pos (Finset.mem_univ _)
  have hremains : ∀ {d : Database} {person : User},
      (∀ other : MembershipRecord, other.organizationId = principal.organizationId →
        (other ∈ d.memberships.rows ↔ other ∈ db.memberships.rows)) →
      (∀ link ∈ d.membershipRoles.rows, link ∈ links) →
      d.users.find? row.userId = some person →
        memberPage lib createdAt reader 1 none (view (unlinks links) (view (removals ids) d)) =
          .ok ⟨[memberSummary ⟨row.id, row.organizationId, row.userId, [], row.status, row.invitedBy,
            row.joinedAt⟩ person], none, 1⟩ := by
    intro d person hmembers hlinks hfound
    obtain ⟨hrows, husers, hsub⟩ := view_removals ids d
    obtain ⟨hrows', husers', hsub'⟩ := view_unlinks links (view (removals ids) d)
    refine member_page_of_only hreader (fun other ↦ ?_) (fun link hlink ↦ ?_)
      ?_ lib createdAt
    · rw [hrows', hrows]
      constructor
      · rintro ⟨⟨hmem, hnot⟩, hother⟩
        have hold := (hmembers other hother).mp hmem
        refine Table.eq_of_key_eq hold hrow (not_not.mp fun hne ↦ hnot ?_)
        exact List.mem_map_of_mem (List.mem_filter.mpr ⟨hold, bne_iff_ne.mpr hne⟩)
      · rintro rfl
        refine ⟨⟨(hmembers _ horganization).mpr hrow, fun hmem ↦ ?_⟩, horganization⟩
        obtain ⟨removed, hremoved, hid⟩ := List.mem_map.mp hmem
        exact bne_iff_ne.mp (List.mem_filter.mp hremoved).2 hid
    · obtain ⟨hmem, hnot⟩ := hsub' link hlink
      exact hnot (hlinks link (hsub link hmem))
    · rw [husers', husers, hfound]
  have hpage := hremains (fun _ _ ↦ Iff.rfl) (fun link hlink ↦ List.mem_append_left _ hlink)
    (huser ▸ hperson)
  have hpage' := hremains
    (fun other hother ↦ ⟨fun hmem ↦ h.symm.mem_right hmem hother, fun hmem ↦ h.mem_right hmem hother⟩)
    (fun link hlink ↦ List.mem_append_right _ hlink) ((huser.trans hsame.symm) ▸ hperson')
  have hequal := hlisted _ _ (onward_removals ids links) reader 1 none rfl
  rw [hpage, hpage'] at hequal
  have hitems := congrArg MemberPage.items (Except.ok.inj hequal)
  exact profile_of_summary (List.cons.inj hitems).1

/-- A person who is no member yet, and whose invitation is admitted, is shown in the answer; where
the profiles are the same, the databases that are left are alike. -/
theorem SameButAccount.invite_new (h : SameButAccount principal.organizationId address db db')
    (hleft : HasAccount principal.organizationId drawn address account db)
    (hright : HasAccount principal.organizationId drawn address account' db') {roles : List Role}
    (fullName : PyStr)
    (hadmission : InviteMember.admission unicode principal email roleIds db = .ok (address, roles))
    (hmember : ¬ IsMember principal.organizationId
      (invitedPerson account drawn address fullName).id db)
    (hnew : NewMember membershipId db) (hnew' : NewMember membershipId db') :
    ∃ e e' membership membership',
      run (InviteMember.execute unicode principal email fullName roleIds drawn membershipId) [] db =
        ((true, .ok (memberSummary membership (invitedPerson account drawn address fullName))), e) ∧
      run (InviteMember.execute unicode principal email fullName roleIds drawn membershipId) [] db' =
        ((true, .ok (memberSummary membership' (invitedPerson account' drawn address fullName))),
          e') ∧
      membership' = membership.rename (renamed (invitedPerson account drawn address fullName).id
        (invitedPerson account' drawn address fullName).id) ∧
      ((invitedPerson account' drawn address fullName).profile =
          (invitedPerson account drawn address fullName).profile →
        Alike principal.organizationId (invitedPerson account drawn address fullName).id
          (invitedPerson account' drawn address fullName).id e e') := by
  have hmember' : ¬ IsMember principal.organizationId
      (invitedPerson account' drawn address fullName).id db' := fun hmember' ↦
    hmember (h.symm.is_member_right hright hleft hmember').1
  obtain ⟨-, hroles⟩ := InviteMember.admission_eq_ok hadmission
  have hroles' : (namedRoles principal.organizationId roleIds db').mapM roleToDomain = .ok roles := by
    rw [namedRoles, h.roles]
    exact hroles
  obtain ⟨users, events, hevents, husers, hrun⟩ := hleft.run_new fullName hmember hnew hroles
  obtain ⟨users', events', hevents', husers', hrun'⟩ :=
    hright.run_new fullName hmember' hnew' hroles'
  have hadmission' := (h.admission unicode email roleIds).trans hadmission
  refine ⟨_, _, _, _,
    (InviteMember.run_admitted hadmission fullName drawn membershipId).trans hrun,
    (InviteMember.run_admitted hadmission' fullName drawn membershipId).trans hrun', ?_,
    fun hprofile ↦ ?_⟩
  · unfold Membership.rename renamed
    rw [if_pos rfl]
  -- alike with the two persons, then with their memberships, links and events
  have hbefore : Alike principal.organizationId (invitedPerson account drawn address fullName).id
      (invitedPerson account' drawn address fullName).id { db with users := users }
      { db' with users := users' } := by
    refine h.alike hleft hright fullName users users' (fun userId hne hne' ↦ ?_) fun his ↦ absurd his hmember
    rw [husers, husers', if_neg hne.symm, if_neg hne'.symm]
    exact h.find_user hleft hright hne hne'
  have hinserted := hbefore.insert ⟨membershipId, principal.organizationId,
    (invitedPerson account drawn address fullName).id, .INVITED, principal.userId, none⟩
    ⟨hnew.row, hnew.links⟩ ⟨hnew'.row, hnew'.links⟩
    (fun _ ↦ by
      show (users'.find? _).map _ = (users.find? _).map _
      rw [husers, husers', if_pos rfl, if_pos rfl, Option.map_some, Option.map_some, hprofile])
    (fun hne ↦ absurd rfl hne)
  unfold MembershipRecord.rename renamed at hinserted
  rw [if_pos rfl] at hinserted
  exact ((hinserted.links_of membershipId roles).left (same_view_of_audit hevents _)).right
    (same_view_of_audit hevents' _)

/-- An invitation, with the listings that follow it, hides the account of an address just when it is
refused before the address is looked up and the person is no member already, or what is shown of the
person is the same. -/
theorem invitation_hides_account_iff
    (haddress : EmailAddress.make unicode email = .ok address)
    (hleft : HasAccount principal.organizationId drawn address account db)
    (hright : HasAccount principal.organizationId drawn address account' db')
    (hsame : SameButAccount principal.organizationId address db db')
    (hnew : NewMember membershipId db) (hnew' : NewMember membershipId db') :
    InviteMember.Hides unicode lib createdAt principal email fullName roleIds drawn membershipId
        (invitedPerson account drawn address fullName).id
        (invitedPerson account' drawn address fullName).id db db' ↔
      ((∃ roles, InviteMember.admission unicode principal email roleIds db = .ok (address, roles)) ∨
          IsMember principal.organizationId (invitedPerson account drawn address fullName).id db →
        (invitedPerson account' drawn address fullName).profile =
          (invitedPerson account drawn address fullName).profile) := by
  by_cases hmember : IsMember principal.organizationId
      (invitedPerson account drawn address fullName).id db
  · obtain ⟨e, hrefused⟩ := hsame.run_refused haddress hleft hright fullName roleIds
      membershipId (.inl hmember)
    have hrun := hrefused db List.mem_cons_self
    have hrun' := hrefused db' (List.mem_cons_of_mem _ List.mem_cons_self)
    unfold InviteMember.Hides
    dsimp only
    rw [hrun, hrun']
    constructor
    · rintro ⟨-, hlisted⟩ -
      refine hsame.profile_of_listings hleft hright hmember lib createdAt
        fun e e' honward reader limit cursor hreader ↦ ?_
      have hpage := hlisted e e' honward reader limit cursor hreader
      rw [run_list_members, run_list_members] at hpage
      exact congrArg Prod.snd hpage
    · intro hprofile
      obtain ⟨hmember', -⟩ := hsame.is_member_right hleft hright hmember
      have halike := hsame.alike hleft hright fullName db.users db'.users
        (fun userId ↦ hsame.find_user hleft hright) fun _ ↦ by
          rw [hleft.find_person hmember, hright.find_person hmember', Option.map_some,
            Option.map_some, hprofile (.inr hmember)]
      exact ⟨rfl, fun e e' honward reader limit cursor hreader ↦
        (honward.alike halike).listing lib createdAt hreader limit cursor⟩
  by_cases hadmission : ∃ roles,
      InviteMember.admission unicode principal email roleIds db = .ok (address, roles)
  · obtain ⟨roles, hadmission⟩ := hadmission
    obtain ⟨e, e', membership, membership', hrun, hrun', hrename, halike⟩ :=
      hsame.invite_new hleft hright fullName hadmission hmember hnew hnew'
    unfold InviteMember.Hides
    dsimp only
    rw [hrun, hrun']
    constructor
    · rintro ⟨hanswer, -⟩ -
      exact profile_of_summary (Except.ok.inj (congrArg Prod.snd hanswer))
    · intro hprofile
      have hshown := hprofile (.inl ⟨roles, hadmission⟩)
      refine ⟨?_, fun e e' honward reader limit cursor hreader ↦
        (honward.alike (halike hshown)).listing lib createdAt hreader limit cursor⟩
      have hid : (invitedPerson account' drawn address fullName).id =
          renamed (invitedPerson account drawn address fullName).id
            (invitedPerson account' drawn address fullName).id
            (invitedPerson account drawn address fullName).id := (if_pos rfl).symm
      rw [hrename, summary_rename membership hshown hid]
      rfl
  · obtain ⟨e, hrefused⟩ := hsame.run_refused haddress hleft hright fullName roleIds
      membershipId (.inr (not_exists.mp hadmission))
    have hrun := hrefused db List.mem_cons_self
    have hrun' := hrefused db' (List.mem_cons_of_mem _ List.mem_cons_self)
    unfold InviteMember.Hides
    dsimp only
    rw [hrun, hrun']
    refine iff_of_true ⟨rfl, fun e e' honward reader limit cursor hreader ↦ ?_⟩ fun hshown ↦
      (hshown.elim hadmission hmember).elim
    have halike := hsame.alike hleft hright fullName db.users db'.users
      (fun userId ↦ hsame.find_user hleft hright) fun his ↦ absurd his hmember
    exact (honward.alike halike).listing lib createdAt hreader limit cursor

end

/-- A database with a role of organization 1, and with an account or none. -/
def withAccount (account : Option User) : Database :=
  { Database.empty with
    users := ⟨account.toList, by cases account <;> simp⟩
    roles := ⟨[⟨5, 1, py "Reader", [], false, [py "org:read"]⟩], by decide⟩ }

/-- An account that has signed in, or has not. -/
def alice (lastLoginAt : Option Instant) : User :=
  ⟨20, py "alice@example.com", none, py "Alice", .ACTIVE, false, false, 0, none, lastLoginAt⟩

/-- Invited under its own name, an account that has never signed in is not told from none. -/
theorem invitation_hides_alice :
    InviteMember.Hides ⟨plainLibrary, id, id⟩ plainLibrary (fun _ ↦ 0) ownerPrincipal
      (py "alice@example.com") (py "Alice") [5] 30 40
      (invitedPerson none 30 (py "alice@example.com") (py "Alice")).id
      (invitedPerson (some (alice none)) 30 (py "alice@example.com") (py "Alice")).id
      (withAccount none) (withAccount (some (alice none))) := by
  have haddress : EmailAddress.make ⟨plainLibrary, id, id⟩ (py "alice@example.com") =
      .ok (py "alice@example.com") := by decide +kernel
  have hleft : HasAccount ownerPrincipal.organizationId 30 (py "alice@example.com") none
      (withAccount none) := ⟨rfl, nofun, nofun⟩
  have hright : HasAccount ownerPrincipal.organizationId 30 (py "alice@example.com")
      (some (alice none)) (withAccount (some (alice none))) := ⟨rfl, by decide, nofun⟩
  have hsame : SameButAccount ownerPrincipal.organizationId (py "alice@example.com")
      (withAccount none) (withAccount (some (alice none))) := ⟨by decide, rfl, nofun, rfl, rfl⟩
  exact (invitation_hides_account_iff haddress hleft hright hsame ⟨nofun, nofun⟩
    ⟨nofun, nofun⟩).mpr fun _ ↦ rfl

/-- Invited under another name, an account is told by the name it has, and by when it signed in. -/
theorem invitation_tells_account :
    HasAccount 1 30 (py "alice@example.com") none (withAccount none) ∧
      HasAccount 1 30 (py "alice@example.com") (some (alice (some 7)))
        (withAccount (some (alice (some 7)))) ∧
      SameButAccount 1 (py "alice@example.com") (withAccount none)
        (withAccount (some (alice (some 7)))) ∧
      ¬ InviteMember.Hides ⟨plainLibrary, id, id⟩ plainLibrary (fun _ ↦ 0) ownerPrincipal
        (py "alice@example.com") (py "A. Smith") [5] 30 40 30 20
        (withAccount none) (withAccount (some (alice (some 7)))) :=
  ⟨⟨rfl, nofun, nofun⟩, ⟨rfl, by decide, nofun⟩, ⟨by decide, rfl, nofun, rfl, rfl⟩,
    fun h ↦ absurd h.1 (by decide +kernel)⟩

end Aegis.Access
