import Aegis.Access.Programs
import Aegis.Lib.Guarantee
import Aegis.Lib.Later

/-!
# What becomes of a session

Sessions are inserted, marked as rotated and marked as revoked, and nothing else. So what a session
was once, it stays, however the requests of accounts interleave: `sessions_kept` says so of every
run, `spent_token_never_exchanged` what it means for who presents an old token, and
`dead_family_stays_dead` what it means for the family of a stolen one.
-/

namespace Aegis.Access

open Aegis.Server Database Transaction

/-! ## What the requests of an account write -/

/-- The condition admits what the requests of an account write, up to the sessions they begin. -/
structure AllowsAccount (P : Write → Prop) : Prop extends AllowsStatements P where
  audit : ∀ u : Write, u.IsAudit → P u

section
variable {P : Write → Prop} (hP : AllowsAccount P) {deps : AuthDependencies}
include hP

/-- Answering for the successor of a session writes nothing. -/
theorem only_reissue {session : Session} {now : Instant} :
    (RefreshSession.reissueFromSuccessor deps session now).Only P :=
  composed_reissue (composes_only hP.audit)

theorem only_handle_reuse {session : Session} {now : Instant} :
    (RefreshSession.handleReuse session now).Only P :=
  composed_handle_reuse (composes_only hP.audit) hP.toAllowsStatements

theorem only_rotate {session : Session} {context : RequestContext} {moment : Moment}
    (hrotation : AllowsRotation P session) :
    (RefreshSession.rotate deps session context moment).Only P :=
  composed_rotate (composes_only hP.audit) hP.toAllowsStatements hrotation

/-- A refresh goes on with the session it has found. -/
theorem only_refresh_session {refreshToken : PyStr} {context : RequestContext} {moment : Moment}
    (hrotation : ∀ session, AllowsRotation P session) :
    (RefreshSession.execute deps refreshToken context moment).Only P :=
  composed_refresh_session (composes_only hP.audit) hP.toAllowsStatements hrotation

/-- A request that is not a refresh writes what the condition admits. -/
theorem only_account {requireForPrivilegedRoles : Bool} {request : AccountRequest}
    (hstart : ∀ moment, request.moment = some moment → AllowsStart P moment)
    (hrefresh : ∀ refreshToken context moment, request = .refresh refreshToken context moment →
      (RefreshSession.execute deps refreshToken context moment).Only P) :
    (request.program deps requireForPrivilegedRoles).Only P :=
  composed_account (composes_only hP.audit) hP.toAllowsStatements hstart hrefresh

end

/-! ## What a session stays -/

/-- A later state of a session: the same session, still revoked if it was revoked, and still rotated
if it was rotated. -/
structure Session.Later (old new : Session) : Prop where
  id : new.id = old.id
  userId : new.userId = old.userId
  organizationId : new.organizationId = old.organizationId
  familyId : new.familyId = old.familyId
  refreshTokenHash : new.refreshTokenHash = old.refreshTokenHash
  expiresAt : new.expiresAt = old.expiresAt
  createdAt : new.createdAt = old.createdAt
  revoked : old.revokedAt.isSome → new.revokedAt.isSome
  rotated : old.rotatedAt.isSome → new.rotatedAt.isSome

theorem Session.Later.refl (session : Session) : session.Later session :=
  ⟨rfl, rfl, rfl, rfl, rfl, rfl, rfl, fun h ↦ h, fun h ↦ h⟩

theorem Session.Later.trans {a b c : Session} (hab : a.Later b) (hbc : b.Later c) : a.Later c where
  id := hbc.id.trans hab.id
  userId := hbc.userId.trans hab.userId
  organizationId := hbc.organizationId.trans hab.organizationId
  familyId := hbc.familyId.trans hab.familyId
  refreshTokenHash := hbc.refreshTokenHash.trans hab.refreshTokenHash
  expiresAt := hbc.expiresAt.trans hab.expiresAt
  createdAt := hbc.createdAt.trans hab.createdAt
  revoked h := hbc.revoked (hab.revoked h)
  rotated h := hbc.rotated (hab.rotated h)

/-- A session can no longer be exchanged. -/
def Session.Spent (session : Session) : Prop :=
  session.revokedAt.isSome ∨ session.rotatedAt.isSome

theorem Session.Later.spent {old new : Session} (h : old.Later new) (hspent : old.Spent) :
    new.Spent :=
  hspent.imp h.revoked h.rotated

/-- The sessions of a later state: those there were stand where they stood. -/
def SessionsLater (db db' : Database) : Prop :=
  ∀ (i : Nat) (session : Session), db.sessions.rows[i]? = some session →
    ∃ session', db'.sessions.rows[i]? = some session' ∧ session.Later session'

theorem sessions_later_refl (db : Database) : SessionsLater db db :=
  Table.later_refl .refl db.sessions

theorem SessionsLater.trans {a b c : Database} (hab : SessionsLater a b)
    (hbc : SessionsLater b c) : SessionsLater a c :=
  Table.Later.trans .trans hab hbc

/-- The write leaves the sessions what they were. -/
def KeepsHistory (u : Write) : Prop :=
  ∀ db : Database, SessionsLater db (Store.apply db u)

/-- A write of another table does. -/
theorem keeps_history_of_sessions {u : Write}
    (h : ∀ db : Database, (Store.apply db u).sessions = db.sessions) : KeepsHistory u := by
  intro db i session hsession
  rw [h]
  exact ⟨session, hsession, .refl session⟩

/-- A session that is inserted comes after the others. -/
theorem keeps_history_insert (session : Session) : KeepsHistory (.sessions (.insert session)) :=
  fun db ↦ Table.later_insert .refl db.sessions session

/-- One that is modified stays in its place. -/
theorem keeps_history_modify {sessionId : Uuid} {edit : Edit Session}
    (h : ∀ session : Session, session.Later (edit.run session)) :
    KeepsHistory (.sessions (.modify sessionId edit)) :=
  fun db ↦ Table.later_modify .refl h db.sessions sessionId

/-- A column that is set where it was not stays set. -/
theorem is_some_changed {α : Type} [DecidableEq α] {loaded entity current : Option α}
    (h : loaded.isSome → entity.isSome) (hcurrent : current.isSome) :
    (changed loaded entity current).isSome := by
  unfold changed
  split
  · exact hcurrent
  · next hne =>
      cases entity with
      | some value => rfl
      | none =>
          cases loaded with
          | none => exact absurd rfl hne
          | some value => exact h rfl

/-- An update that sets columns of what was loaded leaves a later session. -/
theorem later_apply_session {loaded entity : Session}
    (hrevoked : loaded.revokedAt.isSome → entity.revokedAt.isSome)
    (hrotated : loaded.rotatedAt.isSome → entity.rotatedAt.isSome) (session : Session) :
    session.Later ((applySession loaded entity).run session) :=
  ⟨rfl, rfl, rfl, rfl, rfl, rfl, rfl, is_some_changed hrevoked, is_some_changed hrotated⟩

/-- A condition admits what the requests of an account write when it admits writes of other tables
and updates that leave later sessions. -/
theorem allows_account_of_later {P : Write → Prop}
    (hother : ∀ u : Write, (∀ db : Database, (Store.apply db u).sessions = db.sessions) → P u)
    (hmodify : ∀ sessionId edit, (∀ session : Session, session.Later (edit.run session)) →
      P (.sessions (.modify sessionId edit))) : AllowsAccount P where
  user _ _ := hother _ fun _ ↦ rfl
  factor _ := hother _ fun _ ↦ rfl
  audit u hu := hother u fun db ↦ by rw [apply_of_is_audit hu db]
  revocation _ _ _ := hmodify _ _ fun _ ↦
    ⟨rfl, rfl, rfl, rfl, rfl, rfl, rfl, fun _ ↦ rfl, fun h ↦ h⟩
  eviction now session := by
    refine hmodify _ _ (later_apply_session (fun h ↦ ?_) fun h ↦ ?_)
    · unfold Session.revoke
      split
      · rfl
      · exact h
    · unfold Session.revoke
      split <;> exact h

/-- Marking a session as rotated leaves a later one. -/
theorem later_consumed (session : Session) (successorId : Uuid) (now : Instant) (row : Session) :
    row.Later ((applySession session
      { session with rotatedAt := some now, replacedById := some successorId }).run row) :=
  ⟨rfl, rfl, rfl, rfl, rfl, rfl, rfl, is_some_changed fun h ↦ h, is_some_changed fun _ ↦ rfl⟩

theorem allows_account_history : AllowsAccount KeepsHistory :=
  allows_account_of_later (fun _ ↦ keeps_history_of_sessions) fun _ _ ↦ keeps_history_modify

theorem allows_rotation_history (session : Session) : AllowsRotation KeepsHistory session where
  consume successorId now := keeps_history_modify (later_consumed session successorId now)
  succeed successor _ := keeps_history_insert successor

section
variable {deps : AuthDependencies} {requireForPrivilegedRoles : Bool}

theorem only_history (request : AccountRequest) :
    (request.program deps requireForPrivilegedRoles).Only KeepsHistory :=
  only_account allows_account_history (fun _ _ session _ _ ↦ keeps_history_insert session)
    fun _ _ _ _ ↦ only_refresh_session allows_account_history allows_rotation_history

/-- However the requests of accounts interleave, and whichever are lost: between any two moments of
a run no session goes away, changes its user, family, token or expiry, or is no longer revoked or
rotated. -/
theorem sessions_kept (deps : AuthDependencies) (requireForPrivilegedRoles : Bool) (db : Database)
    (labels more : List (Label AccountRequest)) :
    let step := Transaction.step (AccountRequest.program deps requireForPrivilegedRoles)
    let s := Machine.final step ⟨⟨db, []⟩, []⟩ labels
    ∀ session ∈ s.world.db.sessions.rows,
      ∃ session' ∈ (Machine.final step s more).world.db.sessions.rows, session.Later session' := by
  intro step s session hsession
  have hprogram : ∀ (labels : List (Label AccountRequest)) (q : AccountRequest),
      Label.start q ∈ labels →
        (AccountRequest.program deps requireForPrivilegedRoles q).Only KeepsHistory :=
    fun _ q _ ↦ only_history q
  have hflights := (kept_run SessionsLater sessions_later_refl .trans (fun u hu ↦ hu)
    (s := ⟨⟨db, []⟩, []⟩) (by simp) (hprogram labels)).1
  have hlater := (kept_run SessionsLater sessions_later_refl .trans (fun u hu ↦ hu) hflights
    (hprogram more)).2
  exact Table.Later.mem hlater hsession

/-! ## Spent tokens -/

/-- The session a token finds is a later one of some session. -/
def Finds (session : Session) (db : Database) : Prop :=
  ∃ session', (db.sessions.rows.find? fun row ↦ row.refreshTokenHash == session.refreshTokenHash) =
    some session' ∧ session.Later session'

/-- It still is in every later state: no other session comes before it. -/
theorem Finds.later {session : Session} {db db' : Database} (h : Finds session db)
    (hlater : SessionsLater db db') : Finds session db' := by
  obtain ⟨found, hfound, hkept⟩ := h
  obtain ⟨found', hfound', hkept'⟩ := Table.Later.find hlater
    (fun row row' hrow ↦ by rw [hrow.refreshTokenHash]) hfound
  exact ⟨found', hfound', hkept.trans hkept'⟩

/-- The answer gives nothing new for the session: an error, or without a commit and a refresh token
an access token of the session that has replaced it. -/
def NothingNew (session : Session) (committed : Bool) (outcome : Except DomainError AccountAnswer) :
    Prop :=
  (∃ error, outcome = .error error) ∨
    (session.revokedAt = none ∧ committed = false ∧
      ∃ pair : TokenPair, outcome = .ok (.pair pair) ∧ pair.refreshToken = [])

/-- What a request leaves, and what it answers when it presents the token of the session. -/
def KeepsSpent (deps : AuthDependencies) (session : Session) (request : AccountRequest)
    (committed : Bool) (outcome : Except DomainError AccountAnswer)
    (w : World Database AccountRequest (Except DomainError AccountAnswer)) (db : Database) : Prop :=
  SessionsLater w.db db ∧ ∀ refreshToken context moment,
    request = .refresh refreshToken context moment →
    deps.hashToken refreshToken = session.refreshTokenHash → NothingNew session committed outcome

/-- Others leave the sessions what they were. -/
theorem interference_later {Q R : Type} : Interference fun w w' : World Database Q R ↦
    SessionsLater w.db w'.db :=
  ⟨fun _ ↦ sessions_later_refl _, .trans⟩

theorem history_view {us : List Write} (hus : ∀ u ∈ us, KeepsHistory u) (db : Database) :
    SessionsLater db (view us db) :=
  view_kept SessionsLater sessions_later_refl .trans (fun _ hu ↦ hu) hus db

/-- A refresh with the token of a spent session gives nothing new. -/
theorem wp_refresh_spent {session : Session} (hspent : session.Spent) {refreshToken : PyStr}
    (hhash : deps.hashToken refreshToken = session.refreshTokenHash) {context : RequestContext}
    {moment : Moment} {w : World Database AccountRequest (Except DomainError AccountAnswer)}
    (hfinds : Finds session w.db) :
    Wp (fun w w' ↦ SessionsLater w.db w'.db)
      (KeepsSpent deps session (.refresh refreshToken context moment))
      ((AccountRequest.refresh refreshToken context moment).program deps requireForPrivilegedRoles)
      (fun e _ _ ↦ e.elim) [] w := by
  have hrefuses : ∀ w : World Database AccountRequest (Except DomainError AccountAnswer),
      Refuses (fun w w' ↦ SessionsLater w.db w'.db) (fun committed (outcome : Except DomainError
        TokenPair) ↦ KeepsSpent deps session (.refresh refreshToken context moment) committed
          (outcome.map .pair)) w :=
    fun _ error w' _ ↦ ⟨sessions_later_refl w'.db, fun _ _ _ _ _ ↦ .inl ⟨error, rfl⟩⟩
  rw [AccountRequest.program, wp_map_outcome, RefreshSession.execute, wp_bind,
    Sessions.getByTokenHash, TableAt.wp_select_one]
  intro w₁ hw₁
  obtain ⟨found, hfound, hlater⟩ := hfinds.later hw₁
  have hread : (sessionsTable.read (view [] w₁.db)).rows.find? (fun row ↦
      row.refreshTokenHash == deps.hashToken refreshToken) = some found := by
    rw [hhash]
    exact hfound
  rw [hread]
  dsimp only
  rw [wp_bind]
  refine wp_refuse_if (hrefuses w₁) fun hnotRevoked ↦ ?_
  have hrotated : found.isRotated = true :=
    (hlater.spent hspent).resolve_left (by simp [hnotRevoked])
  have hsession : session.revokedAt = none := by
    cases hrevoked : session.revokedAt with
    | none => rfl
    | some time =>
        have := hlater.revoked (by rw [hrevoked]; rfl)
        rw [hnotRevoked] at this
        cases this
  rw [if_pos hrotated]
  split
  · unfold RefreshSession.reissueFromSuccessor
    split
    · exact wp_raise (hrefuses w₁)
    · rw [wp_bind, Users.get, TableAt.wp_select_one]
      intro w₂ hw₂
      cases (usersTable.read (view [] w₂.db)).rows.find? fun user ↦ user.id == found.userId with
      | none => exact wp_raise (hrefuses w₂)
      | some user =>
          dsimp only
          rw [wp_bind]
          refine wp_refuse_if (hrefuses w₂) fun _ ↦ ?_
          rw [wp_bind]
          refine wp_active_membership interference_later (hrefuses w₂)
            fun w₃ membership _ _ _ _ ↦ ?_
          rw [wp_abort]
          exact fun w₄ _ ↦ ⟨sessions_later_refl w₄.db, fun _ _ _ _ _ ↦
            .inr ⟨hsession, rfl, _, rfl, rfl⟩⟩
  · rw [RefreshSession.handleReuse, wp_bind]
    refine TableAt.wp_update_where interference_later fun w₂ _ revocations _ hrevocations ↦ ?_
    rw [wp_bind, Users.get, TableAt.wp_select_one]
    intro w₃ _
    rw [wp_bind]
    refine wp_append interference_later (hrefuses w₃) fun w₄ events _ hevents ↦ ?_
    rw [wp_commit]
    refine fun w₅ _ ↦ ⟨history_view (fun u hu ↦ ?_) w₅.db, fun _ _ _ _ _ ↦ .inl ⟨_, rfl⟩⟩
    rcases List.mem_append.mp hu with hu | hu
    · obtain ⟨sessionId, rfl⟩ := hrevocations u hu
      exact allows_account_history.revocation _ _ _
    · exact allows_account_history.audit u (hevents u hu)

/-- Every refresh with the token of the session was answered with nothing new. -/
def AnsweredNothingNew (deps : AuthDependencies) (session : Session)
    (log : List (Entry AccountRequest (Except DomainError AccountAnswer))) : Prop :=
  ∀ entry ∈ log, ∀ refreshToken context moment,
    entry.request = .refresh refreshToken context moment →
    deps.hashToken refreshToken = session.refreshTokenHash →
    NothingNew session entry.committed entry.outcome

/-- A request among others keeps the sessions, and gives nothing new for one that is spent. -/
theorem safe_spent {session : Session} (hspent : session.Spent)
    {w : World Database AccountRequest (Except DomainError AccountAnswer)}
    (hfinds : Finds session w.db) (request : AccountRequest) :
    Wp (fun w w' ↦ SessionsLater w.db w'.db) (KeepsSpent deps session request)
      (request.program deps requireForPrivilegedRoles) (fun e _ _ ↦ e.elim) [] w := by
  by_cases hpresents : ∃ refreshToken context moment,
      request = .refresh refreshToken context moment ∧
      deps.hashToken refreshToken = session.refreshTokenHash
  · obtain ⟨refreshToken, context, moment, rfl, hhash⟩ := hpresents
    exact wp_refresh_spent hspent hhash hfinds
  · have hother : ∀ refreshToken context moment, request = .refresh refreshToken context moment →
        deps.hashToken refreshToken ≠ session.refreshTokenHash :=
      fun refreshToken context moment hrequest hhash ↦
        hpresents ⟨refreshToken, context, moment, hrequest, hhash⟩
    refine wp_of_only interference_later (only_history request) (by simp) ?_ ?_
    · exact fun outcome w' _ ↦ ⟨sessions_later_refl w'.db, fun _ _ _ hrequest hhash ↦
        absurd hhash (hother _ _ _ hrequest)⟩
    · exact fun outcome us w' _ hus ↦ ⟨history_view hus w'.db, fun _ _ _ hrequest hhash ↦
        absurd hhash (hother _ _ _ hrequest)⟩

end

/-- A session of the user that has been rotated. -/
def rotatedSession : Session :=
  ⟨5, 7, 1, 5, plainDependencies.hashToken (py "t"), 1000, [], none, some 10, none, none, some 6, 0⟩

/-- The account with this session. -/
def rotatedAccounts : Database :=
  plainAccounts plainUser ⟨[rotatedSession], List.nodup_singleton _⟩

/-- Its token is presented twice at once. -/
def presentedTwice : List (Label AccountRequest) :=
  [.start (.refresh (py "t") ⟨[], none, []⟩ ⟨20, 20, 8, [], []⟩),
    .start (.refresh (py "t") ⟨[], none, []⟩ ⟨20, 20, 9, [], []⟩), .advance 0, .advance 1]

section
variable {deps : AuthDependencies}

/-- No session of the family can be exchanged any more. -/
def DeadFamily (familyId : Uuid) (db : Database) : Prop :=
  ∀ session ∈ db.sessions.rows, session.familyId = familyId → session.Spent

/-- The write leaves the family dead. -/
def KeepsDead (familyId : Uuid) (u : Write) : Prop :=
  ∀ db : Database, DeadFamily familyId db → DeadFamily familyId (Store.apply db u)

theorem keeps_dead_of_sessions {familyId : Uuid} {u : Write}
    (h : ∀ db : Database, (Store.apply db u).sessions = db.sessions) : KeepsDead familyId u := by
  intro db hdead
  unfold DeadFamily
  rwa [h]

/-- A session of another family is inserted. -/
theorem keeps_dead_insert {familyId : Uuid} {session : Session}
    (h : session.familyId ≠ familyId) : KeepsDead familyId (.sessions (.insert session)) := by
  intro db hdead row hrow hfamily
  have hmem : row ∈ (db.sessions.insert session).rows := hrow
  rcases Table.mem_insert.mp hmem with hold | ⟨rfl, -⟩
  · exact hdead row hold hfamily
  · exact absurd hfamily h

/-- A session that is modified stays what it was. -/
theorem keeps_dead_modify {familyId sessionId : Uuid} {edit : Edit Session}
    (h : ∀ session : Session, session.Later (edit.run session)) :
    KeepsDead familyId (.sessions (.modify sessionId edit)) := by
  intro db hdead row hrow hfamily
  obtain ⟨old, hold, rfl⟩ := Table.mem_modify.mp hrow
  have hlater : old.Later (Table.editAt sessionId edit old) := by
    unfold Table.editAt
    split
    · exact h old
    · exact .refl old
  exact hlater.spent (hdead old hold (hlater.familyId ▸ hfamily))

theorem allows_account_dead (familyId : Uuid) : AllowsAccount (KeepsDead familyId) :=
  allows_account_of_later (fun _ ↦ keeps_dead_of_sessions) fun _ _ ↦ keeps_dead_modify

/-- A session of another family is rotated. -/
theorem allows_rotation_dead {familyId : Uuid} {session : Session}
    (h : session.familyId ≠ familyId) : AllowsRotation (KeepsDead familyId) session where
  consume successorId now := keeps_dead_modify (later_consumed session successorId now)
  succeed _ hsuccessor := keeps_dead_insert (hsuccessor ▸ h)

/-- Others leave the family dead. -/
theorem interference_dead {Q R : Type} (familyId : Uuid) :
    Interference fun w w' : World Database Q R ↦
      DeadFamily familyId w.db → DeadFamily familyId w'.db :=
  ⟨fun _ h ↦ h, fun h₁ h₂ h ↦ h₂ (h₁ h)⟩

theorem dead_view {familyId : Uuid} {us : List Write} (hus : ∀ u ∈ us, KeepsDead familyId u)
    (db : Database) : DeadFamily familyId db → DeadFamily familyId (view us db) :=
  view_kept (fun db db' ↦ DeadFamily familyId db → DeadFamily familyId db') (fun _ h ↦ h)
    (fun h₁ h₂ h ↦ h₂ (h₁ h)) (fun _ hu ↦ hu) hus db

/-- What only writes so leaves the family dead, among others that do. -/
theorem wp_dead_of_only {R : Type} {familyId : Uuid} {p : Tx R Empty}
    (hp : p.Only (KeepsDead familyId))
    {w : World Database AccountRequest (Except DomainError AccountAnswer)} :
    Wp (fun w w' ↦ DeadFamily familyId w.db → DeadFamily familyId w'.db)
      (fun _ _ w db ↦ DeadFamily familyId w.db → DeadFamily familyId db) p
      (fun e _ _ ↦ e.elim) [] w :=
  wp_of_only (interference_dead familyId) hp (by simp) (fun _ _ _ h ↦ h)
    fun _ _ w' _ hus ↦ dead_view hus w'.db

/-- A refresh rotates no session of the family. -/
theorem wp_refresh_dead {familyId : Uuid} {refreshToken : PyStr} {context : RequestContext}
    {moment : Moment} {w : World Database AccountRequest (Except DomainError AccountAnswer)}
    (hdead : DeadFamily familyId w.db) :
    Wp (fun w w' ↦ DeadFamily familyId w.db → DeadFamily familyId w'.db)
      (fun _ _ w db ↦ DeadFamily familyId w.db → DeadFamily familyId db)
      (RefreshSession.execute deps refreshToken context moment) (fun e _ _ ↦ e.elim) [] w := by
  have hrefuses : ∀ w : World Database AccountRequest (Except DomainError AccountAnswer),
      Refuses (fun w w' ↦ DeadFamily familyId w.db → DeadFamily familyId w'.db)
        (fun _ (_ : Except DomainError TokenPair) w db ↦
          DeadFamily familyId w.db → DeadFamily familyId db) w := fun _ _ _ _ h ↦ h
  rw [RefreshSession.execute, wp_bind, Sessions.getByTokenHash, TableAt.wp_select_one]
  intro w₁ hw₁
  cases hfound : (sessionsTable.read (view [] w₁.db)).rows.find? fun row ↦
      row.refreshTokenHash == deps.hashToken refreshToken with
  | none => exact wp_dead_of_only only_raise
  | some session =>
      have hmem : session ∈ w₁.db.sessions.rows := List.mem_of_find?_eq_some hfound
      dsimp only
      rw [wp_bind]
      refine wp_refuse_if (hrefuses w₁) fun hnotRevoked ↦ ?_
      split
      · split
        · exact wp_dead_of_only (only_reissue (allows_account_dead familyId))
        · exact wp_dead_of_only (only_handle_reuse (allows_account_dead familyId))
      · next hnotRotated =>
          -- A session that is live is of another family.
          have hfamily : session.familyId ≠ familyId := fun hfamily ↦ by
            rcases hw₁ hdead session hmem hfamily with hrevoked | hrotated
            · rw [hnotRevoked] at hrevoked
              cases hrevoked
            · exact hnotRotated hrotated
          rw [wp_bind]
          refine wp_refuse_if (hrefuses w₁) fun _ ↦ ?_
          exact wp_dead_of_only (only_rotate (allows_account_dead familyId)
            (allows_rotation_dead hfamily))

end

/-- Once no session of a family is live and no transaction is under way, the family stays dead:
whatever tokens are presented, and however the requests interleave, none of its sessions is live
again and none joins it that is. -/
theorem dead_family_stays_dead (deps : AuthDependencies) (requireForPrivilegedRoles : Bool)
    (db : Database) {familyId : Uuid} (hdead : DeadFamily familyId db)
    (labels : List (Label AccountRequest))
    (hfresh : ∀ request, .start request ∈ labels → ∀ moment, request.moment = some moment →
      moment.sessionId ≠ familyId) :
    ∀ reached ∈ Machine.visited
        (Transaction.step (AccountRequest.program deps requireForPrivilegedRoles))
        ⟨⟨db, []⟩, []⟩ labels,
      DeadFamily familyId reached.2.world.db := by
  let ends : AccountRequest → Bool → Except DomainError AccountAnswer →
      World Database AccountRequest (Except DomainError AccountAnswer) → Database → Prop :=
    fun _ _ _ w db ↦ DeadFamily familyId w.db → DeadFamily familyId db
  have hsafe : ∀ request (w : World Database AccountRequest (Except DomainError AccountAnswer)),
      .start request ∈ labels → DeadFamily familyId w.db →
      Wp (fun w w' ↦ DeadFamily familyId w.db → DeadFamily familyId w'.db) (ends request)
        (request.program deps requireForPrivilegedRoles) (fun e _ _ ↦ e.elim) [] w := by
    intro request w hstart hdead
    by_cases hrefresh : ∃ refreshToken context moment,
        request = .refresh refreshToken context moment
    · obtain ⟨refreshToken, context, moment, rfl⟩ := hrefresh
      rw [AccountRequest.program, wp_map_outcome]
      exact wp_refresh_dead hdead
    · refine wp_dead_of_only (only_account (allows_account_dead familyId) ?_ ?_)
      · intro moment hmoment session _ hsession
        exact keeps_dead_insert (hsession ▸ hfresh request hstart moment hmoment)
      · exact fun refreshToken context moment hrequest ↦
          absurd ⟨refreshToken, context, moment, hrequest⟩ hrefresh
  have hgood : ∀ db db' : Database, DeadFamily familyId db →
      (DeadFamily familyId db → DeadFamily familyId db') → DeadFamily familyId db' :=
    fun _ _ hdead hkept ↦ hkept hdead
  have hrun := guaranteed_run _ labels (interference_dead familyId) hgood
    (fun _ _ _ _ _ hends ↦ And.intro hends trivial) hsafe hdead
  exact fun reached hreached ↦ (hrun reached hreached).2.1

theorem dead_family_stays_dead_twice :
    DeadFamily 5 rotatedAccounts ∧ ∀ reached ∈ Machine.visited
        (Transaction.step (AccountRequest.program plainDependencies false))
        ⟨⟨rotatedAccounts, []⟩, []⟩ presentedTwice,
      DeadFamily 5 reached.2.world.db := by
  have hdead : DeadFamily 5 rotatedAccounts :=
    fun _ hsession _ ↦ List.mem_singleton.mp hsession ▸ .inr rfl
  refine ⟨hdead, dead_family_stays_dead plainDependencies false rotatedAccounts hdead
    presentedTwice ?_⟩
  intro request hrequest moment hmoment
  simp only [presentedTwice, List.mem_cons, Label.start.injEq, List.not_mem_nil, or_false,
    reduceCtorEq] at hrequest
  rcases hrequest with rfl | rfl <;> cases hmoment

end Aegis.Access
