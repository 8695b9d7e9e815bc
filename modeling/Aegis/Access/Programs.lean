import Aegis.Access.Lockout

/-!
# What requests are composed of

Every use case is a sequence of statements that write rows of a few tables, and of events appended
to an audit chain. A property of transactions that sequencing keeps therefore holds of the use case
when it holds of its statements and of appending: what is written, and in what state it is written,
are two such properties.
-/

namespace Aegis.Access

open Aegis.Server Database Transaction

/-- Sequencing keeps the property. A transaction has it when it writes only what meets the
condition, and so does appending to an audit chain. -/
structure Composes (P : Write → Prop) (C : (R α : Type) → Tx R α → Prop) : Prop where
  bind : ∀ {R α β : Type} {p : Tx R α} {k : α → Tx R β}, C R α p → (∀ a, C R β (k a)) →
    C R β (p >>= k)
  only : ∀ {R α : Type} {p : Tx R α}, p.Only P → C R α p
  append : ∀ {R : Type} (event : AuditEventRecord), C R Unit (Audit.append event)
  mapOutcome : ∀ {R S α : Type} (f : Except DomainError R → Except DomainError S) {p : Tx R α},
    C R α p → C S α (p.mapOutcome f)

/-- Writing only what meets a condition is such a property, when the condition admits events. -/
theorem composes_only {P : Write → Prop} (haudit : ∀ u : Write, u.IsAudit → P u) :
    Composes P fun _ _ p ↦ p.Only P where
  bind := Txn.Only.bind
  only h := h
  append _ := (within_append (fun id ↦ haudit (.auditLock id) trivial)
    fun event ↦ haudit (.auditEvents (.insert event)) trivial).only
  mapOutcome _ := Txn.only_map_outcome.mpr

section
variable {P : Write → Prop} {C : (R α : Type) → Tx R α → Prop} (hC : Composes P C)
include hC

/-- A statement, and what follows. -/
theorem Composes.after {R α β : Type} {p : Tx R α} {k : α → Tx R β} (hp : p.Within P)
    (hk : ∀ a, C R β (k a)) : C R β (p >>= k) :=
  hC.bind (hC.only hp.only) hk

/-- An event, and what follows. -/
theorem Composes.record {R β : Type} (event : AuditEventRecord) {k : Unit → Tx R β}
    (hk : C R β (k ())) : C R β (Audit.append event >>= k) :=
  hC.bind (hC.append event) fun _ ↦ hk

theorem Composes.raise {R α : Type} {error : DomainError} : C R α (raise error) :=
  hC.only only_raise

theorem Composes.pure {R α : Type} (a : α) : C R α (pure a) :=
  hC.only (Txn.within_pure a).only

end

/-! ## Requests of an account -/

/-- The condition admits what the requests of an account write, up to events and the sessions they
begin. -/
structure AllowsStatements (P : Write → Prop) : Prop where
  user : ∀ loaded user : User, P (.users (.modify user.id (applyUser loaded user)))
  factor : ∀ u, P (.mfaCredentials u)
  revocation : ∀ sessionId now reason,
    P (.sessions (.modify sessionId (Sessions.revocation now reason)))
  eviction : ∀ now session, P (.sessions (eviction now session))

section
variable {R : Type} {P : Write → Prop} (hP : AllowsStatements P)
include hP

theorem within_update_user (loaded user : User) :
    (Users.update loaded user : Tx R Unit).Within P := by
  unfold Users.update
  split
  · exact Txn.within_pure ()
  · exact TableAt.within_update (hP.user loaded user)

theorem within_update_factor (loaded credential : MfaCredential) :
    (MfaCredentials.update loaded credential : Tx R Unit).Within P := by
  unfold MfaCredentials.update
  split
  · exact Txn.within_pure ()
  · exact TableAt.within_update (hP.factor _)

theorem within_delete_all_factors (userId : Uuid) :
    (MfaCredentials.deleteForUser userId : Tx R Unit).Within P :=
  (TableAt.within_delete_where fun _ ↦ hP.factor _).bind fun _ ↦ Txn.within_pure ()

theorem within_revocation (p : Session → Bool) (now : Instant) (reason : PyStr) :
    (sessionsTable.updateWhere p (Sessions.revocation now reason) : Tx R Nat).Within P :=
  TableAt.within_update_where fun sessionId ↦ hP.revocation sessionId now reason

variable {deps : AuthDependencies}

/-- A session that begins is the first of a family of its own. -/
def AllowsStart (P : Write → Prop) (moment : Moment) : Prop :=
  ∀ session : Session, session.id = moment.sessionId → session.familyId = moment.sessionId →
    P (.sessions (.insert session))

theorem within_issue {user : User} {membership : Membership} {mfaSatisfied : Bool}
    {context : RequestContext} {moment : Moment} (hstart : AllowsStart P moment) :
    (SessionIssuer.issue deps user membership mfaSatisfied context moment :
      Tx R TokenPair).Within P := by
  have hcap : (SessionIssuer.enforceSessionCap deps.tokenPolicy user.id moment.now :
      Tx R Unit).Within P := by
    refine (Txn.within_read _).bind fun active ↦ ?_
    split
    · exact Txn.within_pure ()
    · refine Txn.within_each fun session ↦ ?_
      unfold Sessions.update
      split
      · exact Txn.within_pure ()
      · refine TableAt.within_update ?_
        have hid : (session.revoke moment.now (py "session_cap_exceeded")).id = session.id := by
          unfold Session.revoke
          split <;> rfl
        rw [hid]
        exact hP.eviction moment.now session
  refine hcap.bind fun _ ↦ ?_
  exact (TableAt.within_insert (hstart _ rfl rfl)).bind fun _ ↦ Txn.within_pure _

end

section
variable {P : Write → Prop} {C : (R α : Type) → Tx R α → Prop} (hC : Composes P C)
variable (hP : AllowsStatements P) {deps : AuthDependencies}
include hC hP

/-- A sign-in writes the user, events and a session that begins. -/
theorem composed_sign_in {email password : PyStr} {organizationSlug : Option PyStr}
    {context : RequestContext} {moment : Moment} (hstart : AllowsStart P moment) :
    C _ _ (AuthenticateUser.execute deps email password organizationSlug context moment) := by
  have hresolve : ∀ user, (AuthenticateUser.resolveMembership deps.unicode user organizationSlug :
      Tx AuthenticationResult (Membership × Organization)).Within P := by
    intro user
    unfold AuthenticateUser.resolveMembership
    split
    · refine within_check.bind fun slug ↦ (Txn.within_read _).bind fun organization ↦ ?_
      cases organization with
      | none => trivial
      | some organization =>
          refine within_refuse_if.bind fun _ ↦ ?_
          exact within_active_membership.bind fun _ ↦ Txn.within_pure _
    · refine (Txn.within_read _).bind fun organizations ↦ ?_
      split
      · trivial
      · exact within_active_membership.bind fun _ ↦ Txn.within_pure _
      · trivial
  have hfailure : ∀ user, C AuthenticationResult Unit
      (AuthenticateUser.auditFailure user organizationSlug moment.now) := by
    intro user
    refine hC.after (Txn.within_read _) fun organizations ↦ ?_
    dsimp only
    split
    · refine hC.bind (hC.append _) fun _ ↦ ?_
      split
      · exact hC.append _
      · exact hC.pure ()
    · exact hC.pure ()
  have haccept : ∀ loaded passwordHash, C _ _ (AuthenticateUser.accept deps loaded passwordHash
      organizationSlug context moment) := by
    intro loaded passwordHash
    unfold AuthenticateUser.accept
    dsimp only
    generalize (if deps.needsRehash passwordHash = true then
      { loaded with passwordHash := some moment.rehash } else loaded) = rehashed
    refine hC.after (hresolve rehashed) fun found ↦ ?_
    refine hC.after (within_update_user hP _ _) fun _ ↦ ?_
    split
    · exact hC.only trivial
    · refine hC.after (within_issue hP hstart) fun tokens ↦ ?_
      exact hC.record _ (hC.only trivial)
  unfold AuthenticateUser.execute
  split
  · exact hC.raise
  · refine hC.after (Txn.within_read _) fun found ↦ ?_
    cases found with
    | none => exact hC.raise
    | some loaded =>
        dsimp only
        split
        · refine hC.after within_check fun _ ↦ ?_
          split
          · exact haccept loaded _
          · refine hC.after (within_update_user hP _ _) fun _ ↦ ?_
            exact hC.bind (hfailure _) fun _ ↦ hC.only trivial
        · exact hC.raise

/-- So does a challenge, which may use up a factor. -/
theorem composed_complete_mfa {decoded : Except DomainError ChallengeToken} {code : PyStr}
    {context : RequestContext} {moment : Moment} (hstart : AllowsStart P moment) :
    C _ _ (CompleteMfaChallenge.execute deps decoded code context moment) := by
  have hrecovery : ∀ candidate codes, (CompleteMfaChallenge.consumeRecovery deps candidate
      moment.now codes : Tx TokenPair Bool).Within P := by
    intro candidate codes
    induction codes with
    | nil => exact Txn.within_pure false
    | cons recovery rest ih =>
        unfold CompleteMfaChallenge.consumeRecovery
        split
        · refine within_check.bind fun consumed ↦ ?_
          exact (within_update_factor hP _ _).bind fun _ ↦ Txn.within_pure true
        · exact ih
  have hverify : ∀ userId, (CompleteMfaChallenge.verifyCode deps userId code moment.now :
      Tx TokenPair Bool).Within P := by
    intro userId
    unfold CompleteMfaChallenge.verifyCode
    dsimp only
    split
    · exact Txn.within_pure false
    · refine (Txn.within_read _).bind fun totp ↦ ?_
      have htotp : (CompleteMfaChallenge.verifyTotp deps (stripSpaces code) moment.now totp :
          Tx TokenPair Bool).Within P := by
        unfold CompleteMfaChallenge.verifyTotp
        split
        · exact Txn.within_pure false
        · split
          · trivial
          · split
            · exact (within_update_factor hP _ _).bind fun _ ↦ Txn.within_pure true
            · exact Txn.within_pure false
      refine htotp.bind fun accepted ↦ ?_
      cases accepted with
      | true => exact Txn.within_pure true
      | false => exact (Txn.within_read _).bind fun codes ↦ hrecovery _ codes
  refine hC.after within_check fun claims ↦ hC.after within_refuse_if fun _ ↦ ?_
  refine hC.after (Txn.within_read _) fun found ↦ ?_
  cases found with
  | none => exact hC.raise
  | some loaded =>
      refine hC.after within_refuse_if fun _ ↦ hC.after within_check fun _ ↦ ?_
      refine hC.after within_active_membership fun membership ↦ ?_
      refine hC.after (hverify _) fun accepted ↦ ?_
      cases accepted with
      | true =>
          refine hC.after (within_update_user hP _ _) fun _ ↦ ?_
          refine hC.after (within_issue hP hstart) fun tokens ↦ ?_
          exact hC.record _ (hC.only trivial)
      | false =>
          refine hC.after (within_update_user hP _ _) fun _ ↦ ?_
          exact hC.record _ (hC.only trivial)

/-- Signing out revokes. -/
theorem composed_revoke_session {principal : Principal} {allSessions : Bool} {now : Instant} :
    C _ _ (RevokeSession.execute principal allSessions now) := by
  have hrevoke : ∀ userId,
      (RevokeSession.revoke principal userId allSessions now : Tx Nat Nat).Within P := by
    intro userId
    unfold RevokeSession.revoke
    split
    · exact within_revocation hP _ _ _
    · split
      · exact Txn.within_pure 0
      · refine (Txn.within_read _).bind fun found ↦ ?_
        cases found with
        | none => exact Txn.within_pure 0
        | some session => exact within_revocation hP _ _ _
  unfold RevokeSession.execute
  split
  · exact hC.after (hrevoke _) fun _ ↦ hC.record _ (hC.only trivial)
  · exact hC.raise

theorem composed_enrol_mfa {principal : Principal} {password : PyStr} {draw : EnrolmentDraw} :
    C _ _ (EnrolMfa.execute deps principal password draw) := by
  have hadd : ∀ credential, (MfaCredentials.add credential : Tx MfaEnrolmentResult Unit).Within P :=
    fun _ ↦ TableAt.within_insert (hP.factor _)
  refine hC.after within_reauthenticate fun user ↦ hC.after within_refuse_if fun _ ↦ ?_
  refine hC.after (within_delete_all_factors hP _) fun _ ↦ hC.after (hadd _) fun _ ↦ ?_
  exact hC.after (Txn.within_each fun _ ↦ hadd _) fun _ ↦ hC.only trivial

theorem composed_confirm_mfa {principal : Principal} {code : PyStr} {now : Instant} :
    C _ _ (ConfirmMfa.execute deps principal code now) := by
  unfold ConfirmMfa.execute
  split
  · refine hC.after (Txn.within_read _) fun user ↦ ?_
    cases user with
    | none => exact hC.raise
    | some user =>
        refine hC.after (Txn.within_read _) fun credential ↦ ?_
        cases credential with
        | none => exact hC.raise
        | some credential =>
            dsimp only
            split
            · refine hC.after within_refuse_if fun _ ↦ hC.after within_check fun confirmed ↦ ?_
              refine hC.after (within_update_factor hP _ _) fun _ ↦ ?_
              refine hC.after (within_update_user hP _ _) fun _ ↦ ?_
              exact hC.record _ (hC.only trivial)
            · exact hC.raise
  · exact hC.raise

theorem composed_disable_mfa {requireForPrivilegedRoles : Bool} {principal : Principal}
    {password : PyStr} :
    C _ _ (DisableMfa.execute deps requireForPrivilegedRoles principal password) := by
  refine hC.after within_reauthenticate fun user ↦ hC.after within_refuse_if fun _ ↦ ?_
  refine hC.after within_refuse_if fun _ ↦ ?_
  refine hC.after (within_delete_all_factors hP _) fun _ ↦ ?_
  refine hC.after (within_update_user hP _ _) fun _ ↦ ?_
  exact hC.record _ (hC.only trivial)

omit hP in
/-- Answering for the successor of a session writes nothing. -/
theorem composed_reissue {session : Session} {now : Instant} :
    C _ _ (RefreshSession.reissueFromSuccessor deps session now) := by
  unfold RefreshSession.reissueFromSuccessor
  split
  · exact hC.raise
  · refine hC.after (Txn.within_read _) fun user ↦ ?_
    cases user with
    | none => exact hC.raise
    | some user =>
        refine hC.after within_refuse_if fun _ ↦ ?_
        exact hC.after within_active_membership fun _ ↦ hC.only trivial

theorem composed_handle_reuse {session : Session} {now : Instant} :
    C _ _ (RefreshSession.handleReuse session now) := by
  refine hC.after (within_revocation hP _ _ _) fun _ ↦ ?_
  refine hC.after (Txn.within_read _) fun user ↦ ?_
  exact hC.record _ (hC.only trivial)

/-- A session is marked as rotated, and its successor joins its family. -/
structure AllowsRotation (P : Write → Prop) (session : Session) : Prop where
  consume : ∀ successorId now, P (.sessions (.modify session.id (applySession session
    { session with rotatedAt := some now, replacedById := some successorId })))
  succeed : ∀ successor : Session, successor.familyId = session.familyId →
    P (.sessions (.insert successor))

theorem composed_rotate {session : Session} {context : RequestContext} {moment : Moment}
    (hrotation : AllowsRotation P session) :
    C _ _ (RefreshSession.rotate deps session context moment) := by
  refine hC.after (Txn.within_read _) fun user ↦ ?_
  cases user with
  | none => exact hC.raise
  | some user =>
      refine hC.after within_refuse_if fun _ ↦ hC.after within_check fun _ ↦ ?_
      refine hC.after within_find fun membership ↦ ?_
      dsimp only
      split
      · exact hC.after (within_revocation hP _ _ _) fun _ ↦ hC.only trivial
      · unfold Session.rotate
        split
        · exact hC.raise
        · have hupdate : ∀ successorId now, (Sessions.update session
              { session with rotatedAt := some now, replacedById := some successorId } :
              Tx TokenPair Unit).Within P := by
            intro successorId now
            unfold Sessions.update
            split
            · exact Txn.within_pure ()
            · exact TableAt.within_update (hrotation.consume successorId now)
          show C TokenPair Empty (Sessions.update session _ >>= fun _ ↦ Sessions.add _ _ >>= _)
          refine hC.after (hupdate _ _) fun _ ↦ ?_
          refine hC.after (TableAt.within_insert ?_) fun _ ↦ hC.only trivial
          exact hrotation.succeed (sessionToRecord _ _) rfl

/-- A refresh goes on with the session it has found. -/
theorem composed_refresh_session {refreshToken : PyStr} {context : RequestContext} {moment : Moment}
    (hrotation : ∀ session, AllowsRotation P session) :
    C _ _ (RefreshSession.execute deps refreshToken context moment) := by
  refine hC.after (Txn.within_read _) fun found ↦ ?_
  cases found with
  | none => exact hC.raise
  | some session =>
      refine hC.after within_refuse_if fun _ ↦ ?_
      split
      · split
        · exact composed_reissue hC
        · exact composed_handle_reuse hC hP
      · exact hC.after within_refuse_if fun _ ↦ composed_rotate hC hP (hrotation session)

/-- What is drawn for the session a request may begin. -/
def AccountRequest.moment : AccountRequest → Option Moment
  | .signIn _ _ _ _ moment | .completeMfa _ _ _ moment => some moment
  | _ => none

/-- A request that is not a refresh writes what the condition admits. -/
theorem composed_account {requireForPrivilegedRoles : Bool} {request : AccountRequest}
    (hstart : ∀ moment, request.moment = some moment → AllowsStart P moment)
    (hrefresh : ∀ refreshToken context moment, request = .refresh refreshToken context moment →
      C _ _ (RefreshSession.execute deps refreshToken context moment)) :
    C _ _ (request.program deps requireForPrivilegedRoles) := by
  cases request with
  | signIn email password organizationSlug context moment =>
      exact hC.mapOutcome _ (composed_sign_in hC hP (hstart moment rfl))
  | completeMfa decoded code context moment =>
      exact hC.mapOutcome _ (composed_complete_mfa hC hP (hstart moment rfl))
  | refresh refreshToken context moment =>
      exact hC.mapOutcome _ (hrefresh refreshToken context moment rfl)
  | signOut => exact hC.mapOutcome _ (composed_revoke_session hC hP)
  | enrol => exact hC.mapOutcome _ (composed_enrol_mfa hC hP)
  | confirm => exact hC.mapOutcome _ (composed_confirm_mfa hC hP)
  | disable => exact hC.mapOutcome _ (composed_disable_mfa hC hP)

end

end Aegis.Access
