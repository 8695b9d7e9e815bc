import Aegis.Access.SignIn

/-!
# Lockout

A failed check of a password or of a code is counted on the account, and a check that is passed sets
the count to zero; nothing else does, and the time between two failures is not looked at. The policy
says how long a failure is to count. `lockout_recent_iff` says in which runs an account is locked
only for failures that are recent enough.
-/

namespace Aegis.Access

open Aegis.Server Database Transaction

/-! ## Attempts and failures -/

/-- The account whose password or code a request would check, and when. -/
def AccountRequest.attempt (deps : AuthDependencies) (db : Database) :
    AccountRequest → Option (Uuid × Instant)
  | .signIn email _ _ _ moment =>
      match EmailAddress.make deps.unicode email with
      | .ok address =>
          (db.users.rows.find? fun user ↦ user.email == address).map fun user ↦
            (user.id, moment.now)
      | .error _ => none
  | .completeMfa (.ok claims) _ _ moment => some (claims.subject, moment.now)
  | _ => none

/-- The database, the time of the last attempt, and for each account the failures since a check was
passed, the last one first. -/
structure Books where
  db : Database
  time : Instant
  failures : Uuid → List Instant

/-- A request that has been served alone, with the attempt that it was. -/
structure Attempted where
  served : AccountStep
  attempt : Option (Uuid × Instant)

/-- The failures after an attempt: one that is committed with an error has failed, and one that is
committed without has been passed. -/
def failuresAfter (failures : Uuid → List Instant) (attempted : Attempted) :
    Uuid → List Instant :=
  match attempted.attempt, attempted.served.committed, attempted.served.outcome with
  | some (userId, now), true, .error _ => Function.update failures userId (now :: failures userId)
  | some (userId, _), true, .ok _ => Function.update failures userId []
  | _, _, _ => failures

/-- Requests are served one after another. -/
def bookStep (deps : AuthDependencies) (requireForPrivilegedRoles : Bool) (books : Books)
    (request : AccountRequest) : Attempted × Books :=
  let served := accountStep deps requireForPrivilegedRoles books.db request
  let attempted : Attempted := ⟨served.1, request.attempt deps books.db⟩
  (attempted, ⟨served.2, (attempted.attempt.map Prod.snd).getD books.time,
    failuresAfter books.failures attempted⟩)

/-- An attempt is not made before the last one. -/
def TimeGoesOn (deps : AuthDependencies) (books : Books) (request : AccountRequest) : Prop :=
  ∀ attempt, request.attempt deps books.db = some attempt → books.time ≤ attempt.2

instance (deps : AuthDependencies) (books : Books) (request : AccountRequest) :
    Decidable (TimeGoesOn deps books request) :=
  decidable_of_iff ((request.attempt deps books.db).all fun attempt ↦ books.time ≤ attempt.2) (by
    rw [Option.all_eq_true]
    exact forall₂_congr fun _ _ ↦ decide_eq_true_iff)

/-! ## What an attempt does to accounts -/

/-- How often checks of an account have failed. -/
def failedCount (db : Database) (userId : Uuid) : Option Nat :=
  (db.users.find? userId).map User.failedLoginCount

/-- An account is locked. -/
def isLockedAt (db : Database) (userId : Uuid) (now : Instant) : Bool :=
  (db.users.find? userId).any fun user ↦ user.isLocked now

/-- What a check makes of an account. -/
def checkedUser (policy : LockoutPolicy) (loaded : User) (now : Instant) (failed : Bool)
    (passwordHash : Option PyStr) : User :=
  if failed then loaded.recordFailedLogin now policy
  else { loaded.recordSuccessfulLogin now with passwordHash := passwordHash }

/-- An attempt that is committed has checked an account that was not locked, and changed this
account only. -/
def Checks (policy : LockoutPolicy) (attempt : Option (Uuid × Instant))
    (outcome : Except DomainError AccountAnswer) (before after : Database) : Prop :=
  ∃ loaded now passwordHash, loaded ∈ before.users.rows ∧ attempt = some (loaded.id, now) ∧
    loaded.isLocked now = false ∧
    ∀ userId, after.users.find? userId =
      if userId = loaded.id then
        some (checkedUser policy loaded now (outcome.isOk = false) passwordHash)
      else before.users.find? userId

/-- What a request does to the accounts, when it is committed. -/
def Settles (deps : AuthDependencies) (request : AccountRequest)
    (outcome : Except DomainError AccountAnswer) (before after : Database) : Prop :=
  match request with
  | .signIn .. | .completeMfa .. =>
      Checks deps.lockoutPolicy (request.attempt deps before) outcome before after
  | _ => failedCount after = failedCount before

section
variable {deps : AuthDependencies} {requireForPrivilegedRoles : Bool}

/-- An account that may authenticate is not locked. -/
theorem not_locked_of_ok {user : User} {now : Instant}
    (h : user.assertCanAuthenticate now = .ok ()) : user.isLocked now = false :=
  (User.assert_can_authenticate_eq_ok_iff.mp h).2

/-- The attempt of a sign-in is one at the account that the password is checked against. -/
theorem attempt_sign_in {email password : PyStr} {organizationSlug : Option PyStr}
    {context : RequestContext} {moment : Moment} {db : Database} {loaded : User}
    {passwordHash : PyStr} (h : Presented deps email moment.now db loaded passwordHash) :
    (AccountRequest.signIn email password organizationSlug context moment).attempt deps db =
      some (loaded.id, moment.now) := by
  rw [AccountRequest.attempt, h.address]
  dsimp only
  rw [h.found]
  rfl

/-- A committed sign-in has checked the password of an account. -/
theorem settles_sign_in {email password : PyStr} {organizationSlug : Option PyStr}
    {context : RequestContext} {moment : Moment} {db : Database} :
    Wp (fun w w' : World Database Unit (Except DomainError AccountAnswer) ↦ w' = w)
      (fun committed outcome w after ↦ committed = true →
        Settles deps (.signIn email password organizationSlug context moment) outcome w.db after)
      ((AccountRequest.signIn email password organizationSlug context moment).program deps
        requireForPrivilegedRoles) (fun e _ _ ↦ e.elim) [] ⟨db, []⟩ := by
  have hid : ∀ loaded passwordHash,
      (acceptedUser deps loaded passwordHash moment).id = loaded.id := by
    intro loaded passwordHash
    rw [accepted_user_eq]
    rfl
  rw [AccountRequest.program, wp_map_outcome]
  refine wp_authenticate_user interference_eq (fun _ _ _ ↦ nofun) ?_ ?_ ?_
  · rintro _ _ loaded passwordHash events rfl rfl hpresented - hevents -
    refine ⟨loaded, moment.now, none, hpresented.mem, attempt_sign_in hpresented,
      not_locked_of_ok hpresented.unlocked, fun userId ↦ ?_⟩
    exact find_first_user_writes (keep_users_audit hevents) hpresented.mem (by rfl) userId
  · rintro _ _ loaded passwordHash challenge rfl rfl hpresented - - -
    refine ⟨loaded, moment.now, (acceptedUser deps loaded passwordHash moment).passwordHash,
      hpresented.mem, attempt_sign_in hpresented, not_locked_of_ok hpresented.unlocked,
      fun userId ↦ ?_⟩
    rw [← List.append_nil (userWrites _ _), find_first_user_writes keep_users_nil hpresented.mem
      (hid loaded passwordHash), accepted_user_eq]
    rfl
  · rintro _ _ _ _ loaded passwordHash membership events rfl rfl rfl rfl hpresented - - hevents - -
    refine ⟨loaded, moment.now, (acceptedUser deps loaded passwordHash moment).passwordHash,
      hpresented.mem, attempt_sign_in hpresented, not_locked_of_ok hpresented.unlocked,
      fun userId ↦ ?_⟩
    rw [List.append_assoc, find_first_user_writes
      (keep_users_issue.append (keep_users_audit hevents)) hpresented.mem
      (hid loaded passwordHash), accepted_user_eq]
    rfl

/-- A committed challenge has checked a code for an account. -/
theorem settles_complete_mfa {decoded : Except DomainError ChallengeToken} {code : PyStr}
    {context : RequestContext} {moment : Moment} {db : Database} :
    Wp (fun w w' : World Database Unit (Except DomainError AccountAnswer) ↦ w' = w)
      (fun committed outcome w after ↦ committed = true →
        Settles deps (.completeMfa decoded code context moment) outcome w.db after)
      ((AccountRequest.completeMfa decoded code context moment).program deps
        requireForPrivilegedRoles) (fun e _ _ ↦ e.elim) [] ⟨db, []⟩ := by
  rw [AccountRequest.program, wp_map_outcome]
  refine wp_complete_mfa interference_eq (fun _ _ _ ↦ nofun) ?_ ?_
  · rintro _ _ claims loaded events rfl rfl rfl hchallenged hevents -
    refine ⟨loaded, moment.now, none, hchallenged.mem, ?_, not_locked_of_ok hchallenged.unlocked,
      fun userId ↦ ?_⟩
    · rw [hchallenged.subject]
      rfl
    · exact find_first_user_writes (keep_users_audit hevents) hchallenged.mem (by rfl) userId
  · rintro _ _ _ _ _ claims loaded membership factors events rfl rfl rfl rfl rfl rfl hchallenged
      hverified hevents - -
    refine ⟨loaded, moment.now, loaded.passwordHash, hchallenged.mem, ?_,
      not_locked_of_ok hchallenged.unlocked, fun userId ↦ ?_⟩
    · rw [hchallenged.subject]
      rfl
    · rw [List.append_assoc]
      exact find_user_writes hverified.keep_users
        (keep_users_issue.append (keep_users_audit hevents)) hchallenged.mem (by rfl) userId

end

/-! ## What other requests do to accounts -/

/-- The write leaves every count of failures as it is. -/
def KeepsCounts (u : Write) : Prop :=
  ∀ db : Database, failedCount (Store.apply db u) = failedCount db

/-- A write of another table does. -/
theorem keeps_counts_of_users {u : Write} (h : ∀ db : Database, (Store.apply db u).users = db.users) :
    KeepsCounts u := by
  intro db
  funext userId
  rw [failedCount, h, failedCount]

/-- So does a write of an account that changes only whether it has a second factor. -/
theorem keeps_counts_mfa (user : User) (enabled : Bool) :
    KeepsCounts (.users (.modify user.id (applyUser user { user with mfaEnabled := enabled }))) := by
  intro db
  funext userId
  have hrun : ∀ row, ((applyUser user { user with mfaEnabled := enabled }).run row).failedLoginCount =
      row.failedLoginCount := fun row ↦ if_pos rfl
  show ((RowWrite.apply db.users (.modify user.id _)).find? userId).map User.failedLoginCount = _
  rw [RowWrite.find_apply]
  split
  · show ((db.users.find? userId).map _).map _ = _
    rw [Option.map_map]
    exact congrArg (Option.map · (db.users.find? userId)) (funext hrun)
  · rfl

section
variable {R : Type} {P : Write → Prop}

theorem only_raise {α : Type} {error : DomainError} : (raise error : Tx R α).Only P :=
  trivial

/-- The membership is only read. -/
theorem within_find {organizationId : Uuid} {p : MembershipRecord → Bool} :
    (Memberships.find organizationId p : Tx R (Option Membership)).Within P := by
  refine (Txn.within_read _).bind fun record ↦ ?_
  cases record with
  | none => exact Txn.within_pure none
  | some record =>
      exact ((Txn.within_read _).bind fun _ ↦ within_check).bind fun _ ↦ Txn.within_pure _

theorem within_active_membership {organizationId userId : Uuid} :
    (activeMembership organizationId userId : Tx R Membership).Within P := by
  refine within_find.bind fun membership ↦ ?_
  cases membership with
  | none => trivial
  | some membership => exact within_refuse_if.bind fun _ ↦ Txn.within_pure membership

/-- A bulk revocation writes sessions. -/
theorem within_revoke_sessions {p : Session → Bool} {edit : Edit Session}
    (h : ∀ v, P (.sessions v)) : (sessionsTable.updateWhere p edit : Tx R Nat).Within P :=
  TableAt.within_update_where fun _ ↦ h _

end

section
variable {deps : AuthDependencies}

theorem keeps_counts_session (v : RowWrite Session) : KeepsCounts (.sessions v) :=
  keeps_counts_of_users fun _ ↦ rfl

theorem keeps_counts_factor (v : RowWrite MfaCredential) : KeepsCounts (.mfaCredentials v) :=
  keeps_counts_of_users fun _ ↦ rfl

/-- An event of the audit chain is appended. -/
theorem within_append_counts {R : Type} {event : AuditEventRecord} :
    (Audit.append event : Tx R Unit).Within KeepsCounts :=
  within_append (fun _ ↦ keeps_counts_of_users fun _ ↦ rfl)
    fun _ ↦ keeps_counts_of_users fun _ ↦ rfl

/-- Refreshing a session does not count. -/
theorem only_refresh {refreshToken : PyStr} {context : RequestContext} {moment : Moment} :
    (RefreshSession.execute deps refreshToken context moment).Only KeepsCounts := by
  refine (Txn.within_read _).only.bind fun found ↦ ?_
  cases found with
  | none => exact only_raise
  | some session =>
      refine within_refuse_if.only.bind fun _ ↦ ?_
      split
      · split
        · unfold RefreshSession.reissueFromSuccessor
          split
          · exact only_raise
          · refine (Txn.within_read _).only.bind fun user ↦ ?_
            cases user with
            | none => exact only_raise
            | some user =>
                refine within_refuse_if.only.bind fun _ ↦ ?_
                exact within_active_membership.only.bind fun _ ↦ trivial
        · refine (within_revoke_sessions keeps_counts_session).only.bind fun _ ↦ ?_
          refine (Txn.within_read _).only.bind fun user ↦ ?_
          exact within_append_counts.only.bind fun _ ↦ trivial
      · refine within_refuse_if.only.bind fun _ ↦ ?_
        refine (Txn.within_read _).only.bind fun user ↦ ?_
        cases user with
        | none => exact only_raise
        | some user =>
            refine within_refuse_if.only.bind fun _ ↦ ?_
            refine within_check.only.bind fun _ ↦ ?_
            refine within_find.only.bind fun membership ↦ ?_
            dsimp only
            split
            · exact (within_revoke_sessions keeps_counts_session).only.bind fun _ ↦ trivial
            · refine within_check.only.bind fun rotated ↦ ?_
              have hupdate : (Sessions.update session rotated.1 : Tx TokenPair Unit).Within
                  KeepsCounts := by
                unfold Sessions.update
                split
                · exact Txn.within_pure ()
                · exact TableAt.within_update (keeps_counts_session _)
              refine hupdate.only.bind fun _ ↦ ?_
              exact (TableAt.within_insert (keeps_counts_session _)).only.bind fun _ ↦ trivial

/-- Signing out does not count. -/
theorem only_sign_out {principal : Principal} {allSessions : Bool} {now : Instant} :
    (RevokeSession.execute principal allSessions now).Only KeepsCounts := by
  have hrevoke : ∀ userId, (RevokeSession.revoke principal userId allSessions now : Tx Nat Nat).Within
      KeepsCounts := by
    intro userId
    unfold RevokeSession.revoke
    split
    · exact within_revoke_sessions keeps_counts_session
    · split
      · exact Txn.within_pure 0
      · refine (Txn.within_read _).bind fun found ↦ ?_
        cases found with
        | none => exact Txn.within_pure 0
        | some session => exact within_revoke_sessions keeps_counts_session
  unfold RevokeSession.execute
  split
  · refine (hrevoke _).only.bind fun _ ↦ ?_
    exact within_append_counts.only.bind fun _ ↦ trivial
  · exact only_raise

/-- The user's password is only checked. -/
theorem within_reauthenticate {R : Type} {P : Write → Prop} {principal : Principal}
    {refusal password : PyStr} :
    (reauthenticate deps principal refusal password : Tx R User).Within P := by
  unfold reauthenticate
  split
  · refine (Txn.within_read _).bind fun user ↦ ?_
    cases user with
    | none => trivial
    | some user =>
        dsimp only
        split
        · exact within_refuse_if.bind fun _ ↦ Txn.within_pure user
        · trivial
  · trivial

/-- Factors are deleted. -/
theorem within_delete_factors {R : Type} {userId : Uuid} :
    (MfaCredentials.deleteForUser userId : Tx R Unit).Within KeepsCounts :=
  (TableAt.within_delete_where fun _ ↦ keeps_counts_factor _).bind fun _ ↦ Txn.within_pure ()

/-- Whether an account has a second factor is written. -/
theorem within_update_mfa {R : Type} {user : User} {enabled : Bool} :
    (Users.update user { user with mfaEnabled := enabled } : Tx R Unit).Within KeepsCounts := by
  unfold Users.update
  split
  · exact Txn.within_pure ()
  · exact TableAt.within_update (keeps_counts_mfa user enabled)

/-- Enrolling a second factor does not count. -/
theorem only_enrol {principal : Principal} {password : PyStr} {draw : EnrolmentDraw} :
    (EnrolMfa.execute deps principal password draw).Only KeepsCounts := by
  have hadd : ∀ credential, (MfaCredentials.add credential : Tx MfaEnrolmentResult Unit).Within
      KeepsCounts := fun _ ↦ TableAt.within_insert (keeps_counts_factor _)
  refine within_reauthenticate.only.bind fun user ↦ ?_
  refine within_refuse_if.only.bind fun _ ↦ ?_
  refine within_delete_factors.only.bind fun _ ↦ ?_
  refine (hadd _).only.bind fun _ ↦ ?_
  exact (Txn.within_each fun _ ↦ hadd _).only.bind fun _ ↦ trivial

/-- Confirming a second factor does not count. -/
theorem only_confirm {principal : Principal} {code : PyStr} {now : Instant} :
    (ConfirmMfa.execute deps principal code now).Only KeepsCounts := by
  unfold ConfirmMfa.execute
  split
  · refine (Txn.within_read _).only.bind fun user ↦ ?_
    cases user with
    | none => exact only_raise
    | some user =>
        refine (Txn.within_read _).only.bind fun credential ↦ ?_
        cases credential with
        | none => exact only_raise
        | some credential =>
            dsimp only
            split
            · refine within_refuse_if.only.bind fun _ ↦ ?_
              refine within_check.only.bind fun confirmed ↦ ?_
              have hupdate : (MfaCredentials.update credential confirmed : Tx Unit Unit).Within
                  KeepsCounts := by
                unfold MfaCredentials.update
                split
                · exact Txn.within_pure ()
                · exact TableAt.within_update (keeps_counts_factor _)
              refine hupdate.only.bind fun _ ↦ ?_
              refine within_update_mfa.only.bind fun _ ↦ ?_
              exact within_append_counts.only.bind fun _ ↦ trivial
            · exact only_raise
  · exact only_raise

/-- Disabling a second factor does not count. -/
theorem only_disable {requireForPrivilegedRoles : Bool} {principal : Principal}
    {password : PyStr} :
    (DisableMfa.execute deps requireForPrivilegedRoles principal password).Only KeepsCounts := by
  refine within_reauthenticate.only.bind fun user ↦ ?_
  refine within_refuse_if.only.bind fun _ ↦ ?_
  refine within_refuse_if.only.bind fun _ ↦ ?_
  refine within_delete_factors.only.bind fun _ ↦ ?_
  refine within_update_mfa.only.bind fun _ ↦ ?_
  exact within_append_counts.only.bind fun _ ↦ trivial

/-- A request that is committed does to the accounts what `Settles` says. -/
theorem settles_of_committed {requireForPrivilegedRoles : Bool} {db : Database}
    {request : AccountRequest}
    (h : (accountStep deps requireForPrivilegedRoles db request).1.committed = true) :
    Settles deps request (accountStep deps requireForPrivilegedRoles db request).1.outcome db
      (accountStep deps requireForPrivilegedRoles db request).2 := by
  have hother (honly : (request.program deps requireForPrivilegedRoles).Only KeepsCounts) :
      failedCount (accountStep deps requireForPrivilegedRoles db request).2 = failedCount db :=
    run_congr honly (fun _ hu ↦ hu) (List.forall_mem_nil _) db
  cases request with
  | signIn => exact settles_sign_in.run interference_eq h
  | completeMfa => exact settles_complete_mfa.run interference_eq h
  | refresh => exact hother (Txn.only_map_outcome.mpr only_refresh)
  | signOut => exact hother (Txn.only_map_outcome.mpr only_sign_out)
  | enrol => exact hother (Txn.only_map_outcome.mpr only_enrol)
  | confirm => exact hother (Txn.only_map_outcome.mpr only_confirm)
  | disable => exact hother (Txn.only_map_outcome.mpr only_disable)

end

/-! ## Recent failures -/

/-- A failure is recent enough to count. -/
def stillCounts (policy : LockoutPolicy) (now failure : Instant) : Bool :=
  decide (now - seconds policy.decaySeconds ≤ failure)

/-- An account is not locked, and then it is. -/
def BecomesLocked (userId : Uuid) (now : Instant) (before after : Database) : Prop :=
  isLockedAt before userId now = false ∧ isLockedAt after userId now = true

/-- Whichever account the attempt locks, enough failures in a row were recent. -/
def LocksForRecent (policy : LockoutPolicy) (attempted : Attempted) (books : Books) : Prop :=
  ∀ userId attempt, attempted.attempt = some attempt →
    BecomesLocked userId attempt.2 attempted.served.before books.db →
    policy.maxFailedAttempts ≤ (books.failures userId).countP (stillCounts policy attempt.2)

/-- The attempt has failed. -/
def Attempted.failed (attempted : Attempted) : Bool :=
  attempted.served.committed && !attempted.served.outcome.isOk

/-- When the attempt fails, the failure that is one less than the maximum before it in a row, if
there is one, is recent. -/
def FailuresClose (policy : LockoutPolicy) (attempted : Attempted) (books : Books) : Prop :=
  ∀ attempt, attempted.attempt = some attempt → attempted.failed = true →
    ∀ first, (books.failures attempt.1)[policy.maxFailedAttempts - 1]? = some first →
      stillCounts policy attempt.2 first = true

/-- In a list whose last items come first, so many items meet a condition that later items meet too
just when the item at that place does. -/
theorem le_count_iff {p : Instant → Bool} (hp : ∀ a b, p b = true → b ≤ a → p a = true)
    {l : List Instant} (hl : l.Pairwise (· ≥ ·)) (k : Nat) :
    k + 1 ≤ l.countP p ↔ ∃ x, l[k]? = some x ∧ p x = true := by
  induction l generalizing k with
  | nil => simp
  | cons a l ih =>
      obtain ⟨ha, hl⟩ := List.pairwise_cons.mp hl
      by_cases hpa : p a = true
      · rw [List.countP_cons_of_pos hpa, Nat.add_le_add_iff_right]
        cases k with
        | zero => simp [hpa]
        | succ k =>
            rw [List.getElem?_cons_succ]
            exact ih hl k
      · have hnone : ∀ b ∈ a :: l, ¬p b = true := by
          intro b hb hpb
          rcases List.mem_cons.mp hb with rfl | hb
          · exact hpa hpb
          · exact hpa (hp a b hpb (ha b hb))
        rw [List.countP_eq_zero.mpr hnone]
        constructor
        · intro h
          omega
        · rintro ⟨x, hx, hpx⟩
          exact absurd hpx (hnone x (List.mem_of_getElem? hx))

/-- A later failure is recent when an earlier one is. -/
theorem still_counts_later {policy : LockoutPolicy} {now a b : Instant}
    (h : stillCounts policy now b = true) (hle : b ≤ a) : stillCounts policy now a = true :=
  decide_eq_true ((of_decide_eq_true h).trans hle)

/-- A failure locks an account that was not locked just when the maximum is reached. -/
theorem is_locked_record_failed (policy : LockoutPolicy) {user : User} {now : Instant}
    (h : user.isLocked now = false) :
    (user.recordFailedLogin now policy).isLocked now = true ↔
      policy.maxFailedAttempts ≤ user.failedLoginCount + 1 := by
  rw [← policy.lock_duration_pos_iff]
  show ((if policy.lockDuration (user.failedLoginCount + 1) ≠ 0 then
      some (now + seconds (policy.lockDuration (user.failedLoginCount + 1)))
    else user.lockedUntil).any fun until_ ↦ decide (now < until_)) = true ↔ _
  split
  · rename_i hduration
    have hlater : now < now + seconds (policy.lockDuration (user.failedLoginCount + 1)) := by
      have hpos : (0 : Int) < seconds (policy.lockDuration (user.failedLoginCount + 1)) := by
        unfold seconds
        omega
      exact Int.lt_add_of_pos_right _ hpos
    exact iff_of_true (decide_eq_true hlater) (Nat.pos_of_ne_zero hduration)
  · rename_i hduration
    rw [not_not] at hduration
    refine iff_of_false ?_ (by omega)
    rw [← Bool.not_eq_true] at h
    exact h

/-- The counts are those of the failures, which are in order of their times. -/
structure Books.Kept (books : Books) : Prop where
  counted : ∀ userId n, failedCount books.db userId = some n → n = (books.failures userId).length
  ordered : ∀ userId, (books.failures userId).Pairwise (· ≥ ·)
  past : ∀ userId, ∀ failure ∈ books.failures userId, failure ≤ books.time

/-- Failures are written down when they happen, after those that are there. -/
theorem Books.Kept.cons {books : Books} (h : books.Kept) (userId : Uuid) {now : Instant}
    (hnow : books.time ≤ now) : (now :: books.failures userId).Pairwise (· ≥ ·) :=
  List.pairwise_cons.mpr ⟨fun failure hfailure ↦ (h.past userId failure hfailure).trans hnow,
    h.ordered userId⟩

/-- No account is locked when the accounts are the same after the request. -/
theorem not_becomes_locked {userId : Uuid} {now : Instant} {before after : Database}
    (h : after.users.find? userId = before.users.find? userId) :
    ¬BecomesLocked userId now before after := by
  rintro ⟨hbefore, hafter⟩
  rw [isLockedAt, h, ← isLockedAt, hbefore] at hafter
  cases hafter

/-- Where a request has nothing to do with an attempt that is committed, the two conditions hold. -/
theorem recent_iff_of_same {policy : LockoutPolicy} {attempted : Attempted} {books : Books}
    (hsame : attempted.attempt = none ∨ books.db = attempted.served.before)
    (hfailed : attempted.attempt = none ∨ attempted.failed = false) :
    LocksForRecent policy attempted books ↔ FailuresClose policy attempted books := by
  refine iff_of_true (fun userId attempt hattempt hlocked ↦ ?_) fun attempt hattempt hfail ↦ ?_
  · rcases hsame with hnone | hdb
    · rw [hnone] at hattempt
      cases hattempt
    · rw [hdb] at hlocked
      exact absurd hlocked (not_becomes_locked rfl)
  · rcases hfailed with hnone | hpassed
    · rw [hnone] at hattempt
      cases hattempt
    · rw [hpassed] at hfail
      cases hfail

/-- The books after an attempt that has checked an account. -/
theorem kept_of_checks {policy : LockoutPolicy} {books : Books} {after : Database} {loaded : User}
    {now : Instant} {passwordHash : Option PyStr} (failed : Bool) (hkept : books.Kept)
    (hnow : books.time ≤ now) (hmem : loaded ∈ books.db.users.rows)
    (hafter : ∀ userId, after.users.find? userId =
      if userId = loaded.id then some (checkedUser policy loaded now failed passwordHash)
      else books.db.users.find? userId) :
    Books.Kept ⟨after, now, Function.update books.failures loaded.id
      (if failed then now :: books.failures loaded.id else [])⟩ := by
  have hfound : books.db.users.find? loaded.id = some loaded :=
    Table.find_eq_some_iff.mpr ⟨hmem, rfl⟩
  have hcount := hkept.counted loaded.id loaded.failedLoginCount (by rw [failedCount, hfound]; rfl)
  constructor
  · intro userId n hn
    rw [failedCount, hafter] at hn
    by_cases hid : userId = loaded.id
    · rw [if_pos hid] at hn
      obtain rfl := Option.some.inj hn
      subst hid
      cases failed with
      | true => simp [checkedUser, User.recordFailedLogin, hcount]
      | false => simp [checkedUser, User.recordSuccessfulLogin]
    · rw [if_neg hid] at hn
      simpa [hid] using hkept.counted userId n hn
  · intro userId
    by_cases hid : userId = loaded.id
    · subst hid
      cases failed with
      | true => simpa using hkept.cons loaded.id hnow
      | false => simp
    · simpa [hid] using hkept.ordered userId
  · intro userId failure hfailure
    by_cases hid : userId = loaded.id
    · subst hid
      cases failed with
      | true =>
          simp only [Function.update_self, if_true, List.mem_cons] at hfailure
          rcases hfailure with rfl | hfailure
          · exact le_rfl
          · exact (hkept.past loaded.id failure hfailure).trans hnow
      | false => simp at hfailure
    · simp only [Function.update_of_ne hid] at hfailure
      exact (hkept.past userId failure hfailure).trans hnow

/-- A failed check locks the account for recent failures only just when the failures are close. -/
theorem recent_iff_of_failed {policy : LockoutPolicy} {books : Books} {attempted : Attempted}
    {after : Database} {loaded : User} {now : Instant} {passwordHash : Option PyStr}
    (hkept : books.Kept) (hnow : books.time ≤ now) (hbefore : attempted.served.before = books.db)
    (hmem : loaded ∈ books.db.users.rows) (hattempt : attempted.attempt = some (loaded.id, now))
    (hfailed : attempted.failed = true) (hunlocked : loaded.isLocked now = false)
    (hafter : ∀ userId, after.users.find? userId =
      if userId = loaded.id then some (checkedUser policy loaded now true passwordHash)
      else books.db.users.find? userId) :
    LocksForRecent policy attempted
        ⟨after, now, Function.update books.failures loaded.id
          (now :: books.failures loaded.id)⟩ ↔
      FailuresClose policy attempted
        ⟨after, now, Function.update books.failures loaded.id
          (now :: books.failures loaded.id)⟩ := by
  have hfound : books.db.users.find? loaded.id = some loaded :=
    Table.find_eq_some_iff.mpr ⟨hmem, rfl⟩
  have hcount := hkept.counted loaded.id loaded.failedLoginCount (by rw [failedCount, hfound]; rfl)
  have hmax := policy.three_le_max_failed_attempts
  let failures := now :: books.failures loaded.id
  have hlocked : ∀ userId, BecomesLocked userId now books.db after ↔
      userId = loaded.id ∧ policy.maxFailedAttempts ≤ failures.length := by
    intro userId
    by_cases hid : userId = loaded.id
    · have hlock := is_locked_record_failed policy hunlocked
      rw [hcount] at hlock
      subst hid
      rw [BecomesLocked, isLockedAt, isLockedAt, hafter, if_pos rfl, hfound]
      exact ⟨fun h ↦ ⟨rfl, hlock.mp h.2⟩, fun h ↦ ⟨hunlocked, hlock.mpr h.2⟩⟩
    · refine iff_of_false (not_becomes_locked ?_) fun h ↦ hid h.1
      rw [hafter, if_neg hid]
  have hrecent := le_count_iff (p := stillCounts policy now)
    (fun _ _ hb hle ↦ still_counts_later hb hle) (hkept.cons loaded.id hnow)
    (policy.maxFailedAttempts - 1)
  rw [Nat.sub_add_cancel (by omega)] at hrecent
  constructor
  · intro hlocks attempt hat _ first hfirst
    obtain rfl := Option.some.inj (hattempt.symm.trans hat)
    simp only [Function.update_self] at hfirst
    have hlength : policy.maxFailedAttempts ≤ (now :: books.failures loaded.id).length := by
      have := (List.getElem?_eq_some_iff.mp hfirst).1
      omega
    have := hlocks loaded.id _ hattempt (hbefore ▸ (hlocked loaded.id).mpr ⟨rfl, hlength⟩)
    simp only [Function.update_self] at this
    obtain ⟨x, hx, hcounts⟩ := hrecent.mp this
    rw [hfirst] at hx
    exact Option.some.inj hx ▸ hcounts
  · intro hclose userId attempt hat hbecomes
    obtain rfl := Option.some.inj (hattempt.symm.trans hat)
    rw [hbefore] at hbecomes
    obtain ⟨rfl, hlength⟩ := (hlocked userId).mp hbecomes
    simp only [Function.update_self]
    obtain ⟨first, hfirst⟩ : ∃ first, failures[policy.maxFailedAttempts - 1]? = some first :=
      ⟨_, List.getElem?_eq_getElem (by omega)⟩
    refine hrecent.mpr ⟨first, hfirst, hclose _ hattempt hfailed first ?_⟩
    simp only [Function.update_self]
    exact hfirst

/-- A committed request has checked an account, or is no attempt. -/
theorem settles_cases {deps : AuthDependencies} {request : AccountRequest}
    {outcome : Except DomainError AccountAnswer} {before after : Database}
    (h : Settles deps request outcome before after) :
    Checks deps.lockoutPolicy (request.attempt deps before) outcome before after ∨
      request.attempt deps before = none ∧ failedCount after = failedCount before := by
  cases request with
  | signIn | completeMfa => exact .inl h
  | refresh | signOut | enrol | confirm | disable => exact .inr ⟨rfl, h⟩

/-- What is known of a request is enough to keep the books, and for it to lock accounts for recent
failures only just when the failures are close. -/
theorem kept_and_recent_iff {policy : LockoutPolicy} {books : Books} {served : AccountStep}
    {attempt : Option (Uuid × Instant)} {after : Database} (hkept : books.Kept)
    (htime : ∀ at_, attempt = some at_ → books.time ≤ at_.2) (hbefore : served.before = books.db)
    (hsame : served.committed = false → after = books.db)
    (hsettles : served.committed = true →
      Checks policy attempt served.outcome books.db after ∨
        attempt = none ∧ failedCount after = failedCount books.db) :
    Books.Kept ⟨after, (attempt.map Prod.snd).getD books.time,
        failuresAfter books.failures ⟨served, attempt⟩⟩ ∧
      (LocksForRecent policy ⟨served, attempt⟩ ⟨after, (attempt.map Prod.snd).getD books.time,
          failuresAfter books.failures ⟨served, attempt⟩⟩ ↔
        FailuresClose policy ⟨served, attempt⟩ ⟨after, (attempt.map Prod.snd).getD books.time,
          failuresAfter books.failures ⟨served, attempt⟩⟩) := by
  have hlater : books.time ≤ (attempt.map Prod.snd).getD books.time := by
    cases attempt with
    | none => exact le_rfl
    | some at_ => exact htime at_ rfl
  -- When no check was made, the failures are those that there were.
  have hidle : failedCount after = failedCount books.db →
      failuresAfter books.failures ⟨served, attempt⟩ = books.failures →
      Books.Kept ⟨after, (attempt.map Prod.snd).getD books.time,
        failuresAfter books.failures ⟨served, attempt⟩⟩ := by
    intro hcount hfailures
    rw [hfailures]
    exact ⟨fun userId n hn ↦ hkept.counted userId n (by rw [← hcount]; exact hn),
      hkept.ordered, fun userId failure hfailure ↦
        (hkept.past userId failure hfailure).trans hlater⟩
  cases hcommitted : served.committed with
  | false =>
      have hfailures : failuresAfter books.failures ⟨served, attempt⟩ = books.failures := by
        unfold failuresAfter
        rw [hcommitted]
        cases attempt <;> rfl
      refine ⟨hidle (by rw [hsame hcommitted]) hfailures, recent_iff_of_same (.inr ?_) (.inr ?_)⟩
      · rw [hbefore]
        exact hsame hcommitted
      · rw [Attempted.failed, hcommitted]
        rfl
  | true =>
      rcases hsettles hcommitted with hchecks | ⟨rfl, hcount⟩
      · obtain ⟨loaded, now, passwordHash, hmem, rfl, hunlocked, hafter⟩ := hchecks
        have hnow := htime _ rfl
        show Books.Kept ⟨after, now, _⟩ ∧ (LocksForRecent policy _ ⟨after, now, _⟩ ↔
          FailuresClose policy _ ⟨after, now, _⟩)
        unfold failuresAfter
        rw [hcommitted]
        cases houtcome : served.outcome with
        | error e =>
            rw [houtcome] at hafter
            have hfailed : (⟨served, some (loaded.id, now)⟩ : Attempted).failed = true := by
              rw [Attempted.failed, hcommitted, houtcome]
              rfl
            exact ⟨kept_of_checks true hkept hnow hmem hafter,
              recent_iff_of_failed hkept hnow hbefore hmem rfl hfailed hunlocked hafter⟩
        | ok answer =>
            rw [houtcome] at hafter
            refine ⟨kept_of_checks false hkept hnow hmem hafter, ?_⟩
            -- A check that was passed locks nothing.
            refine iff_of_true (fun userId at_ hat hlocked ↦ ?_) fun at_ hat hfailed ↦ ?_
            · obtain rfl := Option.some.inj hat
              refine absurd hlocked ?_
              rintro ⟨hunlockedBefore, hlockedAfter⟩
              rw [isLockedAt, hafter] at hlockedAfter
              split at hlockedAfter
              · cases hlockedAfter
              · rw [hbefore, isLockedAt] at hunlockedBefore
                rw [hunlockedBefore] at hlockedAfter
                cases hlockedAfter
            · rw [Attempted.failed, hcommitted, houtcome] at hfailed
              cases hfailed
      · exact ⟨hidle hcount rfl, recent_iff_of_same (.inl rfl) (.inl rfl)⟩

/-- One request keeps the books, and locks accounts for recent failures only just when the failures
are close. -/
theorem book_step {deps : AuthDependencies} {requireForPrivilegedRoles : Bool} {books : Books}
    {request : AccountRequest} (hkept : books.Kept) (htime : TimeGoesOn deps books request) :
    (bookStep deps requireForPrivilegedRoles books request).2.Kept ∧
      (LocksForRecent deps.lockoutPolicy (bookStep deps requireForPrivilegedRoles books request).1
          (bookStep deps requireForPrivilegedRoles books request).2 ↔
        FailuresClose deps.lockoutPolicy (bookStep deps requireForPrivilegedRoles books request).1
          (bookStep deps requireForPrivilegedRoles books request).2) :=
  kept_and_recent_iff hkept htime rfl run_of_not_committed
    fun hcommitted ↦ settles_cases (settles_of_committed hcommitted)

/-- No failure is counted, and none is written down. -/
def startingBooks (db : Database) (time : Instant) : Books :=
  ⟨db, time, fun _ ↦ []⟩

/-- In a run at times that do not decrease, accounts are locked for recent failures only just when
at each failed attempt the failures in a row that make the maximum lie within the time that a
failure is to count. -/
theorem lockout_recent_iff {deps : AuthDependencies} {requireForPrivilegedRoles : Bool}
    {db : Database} {time : Instant} {requests : List AccountRequest}
    (hfresh : ∀ user ∈ db.users.rows, user.failedLoginCount = 0)
    (htime : Machine.Meets (bookStep deps requireForPrivilegedRoles) (TimeGoesOn deps)
      (startingBooks db time) requests) :
    (∀ step ∈ Machine.visited (bookStep deps requireForPrivilegedRoles) (startingBooks db time)
        requests, LocksForRecent deps.lockoutPolicy step.1 step.2) ↔
      ∀ step ∈ Machine.visited (bookStep deps requireForPrivilegedRoles) (startingBooks db time)
        requests, FailuresClose deps.lockoutPolicy step.1 step.2 := by
  have hkept : (startingBooks db time).Kept := by
    refine ⟨fun userId n hn ↦ ?_, fun _ ↦ List.Pairwise.nil, fun _ _ ↦ nofun⟩
    obtain ⟨user, huser, rfl⟩ := Option.map_eq_some_iff.mp hn
    exact hfresh user (Table.find_eq_some_iff.mp huser).1
  let good : Attempted → Books → Prop := fun attempted books ↦
    LocksForRecent deps.lockoutPolicy attempted books ↔
      FailuresClose deps.lockoutPolicy attempted books
  have hstep : ∀ books request, Books.Kept books → TimeGoesOn deps books request →
      (bookStep deps requireForPrivilegedRoles books request).2.Kept ∧
        good (bookStep deps requireForPrivilegedRoles books request).1
          (bookStep deps requireForPrivilegedRoles books request).2 :=
    fun _ _ hbooks hgoes ↦ book_step hbooks hgoes
  have hvisited := Machine.forall_visited hstep hkept htime
  exact forall_congr' fun step ↦ forall_congr' fun hmem ↦ (hvisited step hmem).2

/-! ## Five failures -/

/-- A wrong password on each of five occasions. -/
def fiveFailures (interval : Int) : List AccountRequest :=
  (List.range 5).map fun i ↦ plainSignIn "wrong" (i * seconds interval) 31

/-- In five minutes, both conditions hold. -/
theorem lockout_recent_in_five_minutes :
    (∀ step ∈ Machine.visited (bookStep plainDependencies false)
        (startingBooks (plainAccounts plainUser .empty) 0) (fiveFailures 60),
        LocksForRecent .default step.1 step.2) ↔
      ∀ step ∈ Machine.visited (bookStep plainDependencies false)
        (startingBooks (plainAccounts plainUser .empty) 0) (fiveFailures 60),
        FailuresClose .default step.1 step.2 :=
  lockout_recent_iff (by decide) (by decide +kernel)

/-- One wrong password a day locks the account on the fifth day, though only the last failure is
recent. -/
theorem lockout_on_fifth_day :
    Machine.Meets (bookStep plainDependencies false) (TimeGoesOn plainDependencies)
        (startingBooks (plainAccounts plainUser .empty) 0) (fiveFailures 86400) ∧
      ¬∀ step ∈ Machine.visited (bookStep plainDependencies false)
        (startingBooks (plainAccounts plainUser .empty) 0) (fiveFailures 86400),
        LocksForRecent .default step.1 step.2 := by
  refine ⟨by decide +kernel, fun h ↦ ?_⟩
  have hlast : ((Machine.visited (bookStep plainDependencies false)
      (startingBooks (plainAccounts plainUser .empty) 0) (fiveFailures 86400))[4]?).isSome =
      true := by
    decide +kernel
  have hfacts : ((Machine.visited (bookStep plainDependencies false)
      (startingBooks (plainAccounts plainUser .empty) 0) (fiveFailures 86400))[4]?).all (fun step ↦
        step.1.attempt == some (7, seconds (4 * 86400)) &&
          (!isLockedAt step.1.served.before 7 (seconds (4 * 86400)) &&
          isLockedAt step.2.db 7 (seconds (4 * 86400))) &&
          (step.2.failures 7).countP (stillCounts .default (seconds (4 * 86400))) == 1) =
      true := by
    decide +kernel
  obtain ⟨step, hstep⟩ := Option.isSome_iff_exists.mp hlast
  rw [hstep, Option.all_some, Bool.and_eq_true, Bool.and_eq_true, Bool.and_eq_true, beq_iff_eq,
    beq_iff_eq, Bool.not_eq_true'] at hfacts
  obtain ⟨⟨hattempt, hbefore, hafter⟩, hcount⟩ := hfacts
  have := h step (List.mem_of_getElem? hstep) 7 _ hattempt ⟨hbefore, hafter⟩
  rw [hcount] at this
  exact absurd this (by decide)

end Aegis.Access
