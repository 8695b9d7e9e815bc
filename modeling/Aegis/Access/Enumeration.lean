import Aegis.Access.SignIn

/-!
# What failed sign-ins tell

Attempts at an address with passwords that are not the right one, in a database that has an account
for the address and in one that has none. A wrong password and an address without account get one
answer, but an account is locked for its failures, and a locked account says so.
-/

namespace Aegis.Access

open Aegis.Server Database Transaction

/-! ## Attempts -/

/-- An attempt to sign in. -/
structure Attempt where
  email : PyStr
  password : PyStr
  organizationSlug : Option PyStr
  context : RequestContext
  moment : Moment

/-- The request of an attempt. -/
def Attempt.request (attempt : Attempt) : AccountRequest :=
  .signIn attempt.email attempt.password attempt.organizationSlug attempt.context attempt.moment

/-- The answers to attempts that are made one after another. -/
def answers (deps : AuthDependencies) (requireForPrivilegedRoles : Bool) :
    Database → List Attempt → List (Except DomainError AccountAnswer)
  | _, [] => []
  | db, attempt :: attempts =>
      let served := accountStep deps requireForPrivilegedRoles db attempt.request
      served.1.outcome :: answers deps requireForPrivilegedRoles served.2 attempts

/-- The account of an address. -/
def accountOf (db : Database) (address : PyStr) : Option User :=
  db.users.rows.find? fun user ↦ user.email == address

/-- An attempt at the address with a password that is not the one of the hash. -/
structure Attempt.Wrong (deps : AuthDependencies) (address passwordHash : PyStr)
    (attempt : Attempt) : Prop where
  address : EmailAddress.make deps.unicode attempt.email = .ok address
  password : deps.verify attempt.password passwordHash = false

/-- No attempt is made while the account is locked: by what it is at first, or by a failure among
these attempts. -/
def NeverLocked (policy : LockoutPolicy) : User → List Instant → Prop
  | _, [] => True
  | user, now :: later =>
      user.isLocked now = false ∧ NeverLocked policy (user.recordFailedLogin now policy) later

/-! ## One attempt -/

section
variable {deps : AuthDependencies} {requireForPrivilegedRoles : Bool} {db : Database}
variable {address passwordHash : PyStr} {attempt : Attempt} {user : User}

/-- What an attempt is answered and leaves, as the rule for its transaction has it. -/
theorem account_step_of_wp {P : Except DomainError AccountAnswer → Database → Prop}
    (h : Wp (fun w w' : World Database Unit Unit ↦ w' = w)
      (fun _ outcome _ after ↦ P (outcome.map .result) after)
      (AuthenticateUser.execute deps attempt.email attempt.password attempt.organizationSlug
        attempt.context attempt.moment) (fun e _ _ ↦ e.elim) [] ⟨db, []⟩) :
    P (accountStep deps requireForPrivilegedRoles db attempt.request).1.outcome
      (accountStep deps requireForPrivilegedRoles db attempt.request).2 := by
  have hwp : Wp (fun w w' : World Database Unit Unit ↦ w' = w)
      (fun _ outcome _ after ↦ P outcome after)
      (attempt.request.program deps requireForPrivilegedRoles) (fun e _ _ ↦ e.elim) []
      ⟨db, []⟩ := wp_map_outcome.mpr h
  exact hwp.run interference_eq

/-- An address without account is answered as a wrong password is, and nothing is written. -/
theorem account_step_unknown (haddress : EmailAddress.make deps.unicode attempt.email = .ok address)
    (hnone : accountOf db address = none) :
    (accountStep deps requireForPrivilegedRoles db attempt.request).1.outcome =
        .error .invalidCredentials ∧
      (accountStep deps requireForPrivilegedRoles db attempt.request).2 = db := by
  refine account_step_of_wp (P := fun outcome after ↦ outcome = .error .invalidCredentials ∧
    after = db) ?_
  rw [AuthenticateUser.execute, haddress]
  dsimp only
  rw [wp_bind, Users.getByEmail, TableAt.wp_select_one]
  rintro _ rfl
  have hfind : ((usersTable.read (view [] db)).rows.find? fun user ↦ user.email == address) =
      none := hnone
  rw [hfind]
  rintro _ rfl
  exact ⟨rfl, rfl⟩

/-- A locked account says that it is locked. -/
theorem account_step_locked (haddress : EmailAddress.make deps.unicode attempt.email = .ok address)
    (huser : accountOf db address = some user) (hhash : user.passwordHash = some passwordHash)
    (hactive : user.status ≠ .DISABLED) (hlocked : user.isLocked attempt.moment.now = true) :
    (accountStep deps requireForPrivilegedRoles db attempt.request).1.outcome =
      .error (.AccountLockedError (user.lockRetryAfter attempt.moment.now)) := by
  refine account_step_of_wp (P := fun outcome _ ↦
    outcome = .error (.AccountLockedError (user.lockRetryAfter attempt.moment.now))) ?_
  rw [AuthenticateUser.execute, haddress]
  dsimp only
  rw [wp_bind, Users.getByEmail, TableAt.wp_select_one]
  rintro _ rfl
  have hfind : ((usersTable.read (view [] db)).rows.find? fun user ↦ user.email == address) =
      some user := huser
  rw [hfind]
  dsimp only
  rw [hhash]
  dsimp only
  rw [wp_bind, User.assertCanAuthenticate, if_neg hactive, if_pos hlocked]
  rintro _ rfl
  rfl

/-- The account of an address after a failure has been written. -/
theorem account_of_failed {events : List Write} (hevents : ∀ u ∈ events, u.IsAudit)
    (huser : accountOf db address = some user) (now : Instant) (policy : LockoutPolicy) :
    accountOf (view (userWrites user (user.recordFailedLogin now policy) ++ events) db) address =
      some (user.recordFailedLogin now policy) := by
  have hne : user.recordFailedLogin now policy ≠ user := fun h ↦
    Nat.succ_ne_self _ (congrArg User.failedLoginCount h)
  have hrun : (applyUser user (user.recordFailedLogin now policy)).run user =
      user.recordFailedLogin now policy := by
    unfold applyUser
    simp only [changed_self]
    rfl
  have hemail : ∀ row : User, (Table.editAt user.id
      (applyUser user (user.recordFailedLogin now policy)) row).email = row.email := by
    intro row
    unfold Table.editAt
    split
    · exact if_pos rfl
    · rfl
  rw [accountOf, view_append, users_of_keep (keep_users_audit hevents), userWrites, if_neg hne]
  show ((db.users.rows.map (Table.editAt user.id (applyUser user
    (user.recordFailedLogin now policy)))).find? fun row ↦ row.email == address) = _
  rw [List.find?_map]
  have hsame : ((fun row : User ↦ row.email == address) ∘ Table.editAt user.id
      (applyUser user (user.recordFailedLogin now policy))) = fun row ↦ row.email == address := by
    funext row
    rw [Function.comp_apply, hemail]
  rw [hsame]
  show (accountOf db address).map _ = _
  rw [huser]
  exact congrArg some ((if_pos rfl).trans hrun)

/-- A wrong password is counted on the account. -/
theorem account_step_failed (hwrong : attempt.Wrong deps address passwordHash)
    (huser : accountOf db address = some user) (hhash : user.passwordHash = some passwordHash)
    (hactive : user.status ≠ .DISABLED) (hunlocked : user.isLocked attempt.moment.now = false) :
    (accountStep deps requireForPrivilegedRoles db attempt.request).1.outcome =
        .error .invalidCredentials ∧
      accountOf (accountStep deps requireForPrivilegedRoles db attempt.request).2 address =
        some (user.recordFailedLogin attempt.moment.now deps.lockoutPolicy) := by
  refine account_step_of_wp (P := fun outcome after ↦ outcome = .error .invalidCredentials ∧
    accountOf after address =
      some (user.recordFailedLogin attempt.moment.now deps.lockoutPolicy)) ?_
  have hne : user.recordFailedLogin attempt.moment.now deps.lockoutPolicy ≠ user := fun h ↦
    Nat.succ_ne_self _ (congrArg User.failedLoginCount h)
  have hends : ∀ events : List Write, (∀ u ∈ events, u.IsAudit) →
      accountOf (view ([.users (.modify user.id (applyUser user
        (user.recordFailedLogin attempt.moment.now deps.lockoutPolicy)))] ++ events) db) address =
          some (user.recordFailedLogin attempt.moment.now deps.lockoutPolicy) := by
    intro events hevents
    have := account_of_failed hevents huser attempt.moment.now deps.lockoutPolicy
    rwa [userWrites, if_neg hne] at this
  rw [AuthenticateUser.execute, hwrong.address]
  dsimp only
  rw [wp_bind, Users.getByEmail, TableAt.wp_select_one]
  rintro _ rfl
  have hfind : ((usersTable.read (view [] db)).rows.find? fun user ↦ user.email == address) =
      some user := huser
  rw [hfind]
  dsimp only
  rw [hhash]
  dsimp only
  rw [wp_bind, User.assertCanAuthenticate, if_neg hactive, hunlocked, if_neg Bool.false_ne_true]
  show Wp _ _ (if deps.verify attempt.password passwordHash = true then _ else _) _ _ _
  rw [hwrong.password, if_neg Bool.false_ne_true, AuthenticateUser.reject]
  rw [wp_bind, Users.update, if_neg hne]
  refine TableAt.wp_update_alone (List.mem_of_find?_eq_some huser) rfl ?_
  rw [List.nil_append, wp_bind, AuthenticateUser.auditFailure, wp_bind,
    Organizations.findActiveForUser, wp_read]
  rintro _ rfl
  dsimp only
  split
  · rw [wp_bind]
    refine wp_append_alone fun us hus ↦ ?_
    split
    · refine wp_append_alone fun vs hvs ↦ ?_
      rintro _ rfl
      refine ⟨rfl, ?_⟩
      rw [List.append_assoc]
      exact hends _ fun u hu ↦ (List.mem_append.mp hu).elim (hus u) (hvs u)
    · rintro _ rfl
      exact ⟨rfl, hends us hus⟩
  · rintro _ rfl
    exact ⟨rfl, hends [] (List.forall_mem_nil _)⟩

end

/-! ## Many attempts -/

section
variable {deps : AuthDependencies} {requireForPrivilegedRoles : Bool}
variable {address passwordHash : PyStr} {attempts : List Attempt}

/-- Without account, every attempt is answered as a wrong password is. -/
theorem answers_unknown {db : Database} (hnone : accountOf db address = none)
    (haddress : ∀ attempt ∈ attempts,
      EmailAddress.make deps.unicode attempt.email = .ok address) :
    answers deps requireForPrivilegedRoles db attempts =
      List.replicate attempts.length (.error .invalidCredentials) := by
  induction attempts with
  | nil => rfl
  | cons attempt attempts ih =>
      obtain ⟨hfirst, hrest⟩ := List.forall_mem_cons.mp haddress
      obtain ⟨houtcome, hafter⟩ := @account_step_unknown deps requireForPrivilegedRoles db address
        attempt hfirst hnone
      rw [answers, houtcome, hafter, ih hrest]
      rfl

/-- With an account, they are as long as none is made while the account is locked. -/
theorem answers_known_iff {db : Database} {user : User} (huser : accountOf db address = some user)
    (hhash : user.passwordHash = some passwordHash) (hactive : user.status ≠ .DISABLED)
    (hwrong : ∀ attempt ∈ attempts, attempt.Wrong deps address passwordHash) :
    answers deps requireForPrivilegedRoles db attempts =
        List.replicate attempts.length (.error .invalidCredentials) ↔
      NeverLocked deps.lockoutPolicy user (attempts.map fun attempt ↦ attempt.moment.now) := by
  induction attempts generalizing db user with
  | nil => exact iff_of_true rfl trivial
  | cons attempt attempts ih =>
      obtain ⟨hfirst, hrest⟩ := List.forall_mem_cons.mp hwrong
      rw [answers, List.length_cons, List.replicate_succ, List.map_cons, NeverLocked]
      cases hlocked : user.isLocked attempt.moment.now with
      | true =>
          refine iff_of_false (fun h ↦ ?_) fun h ↦ Bool.false_ne_true h.1.symm
          have houtcome := (List.cons.inj h).1
          rw [account_step_locked hfirst.address huser hhash hactive hlocked] at houtcome
          cases houtcome
      | false =>
          obtain ⟨houtcome, hafter⟩ := @account_step_failed deps requireForPrivilegedRoles db address
            passwordHash attempt user hfirst huser hhash hactive hlocked
          rw [houtcome, List.cons.injEq, and_iff_right rfl, and_iff_right rfl]
          exact ih hafter hhash hactive hrest

end

/-- An attempt at the address of the user with the password `guess`. -/
def guess (now : Instant) : Attempt :=
  ⟨py "a@b.co", py "guess", none, ⟨[], none, []⟩, ⟨now, now, 11, [], []⟩⟩

end Aegis.Access
