import Mathlib.Data.List.Infix
import Aegis.Access.SignIn

/-!
# Changing a password

A user who changes the password is to stay signed in where it is done, and nowhere else. The session
that is kept is the one the access token names, and a token outlives the rotation of its session:
`change_password_keeps_iff` says for which tokens the family of the caller keeps its current session.
-/

namespace Aegis.Access

open Aegis.Server Database Transaction

/-! ## The password policy -/

/-- `_COMMON_PASSWORDS`. -/
def COMMON_PASSWORDS : List PyStr :=
  [py "password", py "password1", py "password123", py "passw0rd", py "123456", py "12345678",
    py "123456789", py "1234567890", py "qwerty", py "qwerty123", py "letmein", py "welcome",
    py "welcome1", py "admin", py "administrator", py "iloveyou", py "monkey", py "dragon",
    py "sunshine", py "princess", py "football", py "baseball", py "changeme", py "secret",
    py "abc123", py "trustno1", py "master", py "starwars", py "aegis", py "aegis123"]

/-- `_SEQUENTIAL`. -/
def SEQUENTIAL : List PyStr :=
  [py "abcdefghijklmnopqrstuvwxyz", py "01234567890", py "qwertyuiop", py "asdfghjkl"]

/-- The classes of characters that a policy asks for, by Python's tables. -/
structure CharacterClasses where
  isUpper : PyChar → Bool
  isLower : PyChar → Bool
  isDigit : PyChar → Bool
  isAlnum : PyChar → Bool

/-- Composition and quality rules for user passwords. -/
structure PasswordPolicy where
  minLength : Nat
  maxLength : Nat
  requireUppercase : Bool
  requireLowercase : Bool
  requireDigit : Bool
  requireSymbol : Bool
  forbidCommon : Bool
  forbidSequences : Bool
  minUniqueCharacters : Nat

namespace PasswordPolicy

/-- The defaults. -/
def default : PasswordPolicy :=
  ⟨12, 256, false, false, false, false, true, true, 6⟩

/-- `PasswordPolicy._has_sequence(value)`. -/
def hasSequence (value : PyStr) : Bool :=
  SEQUENTIAL.any fun source ↦ (List.range (source.length - 5 + 1)).any fun start ↦
    let run := (source.drop start).take 5
    decide (run <:+: value) || decide (run.reverse <:+: value)

/-- A failure, if there is one. -/
def failure (failed : Bool) (text : PyStr) : List PyStr :=
  if failed then [text] else []

/-- The failures that `policy.validate(password, context=context)` lists. -/
def failures (policy : PasswordPolicy) (unicode : Unicode) (classes : CharacterClasses)
    (password : PyStr) (context : List PyStr) : List PyStr :=
  let normalized := unicode.nfkc password
  let lowered := unicode.library.lower normalized
  failure (normalized.length < policy.minLength)
      (py "must be at least " ++ py (toString policy.minLength) ++ py " characters") ++
    failure (policy.maxLength < normalized.length)
      (py "must be at most " ++ py (toString policy.maxLength) ++ py " characters") ++
    failure (policy.requireUppercase && !normalized.any classes.isUpper)
      (py "must contain an uppercase letter") ++
    failure (policy.requireLowercase && !normalized.any classes.isLower)
      (py "must contain a lowercase letter") ++
    failure (policy.requireDigit && !normalized.any classes.isDigit) (py "must contain a digit") ++
    failure (policy.requireSymbol && normalized.all classes.isAlnum) (py "must contain a symbol") ++
    failure (policy.forbidCommon && COMMON_PASSWORDS.contains lowered)
      (py "is among the most commonly used passwords") ++
    failure (policy.forbidSequences && hasSequence lowered)
      (py "must not contain a long keyboard or alphabet sequence") ++
    failure (normalized.dedup.length < min policy.minUniqueCharacters (max normalized.length 1))
      (py "must contain at least " ++ py (toString policy.minUniqueCharacters) ++
        py " distinct characters") ++
    failure (context.any fun item ↦
        let token := unicode.library.lower item.strip
        4 ≤ token.length && decide (token <:+: lowered))
      (py "must not contain your name, email address or organization name")

/-- `policy.validate(password, context=context)`. -/
def validate (policy : PasswordPolicy) (unicode : Unicode) (classes : CharacterClasses)
    (password : PyStr) (context : List PyStr) : Except DomainError Unit :=
  match policy.failures unicode classes password context with
  | [] => .ok ()
  | failures => .error (.ValidationError (py "The password does not satisfy the password policy.")
      (py "password") failures)

end PasswordPolicy

/-! ## The use case -/

/-- `user.email.local_part`. -/
def localPart (email : PyStr) : PyStr :=
  email.takeWhile (· != 64)

/-- `user.set_password(password_hash, now)`. -/
def User.setPassword (user : User) (passwordHash : PyStr) : User :=
  { user with
    passwordHash := some passwordHash
    failedLoginCount := 0
    lockedUntil := none
    status := if user.status = .INVITED then .ACTIVE else user.status }

/-- `PasswordHash(value)`. -/
def PasswordHash.make (value : PyStr) : Except DomainError PyStr :=
  if value.head? = some 36 then .ok value
  else .error (.ValidationError (py "Not a valid password hash.") (py "password_hash") [])

/-- `ChangePassword.execute(…)`, where `hashed` is what `hasher.hash(new_password)` returns. -/
def ChangePassword.execute (deps : AuthDependencies) (policy : PasswordPolicy)
    (classes : CharacterClasses) (principal : Principal) (currentPassword newPassword : PyStr)
    (hashed : PyStr) (now : Instant) : Tx Nat Empty := do
  let some userId := principal.userId
    | raise (.InvalidStateError (py "Only a signed-in user can change a password."))
  let some user ← Users.get userId | raise (.NotFoundError (py "User"))
  let some passwordHash := user.passwordHash | raise (.NotFoundError (py "User"))
  refuseIf (!deps.verify currentPassword passwordHash)
    (.AuthenticationError (py "The current password is incorrect."))
  check (policy.validate deps.unicode classes newPassword [localPart user.email, user.fullName])
  refuseIf (deps.verify newPassword passwordHash)
    (.ValidationError (py "The new password must differ from the current one.")
      (py "new_password") [])
  let newHash ← check (PasswordHash.make hashed)
  Users.update user (user.setPassword newHash)
  let revoked ← Sessions.revokeAllForUser user.id now (py "password_changed") principal.sessionId
  Audit.record principal (py "auth.password_changed") (py "user") (some user.id)
  .commit (.ok revoked)

/-! ## What is left of the sessions -/

/-- The sessions after a successful `ChangePassword`. -/
theorem sessions_change_password {deps : AuthDependencies} {policy : PasswordPolicy}
    {classes : CharacterClasses} {principal : Principal} {userId : Uuid}
    {currentPassword newPassword hashed : PyStr} {now : Instant} {db : Database} {revoked : Nat}
    (huser : principal.userId = some userId)
    (h : (run (ChangePassword.execute deps policy classes principal currentPassword newPassword
      hashed now) [] db).1 = (true, .ok revoked)) :
    (run (ChangePassword.execute deps policy classes principal currentPassword newPassword hashed
      now) [] db).2.sessions.rows = db.sessions.rows.map fun session ↦
        if Sessions.revocable userId principal.sessionId session then
          (Sessions.revocation now (py "password_changed")).run session
        else session := by
  let ends : Bool → Except DomainError Nat → World Database Unit (Except DomainError Nat) →
      Database → Prop := fun committed _ w after ↦ committed = true →
    after.sessions.rows = w.db.sessions.rows.map fun session ↦
      if Sessions.revocable userId principal.sessionId session then
        (Sessions.revocation now (py "password_changed")).run session
      else session
  have hrefuses : ∀ w, Refuses (fun w w' ↦ w' = w) ends w := fun _ _ _ _ hcommitted ↦
    nomatch hcommitted
  have hwp : Wp (fun w w' ↦ w' = w) ends (ChangePassword.execute deps policy classes principal
      currentPassword newPassword hashed now) (fun e _ _ ↦ e.elim) [] ⟨db, []⟩ := by
    unfold ChangePassword.execute
    rw [huser]
    dsimp only
    rw [wp_bind, Users.get, TableAt.wp_select_one]
    rintro _ rfl
    dsimp only
    split
    · rename_i user hfound
      have hid : user.id = userId := by simpa using List.find?_some hfound
      split
      · rw [wp_bind]
        refine wp_refuse_if (hrefuses _) fun _ ↦ ?_
        rw [wp_bind]
        refine wp_check (hrefuses _) fun _ _ ↦ ?_
        rw [wp_bind]
        refine wp_refuse_if (hrefuses _) fun _ ↦ ?_
        rw [wp_bind]
        refine wp_check (hrefuses _) fun newHash _ ↦ ?_
        rw [wp_bind]
        refine wp_update_user interference_eq (hrefuses _) ?_
        rintro _ rfl
        rw [wp_bind, List.nil_append, Sessions.revokeAllForUser, hid]
        have hsessions : (view (userWrites user (user.setPassword newHash)) db).sessions =
            db.sessions := by
          unfold userWrites
          split <;> rfl
        refine TableAt.wp_update_where_stable interference_eq (fun w' hw ↦ by rw [hw]) ?_
        rintro _ rfl
        rw [wp_bind]
        refine wp_append interference_eq (hrefuses _) ?_
        rintro _ events rfl hevents _ rfl -
        rw [view_append, view_of_audit hevents, view_append]
        refine (sessionsTable.rows_modify_where _ _ _).trans ?_
        show (view (userWrites user (user.setPassword newHash)) db).sessions.rows.map _ = _
        rw [hsessions]
      · exact wp_raise (hrefuses _)
    · exact wp_raise (hrefuses _)
  have hrun := hwp.run interference_eq
  rw [h] at hrun
  exact hrun rfl

/-- What is active in the family at a time stays so, and the user has no active session elsewhere. -/
structure KeepsFamily (userId familyId : Uuid) (time : Instant) (db after : Database) : Prop where
  kept : ∀ session ∈ db.sessions.rows, session.familyId = familyId →
    session.isActive time = true →
      ∃ left ∈ after.sessions.rows, left.id = session.id ∧ left.isActive time = true
  ended : ∀ session ∈ after.sessions.rows, session.userId = userId →
    session.familyId ≠ familyId → session.isActive time = false

/-- A session that is revoked is not active. -/
theorem is_active_revocation (session : Session) (now time : Instant) (reason : PyStr) :
    ((Sessions.revocation now reason).run session).isActive time = false :=
  rfl

/-- A password change keeps what the family of the caller has, and ends the other sessions of the
user, exactly when the token of the caller names the session that is active in the family. -/
theorem change_password_keeps_iff (deps : AuthDependencies) (policy : PasswordPolicy)
    (classes : CharacterClasses) (principal : Principal)
    (currentPassword newPassword hashed : PyStr) (now time : Instant) (db : Database)
    (revoked : Nat) (own : Session) (hown : own ∈ db.sessions.rows)
    (huser : principal.userId = some own.userId) (hsession : principal.sessionId = some own.id)
    (h : (run (ChangePassword.execute deps policy classes principal currentPassword newPassword
      hashed now) [] db).1 = (true, .ok revoked)) :
    KeepsFamily own.userId own.familyId time db (run (ChangePassword.execute deps policy classes
        principal currentPassword newPassword hashed now) [] db).2 ↔
      ∀ session ∈ db.sessions.rows, session.userId = own.userId →
        session.familyId = own.familyId → session.isActive time = true → session.id = own.id := by
  have hrows := sessions_change_password huser h
  rw [hsession] at hrows
  constructor
  · rintro ⟨hkept, -⟩ session hmem huserId hfamily hactive
    by_contra hne
    obtain ⟨left, hleft, hid, hstill⟩ := hkept session hmem hfamily hactive
    rw [hrows] at hleft
    obtain ⟨row, hrow, rfl⟩ := List.mem_map.mp hleft
    have hrowId : row.id = session.id := by
      rw [← hid]
      split <;> rfl
    obtain rfl : row = session := Table.eq_of_key_eq hrow hmem hrowId
    have hlive : row.revokedAt.isNone = true := by
      simp only [Session.isActive, Bool.and_eq_true] at hactive
      exact hactive.1.1
    have hrevocable : Sessions.revocable own.userId (some own.id) row = true := by
      simp [Sessions.revocable, huserId, hlive, hne]
    rw [if_pos hrevocable, is_active_revocation] at hstill
    cases hstill
  · intro honly
    refine ⟨fun session hmem hfamily hactive ↦ ?_, fun session hmem huserId hfamily ↦ ?_⟩
    · have hspared : Sessions.revocable own.userId (some own.id) session = false := by
        by_cases huserId : session.userId = own.userId
        · simp [Sessions.revocable, honly session hmem huserId hfamily hactive]
        · simp [Sessions.revocable, huserId]
      refine ⟨session, ?_, rfl, hactive⟩
      rw [hrows]
      exact List.mem_map.mpr ⟨session, hmem, by rw [hspared]; rfl⟩
    · rw [hrows] at hmem
      obtain ⟨row, hrow, rfl⟩ := List.mem_map.mp hmem
      by_cases hrevocable : Sessions.revocable own.userId (some own.id) row = true
      · rw [if_pos hrevocable]
        rfl
      · rw [if_neg hrevocable] at huserId hfamily ⊢
        have hother : row.id ≠ own.id := fun hid ↦
          hfamily (congrArg Session.familyId (Table.eq_of_key_eq hrow hown hid))
        have hended : row.revokedAt ≠ none := by
          simpa [Sessions.revocable, huserId, hother] using hrevocable
        simp [Session.isActive, hended]

/-! ## A session that was rotated -/

/-- The session 20 of user 7 and its successor 21, and the session 30 of another family. -/
def rotatedSessions : Table Session :=
  let first := Session.start 20 7 1 1 3600 0 ⟨[], none, []⟩
  ⟨[{ first with rotatedAt := some 1, replacedById := some 21 },
    { first with id := 21, refreshTokenHash := 2 },
    Session.start 30 7 1 3 3600 0 ⟨[], none, []⟩], by decide⟩

/-- User 7, with an access token of a session. -/
def signedInAs (sessionId : Uuid) : Principal :=
  { ownerPrincipal with userId := some 7, sessionId := some sessionId }

/-- The user changes the password with a token of a session. -/
def plainChange (sessionId : Uuid) : (Bool × Except DomainError Nat) × Database :=
  run (ChangePassword.execute plainDependencies .default ⟨fun _ ↦ false, fun _ ↦ false,
    fun _ ↦ false, fun _ ↦ false⟩ (signedInAs sessionId) (py "secret") (py "blue-horse-42")
    (py "$new") 5) [] (plainAccounts plainUser rotatedSessions)

/-- With a token of session 21, the family keeps session 21. -/
theorem change_password_keeps_successor :
    KeepsFamily 7 20 5 (plainAccounts plainUser rotatedSessions) (plainChange 21).2 ↔
      ∀ session ∈ rotatedSessions.rows, session.userId = 7 → session.familyId = 20 →
        session.isActive 5 = true → session.id = 21 :=
  change_password_keeps_iff plainDependencies .default
    ⟨fun _ ↦ false, fun _ ↦ false, fun _ ↦ false, fun _ ↦ false⟩ (signedInAs 21) (py "secret")
    (py "blue-horse-42") (py "$new") 5 5 (plainAccounts plainUser rotatedSessions) 2
    { Session.start 20 7 1 2 3600 0 ⟨[], none, []⟩ with id := 21 } (by decide +kernel) rfl rfl
    (by decide +kernel)

/-- With a token of session 20, which is valid although the session was rotated, the family loses
session 21. -/
theorem change_password_ends_own_family :
    (plainChange 20).1 = (true, .ok 2) ∧
      (∃ own ∈ rotatedSessions.rows, own.id = 20 ∧ own.userId = 7 ∧ own.familyId = 20 ∧
        own.revokedAt = none) ∧
      ¬ KeepsFamily 7 20 5 (plainAccounts plainUser rotatedSessions) (plainChange 20).2 := by
  refine ⟨by decide +kernel, by decide +kernel, fun h ↦ ?_⟩
  have hended : ∀ left ∈ (plainChange 20).2.sessions.rows, left.id = 21 →
      left.isActive 5 = false := by
    decide +kernel
  obtain ⟨left, hleft, hid, hactive⟩ := h.kept
    { Session.start 20 7 1 2 3600 0 ⟨[], none, []⟩ with id := 21 } (by decide +kernel) rfl
    (by decide +kernel)
  rw [hended left hleft hid] at hactive
  cases hactive

end Aegis.Access
