import Aegis.Access.Mfa
import Aegis.Access.Rules

/-!
# What signing in reads and writes

Rules for `AuthenticateUser` and `CompleteMfaChallenge`: the account a check is made against, what
is written of it when the check fails or is passed, and the sessions that make room for a new one.
-/

namespace Aegis.Access

open Aegis.Server Database Transaction

/-! ## The account -/

/-- What an update writes of an account. -/
def userWrites (loaded user : User) : List Write :=
  if user = loaded then [] else [.users (.modify user.id (applyUser loaded user))]

/-- The account that a password is checked against. -/
structure Presented (deps : AuthDependencies) (email : PyStr) (now : Instant) (db : Database)
    (loaded : User) (passwordHash : PyStr) : Prop where
  found : (db.users.rows.find? fun user ↦ user.email == loaded.email) = some loaded
  address : EmailAddress.make deps.unicode email = .ok loaded.email
  hash : loaded.passwordHash = some passwordHash
  unlocked : loaded.assertCanAuthenticate now = .ok ()

/-- The account that a second factor is checked against. -/
structure Challenged (claims : ChallengeToken) (now : Instant) (db : Database) (loaded : User) :
    Prop where
  mem : loaded ∈ db.users.rows
  subject : loaded.id = claims.subject
  active : loaded.isActive = true
  unlocked : loaded.assertCanAuthenticate now = .ok ()

/-- The account is one of the database. -/
theorem Presented.mem {deps : AuthDependencies} {email : PyStr} {now : Instant} {db : Database}
    {loaded : User} {passwordHash : PyStr} (h : Presented deps email now db loaded passwordHash) :
    loaded ∈ db.users.rows :=
  List.mem_of_find?_eq_some h.found

/-- The account after the right password. -/
def acceptedUser (deps : AuthDependencies) (loaded : User) (passwordHash : PyStr)
    (moment : Moment) : User :=
  (if deps.needsRehash passwordHash then { loaded with passwordHash := some moment.rehash }
    else loaded).recordSuccessfulLogin moment.now

/-- A new hash changes nothing else of the account. -/
theorem accepted_user_eq (deps : AuthDependencies) (loaded : User) (passwordHash : PyStr)
    (moment : Moment) :
    acceptedUser deps loaded passwordHash moment =
      { loaded.recordSuccessfulLogin moment.now with
        passwordHash := (acceptedUser deps loaded passwordHash moment).passwordHash } := by
  unfold acceptedUser
  split <;> rfl

/-- The writes leave the users as they are. -/
def KeepUsers (us : List Write) : Prop :=
  ∀ u ∈ us, ∀ db : Database, (Store.apply db u).users = db.users

theorem KeepUsers.append {us vs : List Write} (hus : KeepUsers us) (hvs : KeepUsers vs) :
    KeepUsers (us ++ vs) :=
  fun u hu ↦ (List.mem_append.mp hu).elim (hus u) (hvs u)

theorem keep_users_nil : KeepUsers [] :=
  fun _ hu ↦ absurd hu List.not_mem_nil

theorem keep_users_audit {events : List Write} (h : ∀ u ∈ events, u.IsAudit) :
    KeepUsers events := by
  intro u hu db
  rw [apply_of_is_audit (h u hu) db]

theorem users_of_keep {us : List Write} (h : KeepUsers us) (db : Database) :
    (view us db).users = db.users :=
  view_congr h db

/-- An account that was read is replaced, and no other. -/
theorem find_user_writes {pre rest : List Write} {loaded user : User} {db : Database}
    (hpre : KeepUsers pre) (hrest : KeepUsers rest) (hmem : loaded ∈ db.users.rows)
    (hid : user.id = loaded.id) (userId : Uuid) :
    (view (pre ++ userWrites loaded user ++ rest) db).users.find? userId =
      if userId = loaded.id then some user else db.users.find? userId := by
  have hfound : db.users.find? loaded.id = some loaded := Table.find_eq_some_iff.mpr ⟨hmem, rfl⟩
  have hrun : (applyUser loaded user).run loaded = user := by
    unfold applyUser
    simp only [changed_self]
    rw [← hid]
  rw [view_append, users_of_keep hrest, view_append]
  have husers := users_of_keep hpre db
  unfold userWrites
  split
  · rename_i hsame
    rw [view_nil, husers]
    split
    · rename_i hkey
      rw [hkey, hfound, hsame]
    · rfl
  · show (RowWrite.apply (view pre db).users (.modify user.id (applyUser loaded user))).find?
      userId = _
    rw [RowWrite.find_apply, husers]
    show (if user.id = userId then (db.users.find? userId).map (applyUser loaded user).run else
      db.users.find? userId) = _
    by_cases hkey : userId = loaded.id
    · rw [if_pos (hid.trans hkey.symm), if_pos hkey, hkey, hfound, Option.map_some, hrun]
    · rw [if_neg fun h ↦ hkey (h.symm.trans hid), if_neg hkey]

/-- So it is when nothing was written before. -/
theorem find_first_user_writes {rest : List Write} {loaded user : User} {db : Database}
    (hrest : KeepUsers rest) (hmem : loaded ∈ db.users.rows) (hid : user.id = loaded.id)
    (userId : Uuid) :
    (view (userWrites loaded user ++ rest) db).users.find? userId =
      if userId = loaded.id then some user else db.users.find? userId :=
  find_user_writes keep_users_nil hrest hmem hid userId

/-! ## The second factor -/

/-- What an update writes of a second factor. -/
def factorWrites (loaded credential : MfaCredential) : List Write :=
  if credential = loaded then []
  else [.mfaCredentials (.modify credential.id (applyMfa loaded credential))]

/-- A factor of the user accepts a code, and is written. -/
inductive Verified (deps : AuthDependencies) (userId : Uuid) (candidate : PyStr) (now : Instant)
    (db : Database) : List Write → Prop where
  /-- The code is one of the authenticator. -/
  | totp {credential : MfaCredential} {secret : PyStr} (mem : credential ∈ db.mfaCredentials.rows)
      (user : credential.userId = userId) (kind : credential.kind = .TOTP)
      (confirmed : credential.confirmed = true)
      (decrypts : deps.decrypt credential.secretEncrypted = some secret)
      (verifies : deps.totp.verify secret candidate now = true) :
      Verified deps userId candidate now db
        (factorWrites credential { credential with lastUsedAt := some now })
  /-- The code is a recovery code, which is consumed. -/
  | recovery {credential : MfaCredential} (mem : credential ∈ db.mfaCredentials.rows)
      (user : credential.userId = userId) (kind : credential.kind = .RECOVERY_CODE)
      (unused : credential.consumedAt = none)
      (verifies : deps.verify (normalizeRecoveryCode deps.unicode candidate)
        credential.secretEncrypted = true) :
      Verified deps userId candidate now db (factorWrites credential
        { credential with consumedAt := some now, lastUsedAt := some now })

/-- Only a second factor is written. -/
theorem Verified.writes {deps : AuthDependencies} {userId : Uuid} {candidate : PyStr}
    {now : Instant} {db : Database} {factors : List Write}
    (h : Verified deps userId candidate now db factors) :
    ∀ u ∈ factors, ∃ v, u = .mfaCredentials v := by
  have hwrites : ∀ loaded credential, ∀ u ∈ factorWrites loaded credential,
      ∃ v, u = .mfaCredentials v := by
    intro loaded credential u hu
    unfold factorWrites at hu
    split at hu
    · cases hu
    · exact ⟨_, List.mem_singleton.mp hu⟩
  cases h <;> exact hwrites _ _

/-- The users are left as they are. -/
theorem Verified.keep_users {deps : AuthDependencies} {userId : Uuid} {candidate : PyStr}
    {now : Instant} {db : Database} {factors : List Write}
    (h : Verified deps userId candidate now db factors) : KeepUsers factors := by
  intro u hu db
  obtain ⟨v, rfl⟩ := h.writes u hu
  rfl

/-! ## Room for a session -/

/-- The sessions of a user that are active. -/
def activeSessions (userId : Uuid) (now : Instant) (db : Database) : List Session :=
  db.sessions.rows.filter fun session ↦ session.userId == userId && session.isActive now

/-- The sessions of a user that are revoked for room. -/
def evicted (policy : TokenPolicy) (userId : Uuid) (now : Instant) (db : Database) :
    List Session :=
  let active := activeSessions userId now db
  if active.length < policy.maxSessionsPerUser then [] else SessionIssuer.overflow policy active

/-- A session that is revoked for room. -/
def eviction (now : Instant) (session : Session) : RowWrite Session :=
  .modify session.id (applySession session (session.revoke now (py "session_cap_exceeded")))

/-- The row of a session that is issued. -/
def issuedSession (deps : AuthDependencies) (userId organizationId : Uuid)
    (context : RequestContext) (moment : Moment) : Session :=
  sessionToRecord (Session.start moment.sessionId userId organizationId
    (deps.hashToken moment.refreshToken) deps.tokenPolicy.refreshTtlSeconds moment.now context)
    moment.databaseNow

/-- The token pair of a session that is issued. -/
def issuedPair (deps : AuthDependencies) (userId : Uuid) (membership : Membership)
    (mfaSatisfied : Bool) (moment : Moment) : TokenPair :=
  tokenPair deps.tokenPolicy userId membership moment.sessionId mfaSatisfied moment.now
    moment.refreshToken (moment.now + seconds deps.tokenPolicy.refreshTtlSeconds)

/-- What issuing a session writes, with the state it has listed the sessions of. -/
def issueWrites (deps : AuthDependencies) (userId organizationId : Uuid)
    (context : RequestContext) (moment : Moment) (db : Database) : List Write :=
  (evicted deps.tokenPolicy userId moment.now db).map (fun session ↦
      .sessions (eviction moment.now session)) ++
    [.sessions (.insert (issuedSession deps userId organizationId context moment))]

/-- Issuing a session leaves the users as they are. -/
theorem keep_users_issue {deps : AuthDependencies} {userId organizationId : Uuid}
    {context : RequestContext} {moment : Moment} {db : Database} :
    KeepUsers (issueWrites deps userId organizationId context moment db) := by
  intro u hu db'
  rcases List.mem_append.mp hu with hu | hu
  · obtain ⟨session, -, rfl⟩ := List.mem_map.mp hu
    rfl
  · rw [List.mem_singleton.mp hu]
    rfl

/-- The listing is that of the active sessions. -/
theorem select_active_eq (userId : Uuid) (now : Instant) (db : Database) :
    (db.sessions.rows.filter fun session ↦ session.userId == userId && session.revokedAt.isNone &&
      session.rotatedAt.isNone && decide (now < session.expiresAt)) =
      activeSessions userId now db := by
  refine List.filter_congr fun session _ ↦ ?_
  have hrotated : session.isRotated = !session.rotatedAt.isNone := by
    unfold Session.isRotated
    cases session.rotatedAt <;> rfl
  have hexpired : session.isExpired now = !decide (now < session.expiresAt) := by
    rw [Session.isExpired, ← decide_not]
    exact decide_eq_decide.mpr not_lt.symm
  simp only [Session.isActive, hrotated, hexpired, Bool.not_not, Bool.and_assoc]

/-! ## Rules -/

variable {R S Q : Type} {ws : List Write}

section
variable {rely : World Database Q S → World Database Q S → Prop}
variable {ends : Bool → Except DomainError R → World Database Q S → Database → Prop}
variable {w : World Database Q S}
variable (hrely : Interference rely) (hrefuses : Refuses rely ends w)
include hrely hrefuses

/-- An account that was read is written back. -/
theorem wp_update_user {loaded user : User}
    {post : Unit → List Write → World Database Q S → Prop}
    (h : ∀ w', rely w w' → post () (ws ++ userWrites loaded user) w') :
    Wp rely ends (Users.update loaded user : Tx R Unit) post ws w := by
  unfold Users.update
  split
  · rename_i hsame
    have := h w (hrely.refl w)
    rwa [userWrites, if_pos hsame, List.append_nil] at this
  · rename_i hchanged
    rw [userWrites, if_neg hchanged] at h
    exact TableAt.wp_update hrely (fun w' hw ↦ hrefuses _ w' hw) h

/-- A factor that was read is written back. -/
theorem wp_update_factor {loaded credential : MfaCredential}
    {post : Unit → List Write → World Database Q S → Prop}
    (h : ∀ w', rely w w' → post () (ws ++ factorWrites loaded credential) w') :
    Wp rely ends (MfaCredentials.update loaded credential : Tx R Unit) post ws w := by
  unfold MfaCredentials.update
  split
  · rename_i hsame
    have := h w (hrely.refl w)
    rwa [factorWrites, if_pos hsame, List.append_nil] at this
  · rename_i hchanged
    rw [factorWrites, if_neg hchanged] at h
    exact TableAt.wp_update hrely (fun w' hw ↦ hrefuses _ w' hw) h

/-- The authenticator accepts the code, or nothing is written. -/
theorem wp_verify_totp {deps : AuthDependencies} {candidate : PyStr} {now : Instant}
    {totp : Option MfaCredential} {post : Bool → List Write → World Database Q S → Prop}
    (hfalse : ∀ w', rely w w' → post false ws w')
    (htrue : ∀ w' credential secret, rely w w' → totp = some credential →
      deps.decrypt credential.secretEncrypted = some secret →
      deps.totp.verify secret candidate now = true →
      post true (ws ++ factorWrites credential { credential with lastUsedAt := some now }) w') :
    Wp rely ends (CompleteMfaChallenge.verifyTotp deps candidate now totp : Tx R Bool)
      post ws w := by
  unfold CompleteMfaChallenge.verifyTotp
  split
  · exact hfalse w (hrely.refl w)
  · rename_i credential
    split
    · exact wp_raise hrefuses
    · rename_i secret hsecret
      split
      · rename_i hverify
        rw [wp_bind]
        exact wp_update_factor hrely hrefuses
          fun w' hw ↦ htrue w' credential secret hw rfl hsecret hverify
      · exact hfalse w (hrely.refl w)

/-- The first recovery code that is the code given is consumed, or nothing is written. -/
theorem wp_consume_recovery {deps : AuthDependencies} {candidate : PyStr} {now : Instant}
    {codes : List MfaCredential} {post : Bool → List Write → World Database Q S → Prop}
    (hkind : ∀ credential ∈ codes, credential.kind = .RECOVERY_CODE)
    (hfalse : ∀ w', rely w w' → post false ws w')
    (htrue : ∀ w' credential, rely w w' → credential ∈ codes → credential.consumedAt = none →
      deps.verify (normalizeRecoveryCode deps.unicode candidate) credential.secretEncrypted =
        true →
      post true (ws ++ factorWrites credential
        { credential with consumedAt := some now, lastUsedAt := some now }) w') :
    Wp rely ends (CompleteMfaChallenge.consumeRecovery deps candidate now codes : Tx R Bool)
      post ws w := by
  induction codes with
  | nil => exact hfalse w (hrely.refl w)
  | cons recovery rest ih =>
      obtain ⟨hrecovery, hrest⟩ := List.forall_mem_cons.mp hkind
      unfold CompleteMfaChallenge.consumeRecovery
      split
      · rename_i haccepted
        obtain ⟨husable, hverify⟩ := (Bool.and_eq_true _ _).mp haccepted
        have hunused : recovery.consumedAt = none := by
          rw [MfaCredential.isUsable, if_pos hrecovery] at husable
          exact Option.isNone_iff_eq_none.mp husable
        rw [wp_bind]
        refine wp_check hrefuses fun consumed hconsumed ↦ ?_
        rw [MfaCredential.consume, if_neg (not_not.mpr hrecovery), hunused] at hconsumed
        obtain rfl := Except.ok.inj hconsumed
        rw [wp_bind]
        exact wp_update_factor hrely hrefuses
          fun w' hw ↦ htrue w' recovery hw List.mem_cons_self hunused hverify
      · exact ih hrest fun w' credential hw hmem ↦
          htrue w' credential hw (List.mem_cons_of_mem _ hmem)

/-- A code is accepted by a factor of the user, which is written, or nothing is written. -/
theorem wp_verify_code {deps : AuthDependencies} {userId : Uuid} {code : PyStr} {now : Instant}
    {post : Bool → List Write → World Database Q S → Prop}
    (hfalse : ∀ w', rely w w' → post false ws w')
    (htrue : ∀ w₁ w₂ factors, rely w w₁ → rely w₁ w₂ →
      Verified deps userId (stripSpaces code) now (view ws w₁.db) factors →
      post true (ws ++ factors) w₂) :
    Wp rely ends (CompleteMfaChallenge.verifyCode deps userId code now : Tx R Bool) post ws w := by
  unfold CompleteMfaChallenge.verifyCode
  dsimp only
  split
  · exact hfalse w (hrely.refl w)
  · rw [wp_bind, MfaCredentials.getTotp, TableAt.wp_select_one]
    intro w₁ hw₁
    have hlater₁ := hrefuses.later hrely hw₁
    rw [wp_bind]
    refine wp_verify_totp hrely hlater₁ (fun w₂ hw₂ ↦ ?_)
      fun w₂ credential secret hw₂ hfound hsecret hverify ↦ ?_
    · have hw := hrely.trans hw₁ hw₂
      show Wp rely ends (MfaCredentials.listRecoveryCodes userId >>= _) _ _ _
      rw [wp_bind, MfaCredentials.listRecoveryCodes, TableAt.wp_select]
      intro w₃ hw₃
      have hw' := hrely.trans hw hw₃
      have hlisted : ∀ credential ∈ (mfaCredentialsTable.read (view ws w₃.db)).rows.filter
          (fun row ↦ row.userId == userId && row.kind == .RECOVERY_CODE && row.consumedAt.isNone),
          credential ∈ (view ws w₃.db).mfaCredentials.rows ∧ credential.userId = userId ∧
            credential.kind = .RECOVERY_CODE := by
        intro credential hcredential
        obtain ⟨hmem, hmeets⟩ := List.mem_filter.mp hcredential
        rw [Bool.and_eq_true, Bool.and_eq_true, beq_iff_eq, beq_iff_eq] at hmeets
        exact ⟨hmem, hmeets.1⟩
      refine wp_consume_recovery hrely (hrefuses.later hrely hw')
        (fun credential hcredential ↦ (hlisted credential hcredential).2.2)
        (fun w₄ hw₄ ↦ hfalse w₄ (hrely.trans hw' hw₄))
        fun w₄ credential hw₄ hmem hunused hverify ↦ ?_
      obtain ⟨hrow, huser, hkind⟩ := hlisted credential hmem
      exact htrue w₃ w₄ _ hw' hw₄ (.recovery hrow huser hkind hunused hverify)
    · have hmeets := List.find?_some hfound
      rw [Bool.and_eq_true, Bool.and_eq_true, beq_iff_eq, beq_iff_eq, beq_iff_eq] at hmeets
      exact htrue w₁ w₂ _ hw₁ hw₂ (.totp (List.mem_of_find?_eq_some hfound) hmeets.1.1
        hmeets.1.2 hmeets.2 hsecret hverify)

/-- The membership is an active one of the user in the organization. -/
theorem wp_active_membership {organizationId userId : Uuid}
    {post : Membership → List Write → World Database Q S → Prop}
    (h : ∀ w' membership, rely w w' → membership.isActive = true →
      membership.organizationId = organizationId → membership.userId = userId →
      post membership ws w') :
    Wp rely ends (activeMembership organizationId userId : Tx R Membership) post ws w := by
  rw [activeMembership, wp_bind]
  refine wp_find hrely hrefuses (fun w₁ hw₁ ↦ wp_raise (hrefuses.later hrely hw₁))
    fun w₁ w₂ record membership hw₁ hw₂ _ horganization huser hdomain ↦ ?_
  obtain ⟨roles, -, rfl⟩ := membership_to_domain_eq_ok hdomain
  have hw := hrely.trans hw₁ hw₂
  show Wp rely ends (refuseIf _ _ >>= _) _ _ _
  rw [wp_bind]
  refine wp_refuse_if (hrefuses.later hrely hw) fun hactive ↦ ?_
  exact h w₂ _ hw (by simpa using hactive) horganization (beq_iff_eq.mp huser)

/-- The tenant of a sign-in is found without a write. -/
theorem wp_resolve_membership {unicode : Unicode} {user : User} {organizationSlug : Option PyStr}
    {post : Membership × Organization → List Write → World Database Q S → Prop}
    (h : ∀ w' membership organization, rely w w' → membership.isActive = true →
      membership.organizationId = organization.id → membership.userId = user.id →
      post (membership, organization) ws w') :
    Wp rely ends (AuthenticateUser.resolveMembership unicode user organizationSlug : Tx R _)
      post ws w := by
  unfold AuthenticateUser.resolveMembership
  split
  · rw [wp_bind]
    refine wp_check hrefuses fun slug _ ↦ ?_
    rw [wp_bind, Organizations.getBySlug, wp_read]
    intro w₁ hw₁
    have hlater := hrefuses.later hrely hw₁
    split
    · rename_i organization _
      rw [wp_bind]
      refine wp_refuse_if hlater fun _ ↦ ?_
      rw [wp_bind]
      refine wp_active_membership hrely hlater
        fun w₂ membership hw₂ hactive horganization huser ↦ ?_
      exact h w₂ membership organization (hrely.trans hw₁ hw₂) hactive horganization huser
    · exact wp_raise hlater
  · rw [wp_bind, Organizations.findActiveForUser, wp_read]
    intro w₁ hw₁
    have hlater := hrefuses.later hrely hw₁
    split
    · exact wp_raise hlater
    · rename_i organization _
      rw [wp_bind]
      refine wp_active_membership hrely hlater
        fun w₂ membership hw₂ hactive horganization huser ↦ ?_
      exact h w₂ membership organization (hrely.trans hw₁ hw₂) hactive horganization huser
    · exact wp_raise hlater

/-- Of a failure, only the audit chain of the tenant learns. -/
theorem wp_audit_failure {user : User} {organizationSlug : Option PyStr} {now : Instant}
    {post : Unit → List Write → World Database Q S → Prop}
    (h : ∀ w' us, rely w w' → (∀ u ∈ us, u.IsAudit) → post () (ws ++ us) w') :
    Wp rely ends (AuthenticateUser.auditFailure user organizationSlug now : Tx R Unit)
      post ws w := by
  have hnothing : ∀ w', rely w w' → post () ws w' := by
    intro w' hw
    have := h w' [] hw (List.forall_mem_nil _)
    rwa [List.append_nil] at this
  rw [AuthenticateUser.auditFailure, wp_bind, Organizations.findActiveForUser, wp_read]
  intro w₁ hw₁
  have hlater := hrefuses.later hrely hw₁
  dsimp only
  split
  · rw [wp_bind]
    refine wp_append hrely hlater fun w₂ us hw₂ hus ↦ ?_
    have hw := hrely.trans hw₁ hw₂
    split
    · refine wp_append hrely (hrefuses.later hrely hw) fun w₃ vs hw₃ hvs ↦ ?_
      rw [List.append_assoc]
      refine h w₃ _ (hrely.trans hw hw₃) fun u hu ↦ ?_
      exact (List.mem_append.mp hu).elim (hus u) (hvs u)
    · exact h w₂ us hw hus
  · exact hnothing w₁ hw₁

/-- Sessions are revoked one after another. -/
theorem wp_each_eviction {now : Instant} {sessions : List Session}
    (hactive : ∀ session ∈ sessions, session.revokedAt = none)
    {post : Unit → List Write → World Database Q S → Prop}
    (h : ∀ w', rely w w' →
      post () (ws ++ sessions.map fun session ↦ .sessions (eviction now session)) w') :
    Wp rely ends (Txn.each sessions fun session ↦ (Sessions.update session
      (session.revoke now (py "session_cap_exceeded")) : Tx R Unit)) post ws w := by
  induction sessions generalizing ws w with
  | nil =>
      have := h w (hrely.refl w)
      rwa [List.map_nil, List.append_nil] at this
  | cons session sessions ih =>
      obtain ⟨hnone, hrest⟩ := List.forall_mem_cons.mp hactive
      have hrevoke : session.revoke now (py "session_cap_exceeded") ≠ session := by
        intro hsame
        rw [Session.revoke, hnone] at hsame
        have := congrArg Session.revokedAt hsame
        rw [hnone] at this
        cases this
      have hid : (session.revoke now (py "session_cap_exceeded")).id = session.id := by
        unfold Session.revoke
        split <;> rfl
      show Wp rely ends (Sessions.update session _ >>= fun _ ↦ Txn.each sessions _) post ws w
      rw [wp_bind, Sessions.update, if_neg hrevoke, hid]
      refine TableAt.wp_update hrely (fun w' hw ↦ hrefuses _ w' hw) fun w' hw ↦ ?_
      refine ih (hrefuses.later hrely hw) hrest fun v hv ↦ ?_
      have := h v (hrely.trans hw hv)
      rwa [List.map_cons, List.append_cons] at this

/-- A session is issued: the sessions are listed, those that are revoked for room are written, and
the session is inserted. -/
theorem wp_issue {deps : AuthDependencies} {user : User} {membership : Membership}
    {mfaSatisfied : Bool} {context : RequestContext} {moment : Moment}
    {post : TokenPair → List Write → World Database Q S → Prop}
    (h : ∀ w₁ w₂, rely w w₁ → rely w₁ w₂ →
      sessionsTable.violates
        (issuedSession deps user.id membership.organizationId context moment)
        (view (ws ++ (evicted deps.tokenPolicy user.id moment.now (view ws w₁.db)).map
          fun session ↦ .sessions (eviction moment.now session)) w₂.db) = false →
      post (issuedPair deps user.id membership mfaSatisfied moment)
        (ws ++ issueWrites deps user.id membership.organizationId context moment (view ws w₁.db))
        w₂) :
    Wp rely ends (SessionIssuer.issue deps user membership mfaSatisfied context moment : Tx R _)
      post ws w := by
  have hinsert : ∀ w₁ w₂, rely w w₁ → rely w₁ w₂ → Wp rely ends (do
      Sessions.add (Session.start moment.sessionId user.id membership.organizationId
        (deps.hashToken moment.refreshToken) deps.tokenPolicy.refreshTtlSeconds moment.now context)
        moment.databaseNow
      pure (issuedPair deps user.id membership mfaSatisfied moment) : Tx R _) post
      (ws ++ (evicted deps.tokenPolicy user.id moment.now (view ws w₁.db)).map
        fun session ↦ .sessions (eviction moment.now session)) w₂ := by
    intro w₁ w₂ hw₁ hw₂
    have hlater := hrefuses.later hrely (hrely.trans hw₁ hw₂)
    rw [wp_bind, Sessions.add]
    refine TableAt.wp_insert hrely (fun w' hw ↦ hlater _ w' hw) fun w₃ hw₃ hfree ↦ ?_
    rw [wp_pure, List.append_assoc]
    exact h w₁ w₃ hw₁ (hrely.trans hw₂ hw₃) hfree
  rw [SessionIssuer.issue, wp_bind, SessionIssuer.enforceSessionCap, wp_bind,
    Sessions.listActiveForUser, TableAt.wp_select]
  intro w₁ hw₁
  have hlisted : ((sessionsTable.read (view ws w₁.db)).rows.filter fun session ↦
      session.userId == user.id && session.revokedAt.isNone && session.rotatedAt.isNone &&
        decide (moment.now < session.expiresAt)) =
      activeSessions user.id moment.now (view ws w₁.db) :=
    select_active_eq _ _ _
  rw [hlisted]
  have hrest := hinsert w₁
  unfold evicted at hrest
  split
  · rename_i hroom
    rw [wp_pure]
    have := hrest w₁ hw₁ (hrely.refl w₁)
    dsimp only at this
    rw [if_pos hroom, List.map_nil, List.append_nil] at this
    exact this
  · rename_i hfull
    refine wp_each_eviction hrely (hrefuses.later hrely hw₁) (fun session hsession ↦ ?_)
      fun w₂ hw₂ ↦ ?_
    · have hlive := (List.mem_filter.mp ((List.mem_insertionSort _).mp
        (List.mem_of_mem_take hsession))).2
      simp only [Session.isActive, Bool.and_eq_true, Option.isNone_iff_eq_none] at hlive
      exact hlive.2.1.1
    · have := hrest w₂ hw₁ hw₂
      dsimp only at this
      rw [if_neg hfull] at this
      exact this

end

/-! ## The use cases -/

section
variable {rely : World Database Q S → World Database Q S → Prop}
variable {ends : Bool → Except DomainError AuthenticationResult → World Database Q S →
  Database → Prop}
variable {w : World Database Q S}
variable (hrely : Interference rely) (hrefuses : Refuses rely ends w)
include hrely hrefuses

/-- `AuthenticateUser` checks a password against an account. When it is wrong, the failure is
written. When it is right, that is written, and a session is issued or a second factor asked
for. -/
theorem wp_authenticate_user {deps : AuthDependencies} {email password : PyStr}
    {organizationSlug : Option PyStr} {context : RequestContext} {moment : Moment}
    {post : Empty → List Write → World Database Q S → Prop}
    (hfailed : ∀ w₁ w₂ loaded passwordHash events, rely w w₁ → rely w₁ w₂ →
      Presented deps email moment.now w₁.db loaded passwordHash →
      deps.verify password passwordHash = false → (∀ u ∈ events, u.IsAudit) →
      ends true (.error .invalidCredentials) w₂ (view (userWrites loaded
        (loaded.recordFailedLogin moment.now deps.lockoutPolicy) ++ events) w₂.db))
    (hchallenged : ∀ w₁ w₂ loaded passwordHash challenge, rely w w₁ → rely w₁ w₂ →
      Presented deps email moment.now w₁.db loaded passwordHash →
      deps.verify password passwordHash = true → loaded.mfaEnabled = true →
      ends true (.ok (.challenge challenge)) w₂ (view (userWrites loaded
        (acceptedUser deps loaded passwordHash moment)) w₂.db))
    (hissued : ∀ w₁ w₂ w₃ w₄ loaded passwordHash membership events, rely w w₁ → rely w₁ w₂ →
      rely w₂ w₃ → rely w₃ w₄ →
      Presented deps email moment.now w₁.db loaded passwordHash →
      deps.verify password passwordHash = true → loaded.mfaEnabled = false →
      (∀ u ∈ events, u.IsAudit) →
      sessionsTable.violates
        (issuedSession deps loaded.id membership.organizationId context moment)
        (view (userWrites loaded (acceptedUser deps loaded passwordHash moment) ++
          (evicted deps.tokenPolicy loaded.id moment.now (view (userWrites loaded
            (acceptedUser deps loaded passwordHash moment)) w₂.db)).map
            fun session ↦ .sessions (eviction moment.now session)) w₃.db) = false →
      ends true (.ok (.tokens (issuedPair deps loaded.id membership false moment))) w₄
        (view (userWrites loaded (acceptedUser deps loaded passwordHash moment) ++
          issueWrites deps loaded.id membership.organizationId context moment (view (userWrites
            loaded (acceptedUser deps loaded passwordHash moment)) w₂.db) ++ events) w₄.db)) :
    Wp rely ends
      (AuthenticateUser.execute deps email password organizationSlug context moment) post [] w := by
  unfold AuthenticateUser.execute
  split
  · exact wp_raise hrefuses
  · rename_i address haddress
    rw [wp_bind, Users.getByEmail, TableAt.wp_select_one]
    intro w₁ hw₁
    have hlater := hrefuses.later hrely hw₁
    split
    · rename_i loaded hfound
      have hemail : loaded.email = address := by
        simpa using List.find?_some hfound
      split
      · rename_i passwordHash hhash
        rw [wp_bind]
        refine wp_check hlater fun _ hunlocked ↦ ?_
        have hpresented : Presented deps email moment.now w₁.db loaded passwordHash :=
          ⟨hemail ▸ hfound, hemail ▸ haddress, hhash, hunlocked⟩
        split
        · rename_i hverify
          rw [AuthenticateUser.accept, wp_bind]
          refine wp_resolve_membership hrely hlater
            fun w₂ membership organization hw₂ hactive horganization huser ↦ ?_
          have hlater₂ := hlater.later hrely hw₂
          dsimp only
          rw [wp_bind]
          refine wp_update_user hrely hlater₂ fun w₃ hw₃ ↦ ?_
          have hlater₃ := hlater₂.later hrely hw₃
          have hw₁₃ := hrely.trans hw₂ hw₃
          have hmfa : (acceptedUser deps loaded passwordHash moment).mfaEnabled =
              loaded.mfaEnabled := by
            rw [accepted_user_eq]
            rfl
          have hid : (acceptedUser deps loaded passwordHash moment).id = loaded.id := by
            rw [accepted_user_eq]
            rfl
          show Wp rely ends (if (acceptedUser deps loaded passwordHash moment).mfaEnabled = true
            then _ else _) _ _ _
          split
          · rename_i hchallenge
            intro w₄ hw₄
            exact hchallenged w₁ w₄ loaded passwordHash _ hw₁ (hrely.trans hw₁₃ hw₄) hpresented
              hverify (hmfa ▸ hchallenge)
          · rename_i hplain
            rw [wp_bind]
            refine wp_issue hrely hlater₃ fun w₄ w₅ hw₄ hw₅ hfree ↦ ?_
            rw [wp_bind]
            refine wp_append hrely (hlater₃.later hrely (hrely.trans hw₄ hw₅))
              fun w₆ events hw₆ hevents ↦ ?_
            intro w₇ hw₇
            have := hissued w₁ w₄ w₅ w₇ loaded passwordHash membership events hw₁
              (hrely.trans hw₁₃ hw₄) hw₅ (hrely.trans hw₆ hw₇) hpresented hverify
              (by simpa [hmfa] using hplain) hevents
            rw [← hid] at this
            exact this hfree
        · rename_i hverify
          rw [AuthenticateUser.reject, wp_bind]
          refine wp_update_user hrely hlater fun w₂ hw₂ ↦ ?_
          rw [wp_bind]
          refine wp_audit_failure hrely (hlater.later hrely hw₂) fun w₃ events hw₃ hevents ↦ ?_
          intro w₄ hw₄
          exact hfailed w₁ w₄ loaded passwordHash events hw₁
            (hrely.trans (hrely.trans hw₂ hw₃) hw₄) hpresented (by simpa using hverify) hevents
      · exact wp_raise hlater
    · exact wp_raise hlater

end

section
variable {rely : World Database Q S → World Database Q S → Prop}
variable {ends : Bool → Except DomainError TokenPair → World Database Q S → Database → Prop}
variable {w : World Database Q S}
variable (hrely : Interference rely) (hrefuses : Refuses rely ends w)
include hrely hrefuses

/-- `CompleteMfaChallenge` checks a code for the account of a challenge. When it is wrong, the
failure is written. When it is right, that is written, and a session is issued. -/
theorem wp_complete_mfa {deps : AuthDependencies} {decoded : Except DomainError ChallengeToken}
    {code : PyStr} {context : RequestContext} {moment : Moment}
    {post : Empty → List Write → World Database Q S → Prop}
    (hfailed : ∀ w₁ w₂ claims loaded events, rely w w₁ → rely w₁ w₂ → decoded = .ok claims →
      Challenged claims moment.now w₁.db loaded → (∀ u ∈ events, u.IsAudit) →
      ends true (.error .InvalidMfaCodeError) w₂ (view (userWrites loaded
        (loaded.recordFailedLogin moment.now deps.lockoutPolicy) ++ events) w₂.db))
    (hissued : ∀ w₁ w₂ w₃ w₄ w₅ claims loaded membership factors events, rely w w₁ →
      rely w₁ w₂ → rely w₂ w₃ → rely w₃ w₄ → rely w₄ w₅ → decoded = .ok claims →
      Challenged claims moment.now w₁.db loaded →
      Verified deps claims.subject (stripSpaces code) moment.now w₂.db factors →
      (∀ u ∈ events, u.IsAudit) →
      sessionsTable.violates
        (issuedSession deps loaded.id membership.organizationId context moment)
        (view (factors ++ userWrites loaded (loaded.recordSuccessfulLogin moment.now) ++
          (evicted deps.tokenPolicy loaded.id moment.now (view (factors ++ userWrites loaded
            (loaded.recordSuccessfulLogin moment.now)) w₃.db)).map
            fun session ↦ .sessions (eviction moment.now session)) w₄.db) = false →
      ends true (.ok (issuedPair deps loaded.id membership true moment)) w₅
        (view (factors ++ userWrites loaded (loaded.recordSuccessfulLogin moment.now) ++
          issueWrites deps loaded.id membership.organizationId context moment (view (factors ++
            userWrites loaded (loaded.recordSuccessfulLogin moment.now)) w₃.db) ++ events)
          w₅.db)) :
    Wp rely ends (CompleteMfaChallenge.execute deps decoded code context moment) post [] w := by
  rw [CompleteMfaChallenge.execute, wp_bind]
  refine wp_check hrefuses fun claims hclaims ↦ ?_
  rw [wp_bind]
  refine wp_refuse_if hrefuses fun _ ↦ ?_
  rw [wp_bind, Users.get, TableAt.wp_select_one]
  intro w₁ hw₁
  have hlater₁ := hrefuses.later hrely hw₁
  split
  · rename_i loaded hfound
    rw [wp_bind]
    refine wp_refuse_if hlater₁ fun hactive ↦ ?_
    rw [wp_bind]
    refine wp_check hlater₁ fun _ hunlocked ↦ ?_
    have hchallenged : Challenged claims moment.now w₁.db loaded :=
      ⟨List.mem_of_find?_eq_some hfound, by simpa using List.find?_some hfound,
        by simpa using hactive, hunlocked⟩
    rw [wp_bind]
    refine wp_active_membership hrely hlater₁ fun w₂ membership hw₂ _ _ _ ↦ ?_
    have hlater₂ := hlater₁.later hrely hw₂
    rw [wp_bind]
    refine wp_verify_code hrely hlater₂ (fun w₃ hw₃ ↦ ?_) fun w₃ w₄ factors hw₃ hw₄ hverified ↦ ?_
    · have hlater₃ := hlater₂.later hrely hw₃
      show Wp rely ends (CompleteMfaChallenge.reject _ _ _ _) _ _ _
      rw [CompleteMfaChallenge.reject, wp_bind]
      refine wp_update_user hrely hlater₃ fun w₄ hw₄ ↦ ?_
      rw [wp_bind]
      refine wp_append hrely (hlater₃.later hrely hw₄) fun w₅ events hw₅ hevents ↦ ?_
      intro w₆ hw₆
      exact hfailed w₁ w₆ claims loaded events hw₁
        (hrely.trans (hrely.trans (hrely.trans (hrely.trans hw₂ hw₃) hw₄) hw₅) hw₆) hclaims
        hchallenged hevents
    · have hlater₄ := hlater₂.later hrely (hrely.trans hw₃ hw₄)
      show Wp rely ends (CompleteMfaChallenge.accept _ _ _ _ _) _ _ _
      rw [CompleteMfaChallenge.accept, wp_bind]
      refine wp_update_user hrely hlater₄ fun w₅ hw₅ ↦ ?_
      have hlater₅ := hlater₄.later hrely hw₅
      rw [wp_bind]
      refine wp_issue hrely hlater₅ fun w₆ w₇ hw₆ hw₇ hfree ↦ ?_
      rw [wp_bind]
      refine wp_append hrely (hlater₅.later hrely (hrely.trans hw₆ hw₇))
        fun w₈ events hw₈ hevents ↦ ?_
      intro w₉ hw₉
      exact hissued w₁ w₃ w₆ w₇ w₉ claims loaded membership factors events hw₁
        (hrely.trans hw₂ hw₃) (hrely.trans (hrely.trans hw₄ hw₅) hw₆) hw₇ (hrely.trans hw₈ hw₉)
        hclaims hchallenged hverified hevents hfree
  · exact wp_raise hlater₁

end

end Aegis.Access
