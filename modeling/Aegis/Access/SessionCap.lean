import Mathlib.Data.List.Sort
import Aegis.Access.SignIn

/-!
# The session cap

Issuing a session revokes the oldest active ones of the user when there are too many. The sessions
of a user lie in several families, with members that were rotated, revoked or have expired;
`session_cap` says of every table that may be there what is active after a session is issued.
-/

namespace Aegis.Access

open Aegis.Server Database Transaction

/-! ## Making room -/

namespace SessionIssuer

/-- Sessions, the oldest first. -/
def byAge (active : List Session) : List Session :=
  active.insertionSort fun a b ↦ a.createdAt ≤ b.createdAt

/-- The sessions are in the order of their age. -/
theorem pairwise_by_age (active : List Session) :
    (byAge active).Pairwise fun a b ↦ a.createdAt ≤ b.createdAt := by
  have : Std.Total fun a b : Session ↦ a.createdAt ≤ b.createdAt :=
    ⟨fun a b ↦ le_total a.createdAt b.createdAt⟩
  have : IsTrans Session fun a b ↦ a.createdAt ≤ b.createdAt :=
    ⟨fun _ _ _ ↦ le_trans⟩
  exact List.pairwise_insertionSort _ active

/-- What is not revoked for room is what follows the oldest sessions. -/
theorem perm_spared {policy : TokenPolicy} {active : List Session} (hnodup : active.Nodup) :
    (active.filter fun session ↦ session ∉ overflow policy active).Perm
      ((byAge active).drop (active.length - policy.maxSessionsPerUser + 1)) := by
  have hperm : (byAge active).Perm active := List.perm_insertionSort _ active
  have hsplit := List.take_append_drop (active.length - policy.maxSessionsPerUser + 1)
    (byAge active)
  have hdisjoint := hperm.nodup_iff.mpr hnodup
  rw [← hsplit, List.nodup_append] at hdisjoint
  refine (hperm.symm.filter _).trans (List.Perm.of_eq ?_)
  conv_lhs => rw [← hsplit]
  rw [List.filter_append]
  have htaken : ((byAge active).take (active.length - policy.maxSessionsPerUser + 1)).filter
      (fun session ↦ session ∉ overflow policy active) = [] :=
    List.filter_eq_nil_iff.mpr fun session hsession ↦ by
      have : session ∈ overflow policy active := hsession
      simpa using this
  rw [htaken, List.nil_append, List.filter_eq_self]
  exact fun session hsession ↦ decide_eq_true fun htaken ↦
    hdisjoint.2.2 session htaken session hsession rfl

/-- What is revoked for room is at least as old as what is not. -/
theorem created_at_le {policy : TokenPolicy} {active : List Session} {old spared : Session}
    (hold : old ∈ overflow policy active) (hspared : spared ∈ active)
    (hnot : spared ∉ overflow policy active) : old.createdAt ≤ spared.createdAt := by
  have hsorted := pairwise_by_age active
  rw [← List.take_append_drop (active.length - policy.maxSessionsPerUser + 1) (byAge active),
    List.pairwise_append] at hsorted
  refine hsorted.2.2 old hold spared ?_
  have hmem : spared ∈ byAge active := (List.mem_insertionSort _).mpr hspared
  rw [← List.take_append_drop (active.length - policy.maxSessionsPerUser + 1) (byAge active),
    List.mem_append] at hmem
  exact hmem.resolve_left hnot

end SessionIssuer

/-- A session that is revoked for room was active. -/
theorem mem_active_of_evicted {policy : TokenPolicy} {userId : Uuid} {now : Instant}
    {db : Database} {session : Session} (h : session ∈ evicted policy userId now db) :
    session ∈ activeSessions userId now db := by
  unfold evicted at h
  dsimp only at h
  split at h
  · cases h
  · exact (List.mem_insertionSort _).mp (List.mem_of_mem_take h)

/-- No session is listed twice. -/
theorem nodup_active (userId : Uuid) (now : Instant) (db : Database) :
    (activeSessions userId now db).Nodup :=
  (List.Nodup.of_map _ db.sessions.nodup).filter _

/-- After making room there is one session less than the cap, or as many as before. -/
theorem length_spared (policy : TokenPolicy) (userId : Uuid) (now : Instant) (db : Database) :
    ((activeSessions userId now db).filter fun session ↦
      session ∉ evicted policy userId now db).length + 1 =
      min ((activeSessions userId now db).length + 1) policy.maxSessionsPerUser := by
  have hcap := policy.one_le_max_sessions
  unfold evicted
  dsimp only
  split
  · rename_i hroom
    simp only [List.not_mem_nil, not_false_eq_true, decide_true, List.filter_true]
    omega
  · rename_i hfull
    rw [(SessionIssuer.perm_spared (nodup_active userId now db)).length_eq, List.length_drop,
      SessionIssuer.byAge, List.length_insertionSort]
    omega

/-! ## What issuing a session leaves -/

/-- The writes leave the sessions as they are. -/
def KeepSessions (us : List Write) : Prop :=
  ∀ u ∈ us, ∀ db : Database, (Store.apply db u).sessions = db.sessions

theorem keep_sessions_user (loaded user : User) : KeepSessions (userWrites loaded user) := by
  intro u hu db
  unfold userWrites at hu
  split at hu
  · cases hu
  · rw [List.mem_singleton.mp hu]
    rfl

theorem Verified.keep_sessions {deps : AuthDependencies} {userId : Uuid} {candidate : PyStr}
    {now : Instant} {db : Database} {factors : List Write}
    (h : Verified deps userId candidate now db factors) : KeepSessions factors := by
  intro u hu db
  obtain ⟨v, rfl⟩ := h.writes u hu
  rfl

theorem KeepSessions.append {us vs : List Write} (hus : KeepSessions us) (hvs : KeepSessions vs) :
    KeepSessions (us ++ vs) :=
  fun u hu ↦ (List.mem_append.mp hu).elim (hus u) (hvs u)

/-- What was written before a session is issued does not change which sessions are active. -/
theorem active_sessions_congr {userId : Uuid} {now : Instant} {db db' : Database}
    (h : db'.sessions = db.sessions) :
    activeSessions userId now db' = activeSessions userId now db := by
  rw [activeSessions, activeSessions, h]

section
variable {deps : AuthDependencies} {userId organizationId : Uuid} {context : RequestContext}
variable {moment : Moment} {pre events : List Write} {db : Database}

/-- The session that is issued is active. -/
theorem is_active_issued :
    (issuedSession deps userId organizationId context moment).isActive moment.now = true := by
  have hexpiry : moment.now < moment.now + seconds deps.tokenPolicy.refreshTtlSeconds := by
    have httl := deps.tokenPolicy.refresh_ttl_ge
    have hpos : (0 : Int) < seconds deps.tokenPolicy.refreshTtlSeconds := by
      unfold seconds
      omega
    exact Int.lt_add_of_pos_right _ hpos
  have hexpired : (issuedSession deps userId organizationId context moment).isExpired moment.now =
      false :=
    decide_eq_false (not_le.mpr hexpiry)
  rw [Session.isActive, hexpired]
  rfl

/-- The sessions are revoked that make room, and a new one is there. -/
theorem sessions_of_issue (hpre : KeepSessions pre) (hevents : ∀ u ∈ events, u.IsAudit)
    (hfree : sessionsTable.violates (issuedSession deps userId organizationId context moment)
      (view (pre ++ (evicted deps.tokenPolicy userId moment.now (view pre db)).map
        fun session ↦ .sessions (eviction moment.now session)) db) = false) :
    (view (pre ++ issueWrites deps userId organizationId context moment (view pre db) ++ events)
        db).sessions.rows =
      db.sessions.rows.map (fun session ↦
        if session ∈ evicted deps.tokenPolicy userId moment.now db then
          session.revoke moment.now (py "session_cap_exceeded")
        else session) ++ [issuedSession deps userId organizationId context moment] := by
  have hsessions : (view pre db).sessions = db.sessions := view_congr hpre db
  have hevicted : evicted deps.tokenPolicy userId moment.now (view pre db) =
      evicted deps.tokenPolicy userId moment.now db := by
    unfold evicted
    rw [active_sessions_congr hsessions]
  rw [hevicted] at hfree
  -- The table after the revocations.
  have hrevoked : (view (pre ++ (evicted deps.tokenPolicy userId moment.now db).map
      fun session ↦ .sessions (eviction moment.now session)) db).sessions.rows =
      db.sessions.rows.map fun session ↦
        if session ∈ evicted deps.tokenPolicy userId moment.now db then
          session.revoke moment.now (py "session_cap_exceeded")
        else session := by
    have hkeys : ((evicted deps.tokenPolicy userId moment.now db).map key).Nodup := by
      unfold evicted
      dsimp only
      split
      · exact List.nodup_nil
      · have hactive : ((activeSessions userId moment.now db).map key).Nodup :=
          db.sessions.nodup.sublist (List.filter_sublist.map key)
        have hsorted := ((List.perm_insertionSort (fun a b : Session ↦ a.createdAt ≤ b.createdAt)
          (activeSessions userId moment.now db)).map key).nodup_iff.mpr hactive
        exact hsorted.sublist ((List.take_sublist _ _).map key)
    have hread := sessionsTable.read_view ((evicted deps.tokenPolicy userId moment.now db).map
      (eviction moment.now)) (view pre db)
    rw [List.map_map] at hread
    rw [view_append]
    refine (congrArg Table.rows hread).trans ?_
    show (((evicted deps.tokenPolicy userId moment.now db).map fun session ↦
      RowWrite.modify (key session) (applySession session
        (session.revoke moment.now (py "session_cap_exceeded")))).foldl RowWrite.apply
      (view pre db).sessions).rows = _
    rw [hsessions, RowWrite.rows_modify_rows hkeys _ fun session hsession ↦
      (List.mem_filter.mp (mem_active_of_evicted hsession)).1]
    refine List.map_congr_left fun session _ ↦ if_congr Iff.rfl ?_ rfl
    unfold applySession Session.revoke
    split <;> simp
  have hnew : ∀ old ∈ (view (pre ++ (evicted deps.tokenPolicy userId moment.now db).map
      fun session ↦ .sessions (eviction moment.now session)) db).sessions.rows,
      key old ≠ key (issuedSession deps userId organizationId context moment) :=
    fun old hold ↦ (TableAt.key_ne_of_not_violates hfree old hold).1
  have haudit := view_of_audit hevents (view (pre ++ issueWrites deps userId organizationId context
    moment (view pre db)) db)
  rw [view_append, haudit, issueWrites, hevicted, ← List.append_assoc, view_append]
  show ((view (pre ++ (evicted deps.tokenPolicy userId moment.now db).map fun session ↦
    Write.sessions (eviction moment.now session)) db).sessions.insert
      (issuedSession deps userId organizationId context moment)).rows = _
  rw [Table.rows_insert_of_new hnew, hrevoked]

end

/-! ## The cap -/

/-- A session was issued to a user within the cap. -/
structure WithinCap (policy : TokenPolicy) (userId sessionId : Uuid) (now : Instant)
    (before after : Database) : Prop where
  /-- The user has at most the configured maximum of active sessions. -/
  active_le : (activeSessions userId now after).length ≤ policy.maxSessionsPerUser
  /-- The session that was issued is among them. -/
  issued_mem : ∃ issued ∈ activeSessions userId now after, issued.id = sessionId
  /-- No more sessions were revoked than there had to be. -/
  room : (activeSessions userId now after).length =
    min ((activeSessions userId now before).length + 1) policy.maxSessionsPerUser
  /-- The sessions that were revoked are the oldest active ones. -/
  oldest : ∀ revoked ∈ activeSessions userId now before,
    revoked ∉ activeSessions userId now after →
      ∀ kept ∈ activeSessions userId now before, kept ∈ activeSessions userId now after →
        revoked.createdAt ≤ kept.createdAt

/-- Issuing a session keeps to the cap. -/
theorem within_cap_of_issue {deps : AuthDependencies} {userId organizationId : Uuid}
    {context : RequestContext} {moment : Moment} {before after : Database}
    (hafter : after.sessions.rows = before.sessions.rows.map (fun session ↦
        if session ∈ evicted deps.tokenPolicy userId moment.now before then
          session.revoke moment.now (py "session_cap_exceeded")
        else session) ++ [issuedSession deps userId organizationId context moment])
    (hfree : ∀ old ∈ before.sessions.rows, old.id ≠ moment.sessionId) :
    WithinCap deps.tokenPolicy userId moment.sessionId moment.now before after := by
  let p : Session → Bool := fun session ↦
    session.userId == userId && session.isActive moment.now
  let gone := evicted deps.tokenPolicy userId moment.now before
  let record := issuedSession deps userId organizationId context moment
  have hrecord : p record = true := by
    have huser : record.userId = userId := rfl
    simp only [p, huser, beq_self_eq_true, Bool.true_and]
    exact is_active_issued
  -- A session that is revoked is not active, and one that is not is as it was.
  have hactive : activeSessions userId moment.now after =
      ((activeSessions userId moment.now before).filter fun session ↦ session ∉ gone) ++
        [record] := by
    rw [activeSessions, hafter, List.filter_append, List.filter_cons_of_pos hrecord,
      List.filter_nil, activeSessions, List.filter_filter]
    congr 1
    have hrows : ∀ rows : List Session, ((rows.map fun session ↦ if session ∈ gone then
        session.revoke moment.now (py "session_cap_exceeded") else session).filter p) =
        rows.filter fun session ↦ decide (session ∉ gone) && p session := by
      intro rows
      induction rows with
      | nil => rfl
      | cons session rows ih =>
          rw [List.map_cons, List.filter_cons, List.filter_cons, ih]
          by_cases hgone : session ∈ gone
          · have hrevoked : p (session.revoke moment.now (py "session_cap_exceeded")) = false := by
              unfold p Session.revoke Session.isActive
              cases hat : session.revokedAt with
              | none => simp
              | some at_ => simp [hat]
            rw [if_pos hgone, hrevoked]
            simp [hgone]
          · simp [hgone]
    exact hrows before.sessions.rows
  have hlength := length_spared deps.tokenPolicy userId moment.now before
  have hroom : (activeSessions userId moment.now after).length =
      min ((activeSessions userId moment.now before).length + 1)
        deps.tokenPolicy.maxSessionsPerUser := by
    rw [hactive, List.length_append, List.length_singleton]
    exact hlength
  refine ⟨hroom ▸ min_le_right _ _, ⟨record, ?_, rfl⟩, hroom, ?_⟩
  · rw [hactive]
    exact List.mem_append_right _ List.mem_cons_self
  · intro revoked hrevoked hnot kept hkept hstill
    rw [hactive, List.mem_append, List.mem_filter, List.mem_singleton, decide_eq_true_eq,
      not_or] at hnot
    have hgone : revoked ∈ gone := not_not.mp fun h ↦ hnot.1 ⟨hrevoked, h⟩
    rw [hactive, List.mem_append, List.mem_filter, List.mem_singleton, decide_eq_true_eq] at hstill
    have hspared : kept ∉ gone := by
      rcases hstill with hstill | hsame
      · exact hstill.2
      · exact absurd (congrArg Session.id hsame)
          (hfree kept (List.mem_filter.mp hkept).1)
    simp only [gone, evicted] at hgone hspared
    split at hgone
    · cases hgone
    · rename_i hfull
      rw [if_neg hfull] at hspared
      exact SessionIssuer.created_at_le hgone hkept hspared

/-- The token pair of a session that a request has issued, and when: a password sign-in without a
second factor does, and a challenge that is completed. -/
def AccountRequest.issued : AccountRequest → Except DomainError AccountAnswer →
    Option (TokenPair × Instant)
  | .signIn _ _ _ _ moment, .ok (.result (.tokens pair)) => some (pair, moment.now)
  | .completeMfa _ _ _ moment, .ok (.pair pair) => some (pair, moment.now)
  | _, _ => none

/-- What a request that has issued a session leaves. -/
def IssuesWithinCap (deps : AuthDependencies) (request : AccountRequest)
    (outcome : Except DomainError AccountAnswer) (before after : Database) : Prop :=
  ∀ pair now, request.issued outcome = some (pair, now) →
    WithinCap deps.tokenPolicy pair.accessToken.subject pair.sessionId now before after

/-- The writes that issue a session keep to the cap. -/
theorem within_cap_of_writes {deps : AuthDependencies} {userId organizationId : Uuid}
    {context : RequestContext} {moment : Moment} {pre events : List Write} {db : Database}
    (hpre : KeepSessions pre) (hevents : ∀ u ∈ events, u.IsAudit)
    (hfree : sessionsTable.violates (issuedSession deps userId organizationId context moment)
      (view (pre ++ (evicted deps.tokenPolicy userId moment.now (view pre db)).map
        fun session ↦ .sessions (eviction moment.now session)) db) = false) :
    WithinCap deps.tokenPolicy userId moment.sessionId moment.now db
      (view (pre ++ issueWrites deps userId organizationId context moment (view pre db) ++ events)
        db) := by
  have hsessions := sessions_of_issue hpre hevents hfree
  refine within_cap_of_issue hsessions fun old hold hid ↦ ?_
  -- A row with the new identifier would be a second one.
  have hnodup := (view (pre ++ issueWrites deps userId organizationId context moment
    (view pre db) ++ events) db).sessions.nodup
  rw [hsessions, List.map_append, List.nodup_append] at hnodup
  refine hnodup.2.2 old.id (List.mem_map.mpr ?_) moment.sessionId List.mem_cons_self hid
  refine ⟨_, List.mem_map_of_mem hold, ?_⟩
  show Session.id _ = _
  split
  · unfold Session.revoke
    split <;> rfl
  · rfl

/-- A request that issues a session keeps to the cap. -/
theorem issues_within_cap (deps : AuthDependencies) (requireForPrivilegedRoles : Bool)
    (db : Database) (request : AccountRequest) :
    IssuesWithinCap deps request (accountStep deps requireForPrivilegedRoles db request).1.outcome
      db (accountStep deps requireForPrivilegedRoles db request).2 := by
  let ends : Bool → Except DomainError AccountAnswer →
      World Database Unit (Except DomainError AccountAnswer) → Database → Prop :=
    fun _ outcome w after ↦ IssuesWithinCap deps request outcome w.db after
  have hnothing (h : ∀ outcome, request.issued outcome = none) :
      IssuesWithinCap deps request
        (accountStep deps requireForPrivilegedRoles db request).1.outcome db
        (accountStep deps requireForPrivilegedRoles db request).2 := by
    intro pair now hissued
    rw [h] at hissued
    cases hissued
  cases request with
  | signIn email password organizationSlug context moment =>
      have hwp : Wp (fun w w' ↦ w' = w) ends ((AccountRequest.signIn email password
          organizationSlug context moment).program deps requireForPrivilegedRoles)
          (fun e _ _ ↦ e.elim) [] ⟨db, []⟩ := by
        rw [AccountRequest.program, wp_map_outcome]
        refine wp_authenticate_user interference_eq (fun _ _ _ ↦ nofun) ?_ ?_ ?_
        · intros
          exact nofun
        · intros
          exact nofun
        · rintro _ _ _ _ loaded passwordHash membership events rfl rfl rfl rfl _ _ _ hevents hfree
          rintro _ _ ⟨⟩
          exact within_cap_of_writes (keep_sessions_user _ _) hevents hfree
      exact hwp.run interference_eq
  | completeMfa decoded code context moment =>
      have hwp : Wp (fun w w' ↦ w' = w) ends ((AccountRequest.completeMfa decoded code context
          moment).program deps requireForPrivilegedRoles) (fun e _ _ ↦ e.elim) [] ⟨db, []⟩ := by
        rw [AccountRequest.program, wp_map_outcome]
        refine wp_complete_mfa interference_eq (fun _ _ _ ↦ nofun) ?_ ?_
        · intros
          exact nofun
        · rintro _ _ _ _ _ claims loaded membership factors events rfl rfl rfl rfl rfl _ _ hverified
            hevents hfree
          rintro _ _ ⟨⟩
          exact within_cap_of_writes (hverified.keep_sessions.append (keep_sessions_user _ _))
            hevents hfree
      exact hwp.run interference_eq
  | refresh | signOut | enrol | confirm | disable =>
      exact hnothing fun outcome ↦ by cases outcome <;> rfl

/-- After each issue of a session, in any sequence of requests and from any table of sessions, the
user has at most the maximum of active sessions, the new one is among them, and those that were
revoked for it are the oldest. -/
theorem session_cap (deps : AuthDependencies) (requireForPrivilegedRoles : Bool) (db : Database)
    (requests : List AccountRequest) :
    ∀ served ∈ Machine.visited (accountStep deps requireForPrivilegedRoles) db requests,
      ∀ pair now, served.1.request.issued served.1.outcome = some (pair, now) →
        WithinCap deps.tokenPolicy pair.accessToken.subject pair.sessionId now served.1.before
          served.2 := by
  let good : AccountStep → Database → Prop := fun served after ↦
    IssuesWithinCap deps served.request served.outcome served.before after
  have hstep : ∀ db request, True → True →
      True ∧ good (accountStep deps requireForPrivilegedRoles db request).1
        (accountStep deps requireForPrivilegedRoles db request).2 :=
    fun db request _ _ ↦ ⟨trivial, issues_within_cap deps requireForPrivilegedRoles db request⟩
  have hvisited : ∀ served ∈
      Machine.visited (accountStep deps requireForPrivilegedRoles) db requests,
      True ∧ good served.1 served.2 :=
    Machine.forall_visited hstep trivial (Machine.meets_true db requests)
  exact fun served hserved ↦ (hvisited served hserved).2

/-- The session that user 7 had is revoked for the new one. -/
theorem session_cap_of_one :
    ∃ pair now, (accountStep plainDependencies false (plainAccounts plainUser
        ⟨[Session.start 30 7 1 5 3600 0 ⟨[], none, []⟩], by decide⟩)
        (plainSignIn "secret" 10 31)).1.request.issued
        (accountStep plainDependencies false (plainAccounts plainUser
          ⟨[Session.start 30 7 1 5 3600 0 ⟨[], none, []⟩], by decide⟩)
          (plainSignIn "secret" 10 31)).1.outcome = some (pair, now) ∧
      WithinCap plainDependencies.tokenPolicy pair.accessToken.subject pair.sessionId now
        (plainAccounts plainUser ⟨[Session.start 30 7 1 5 3600 0 ⟨[], none, []⟩], by decide⟩)
        (accountStep plainDependencies false (plainAccounts plainUser
          ⟨[Session.start 30 7 1 5 3600 0 ⟨[], none, []⟩], by decide⟩)
          (plainSignIn "secret" 10 31)).2 := by
  have hissued : ((plainSignIn "secret" 10 31).issued (accountStep plainDependencies false
      (plainAccounts plainUser ⟨[Session.start 30 7 1 5 3600 0 ⟨[], none, []⟩], by decide⟩)
      (plainSignIn "secret" 10 31)).1.outcome).isSome = true := by
    decide +kernel
  obtain ⟨⟨pair, now⟩, hpair⟩ := Option.isSome_iff_exists.mp hissued
  exact ⟨pair, now, hpair, session_cap plainDependencies false (plainAccounts plainUser
    ⟨[Session.start 30 7 1 5 3600 0 ⟨[], none, []⟩], by decide⟩) [plainSignIn "secret" 10 31] _
    List.mem_cons_self pair now hpair⟩

end Aegis.Access
