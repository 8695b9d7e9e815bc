import Aegis.Access.SessionHistory

/-!
# Families of sessions

A sign-in begins a family, and a refresh adds to it the session that replaces another. Served one
after another, the requests of accounts keep to what rotation is for: `families_kept` says that the
sessions of a family are of one user and end together, and that one of them is live at most.
-/

namespace Aegis.Access

open Aegis.Server Database Transaction

/-! ## What holds of families -/

/-- Two sessions of one family are of one user in one organization and end together, and they are
the same when both are live. -/
structure Families (db : Database) : Prop where
  kin : ∀ a ∈ db.sessions.rows, ∀ b ∈ db.sessions.rows, a.familyId = b.familyId →
    a.userId = b.userId ∧ a.organizationId = b.organizationId ∧ a.expiresAt = b.expiresAt
  live : ∀ a ∈ db.sessions.rows, ∀ b ∈ db.sessions.rows, a.familyId = b.familyId →
    ¬ a.Spent → ¬ b.Spent → a = b

/-- Only the session that began it has the id of the family. -/
def Founded (familyId : Uuid) (db : Database) : Prop :=
  ∀ session ∈ db.sessions.rows, session.familyId = familyId → session.id = familyId

theorem Families.congr {db db' : Database} (hsessions : db'.sessions = db.sessions)
    (h : Families db) : Families db' := by
  constructor
  · rw [hsessions]
    exact h.kin
  · rw [hsessions]
    exact h.live

/-- Without sessions there are no families. -/
theorem families_of_nil {db : Database} (h : db.sessions.rows = []) : Families db := by
  constructor <;> simp [h]

/-- A row of a modified table is a later state of a row that was there. -/
theorem exists_earlier {db : Database} {sessionId : Uuid} {edit : Edit Session}
    (hedit : ∀ session : Session, session.Later (edit.run session)) {row : Session}
    (hrow : row ∈ (Store.apply db (.sessions (.modify sessionId edit))).sessions.rows) :
    ∃ old ∈ db.sessions.rows, Table.editAt sessionId edit old = row ∧ old.Later row := by
  obtain ⟨old, hold, rfl⟩ := Table.mem_modify.mp hrow
  refine ⟨old, hold, rfl, ?_⟩
  unfold Table.editAt
  split
  · exact hedit old
  · exact .refl old

/-- Modifying sessions into later ones keeps families. -/
theorem families_modify {db : Database} {sessionId : Uuid} {edit : Edit Session}
    (hedit : ∀ session : Session, session.Later (edit.run session)) (h : Families db) :
    Families (Store.apply db (.sessions (.modify sessionId edit))) := by
  constructor
  · intro a ha b hb hfamily
    obtain ⟨olda, holda, -, hlatera⟩ := exists_earlier hedit ha
    obtain ⟨oldb, holdb, -, hlaterb⟩ := exists_earlier hedit hb
    rw [hlatera.familyId, hlaterb.familyId] at hfamily
    rw [hlatera.userId, hlaterb.userId, hlatera.organizationId, hlaterb.organizationId,
      hlatera.expiresAt, hlaterb.expiresAt]
    exact h.kin olda holda oldb holdb hfamily
  · intro a ha b hb hfamily hlivea hliveb
    obtain ⟨olda, holda, rfl, hlatera⟩ := exists_earlier hedit ha
    obtain ⟨oldb, holdb, rfl, hlaterb⟩ := exists_earlier hedit hb
    rw [hlatera.familyId, hlaterb.familyId] at hfamily
    rw [h.live olda holda oldb holdb hfamily (mt hlatera.spent hlivea) (mt hlaterb.spent hliveb)]

/-- So does inserting a session into a family of its kind that is dead. -/
theorem families_insert {db : Database} {session : Session}
    (hkin : ∀ old ∈ db.sessions.rows, old.familyId = session.familyId →
      old.userId = session.userId ∧ old.organizationId = session.organizationId ∧
        old.expiresAt = session.expiresAt)
    (hdead : ∀ old ∈ db.sessions.rows, old.familyId = session.familyId → old.Spent)
    (h : Families db) : Families (Store.apply db (.sessions (.insert session))) := by
  have hmem : ∀ row ∈ (Store.apply db (.sessions (.insert session))).sessions.rows,
      row ∈ db.sessions.rows ∨ row = session :=
    fun row hrow ↦ (Table.mem_insert.mp hrow).imp_right And.left
  constructor
  · intro a ha b hb hfamily
    rcases hmem a ha with holda | rfl <;> rcases hmem b hb with holdb | rfl
    · exact h.kin a holda b holdb hfamily
    · exact hkin a holda hfamily
    · obtain ⟨huser, horganization, hexpiry⟩ := hkin b holdb hfamily.symm
      exact ⟨huser.symm, horganization.symm, hexpiry.symm⟩
    · exact ⟨rfl, rfl, rfl⟩
  · intro a ha b hb hfamily hlivea hliveb
    rcases hmem a ha with holda | rfl <;> rcases hmem b hb with holdb | rfl
    · exact h.live a holda b holdb hfamily hlivea hliveb
    · exact absurd (hdead a holda hfamily) hlivea
    · exact absurd (hdead b holdb hfamily.symm) hliveb
    · rfl

/-! ## What the requests of an account keep -/

/-- The write keeps families. -/
def KeepsFamilies (u : Write) : Prop :=
  ∀ db : Database, Families db → Families (Store.apply db u)

theorem allows_account_families : AllowsAccount KeepsFamilies :=
  allows_account_of_later (fun _ hsame db h ↦ h.congr (hsame db))
    fun _ _ hedit _ h ↦ families_modify hedit h

/-- The write keeps families, while a session may begin the family. -/
def KeepsFounding (familyId : Uuid) (u : Write) : Prop :=
  ∀ db : Database, Families db ∧ Founded familyId db →
    Families (Store.apply db u) ∧ Founded familyId (Store.apply db u)

theorem keeps_founding_modify {familyId sessionId : Uuid} {edit : Edit Session}
    (hedit : ∀ session : Session, session.Later (edit.run session)) :
    KeepsFounding familyId (.sessions (.modify sessionId edit)) := by
  rintro db ⟨hfamilies, hfounded⟩
  refine ⟨families_modify hedit hfamilies, fun row hrow hfamily ↦ ?_⟩
  obtain ⟨old, hold, -, hlater⟩ := exists_earlier hedit hrow
  rw [hlater.id]
  exact hfounded old hold (hlater.familyId ▸ hfamily)

/-- The session that begins the family is inserted, when it is not there. -/
theorem keeps_founding_start {session : Session} (hid : session.id = session.familyId) :
    KeepsFounding session.familyId (.sessions (.insert session)) := by
  rintro db ⟨hfamilies, hfounded⟩
  by_cases hthere : ∃ old ∈ db.sessions.rows, key old = key session
  · have hsame : (Store.apply db (.sessions (.insert session))).sessions = db.sessions := by
      obtain ⟨old, hold, hkey⟩ := hthere
      exact dif_pos (List.mem_map.mpr ⟨old, hold, hkey⟩)
    refine ⟨hfamilies.congr hsame, ?_⟩
    unfold Founded
    rwa [hsame]
  · have hnew : ∀ old ∈ db.sessions.rows, old.familyId ≠ session.familyId := by
      intro old hold hfamily
      exact hthere ⟨old, hold, (hfounded old hold hfamily).trans hid.symm⟩
    refine ⟨families_insert (fun old hold hfamily ↦ absurd hfamily (hnew old hold))
      (fun old hold hfamily ↦ absurd hfamily (hnew old hold)) hfamilies, fun row hrow hfamily ↦ ?_⟩
    rcases Table.mem_insert.mp hrow with hold | ⟨rfl, -⟩
    · exact hfounded row hold hfamily
    · exact hid

theorem allows_account_founding (familyId : Uuid) : AllowsAccount (KeepsFounding familyId) := by
  refine allows_account_of_later (fun u hsame db h ↦ ?_) fun _ _ ↦ keeps_founding_modify
  refine ⟨h.1.congr (hsame db), ?_⟩
  unfold Founded
  rw [hsame db]
  exact h.2

section
variable {deps : AuthDependencies} {requireForPrivilegedRoles : Bool}

/-- A request other than a refresh keeps families, when no family has the id it draws. -/
theorem families_account {db : Database} {request : AccountRequest}
    (hother : ∀ refreshToken context moment, request ≠ .refresh refreshToken context moment)
    (hfresh : ∀ moment, request.moment = some moment →
      ∀ session ∈ db.sessions.rows, session.familyId ≠ moment.sessionId)
    (hfamilies : Families db) :
    Families (accountStep deps requireForPrivilegedRoles db request).2 := by
  cases hmoment : request.moment with
  | none =>
      have honly : (request.program deps requireForPrivilegedRoles).Only KeepsFamilies := by
        refine only_account allows_account_families (fun moment hdraw ↦ ?_)
          fun _ _ _ hrequest ↦ absurd hrequest (hother _ _ _)
        rw [hmoment] at hdraw
        cases hdraw
      exact run_kept (fun db db' ↦ Families db → Families db') (fun _ h ↦ h)
        (fun h₁ h₂ h ↦ h₂ (h₁ h)) (fun _ hu ↦ hu) honly (List.forall_mem_nil _) db hfamilies
  | some moment =>
      have honly : (request.program deps requireForPrivilegedRoles).Only
          (KeepsFounding moment.sessionId) := by
        refine only_account (allows_account_founding moment.sessionId) ?_
          fun _ _ _ hrequest ↦ absurd hrequest (hother _ _ _)
        intro other hdraw session hid hfamily
        obtain rfl := Option.some.inj (hmoment.symm.trans hdraw)
        exact hfamily ▸ keeps_founding_start (hid.trans hfamily.symm)
      exact (run_kept (fun db db' ↦ Families db ∧ Founded moment.sessionId db →
        Families db' ∧ Founded moment.sessionId db') (fun _ h ↦ h) (fun h₁ h₂ h ↦ h₂ (h₁ h))
        (fun _ hu ↦ hu) honly (List.forall_mem_nil _) db
        ⟨hfamilies, fun session hsession hfamily ↦
          absurd hfamily (hfresh moment hmoment session hsession)⟩).1

/-- What a rotation writes keeps families: the session is spent before its successor comes. -/
theorem families_rotated {db : Database} {session successor : Session}
    (hfamilies : Families db) (hsession : session ∈ db.sessions.rows) (hlive : ¬ session.Spent)
    (hkin : successor.userId = session.userId ∧ successor.organizationId = session.organizationId ∧
      successor.familyId = session.familyId ∧ successor.expiresAt = session.expiresAt)
    (successorId : Uuid) (now : Instant) :
    Families (view [.sessions (.modify session.id (applySession session
      { session with rotatedAt := some now, replacedById := some successorId })),
      .sessions (.insert successor)] db) := by
  obtain ⟨huser, horganization, hfamily, hexpiry⟩ := hkin
  have hedit := later_consumed session successorId now
  refine families_insert (fun old hold hsame ↦ ?_) (fun old hold hsame ↦ ?_)
    (families_modify hedit hfamilies)
  · obtain ⟨earlier, hearlier, -, hlater⟩ := exists_earlier hedit hold
    rw [hlater.familyId, hfamily] at hsame
    rw [hlater.userId, hlater.organizationId, hlater.expiresAt, huser, horganization, hexpiry]
    exact hfamilies.kin earlier hearlier session hsession hsame
  · obtain ⟨earlier, hearlier, rfl, hlater⟩ := exists_earlier hedit hold
    rw [hlater.familyId, hfamily] at hsame
    by_cases hspent : earlier.Spent
    · exact hlater.spent hspent
    · -- the only live session of the family is the one that is rotated
      obtain rfl := hfamilies.live earlier hearlier session hsession hsame hspent hlive
      refine .inr ?_
      rw [show Table.editAt earlier.id _ earlier = _ from Table.edit_at_of_eq rfl]
      have hrotated : earlier.rotatedAt = none := by
        cases hrotated : earlier.rotatedAt with
        | none => rfl
        | some time => exact absurd (.inr (by rw [hrotated]; rfl)) hlive
      simp [applySession, hrotated]

/-- What only writes so keeps families, served alone. -/
theorem wp_families_of_only {R : Type} {p : Tx R Empty} (hp : p.Only KeepsFamilies)
    {w : World Database Unit (Except DomainError TokenPair)} (hfamilies : Families w.db) :
    Wp (fun w w' ↦ w' = w) (fun _ _ _ db ↦ Families db) p (fun e _ _ ↦ e.elim) [] w := by
  refine wp_of_only interference_eq hp (List.forall_mem_nil _) ?_ ?_
  · rintro _ _ rfl
    exact hfamilies
  · rintro _ us _ rfl hus
    exact view_kept (fun db db' ↦ Families db → Families db') (fun _ h ↦ h)
      (fun h₁ h₂ h ↦ h₂ (h₁ h)) (fun _ hu ↦ hu) hus _ hfamilies

/-- A rotation keeps families. -/
theorem wp_rotate_families {session : Session} {context : RequestContext} {moment : Moment}
    {w : World Database Unit (Except DomainError TokenPair)} (hfamilies : Families w.db)
    (hsession : session ∈ w.db.sessions.rows) (hlive : ¬ session.Spent) :
    Wp (fun w w' ↦ w' = w) (fun _ _ _ db ↦ Families db)
      (RefreshSession.rotate deps session context moment) (fun e _ _ ↦ e.elim) [] w := by
  have hrefuses : Refuses (fun w w' ↦ w' = w) (fun _ (_ : Except DomainError TokenPair) _ db ↦
      Families db) w := by
    rintro _ _ rfl
    exact hfamilies
  have hrevoked : session.revokedAt.isSome = false := by
    cases hrevoked : session.revokedAt.isSome with
    | false => rfl
    | true => exact absurd (.inl hrevoked) hlive
  rw [RefreshSession.rotate, wp_bind, Users.get, TableAt.wp_select_one]
  rintro w rfl
  cases (usersTable.read (view [] w.db)).rows.find? fun user ↦ user.id == session.userId with
  | none => exact wp_raise hrefuses
  | some user =>
      dsimp only
      rw [wp_bind]
      refine wp_refuse_if hrefuses fun _ ↦ ?_
      rw [wp_bind]
      refine wp_check hrefuses fun _ _ ↦ ?_
      rw [wp_bind]
      -- Whichever membership is found, nothing is written before it is checked.
      refine wp_of_within (P := fun _ ↦ False) interference_eq within_find ?_ ?_
      · rintro _ w rfl
        exact hfamilies
      rintro found us w rfl hus
      obtain rfl := List.eq_nil_iff_forall_not_mem.mpr hus
      split
      · refine wp_families_of_only ?_ hfamilies
        exact (within_revocation allows_account_families.toAllowsStatements _ _ _).only.bind
          fun _ ↦ trivial
      · rw [wp_bind]
        refine wp_check hrefuses fun rotated hrotated ↦ ?_
        rw [Session.rotate, hrevoked, if_neg Bool.false_ne_true] at hrotated
        obtain rfl := Except.ok.inj hrotated
        have hchanged : { session with
            rotatedAt := some moment.now, replacedById := some moment.sessionId } ≠ session := by
          intro hsame
          refine hlive (.inr ?_)
          rw [← hsame]
          rfl
        rw [wp_bind, Sessions.update, if_neg hchanged]
        refine TableAt.wp_update interference_eq (fun w' hw ↦ hrefuses .StaleDataError w' hw) ?_
        rintro w rfl
        rw [wp_bind]
        refine TableAt.wp_insert interference_eq (fun w' hw ↦ hrefuses .IntegrityError w' hw) ?_
        rintro w rfl -
        rw [wp_commit]
        rintro w rfl
        exact families_rotated hfamilies hsession hlive (by exact ⟨rfl, rfl, rfl, rfl⟩) _ _

/-- A refresh keeps families. -/
theorem wp_refresh_families {refreshToken : PyStr} {context : RequestContext} {moment : Moment}
    {w : World Database Unit (Except DomainError TokenPair)} (hfamilies : Families w.db) :
    Wp (fun w w' ↦ w' = w) (fun _ _ _ db ↦ Families db)
      (RefreshSession.execute deps refreshToken context moment) (fun e _ _ ↦ e.elim) [] w := by
  have hrefuses : Refuses (fun w w' ↦ w' = w) (fun _ (_ : Except DomainError TokenPair) _ db ↦
      Families db) w := by
    rintro _ _ rfl
    exact hfamilies
  rw [RefreshSession.execute, wp_bind, Sessions.getByTokenHash, TableAt.wp_select_one]
  rintro w rfl
  cases hfound : (sessionsTable.read (view [] w.db)).rows.find? fun row ↦
      row.refreshTokenHash == deps.hashToken refreshToken with
  | none => exact wp_raise hrefuses
  | some session =>
      have hmem : session ∈ w.db.sessions.rows := List.mem_of_find?_eq_some hfound
      dsimp only
      rw [wp_bind]
      refine wp_refuse_if hrefuses fun hnotRevoked ↦ ?_
      split
      · split
        · exact wp_families_of_only (only_reissue allows_account_families) hfamilies
        · exact wp_families_of_only (only_handle_reuse allows_account_families) hfamilies
      · next hnotRotated =>
          rw [wp_bind]
          refine wp_refuse_if hrefuses fun _ ↦ ?_
          refine wp_rotate_families hfamilies hmem ?_
          rintro (hrevoked | hrotated)
          · rw [hnotRevoked] at hrevoked
            cases hrevoked
          · exact hnotRotated hrotated

/-- Served one after another, the requests of accounts keep families: the sessions of a family are
of one user and one organization and end together, and one of them is live at most. -/
theorem families_kept (deps : AuthDependencies) (requireForPrivilegedRoles : Bool) {db : Database}
    (hfamilies : Families db) {requests : List AccountRequest}
    (hfresh : Machine.Meets (accountStep deps requireForPrivilegedRoles)
      (fun db request ↦ ∀ moment, request.moment = some moment →
        ∀ session ∈ db.sessions.rows, session.familyId ≠ moment.sessionId) db requests) :
    ∀ reached ∈ Machine.visited (accountStep deps requireForPrivilegedRoles) db requests,
      Families reached.2 := by
  let good : AccountStep → Database → Prop := fun _ _ ↦ True
  have hstep : ∀ db request, Families db →
      (∀ moment, request.moment = some moment →
        ∀ session ∈ db.sessions.rows, session.familyId ≠ moment.sessionId) →
      Families (accountStep deps requireForPrivilegedRoles db request).2 ∧
        good (accountStep deps requireForPrivilegedRoles db request).1
          (accountStep deps requireForPrivilegedRoles db request).2 := by
    intro db request hfamilies hdraw
    refine ⟨?_, trivial⟩
    by_cases hrefresh : ∃ refreshToken context moment,
        request = .refresh refreshToken context moment
    · obtain ⟨refreshToken, context, moment, rfl⟩ := hrefresh
      have hrule : Wp (fun w w' ↦ w' = w) (fun _ _ _ db ↦ Families db)
          ((AccountRequest.refresh refreshToken context moment).program deps
            requireForPrivilegedRoles) (fun e _ _ ↦ e.elim) []
          (⟨db, []⟩ : World Database Unit (Except DomainError TokenPair)) := by
        rw [AccountRequest.program, wp_map_outcome]
        exact wp_refresh_families hfamilies
      exact hrule.run interference_eq
    · exact families_account (fun refreshToken context moment hrequest ↦
        hrefresh ⟨refreshToken, context, moment, hrequest⟩) hdraw hfamilies
  exact fun reached hreached ↦
    (Machine.forall_visited hstep hfamilies hfresh reached hreached).1

/-- A sign-in, a refresh with its token and the same refresh again. -/
theorem families_kept_refreshed_twice :
    Families (plainAccounts plainUser .empty) ∧
      ∀ reached ∈ Machine.visited (accountStep plainDependencies false)
        (plainAccounts plainUser .empty)
        [plainSignIn "secret" 0 5, .refresh [] ⟨[], none, []⟩ ⟨10, 10, 6, py "t", []⟩,
          .refresh [] ⟨[], none, []⟩ ⟨20, 20, 7, py "u", []⟩],
      Families reached.2 := by
  refine ⟨families_of_nil rfl,
    families_kept plainDependencies false (families_of_nil rfl) ⟨?_, ?_, ?_, trivial⟩⟩
  · exact fun _ _ _ hsession ↦ absurd hsession List.not_mem_nil
  · intro moment hmoment
    cases hmoment
  · intro moment hmoment
    cases hmoment

end

end Aegis.Access
