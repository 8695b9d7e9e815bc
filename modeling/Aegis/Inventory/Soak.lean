import Aegis.Access.Rules
import Aegis.Inventory.Protection
import Aegis.Lib.Timeline

/-!
# The soak before blocking

A production environment may only block after two weeks in monitor mode. The rule is about the
modes of the environment over time; the code keeps one time, the end of the soak, which it sets
when monitor mode is entered. `blocking_soaked_iff` says when the two agree.
-/

namespace Aegis.Inventory

open Aegis.Server Aegis.Access Aegis.Access.Database Aegis.Api Transaction

/-! ## One change -/

/-- The caller may change the mode, the environment is of its organization, and the licence does
not leave blocking out. -/
structure Allowed (principal : Principal) (mode : ProtectionMode)
    (environment : ApplicationEnvironment) (db : Database) : Prop where
  permission : principal.require .POLICY_WRITE = .ok ()
  tenant : environment.organizationId = principal.organizationId
  licensed : (mode == .BLOCK && withoutBlocking (db.licenses.rows.find? fun license ↦
    license.organizationId == principal.organizationId)) = false

/-- What a change of the mode leaves: the row as the entity has it, and the licences. -/
structure Changed (environment : ApplicationEnvironment) (db db' : Database) : Prop where
  licenses : db'.licenses = db.licenses
  row : ∃ row ∈ db'.environments.rows, row.id = environment.id ∧
    row.organizationId = environment.organizationId ∧ row.kind = environment.kind ∧
    row.protectionMode = environment.protectionMode ∧
    row.soakCompletedAt = environment.soakCompletedAt

/-- The entity is another one than the one that was loaded, or there is nothing to write. -/
theorem wp_update_environment_alone {R Q S : Type}
    {ends : Bool → Except DomainError R → World Database Q S → Database → Prop}
    {loaded environment : ApplicationEnvironment} {ws : List Write} {w : World Database Q S}
    {databaseNow : Instant} {post : Unit → List Write → World Database Q S → Prop}
    (hrow : loaded ∈ (view ws w.db).environments.rows) (hid : environment.id = loaded.id)
    (hsame : environment = loaded → post () ws w)
    (hchanged : post () (ws ++ [.environments (.modify loaded.id
      (applyEnvironment loaded environment databaseNow))]) w) :
    Wp (fun w w' ↦ w' = w) ends (Environments.update loaded.organizationId loaded environment
      databaseNow : Tx R Unit) post ws w := by
  rw [Environments.update, wp_bind, TableAt.wp_select_one]
  rintro w rfl
  have hfound : (environmentsTable.read (view ws w.db)).rows.find? (fun row ↦
      row.organizationId == loaded.organizationId && row.id == environment.id) = some loaded := by
    refine Table.find_rows_eq_some hrow (by simp [hid]) fun row hmeets ↦ ?_
    rw [Bool.and_eq_true, beq_iff_eq, beq_iff_eq] at hmeets
    exact hmeets.2.trans hid
  rw [hfound]
  show Wp _ _ (if environment = loaded then _ else _) _ _ _
  split
  · exact hsame ‹_›
  · rw [hid]
    exact TableAt.wp_update_alone (t := environmentsTable) hrow rfl hchanged

/-- The changed row is the entity. -/
theorem changed_modify {db : Database} {loaded environment : ApplicationEnvironment}
    {databaseNow : Instant} {now : Instant} {mode : ProtectionMode} {events : List Write}
    (hrow : loaded ∈ db.environments.rows) (hevents : ∀ u ∈ events, u.IsAudit)
    (hset : loaded.setProtectionMode mode now = .ok environment) :
    Changed environment db (view ([.environments (.modify loaded.id
      (applyEnvironment loaded environment databaseNow))] ++ events) db) := by
  obtain ⟨hid, horganization, hkind⟩ : environment.id = loaded.id ∧
      environment.organizationId = loaded.organizationId ∧ environment.kind = loaded.kind := by
    unfold ApplicationEnvironment.setProtectionMode at hset
    split at hset
    · cases hset
    · cases hset
      exact ⟨rfl, rfl, rfl⟩
  rw [view_append, view_of_audit hevents]
  refine ⟨rfl, (applyEnvironment loaded environment databaseNow).run loaded,
    Table.mem_modify.mpr ⟨loaded, hrow, Table.edit_at_of_eq rfl⟩, hid.symm,
    horganization.symm, hkind.symm, ?_, ?_⟩
  · exact changed_self _ _
  · exact changed_self _ _

/-- A change of the mode is committed when it is allowed and the environment takes it; otherwise
nothing is written. -/
theorem run_set_protection_mode {db : Database} {environment : ApplicationEnvironment}
    (hrow : environment ∈ db.environments.rows) (principal : Principal) (mode : ProtectionMode)
    (now databaseNow : Instant) :
    let result := run (SetProtectionMode.execute principal environment.id mode now databaseNow) [] db
    (result.1.1 = true ∧ Allowed principal mode environment db ∧
        ∃ environment', environment.setProtectionMode mode now = .ok environment' ∧
          Changed environment' db result.2) ∨
      (result.1.1 = false ∧ result.2 = db ∧ ¬(Allowed principal mode environment db ∧
        ∃ environment', environment.setProtectionMode mode now = .ok environment')) := by
  let ends : Bool → Except DomainError EnvironmentSummary →
      World Database Unit (Except DomainError EnvironmentSummary) → Database → Prop :=
    fun committed _ w after ↦
      (committed = true ∧ Allowed principal mode environment w.db ∧
        ∃ environment', environment.setProtectionMode mode now = .ok environment' ∧
          Changed environment' w.db after) ∨
      (committed = false ∧ after = w.db ∧ ¬(Allowed principal mode environment w.db ∧
        ∃ environment', environment.setProtectionMode mode now = .ok environment'))
  have hwp : Wp (fun w w' ↦ w' = w) ends
      (SetProtectionMode.execute principal environment.id mode now databaseNow)
      (fun e _ _ ↦ e.elim) [] ⟨db, []⟩ := by
    rw [SetProtectionMode.execute, wp_bind, wp_check_alone]
    refine ⟨fun _ hpermission ↦ ?_, fun e hdenied ↦ .inr ⟨rfl, rfl, fun h ↦ ?_⟩⟩
    swap
    · rw [h.1.permission] at hdenied
      cases hdenied
    rw [wp_bind, Environments.get, TableAt.wp_select_one]
    rintro _ rfl
    by_cases htenant : environment.organizationId = principal.organizationId
    swap
    · have hnone : (environmentsTable.read (view [] db)).rows.find? (fun row ↦
          row.organizationId == principal.organizationId && row.id == environment.id) = none := by
        refine List.find?_eq_none.mpr fun row hmem hmeets ↦ htenant ?_
        rw [Bool.and_eq_true, beq_iff_eq, beq_iff_eq] at hmeets
        rw [← hmeets.1, Table.eq_of_key_eq hmem hrow hmeets.2]
      rw [hnone]
      rintro _ rfl
      exact .inr ⟨rfl, rfl, fun h ↦ htenant h.1.tenant⟩
    · have hfound : (environmentsTable.read (view [] db)).rows.find? (fun row ↦
          row.organizationId == principal.organizationId && row.id == environment.id) =
          some environment := by
        refine Table.find_rows_eq_some hrow (by simp [htenant]) fun row hmeets ↦ ?_
        rw [Bool.and_eq_true, beq_iff_eq, beq_iff_eq] at hmeets
        exact hmeets.2
      rw [hfound]
      show Wp _ _ (Licenses.getForOrganization principal.organizationId >>= _) _ _ _
      rw [wp_bind, Licenses.getForOrganization, wp_read]
      rintro _ rfl
      rw [wp_bind, wp_refuse_if_alone]
      refine ⟨fun hlicensed ↦ ?_, fun hdenied ↦ .inr ⟨rfl, rfl, fun h ↦ ?_⟩⟩
      swap
      · have hlicensed := h.1.licensed
        cases hlicensed.symm.trans hdenied
      have hallowed : Allowed principal mode environment db := ⟨hpermission, htenant, hlicensed⟩
      rw [wp_bind, wp_check_alone]
      refine ⟨fun environment' hset ↦ ?_, fun e hrefused ↦ .inr ⟨rfl, rfl, ?_⟩⟩
      swap
      · rintro ⟨-, environment', hset⟩
        cases hset.symm.trans hrefused
      have hid : environment'.id = environment.id := by
        unfold ApplicationEnvironment.setProtectionMode at hset
        split at hset
        · cases hset
        · cases hset
          rfl
      rw [wp_bind, ← htenant]
      refine wp_update_environment_alone hrow hid (fun hsame ↦ ?_) ?_
      · rw [wp_bind]
        refine wp_append_alone fun events hevents ↦ ?_
        rintro _ rfl
        rw [List.nil_append, view_of_audit hevents]
        exact .inl ⟨rfl, hallowed, environment', hset, rfl, environment, hrow, hid.symm,
          hsame ▸ ⟨rfl, rfl, rfl, rfl⟩⟩
      · rw [wp_bind]
        refine wp_append_alone fun events hevents ↦ ?_
        rintro _ rfl
        exact .inl ⟨rfl, hallowed, environment', hset, changed_modify hrow hevents hset⟩
  exact hwp.run interference_eq

/-! ## A run of changes -/

/-- A change of the mode that is asked for, with the two clocks. -/
structure ModeRequest where
  principal : Principal
  mode : ProtectionMode
  now : Instant
  databaseNow : Instant

/-- The database, and the modes an environment has had. -/
structure Watched where
  db : Database
  history : List (Instant × ProtectionMode)

/-- One request, after which the mode of the environment is recorded. -/
def changeMode (environmentId : Uuid) (s : Watched) (request : ModeRequest) : Bool × Watched :=
  let result := run (SetProtectionMode.execute request.principal environmentId request.mode
    request.now request.databaseNow) [] s.db
  let modes := (result.2.environments.find? environmentId).toList.map fun environment ↦
    (request.now, environment.protectionMode)
  (result.1.1, ⟨result.2, modes ++ s.history⟩)

/-- The request is made no earlier than those before it. -/
def InOrder (s : Watched) (request : ModeRequest) : Prop :=
  ∀ entry ∈ s.history, entry.1 ≤ request.now

instance (s : Watched) (request : ModeRequest) : Decidable (InOrder s request) :=
  List.decidableBAll _ s.history

/-- The environment is in monitor mode. -/
def monitored (mode : ProtectionMode) : Bool :=
  mode == .MONITOR

/-- What the row of the environment has to do with its modes: it is in the last one, and its soak
ends two weeks after it last entered monitor mode. -/
structure Follows (environment : ApplicationEnvironment) (licenses : Table License)
    (created : Instant) (s : Watched) : Prop where
  licenses : s.db.licenses = licenses
  ordered : Timeline.Ordered s.history
  first : s.history.getLast? = some (created, .MONITOR)
  row : ∃ row ∈ s.db.environments.rows, ∃ t rest, row.id = environment.id ∧
    row.organizationId = environment.organizationId ∧ row.kind = environment.kind ∧
    s.history = (t, row.protectionMode) :: rest ∧
    row.soakCompletedAt = (Timeline.entered monitored s.history).map
      (· + ApplicationEnvironment.requiredSoak)

/-- A request, granted or not, is followed. -/
theorem follows_change_mode {environment : ApplicationEnvironment} {licenses : Table License}
    {created : Instant} {s : Watched} {request : ModeRequest}
    (h : Follows environment licenses created s) (horder : InOrder s request) :
    Follows environment licenses created (changeMode environment.id s request).2 := by
  obtain ⟨row, hrow, t, rest, hid, horganization, hkind, hhistory, hsoak⟩ := h.row
  have hrun := run_set_protection_mode hrow request.principal request.mode request.now
    request.databaseNow
  rw [hid] at hrun
  -- Either way there is a row, and its soak starts when it enters monitor mode.
  obtain ⟨hlicenses, row', hrow', hid', horganization', hkind', hsoak'⟩ :
      (changeMode environment.id s request).2.db.licenses = s.db.licenses ∧
      ∃ row' ∈ (changeMode environment.id s request).2.db.environments.rows,
        row'.id = environment.id ∧ row'.organizationId = environment.organizationId ∧
        row'.kind = environment.kind ∧
        row'.soakCompletedAt =
          if monitored row'.protectionMode && !monitored row.protectionMode then
            some (request.now + ApplicationEnvironment.requiredSoak)
          else row.soakCompletedAt := by
    obtain ⟨-, -, entity, hset, hchanged⟩ | ⟨-, hsame, -⟩ := hrun
    · obtain ⟨row', hrow', hid', horganization', hkind', hmode', hsoak'⟩ := hchanged.row
      unfold ApplicationEnvironment.setProtectionMode at hset
      split at hset
      · cases hset
      · cases hset
        refine ⟨hchanged.licenses, row', hrow', hid'.trans hid,
          horganization'.trans horganization, hkind'.trans hkind, ?_⟩
        rw [hsoak', hmode']
        exact if_congr (by simp [monitored]) rfl rfl
    · show (run _ [] s.db).2.licenses = _ ∧ ∃ row' ∈ (run _ [] s.db).2.environments.rows, _
      rw [hsame]
      exact ⟨rfl, row, hrow, hid, horganization, hkind, by simp⟩
  have hfound : (changeMode environment.id s request).2.db.environments.find? environment.id =
      some row' := Table.find_eq_some_iff.mpr ⟨hrow', hid'⟩
  have hmodes : (changeMode environment.id s request).2.history =
      (request.now, row'.protectionMode) :: (t, row.protectionMode) :: rest := by
    rw [← hhistory]
    show ((changeMode environment.id s request).2.db.environments.find? environment.id).toList.map
      _ ++ s.history = _
    rw [hfound]
    rfl
  refine ⟨hlicenses.trans h.licenses, ?_, ?_, row', hrow', request.now, _, hid', horganization',
    hkind', hmodes, ?_⟩
  · rw [hmodes, ← hhistory]
    exact List.pairwise_cons.mpr ⟨horder, h.ordered⟩
  · rw [hmodes, List.getLast?_cons_cons, ← hhistory]
    exact h.first
  · rw [hsoak', hsoak, hmodes, hhistory, Timeline.entered]
    split <;> simp [*]

/-- The mode that was recorded last. -/
def Watched.mode (s : Watched) : Option ProtectionMode :=
  s.history.head?.map Prod.snd

/-- The time the code keeps is that of the stay in monitor mode: the environment has entered the
mode it is in since it was created, or was created too late; or it is not in it, and has not been
in it for long enough since it entered it. -/
def Watched.Timed (s : Watched) (created now : Instant) : Prop :=
  if s.mode = some .MONITOR then
    (Timeline.entered monitored s.history).isSome = true ∨
      now < created + ApplicationEnvironment.requiredSoak
  else ∀ t ∈ Timeline.entered monitored s.history, now < t + ApplicationEnvironment.requiredSoak

/-- A production environment that is created in monitor mode is changed to blocking exactly when it
was monitored throughout the soak, if and only if the time the code keeps is that of its stay in
monitor mode. -/
theorem blocking_soaked_iff {db : Database} {environment : ApplicationEnvironment}
    {created : Instant} {requests : List ModeRequest} {principal : Principal}
    {now databaseNow : Instant} (hrow : environment ∈ db.environments.rows)
    (hkind : environment.kind = .PRODUCTION) (hmode : environment.protectionMode = .MONITOR)
    (hsoak : environment.soakCompletedAt = none)
    (horder : Machine.Meets (changeMode environment.id) InOrder ⟨db, [(created, .MONITOR)]⟩ requests)
    (hallowed : Allowed principal .BLOCK environment db) :
    let s := Machine.final (changeMode environment.id) ⟨db, [(created, .MONITOR)]⟩ requests
    InOrder s ⟨principal, .BLOCK, now, databaseNow⟩ → s.mode ≠ some .BLOCK →
      (((changeMode environment.id s ⟨principal, .BLOCK, now, databaseNow⟩).1 = true ↔
          Timeline.Throughout monitored s.history
            (now - ApplicationEnvironment.requiredSoak) now) ↔
        s.Timed created now) := by
  intro s hlast hfrom
  have hstart : Follows environment db.licenses created ⟨db, [(created, .MONITOR)]⟩ :=
    ⟨rfl, List.pairwise_singleton _ _, rfl, environment, hrow, created, [], rfl, rfl, rfl,
      by rw [hmode], hsoak⟩
  have hfollows : Follows environment db.licenses created s :=
    Machine.final_invariant (fun _ _ h hcondition ↦ follows_change_mode h hcondition) hstart horder
  obtain ⟨row, hrow', t, rest, hid, horganization, hkind', hhistory, hkept⟩ := hfollows.row
  have hcurrent : s.mode = some row.protectionMode := by
    rw [Watched.mode, hhistory]
    rfl
  -- The code looks at the end of the soak.
  have hcode : (changeMode environment.id s ⟨principal, .BLOCK, now, databaseNow⟩).1 = true ↔
      ∃ e, Timeline.entered monitored s.history = some e ∧
        e + ApplicationEnvironment.requiredSoak ≤ now := by
    have hallowed' : Allowed principal .BLOCK row s.db :=
      ⟨hallowed.permission, horganization.trans hallowed.tenant, hfollows.licenses ▸ hallowed.licensed⟩
    have hset : (∃ row', row.setProtectionMode .BLOCK now = .ok row') ↔
        row.soakSatisfied now = true := by
      unfold ApplicationEnvironment.setProtectionMode
      rw [hkind', hkind]
      cases hsatisfied : row.soakSatisfied now <;> simp
    have hrun := run_set_protection_mode hrow' principal .BLOCK now databaseNow
    rw [hid] at hrun
    have hiff : (changeMode environment.id s ⟨principal, .BLOCK, now, databaseNow⟩).1 = true ↔
        row.soakSatisfied now = true := by
      rw [← hset]
      obtain ⟨hcommitted, -, row', hok, -⟩ | ⟨hrefused, -, hnot⟩ := hrun
      · exact ⟨fun _ ↦ ⟨row', hok⟩, fun _ ↦ hcommitted⟩
      · exact ⟨fun hcommitted ↦ absurd (hcommitted.symm.trans hrefused) nofun,
          fun hok ↦ absurd ⟨hallowed', hok⟩ hnot⟩
    rw [hiff, ApplicationEnvironment.soakSatisfied, hkept]
    cases Timeline.entered monitored s.history <;> simp
  -- The rule looks at the stay in monitor mode.
  have hrule : Timeline.Throughout monitored s.history
      (now - ApplicationEnvironment.requiredSoak) now ↔
      s.mode = some .MONITOR ∧ (Timeline.entered monitored s.history).getD created +
        ApplicationEnvironment.requiredSoak ≤ now := by
    rw [Timeline.throughout_iff hfollows.ordered hlast,
      Timeline.since_eq hhistory hfollows.first, hcurrent]
    cases hmonitored : monitored row.protectionMode with
    | false =>
        have hmode : row.protectionMode ≠ .MONITOR := by simpa [monitored] using hmonitored
        simp [hmode]
    | true =>
        have hmode : row.protectionMode = .MONITOR := by simpa [monitored] using hmonitored
        rw [if_pos rfl, hmode, and_iff_right rfl]
        constructor
        · rintro ⟨e, he, hle⟩
          obtain rfl := Option.some.inj he
          exact le_sub_iff_add_le.mp hle
        · intro hle
          exact ⟨_, rfl, le_sub_iff_add_le.mpr hle⟩
  rw [hcode, hrule, Watched.Timed]
  cases Timeline.entered monitored s.history with
  | none =>
      by_cases hmonitor : s.mode = some .MONITOR
      · simp [hmonitor]
      · simp [hmonitor]
  | some e =>
      by_cases hmonitor : s.mode = some .MONITOR
      · simp [hmonitor]
      · simp [hmonitor]

/-! ## Where the two differ -/

/-- A day, in microseconds. -/
def day : Int := 86400000000

/-- An organization with one production environment, which was created at time zero. -/
def productionDatabase : Database :=
  { Database.empty with
    environments := ⟨[environmentToRecord (.make 7 1 3 .PRODUCTION) 0], by decide⟩ }

/-- Changes of the mode of the environment, each on a day. -/
def modeRequests (changes : List (ProtectionMode × Int)) : List ModeRequest :=
  changes.map fun change ↦ ⟨ownerPrincipal, change.1, change.2 * day, change.2 * day⟩

/-- What has become of the environment after some changes. -/
def afterChanges (changes : List (ProtectionMode × Int)) : Watched :=
  Machine.final (changeMode 7) ⟨productionDatabase, [(0, .MONITOR)]⟩ (modeRequests changes)

/-- An environment that was off for thirteen of the fourteen days may block. One that was monitored
on all of them, from its creation on, may not. -/
theorem soak_counts_off_and_forgets_creation :
    ((changeMode 7 (afterChanges [(.OFF, 0), (.MONITOR, 0), (.OFF, 1)])
          ⟨ownerPrincipal, .BLOCK, 14 * day, 14 * day⟩).1 = true ∧
        ¬Timeline.Throughout monitored
          (afterChanges [(.OFF, 0), (.MONITOR, 0), (.OFF, 1)]).history 0 (14 * day)) ∧
      (changeMode 7 (afterChanges []) ⟨ownerPrincipal, .BLOCK, 14 * day, 14 * day⟩).1 = false ∧
        Timeline.Throughout monitored (afterChanges []).history 0 (14 * day) := by
  decide +kernel

/-- Switched off and on again, and monitored for fourteen days since. -/
theorem blocking_soaked_after_restart :
    ((changeMode 7 (afterChanges [(.OFF, 0), (.MONITOR, 1)])
          ⟨ownerPrincipal, .BLOCK, 15 * day, 15 * day⟩).1 = true ↔
        Timeline.Throughout monitored (afterChanges [(.OFF, 0), (.MONITOR, 1)]).history
          (15 * day - ApplicationEnvironment.requiredSoak) (15 * day)) ↔
      (afterChanges [(.OFF, 0), (.MONITOR, 1)]).Timed 0 (15 * day) :=
  @blocking_soaked_iff productionDatabase (environmentToRecord (.make 7 1 3 .PRODUCTION) 0) 0
    (modeRequests [(.OFF, 0), (.MONITOR, 1)]) ownerPrincipal (15 * day) (15 * day)
    (List.mem_singleton_self _) rfl rfl rfl (by decide +kernel) ⟨by decide +kernel, rfl, rfl⟩
    (by decide +kernel) (by decide +kernel)

end Aegis.Inventory
