import Aegis.Access.Requests
import Aegis.Lib.Locks

/-!
# The numbers of the audit chain

`audit.append` takes the lock of the tenant's chain, reads the last number and inserts the event
with the next one. While a transaction holds the lock, nobody else commits an event of the tenant:
so the events of a tenant are numbered from one without a gap, however the requests interleave and
whichever of them are lost.
-/

namespace Aegis.Access

open Aegis.Server Database Transaction

/-! ## Numbers -/

/-- The events of a tenant, in the order in which they were inserted. -/
def eventsOf (organizationId : Uuid) (db : Database) : List AuditEventRecord :=
  db.auditEvents.rows.filter fun event ↦ event.organizationId == organizationId

/-- Their numbers. -/
def numbersOf (organizationId : Uuid) (db : Database) : List Nat :=
  (eventsOf organizationId db).map AuditEventRecord.sequence

/-- The list is one, two, three and so on. -/
def Counts (numbers : List Nat) : Prop :=
  numbers = List.range' 1 numbers.length

/-- The events of every tenant are numbered from one without a gap. -/
def Numbered (db : Database) : Prop :=
  ∀ organizationId, Counts (numbersOf organizationId db)

/-- The number of an event of the tenant that a write inserts. -/
def appendedNumber (organizationId : Uuid) : Write → Option Nat
  | .auditEvents (.insert event) =>
      if event.organizationId = organizationId then some event.sequence else none
  | _ => none

/-- The numbers of the events of the tenant that some writes insert. -/
def appendedNumbers (organizationId : Uuid) (ws : List Write) : List Nat :=
  ws.filterMap (appendedNumber organizationId)

/-- Events are inserted, and neither modified nor deleted. -/
def Appends (u : Write) : Prop :=
  ∀ v, u = .auditEvents v → ∃ event, v = .insert event

/-- The beginning of a count is one. -/
theorem Counts.of_append {xs ys : List Nat} (h : Counts (xs ++ ys)) : Counts xs := by
  obtain ⟨k, -, hxs, -⟩ := List.range'_eq_append_iff.mp (Eq.symm h)
  unfold Counts
  rw [hxs, List.length_range']

/-- A count goes on with the number after the last one. -/
theorem counts_concat {xs : List Nat} (h : Counts xs) : Counts (xs ++ [xs.length + 1]) := by
  unfold Counts at h ⊢
  rw [List.length_append, List.length_singleton, List.range'_concat, ← h, one_mul,
    Nat.add_comm 1 xs.length]

theorem Counts.nodup {xs : List Nat} (h : Counts xs) : xs.Nodup := by
  rw [h]
  exact List.nodup_range'

/-- The greatest number of a count is its length. -/
theorem Counts.foldl_max {events : List AuditEventRecord}
    (h : Counts (events.map AuditEventRecord.sequence)) :
    events.foldl (fun tail event ↦ max tail event.sequence) 0 = events.length := by
  induction events using List.reverseRecOn with
  | nil => rfl
  | append_singleton events last ih =>
      rw [List.map_append] at h
      have hlast : last.sequence = events.length + 1 := by
        have hend := h
        unfold Counts at hend
        rw [List.length_append, List.length_map, List.map_singleton, List.length_singleton,
          List.range'_concat] at hend
        have := List.singleton_inj.mp (List.append_inj_right' hend rfl)
        omega
      rw [List.foldl_append, ih h.of_append, List.foldl_cons, List.foldl_nil, hlast,
        List.length_append, List.length_singleton]
      omega

/-- The next number is one more than there are events. -/
theorem next_sequence_of_counts {organizationId : Uuid} {db : Database}
    (h : Counts (numbersOf organizationId db)) :
    Audit.nextSequence organizationId db = (numbersOf organizationId db).length + 1 := by
  rw [numbersOf, List.length_map]
  exact congrArg (· + 1) (Counts.foldl_max h)

/-! ## What the writes of a transaction do to them -/

/-- A write of another table leaves the events as they are. -/
theorem audit_events_apply {u : Write} (h : ∀ v, u ≠ .auditEvents v) (db : Database) :
    (Store.apply db u).auditEvents = db.auditEvents := by
  cases u with
  | auditEvents v => exact absurd rfl (h v)
  | memberships v => cases v <;> rfl
  | users | membershipRoles | roles | sessions | apiKeys | mfaCredentials | applications
  | environments | agents | auditLock => rfl

/-- An event that is new comes after the others. -/
theorem numbers_of_insert {event : AuditEventRecord} {db : Database} {organizationId : Uuid}
    (h : event.sequence ∉ numbersOf event.organizationId db) :
    numbersOf organizationId (Store.apply db (.auditEvents (.insert event))) =
      numbersOf organizationId db ++
        (appendedNumber organizationId (.auditEvents (.insert event))).toList := by
  have hnew : ∀ old ∈ db.auditEvents.rows, key old ≠ key event := by
    intro old hold hkey
    obtain ⟨horganization, hsequence⟩ := Prod.mk.inj hkey
    refine h (List.mem_map.mpr ⟨old, List.mem_filter.mpr ⟨hold, ?_⟩, hsequence⟩)
    simpa using horganization
  have hrows : (Store.apply db (Write.auditEvents (.insert event))).auditEvents.rows =
      db.auditEvents.rows ++ [event] := Table.rows_insert_of_new hnew
  unfold numbersOf eventsOf appendedNumber
  rw [hrows, List.filter_append, List.map_append]
  by_cases horganization : event.organizationId = organizationId
  · simp [horganization]
  · simp [horganization]

/-- A write appends the number of the event it inserts, if that is new. -/
theorem numbers_of_apply {u : Write} (hu : Appends u) {db : Database} (organizationId : Uuid)
    (h : ∀ id, (numbersOf id db ++ (appendedNumber id u).toList).Nodup) :
    numbersOf organizationId (Store.apply db u) =
      numbersOf organizationId db ++ (appendedNumber organizationId u).toList := by
  by_cases hevent : ∃ event, u = .auditEvents (.insert event)
  · obtain ⟨event, rfl⟩ := hevent
    refine numbers_of_insert fun hmem ↦ ?_
    have hnodup := h event.organizationId
    rw [appendedNumber, if_pos rfl] at hnodup
    exact (List.nodup_append.mp hnodup).2.2 _ hmem _ (List.mem_singleton.mpr rfl) rfl
  · have hother : ∀ v, u ≠ .auditEvents v := by
      rintro v rfl
      obtain ⟨event, rfl⟩ := hu v rfl
      exact hevent ⟨event, rfl⟩
    have hnone : appendedNumber organizationId u = none := by
      cases u with
      | auditEvents v => exact absurd rfl (hother v)
      | _ => rfl
    rw [hnone, Option.toList_none, List.append_nil, numbersOf, eventsOf, audit_events_apply hother]
    rfl

/-- Several writes append the numbers of the events they insert, if those are new. -/
theorem numbers_of_view {ws : List Write} (hws : ∀ u ∈ ws, Appends u) {db : Database}
    (h : ∀ organizationId,
      (numbersOf organizationId db ++ appendedNumbers organizationId ws).Nodup)
    (organizationId : Uuid) :
    numbersOf organizationId (view ws db) =
      numbersOf organizationId db ++ appendedNumbers organizationId ws := by
  induction ws generalizing db with
  | nil => rw [appendedNumbers, List.filterMap_nil, List.append_nil, view_nil]
  | cons u us ih =>
      obtain ⟨hu, hus⟩ := List.forall_mem_cons.mp hws
      have hcons : ∀ id, appendedNumbers id (u :: us) =
          (appendedNumber id u).toList ++ appendedNumbers id us := by
        intro id
        unfold appendedNumbers
        rw [List.filterMap_cons]
        cases appendedNumber id u <;> rfl
      have hfirst : ∀ id, numbersOf id (Store.apply db u) =
          numbersOf id db ++ (appendedNumber id u).toList := by
        intro id
        refine numbers_of_apply hu id fun other ↦ ?_
        have hnodup := h other
        rw [hcons, ← List.append_assoc] at hnodup
        exact hnodup.sublist (List.sublist_append_left ..)
      show numbersOf organizationId (view us (Store.apply db u)) = _
      rw [ih hus (fun id ↦ ?_), hfirst, hcons, List.append_assoc]
      rw [hfirst, List.append_assoc, ← hcons]
      exact h id

/-! ## What the lock protects -/

/-- A transaction has inserted events with the next numbers, under the lock of their tenant. -/
structure Claims (ws : List Write) (db : Database) : Prop where
  counts : ∀ organizationId,
    Counts (numbersOf organizationId db ++ appendedNumbers organizationId ws)
  locked : ∀ organizationId, appendedNumbers organizationId ws ≠ [] →
    .auditLock organizationId ∈ ws
  appends : ∀ u ∈ ws, Appends u

/-- What a transaction relies on: nobody commits events of a tenant whose lock it holds. -/
def Guarded (ws : List Write) (db db' : Database) : Prop :=
  (Numbered db → Numbered db') ∧
    ∀ organizationId, .auditLock organizationId ∈ ws →
      numbersOf organizationId db' = numbersOf organizationId db

/-- The numbers after the writes of a transaction. -/
theorem Claims.numbers {ws : List Write} {db : Database} (h : Claims ws db)
    (organizationId : Uuid) : numbersOf organizationId (view ws db) =
      numbersOf organizationId db ++ appendedNumbers organizationId ws :=
  numbers_of_view h.appends (fun id ↦ (h.counts id).nodup) organizationId

theorem Claims.numbered {ws : List Write} {db : Database} (h : Claims ws db) : Numbered db :=
  fun organizationId ↦ (h.counts organizationId).of_append

/-- Writes of one table clash both ways. -/
theorem same_row_comm {V K : Type} [Keyed K V] [DecidableEq K] {collide : V → V → Bool}
    (hcollide : ∀ x y, collide x y = collide y x) (a b : RowWrite V) :
    Write.sameRow collide a b = Write.sameRow collide b a := by
  have hkey : (a.rowKey == b.rowKey) = (b.rowKey == a.rowKey) := BEq.comm
  unfold Write.sameRow
  rw [hkey]
  cases a with
  | insert x =>
      cases b with
      | insert y => exact congrArg _ (hcollide x y)
      | modify | delete => rfl
  | modify | delete => cases b <;> rfl

/-- Two writes of one table clash when they are of one row. -/
theorem Write.clashes_roles (a b : RowWrite RoleRecord) :
    Write.clashes (.roles a) (.roles b) = sameRow sameName a b := by
  cases a <;> rfl

/-- Who waits for whom depends on who came first. -/
theorem Write.clashes_comm (u v : Write) : Write.clashes u v = Write.clashes v u := by
  cases u with
  | users a =>
      cases v with
      | users b => exact same_row_comm (fun _ _ ↦ BEq.comm) a b
      | roles b => cases b <;> rfl
      | _ => rfl
  | memberships a =>
      cases v with
      | memberships b => exact same_row_comm (fun _ _ ↦ congrArg₂ and BEq.comm BEq.comm) a b
      | roles b => cases a <;> cases b <;> rfl
      | _ => cases a <;> rfl
  | membershipRoles a =>
      cases v with
      | membershipRoles b => exact same_row_comm (fun _ _ ↦ rfl) a b
      | memberships b | roles b => cases b <;> rfl
      | _ => rfl
  | roles a =>
      cases v with
      | roles b =>
          rw [clashes_roles, clashes_roles]
          exact same_row_comm (fun _ _ ↦ congrArg₂ and BEq.comm BEq.comm) a b
      | memberships b => cases a <;> cases b <;> rfl
      | _ => cases a <;> rfl
  | sessions a =>
      cases v with
      | sessions b => exact same_row_comm (fun _ _ ↦ BEq.comm) a b
      | roles b => cases b <;> rfl
      | _ => rfl
  | apiKeys a =>
      cases v with
      | apiKeys b => exact same_row_comm (fun _ _ ↦ BEq.comm) a b
      | roles b => cases b <;> rfl
      | _ => rfl
  | mfaCredentials a =>
      cases v with
      | mfaCredentials b => exact same_row_comm (fun _ _ ↦ rfl) a b
      | roles b => cases b <;> rfl
      | _ => rfl
  | applications a =>
      cases v with
      | applications b => exact same_row_comm (fun _ _ ↦ congrArg₂ and BEq.comm BEq.comm) a b
      | roles b => cases b <;> rfl
      | _ => rfl
  | environments a =>
      cases v with
      | environments b => exact same_row_comm (fun _ _ ↦ congrArg₂ and BEq.comm BEq.comm) a b
      | roles b => cases b <;> rfl
      | _ => rfl
  | agents a =>
      cases v with
      | agents b => exact same_row_comm (fun _ _ ↦ BEq.comm) a b
      | roles b => cases b <;> rfl
      | _ => rfl
  | auditEvents a =>
      cases v with
      | auditEvents b => exact same_row_comm (fun _ _ ↦ rfl) a b
      | roles b => cases b <;> rfl
      | _ => rfl
  | auditLock a =>
      cases v with
      | auditLock b => exact BEq.comm
      | roles b => cases b <;> rfl
      | _ => rfl

/-- The lock of a tenant protects the numbers of its events. -/
theorem protects_numbers : Protects Guarded Claims where
  refl _ _ := ⟨fun h ↦ h, fun _ _ ↦ rfl⟩
  trans h₁ h₂ := ⟨fun h ↦ h₂.1 (h₁.1 h), fun id hid ↦ (h₂.2 id hid).trans (h₁.2 id hid)⟩
  stable := by
    intro ws db db' hclaims hguarded
    refine ⟨fun id ↦ ?_, hclaims.locked, hclaims.appends⟩
    by_cases hnone : appendedNumbers id ws = []
    · rw [hnone, List.append_nil]
      exact hguarded.1 hclaims.numbered id
    · rw [hguarded.2 id (hclaims.locked id hnone)]
      exact hclaims.counts id
  commit := by
    intro ws db hclaims
    refine ⟨fun id ↦ ?_, fun id h ↦ absurd rfl h, fun u hu ↦ absurd hu List.not_mem_nil⟩
    rw [appendedNumbers, List.filterMap_nil, List.append_nil, hclaims.numbers]
    exact hclaims.counts id
  others := by
    intro ws us db hclaims _ hapart
    refine ⟨fun _ id ↦ ?_, fun id hlock ↦ ?_⟩
    · rw [hclaims.numbers]
      exact hclaims.counts id
    · have hnone : appendedNumbers id ws = [] := by
        by_contra hsome
        have := hapart _ (hclaims.locked id hsome) _ hlock
        have hsame : (id == id) = false := this
        simp at hsame
      rw [hclaims.numbers, hnone, List.append_nil]
  clashes_comm := Write.clashes_comm

/-! ## What the requests keep -/

/-- A write of another table claims no number. -/
theorem Claims.other {ws us : List Write} {db : Database} (h : Claims ws db)
    (hus : ∀ u ∈ us, ∀ v, u ≠ .auditEvents v) : Claims (ws ++ us) db := by
  have hnone : ∀ id, appendedNumbers id (ws ++ us) = appendedNumbers id ws := by
    intro id
    have hus' : appendedNumbers id us = [] := List.filterMap_eq_nil_iff.mpr fun u hu ↦ by
      cases u with
      | auditEvents v => exact absurd rfl (hus _ hu v)
      | _ => rfl
    rw [appendedNumbers, List.filterMap_append]
    exact (congrArg _ hus').trans (List.append_nil _)
  refine ⟨fun id ↦ ?_, fun id hsome ↦ ?_, fun u hu ↦ ?_⟩
  · rw [hnone]
    exact h.counts id
  · rw [hnone] at hsome
    exact List.mem_append_left us (h.locked id hsome)
  · rcases List.mem_append.mp hu with hu | hu
    · exact h.appends u hu
    · exact fun v hv ↦ absurd hv (hus u hu v)

/-- An event with the next number is claimed under the lock of its tenant. -/
theorem Claims.insert {ws : List Write} {db : Database} {event : AuditEventRecord}
    (h : Claims ws db) (hlock : .auditLock event.organizationId ∈ ws)
    (hnext : event.sequence = (numbersOf event.organizationId db ++
      appendedNumbers event.organizationId ws).length + 1) :
    Claims (ws ++ [.auditEvents (.insert event)]) db := by
  have hconcat : ∀ id, appendedNumbers id (ws ++ [.auditEvents (.insert event)]) =
      appendedNumbers id ws ++ (appendedNumber id (.auditEvents (.insert event))).toList := by
    intro id
    rw [appendedNumbers, List.filterMap_append]
    show appendedNumbers id ws ++ _ = _
    rw [List.filterMap_cons]
    cases appendedNumber id (.auditEvents (.insert event)) <;> rfl
  refine ⟨fun id ↦ ?_, fun id hsome ↦ ?_, fun u hu ↦ ?_⟩
  · rw [hconcat, appendedNumber]
    split
    · next hid =>
        rw [← List.append_assoc, Option.toList_some, hnext, hid]
        exact counts_concat (h.counts id)
    · rw [Option.toList_none, List.append_nil]
      exact h.counts id
  · rw [hconcat, appendedNumber] at hsome
    refine List.mem_append_left _ ?_
    split at hsome
    · next hid => exact hid ▸ hlock
    · rw [Option.toList_none, List.append_nil] at hsome
      exact h.locked id hsome
  · rcases List.mem_append.mp hu with hu | hu
    · exact h.appends u hu
    · intro v hv
      rw [List.mem_singleton.mp hu] at hv
      exact ⟨event, (Write.auditEvents.inj hv).symm⟩

/-- Appending an event claims the next number: nobody takes it between the read and the
insertion. -/
theorem keeps_append {R : Type} (event : AuditEventRecord) :
    Keeps Guarded Claims (Audit.append event : Tx R Unit) := by
  intro ws db hclaims db₁ hdb₁
  have hlocked : Claims (ws ++ [.auditLock event.organizationId]) db₁ := by
    refine (protects_numbers.stable hclaims hdb₁).other fun u hu v hv ↦ ?_
    rw [List.mem_singleton.mp hu] at hv
    cases hv
  have hlock : .auditLock event.organizationId ∈ ws ++ [.auditLock event.organizationId] :=
    List.mem_append_right ws List.mem_cons_self
  refine ⟨hlocked, fun db₂ hdb₂ ↦ ?_⟩
  have hread := protects_numbers.stable hlocked hdb₂
  show Claims (ws ++ [.auditLock event.organizationId] ++ []) db₂ ∧ _
  rw [List.append_nil]
  refine ⟨hread, fun db₃ hdb₃ ↦ ?_⟩
  have hinserted := protects_numbers.stable hread hdb₃
  dsimp only
  split
  · rw [List.append_nil]
    exact ⟨hinserted, trivial⟩
  · refine ⟨hinserted.insert hlock ?_, trivial⟩
    show Audit.nextSequence event.organizationId _ = _
    have hnumbers := hread.numbers event.organizationId
    rw [next_sequence_of_counts (hnumbers ▸ hread.counts event.organizationId), hnumbers,
      hdb₃.2 _ hlock]

/-- Every request is made of statements that keep the numbers. -/
theorem composes_numbers : Composes (fun u ↦ ∀ v, u ≠ .auditEvents v)
    fun _ _ p ↦ Keeps Guarded Claims p where
  bind := Keeps.bind
  only hp := by
    refine keeps_of_only (fun ws db db' h hdb ↦ ?_) (fun ws us db h hus ↦ ?_) hp
    · exact protects_numbers.stable h hdb
    · exact h.other hus
  append := keeps_append
  mapOutcome _ _ hp ws db h := keeping_map_outcome.mpr (hp ws db h)

/-- Events are written by appending only. -/
theorem composes_appends : Composes Appends fun _ _ p ↦ p.Only Appends where
  bind := Txn.Only.bind
  only h := h
  append _ := (within_append (fun _ v hv ↦ by cases hv) fun event v hv ↦
    ⟨event, (Write.auditEvents.inj hv).symm⟩).only
  mapOutcome _ := Txn.only_map_outcome.mpr

/-- A condition that admits the writes of all other tables admits what the requests write. -/
theorem allows_access_of_other {P : Write → Prop}
    (h : ∀ u : Write, (∀ v, u ≠ .auditEvents v) → P u) : AllowsAccess P where
  issued _ := h _ fun _ hv ↦ by cases hv
  revoked _ _ _ _ := h _ fun _ hv ↦ by cases hv
  touched _ _ := h _ fun _ hv ↦ by cases hv
  user _ := h _ fun _ hv ↦ by cases hv
  session _ := h _ fun _ hv ↦ by cases hv
  factor _ := h _ fun _ hv ↦ by cases hv
  membership _ := h _ fun _ hv ↦ by cases hv
  link _ := h _ fun _ hv ↦ by cases hv

/-- A write that appends leaves the events that are there where they are. -/
theorem events_prefix_apply {u : Write} (hu : Appends u) (db : Database) :
    db.auditEvents.rows <+: (Store.apply db u).auditEvents.rows := by
  by_cases hother : ∀ v, u ≠ .auditEvents v
  · rw [audit_events_apply hother]
  · push Not at hother
    obtain ⟨v, rfl⟩ := hother
    obtain ⟨event, rfl⟩ := hu v rfl
    show db.auditEvents.rows <+: (db.auditEvents.insert event).rows
    rw [Table.insert]
    split
    · exact List.prefix_rfl
    · exact List.prefix_append _ _

/-- However the requests of tenants interleave, and whichever of them are lost or refused: at every
moment the events of a tenant are numbered one, two, three and so on in the order in which they
were inserted, and the events of an earlier moment are the first ones. -/
theorem audit_chain_numbered (ports : AccessPorts) {db : Database} (hdb : Numbered db)
    (labels more : List (Label AccessRequest)) (organizationId : Uuid) :
    let step := Transaction.step (AccessRequest.program ports)
    let s := Machine.final step ⟨⟨db, []⟩, []⟩ labels
    let later := Machine.final step s more
    numbersOf organizationId later.world.db =
        List.range' 1 (eventsOf organizationId later.world.db).length ∧
      eventsOf organizationId s.world.db <+: eventsOf organizationId later.world.db := by
  intro step s later
  have hkeeps : ∀ (labels : List (Label AccessRequest)) (q : AccessRequest),
      Label.start q ∈ labels → Keeps Guarded Claims (AccessRequest.program ports q) := by
    intro labels q _
    exact composed_access composes_numbers (allows_access_of_other fun _ h ↦ h)
      fun _ _ _ hv ↦ by cases hv
  have happends : ∀ (labels : List (Label AccessRequest)) (q : AccessRequest),
      Label.start q ∈ labels → (AccessRequest.program ports q).Only Appends := by
    intro labels q _
    exact composed_access composes_appends
      (allows_access_of_other fun u h v hv ↦ absurd hv (h v)) fun _ _ _ hv ↦ by cases hv
  constructor
  · have hstart : Server.Kept Guarded Claims
        (⟨⟨db, []⟩, []⟩ : Transaction.Server Database Write AccessRequest
          (Except DomainError AccessAnswer)) := by
      refine ⟨⟨fun id ↦ ?_, fun id h ↦ absurd rfl h, by simp⟩, by simp, List.Pairwise.nil⟩
      rw [appendedNumbers, List.filterMap_nil, List.append_nil]
      exact hdb id
    have hlater := kept_run_of_protects protects_numbers
      (kept_run_of_protects protects_numbers hstart (hkeeps labels)) (hkeeps more)
    have hcounts := hlater.world.numbered organizationId
    unfold Counts at hcounts
    rw [numbersOf, List.length_map] at hcounts
    exact hcounts
  · have hflights := (kept_run (fun a b : Database ↦ a.auditEvents.rows <+: b.auditEvents.rows)
      (fun _ ↦ List.prefix_rfl) .trans (fun _ ↦ events_prefix_apply)
      (s := ⟨⟨db, []⟩, []⟩) (by simp) (happends labels)).1
    exact ((kept_run (fun a b : Database ↦ a.auditEvents.rows <+: b.auditEvents.rows)
      (fun _ ↦ List.prefix_rfl) .trans (fun _ ↦ events_prefix_apply) hflights
      (happends more)).2).filter _

/-- A denied action of the owner. -/
def deniedOnce : AccessRequest :=
  .recordDenied ownerPrincipal (py "role.write") (py "role")

/-- A denied action is recorded while another one waits for the lock. -/
def deniedAtOnce : List (Label AccessRequest) :=
  [.start deniedOnce, .start deniedOnce, .advance 1, .advance 0, .advance 0]

/-- The other one goes on. -/
def deniedThen : List (Label AccessRequest) :=
  [.advance 0, .advance 0, .advance 0, .advance 0]

/-- There is no gap where there is no event. -/
theorem numbered_empty : Numbered .empty :=
  fun _ ↦ rfl

theorem audit_chain_numbered_at_once :
    let step := Transaction.step (AccessRequest.program plainPorts)
    let s := Machine.final step ⟨⟨.empty, []⟩, []⟩ deniedAtOnce
    let later := Machine.final step s deniedThen
    numbersOf ownerPrincipal.organizationId later.world.db = [1, 2] ∧
      eventsOf ownerPrincipal.organizationId s.world.db <+:
        eventsOf ownerPrincipal.organizationId later.world.db := by
  have hlength : (eventsOf ownerPrincipal.organizationId (Machine.final
      (Transaction.step (AccessRequest.program plainPorts)) (Machine.final
        (Transaction.step (AccessRequest.program plainPorts)) ⟨⟨.empty, []⟩, []⟩ deniedAtOnce)
      deniedThen).world.db).length = 2 := by decide +kernel
  obtain ⟨hnumbers, hprefix⟩ := audit_chain_numbered plainPorts numbered_empty deniedAtOnce
    deniedThen ownerPrincipal.organizationId
  rw [hlength] at hnumbers
  exact ⟨hnumbers, hprefix⟩

end Aegis.Access
