import Aegis.Api.History
import Aegis.Worker.Settlement

/-!
# Folding in any order

The worker folds the events of a list in some order and in some batches. The findings it has then
are the same, and exact, whatever the order, exactly when the hits of each finding are at one time
that is not before the finding was seen, and those that make a new finding are as bad as each other.
-/

namespace Aegis.Worker

open Server Api Gateway

variable {pipeline : ProcessRuntimeEvents} {organizationId : Uuid} {record : JsonObject} {hit : Hit}
  {b : Batch}

/-! ## What one event adds -/

/-- What a finding tells of its past. -/
def historyOf (finding : Finding) : History :=
  ⟨finding.severity, finding.confidence, finding.sightings, finding.firstSeenAt, finding.lastSeenAt⟩

/-- What the finding of an identity tells. -/
def history (tenant : Tenant) (identity : PyStr) : Option History :=
  (tenant.rowOf identity).map fun row ↦ historyOf row.val

/-- The time of an event that has one. -/
def observedTime (lib : Library) (record : JsonObject) : Instant :=
  match readMillis lib record with
  | .ok millis => millis * 1000
  | .error _ => 0

/-- What a hit tells. -/
def sightingOf (lib : Library) (record : JsonObject) (hit : Hit) : Sighting :=
  ⟨severityOf lib (dictGet hit.payload (py "severity")),
    confidenceOf lib (dictGet hit.payload (py "confidence")), observedTime lib record⟩

/-- What an event tells of the finding of an identity, if it becomes part of it. -/
def sightingFor (pipeline : ProcessRuntimeEvents) (organizationId : Uuid) (tenant : Tenant)
    (identity : PyStr) (record : JsonObject) : Option Sighting :=
  (admitted pipeline.library tenant record).bind fun hit ↦
    if (pipeline.identify organizationId hit).toOption.map Prod.fst = some identity then
      some (sightingOf pipeline.library record hit)
    else none

/-- What the events of an organization tell of the finding of an identity. -/
def sightingsFor (pipeline : ProcessRuntimeEvents) (organizationId : Uuid) (tenant : Tenant)
    (identity : PyStr) (records : List JsonObject) : List Sighting :=
  records.filterMap (sightingFor pipeline organizationId tenant identity)

/-- A sighting is folded into the history. -/
theorem history_of_see (finding : Finding) (context : AgentContext) (route : PyStr)
    (observedAt : Instant) :
    historyOf (finding.see context route observedAt).1 =
      { historyOf finding with
        count := finding.sightings + 1
        firstSeenAt := some (finding.firstSeenAt.getD observedAt)
        lastSeenAt := some observedAt } := by
  have hcount := finding.sightings_see context route observedAt
  unfold historyOf
  rw [hcount, Finding.see, Finding.counts_record_occurrence, Finding.count_attack_eq]
  rfl

/-- Storing a finding stores its history. -/
theorem history_upsert {tenant tenant' : Tenant} {finding : Finding}
    (h : tenant.upsert finding = .ok tenant') (identity : PyStr) :
    history tenant' identity =
      if identity = finding.identityHash then some (historyOf finding)
      else history tenant identity := by
  have hput : ∃ row : FindingRow, tenant' = tenant.put row ∧
      row.val.identityHash = finding.identityHash ∧ historyOf row.val = historyOf finding := by
    unfold Tenant.upsert at h
    cases hold : tenant.rowOf finding.identityHash with
    | none =>
        rw [hold] at h
        obtain ⟨row, hrow, hput⟩ := Checked.bind_eq_ok.mp h
        cases hput
        unfold Tenant.insertRow at hrow
        split at hrow
        · cases hrow
          exact ⟨_, rfl, rfl, rfl⟩
        · cases hrow
    | some old =>
        rw [hold] at h
        obtain ⟨row, hrow, hput⟩ := Checked.bind_eq_ok.mp h
        cases hput
        unfold Tenant.updateRow at hrow
        split at hrow
        · cases hrow
          exact ⟨_, rfl, (Tenant.identity_of_row_of hold : old.val.identityHash = _), rfl⟩
        · cases hrow
  obtain ⟨row, rfl, hidentity, hhistory⟩ := hput
  unfold history
  rw [Tenant.row_of_put, hidentity]
  split
  · exact congrArg some hhistory
  · rfl

/-- The history is in the rows of findings. -/
theorem history_alike {before after : Batch} (h : before.Alike after) (identity : PyStr) :
    history after.tenant identity = history before.tenant identity := by
  unfold history Tenant.rowOf
  rw [h.findings]

/-- The confidence that is raised is the greater. -/
theorem confidence_raise (finding : Finding) (confidence : Confidence) :
    (finding.raiseConfidence confidence).confidence =
      if confidence.order > finding.confidence.order then confidence else finding.confidence := by
  unfold Finding.raiseConfidence
  split <;> rfl

/-- The time of an event the gateway accepted is the time it is folded at. -/
theorem ends_observed_time (hvouched : Vouched record) :
    Prog.Ends (pipeline.observedAt record) b
      (fun observedAt after ↦ observedAt = observedTime pipeline.library record ∧ b.Alike after)
      fun failure _ ↦ failure.Raised := by
  obtain ⟨millis, htime, hpositive⟩ := hvouched.time
  have hread : readMillis pipeline.library record = .ok millis := by
    rw [readMillis, htime, Json.int_or_int]
  unfold ProcessRuntimeEvents.observedAt
  rw [hread]
  refine Prog.ends_bind (ends_compute (fun read hok ↦ ?_) fun e ↦ ⟨e, rfl⟩)
  cases hok
  rw [if_neg (by omega)]
  refine ends_compute (fun observedAt hfits ↦ ?_) fun e ↦ ⟨e, rfl⟩
  unfold fromTimestamp at hfits
  split at hfits
  · cases hfits
    refine ⟨?_, rfl, rfl, rfl, rfl⟩
    rw [observedTime, hread]
  · cases hfits

/-- The finding a hit is folded into has its identity, and its history goes on with the hit. -/
theorem ends_find_or_create_history (record : JsonObject) (identity stackHash : PyStr) :
    Prog.Ends (pipeline.findOrCreate organizationId hit identity stackHash
        (b.tenant.getByIdentity identity)) b
      (fun finding after ↦ b.Alike after ∧ finding.identityHash = identity ∧
        ∀ context route, some (historyOf (finding.see context route
          (observedTime pipeline.library record)).1) =
          History.recount (history b.tenant identity) [sightingOf pipeline.library record hit])
      fun failure _ ↦ failure.Raised := by
  cases hrow : b.tenant.rowOf identity with
  | none =>
      rw [show b.tenant.getByIdentity identity = none by rw [Tenant.getByIdentity, hrow]; rfl,
        show history b.tenant identity = none by rw [history, hrow]; rfl]
      unfold ProcessRuntimeEvents.findOrCreate ProcessRuntimeEvents.drawId
      refine Prog.ends_bind (Prog.ends_bind (Prog.ends_read (Prog.ends_bind (Prog.ends_modify
        (Prog.ends_pure (ends_compute (fun finding hnew ↦ ?_) fun e ↦ ⟨e, rfl⟩))))))
      refine ⟨⟨rfl, rfl, rfl, rfl⟩, (new_finding_eq_ok hnew).1, fun context route ↦ ?_⟩
      obtain ⟨title, -, hfresh⟩ := Checked.bind_eq_ok.mp hnew
      split at hfresh
      · cases hfresh
      · cases hfresh
        rw [history_of_see]
        refine congrArg some (History.ext rfl ?_ rfl rfl rfl)
        show confidenceOf _ _ = if (confidenceOf _ _).order > 0 then confidenceOf _ _ else _
        cases confidenceOf pipeline.library (dictGet hit.payload (py "confidence")) <;> rfl
  | some row =>
      rw [show b.tenant.getByIdentity identity =
          some { row.val with title := row.val.title.reload } by rw [Tenant.getByIdentity, hrow]; rfl,
        show history b.tenant identity = some (historyOf row.val) by rw [history, hrow]; rfl]
      refine Prog.ends_pure ⟨⟨rfl, rfl, rfl, rfl⟩, ?_, fun context route ↦ ?_⟩
      · rw [Finding.raise_confidence_eq]
        exact Tenant.identity_of_row_of hrow
      · rw [history_of_see, Finding.raise_confidence_eq]
        exact congrArg some (History.ext rfl (confidence_raise _ _) rfl rfl rfl)

/-- A hit that is folded goes into the history of its identity, and into no other. -/
theorem ends_fold_hit_history (hvouched : Vouched record) :
    Prog.Ends (pipeline.foldHit organizationId record hit) b
      (fun _ after ↦ ∃ identity stackHash,
        pipeline.identify organizationId hit = .ok (identity, stackHash) ∧
          ∀ other, history after.tenant other =
            if other = identity then
              History.recount (history b.tenant other) [sightingOf pipeline.library record hit]
            else history b.tenant other)
      fun failure _ ↦ failure.Raised := by
  unfold ProcessRuntimeEvents.foldHit
  refine Prog.ends_bind (ends_compute (fun ⟨identity, stackHash⟩ hidentity ↦ ?_) fun e ↦ ⟨e, rfl⟩)
  refine Prog.ends_bind ((ends_observed_time hvouched).mono
    (fun observedAt timed ⟨hobserved, htimed⟩ ↦ ?_) fun _ _ h ↦ h)
  subst hobserved
  refine Prog.ends_bind (ends_query ?_ fun e ↦ ⟨e, rfl⟩)
  refine Prog.ends_bind ((ends_find_or_create_history record identity stackHash).mono
    (fun finding found ⟨hfound, hhash, hhistory⟩ ↦ ?_) fun _ _ h ↦ h)
  have hsame := finding.same_defect_see hit.context (routeTemplate pipeline.library hit.payload)
    (observedTime pipeline.library record)
  have hseen := hhistory hit.context (routeTemplate pipeline.library hit.payload)
  rcases hsee : finding.see hit.context (routeTemplate pipeline.library hit.payload)
    (observedTime pipeline.library record) with ⟨seen, regressed⟩
  rw [hsee] at hsame hseen
  refine Prog.ends_bind (Prog.ends_modify (Prog.ends_bind (ends_write (fun tenant hupsert ↦ ?_)
    fun e ↦ ⟨e, rfl⟩)))
  refine Prog.ends_bind (Prog.ends_modify (Prog.ends_bind (Prog.ends_modify ?_)))
  refine (ends_keep_evidence seen _).mono (fun _ after hafter ↦ ?_) fun _ _ h ↦ h
  refine ⟨identity, stackHash, hidentity, fun other ↦ ?_⟩
  rw [history_alike hafter]
  show history tenant other = _
  rw [history_upsert hupsert, hsame.identityHash, hhash]
  split
  · next hother =>
      rw [hother, hseen, history_alike htimed]
  · exact (history_alike hfound other).trans (history_alike htimed other)

/-- What an event that is folded, ignored or rejected leaves of the histories. -/
theorem ends_fold_record_history (h : b.Coherent pipeline.library) (hvouched : Vouched record) :
    Prog.Ends (pipeline.foldRecord organizationId record) b
      (fun _ after ↦ ∀ identity, history after.tenant identity =
        History.recount (history b.tenant identity)
          (sightingFor pipeline organizationId b.tenant identity record).toList)
      fun failure _ ↦ failure.Raised := by
  have hnone : admitted pipeline.library b.tenant record = none → ∀ identity,
      history b.tenant identity = History.recount (history b.tenant identity)
        (sightingFor pipeline organizationId b.tenant identity record).toList := by
    intro hadmitted identity
    rw [sightingFor, hadmitted]
    exact (History.recount_nil _).symm
  unfold ProcessRuntimeEvents.foldRecord ProcessRuntimeEvents.apply
  refine Prog.ends_handle ?_
  split
  · next htype =>
    refine Prog.ends_bind fun faults ↦ ?_
    rcases admit_hit_cases h htype faults with
      ⟨contexts, rest, -, hcoherent, ⟨hit, hadmitted, hends⟩ | ⟨rejection, hadmitted, hends⟩⟩ |
        ⟨-, rest, hends⟩
    · rw [hends]
      refine ⟨fun _ heq ↦ ?_, fun _ heq ↦ (nomatch heq)⟩
      cases heq
      refine (ends_fold_hit_history hvouched).mono
        (fun _ after ⟨identity, stackHash, hidentity, hhistory⟩ other ↦ ?_)
        fun failure _ hraised ↦ ?_
      · rw [hhistory other, sightingFor, hadmitted, Option.bind_some, hidentity]
        show _ = History.recount _ (Option.toList (if some identity = some other then _ else _))
        by_cases hother : other = identity
        · rw [if_pos hother, if_pos (congrArg some hother.symm)]
          rfl
        · rw [if_neg hother, if_neg fun heq ↦ hother (Option.some.inj heq).symm]
          exact (History.recount_nil _).symm
      · obtain ⟨exception, rfl⟩ := hraised
        exact Prog.ends_raise ⟨exception, rfl⟩
    · rw [hends]
      refine ⟨fun _ heq ↦ (nomatch heq), fun _ heq ↦ ?_⟩
      cases heq
      exact Prog.ends_modify (hnone hadmitted)
    · rw [hends]
      refine ⟨fun _ heq ↦ (nomatch heq), fun _ heq ↦ ?_⟩
      cases heq
      exact Prog.ends_raise ⟨_, rfl⟩
  · next htype => exact Prog.ends_modify (hnone (if_neg fun hboth ↦ htype hboth.1))

/-! ## What a run adds -/

/-- The agents of an organization decide what its events tell. -/
theorem sightings_for_congr {tenant tenant' : Tenant} (h : tenant'.agents = tenant.agents)
    (identity : PyStr) (records : List JsonObject) :
    sightingsFor pipeline organizationId tenant' identity records =
      sightingsFor pipeline organizationId tenant identity records := by
  unfold sightingsFor sightingFor
  simp only [admitted_congr h]

/-- The events of an organization go into the histories one after another. -/
theorem ends_fold_records_history {records : List JsonObject} (h : b.Coherent pipeline.library)
    (hvouched : ∀ record ∈ records, Vouched record) :
    Prog.Ends (pipeline.foldRecords organizationId records) b
      (fun _ after ↦ ∀ identity, history after.tenant identity =
        History.recount (history b.tenant identity)
          (sightingsFor pipeline organizationId b.tenant identity records))
      fun _ _ ↦ True := by
  induction records generalizing b with
  | nil => exact Prog.ends_pure fun _ ↦ (History.recount_nil _).symm
  | cons record records ih =>
      obtain ⟨hrecord, hrecords⟩ := List.forall_mem_cons.mp hvouched
      refine Prog.ends_bind (((ends_fold_record h).and (ends_fold_record_history h hrecord)).mono
        (fun _ next ⟨htook, hhistory⟩ ↦ ?_) fun _ _ _ ↦ trivial)
      refine (ih htook.coherent hrecords).mono (fun _ after hrest identity ↦ ?_) fun _ _ h ↦ h
      rw [hrest, hhistory, ← History.recount_append, sightings_for_congr htook.agents]
      unfold sightingsFor
      cases hsighting : sightingFor pipeline organizationId b.tenant identity record with
      | none => rw [List.filterMap_cons_none hsighting]; rfl
      | some sighting => rw [List.filterMap_cons_some hsighting]; rfl

/-- What a run of the worker makes of these events of each organization. -/
structure Recorded (pipeline : ProcessRuntimeEvents) (events : Uuid → List JsonObject)
    (before after : WorkerState) : Prop where
  agents : ∀ id, (after.database id).agents = (before.database id).agents
  history : ∀ id identity, history (after.database id) identity =
    History.recount (history (before.database id) identity)
      (sightingsFor pipeline id (before.database id) identity (events id))

theorem Recorded.refl (worker : WorkerState) : Recorded pipeline (fun _ ↦ []) worker worker :=
  ⟨fun _ ↦ rfl, fun _ _ ↦ (History.recount_nil _).symm⟩

theorem Recorded.trans {events events' : Uuid → List JsonObject} {before middle after : WorkerState}
    (h : Recorded pipeline events before middle) (h' : Recorded pipeline events' middle after) :
    Recorded pipeline (fun id ↦ events id ++ events' id) before after where
  agents id := (h'.agents id).trans (h.agents id)
  history id identity := by
    rw [h'.history, h.history, sightings_for_congr (h.agents id), ← History.recount_append]
    unfold sightingsFor
    rw [List.filterMap_append]

/-- A transaction that is committed records the events of its organization. -/
theorem ends_transaction_history (group : Uuid × List JsonObject) (worker : WorkerState)
    (hvouched : ∀ record ∈ group.2, Vouched record) :
    Prog.Ends (pipeline.transaction group) worker
      (fun _ after ↦ Recorded pipeline (fun id ↦ if id = group.1 then group.2 else []) worker after)
      fun _ _ ↦ True := by
  have hcoherent : (worker.begin group.1).Coherent pipeline.library := by
    intro _ _ h
    cases h
  have hbody : Prog.Ends (do
      Prog.attempt (.raised .OperationalError)
      pipeline.foldRecords group.1 group.2
      Prog.attempt (.raised .OperationalError)) (worker.begin group.1)
      (fun _ after ↦ ∀ identity, history after.tenant identity =
        History.recount (history (worker.begin group.1).tenant identity)
          (sightingsFor pipeline group.1 (worker.begin group.1).tenant identity group.2))
      fun _ _ ↦ True := by
    refine Prog.ends_bind (Prog.ends_attempt (Prog.ends_bind ?_) trivial)
    exact (ends_fold_records_history hcoherent hvouched).mono
      (fun _ after h ↦ Prog.ends_attempt h trivial) fun _ _ h ↦ h
  have hhistory : Prog.Ends (pipeline.transaction group) worker
      (fun _ after ↦ ∀ id identity, history (after.database id) identity =
        History.recount (history (worker.database id) identity)
          (sightingsFor pipeline id (worker.database id) identity
            (if id = group.1 then group.2 else []))) fun _ _ ↦ True := by
    intro faults
    unfold ProcessRuntimeEvents.transaction
    dsimp only
    split
    · next batch rest heq =>
        have hrecorded := hbody.of_ok heq
        refine ⟨fun _ _ id identity ↦ ?_, fun _ herror ↦ (nomatch herror)⟩
        by_cases hid : id = group.1
        · subst hid
          have hcommit : (worker.commit group.1 batch).database group.1 = batch.tenant :=
            Function.update_self _ _ _
          rw [hcommit, if_pos rfl]
          exact hrecorded identity
        · have hcommit : (worker.commit group.1 batch).database id = worker.database id :=
            Function.update_of_ne hid _ _
          rw [hcommit, if_neg hid]
          exact (History.recount_nil _).symm
    · exact ⟨fun _ hok ↦ (nomatch hok), fun _ _ ↦ trivial⟩
  exact ((ends_transaction pipeline group worker).and hhistory).mono
    (fun _ _ ⟨hcommitted, hrecorded⟩ ↦ ⟨hcommitted.agents, hrecorded⟩) fun _ _ _ ↦ trivial

/-- The events of an organization in groups of several. -/
def eventsIn (groups : List (Uuid × List JsonObject)) (id : Uuid) : List JsonObject :=
  groups.flatMap fun group ↦ if id = group.1 then group.2 else []

/-- When no organization has two groups, its events are those of its group. -/
theorem events_in_eq_records_of {groups : List (Uuid × List JsonObject)}
    (h : (groups.map Prod.fst).Nodup) (id : Uuid) : eventsIn groups id = recordsOf groups id := by
  induction groups with
  | nil => rfl
  | cons group groups ih =>
      obtain ⟨key, records⟩ := group
      rw [List.map_cons, List.nodup_cons] at h
      rw [eventsIn, List.flatMap_cons, show groups.flatMap _ = eventsIn groups id from rfl, ih h.2]
      unfold recordsOf
      rw [List.lookup_cons]
      by_cases hid : id = key
      · subst hid
        have hnone : groups.lookup id = none := by
          rw [List.lookup_eq_none_iff]
          intro other hother
          rw [bne_iff_ne]
          rintro rfl
          exact h.1 (List.mem_map.mpr ⟨other, hother, rfl⟩)
        rw [hnone, if_pos rfl, beq_self_eq_true]
        exact List.append_nil _
      · rw [if_neg hid, beq_eq_false_iff_ne.mpr hid]
        rfl

/-- The transactions of a batch record the events of all groups. -/
theorem ends_transactions_history {groups : List (Uuid × List JsonObject)} {worker : WorkerState}
    (hvouched : ∀ group ∈ groups, ∀ record ∈ group.2, Vouched record) :
    Prog.Ends (pipeline.transactions groups) worker
      (fun _ after ↦ Recorded pipeline (eventsIn groups) worker after) fun _ _ ↦ True := by
  induction groups generalizing worker with
  | nil => exact Prog.ends_pure (Recorded.refl worker)
  | cons group groups ih =>
      obtain ⟨hgroup, hgroups⟩ := List.forall_mem_cons.mp hvouched
      refine Prog.ends_bind ((ends_transaction_history group worker hgroup).mono
        (fun _ next hnext ↦ ?_) fun _ _ h ↦ h)
      exact (ih hgroups).mono (fun _ after hafter ↦ hnext.trans hafter) fun _ _ h ↦ h

/-- `execute` records the events of each organization. -/
theorem ends_execute_history {records : List JsonObject} {worker : WorkerState}
    (hvouched : ∀ record ∈ records, Vouched record) :
    Prog.Ends (pipeline.execute (records.map .object)) worker
      (fun _ after ↦ Recorded pipeline (fun id ↦ records.filter fun record ↦
        organizationOf pipeline.library record = some id) worker after) fun _ _ ↦ True := by
  obtain ⟨⟨groups, result⟩, hgroups, hsplit⟩ :=
    split_group_by_tenant pipeline.library records [] .initial
  have hnodup := hsplit.nodup List.nodup_nil
  have hevents : eventsIn groups = fun id ↦ records.filter fun record ↦
      organizationOf pipeline.library record = some id := by
    funext id
    rw [events_in_eq_records_of hnodup]
    exact hsplit.events id
  have hgroupsVouched : ∀ group ∈ groups, ∀ record ∈ group.2, Vouched record := by
    intro group hgroup record hrecord
    rw [← records_of_mem hnodup hgroup, ← events_in_eq_records_of hnodup, hevents] at hrecord
    exact hvouched record (List.mem_filter.mp hrecord).1
  unfold ProcessRuntimeEvents.execute
  rw [hgroups]
  refine Prog.ends_bind (Prog.ends_lift (fun _ hok ↦ ?_) fun _ _ ↦ trivial)
  cases hok
  refine Prog.ends_bind (Prog.ends_modify (Prog.ends_bind ?_))
  refine (ends_transactions_history hgroupsVouched).mono (fun _ after hafter ↦ Prog.ends_read ?_)
    fun _ _ h ↦ h
  rw [← hevents]
  exact ⟨hafter.agents, hafter.history⟩

/-- Fold batches one after another. -/
def foldBatches (pipeline : ProcessRuntimeEvents) :
    List (List JsonObject) → Prog Failure WorkerState PUnit
  | [] => pure .unit
  | batch :: batches => do
      let _ ← pipeline.execute (batch.map .object)
      foldBatches pipeline batches

theorem ends_fold_batches {batches : List (List JsonObject)} (worker : WorkerState)
    (hvouched : ∀ record ∈ batches.flatten, Vouched record) :
    Prog.Ends (foldBatches pipeline batches) worker
      (fun _ after ↦ Recorded pipeline (fun id ↦ batches.flatten.filter fun record ↦
        organizationOf pipeline.library record = some id) worker after) fun _ _ ↦ True := by
  induction batches generalizing worker with
  | nil => exact Prog.ends_pure (Recorded.refl worker)
  | cons batch batches ih =>
      rw [List.flatten_cons, List.forall_mem_append] at hvouched
      refine Prog.ends_bind ((ends_execute_history hvouched.1).mono (fun _ next hnext ↦ ?_)
        fun _ _ h ↦ h)
      refine (ih next hvouched.2).mono (fun _ after hafter ↦ ?_) fun _ _ h ↦ h
      simpa only [List.flatten_cons, List.filter_append] using hnext.trans hafter

/-! ## Every order -/

/-- The hits of a finding among some events. -/
def hitsOf (pipeline : ProcessRuntimeEvents) (worker : WorkerState) (records : List JsonObject)
    (id : Uuid) (identity : PyStr) : List Sighting :=
  sightingsFor pipeline id (worker.database id) identity
    (records.filter fun record ↦ organizationOf pipeline.library record = some id)

/-- The worker folds the events in some order and some batches, whatever its clock says and
whichever ids it draws, and comes to this state. -/
def Folds (pipeline : ProcessRuntimeEvents) (worker : WorkerState) (records : List JsonObject)
    (after : WorkerState) : Prop :=
  ∃ now newId batches faults rest, batches.flatten.Perm records ∧
    foldBatches { pipeline with now := now, newId := newId } batches worker faults =
      ⟨.ok .unit, after, rest⟩

/-- Whatever the order and the batches, the findings are the same, and exact. -/
def OrderIndependent (pipeline : ProcessRuntimeEvents) (worker : WorkerState)
    (records : List JsonObject) : Prop :=
  ∀ after after', Folds pipeline worker records after → Folds pipeline worker records after' →
    ∀ id identity, History.Agree (history (worker.database id) identity)
      (hitsOf pipeline worker records id identity) (history (after.database id) identity)
      (history (after'.database id) identity)

theorem folds_of_ok {worker : WorkerState} {records : List JsonObject}
    (batches : List (List JsonObject)) (hperm : batches.flatten.Perm records)
    (hok : (foldBatches pipeline batches worker []).outcome.toBool = true) :
    Folds pipeline worker records (foldBatches pipeline batches worker []).state := by
  refine ⟨pipeline.now, pipeline.newId, batches, [],
    (foldBatches pipeline batches worker []).faults, hperm, ?_⟩
  rcases heq : foldBatches pipeline batches worker [] with ⟨_ | _, _, _⟩
  · rw [heq] at hok
    cases hok
  · rfl

/-- An order of the events is one of the hits. -/
theorem history_of_folds {worker after : WorkerState} {records : List JsonObject}
    (hvouched : ∀ record ∈ records, Vouched record) (h : Folds pipeline worker records after)
    (id : Uuid) (identity : PyStr) :
    ∃ sightings, sightings.Perm (hitsOf pipeline worker records id identity) ∧
      history (after.database id) identity =
        History.recount (history (worker.database id) identity) sightings := by
  obtain ⟨now, newId, batches, faults, rest, hperm, hfolds⟩ := h
  have hrecorded := (ends_fold_batches worker
    fun record hrecord ↦ hvouched record (hperm.subset hrecord)).of_ok hfolds
  exact ⟨_, (hperm.filter _).filterMap _, hrecorded.history id identity⟩

/-- An order of the hits is one of the events. -/
theorem exists_order {worker : WorkerState} {records : List JsonObject} {id : Uuid}
    {identity : PyStr} {sightings : List Sighting}
    (h : sightings.Perm (hitsOf pipeline worker records id identity)) :
    ∃ order : List JsonObject, order.Perm records ∧
      hitsOf pipeline worker order id identity = sightings := by
  have hfilter : ∀ records : List JsonObject, hitsOf pipeline worker records id identity =
      records.filterMap fun record ↦
        if organizationOf pipeline.library record = some id then
          sightingFor pipeline id (worker.database id) identity record
        else none := by
    intro records
    unfold hitsOf sightingsFor
    rw [List.filterMap_filter]
    simp only [decide_eq_true_eq]
  rw [hfilter] at h
  obtain ⟨order, hperm, horder⟩ := History.exists_perm_filter_map h
  exact ⟨order, hperm, (hfilter order).trans horder⟩

/-- Events that can be folded in any order come to the same, and to the exact, findings in every
order and in all batches exactly when the hits of each finding are steady: at one time that is not
before the finding was seen, and as bad as each other where they make it. -/
theorem order_independent_iff (pipeline : ProcessRuntimeEvents) (worker : WorkerState)
    (records : List JsonObject) (hvouched : ∀ record ∈ records, Vouched record)
    (hfolds : ∀ batches : List (List JsonObject), batches.flatten.Perm records →
      Prog.Returns (foldBatches pipeline batches) worker) :
    OrderIndependent pipeline worker records ↔ ∀ id identity,
      History.Steady (history (worker.database id) identity)
        (hitsOf pipeline worker records id identity) := by
  constructor
  · intro h id identity
    have hreach : ∀ sightings, sightings.Perm (hitsOf pipeline worker records id identity) →
        ∃ after, Folds pipeline worker records after ∧ history (after.database id) identity =
          History.recount (history (worker.database id) identity) sightings := by
      intro sightings hperm
      obtain ⟨order, horder, hhits⟩ := exists_order hperm
      have hflat : [order].flatten = order := List.append_nil order
      obtain ⟨_, after, hruns⟩ := hfolds [order] (hflat.symm ▸ horder)
      have hrecorded := (ends_fold_batches worker fun record hrecord ↦
        hvouched record (horder.subset (hflat ▸ hrecord))).of_ok hruns
      refine ⟨after, ⟨_, _, [order], [], [], hflat.symm ▸ horder, hruns⟩, ?_⟩
      rw [hrecorded.history id identity, hflat, ← hhits]
      rfl
    refine History.agree_iff_steady.mp fun sightings sightings' hperm hperm' ↦ ?_
    obtain ⟨after, hafter, hhistory⟩ := hreach sightings hperm
    obtain ⟨after', hafter', hhistory'⟩ := hreach sightings' hperm'
    rw [← hhistory, ← hhistory']
    exact h after after' hafter hafter' id identity
  · intro h after after' hafter hafter' id identity
    obtain ⟨sightings, hperm, hhistory⟩ := history_of_folds hvouched hafter id identity
    obtain ⟨sightings', hperm', hhistory'⟩ := history_of_folds hvouched hafter' id identity
    rw [hhistory, hhistory']
    exact History.agree_iff_steady.mpr (h id identity) sightings sightings' hperm hperm'

/-! ## Two hits of one finding -/

theorem vouched_hit_at {millis : Int} (h : 0 < millis) : Vouched (hitAt millis) := by
  refine ⟨⟨millis, rfl, h⟩, fun _ payload hpayload range hrange ↦ ?_⟩
  obtain rfl : exampleHit = payload := Json.object.inj hpayload
  cases hrange

/-- A worker folds the hit. -/
theorem returns_example_hit :
    Prog.Returns (examplePipeline.execute [.object (hitAt 1)]) exampleWorker := by
  have hsettles := settles_execute examplePipeline [.object (hitAt 1)] exampleWorker
  have hok : (examplePipeline.execute [.object (hitAt 1)] exampleWorker []).outcome.toBool =
      true := by
    decide +kernel
  rcases heq : examplePipeline.execute [.object (hitAt 1)] exampleWorker [] with ⟨_ | _, _, _⟩ <;>
    rw [heq] at hok hsettles <;> cases hok
  cases hsettles
  exact ⟨_, _, heq⟩

/-- The later hit is folded first, or last. -/
theorem example_order_dependent :
    (∀ record ∈ [hitAt 1, hitAt 2], Vouched record) ∧
      ¬ OrderIndependent examplePipeline exampleWorker [hitAt 1, hitAt 2] := by
  refine ⟨fun record hrecord ↦ ?_, fun h ↦ ?_⟩
  · simp only [List.mem_cons, List.not_mem_nil, or_false] at hrecord
    obtain rfl | rfl := hrecord <;> exact vouched_hit_at (by decide)
  · have hagree := (h _ _ (folds_of_ok [[hitAt 1], [hitAt 2]] (List.Perm.refl _)
        (by decide +kernel))
      (folds_of_ok [[hitAt 2], [hitAt 1]] (List.Perm.swap _ _ _)
        (by decide +kernel)) 1
      (PyStr.hex 64 0)).same
    exact absurd hagree (by decide +kernel)

/-- What the batch before came to is forgotten. -/
theorem execute_result (records : List JsonObject) (worker : WorkerState)
    (result : ProcessingResult) (faults : List Bool) :
    pipeline.execute (records.map .object) { worker with result := result } faults =
      pipeline.execute (records.map .object) worker faults := by
  obtain ⟨⟨groups, counted⟩, hgroups, -⟩ :=
    split_group_by_tenant pipeline.library records [] .initial
  unfold ProcessRuntimeEvents.execute
  rw [hgroups]
  rfl

/-- An empty batch does nothing. -/
theorem runs_execute_nil (worker : WorkerState) :
    Prog.Runs (pipeline.execute (([] : List JsonObject).map .object)) worker .initial
      { worker with result := .initial } :=
  rfl

theorem returns_fold_empty {batches : List (List JsonObject)} (h : batches.flatten = [])
    (worker : WorkerState) : Prog.Returns (foldBatches pipeline batches) worker := by
  induction batches generalizing worker with
  | nil => exact Prog.returns_pure _ _
  | cons batch batches ih =>
      obtain ⟨rfl, hrest⟩ := List.append_eq_nil_iff.mp h
      rw [foldBatches, Prog.returns_bind_of_runs (runs_execute_nil worker)]
      exact ih hrest _

/-- One event is folded in a batch of its own, however many empty ones there are. -/
theorem returns_fold_one {batches : List (List JsonObject)} (h : batches.flatten = [record])
    {worker : WorkerState} (hreturns : Prog.Returns (pipeline.execute ([record].map .object)) worker) :
    Prog.Returns (foldBatches pipeline batches) worker := by
  induction batches generalizing worker with
  | nil => cases h
  | cons batch batches ih =>
      rw [foldBatches]
      cases batch with
      | nil =>
          rw [Prog.returns_bind_of_runs (runs_execute_nil worker)]
          refine ih h ?_
          unfold Prog.Returns Prog.Runs at hreturns ⊢
          simpa only [execute_result] using hreturns
      | cons first batch =>
          rw [List.flatten_cons, List.cons_append, List.cons.injEq, List.append_eq_nil_iff] at h
          obtain ⟨rfl, rfl, hrest⟩ := h
          obtain ⟨_, after, hruns⟩ := hreturns
          rw [Prog.returns_bind_of_runs hruns]
          exact returns_fold_empty hrest after

/-- One hit is one order. -/
theorem order_independent_iff_one_hit :
    OrderIndependent examplePipeline exampleWorker [hitAt 1] ↔ ∀ id identity,
      History.Steady (history (exampleWorker.database id) identity)
        (hitsOf examplePipeline exampleWorker [hitAt 1] id identity) :=
  order_independent_iff examplePipeline exampleWorker [hitAt 1]
    (List.forall_mem_singleton.mpr (vouched_hit_at (by decide)))
    fun _ hperm ↦ returns_fold_one (List.perm_singleton.mp hperm) returns_example_hit

end Aegis.Worker
