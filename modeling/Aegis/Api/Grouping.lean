import Aegis.Api.Accounting

/-!
# A batch and its transactions

How `_group_by_tenant` splits a batch, and what the transactions of a batch come to: each event is
accounted for once, and a transaction that fails leaves the database as it was.
-/

namespace Aegis.Api

open Server

variable {pipeline : ProcessRuntimeEvents}

/-! ## The events of an organization -/

/-- The organization an event names. -/
def organizationOf (lib : Library) (record : JsonObject) : Option Uuid :=
  lib.parseUuid ((dictGet record (py "organization_id")).toStr lib)

/-- The events that groups hold for an organization. -/
def recordsOf (groups : List (Uuid × List JsonObject)) (organizationId : Uuid) : List JsonObject :=
  (groups.lookup organizationId).getD []

/-- The number of events that groups hold. -/
def eventCount (groups : List (Uuid × List JsonObject)) : Nat :=
  (groups.map fun group ↦ group.2.length).sum

/-- An event is put at the end of those of its organization. -/
theorem records_of_insert_group (organizationId : Uuid) (record : JsonObject)
    (groups : List (Uuid × List JsonObject)) (other : Uuid) :
    recordsOf (insertGroup organizationId record groups) other =
      recordsOf groups other ++ if other = organizationId then [record] else [] := by
  induction groups with
  | nil =>
      rw [insertGroup, recordsOf, List.lookup_cons]
      by_cases h : other = organizationId
      · simp [h, recordsOf]
      · simp [beq_eq_false_iff_ne.mpr h, h, recordsOf]
  | cons group groups ih =>
      obtain ⟨id, records⟩ := group
      unfold insertGroup
      split
      · next hid =>
          subst hid
          unfold recordsOf
          rw [List.lookup_cons, List.lookup_cons]
          by_cases h : other = id
          · simp [h]
          · simp [beq_eq_false_iff_ne.mpr h, h]
      · next hid =>
          unfold recordsOf at ih ⊢
          rw [List.lookup_cons, List.lookup_cons]
          by_cases h : other = id
          · subst h
            simp [hid]
          · simpa [beq_eq_false_iff_ne.mpr h] using ih

/-- No organization has two groups. -/
theorem nodup_insert_group {organizationId : Uuid} {record : JsonObject}
    {groups : List (Uuid × List JsonObject)} (h : (groups.map Prod.fst).Nodup) :
    ((insertGroup organizationId record groups).map Prod.fst).Nodup ∧
      ∀ id ∈ (insertGroup organizationId record groups).map Prod.fst,
        id = organizationId ∨ id ∈ groups.map Prod.fst := by
  induction groups with
  | nil => simp [insertGroup]
  | cons group groups ih =>
      obtain ⟨id, records⟩ := group
      rw [List.map_cons, List.nodup_cons] at h
      obtain ⟨hnodup, hkeys⟩ := ih h.2
      unfold insertGroup
      split
      · exact ⟨List.nodup_cons.mpr h, fun other hother ↦ .inr hother⟩
      · next hid =>
          rw [List.map_cons, List.nodup_cons]
          refine ⟨⟨fun hmem ↦ ?_, hnodup⟩, fun other hother ↦ ?_⟩
          · rcases hkeys id hmem with heq | hold
            · exact hid heq
            · exact h.1 hold
          · rcases List.mem_cons.mp hother with rfl | hother
            · exact .inr (List.mem_cons_self)
            · exact (hkeys other hother).imp_right (List.mem_cons_of_mem _)

/-- The events of a group are those held for its organization. -/
theorem records_of_mem {groups : List (Uuid × List JsonObject)} {group : Uuid × List JsonObject}
    (hnodup : (groups.map Prod.fst).Nodup) (hmem : group ∈ groups) :
    recordsOf groups group.1 = group.2 := by
  induction groups with
  | nil => cases hmem
  | cons first groups ih =>
      rw [List.map_cons, List.nodup_cons] at hnodup
      unfold recordsOf at ih ⊢
      rw [List.lookup_cons]
      rcases List.mem_cons.mp hmem with rfl | hmem
      · simp
      · have hne : group.1 ≠ first.1 := by
          rintro heq
          exact hnodup.1 (heq ▸ List.mem_map_of_mem hmem)
        rw [beq_eq_false_iff_ne.mpr hne]
        exact ih hnodup.2 hmem

/-- An event adds one to the count. -/
theorem event_count_insert_group (organizationId : Uuid) (record : JsonObject)
    (groups : List (Uuid × List JsonObject)) :
    eventCount (insertGroup organizationId record groups) = eventCount groups + 1 := by
  unfold eventCount
  induction groups with
  | nil => rfl
  | cons group groups ih =>
      unfold insertGroup
      split
      · simp only [List.map_cons, List.sum_cons, List.length_append, List.length_singleton]
        omega
      · simp only [List.map_cons, List.sum_cons, ih]
        omega

/-- What a batch is split into: the events of each organization that is named by a UUID, in their
order, and a rejection for each of the others. -/
structure Split (lib : Library) (records : List JsonObject)
    (before after : List (Uuid × List JsonObject) × ProcessingResult) : Prop where
  events : ∀ organizationId, recordsOf after.1 organizationId =
    recordsOf before.1 organizationId ++
      records.filter fun record ↦ organizationOf lib record = some organizationId
  nodup : (before.1.map Prod.fst).Nodup → (after.1.map Prod.fst).Nodup
  accounted : after.2.accounted + eventCount after.1 =
    before.2.accounted + eventCount before.1 + records.length

/-- `_group_by_tenant` splits a batch of objects. -/
theorem split_group_by_tenant (lib : Library) (records : List JsonObject)
    (groups : List (Uuid × List JsonObject)) (result : ProcessingResult) :
    ∃ after, groupByTenant lib (records.map .object) groups result = .ok after ∧
      Split lib records (groups, result) after := by
  induction records generalizing groups result with
  | nil => exact ⟨_, rfl, fun _ ↦ (List.append_nil _).symm, fun h ↦ h, rfl⟩
  | cons record records ih =>
      rw [List.map_cons, groupByTenant]
      cases horganization : organizationOf lib record with
      | none =>
          rw [organizationOf] at horganization
          rw [horganization]
          obtain ⟨after, hafter, hsplit⟩ := ih groups (result.reject _)
          refine ⟨after, hafter, fun id ↦ ?_, hsplit.nodup, ?_⟩
          · rw [hsplit.events id, List.filter_cons_of_neg]
            rw [organizationOf, horganization]
            simp
          · have haccounted := hsplit.accounted
            dsimp only at haccounted ⊢
            rw [ProcessingResult.accounted_reject] at haccounted
            rw [haccounted, List.length_cons]
            omega
      | some organizationId =>
          rw [organizationOf] at horganization
          rw [horganization]
          obtain ⟨after, hafter, hsplit⟩ := ih (insertGroup organizationId record groups) result
          refine ⟨after, hafter, fun id ↦ ?_, fun h ↦ hsplit.nodup (nodup_insert_group h).1, ?_⟩
          · rw [hsplit.events id, records_of_insert_group, List.filter_cons, List.append_assoc]
            rw [organizationOf, horganization]
            by_cases h : id = organizationId
            · subst h
              simp
            · simp [h, Ne.symm h]
          · have haccounted := hsplit.accounted
            dsimp only at haccounted ⊢
            rw [event_count_insert_group] at haccounted
            rw [haccounted, List.length_cons]
            omega

/-! ## A transaction -/

/-- The sightings of the events of an organization that become part of a finding. -/
def foldedCount (pipeline : ProcessRuntimeEvents) (organizationId : Uuid) (tenant : Tenant)
    (identity : PyStr) (records : List JsonObject) : Nat :=
  records.countP fun record ↦
    foldedIdentity pipeline organizationId tenant record = some identity

/-- The agents of an organization decide what its events are counted for. -/
theorem folded_identity_congr {organizationId : Uuid} {tenant tenant' : Tenant}
    (h : tenant'.agents = tenant.agents) (record : JsonObject) :
    foldedIdentity pipeline organizationId tenant' record =
      foldedIdentity pipeline organizationId tenant record := by
  rw [foldedIdentity, foldedIdentity, admitted_congr h]

/-- The events of an organization were folded, ignored or rejected, each once. -/
structure Batch.TookAll (pipeline : ProcessRuntimeEvents) (organizationId : Uuid)
    (records : List JsonObject) (before after : Batch) : Prop where
  coherent : after.Coherent pipeline.library
  agents : after.tenant.agents = before.tenant.agents
  accounted : after.result.accounted = before.result.accounted + records.length
  sightings : ∀ identity, after.tenant.sightings identity = before.tenant.sightings identity +
    foldedCount pipeline organizationId before.tenant identity records

/-- The loop over the events of an organization takes each of them once. -/
theorem ends_fold_records {organizationId : Uuid} {records : List JsonObject} {b : Batch}
    (h : b.Coherent pipeline.library) :
    Prog.Ends (pipeline.foldRecords organizationId records) b
      (fun _ after ↦ b.TookAll pipeline organizationId records after)
      fun failure _ ↦ failure.Raised := by
  induction records generalizing b with
  | nil => exact Prog.ends_pure ⟨h, rfl, rfl, fun _ ↦ rfl⟩
  | cons record records ih =>
      refine Prog.ends_bind ((ends_fold_record h).mono (fun _ next htook ↦ ?_) fun _ _ h ↦ h)
      refine (ih htook.coherent).mono (fun _ after hrest ↦ ?_) fun _ _ h ↦ h
      refine ⟨hrest.coherent, hrest.agents.trans htook.agents, ?_, fun identity ↦ ?_⟩
      · rw [hrest.accounted, htook.accounted, List.length_cons]
        omega
      · rw [hrest.sightings, htook.sightings, foldedCount, foldedCount, List.countP_cons]
        simp only [folded_identity_congr htook.agents, decide_eq_true_eq]
        omega

/-- A transaction was committed: each event of the organization is accounted for and counted. -/
structure WorkerState.Committed (pipeline : ProcessRuntimeEvents)
    (group : Uuid × List JsonObject) (before after : WorkerState) : Prop where
  agents : ∀ id, (after.database id).agents = (before.database id).agents
  accounted : after.result.accounted = before.result.accounted + group.2.length
  sightings : ∀ id identity, (after.database id).sightings identity =
    (before.database id).sightings identity +
      if id = group.1 then
        foldedCount pipeline id (before.database id) identity group.2
      else 0

variable (pipeline) in
/-- A transaction is committed, or fails and leaves the database as it was. -/
theorem ends_transaction (group : Uuid × List JsonObject) (worker : WorkerState) :
    Prog.Ends (pipeline.transaction group) worker
      (fun _ after ↦ worker.Committed pipeline group after)
      fun _ after ↦ after.database = worker.database := by
  have hbody : Prog.Ends (do
      Prog.attempt (.raised .OperationalError)
      pipeline.foldRecords group.1 group.2
      Prog.attempt (.raised .OperationalError)) (worker.begin group.1)
      (fun _ after ↦ (worker.begin group.1).TookAll pipeline group.1 group.2 after)
      fun failure _ ↦ failure.Raised := by
    refine Prog.ends_bind (Prog.ends_attempt (Prog.ends_bind ?_) ⟨_, rfl⟩)
    refine (ends_fold_records fun _ _ h ↦ ?_).mono
      (fun _ after htook ↦ Prog.ends_attempt htook ⟨_, rfl⟩) fun _ _ h ↦ h
    cases h
  intro faults
  unfold ProcessRuntimeEvents.transaction
  dsimp only
  split
  · next batch rest heq =>
      have htook := hbody.of_ok heq
      refine ⟨fun _ _ ↦ ⟨fun id ↦ ?_, htook.accounted, fun id identity ↦ ?_⟩,
        fun _ herror ↦ (nomatch herror)⟩
      · by_cases hid : id = group.1
        · subst hid
          have hagents : batch.tenant.agents = (worker.database group.1).agents := htook.agents
          simpa [WorkerState.commit] using hagents
        · simp [WorkerState.commit, hid]
      · by_cases hid : id = group.1
        · subst hid
          have hsightings : batch.tenant.sightings identity =
              (worker.database group.1).sightings identity +
                foldedCount pipeline group.1 (worker.database group.1) identity group.2 :=
            htook.sightings identity
          simpa [WorkerState.commit] using hsightings
        · simp [WorkerState.commit, hid]
  · exact ⟨fun _ hok ↦ (nomatch hok), fun _ _ ↦ rfl⟩

/-! ## The transactions of a batch -/

/-- The groups whose transactions are committed before one fails. -/
def committedGroups (pipeline : ProcessRuntimeEvents) :
    List (Uuid × List JsonObject) → WorkerState → List Bool → List (Uuid × List JsonObject)
  | [], _, _ => []
  | group :: groups, worker, faults =>
      match pipeline.transaction group worker faults with
      | ⟨.ok _, worker, faults⟩ => group :: committedGroups pipeline groups worker faults
      | ⟨.error _, _, _⟩ => []

/-- The sightings that groups add to a finding, from the rows of its organization. -/
def addedBy (pipeline : ProcessRuntimeEvents) (organizationId : Uuid) (tenant : Tenant)
    (identity : PyStr) (groups : List (Uuid × List JsonObject)) : Nat :=
  (groups.map fun group ↦
    if organizationId = group.1 then foldedCount pipeline organizationId tenant identity group.2
    else 0).sum

/-- The agents of an organization decide what its events add. -/
theorem folded_count_congr {organizationId : Uuid} {tenant tenant' : Tenant}
    (h : tenant'.agents = tenant.agents) (identity : PyStr) (records : List JsonObject) :
    foldedCount pipeline organizationId tenant' identity records =
      foldedCount pipeline organizationId tenant identity records := by
  unfold foldedCount
  simp only [folded_identity_congr h]

/-- What groups add is a sum. -/
theorem added_by_congr {organizationId : Uuid} {tenant tenant' : Tenant}
    (h : tenant'.agents = tenant.agents) (identity : PyStr)
    (groups : List (Uuid × List JsonObject)) :
    addedBy pipeline organizationId tenant' identity groups =
      addedBy pipeline organizationId tenant identity groups := by
  unfold addedBy
  simp only [folded_count_congr h]

/-- What the transactions of a batch did: the sightings of the groups that were committed are
counted, and all groups are when no transaction failed. -/
structure WorkerState.Attempted (pipeline : ProcessRuntimeEvents)
    (groups committed : List (Uuid × List JsonObject)) (before : WorkerState)
    (ending : Ending Failure WorkerState PUnit) : Prop where
  agents : ∀ id, (ending.state.database id).agents = (before.database id).agents
  sightings : ∀ id identity, (ending.state.database id).sightings identity =
    (before.database id).sightings identity +
      addedBy pipeline id (before.database id) identity committed
  complete : ∀ a, ending.outcome = .ok a →
    committed = groups ∧
      ending.state.result.accounted = before.result.accounted + eventCount groups

variable (pipeline) in
/-- The transactions of a batch count the groups they commit. -/
theorem attempted_transactions (groups : List (Uuid × List JsonObject)) (worker : WorkerState)
    (faults : List Bool) :
    worker.Attempted pipeline groups (committedGroups pipeline groups worker faults)
      (pipeline.transactions groups worker faults) := by
  induction groups generalizing worker faults with
  | nil => exact ⟨fun _ ↦ rfl, fun _ _ ↦ rfl, fun _ _ ↦ ⟨rfl, rfl⟩⟩
  | cons group groups ih =>
      unfold ProcessRuntimeEvents.transactions committedGroups
      have hends := ends_transaction pipeline group worker
      rcases heq : pipeline.transaction group worker faults with ⟨failure | _, next, rest⟩
      · rw [Prog.bind_of_error heq]
        have hsame : next.database = worker.database := hends.of_error heq
        exact ⟨fun id ↦ by rw [hsame], fun id _ ↦ by rw [hsame]; rfl, fun _ h ↦ (nomatch h)⟩
      · rw [Prog.bind_of_ok heq]
        have hcommitted : worker.Committed pipeline group next := hends.of_ok heq
        have hrest := ih next rest
        refine ⟨fun id ↦ (hrest.agents id).trans (hcommitted.agents id), fun id identity ↦ ?_,
          fun a hok ↦ ?_⟩
        · rw [hrest.sightings, hcommitted.sightings, added_by_congr (hcommitted.agents id),
            addedBy, addedBy, List.map_cons, List.sum_cons, Nat.add_assoc]
        · obtain ⟨hgroups, haccounted⟩ := hrest.complete a hok
          refine ⟨congrArg (group :: ·) hgroups, ?_⟩
          rw [haccounted, hcommitted.accounted, eventCount, eventCount, List.map_cons,
            List.sum_cons, Nat.add_assoc]

end Aegis.Api
