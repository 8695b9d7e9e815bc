import Aegis.Lib.Machine
import Aegis.Api.Grouping
import Aegis.Worker.Digestion

/-!
# Settling a batch

A turn of the loop with the database available. It settles a batch, that is, commits it with every
event accounted for, exactly when each event is digestible in the state it is folded in. An event
that is not digestible is retried for ever.
-/

namespace Aegis.Worker

open Server Api Gateway

variable {pipeline : ProcessRuntimeEvents}

/-! ## The events of an organization -/

/-- Folding one event, as a step of a machine over the states of a transaction. -/
def foldStep (pipeline : ProcessRuntimeEvents) (organizationId : Uuid) (b : Batch)
    (record : JsonObject) : Unit × Batch :=
  (.unit, (pipeline.foldRecord organizationId record b []).state)

/-- Every event of an organization is digestible in the state it is folded in. -/
def GroupDigestible (pipeline : ProcessRuntimeEvents) (worker : WorkerState)
    (group : Uuid × List JsonObject) : Prop :=
  Machine.Meets (foldStep pipeline group.1) (Digestible pipeline group.1) (worker.begin group.1)
    group.2

/-- The loop over events returns exactly when each of them is digestible. -/
theorem returns_fold_records_iff {organizationId : Uuid} {records : List JsonObject} {b : Batch}
    (hcoherent : b.Coherent pipeline.library) (hvouched : ∀ record ∈ records, Vouched record) :
    Prog.Returns (pipeline.foldRecords organizationId records) b ↔
      Machine.Meets (foldStep pipeline organizationId) (Digestible pipeline organizationId) b
        records := by
  induction records generalizing b with
  | nil => exact iff_of_true (Prog.returns_pure _ _) trivial
  | cons record records ih =>
      obtain ⟨hrecord, hrecords⟩ := List.forall_mem_cons.mp hvouched
      have hdigestible := returns_fold_record_iff organizationId hcoherent
        hrecord
      rw [ProcessRuntimeEvents.foldRecords, Prog.returns_bind_iff settles_fold_record,
        Machine.Meets, ← hdigestible]
      constructor
      · rintro ⟨_, next, hruns, hrest⟩
        have hnext : (foldStep pipeline organizationId b record).2 = next := by
          rw [foldStep, hruns]
        rw [hnext]
        exact ⟨⟨_, next, hruns⟩,
          (ih ((ends_fold_record hcoherent).of_ok hruns).coherent hrecords).mp hrest⟩
      · rintro ⟨⟨_, next, hruns⟩, hrest⟩
        have hnext : (foldStep pipeline organizationId b record).2 = next := by
          rw [foldStep, hruns]
        rw [hnext] at hrest
        exact ⟨_, next, hruns,
          (ih ((ends_fold_record hcoherent).of_ok hruns).coherent hrecords).mpr hrest⟩

/-- The loop over events settles. -/
theorem settles_fold_records (organizationId : Uuid) (records : List JsonObject) :
    Prog.Settles (pipeline.foldRecords organizationId records) := by
  induction records with
  | nil => exact Prog.settles_pure _
  | cons record records ih => exact Prog.settles_bind settles_fold_record fun _ ↦ ih

/-! ## The transactions -/

/-- A transaction, as a step of a machine over the states of the worker. -/
def transactStep (pipeline : ProcessRuntimeEvents) (worker : WorkerState)
    (group : Uuid × List JsonObject) : Unit × WorkerState :=
  (.unit, (pipeline.transaction group worker []).state)

/-- A transaction settles. -/
theorem settles_transaction (group : Uuid × List JsonObject) :
    Prog.Settles (pipeline.transaction group) := by
  intro worker
  have hbody : Prog.Settles (do
      Prog.attempt (.raised .OperationalError)
      pipeline.foldRecords group.1 group.2
      Prog.attempt (.raised .OperationalError)) :=
    Prog.settles_bind (Prog.settles_attempt _) fun _ ↦
      Prog.settles_bind (settles_fold_records _ _) fun _ ↦ Prog.settles_attempt _
  have hfaults := hbody (worker.begin group.1)
  unfold ProcessRuntimeEvents.transaction
  dsimp only
  split
  · next heq =>
      rw [heq] at hfaults
      exact hfaults
  · next heq =>
      rw [heq] at hfaults
      exact hfaults

/-- A transaction is committed exactly when its events are digestible. -/
theorem returns_transaction_iff {group : Uuid × List JsonObject} {worker : WorkerState}
    (hvouched : ∀ record ∈ group.2, Vouched record) :
    Prog.Returns (pipeline.transaction group) worker ↔ GroupDigestible pipeline worker group := by
  have hcoherent : (worker.begin group.1).Coherent pipeline.library := by
    intro _ _ h
    cases h
  rw [GroupDigestible, ← returns_fold_records_iff hcoherent hvouched]
  have hbody : Prog.Returns (do
      Prog.attempt (.raised .OperationalError)
      pipeline.foldRecords group.1 group.2
      Prog.attempt (.raised .OperationalError)) (worker.begin group.1) ↔
      Prog.Returns (pipeline.foldRecords group.1 group.2) (worker.begin group.1) := by
    rw [Prog.returns_bind_of_runs (Prog.runs_attempt _ _),
      Prog.returns_bind_iff (settles_fold_records _ _)]
    exact ⟨fun ⟨a, t, hruns, _⟩ ↦ ⟨a, t, hruns⟩, fun ⟨a, t, hruns⟩ ↦ ⟨a, t, hruns, _, _, rfl⟩⟩
  rw [← hbody]
  unfold ProcessRuntimeEvents.transaction Prog.Returns Prog.Runs
  dsimp only
  constructor
  · rintro ⟨_, after, h⟩
    split at h
    · next batch rest heq =>
        obtain ⟨-, -, rfl⟩ := Ending.mk.inj h
        exact ⟨_, batch, heq⟩
    · cases congrArg Ending.outcome h
  · rintro ⟨_, batch, h⟩
    rw [h]
    exact ⟨_, _, rfl⟩

/-- The transactions of a batch are committed exactly when all events are digestible. -/
theorem returns_transactions_iff {groups : List (Uuid × List JsonObject)} {worker : WorkerState}
    (hvouched : ∀ group ∈ groups, ∀ record ∈ group.2, Vouched record) :
    Prog.Returns (pipeline.transactions groups) worker ↔
      Machine.Meets (transactStep pipeline) (GroupDigestible pipeline) worker groups := by
  induction groups generalizing worker with
  | nil => exact iff_of_true (Prog.returns_pure _ _) trivial
  | cons group groups ih =>
      obtain ⟨hgroup, hgroups⟩ := List.forall_mem_cons.mp hvouched
      rw [ProcessRuntimeEvents.transactions, Prog.returns_bind_iff (settles_transaction group),
        Machine.Meets, ← returns_transaction_iff hgroup]
      constructor
      · rintro ⟨_, next, hruns, hrest⟩
        have hnext : (transactStep pipeline worker group).2 = next := by
          rw [transactStep, hruns]
        rw [hnext]
        exact ⟨⟨_, next, hruns⟩, (ih hgroups).mp hrest⟩
      · rintro ⟨⟨_, next, hruns⟩, hrest⟩
        have hnext : (transactStep pipeline worker group).2 = next := by
          rw [transactStep, hruns]
        rw [hnext] at hrest
        exact ⟨_, next, hruns, (ih hgroups).mpr hrest⟩

/-- The transactions of a batch settle. -/
theorem settles_transactions (groups : List (Uuid × List JsonObject)) :
    Prog.Settles (pipeline.transactions groups) := by
  induction groups with
  | nil => exact Prog.settles_pure _
  | cons group groups ih => exact Prog.settles_bind (settles_transaction group) fun _ ↦ ih

variable (pipeline) in
/-- So does the pipeline. -/
theorem settles_execute (records : List Json) : Prog.Settles (pipeline.execute records) :=
  Prog.settles_bind (Prog.settles_lift _) fun ⟨groups, _⟩ ↦
    Prog.settles_bind (Prog.settles_modify _) fun _ ↦
      Prog.settles_bind (settles_transactions groups) fun _ ↦ Prog.settles_read _

/-! ## The turn -/

/-- The turn that an outcome of `_process_with_retry` leads to when every line was parsed. -/
def Processed.turn : Processed → Turn
  | .returned result => .committed 0 result
  | .stopped => .stopped
  | .retrying => .retrying

variable (pipeline) in
/-- A turn over lines that are objects is what the retries come to. -/
theorem run_loop_turn_objects {records : List JsonObject} (h : records ≠ [])
    (attempts : List Attempt) (worker : WorkerState) :
    (runLoopTurn pipeline (records.map fun record ↦ some (.object record)) attempts worker).1 =
      (processWithRetry pipeline (records.map .object) attempts worker).1.turn := by
  have hrecords : (records.map fun record ↦ some (Json.object record)).filterMap id =
      records.map .object := by
    simp [List.filterMap_map, Function.comp_def]
  have hparsed : ((records.map fun record ↦ some (Json.object record)).filter
      Option.isNone).length = 0 := by
    simp
  unfold runLoopTurn
  rw [hrecords, hparsed]
  simp only [List.isEmpty_iff, List.map_eq_nil_iff, h, if_false]
  rcases processWithRetry pipeline (records.map .object) attempts worker with
    ⟨_ | _ | _, after⟩ <;> rfl

/-- One attempt with the database available. -/
theorem process_with_retry_calm (records : List Json) (worker : WorkerState) :
    (processWithRetry pipeline records [.calm] worker).1 =
      match (pipeline.execute records worker []).outcome with
      | .ok result => .returned result
      | .error _ => .retrying := by
  rw [processWithRetry, show Attempt.calm.faults = [] from rfl]
  rcases pipeline.execute records worker [] with ⟨_ | _, _, _⟩ <;> rfl

/-- Every event of a batch is digestible in the state it is folded in. -/
def BatchDigestible (pipeline : ProcessRuntimeEvents) (worker : WorkerState)
    (records : List JsonObject) : Prop :=
  ∃ groups result,
    groupByTenant pipeline.library (records.map .object) [] .initial = .ok (groups, result) ∧
      Machine.Meets (transactStep pipeline) (GroupDigestible pipeline)
        { worker with result := result } groups

/-- The turn commits the batch, and every event is applied, ignored or rejected and counted. -/
def Settled (pipeline : ProcessRuntimeEvents) (worker : WorkerState)
    (published : List PublishedEvent) : Prop :=
  published = [] ∨ ∃ result,
    (runLoopTurn pipeline (published.map fun event ↦ some (.object event.record)) [.calm]
      worker).1 = .committed 0 result ∧ result.accounted = published.length

/-- With the database available `execute` returns exactly when every event is digestible, and then
its result accounts for each of them. -/
theorem returns_execute_iff (pipeline : ProcessRuntimeEvents) (worker : WorkerState)
    {records : List JsonObject} (hvouched : ∀ record ∈ records, Vouched record) :
    (Prog.Returns (pipeline.execute (records.map .object)) worker ↔
        BatchDigestible pipeline worker records) ∧
      ∀ result after, Prog.Runs (pipeline.execute (records.map .object)) worker result after →
        result.accounted = records.length := by
  obtain ⟨⟨groups, result⟩, hgroups, hsplit⟩ :=
    split_group_by_tenant pipeline.library records [] .initial
  have hnodup : (groups.map Prod.fst).Nodup := hsplit.nodup List.nodup_nil
  have hsize : result.accounted + eventCount groups = records.length := by
    simpa [ProcessingResult.accounted, ProcessingResult.processed, ProcessingResult.initial,
      eventCount] using hsplit.accounted
  have hevents : ∀ group ∈ groups, ∀ record ∈ group.2, Vouched record := by
    intro group hgroup record hrecord
    rw [← records_of_mem hnodup hgroup, hsplit.events] at hrecord
    rcases List.mem_append.mp hrecord with hnone | hmem
    · cases hnone
    · exact hvouched record (List.mem_of_mem_filter hmem)
  have hexecute : pipeline.execute (records.map .object) worker [] =
      (pipeline.transactions groups >>= fun _ ↦ Prog.read WorkerState.result)
        { worker with result := result } [] := by
    unfold ProcessRuntimeEvents.execute
    rw [hgroups]
    rfl
  refine ⟨?_, fun counted after hruns ↦ ?_⟩
  · have hread : Prog.Returns (pipeline.execute (records.map .object)) worker ↔
        Prog.Returns (pipeline.transactions groups) { worker with result := result } := by
      unfold Prog.Returns Prog.Runs
      rw [hexecute]
      show Prog.Returns (pipeline.transactions groups >>= _) _ ↔ _
      rw [Prog.returns_bind_iff (settles_transactions groups)]
      constructor
      · rintro ⟨a, t, hruns, -⟩
        exact ⟨a, t, hruns⟩
      · rintro ⟨a, t, hruns⟩
        exact ⟨a, t, hruns, _, _, rfl⟩
    rw [hread, returns_transactions_iff hevents]
    constructor
    · exact fun hmeets ↦ ⟨groups, result, hgroups, hmeets⟩
    · rintro ⟨groups', result', hgroups', hmeets⟩
      cases hgroups.symm.trans hgroups'
      exact hmeets
  · rw [Prog.Runs, hexecute] at hruns
    have hattempted := attempted_transactions pipeline groups
      { worker with result := result } []
    rcases heq : pipeline.transactions groups { worker with result := result } [] with
      ⟨failure | _, next, rest⟩
    · rw [Prog.bind_of_error heq] at hruns
      cases congrArg Ending.outcome hruns
    · rw [Prog.bind_of_ok heq] at hruns
      rw [heq] at hattempted
      obtain ⟨hcounted, -, -⟩ := Ending.mk.inj hruns
      rw [← Except.ok.inj hcounted, (hattempted.complete _ rfl).2]
      exact hsize

/-- A turn settles a batch of published events exactly when each of them is digestible in the state
it is folded in. -/
theorem settled_iff (pipeline : ProcessRuntimeEvents) (worker : WorkerState)
    (published : List PublishedEvent) :
    Settled pipeline worker published ↔
      BatchDigestible pipeline worker (published.map PublishedEvent.record) := by
  have hvouched : ∀ record ∈ published.map PublishedEvent.record, Vouched record := by
    intro record hrecord
    obtain ⟨event, -, rfl⟩ := List.mem_map.mp hrecord
    exact vouched_record event
  obtain ⟨hreturns, haccounted⟩ := returns_execute_iff pipeline worker hvouched
  rw [← hreturns]
  cases published with
  | nil => exact iff_of_true (.inl rfl) ⟨_, _, rfl⟩
  | cons event events =>
      have hlines : ((event :: events).map fun event ↦ some (Json.object event.record)) =
          ((event :: events).map PublishedEvent.record).map fun record ↦
            some (.object record) := by
        rw [List.map_map]
        rfl
      unfold Settled
      rw [hlines, run_loop_turn_objects _ (by simp), process_with_retry_calm]
      have hsettles := settles_execute pipeline
        (((event :: events).map PublishedEvent.record).map .object) worker
      unfold Prog.Returns Prog.Runs
      rcases hends : pipeline.execute (((event :: events).map PublishedEvent.record).map .object)
        worker [] with ⟨failure | result, after, rest⟩ <;> rw [hends] at hsettles <;>
        cases hsettles
      · refine iff_of_false ?_ fun ⟨_, _, hok⟩ ↦ nomatch congrArg Ending.outcome hok
        rintro (hempty | ⟨result, hturn, -⟩)
        · cases hempty
        · cases hturn
      · refine iff_of_true (.inr ⟨result, rfl, ?_⟩) ⟨_, _, rfl⟩
        rw [haccounted result after hends, List.length_map]

/-! ## An event that is retried for ever -/

variable (pipeline) in
/-- The agents of an organization are the same after an attempt, however it ends. -/
theorem agents_execute (records : List Json) (worker : WorkerState) (faults : List Bool)
    (id : Uuid) :
    ((pipeline.execute records worker faults).state.database id).agents =
      (worker.database id).agents := by
  unfold ProcessRuntimeEvents.execute
  cases hgroups : groupByTenant pipeline.library records [] .initial with
  | error e => rfl
  | ok after =>
      obtain ⟨groups, result⟩ := after
      exact (congrArg (fun w : WorkerState ↦ (w.database id).agents)
        (Prog.state_bind_read _ _ _ _)).trans
          ((attempted_transactions pipeline groups { worker with result := result } faults).agents id)

/-- A batch that no state of the database with these agents digests is retried for ever. -/
theorem process_with_retry_replicate {records : List JsonObject} {worker : WorkerState}
    (hvouched : ∀ record ∈ records, Vouched record)
    (h : ∀ other : WorkerState,
      (∀ id, (other.database id).agents = (worker.database id).agents) →
        ¬ BatchDigestible pipeline other records) (n : Nat) :
    (processWithRetry pipeline (records.map .object) (List.replicate n .calm) worker).1 =
      .retrying := by
  induction n generalizing worker with
  | zero => rfl
  | succ n ih =>
      have hagents := agents_execute pipeline (records.map .object) worker []
      have hsettles := settles_execute pipeline (records.map .object) worker
      have hreturns := (returns_execute_iff pipeline worker hvouched).1
      rw [List.replicate_succ, processWithRetry, show Attempt.calm.faults = [] from rfl]
      rcases heq : pipeline.execute (records.map .object) worker [] with
        ⟨failure | result, after, rest⟩ <;> rw [heq] at hsettles hagents <;> cases hsettles
      · exact ih fun other hother ↦ h other fun id ↦ (hother id).trans (hagents id)
      · exact absurd (hreturns.mp ⟨result, after, heq⟩) (h worker fun _ ↦ rfl)

/-- A taint hit of an agent whose clock is past the year 9999. -/
def exampleEvent : PublishedEvent where
  origin := ⟨py "00000000-0000-0000-0000-000000000001",
    py "00000000-0000-0000-0000-000000000002", py "00000000-0000-0000-0000-000000000003"⟩
  event := ⟨py "e1", .TAINT_HIT, 253402300800000, 0, [], false, exampleHit⟩
  accepted := ⟨.object [(py "event_id", .str (py "e1")),
    (py "type", .str (py "EVENT_TYPE_TAINT_HIT")), (py "occurred_at_ms", .int 253402300800000),
    (py "taint_hit", .object exampleHit)], rfl⟩

/-- The event is admitted, and its time is not one a `datetime` can hold. -/
theorem not_digestible_example {worker : WorkerState}
    (h : ∀ id, (worker.database id).agents = (exampleWorker.database id).agents) :
    ¬ BatchDigestible examplePipeline worker [exampleEvent.record] := by
  rintro ⟨groups, result, hgroups, hmeets⟩
  have horganization : organizationOf plainLibrary exampleEvent.record = some 1 := by decide
  have hsplit : groupByTenant plainLibrary [.object exampleEvent.record] [] .initial =
      .ok ([(1, [exampleEvent.record])], .initial) := by
    rw [organizationOf] at horganization
    rw [groupByTenant, horganization]
    rfl
  obtain ⟨hit, hadmitted⟩ := Option.isSome_iff_exists.mp (show
    (admitted plainLibrary (exampleWorker.database 1) exampleEvent.record).isSome = true by decide)
  cases hsplit.symm.trans hgroups
  obtain ⟨⟨hdigestible, -⟩, -⟩ := hmeets
  have hfits := hdigestible hit ((admitted_congr (h 1) _).trans hadmitted)
  exact absurd (hfits.time 253402300800000 rfl) (lt_irrefl _)

/-- The event is retried for ever, and never settles. -/
theorem example_event_retried :
    ¬ Settled examplePipeline exampleWorker [exampleEvent] ∧
      ∀ n, (runLoopTurn examplePipeline [some (.object exampleEvent.record)]
        (List.replicate n .calm) exampleWorker).1 = .retrying := by
  have hvouched : ∀ record ∈ [exampleEvent.record], Vouched record :=
    List.forall_mem_singleton.mpr (vouched_record exampleEvent)
  have hretried (n : Nat) : (runLoopTurn examplePipeline [some (.object exampleEvent.record)]
      (List.replicate n .calm) exampleWorker).1 = .retrying := by
    have hturn := run_loop_turn_objects examplePipeline (List.cons_ne_nil exampleEvent.record []) (List.replicate n .calm) exampleWorker
    rw [process_with_retry_replicate hvouched fun _ ↦ not_digestible_example] at hturn
    exact hturn
  refine ⟨?_, hretried⟩
  rintro (hempty | ⟨result, hturn, -⟩)
  · cases hempty
  · rw [List.map_singleton] at hturn
    cases (hretried 1).symm.trans hturn

end Aegis.Worker
