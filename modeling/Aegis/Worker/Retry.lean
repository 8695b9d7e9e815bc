import Aegis.Api.Grouping
import Aegis.Worker.Loop

/-!
# Folding under retry

A batch is several transactions and a retry replays all of it. `sightings_of_returned` says what a
batch adds to each finding by the time `_process_with_retry` returns: each event once, and once more
for each failed attempt that had committed the transaction of its organization.
-/

namespace Aegis.Worker

open Server Api

/-! ## One attempt -/

/-- The groups of a batch that an attempt commits. -/
def committedBy (pipeline : ProcessRuntimeEvents) (records : List JsonObject)
    (worker : WorkerState) (faults : List Bool) : List (Uuid × List JsonObject) :=
  match groupByTenant pipeline.library (records.map .object) [] .initial with
  | .ok (groups, result) => committedGroups pipeline groups { worker with result := result } faults
  | .error _ => []

/-- The events of a batch that are of an organization. -/
def eventsOf (lib : Library) (organizationId : Uuid) (records : List JsonObject) :
    List JsonObject :=
  records.filter fun record ↦ organizationOf lib record = some organizationId

/-- What the groups of a batch add to a finding, its events add. -/
theorem added_by_groups {pipeline : ProcessRuntimeEvents} {organizationId : Uuid} {tenant : Tenant}
    {identity : PyStr} {groups : List (Uuid × List JsonObject)}
    (hnodup : (groups.map Prod.fst).Nodup) :
    addedBy pipeline organizationId tenant identity groups =
      foldedCount pipeline organizationId tenant identity (recordsOf groups organizationId) := by
  induction groups with
  | nil => rfl
  | cons group groups ih =>
      rw [List.map_cons, List.nodup_cons] at hnodup
      have hrest := ih hnodup.2
      unfold addedBy recordsOf at hrest ⊢
      rw [List.map_cons, List.sum_cons, hrest, List.lookup_cons]
      by_cases hsame : organizationId = group.1
      · have hnone : groups.lookup organizationId = none := by
          rw [List.lookup_eq_none_iff]
          intro other hother
          refine bne_iff_ne.mpr fun heq ↦ hnodup.1 ?_
          rw [← hsame, heq]
          exact List.mem_map_of_mem hother
        rw [hnone, if_pos hsame, hsame, beq_self_eq_true]
        simp [foldedCount]
      · rw [if_neg hsame, beq_eq_false_iff_ne.mpr hsame, Nat.zero_add]

/-- What an attempt does: it counts the groups it commits, and when it returns these hold every
event of the batch. -/
theorem sightings_execute (pipeline : ProcessRuntimeEvents) (records : List JsonObject)
    (worker : WorkerState) (faults : List Bool) (id : Uuid) (identity : PyStr) :
    let ending := pipeline.execute (records.map .object) worker faults
    (ending.state.database id).agents = (worker.database id).agents ∧
      (ending.state.database id).sightings identity = (worker.database id).sightings identity +
        addedBy pipeline id (worker.database id) identity
          (committedBy pipeline records worker faults) ∧
      ∀ result, ending.outcome = .ok result →
        addedBy pipeline id (worker.database id) identity
            (committedBy pipeline records worker faults) =
          foldedCount pipeline id (worker.database id) identity
            (eventsOf pipeline.library id records) := by
  obtain ⟨⟨groups, result⟩, hgroups, hsplit⟩ :=
    split_group_by_tenant pipeline.library records [] .initial
  have hattempted := attempted_transactions pipeline groups
    { worker with result := result } faults
  have hexecute : pipeline.execute (records.map .object) worker faults =
      (pipeline.transactions groups >>= fun _ ↦ Prog.read WorkerState.result)
        { worker with result := result } faults := by
    unfold ProcessRuntimeEvents.execute
    rw [hgroups]
    rfl
  have hcommitted : committedBy pipeline records worker faults =
      committedGroups pipeline groups { worker with result := result } faults := by
    rw [committedBy, hgroups]
  intro ending
  have hending : ending = _ := hexecute
  rw [hending, hcommitted, Prog.state_bind_read]
  refine ⟨hattempted.agents id, hattempted.sightings id identity, fun counted hok ↦ ?_⟩
  rcases heq : pipeline.transactions groups { worker with result := result } faults with
    ⟨failure | done, after, rest⟩
  · rw [Prog.bind_of_error heq] at hok
    cases hok
  · rw [heq] at hattempted
    rw [(hattempted.complete done rfl).1, added_by_groups (hsplit.nodup List.nodup_nil),
      hsplit.events]
    rfl

/-! ## All attempts -/

/-- How often the attempts that failed folded an event of an organization into a finding. -/
def refolded (pipeline : ProcessRuntimeEvents) (records : List JsonObject) (organizationId : Uuid)
    (identity : PyStr) : List Attempt → WorkerState → Nat
  | [], _ => 0
  | attempt :: attempts, worker =>
      match pipeline.execute (records.map .object) worker attempt.faults with
      | ⟨.ok _, _, _⟩ => 0
      | ⟨.error _, after, _⟩ =>
          addedBy pipeline organizationId (worker.database organizationId) identity
              (committedBy pipeline records worker attempt.faults) +
            if attempt.shutdown then 0
            else refolded pipeline records organizationId identity attempts after

/-- Once `_process_with_retry` returns, each event of the batch that becomes part of a finding has
been folded once, and once more for each failed attempt that had committed the transaction of its
organization. -/
theorem sightings_of_returned (pipeline : ProcessRuntimeEvents) (records : List JsonObject)
    (attempts : List Attempt) (worker after : WorkerState) (result : ProcessingResult)
    (hreturned : processWithRetry pipeline (records.map .object) attempts worker =
      (.returned result, after)) (id : Uuid) (identity : PyStr) :
    (after.database id).sightings identity = (worker.database id).sightings identity +
      foldedCount pipeline id (worker.database id) identity
        (eventsOf pipeline.library id records) +
      refolded pipeline records id identity attempts worker := by
  induction attempts generalizing worker with
  | nil => cases hreturned
  | cons attempt attempts ih =>
      obtain ⟨hagents, hsightings, hcomplete⟩ :=
        sightings_execute pipeline records worker attempt.faults id identity
      unfold processWithRetry at hreturned
      unfold refolded
      rcases heq : pipeline.execute (records.map .object) worker attempt.faults with
        ⟨failure | counted, next, rest⟩ <;>
        rw [heq] at hreturned hagents hsightings hcomplete
      · dsimp only at hreturned hagents hsightings ⊢
        split at hreturned
        · cases hreturned
        · next hshutdown =>
            rw [ih next hreturned, hsightings, if_neg hshutdown]
            have hcount : foldedCount pipeline id (next.database id) identity
                (eventsOf pipeline.library id records) =
                foldedCount pipeline id (worker.database id) identity
                  (eventsOf pipeline.library id records) :=
              folded_count_congr hagents _ _
            omega
      · obtain ⟨-, rfl⟩ := Prod.mk.inj hreturned
        rw [hsightings, hcomplete counted rfl, Nat.add_zero]

/-! ## A batch of two organizations -/

/-- A taint hit of one organization and a route of another. -/
def exampleRecords : List JsonObject :=
  [[(py "organization_id", .str (py "00000000-0000-0000-0000-000000000001")),
      (py "agent_id", .str (py "00000000-0000-0000-0000-000000000002")),
      (py "type", .str (py "EVENT_TYPE_TAINT_HIT")), (py "occurred_at_ms", .int 1),
      (py "payload", .object exampleHit)],
    [(py "organization_id", .str (py "00000000-0000-0000-0000-000000000004")),
      (py "type", .str (py "EVENT_TYPE_ROUTE"))]]

/-- The transaction of the second organization fails once. -/
def exampleAttempts : List Attempt :=
  [⟨[false, false, false, false, false, false, true], false⟩, .calm]

/-- The identity of the finding the hit becomes part of. -/
def exampleIdentity : PyStr :=
  PyStr.hex 64 0

/-- The second attempt returns. -/
theorem example_returns :
    ((processWithRetry examplePipeline (exampleRecords.map .object) exampleAttempts
      exampleWorker).1.result?).isSome = true := by
  decide +kernel

/-- The hit is one event, and is counted twice. -/
theorem example_counted_twice :
    ((processWithRetry examplePipeline (exampleRecords.map .object) exampleAttempts
        exampleWorker).1.result?).isSome = true ∧
      (exampleWorker.database 1).sightings exampleIdentity = 0 ∧
      foldedCount examplePipeline 1 (exampleWorker.database 1) exampleIdentity
        (eventsOf plainLibrary 1 exampleRecords) = 1 ∧
      ((processWithRetry examplePipeline (exampleRecords.map .object) exampleAttempts
        exampleWorker).2.database 1).sightings exampleIdentity = 2 :=
  ⟨example_returns, by decide +kernel, by decide +kernel, by decide +kernel⟩

/-- What `sightings_of_returned` says of the batch. -/
theorem example_sightings_of_returned :
    ((processWithRetry examplePipeline (exampleRecords.map .object) exampleAttempts
        exampleWorker).2.database 1).sightings exampleIdentity =
      (exampleWorker.database 1).sightings exampleIdentity +
        foldedCount examplePipeline 1 (exampleWorker.database 1) exampleIdentity
          (eventsOf examplePipeline.library 1 exampleRecords) +
        refolded examplePipeline exampleRecords 1 exampleIdentity exampleAttempts
          exampleWorker := by
  obtain ⟨result, hresult⟩ := Option.isSome_iff_exists.mp example_returns
  exact sightings_of_returned examplePipeline exampleRecords exampleAttempts exampleWorker _
    result (Processed.eq_returned hresult) 1 exampleIdentity

end Aegis.Worker
