import Aegis.Api.RuntimeEvents

/-!
# The loop of the worker

`_process_with_retry` and one turn of `_run_loop`: poll, parse, fold, commit. What the environment
does is a list of attempts, one for each call of `execute` that the turn may make.
-/

namespace Aegis.Worker

open Server Api

/-- What an attempt meets: which database operations fail, and whether a shutdown has been
requested when the sleep after a failure ends. -/
structure Attempt where
  faults : List Bool
  shutdown : Bool

/-- An attempt that finds the database available. -/
def Attempt.calm : Attempt := ⟨[], false⟩

/-- How `_process_with_retry` stands: it returned a result or `None`, or it still retries. -/
inductive Processed where
  | returned (result : ProcessingResult)
  | stopped
  | retrying
  deriving DecidableEq

/-- The result that was returned. -/
def Processed.result? : Processed → Option ProcessingResult
  | .returned result => some result
  | .stopped | .retrying => none

/-- A result that is there was returned. -/
theorem Processed.eq_returned {ending : Processed × WorkerState} {result : ProcessingResult}
    (h : ending.1.result? = some result) : ending = (.returned result, ending.2) := by
  obtain ⟨processed, worker⟩ := ending
  cases processed <;> cases h
  rfl

variable (pipeline : ProcessRuntimeEvents)

/-- `_process_with_retry`, as far as the attempts go. -/
def processWithRetry (records : List Json) :
    List Attempt → WorkerState → Processed × WorkerState
  | [], worker => (.retrying, worker)
  | attempt :: attempts, worker =>
      match pipeline.execute records worker attempt.faults with
      | ⟨.ok result, worker, _⟩ => (.returned result, worker)
      | ⟨.error _, worker, _⟩ =>
          if attempt.shutdown then (.stopped, worker)
          else processWithRetry records attempts worker

/-- What a turn of `_run_loop` came to. Only a committed turn moves the position of the source. -/
inductive Turn where
  /-- There was nothing to poll. -/
  | idle
  /-- The batch was processed and the position moved past it. -/
  | committed (rejectedAtParse : Nat) (result : ProcessingResult)
  /-- A shutdown came first; the position stays. -/
  | stopped
  /-- The batch is still being retried. -/
  | retrying
  deriving DecidableEq

/-- One turn of `_run_loop` over polled lines. A line is what `json.loads` makes of it, `none` for a
`JSONDecodeError`. -/
def runLoopTurn (lines : List (Option Json)) (attempts : List Attempt) (worker : WorkerState) :
    Turn × WorkerState :=
  if lines.isEmpty then (.idle, worker)
  else
    let records := lines.filterMap id
    let rejectedAtParse := (lines.filter Option.isNone).length
    if records.isEmpty then (.committed rejectedAtParse .initial, worker)
    else
      match processWithRetry pipeline records attempts worker with
      | (.returned result, worker) => (.committed rejectedAtParse result, worker)
      | (.stopped, worker) => (.stopped, worker)
      | (.retrying, worker) => (.retrying, worker)

/-! ## A worker to try -/

/-- An agent in production. -/
def exampleContext : AgentContext :=
  ⟨3, .PRODUCTION, true, .HIGH, .MONITOR⟩

/-- A pipeline over plain text. -/
def examplePipeline : ProcessRuntimeEvents :=
  ⟨plainLibrary, fun _ ↦ 0, fun n ↦ BitVec.ofNat _ n, 3600000000⟩

/-- A worker of organizations that have an agent and no finding. -/
def exampleWorker : WorkerState :=
  ⟨fun _ ↦ .fresh [(2, exampleContext)], .initial, [], 0⟩

/-- The payload of an SQL injection. -/
def exampleHit : JsonObject :=
  [(py "rule_key", .str (py "sql-injection")),
    (py "sink_signature", .str (py "Statement.execute")),
    (py "stack_fingerprint", .str (py "f"))]

/-- A hit of an agent, at some time. -/
def hitAt (millis : Int) : JsonObject :=
  [(py "organization_id", .str (py "00000000-0000-0000-0000-000000000001")),
    (py "agent_id", .str (py "00000000-0000-0000-0000-000000000002")),
    (py "type", .str (py "EVENT_TYPE_TAINT_HIT")), (py "occurred_at_ms", .int millis),
    (py "payload", .object exampleHit)]

end Aegis.Worker
