import Aegis.Lib.Machine
import Aegis.Gateway.Ingest

/-!
# The gateway under concurrent batches

One gateway process serves many calls of `execute` at once. A call runs without interruption up
to its `await` on the sink and, once the sink has answered, from there to its end; between the
two, other calls start and finish. A label of the machine is one of these two stretches, so a run
is one interleaving, with the answers of the sink and of the quota limiter it happened to meet.
-/

namespace Aegis.Gateway

open Server

/-- One call of `execute`: the agent that made it, and a number that tells its calls apart. -/
structure Call where
  principal : AgentPrincipal
  number : Nat
  deriving DecidableEq

/-- A call that awaits the sink. -/
structure Suspended where
  call : Call
  events : List RuntimeEvent
  result : IngestResult
  outcomes : List LineOutcome

/-- The state of the process: the deduplication cache, what the sink has accepted, and the calls
that await it. -/
structure Service where
  cache : DeduplicationCache
  published : List (StreamOrigin × RuntimeEvent)
  suspended : List Suspended

/-- A process that has served nothing. -/
def Service.initial (capacity : Nat) : Service :=
  ⟨.empty capacity, [], []⟩

/-- What happens next. A call starts with its body and the limiter it will meet at each line; or
the sink answers a call, with the limiter met afterwards when it accepted and `none` when
`publish` raised. -/
inductive Label where
  | start (call : Call) (body : PyBytes) (quota : Nat → QuotaLimiter)
  | finish (call : Call) (publish : Option QuotaLimiter)

/-- The call a label belongs to. -/
def Label.call : Label → Call
  | start call _ _ => call
  | finish call _ => call

/-- What a call has come to. `idle` answers a label for a call that awaits nothing. -/
inductive Status where
  | raised (error : IngestError)
  | returned (result : IngestResult)
  | publishing (events : List RuntimeEvent)
  | idle

/-- What a step shows: what became of the lines of its call, what the call has come to, and what
the sink has taken. -/
structure Reply where
  outcomes : List LineOutcome
  status : Status
  published : List (StreamOrigin × RuntimeEvent)

/-- What the process shows and keeps of a call that has come to its `await` or to its end. -/
def Service.began (s : Service) (call : Call) : Begun × Progress → Reply × Service
  | (.raised error, p) => (⟨p.outcomes, .raised error, []⟩, { s with cache := p.cache })
  | (.returned result, p) => (⟨p.outcomes, .returned result, []⟩, { s with cache := p.cache })
  | (.publishing events result, p) =>
      (⟨p.outcomes, .publishing events, []⟩,
        { s with
          cache := p.cache
          suspended := s.suspended ++ [⟨call, events, result, p.outcomes⟩] })

/-- The process without the first call waiting under this name. -/
def Service.resume (s : Service) (call : Call) : Service :=
  { s with suspended := s.suspended.eraseP fun waiting ↦ waiting.call = call }

variable (config : IngestConfig) (loads : Loads)

/-- What the process shows and keeps of a waiting call the sink has answered. -/
def Service.answered (s : Service) (waiting : Suspended) :
    Option QuotaLimiter → Reply × Service
  | none => (⟨waiting.outcomes, .raised .sinkUnavailable, []⟩, s.resume waiting.call)
  | some quota =>
      let principal := waiting.call.principal
      let taken := waiting.events.map fun event ↦ (principal.origin, event)
      (⟨waiting.outcomes,
        .returned (finishExecute config principal quota waiting.events waiting.result), taken⟩,
        { s.resume waiting.call with published := s.published ++ taken })

/-- One step of the process. -/
def step (s : Service) : Label → Reply × Service
  | .start call body quota =>
      s.began call (beginExecute config loads call.principal quota s.cache body)
  | .finish call publish =>
      match s.suspended.find? (fun waiting ↦ waiting.call = call) with
      | none => (⟨[], .idle, []⟩, s)
      | some waiting => s.answered config waiting publish

/-- A call that begins leaves the cache its loop left. -/
@[simp] theorem Service.began_cache (s : Service) (call : Call) (begun : Begun × Progress) :
    (s.began call begun).2.cache = begun.2.cache := by
  obtain ⟨begun, p⟩ := begun
  cases begun <;> rfl

/-- A call that begins takes nothing from the sink. -/
theorem Service.began_reply (s : Service) (call : Call) (begun : Begun × Progress) :
    (s.began call begun).1.outcomes = begun.2.outcomes ∧
      (s.began call begun).1.published = [] := by
  obtain ⟨begun, p⟩ := begun
  cases begun <;> exact ⟨rfl, rfl⟩

/-- A call that begins joins the waiting calls or leaves them alone. -/
theorem Service.began_suspended (s : Service) (call : Call) (begun : Begun × Progress) :
    (s.began call begun).2.suspended = s.suspended ++
      match begun.1 with
      | .publishing events result => [⟨call, events, result, begun.2.outcomes⟩]
      | _ => [] := by
  obtain ⟨begun, p⟩ := begun
  cases begun <;> simp [Service.began]

/-- The sink's answer ends one waiting call, if there is one, and leaves the cache alone. -/
theorem step_finish (s : Service) (call : Call) (publish : Option QuotaLimiter) :
    (step config loads s (.finish call publish)).2.cache = s.cache ∧
      (step config loads s (.finish call publish)).2.suspended =
        (s.resume call).suspended := by
  unfold step
  dsimp only
  split
  · next hnone =>
      refine ⟨rfl, (List.eraseP_of_forall_not ?_).symm⟩
      simpa using hnone
  · next waiting hfind =>
      obtain rfl : waiting.call = call := by simpa using List.find?_some hfind
      cases publish <;> exact ⟨rfl, rfl⟩

/-- The ids of the events the sink has accepted. -/
def Service.publishedIds (s : Service) : List PyStr :=
  s.published.map fun (_, event) ↦ event.eventId

/-- The ids of the events that calls still await the sink for. -/
def Service.pendingIds (s : Service) : List PyStr :=
  s.suspended.flatMap fun waiting ↦ waiting.events.map (·.eventId)

/-- The well-formed events of the lines the loop can reach, whatever the cache and the quota
answer: it stops at the batch limit and at a line `json.loads` fails on in its own way. -/
def window : Nat → List PyBytes → List RuntimeEvent
  | _, [] => []
  | seen, rawLine :: lines =>
      match readLine config loads seen rawLine with
      | .blank => window seen lines
      | .overLimit | .uncaught => []
      | .malformed _ | .invalid _ => window (seen + 1) lines
      | .event event => event :: window (seen + 1) lines

/-- The ids of the well-formed events of a body. -/
def windowIds (body : PyBytes) : List PyStr :=
  if body.length > config.maxBatchBytes then []
  else (window config loads 0 body.splitlines).map (·.eventId)

/-! ## A sample batch -/

/-- A line that carries one attack. -/
def attackLine : PyBytes :=
  ascii ("\x7b\"event_id\":\"e1\",\"type\":\"EVENT_TYPE_ATTACK\"," ++
    "\"occurred_at_ms\":1,\"attack\":\x7b\x7d\x7d")

/-- `json.loads` on that line; any other line is malformed. -/
def attackLoads : Loads := fun line ↦
  if line = attackLine then
    .ok (.object [(py "event_id", .str (py "e1")), (py "type", .str (py "EVENT_TYPE_ATTACK")),
      (py "occurred_at_ms", .int 1), (py "attack", .object [])])
  else .error (.decode (py "Expecting value"))

/-- The default configuration. -/
def defaultConfig : IngestConfig := ⟨8 * 1024 * 1024, 512, ⟨1 / 2⟩, false⟩

/-- A limiter that refuses nothing. -/
def openQuota : QuotaLimiter := ⟨fun _ _ ↦ true, fun _ ↦ 1, fun _ _ ↦ 0⟩

/-- The call an agent makes, numbered. -/
def agentCall (number : Nat) : Call := ⟨⟨py "agent", py "org", []⟩, number⟩

end Aegis.Gateway
