import Mathlib.Data.Rat.Floor
import Aegis.Lib.Lru
import Aegis.Gateway.Event

/-!
# The ingest use case

`IngestEvents.execute` of the gateway up to its one `await`: it reads a batch line by line, asks
the deduplication cache and the quota limiter about each event, and ends by raising, by returning,
or by handing the admitted events to the sink. `json.loads` and the quota limiter are parameters:
the first may raise anything on any line, the second may answer anything at every line.
-/

namespace Aegis.Gateway

open Server

/-- An authenticated agent. -/
structure AgentPrincipal where
  agentId : PyStr
  organizationId : PyStr
  environmentId : PyStr
  deriving DecidableEq

/-- Who produced a batch, taken from the credential. -/
structure StreamOrigin where
  organizationId : PyStr
  agentId : PyStr
  environmentId : PyStr
  deriving DecidableEq

/-- The origin a principal's events are stamped with. -/
def AgentPrincipal.origin (principal : AgentPrincipal) : StreamOrigin :=
  ⟨principal.organizationId, principal.agentId, principal.environmentId⟩

/-- What `json.loads` raises: a `JSONDecodeError`, or anything else, such as the
`UnicodeDecodeError` of bytes that are not text. -/
inductive LoadsError where
  | decode (message : PyStr)
  | other

/-- `json.loads` over bytes. -/
abbrev Loads := PyBytes → Except LoadsError Json

/-! ## Ports -/

/-- The quota limiter as it stands at one moment. -/
structure QuotaLimiter where
  check : PyStr → ℚ → Bool
  remainingFraction : PyStr → ℚ
  retryAfterSeconds : PyStr → ℚ → Int

/-- Decides what to discard when the tenant is over quota. -/
structure SheddingPolicy where
  comfortableFraction : ℚ

/-- Security signal is never shed. -/
def SheddingPolicy.shouldAccept (policy : SheddingPolicy) (type : EventType)
    (remaining : ℚ) : Bool :=
  type.isSecuritySignal || decide (1 - policy.comfortableFraction ≤ remaining)

/-- Quota cost of one event. -/
def SheddingPolicy.cost (_ : SheddingPolicy) (type : EventType) : ℚ :=
  if type.isSecuritySignal then 1 / 2 else 1

/-- `LruDeduplicationCache`: a bounded set of recently seen event ids, most recent first. -/
structure DeduplicationCache where
  capacity : Nat
  entries : List PyStr
  nodup : entries.Nodup
  bounded : entries.length ≤ capacity

namespace DeduplicationCache

/-- A cache that has seen nothing. -/
def empty (capacity : Nat) : DeduplicationCache :=
  ⟨capacity, [], List.nodup_nil, Nat.zero_le _⟩

/-- What `seen` answers. -/
def seen (cache : DeduplicationCache) (eventId : PyStr) : Bool :=
  eventId ∈ cache.entries

/-- What `seen` does to the cache: an id that is there becomes the most recent one. -/
def moveToEnd (cache : DeduplicationCache) (eventId : PyStr) : DeduplicationCache :=
  if h : eventId ∈ cache.entries then
    { cache with
      entries := Lru.touch eventId cache.entries
      nodup := Lru.nodup_touch cache.nodup
      bounded := (Lru.length_touch h).trans_le cache.bounded }
  else cache

/-- `remember`: the id becomes the most recent one and the oldest ids past the capacity go. -/
def remember (cache : DeduplicationCache) (eventId : PyStr) : DeduplicationCache :=
  { cache with
    entries := Lru.use cache.capacity cache.entries eventId
    nodup := Lru.nodup_use cache.nodup
    bounded := Lru.length_use_le _ _ _ }

end DeduplicationCache

/-! ## One line -/

/-- What the use case is configured with. -/
structure IngestConfig where
  maxBatchBytes : Nat
  maxBatchEvents : Nat
  shedding : SheddingPolicy
  rejectBatchOnInvalid : Bool

/-- What a line reads as, before the cache and the quota are asked. -/
inductive Reading where
  | blank
  | overLimit
  | malformed (message : PyStr)
  | invalid (reason : Reason)
  | uncaught
  | event (event : RuntimeEvent)

/-- Read one line, given how many non-blank lines came before it. -/
def readLine (config : IngestConfig) (loads : Loads) (seen : Nat) (rawLine : PyBytes) :
    Reading :=
  let stripped := rawLine.strip
  if stripped.isEmpty then .blank
  else if seen ≥ config.maxBatchEvents then .overLimit
  else
    match loads stripped with
    | .error (.decode message) => .malformed message
    | .error .other => .uncaught
    | .ok decoded =>
        match parseEvent decoded with
        | .error reason => .invalid reason
        | .ok event => .event event

/-- What became of a line. -/
inductive LineOutcome where
  | blank
  | overLimit
  | malformed (message : PyStr)
  | invalid (reason : Reason)
  | uncaught
  | duplicate (event : RuntimeEvent)
  | shed (event : RuntimeEvent)
  | refused (retryAfterSeconds : Int)
  | admitted (event : RuntimeEvent)

/-- Decide about a well-formed event: deduplicate, shed, charge the quota. -/
def judge (config : IngestConfig) (principal : AgentPrincipal) (quota : QuotaLimiter)
    (cache : DeduplicationCache) (event : RuntimeEvent) : LineOutcome :=
  if cache.seen event.eventId then .duplicate event
  else
    let cost := config.shedding.cost event.type
    let remaining := quota.remainingFraction principal.organizationId
    if !config.shedding.shouldAccept event.type remaining then .shed event
    else if !quota.check principal.organizationId cost then
      if event.type.isSecuritySignal then
        .refused (quota.retryAfterSeconds principal.organizationId cost)
      else .shed event
    else .admitted event

/-- Examine one line. -/
def examineLine (config : IngestConfig) (loads : Loads) (principal : AgentPrincipal)
    (quota : QuotaLimiter) (cache : DeduplicationCache) (seen : Nat) (rawLine : PyBytes) :
    LineOutcome :=
  match readLine config loads seen rawLine with
  | .blank => .blank
  | .overLimit => .overLimit
  | .malformed message => .malformed message
  | .invalid reason => .invalid reason
  | .uncaught => .uncaught
  | .event event => judge config principal quota cache event

/-! ## One batch -/

/-- Why a line is listed in the response. -/
inductive RejectionReason where
  | batchEventLimit
  | malformedJson (message : PyStr)
  | invalidEvent (reason : Reason)

/-- The text of a rejection. -/
def RejectionReason.text (repr : PyStr → PyStr) : RejectionReason → PyStr
  | batchEventLimit => py "batch event limit exceeded"
  | malformedJson message => py "malformed JSON: " ++ message
  | invalidEvent reason => reason.text repr

/-- One event the gateway refused. -/
structure Rejection where
  line : Nat
  reason : RejectionReason

/-- What happened to a batch. -/
structure IngestResult where
  accepted : Nat
  duplicates : Nat
  shed : Nat
  rejected : Nat
  rejections : List Rejection
  ackCursor : PyStr
  credit : Int

/-- The result a batch starts from. -/
def IngestResult.initial : IngestResult := ⟨0, 0, 0, 0, [], [], 0⟩

/-- `_record_rejection`: count the line, and list it while the list is short. -/
def IngestResult.recordRejection (result : IngestResult) (line : Nat) (reason : RejectionReason) :
    IngestResult :=
  { result with
    rejected := result.rejected + 1
    rejections :=
      if result.rejections.length < 20 then result.rejections ++ [⟨line, reason⟩]
      else result.rejections }

/-- The state of the loop over the lines. `outcomes` records what became of every line examined so
far; the source has no such variable. -/
structure Progress where
  cache : DeduplicationCache
  result : IngestResult
  publishable : List RuntimeEvent
  seen : Nat
  outcomes : List LineOutcome

/-- The loop before the first line. -/
def Progress.initial (cache : DeduplicationCache) : Progress :=
  ⟨cache, .initial, [], 0, []⟩

/-- What one line's outcome changes. -/
def Progress.record (p : Progress) (lineNumber : Nat) (outcome : LineOutcome) : Progress :=
  let p := { p with outcomes := p.outcomes ++ [outcome] }
  match outcome with
  | .blank => p
  | .overLimit =>
      { p with
        result := { p.result with
          rejected := p.result.rejected + 1
          rejections := p.result.rejections ++ [⟨lineNumber, .batchEventLimit⟩] } }
  | .malformed message =>
      { p with
        seen := p.seen + 1
        result := p.result.recordRejection lineNumber (.malformedJson message) }
  | .invalid reason =>
      { p with
        seen := p.seen + 1
        result := p.result.recordRejection lineNumber (.invalidEvent reason) }
  | .duplicate event =>
      { p with
        seen := p.seen + 1
        cache := p.cache.moveToEnd event.eventId
        result := { p.result with
          duplicates := p.result.duplicates + 1
          ackCursor := event.eventId } }
  | .shed _ => { p with seen := p.seen + 1, result.shed := p.result.shed + 1 }
  | .uncaught | .refused _ => { p with seen := p.seen + 1 }
  | .admitted event =>
      { p with
        seen := p.seen + 1
        cache := p.cache.remember event.eventId
        publishable := p.publishable ++ [event] }

/-- What `execute` raises. `uncaught` is an exception that is none of the gateway's own. -/
inductive IngestError where
  | batchTooLarge (limitBytes : Nat)
  | quotaExceeded (retryAfterSeconds : Int)
  | invalidEvent (reason : RejectionReason) (line : Nat)
  | sinkUnavailable
  | uncaught

/-- The loop over the lines from line number `n`, with the limiter as it stands at each line. It
ends at the end of the body, at the batch limit, or by raising. -/
def ingestLines (config : IngestConfig) (loads : Loads) (principal : AgentPrincipal)
    (quota : Nat → QuotaLimiter) : Nat → List PyBytes → Progress → Progress × Option IngestError
  | _, [], p => (p, none)
  | n, rawLine :: lines, p =>
      let outcome := examineLine config loads principal (quota n) p.cache p.seen rawLine
      let p := p.record n outcome
      match outcome with
      | .overLimit => (p, none)
      | .uncaught => (p, some .uncaught)
      | .refused retryAfterSeconds => (p, some (.quotaExceeded retryAfterSeconds))
      | _ => ingestLines config loads principal quota (n + 1) lines p

/-- `_credit_for`, over exact fractions. -/
def creditFor (config : IngestConfig) (principal : AgentPrincipal) (quota : QuotaLimiter) : Int :=
  max 1 ⌊(config.maxBatchEvents : ℚ) * quota.remainingFraction principal.organizationId⌋

/-- How `execute` stands when it first gives up control: it raised, it returned, or it awaits the
sink with the events it admitted. -/
inductive Begun where
  | raised (error : IngestError)
  | returned (result : IngestResult)
  | publishing (events : List RuntimeEvent) (result : IngestResult)

/-- `execute` from the end of the loop to the `await`, with the limiter as it then stands. -/
def afterLines (config : IngestConfig) (principal : AgentPrincipal) (quota : QuotaLimiter) :
    Progress × Option IngestError → Begun
  | (_, some error) => .raised error
  | (p, none) =>
      match config.rejectBatchOnInvalid, p.result.rejections with
      | true, first :: _ => .raised (.invalidEvent first.reason first.line)
      | _, _ =>
          match p.publishable with
          | [] => .returned { p.result with credit := creditFor config principal quota }
          | events => .publishing events p.result

/-- `execute` up to the `await`. The cache keeps what the loop did to it even when it raises. -/
def beginExecute (config : IngestConfig) (loads : Loads) (principal : AgentPrincipal)
    (quota : Nat → QuotaLimiter) (cache : DeduplicationCache) (body : PyBytes) :
    Begun × Progress :=
  if body.length > config.maxBatchBytes then
    (.raised (.batchTooLarge config.maxBatchBytes), .initial cache)
  else
    let lines := body.splitlines
    let loop := ingestLines config loads principal quota 1 lines (.initial cache)
    (afterLines config principal (quota (lines.length + 1)) loop, loop.1)

/-- `execute` after the sink has accepted the events. -/
def finishExecute (config : IngestConfig) (principal : AgentPrincipal) (quota : QuotaLimiter)
    (events : List RuntimeEvent) (result : IngestResult) : IngestResult :=
  { result with
    accepted := events.length
    ackCursor := (events.getLast?.map (·.eventId)).getD result.ackCursor
    credit := creditFor config principal quota }

end Aegis.Gateway
