import Aegis.Agent.Reporter
import Aegis.Agent.Spool

/-!
# The reporting thread

`Transport.Http` and `ReportingThread` of the Java agent: batches are drained from the buffer and
sent, what cannot be sent is spooled, and the spool is replayed when everything was sent. The
gateway's answers, the clock and the faults of the disk come with each flush. The log says what was
drained, sent and turned away; no operation reads it.
-/

namespace Aegis.Agent

open Prog

/-- What a request is answered with: an HTTP status, or nothing where the connection fails. -/
abbrev HttpAnswer := Option Int

/-- What became of batches. -/
inductive SendAction where
  /-- The events were drained from the buffer. -/
  | drained (batch : List RuntimeEvent)
  /-- The lines were posted, with this answer. -/
  | posted (jsonLines : List JString) (answer : HttpAnswer)
  /-- The batch could not be sent, and there is no spool. -/
  | unspooled (batch : List RuntimeEvent)
  deriving DecidableEq

/-! ## The transport -/

/-- `Transport.Http`: whether pins were configured, whether the pinned factory was built, and
whether the endpoint is an HTTPS one. -/
structure Http where
  pinningRequired : Bool
  pinnedFactory : Bool
  secure : Bool
  deriving DecidableEq

namespace Http

/-- Pins were configured but cannot be enforced. -/
def isMisconfigured (transport : Http) : Bool :=
  transport.pinningRequired && !transport.pinnedFactory

/-- A pinned agent is pointed at a plaintext endpoint. -/
def refusesPlaintext (transport : Http) : Bool :=
  !(transport.secure && transport.pinnedFactory) && transport.pinningRequired

/-- The batch need not be kept: it was accepted, or its bytes can never be. -/
def settles : HttpAnswer → Bool
  | none => false
  | some status => status == 400 || status == 413 || status.tdiv 100 == 2

end Http

/-! ## The thread -/

/-- The agent's reporter, its transport, the spool if there is one, the answers of the gateway still
to come, the thread's counters, and the log, newest first. -/
structure Delivery where
  reporter : Reporter
  transport : Http
  hasSpool : Bool
  storage : Storage
  answers : List HttpAnswer
  backoffMultiplier : Nat
  spooledBatches : Nat
  replayedBatches : Nat
  log : List SendAction

/-- An operation of the reporting thread. -/
abbrev ThreadProg := Prog FileException Delivery

namespace Delivery

/-- Write into the log. -/
def note (d : Delivery) (action : SendAction) : Delivery :=
  { d with log := action :: d.log }

end Delivery

/-- An operation on the files, as part of the thread. -/
def onFiles {α : Type} (operation : FileProg α) : ThreadProg α :=
  within Delivery.storage (fun storage d ↦ { d with storage := storage }) operation

/-- Post lines to the gateway. -/
def post (jsonLines : List JString) : ThreadProg HttpAnswer := do
  let answer ← Prog.read fun d ↦ d.answers.headD none
  modify fun d ↦ { d with answers := d.answers.tail, log := .posted jsonLines answer :: d.log }
  pure answer

/-- `Transport.Http.sendLines`. -/
def sendLines (jsonLines : List JString) : ThreadProg Bool := do
  if jsonLines.isEmpty then pure true
  else if (← Prog.read fun d ↦ d.transport.isMisconfigured) then pure false
  else if (← Prog.read fun d ↦ d.transport.refusesPlaintext) then pure false
  else do
    let answer ← post jsonLines
    pure (Http.settles answer)

/-- `Transport.send`. -/
def send (batch : List RuntimeEvent) : ThreadProg Bool :=
  if batch.isEmpty then pure true else sendLines (batch.map RuntimeEvent.toJson)

namespace ReportingThread

/-- Events drained at a time. -/
def BATCH_SIZE : Nat := 512

/-- Ceiling on the backoff. -/
def MAX_BACKOFF_MULTIPLIER : Nat := 64

/-- Spool segments replayed per cycle. -/
def REPLAY_SEGMENTS_PER_CYCLE : Nat := 8

/-- `reporter.drain`. -/
def drain : ThreadProg (List RuntimeEvent) := do
  let batch ← Prog.read fun d ↦ (d.reporter.drain BATCH_SIZE).1
  modify fun d ↦
    { d with reporter := (d.reporter.drain BATCH_SIZE).2, log := .drained batch :: d.log }
  pure batch

/-- Spool a batch, if there is a spool. -/
def spool (batch : List RuntimeEvent) : ThreadProg PUnit := do
  if !(← Prog.read (·.hasSpool)) then modify (·.note (.unspooled batch))
  else do
    onFiles (Spool.append (batch.map RuntimeEvent.toJson))
    modify fun d ↦ { d with spooledBatches := d.spooledBatches + 1 }

/-- Drain and send until the buffer is empty. The fuel bounds the number of batches. -/
def sendBatches : Nat → Bool → ThreadProg Bool
  | 0, healthy => pure healthy
  | fuel + 1, healthy => do
      let batch ← drain
      if batch.isEmpty then pure healthy
      else if (← send batch) then sendBatches fuel healthy
      else do
        spool batch
        sendBatches fuel false

/-- Send lines if there are any. -/
def sendAny (lines : List JString) : ThreadProg Bool :=
  if lines.isEmpty then pure true else sendLines lines

/-- Replay segments, oldest first, until the endpoint refuses one. -/
def replaySegments : List JString → Nat → ThreadProg Bool
  | [], _ => pure true
  | segment :: rest, replayed => do
      if replayed ≥ REPLAY_SEGMENTS_PER_CYCLE then pure true
      else do
        let lines ← onFiles (Spool.read segment)
        let accepted ← sendAny lines
        if !accepted then pure false
        else do
          onFiles (Spool.discard segment)
          modify fun d ↦ { d with replayedBatches := d.replayedBatches + 1 }
          replaySegments rest (replayed + 1)

/-- Replay spooled segments. -/
def replaySpool : ThreadProg Bool := do
  if !(← Prog.read (·.hasSpool)) then pure true
  else do
    let segments ← onFiles Spool.pending
    replaySegments segments 0

/-- Double the interval on failure, snap straight back on success. -/
def adjustBackoff (healthy : Bool) : ThreadProg PUnit :=
  modify fun d ↦
    { d with backoffMultiplier :=
        if healthy then 1 else min (d.backoffMultiplier * 2) MAX_BACKOFF_MULTIPLIER }

/-- Drain and send whatever is queued, then work through the spool. -/
def flushOnce : ThreadProg PUnit := do
  let queued ← Prog.read fun d ↦ d.reporter.queued
  let healthy ← sendBatches (queued + 1) true
  if healthy then do
    let healthy ← replaySpool
    adjustBackoff healthy
  else adjustBackoff false

end ReportingThread

/-! ## Runs -/

/-- What the agent does next: an application thread reports something, or the reporting thread
flushes, with the answers of the gateway, the clock and the faults of the disk. -/
inductive DeliveryStep where
  | report (finding : Finding) (context : Option RequestContext) (moment : Moment)
  | reportRoute (method pathTemplate : JString) (authenticated : Bool) (moment : Moment)
  | reportCoverageGap (reason component : JString) (moment : Moment)
  | flushOnce (answers : List HttpAnswer) (clock : List Nat) (faults : List Bool)

namespace Delivery

/-- One step. An exception ends a flush where it is raised. -/
def step (d : Delivery) : DeliveryStep → Unit × Delivery
  | .report finding context moment =>
      ((), { d with reporter := d.reporter.report finding context moment })
  | .reportRoute method pathTemplate authenticated moment =>
      ((), { d with
        reporter := d.reporter.reportRoute method pathTemplate authenticated moment })
  | .reportCoverageGap reason component moment =>
      ((), { d with reporter := d.reporter.reportCoverageGap reason component moment })
  | .flushOnce answers clock faults =>
      let started := { d with answers := answers, storage := { d.storage with clock := clock } }
      ((), (ReportingThread.flushOnce started faults).state)

/-- An agent that has just started, on a directory as it finds it. -/
def start (capacity : Nat) (transport : Http) (hasSpool : Bool) (maxBytes : Nat)
    (directory : Option (AList fun _ : JString ↦ Bytes)) : Delivery where
  reporter := .create capacity
  transport := transport
  hasSpool := hasSpool
  storage := ⟨Spool.create maxBytes, directory, [], []⟩
  answers := []
  backoffMultiplier := 1
  spooledBatches := 0
  replayedBatches := 0
  log := []

end Delivery

end Aegis.Agent
