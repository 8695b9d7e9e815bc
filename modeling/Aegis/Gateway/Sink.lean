import Aegis.Gateway.Ingest

/-!
# What the sink writes

The envelope a worker reads for an event. Every identity field is stamped from the verified
credential of the agent.
-/

namespace Aegis.Gateway

open Server

/-- The object `_serialize` writes, which is the one `json.loads` reads back. -/
def serialize (origin : StreamOrigin) (event : RuntimeEvent) : JsonObject :=
  [(py "organization_id", .str origin.organizationId),
    (py "agent_id", .str origin.agentId),
    (py "environment_id", .str origin.environmentId),
    (py "event_id", .str event.eventId),
    (py "type", .str event.type.value),
    (py "occurred_at_ms", .int event.occurredAtMs),
    (py "monotonic_nanos", .int event.monotonicNanos),
    (py "trace_id", .str event.traceId),
    (py "replayed", .bool event.replayed),
    (py "payload", .object event.payload)]

/-- An event the gateway accepted, with the origin of its batch. -/
structure PublishedEvent where
  origin : StreamOrigin
  event : RuntimeEvent
  accepted : ∃ raw, parseEvent raw = .ok event

/-- The record a worker reads for the event. -/
def PublishedEvent.record (published : PublishedEvent) : JsonObject :=
  serialize published.origin published.event

end Aegis.Gateway
