import Aegis.Access.Database
import Aegis.Lib.HashChain
import Aegis.Server.DateTime
import Aegis.Server.Json.Canonical

/-!
# The audit chain

`domain/entities/audit.py` and the audit repository. Every event of a tenant is sealed with the
hash of the event before it and with a hash over its own fields, and `verify_chain` walks along
the events of a tenant and computes the hashes again from what the database holds.
-/

namespace Aegis.Access

open Aegis.Server Json

/-- The value of the enumeration. -/
def ActorType.value : ActorType → PyStr
  | .USER => py "USER"
  | .API_KEY => py "API_KEY"
  | .AGENT => py "AGENT"
  | .SYSTEM => py "SYSTEM"

/-- The value of the enumeration. -/
def AuditOutcome.value : AuditOutcome → PyStr
  | .SUCCESS => py "SUCCESS"
  | .FAILURE => py "FAILURE"
  | .DENIED => py "DENIED"

namespace AuditChain

/-- The genesis link for an organization's chain. -/
def GENESIS_HASH : PyStr :=
  List.replicate 64 (pyChar '0')

/-- One entry in an organization's audit chain. -/
structure AuditEvent where
  organizationId : Uuid
  action : PyStr
  actorType : ActorType
  actorUserId : Option Uuid
  actorLabel : PyStr
  resourceType : PyStr
  resourceId : PyStr
  outcome : AuditOutcome
  ipAddress : Option PyStr
  userAgent : PyStr
  requestId : PyStr
  metadata : JsonObject
  previousHash : PyStr
  entryHash : PyStr
  occurredAt : Option Instant
  sequence : Nat
  id : Uuid

namespace AuditEvent

/-- A string, or `None`. -/
def optional (value : Option PyStr) : Json :=
  value.elim .null .str

/-- The fields that are hashed. -/
def payload (event : AuditEvent) : JsonObject :=
  [(py "id", .str event.id.toStr),
    (py "organization_id", .str event.organizationId.toStr),
    (py "sequence", .int event.sequence),
    (py "action", .str event.action),
    (py "actor_type", .str event.actorType.value),
    (py "actor_user_id", optional (event.actorUserId.map Uuid.toStr)),
    (py "resource_type", .str event.resourceType),
    (py "resource_id", .str event.resourceId),
    (py "outcome", .str event.outcome.value),
    (py "ip_address", optional event.ipAddress),
    (py "metadata", .object event.metadata),
    (py "occurred_at", optional (event.occurredAt.map DateTime.isoformat)),
    (py "previous_hash", .str event.previousHash)]

/-- `canonical.encode("utf-8")`. The canonical text is ASCII, so that it has an encoding. -/
def canonicalBytes (event : AuditEvent) : PyBytes :=
  (canonical (.object event.payload)).flatMap PyStr.utf8

/-- `event.compute_hash()`. -/
def computeHash (lib : Library) (event : AuditEvent) : PyStr :=
  lib.hexdigest event.canonicalBytes

/-- The event with its place in the chain. -/
def linked (event : AuditEvent) (previousHash : PyStr) (occurredAt : Instant) (sequence : Nat) :
    AuditEvent :=
  { event with previousHash := previousHash, occurredAt := some occurredAt, sequence := sequence }

/-- `event.seal(previous_hash, occurred_at, sequence)`. -/
def sealed (lib : Library) (event : AuditEvent) (previousHash : PyStr) (occurredAt : Instant)
    (sequence : Nat) : AuditEvent :=
  { event.linked previousHash occurredAt sequence with
    entryHash := (event.linked previousHash occurredAt sequence).computeHash lib }

/-- `event.verify(expected_previous_hash)`. -/
def verify (lib : Library) (event : AuditEvent) (expectedPreviousHash : PyStr) : Bool :=
  event.previousHash == expectedPreviousHash && event.entryHash == event.computeHash lib

end AuditEvent

/-! ## Rows -/

/-- A row of `audit_events`. An address is represented by the `str` of it. -/
structure AuditEventRecord where
  id : Uuid
  organizationId : Uuid
  sequence : Nat
  action : PyStr
  actorType : ActorType
  actorUserId : Option Uuid
  actorLabel : PyStr
  resourceType : PyStr
  resourceId : PyStr
  outcome : AuditOutcome
  ipAddress : Option PyStr
  userAgent : PyStr
  requestId : PyStr
  eventMetadata : JsonObject
  previousHash : PyStr
  entryHash : PyStr
  occurredAt : Instant

/-- `audit_to_domain(record)`. -/
def auditToDomain (record : AuditEventRecord) : AuditEvent where
  organizationId := record.organizationId
  action := record.action
  actorType := record.actorType
  actorUserId := record.actorUserId
  actorLabel := record.actorLabel
  resourceType := record.resourceType
  resourceId := record.resourceId
  outcome := record.outcome
  ipAddress := record.ipAddress
  userAgent := record.userAgent
  requestId := record.requestId
  metadata := record.eventMetadata
  previousHash := record.previousHash
  entryHash := record.entryHash
  occurredAt := some record.occurredAt
  sequence := record.sequence
  id := record.id

/-- `audit_to_record(entity)`. -/
def auditToRecord (entity : AuditEvent) : Except DomainError AuditEventRecord :=
  match entity.occurredAt with
  | none => .error (.BuiltinError .ValueError)
  | some occurredAt => .ok
      { id := entity.id
        organizationId := entity.organizationId
        sequence := entity.sequence
        action := entity.action
        actorType := entity.actorType
        actorUserId := entity.actorUserId
        actorLabel := entity.actorLabel
        resourceType := entity.resourceType
        resourceId := entity.resourceId
        outcome := entity.outcome
        ipAddress := entity.ipAddress
        userAgent := entity.userAgent
        requestId := entity.requestId
        eventMetadata := entity.metadata
        previousHash := entity.previousHash
        entryHash := entity.entryHash
        occurredAt := occurredAt }

/-- What the driver and the database make of the values that are not read back as they are
written. -/
structure Columns where
  /-- The `str` of the address that an `INET` column has of a text, unless the text is refused. -/
  inet : PyStr → Option PyStr
  /-- The object that a `JSONB` column has of one, unless it is refused. -/
  jsonb : JsonObject → Option JsonObject

/-- The address that is there when a text was inserted. -/
def Columns.storedAddress (columns : Columns) : Option PyStr → Except DomainError (Option PyStr)
  | none => .ok none
  | some text => (columns.inet text).elim (.error (.BuiltinError .DataError)) (.ok ∘ some)

/-- The row that is there when one was inserted. -/
def Columns.stored (columns : Columns) (record : AuditEventRecord) :
    Except DomainError AuditEventRecord := do
  let ipAddress ← columns.storedAddress record.ipAddress
  let eventMetadata ←
    (columns.jsonb record.eventMetadata).elim (.error (.BuiltinError .DataError)) .ok
  .ok { record with ipAddress := ipAddress, eventMetadata := eventMetadata }

/-! ## The repository -/

/-- The rows of a tenant, `ORDER BY sequence`. -/
def chainOf (organizationId : Uuid) (rows : List AuditEventRecord) : List AuditEventRecord :=
  Keyset.ordered AuditEventRecord.sequence
    (rows.filter fun row ↦ row.organizationId == organizationId)

/-- `audit.append(event)`, under the lock of the tenant's chain: the sealed event, and the row that
is there of it. -/
def append (lib : Library) (columns : Columns) (utcnow : Instant) (rows : List AuditEventRecord)
    (event : AuditEvent) : Except DomainError (AuditEvent × AuditEventRecord) := do
  let tail := (chainOf event.organizationId rows).getLast?
  let previousHash := tail.elim GENESIS_HASH AuditEventRecord.entryHash
  let sequence := tail.elim 1 fun tail ↦ tail.sequence + 1
  let event := event.sealed lib previousHash (event.occurredAt.getD utcnow) sequence
  let row ← columns.stored (← auditToRecord event)
  if rows.any fun old ↦ old.id == row.id ||
      old.organizationId == row.organizationId && old.sequence == row.sequence then
    .error .IntegrityError
  else .ok (event, row)

/-- The walk of `verify_chain`: whether the chain is intact, how many entries were checked, and the
number of the one that is broken. -/
def verifyFrom (lib : Library) (expectedPrevious : PyStr) (checked : Nat) :
    List AuditEventRecord → Bool × Nat × Option Nat
  | [] => (true, checked, none)
  | record :: records =>
      let event := auditToDomain record
      if event.verify lib expectedPrevious then
        verifyFrom lib event.entryHash (checked + 1) records
      else (false, checked + 1, some record.sequence)

/-- `audit.verify_chain(limit=limit)`. -/
def verifyChain (lib : Library) (organizationId : Uuid) (limit : Option Nat)
    (rows : List AuditEventRecord) : Bool × Nat × Option Nat :=
  let records := chainOf organizationId rows
  verifyFrom lib GENESIS_HASH 0 (if limit.getD 0 = 0 then records else records.take (limit.getD 0))

end AuditChain

end Aegis.Access
