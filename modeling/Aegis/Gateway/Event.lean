import Aegis.Lib.Checked
import Aegis.Server.Python

/-!
# The runtime event envelope

`domain/events.py` of the gateway: what a decoded line must look like to be a runtime event.
Every check of `parse_event` is here in its order. A failed check yields a `Reason`, whose text is
the one the source raises.
-/

namespace Aegis.Gateway

open Server

/-- Caps on individual fields. -/
def MAX_ID_LENGTH : Nat := 64

/-- Cap on a signature. -/
def MAX_STRING_LENGTH : Nat := 8192

/-- Cap on a sink argument. -/
def MAX_ARGUMENT_LENGTH : Nat := 65536

/-- Cap on the frames of a stack. -/
def MAX_STACK_FRAMES : Nat := 64

/-- Cap on the ranges of a taint hit. -/
def MAX_RANGES : Nat := 64

/-- The types of event the gateway understands. -/
inductive EventType where
  | TAINT_HIT | ATTACK | ROUTE | DEPENDENCY | CONFIG | COVERAGE_GAP
  deriving DecidableEq, Repr

namespace EventType

/-- The event types in declaration order. -/
def values : List EventType :=
  [TAINT_HIT, ATTACK, ROUTE, DEPENDENCY, CONFIG, COVERAGE_GAP]

/-- The name of the type on the wire. -/
def value : EventType → PyStr
  | TAINT_HIT => py "EVENT_TYPE_TAINT_HIT"
  | ATTACK => py "EVENT_TYPE_ATTACK"
  | ROUTE => py "EVENT_TYPE_ROUTE"
  | DEPENDENCY => py "EVENT_TYPE_DEPENDENCY"
  | CONFIG => py "EVENT_TYPE_CONFIG"
  | COVERAGE_GAP => py "EVENT_TYPE_COVERAGE_GAP"

/-- `EventType(name)`, or `none` for the `ValueError` of an unknown name. -/
def ofName (name : PyStr) : Option EventType :=
  values.find? fun type ↦ type.value == name

/-- True for events that must never be shed under backpressure. -/
def isSecuritySignal (type : EventType) : Bool :=
  type == TAINT_HIT || type == ATTACK

/-- Wire key carrying the payload of the type, `_PAYLOAD_KEYS`. -/
def payloadKey : EventType → PyStr
  | TAINT_HIT => py "taint_hit"
  | ATTACK => py "attack"
  | ROUTE => py "route"
  | DEPENDENCY => py "dependency"
  | CONFIG => py "config_finding"
  | COVERAGE_GAP => py "coverage_gap"

end EventType

/-- One validated event, ready to publish. -/
structure RuntimeEvent where
  eventId : PyStr
  type : EventType
  occurredAtMs : Int
  monotonicNanos : Int
  traceId : PyStr
  replayed : Bool
  payload : JsonObject

/-- The partition key: the trace, or the event itself for an event without one. -/
def RuntimeEvent.partitionKey (event : RuntimeEvent) : PyStr :=
  if event.traceId.isEmpty then event.eventId else event.traceId

/-- Why an event was refused, one constructor for each message of an `InvalidEventError`. -/
inductive Reason where
  | notObject
  | missing (key : PyStr)
  | notString (key : PyStr)
  | tooLong (key : PyStr) (maxLength : Nat)
  | notInteger (key : PyStr)
  | blankEventId
  | unknownType (name : PyStr)
  | notPositive
  | notBoolean
  | missingPayload (key : PyStr) (type : EventType)
  | payloadNotObject (key : PyStr)
  | rangesNotList
  | tooManyRanges
  | rangeNotObject
  | rangeStart
  | rangeLength
  | stackNotList
  | tooManyFrames
  deriving DecidableEq

/-- The message of an `InvalidEventError`, over the `repr` of a string. -/
def Reason.text (repr : PyStr → PyStr) : Reason → PyStr
  | notObject => py "event must be a JSON object"
  | missing key => py "missing " ++ repr key
  | notString key => repr key ++ py " must be a string"
  | tooLong key maxLength =>
      repr key ++ py " exceeds " ++ py (toString maxLength) ++ py " characters"
  | notInteger key => repr key ++ py " must be an integer"
  | blankEventId => py "'event_id' must not be blank"
  | unknownType name => py "unknown event type " ++ repr name
  | notPositive => py "'occurred_at_ms' must be positive"
  | notBoolean => py "'replayed' must be a boolean"
  | missingPayload key type =>
      py "missing " ++ repr key ++ py " payload for " ++ type.value
  | payloadNotObject key => repr key ++ py " must be an object"
  | rangesNotList => py "'ranges' must be a list"
  | tooManyRanges => py "'ranges' exceeds " ++ py (toString MAX_RANGES) ++ py " entries"
  | rangeNotObject => py "each range must be an object"
  | rangeStart => py "range 'start' must be a non-negative integer"
  | rangeLength => py "range 'length' must be a positive integer"
  | stackNotList => py "'stack' must be a list"
  | tooManyFrames => py "'stack' exceeds " ++ py (toString MAX_STACK_FRAMES) ++ py " frames"

/-- `_require_str`. -/
def requireStr (raw : JsonObject) (key : PyStr) (maxLength : Nat) (required : Bool) :
    Except Reason PyStr :=
  match dictGet raw key with
  | .null => if required then .error (.missing key) else .ok []
  | .str value => if value.length > maxLength then .error (.tooLong key maxLength) else .ok value
  | _ => .error (.notString key)

/-- `_require_int`. A `bool` is refused although Python counts it as an `int`. -/
def requireInt (raw : JsonObject) (key : PyStr) (default : Json) : Except Reason Int :=
  match dictGetD raw key default with
  | .null => .error (.missing key)
  | .int value => .ok value
  | _ => .error (.notInteger key)

/-- One turn of the loop of `_validate_taint_hit` over the ranges. -/
def validateRange (entry : Json) : Except Reason Unit :=
  match entry with
  | .object fields =>
      match dictGet fields (py "start") with
      | .int start =>
          if start < 0 then .error .rangeStart
          else
            match dictGet fields (py "length") with
            | .int length => if length ≤ 0 then .error .rangeLength else .ok ()
            | _ => .error .rangeLength
      | _ => .error .rangeStart
  | _ => .error .rangeNotObject

/-- `_validate_taint_hit`: the fields the worker cannot function without. -/
def validateTaintHit (payload : JsonObject) : Except Reason Unit := do
  let _ ← requireStr payload (py "rule_key") MAX_ID_LENGTH true
  let _ ← requireStr payload (py "sink_signature") MAX_STRING_LENGTH true
  let _ ← requireStr payload (py "stack_fingerprint") MAX_ID_LENGTH true
  let _ ← requireStr payload (py "sink_argument") MAX_ARGUMENT_LENGTH false
  match dictGetD payload (py "ranges") (.list []) with
  | .list ranges =>
      if ranges.length > MAX_RANGES then .error .tooManyRanges
      else ranges.forM validateRange
  | _ => .error .rangesNotList
  match dictGetD payload (py "stack") (.list []) with
  | .list stack => if stack.length > MAX_STACK_FRAMES then .error .tooManyFrames else .ok ()
  | _ => .error .stackNotList

/-- `_extract_payload`. -/
def extractPayload (raw : JsonObject) (type : EventType) : Except Reason JsonObject :=
  match dictGet raw type.payloadKey with
  | .null => .error (.missingPayload type.payloadKey type)
  | .object payload =>
      if type = .TAINT_HIT then do
        validateTaintHit payload
        .ok payload
      else .ok payload
  | _ => .error (.payloadNotObject type.payloadKey)

/-- `parse_event`: validate one decoded line. -/
def parseEvent (raw : Json) : Except Reason RuntimeEvent :=
  match raw with
  | .object raw => do
      let eventId ← requireStr raw (py "event_id") MAX_ID_LENGTH true
      if eventId.strip.isEmpty then .error .blankEventId
      let typeName ← requireStr raw (py "type") MAX_ID_LENGTH true
      let some type := EventType.ofName typeName | .error (.unknownType typeName)
      let occurredAtMs ← requireInt raw (py "occurred_at_ms") .null
      if occurredAtMs ≤ 0 then .error .notPositive
      let monotonicNanos ← requireInt raw (py "monotonic_nanos") (.int 0)
      let traceId ← requireStr raw (py "trace_id") MAX_ID_LENGTH false
      let .bool replayed := dictGetD raw (py "replayed") (.bool false) | .error .notBoolean
      let payload ← extractPayload raw type
      .ok ⟨eventId, type, occurredAtMs, monotonicNanos, traceId, replayed, payload⟩
  | _ => .error .notObject

/-! ## What an accepted event is like -/

/-- The payload of a taint hit that was extracted has been validated. -/
theorem validated_of_extract_payload {raw payload : JsonObject}
    (h : extractPayload raw .TAINT_HIT = .ok payload) : validateTaintHit payload = .ok () := by
  unfold extractPayload at h
  simp only [if_true, bind, Except.bind] at h
  split at h
  · cases h
  · split at h
    · cases h
    · next hvalid =>
        cases h
        exact hvalid
  · cases h

/-- An accepted event has a positive time, and the payload of a taint hit has been validated. -/
theorem accepted_of_parse_event {raw : Json} {event : RuntimeEvent}
    (h : parseEvent raw = .ok event) :
    0 < event.occurredAtMs ∧
      (event.type = .TAINT_HIT → validateTaintHit event.payload = .ok ()) := by
  unfold parseEvent at h
  simp only [bind, Except.bind] at h
  repeat' split at h
  all_goals cases h
  next htime _ _ _ _ _ _ _ _ _ _ _ hpayload =>
    refine ⟨Int.not_le.mp htime, fun htype ↦ ?_⟩
    subst htype
    exact validated_of_extract_payload hpayload

/-- A valid range is an object with an integer start and length. -/
theorem integers_of_validate_range {entry : Json} (h : validateRange entry = .ok ()) :
    ∃ fields start length, entry = .object fields ∧ dictGet fields (py "start") = .int start ∧
      dictGet fields (py "length") = .int length := by
  unfold validateRange at h
  repeat' split at h
  all_goals cases h
  next hstart _ _ _ hlength _ => exact ⟨_, _, _, rfl, hstart, hlength⟩

/-- A required string is there. -/
theorem present_of_require_str {raw : JsonObject} {key value : PyStr} {maxLength : Nat}
    (h : requireStr raw key maxLength true = .ok value) : (raw.lookup key).isSome = true := by
  unfold requireStr dictGet dictGetD at h
  cases hlookup : raw.lookup key with
  | none =>
      rw [hlookup] at h
      cases h
  | some => rfl

/-- The checks of a validated taint hit that a reader of its payload relies on: the signature is
there, and the ranges are objects with an integer start and length. -/
theorem checked_of_validate_taint_hit {payload : JsonObject}
    (h : validateTaintHit payload = .ok ()) :
    (payload.lookup (py "sink_signature")).isSome = true ∧
      ∃ ranges, dictGetD payload (py "ranges") (.list []) = .list ranges ∧
        ∀ entry ∈ ranges, ∃ fields start length, entry = .object fields ∧
          dictGet fields (py "start") = .int start ∧
          dictGet fields (py "length") = .int length := by
  unfold validateTaintHit at h
  simp only [bind, Except.bind] at h
  split at h
  · cases h
  split at h
  · cases h
  next _ _ _ _ _ hsignature =>
  refine ⟨present_of_require_str hsignature, ?_⟩
  repeat' split at h
  all_goals cases h
  next hranges _ _ _ hforM _ _ _ _ =>
    exact ⟨_, hranges, fun entry hentry ↦ integers_of_validate_range (Checked.ok_of_for_m hforM entry hentry)⟩

end Aegis.Gateway
