import Aegis.Agent.Finding
import Aegis.Agent.RequestContext

/-!
# Telemetry events

`RuntimeEvent` of the Java agent: one telemetry event and the line of JSON it is sent as. The JSON
is written by hand in the source, and `quote` is the one place where text is escaped.
-/

namespace Aegis.Agent

/-! ## Names on the wire -/

/-- `Severity.name()`. -/
def Severity.name : Severity → JString
  | INFO => java "INFO"
  | LOW => java "LOW"
  | MEDIUM => java "MEDIUM"
  | HIGH => java "HIGH"
  | CRITICAL => java "CRITICAL"

/-- `Severity.wireName()`. -/
def Severity.wireName (s : Severity) : JString :=
  java "SEVERITY_" ++ s.name

/-- `SourceKind.name()`. -/
def SourceKind.name : SourceKind → JString
  | PARAMETER => java "PARAMETER"
  | HEADER => java "HEADER"
  | COOKIE => java "COOKIE"
  | BODY => java "BODY"
  | PATH => java "PATH"
  | QUERY_STRING => java "QUERY_STRING"
  | MESSAGE_QUEUE => java "MESSAGE_QUEUE"
  | DATABASE => java "DATABASE"
  | FILE => java "FILE"

/-- `SourceKind.wireName()`. -/
def SourceKind.wireName (s : SourceKind) : JString :=
  java "SOURCE_KIND_" ++ s.name

/-- `Confidence.name()`. -/
def Confidence.name : Confidence → JString
  | OBSERVED => java "OBSERVED"
  | CONFIRMED => java "CONFIRMED"
  | EXPLOITED => java "EXPLOITED"

/-! ## JSON writing -/

/-- One hexadecimal digit. -/
def hexDigit (n : Nat) : JChar :=
  (Nat.digitChar (n % 16)).toNat.toUInt16

/-- The escape of a control character by its number. -/
def unicodeEscape (c : JChar) : JString :=
  java "\\u" ++ [hexDigit (c.toNat / 4096), hexDigit (c.toNat / 256), hexDigit (c.toNat / 16),
    hexDigit c.toNat]

/-- One character of a JSON string, escaped where it has to be. -/
def escape (c : JChar) : JString :=
  if c == 0x22 then java "\\\""
  else if c == 0x5C then java "\\\\"
  else if c == 0x0A then java "\\n"
  else if c == 0x0D then java "\\r"
  else if c == 0x09 then java "\\t"
  else if c == 0x08 then java "\\b"
  else if c == 0x0C then java "\\f"
  else if c < 0x20 then unicodeEscape c
  else [c]

/-- A JSON string. -/
def quote (value : Option JString) : JString :=
  java "\"" ++ (value.getD []).flatMap escape ++ java "\""

/-- A member of a JSON object. -/
def field (name : String) (value : JString) : JString :=
  java "\"" ++ java name ++ java "\":" ++ quote (some value)

/-- Items with commas between them. -/
def separated (items : List JString) : JString :=
  (java ",").intercalate items

/-- A JSON array of strings. -/
def stringArray (values : List JString) : JString :=
  java "[" ++ separated (values.map fun value ↦ quote (some value)) ++ java "]"

/-- A member of a JSON object of strings. -/
def stringEntry (entry : JString × JString) : JString :=
  quote (some entry.1) ++ java ":" ++ quote (some entry.2)

/-- A JSON object of strings, every value as it is. -/
def stringMap (values : StringMap) : JString :=
  java "\x7b" ++ separated (values.map stringEntry) ++ java "\x7d"

/-- A JSON Boolean. -/
def bool (b : Bool) : JString :=
  if b then java "true" else java "false"

/-! ## Events -/

/-- What the platform answers while an event is made and queued: the two clocks, and whether the
buffer's lock is free. -/
structure Moment where
  currentTimeMillis : Nat
  nanoTime : Int
  lockFree : Bool
  deriving DecidableEq

/-- One telemetry event, ready to serialize. -/
structure RuntimeEvent where
  eventId : JString
  type : JString
  occurredAtMs : Int
  monotonicNanos : Int
  traceId : JString
  json : JString
  deriving DecidableEq

namespace RuntimeEvent

/-- One tainted range of the payload. -/
def rangeJson (range : TaintRange) : JString :=
  java "\x7b\"start\":" ++ decimal range.start ++ java ",\"length\":" ++ decimal range.length ++
    java ",\"source\":\"" ++ range.source.wireName ++ java "\"" ++ java ",\"source_name\":" ++
    quote (some range.sourceName) ++ java "\x7d"

/-- One stack frame of the payload. -/
def frameJson (frame : StackFrame) : JString :=
  java "\x7b\"declaring_class\":" ++ quote (some frame.declaringClass) ++
    java ",\"method_name\":" ++ quote (some frame.methodName) ++ java ",\"line_number\":" ++
    decimal frame.lineNumber ++ java ",\"application_code\":" ++ bool frame.applicationCode ++
    java "\x7d"

/-- The part of the payload that describes the finding. -/
def findingJson (finding : Finding) : JString :=
  field "rule_key" finding.rule.key ++ java "," ++
    field "severity" finding.effectiveSeverity.wireName ++ java "," ++
    field "confidence" (java "CONFIDENCE_" ++ finding.confidence.name) ++ java "," ++
    field "sink_signature" finding.sinkSignature ++ java "," ++
    field "sink_argument" finding.sinkArgument ++ java "," ++
    field "stack_fingerprint" finding.stackFingerprint ++
    java ",\"imprecise\":" ++ bool finding.imprecise ++
    java ",\"ranges\":[" ++ separated (finding.ranges.map rangeJson) ++ java "]" ++
    java ",\"stack\":[" ++ separated (finding.stack.map frameJson) ++ java "]" ++
    java ",\"sanitizers_applied\":" ++ stringArray finding.sanitizersApplied

/-- The request line of the payload, up to the parameters. -/
def requestLineJson (context : RequestContext) : JString :=
  field "method" context.method ++ java "," ++ field "path" context.path ++ java "," ++
    field "route_template" context.routeTemplate ++ java "," ++
    field "remote_addr" context.remoteAddr

/-- The part of the payload that describes the request. -/
def requestJson (context : RequestContext) : JString :=
  java ",\"request\":\x7b" ++ requestLineJson context ++
    java ",\"parameters\":" ++ stringMap context.parameters ++
    java ",\"headers\":" ++ stringMap context.headers ++ java "," ++
    field "body_excerpt" context.bodyExcerpt ++ java "\x7d"

/-- The event of a finding. -/
def taintHit (eventId : JString) (finding : Finding) (context : Option RequestContext)
    (moment : Moment) : RuntimeEvent where
  eventId := eventId
  type := java "EVENT_TYPE_TAINT_HIT"
  occurredAtMs := moment.currentTimeMillis
  monotonicNanos := moment.nanoTime
  traceId := (context.map RequestContext.traceId).getD []
  json :=
    java "\"taint_hit\":\x7b" ++ findingJson finding ++ (context.map requestJson).getD [] ++
      java "\x7d"

/-- The event of a discovered route. -/
def route (eventId method pathTemplate : JString) (authenticated : Bool) (moment : Moment) :
    RuntimeEvent where
  eventId := eventId
  type := java "EVENT_TYPE_ROUTE"
  occurredAtMs := moment.currentTimeMillis
  monotonicNanos := moment.nanoTime
  traceId := []
  json :=
    java "\"route\":\x7b" ++ field "method" method ++ java "," ++
      field "path_template" pathTemplate ++ java ",\"authenticated\":" ++ bool authenticated ++
      java "\x7d"

/-- The event of a place where taint could not be followed. -/
def coverageGap (eventId reason component : JString) (moment : Moment) : RuntimeEvent where
  eventId := eventId
  type := java "EVENT_TYPE_COVERAGE_GAP"
  occurredAtMs := moment.currentTimeMillis
  monotonicNanos := moment.nanoTime
  traceId := []
  json :=
    java "\"coverage_gap\":\x7b" ++ field "reason" reason ++ java "," ++
      field "component" component ++ java "\x7d"

/-- One NDJSON line, as sent to the ingest gateway. -/
def toJson (event : RuntimeEvent) : JString :=
  java "\x7b" ++ field "event_id" event.eventId ++ java "," ++ field "type" event.type ++
    java ",\"occurred_at_ms\":" ++ decimal event.occurredAtMs ++
    java ",\"monotonic_nanos\":" ++ decimal event.monotonicNanos ++ java "," ++
    field "trace_id" event.traceId ++ java "," ++ event.json ++ java "\x7d"

end RuntimeEvent

end Aegis.Agent
