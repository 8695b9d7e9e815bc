import Mathlib.Data.List.Infix
import Aegis.Lib.Machine
import Aegis.Lib.OrderedMap
import Aegis.Server.Builtins

/-!
# The Python agent

The taint registry, the sinks and the hooks of the agent for Python. The trace of a request is kept
for each context, as `contextvars` has it; the registry of tainted strings is one for the process.
String objects are known to the registry by their identities, which are drawn when an object is made
and may be drawn again once it is gone. A step is one call into the agent, so a run is any
interleaving of the calls of the requests that a process serves.
-/

namespace Aegis.PythonAgent

open Aegis.Server

/-! ## Values -/

/-- `TaintRange`. -/
structure TaintRange where
  start : Nat
  stop : Nat
  sourceKind : PyStr
  sourceName : PyStr
  deriving DecidableEq

/-- `TaintRecord`. -/
structure TaintRecord where
  value : PyStr
  ranges : List TaintRange
  deriving DecidableEq

/-- A string object, with the record that a `TaintedString` carries. -/
structure StringObject where
  identity : Nat
  text : PyStr
  taintRecord : Option TaintRecord
  deriving DecidableEq

/-- What is handed to the agent: a string object, or something else. -/
inductive Value where
  | string (object : StringObject)
  | other
  deriving DecidableEq

/-- The argument of a sink: a value, or words that are joined into a new string object. -/
inductive Argument where
  | value (value : Value)
  | words (parts : List PyStr) (identity : Nat)
  deriving DecidableEq

/-- `val if isinstance(val, str) else " ".join(val)`, or `none` for the `TypeError`. -/
def Argument.toString? : Argument → Option StringObject
  | .value (.string object) => some object
  | .value .other => none
  | .words parts identity => some ⟨identity, PyStr.join (py " ") parts, none⟩

/-! ## The process -/

/-- An entry of the sources of a trace. -/
structure Source where
  kind : PyStr
  name : PyStr
  value : PyStr
  deriving DecidableEq

/-- The trace of a request. -/
structure Trace where
  traceId : PyStr
  route : PyStr
  method : PyStr
  sources : List Source
  deriving DecidableEq

/-- What a sink check reports. -/
structure Finding where
  ruleKey : PyStr
  severity : PyStr
  sinkSignature : PyStr
  sourceKind : PyStr
  sinkArgument : PyStr
  traceId : PyStr
  deriving DecidableEq

/-- The process: `_CURRENT_TRACE` by context, `_TAINT_REGISTRY`, and the agent. -/
structure Process where
  currentTrace : Nat → Option Trace
  registry : OrderedMap Nat TaintRecord
  protectionMode : PyStr
  eventBuffer : List Finding

namespace Process

/-- `_CURRENT_TRACE.set(trace)`, in a context. -/
def setTrace (p : Process) (context : Nat) (trace : Option Trace) : Process :=
  { p with currentTrace := Function.update p.currentTrace context trace }

/-- `start_request_trace(trace_id, route, method)`. -/
def startRequestTrace (p : Process) (context : Nat) (traceId route method : PyStr) : Process :=
  p.setTrace context (some ⟨traceId, route, method, []⟩)

/-- `clear_request_trace()`. -/
def clearRequestTrace (p : Process) (context : Nat) : Process :=
  p.setTrace context none

end Process

/-! ## Marking -/

/-- A value that is marked: where it comes from, and the identity of the `TaintedString` that is
made of it. -/
structure Mark where
  value : Value
  sourceKind : PyStr
  sourceName : PyStr
  wrapped : Nat
  deriving DecidableEq

namespace Mark

/-- The object that is marked and its record, when it is a string and not empty. -/
def marked (mark : Mark) : Option (StringObject × TaintRecord) :=
  match mark.value with
  | .other => none
  | .string object =>
      if object.text.isEmpty then none
      else
        some (object,
          ⟨object.text, [⟨0, object.text.length, mark.sourceKind, mark.sourceName⟩]⟩)

/-- The registry after a mark: the object and its wrapper are entered. -/
def register (registry : OrderedMap Nat TaintRecord) (mark : Mark) : OrderedMap Nat TaintRecord :=
  match mark.marked with
  | none => registry
  | some (object, record) => (registry.set object.identity record).set mark.wrapped record

end Mark

/-- `mark_tainted(value, source_kind, source_name)`. -/
def Process.markTainted (p : Process) (context : Nat) (mark : Mark) : Value × Process :=
  match mark.marked with
  | none => (mark.value, p)
  | some (object, record) =>
      (.string ⟨mark.wrapped, object.text, some record⟩,
        Process.setTrace { p with registry := mark.register p.registry } context
          ((p.currentTrace context).map fun trace ↦
            { trace with
              sources := trace.sources ++
                [⟨mark.sourceKind, mark.sourceName, object.text.take 100⟩] }))

/-! ## Looking values up -/

/-- `list(_TAINT_REGISTRY.items())[-50:]`. -/
def recent (registry : OrderedMap Nat TaintRecord) : List (Nat × TaintRecord) :=
  registry.entries.drop (registry.entries.length - 50)

/-- `record.value and len(record.value) >= 3 and record.value in value`. -/
def occursIn (text : PyStr) (entry : Nat × TaintRecord) : Bool :=
  3 ≤ entry.2.value.length && decide (entry.2.value <:+: text)

/-- `is_tainted(value)`, of a string: the record, if it is tainted. -/
def Process.isTainted (p : Process) (context : Nat) (object : StringObject) : Option TaintRecord :=
  match object.taintRecord with
  | some record => some record
  | none =>
      match p.registry.get? object.identity with
      | some record => some record
      | none =>
          match p.currentTrace context with
          | none => none
          | some _ => ((recent p.registry).find? (occursIn object.text)).map Prod.snd

/-! ## Sinks -/

/-- What a sink check looks for: its rule, and the condition that triggers it. -/
structure Sink where
  ruleKey : PyStr
  severity : PyStr
  signature : PyStr
  triggers : PyStr → Bool

/-- `inspect_generic_sink(val, rule_key, severity, sink_signature, trigger_condition)`. -/
def Process.inspectGenericSink (p : Process) (context : Nat) (sink : Sink) (argument : Argument) :
    Option Finding := do
  let object ← argument.toString?
  let record ← p.isTainted context object
  if !sink.triggers object.text then none
  else
    some ⟨sink.ruleKey, sink.severity, sink.signature,
      (record.ranges.head?.map TaintRange.sourceKind).getD (py "PARAMETER"), object.text.take 2000,
      ((p.currentTrace context).map Trace.traceId).getD (py "unknown-trace")⟩

/-- `any(part in text for part in parts)`. -/
def containsAny (parts : List PyStr) (text : PyStr) : Bool :=
  parts.any fun part ↦ decide (part <:+: text)

/-- `text.startswith(front)`. -/
def startsWith (text front : PyStr) : Bool :=
  front.isPrefixOf text

/-- `check_sql_sink`. -/
def checkSqlSink : Sink :=
  ⟨py "sql-injection", py "CRITICAL", py "sqlite3.Cursor.execute", fun _ ↦ true⟩

/-- `check_command_sink`. -/
def checkCommandSink : Sink :=
  ⟨py "command-injection", py "CRITICAL", py "subprocess.Popen",
    containsAny [py ";", py "&", py "|", py "`", py "$", py "\n", py ">", py "<", py "\r", py "(",
      py "whoami", py "id"]⟩

/-- `check_deserialization_sink`, of the text of the data. -/
def checkDeserializationSink : Sink :=
  ⟨py "unsafe-deserialization", py "CRITICAL", py "pickle.loads",
    containsAny [py "cos", py "posix", py "nt", py "system", py "popen", py "exec", py "eval",
      py "pickle", py "reduce", py "R."]⟩

/-- `check_path_traversal_sink`. -/
def checkPathTraversalSink : Sink :=
  ⟨py "path-traversal", py "HIGH", py "builtins.open",
    fun path ↦ containsAny [py "..", py "\\"] path || startsWith path (py "/")⟩

/-- `check_open_redirect_sink`. -/
def checkOpenRedirectSink : Sink :=
  ⟨py "open-redirect", py "MEDIUM", py "fastapi.responses.RedirectResponse",
    fun url ↦ startsWith url (py "http://") || startsWith url (py "https://") ||
      startsWith url (py "//")⟩

section
variable (lib : Library)

/-- `check_xxe_sink`. -/
def checkXxeSink : Sink :=
  ⟨py "xxe", py "CRITICAL", py "xml.etree.ElementTree.fromstring",
    fun data ↦ containsAny [py "<!ENTITY", py "<!DOCTYPE", py "SYSTEM"] (lib.upper data)⟩

/-- `check_xss_sink`. -/
def checkXssSink : Sink :=
  ⟨py "reflected-xss", py "HIGH", py "fastapi.responses.HTMLResponse",
    fun content ↦ containsAny [py "<script", py "javascript:", py "onerror="] (lib.lower content)⟩

/-- `check_ssrf_sink`. -/
def checkSsrfSink : Sink :=
  ⟨py "ssrf", py "HIGH", py "urllib.request.urlopen",
    fun url ↦ (startsWith url (py "http://") || startsWith url (py "https://")) &&
      containsAny [py "169.254.", py "127.0.0.1", py "localhost", py "10.", py "192.168.", py "172.",
        py "metadata", py "0.0.0.0", py "internal", py "::1"] (lib.lower url)⟩

/-- `check_header_injection_sink`. -/
def checkHeaderInjectionSink : Sink :=
  ⟨py "header-injection", py "MEDIUM", py "fastapi.responses.Response.headers",
    fun header ↦ containsAny [py "\r", py "\n"] header ||
      containsAny [py "%0d", py "%0a"] (lib.lower header)⟩

/-- `check_log_injection_sink`. -/
def checkLogInjectionSink : Sink :=
  ⟨py "log-injection", py "MEDIUM", py "logging.Logger.info",
    fun msg ↦ containsAny [py "\n", py "\r"] msg ||
      containsAny [py "%0a", py "%0d"] (lib.lower msg)⟩

end

/-! ## Hooks -/

/-- `AegisSecurityBlockException`. -/
structure SecurityBlock where
  message : PyStr
  ruleKey : PyStr
  sinkSignature : PyStr
  deriving DecidableEq

/-- A hooked function: the sink it is checked as, and the message it is blocked with. -/
structure Hook where
  sink : Sink
  message : PyStr

/-- `SqliteCursorProxy.execute`. -/
def executeHook : Hook :=
  ⟨checkSqlSink, py "Aegis ADR Block: Blocked SQL Injection attack vector."⟩

/-- `subprocess.Popen`, as it is wrapped. -/
def popenHook : Hook :=
  ⟨checkCommandSink, py "Aegis ADR Block: Blocked OS Command Injection attack vector."⟩

/-- `pickle.loads`, as it is wrapped. -/
def loadsHook : Hook :=
  ⟨checkDeserializationSink, py "Aegis ADR Block: Blocked Unsafe Deserialization attack vector."⟩

namespace Process

/-- A hooked call: what is raised instead of it, if anything. -/
def hooked (p : Process) (context : Nat) (hook : Hook) (argument : Argument) :
    Option SecurityBlock × Process :=
  match p.inspectGenericSink context hook.sink argument with
  | none => (none, p)
  | some finding =>
      (if p.protectionMode = py "BLOCK" then
          some ⟨hook.message, hook.sink.ruleKey, hook.sink.signature⟩
        else none,
        { p with eventBuffer := p.eventBuffer ++ [finding] })

/-- `inspect_query(sql_query)`. -/
def inspectQuery (p : Process) (context : Nat) (argument : Argument) : Option Finding × Process :=
  match p.inspectGenericSink context checkSqlSink argument with
  | none => (none, p)
  | some finding => (some finding, { p with eventBuffer := p.eventBuffer ++ [finding] })

end Process

/-! ## Runs -/

/-- A call into the agent, in a context. -/
inductive Call where
  | startRequestTrace (context : Nat) (traceId route method : PyStr)
  | markTainted (context : Nat) (mark : Mark)
  | check (context : Nat) (sink : Sink) (argument : Argument)
  | inspectQuery (context : Nat) (argument : Argument)
  | hooked (context : Nat) (hook : Hook) (argument : Argument)
  | finishRequest (context : Nat)
  | setProtectionMode (mode : PyStr)

/-- What a call answers. -/
inductive Reply where
  | done
  | value (value : Value)
  | finding (finding : Option Finding)
  | outcome (block : Option SecurityBlock)
  deriving DecidableEq

/-- One call. `mode.upper()` is the protection mode that is set. -/
def Process.call (lib : Library) (p : Process) : Call → Reply × Process
  | .startRequestTrace context traceId route method =>
      (.done, p.startRequestTrace context traceId route method)
  | .markTainted context mark =>
      let (value, p) := p.markTainted context mark
      (.value value, p)
  | .check context sink argument => (.finding (p.inspectGenericSink context sink argument), p)
  | .inspectQuery context argument =>
      let (finding, p) := p.inspectQuery context argument
      (.finding finding, p)
  | .hooked context hook argument =>
      let (block, p) := p.hooked context hook argument
      (.outcome block, p)
  | .finishRequest context => (.done, p.clearRequestTrace context)
  | .setProtectionMode mode => (.done, { p with protectionMode := lib.upper mode })

/-- `wrap_request(route, method, params)`: the calls that it makes. -/
def wrapRequest (context : Nat) (traceId route method : PyStr)
    (params : List (PyStr × Value × Nat)) : List Call :=
  .startRequestTrace context traceId route method ::
    params.map fun (key, value, wrapped) ↦
      .markTainted context ⟨value, py "PARAMETER", key, wrapped⟩

end Aegis.PythonAgent
