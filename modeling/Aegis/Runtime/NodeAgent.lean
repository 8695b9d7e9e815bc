import Aegis.Agent.Platform
import Aegis.Lib.Machine
import Aegis.Lib.OrderedMap

/-!
# The Node agent

The taint registry and the sinks of the agent for Node. A JavaScript string is a sequence of UTF-16
code units, as a Java string is. The trace of a request is kept by `AsyncLocalStorage` for each
asynchronous context, and restored to the one around it at its end; the registry of tainted strings
is one for the process, by the text of the strings.
-/

namespace Aegis.NodeAgent

open Aegis.Agent (JString java)

/-- `TaintRange`. -/
structure TaintRange where
  start : Nat
  stop : Nat
  sourceKind : JString
  sourceName : JString
  deriving DecidableEq

/-- `TaintRecord`. -/
structure TaintRecord where
  value : JString
  ranges : List TaintRange
  deriving DecidableEq

/-- A value that is handed to the agent: a string, or something else. -/
inductive Value where
  | string (text : JString)
  | other
  deriving DecidableEq

/-- An entry of the sources of a trace. -/
structure Source where
  kind : JString
  name : JString
  value : JString
  deriving DecidableEq

/-- `RequestTraceContext`. -/
structure Trace where
  traceId : JString
  route : JString
  method : JString
  sources : List Source
  deriving DecidableEq

/-- `FindingEvent`. -/
structure FindingEvent where
  ruleKey : JString
  severity : JString
  sinkSignature : JString
  sourceKind : JString
  sinkArgument : JString
  traceId : JString
  deriving DecidableEq

/-- The process: the traces of each context, the innermost first, `taintRegistry`, and the buffer of
the agent. -/
structure Process where
  traces : Nat → List Trace
  registry : OrderedMap JString TaintRecord
  eventBuffer : List FindingEvent

/-! ## Marking -/

/-- A value that is marked, and where it comes from. -/
structure Mark where
  value : Value
  sourceKind : JString
  sourceName : JString
  deriving DecidableEq

namespace Mark

/-- The text that is marked and its record, when it is a string and not empty. -/
def marked (mark : Mark) : Option (JString × TaintRecord) :=
  match mark.value with
  | .other => none
  | .string text =>
      if text.isEmpty then none
      else some (text, ⟨text, [⟨0, text.length, mark.sourceKind, mark.sourceName⟩]⟩)

/-- The registry after a mark. -/
def register (registry : OrderedMap JString TaintRecord) (mark : Mark) :
    OrderedMap JString TaintRecord :=
  match mark.marked with
  | none => registry
  | some (text, record) => registry.set text record

end Mark

namespace Process

/-- `getCurrentTrace()`, in a context. -/
def currentTrace (p : Process) (context : Nat) : Option Trace :=
  (p.traces context).head?

/-- The start of `startTraceContext(traceId, route, method, fn)`. -/
def startTraceContext (p : Process) (context : Nat) (traceId route method : JString) : Process :=
  { p with
    traces := Function.update p.traces context (⟨traceId, route, method, []⟩ :: p.traces context) }

/-- The end of `startTraceContext(traceId, route, method, fn)`, when `fn` is done. -/
def endTraceContext (p : Process) (context : Nat) : Process :=
  { p with traces := Function.update p.traces context (p.traces context).tail }

/-- `markTainted(value, sourceKind, sourceName)`, which returns the value. -/
def markTainted (p : Process) (context : Nat) (mark : Mark) : Process :=
  match mark.marked with
  | none => p
  | some (text, _) =>
      { p with
        registry := mark.register p.registry
        traces := Function.update p.traces context ((p.traces context).modifyHead fun trace ↦
          { trace with
            sources := trace.sources ++ [⟨mark.sourceKind, mark.sourceName, text.take 100⟩] }) }

end Process

/-! ## Looking values up -/

/-- `key && key.length >= 3 && value.includes(key)`. -/
def occursIn (text : JString) (entry : JString × TaintRecord) : Bool :=
  3 ≤ entry.1.length && JString.contains text entry.1

namespace Process

/-- `isTainted(value)`, of a string: the record, if it is tainted. -/
def isTainted (p : Process) (context : Nat) (text : JString) : Option TaintRecord :=
  match p.registry.get? text with
  | some record => some record
  | none =>
      match p.currentTrace context with
      | none => none
      | some _ => (p.registry.entries.find? (occursIn text)).map Prod.snd

end Process

/-! ## Sinks -/

/-- A sink: its rule and its signature. -/
structure Sink where
  ruleKey : JString
  signature : JString

/-- `checkSqlSink`. -/
def checkSqlSink : Sink :=
  ⟨java "sql-injection", java "pg.Client.query"⟩

/-- `checkCommandSink`. -/
def checkCommandSink : Sink :=
  ⟨java "command-injection", java "child_process.exec"⟩

namespace Process

/-- The body that the sink checks share. -/
def checkSink (p : Process) (context : Nat) (sink : Sink) (value : Value) : Option FindingEvent :=
  match value with
  | .other => none
  | .string text =>
      (p.isTainted context text).map fun record ↦
        ⟨sink.ruleKey, java "CRITICAL", sink.signature,
          (record.ranges.head?.map TaintRange.sourceKind).getD (java "PARAMETER"), text.take 2000,
          ((p.currentTrace context).map Trace.traceId).getD (java "unknown-trace")⟩

/-- `inspectQuery(sql)`. -/
def inspectQuery (p : Process) (context : Nat) (value : Value) : Option FindingEvent × Process :=
  match p.checkSink context checkSqlSink value with
  | none => (none, p)
  | some finding => (some finding, { p with eventBuffer := p.eventBuffer ++ [finding] })

end Process

/-! ## Runs -/

/-- A call into the agent, in an asynchronous context. -/
inductive Call where
  | startTraceContext (context : Nat) (traceId route method : JString)
  | markTainted (context : Nat) (mark : Mark)
  | check (context : Nat) (sink : Sink) (value : Value)
  | inspectQuery (context : Nat) (value : Value)
  | endTraceContext (context : Nat)

/-- One call, with what a check answers. -/
def Process.call (p : Process) : Call → Option FindingEvent × Process
  | .startTraceContext context traceId route method =>
      (none, p.startTraceContext context traceId route method)
  | .markTainted context mark => (none, p.markTainted context mark)
  | .check context sink value => (p.checkSink context sink value, p)
  | .inspectQuery context value => p.inspectQuery context value
  | .endTraceContext context => (none, p.endTraceContext context)

/-- `runWithRequest(route, method, params, fn)`, up to the call of `fn`: the calls that it makes. -/
def runWithRequest (context : Nat) (traceId route method : JString)
    (params : List (JString × Value)) : List Call :=
  .startTraceContext context traceId route method ::
    params.map fun (key, value) ↦ .markTainted context ⟨value, java "PARAMETER", key⟩

end Aegis.NodeAgent
