import Aegis.Agent.Hook

/-!
# The hooks

`AgentRuntime` of the Java agent, hook by hook: the request lifecycle, the sources, the propagators,
the sanitizers and the sinks. Each body follows its try block statement by statement. What the
platform answers during a call (clocks, random numbers, the captured stack, what a request object
says) is an argument. A null reference is `none`.
-/

namespace Aegis.Agent

namespace AgentRuntime

/-! ## Request lifecycle -/

/-- What `HttpFacade` can read from a request object. `routePatterns` holds the framework's route
attributes in the order they are looked up, empty where there is none. -/
structure HttpRequest where
  usable : Bool
  method : JString
  requestUri : JString
  remoteAddr : JString
  routePatterns : List JString
  authenticated : Bool
  deriving DecidableEq

/-- `HttpFacade.describe`. -/
def describe (request : Option HttpRequest) (c : RequestContext) : RequestContext :=
  match request with
  | none => c
  | some request =>
      if request.usable then
        c.withHttp (some request.method) (some request.requestUri) (some request.remoteAddr)
      else c

/-- `HttpFacade.routeTemplate`. -/
def routeTemplate (request : Option HttpRequest) : JString :=
  (request.bind fun request ↦ request.routePatterns.find? fun s ↦ !s.isEmpty).getD []

/-- `HttpFacade.isAuthenticated`. -/
def isAuthenticated (request : Option HttpRequest) : Bool :=
  request.any HttpRequest.authenticated

/-- `RequestContext.begin`: a new context becomes the thread's. -/
def beginContext (traceId : JString) (sampled : Bool) (p : Process) : Process :=
  { p with
    heap := p.heap.allocate (.create traceId sampled)
    thread := { p.thread with context := some p.heap.nextContext } }

/-- `RequestContext.end`: the taint table is released and the thread has no context any more. -/
def endContext (p : Process) : Process :=
  match p.thread.context with
  | none => p
  | some id =>
      { p with
        heap := p.heap.updateContext id RequestContext.release
        thread := { p.thread with context := none } }

/-- Create the context of a request and describe the request in it. -/
def beginRequest (request : Option HttpRequest) (draw : Bool) (traceId : JString) :
    Call Bool := do
  let sampled ← onHeap (fetch fun h ↦ h.governor.shouldSample draw)
  Prog.attempt .internal
  Prog.modify (beginContext traceId sampled)
  match ← Prog.read fun p ↦ p.thread.context with
  | none => return false
  | some id =>
      onHeap (change fun h ↦ h.updateContext id (describe request))
      return true

/-- The try block of `onRequestEnter`. -/
def requestEnterBody (request : Option HttpRequest) (draw : Bool) (traceId : JString) :
    Call Bool := do
  if (← Prog.read fun p ↦ p.thread.context).isSome then return false
  if (← Prog.read fun p ↦ p.heap.governor.level) = .UNINSTALLED then return false
  beginRequest request draw traceId

/-- The catch block of `onRequestEnter`. -/
def requestEnterFailed : Call Bool := do
  onHeap hookFailed
  return false

/-- An HTTP request is entering the application. True when this frame created the context and must
therefore end it. -/
def onRequestEnter (request : Option HttpRequest) (draw : Bool) (traceId : JString) :
    Call Bool := do
  if !(← Prog.read Process.installed) then return false
  if !(← enter) then return false
  Prog.finish (Prog.handle (requestEnterBody request draw traceId) fun _ ↦ requestEnterFailed)
    Process.exit

/-- What `onRequestExit` reports of the thread's context. -/
def reportRequest (request : Option HttpRequest) (moment : Moment) (context : Option Nat) :
    Body PUnit := do
  let some id := context | return
  let template ← fetch fun _ ↦ routeTemplate request
  if !template.isEmpty then
    change fun h ↦ h.updateContext id fun c ↦ c.withRouteTemplate (some template)
  change fun h ↦ { h with
    reporter := h.reporter.reportRoute (h.contexts id).method (h.contexts id).routeTemplate
      (isAuthenticated request) moment }

/-- The request is finishing, successfully or not. -/
def onRequestExit (owner : Bool) (request : Option HttpRequest) (moment : Moment) :
    Call PUnit := do
  let installed ← Prog.read Process.installed
  if !installed || !owner then return
  if !(← enter) then return
  Prog.finish
    (do
      let context ← Prog.read fun p ↦ p.thread.context
      onHeap (failOpen .unit (reportRequest request moment context)))
    fun p ↦ (endContext p).exit

/-! ## Sources -/

/-- What a servlet accessor returned. -/
inductive Accessed where
  | string (value : StringRef)
  | strings (values : List (Option StringRef))
  | other
  deriving DecidableEq

/-- The source kind of an accessor, if it is a source. -/
def sourceKindOf (accessor : Option JString) : Option SourceKind :=
  match accessor with
  | none => none
  | some accessor =>
      if accessor = java "getParameter" ∨ accessor = java "getParameterValues" then some .PARAMETER
      else if accessor = java "getHeader" then some .HEADER
      else if accessor = java "getQueryString" then some .QUERY_STRING
      else if accessor = java "getPathInfo" ∨ accessor = java "getPathTranslated" then some .PATH
      else none

/-- The name of a source: the accessor's first argument when that is a string. -/
def sourceName (accessor : Option JString) (arguments : Option (List (Option Obj))) :
    Option JString :=
  match arguments with
  | some (some (.string key) :: _) => some key.value
  | _ => accessor

/-- Change the recorded parameters of a context. -/
def recordParameter (id : Nat) (name : Option JString) (value : Option StringRef) : Body PUnit :=
  change fun h ↦ h.updateContext id fun c ↦ c.recordParameter name (value.map StringRef.value)

/-- Track every string of an array as a source. -/
def trackSources (id : Nat) (kind : SourceKind) (name : Option JString) :
    List (Option StringRef) → Body PUnit
  | [] => return
  | value :: values => do
      updateTracker id fun t ↦ t.trackSource value kind name
      trackSources id kind name values

/-- The try block of `onHttpSource`. -/
def httpSourceBody (accessor : Option JString) (arguments : Option (List (Option Obj)))
    (result : Accessed) (context : Option Nat) : Body PUnit := do
  if !(← dataflowAllowed) then return
  let some id ← sampledContext context | return
  let some kind := sourceKindOf accessor | return
  let name := sourceName accessor arguments
  match result with
  | .string value =>
      updateTracker id fun t ↦ t.trackSource (some value) kind name
      recordParameter id name (some value)
  | .strings values =>
      trackSources id kind name values
      match values with
      | [] => return
      | first :: _ => recordParameter id name first
  | .other => return

/-- A servlet accessor returned attacker-controlled data. -/
def onHttpSource (accessor : Option JString) (arguments : Option (List (Option Obj)))
    (result : Option Accessed) : Call PUnit :=
  guardedHook result.isSome .unit fun context ↦ do
    let some result := result | return
    httpSourceBody accessor arguments result context

/-- `Cookie.getValue()`. The cookie is given by the name it reports. -/
def onCookieValue (cookie : Option JString) (value : Option StringRef) : Call PUnit :=
  guardedHook (value.any fun ref ↦ !ref.value.isEmpty) .unit fun context ↦ do
    if !(← dataflowAllowed) then return
    let some id ← sampledContext context | return
    let name := (cookie.filter fun name ↦ !name.isEmpty).getD (java "cookie")
    updateTracker id fun t ↦ t.trackSource value .COOKIE (some name)

/-- The application read the request body as a stream. -/
def onRequestBodySource (stream : Option Nat) : Call PUnit :=
  guardedHook stream.isSome .unit fun context ↦ do
    if !(← dataflowAllowed) then return
    let some id ← sampledContext context | return
    let taint := (TaintedValue.fullyTainted 1 .BODY (some (java "request-body"))).reshaped 1
    updateTracker id fun t ↦ t.track stream (some taint)

/-- `trackSource` where the kind may be null, which raises when a range is made. -/
def trackSourceOf (id : Nat) (value : Option StringRef) (kind : Option SourceKind)
    (name : Option JString) : Body PUnit :=
  match kind with
  | some kind => updateTracker id fun t ↦ t.trackSource value kind name
  | none => if value.any fun ref ↦ !ref.value.isEmpty then Prog.raise .internal else return

/-- Mark a value returned by a source as attacker-controllable. -/
def onSource (value : Option StringRef) (kind : Option SourceKind) (name : Option JString) :
    Call PUnit :=
  lateCheckedHook (fun h ↦ h.governor.level.allowsDataflow) .unit fun context ↦ do
    let some id ← sampledContext context | return
    trackSourceOf id value kind name
    recordParameter id name value

/-- Each element of a wrapped enumeration will be a source. True when the enumeration is wrapped. -/
def onSourceEnumeration (values : Option Nat) : Call Bool :=
  guardedHook values.isSome false fun context ↦ do
    if !(← dataflowAllowed) then return false
    return (← sampledContext context).isSome

/-! ## Propagators -/

/-- `String.valueOf(object).length()`. -/
def lengthOf (value : Option Obj) : Body Int := do
  let text ← orRaise (valueOf value)
  return text.length

/-- `result = left + right`. -/
def concatBody (result : StringRef) (left right : Option Obj) (context : Option Nat) :
    Body PUnit := do
  let some id ← sampledContext context | return
  let tracker ← trackerOf id
  if tracker.isEmpty then return
  let leftTaint := tracker.taintOf (left.map Obj.id)
  let rightTaint := tracker.taintOf (right.map Obj.id)
  if !leftTaint.isTainted && !rightTaint.isTainted then return
  let leftLength ← if left.isNone then pure 0 else lengthOf left
  track id result.id (← orRaise (leftTaint.concat leftLength rightTaint))

/-- A string was concatenated. -/
def onConcat (result : Option StringRef) (left right : Option Obj) : Call PUnit :=
  lateCheckedHook (fun h ↦ result.isSome && h.governor.level.allowsDataflow) .unit
    fun context ↦ do
      let some result := result | return
      concatBody result left right context

/-- Placeholder in a recipe for a dynamic argument. -/
def RECIPE_ARGUMENT : JChar := 1

/-- Placeholder in a recipe for a constant. -/
def RECIPE_CONSTANT : JChar := 2

/-- The loop over a recipe: the taint accumulated and the length reached. It stops with `none` when
the recipe asks for an argument or a constant that is not there. -/
def concatLoop (tracker : TaintTracker) :
    JString → List (Option Obj) → List (Option Obj) → TaintedValue → Int →
    Body (Option (TaintedValue × Int))
  | [], _, _, accumulated, offset => return some (accumulated, offset)
  | marker :: recipe, arguments, constants, accumulated, offset =>
      if marker = RECIPE_ARGUMENT then
        match arguments with
        | [] => return none
        | argument :: arguments => do
            let taint := tracker.taintOf (argument.map Obj.id)
            let accumulated ← orRaise (accumulated.concat offset taint)
            let length ← lengthOf argument
            concatLoop tracker recipe arguments constants accumulated (offset + length)
      else if marker = RECIPE_CONSTANT then
        match constants with
        | [] => return none
        | constant :: constants => do
            let length ← lengthOf constant
            concatLoop tracker recipe arguments constants accumulated (offset + length)
      else concatLoop tracker recipe arguments constants accumulated (offset + 1)

/-- The try block of `onIndyConcat`. -/
def indyConcatBody (result : StringRef) (recipe : Option JString)
    (constants arguments : Option (List (Option Obj))) (context : Option Nat) : Body PUnit := do
  if !(← dataflowAllowed) then return
  let some id ← sampledContext context | return
  let tracker ← trackerOf id
  if tracker.isEmpty then return
  let arguments ← orRaise arguments
  if !arguments.any fun argument ↦ (tracker.taintOf (argument.map Obj.id)).isTainted then return
  let recipe ← orRaise recipe
  let constants ← orRaise constants
  let some (accumulated, offset) ← concatLoop tracker recipe arguments constants .empty 0 | return
  if offset ≠ result.value.length then return
  track id result.id accumulated

/-- Reconstruct where each argument of an `invokedynamic` concatenation landed. -/
def onIndyConcat (result : StringRef) (recipe : Option JString)
    (constants arguments : Option (List (Option Obj))) : Call PUnit :=
  guardedHook true .unit (indyConcatBody result recipe constants arguments)

/-- The try block of `onBuilderAppend`. -/
def builderAppendBody (builder : Nat) (lengthBefore : Int) (appended : Option Obj)
    (context : Option Nat) : Body PUnit := do
  let some id ← sampledContext context | return
  let tracker ← trackerOf id
  if tracker.isEmpty then return
  let appendedTaint := tracker.taintOf (appended.map Obj.id)
  let builderTaint := tracker.taintOf (some builder)
  if !appendedTaint.isTainted && !builderTaint.isTainted then return
  track id builder (← orRaise (builderTaint.concat lengthBefore appendedTaint))

/-- `StringBuilder.append(x)`. -/
def onBuilderAppend (builder : Option Nat) (lengthBefore : Int) (appended : Option Obj) :
    Call PUnit :=
  lateCheckedHook (fun h ↦ builder.isSome && h.governor.level.allowsDataflow) .unit
    fun context ↦ do
      let some builder := builder | return
      builderAppendBody builder lengthBefore appended context

/-- The try block of `onBuilderReplace`. -/
def builderReplaceBody (builder : Nat) (lengthBefore lower upper : Int) (replacement : Option Obj)
    (replacementLength : Int) (context : Option Nat) : Body PUnit := do
  if !(← dataflowAllowed) then return
  let some id ← sampledContext context | return
  let tracker ← trackerOf id
  if tracker.isEmpty then return
  let builderTaint := tracker.taintOf (some builder)
  let replacementTaint := tracker.taintOf (replacement.map Obj.id)
  if !builderTaint.isTainted && !replacementTaint.isTainted then return
  let effectiveTo := min upper lengthBefore
  track id builder
    (← orRaise (builderTaint.replace lower effectiveTo replacementTaint replacementLength))

/-- `StringBuilder.replace(start, end, value)`. -/
def onBuilderReplace (builder : Option Nat) (lengthBefore lower upper : Int)
    (replacement : Option Obj) (replacementLength : Int) : Call PUnit :=
  guardedHook builder.isSome .unit fun context ↦ do
    let some builder := builder | return
    builderReplaceBody builder lengthBefore lower upper replacement replacementLength context

/-- The try block of `onBuilderReverse`. -/
def builderReverseBody (builder : Nat) (length : Int) (context : Option Nat) : Body PUnit := do
  if !(← dataflowAllowed) then return
  let some id ← sampledContext context | return
  let tracker ← trackerOf id
  if tracker.isEmpty then return
  let builderTaint := tracker.taintOf (some builder)
  if builderTaint.isTainted then track id builder (builderTaint.reversed length)

/-- `StringBuilder.reverse()`. -/
def onBuilderReverse (builder : Option Nat) (length : Int) : Call PUnit :=
  guardedHook builder.isSome .unit fun context ↦ do
    let some builder := builder | return
    builderReverseBody builder length context

/-- The loop over the arguments of a format: their taint, at artificial offsets. -/
def combineTaint (tracker : TaintTracker) : List (Option Obj) → TaintedValue → Body TaintedValue
  | [], combined => return combined
  | argument :: arguments, combined => do
      let combined ← orRaise (combined.concat 0 (tracker.taintOf (argument.map Obj.id)))
      combineTaint tracker arguments combined

/-- The try block of `onStringFormat`. -/
def stringFormatBody (result : StringRef) (format : Option Obj)
    (arguments : Option (List (Option Obj))) (context : Option Nat) : Body PUnit := do
  if !(← dataflowAllowed) then return
  let some id ← sampledContext context | return
  let tracker ← trackerOf id
  if tracker.isEmpty then return
  let combined ← combineTaint tracker (arguments.getD []) (tracker.taintOf (format.map Obj.id))
  if combined.isTainted then track id result.id (combined.reshaped result.value.length)

/-- `String.format(...)` and `String.formatted(...)`. -/
def onStringFormat (result : Option StringRef) (format : Option Obj)
    (arguments : Option (List (Option Obj))) : Call PUnit :=
  guardedHook (result.any fun ref ↦ !ref.value.isEmpty) .unit fun context ↦ do
    let some result := result | return
    stringFormatBody result format arguments context

/-- What the unary propagators share: when the source is tainted, something is done with its
taint. -/
def propagateTaint (source : Option Obj) (context : Option Nat)
    (use : Nat → TaintedValue → Body PUnit) : Body PUnit := do
  let some id ← sampledContext context | return
  let tracker ← trackerOf id
  if tracker.isEmpty then return
  let taint := tracker.taintOf (source.map Obj.id)
  if taint.isTainted then use id taint

/-- A transform that rewrites the value wholesale. -/
def onReshapingTransform (result : Option StringRef) (source : Option Obj) : Call PUnit :=
  guardedHook result.isSome .unit fun context ↦ do
    let some result := result | return
    propagateTaint source context fun id taint ↦
      track id result.id (taint.reshaped result.value.length)

/-- Track every nonempty string of a split as wholly derived. -/
def trackPieces (id : Nat) (taint : TaintedValue) : List (Option Obj) → Body PUnit
  | [] => return
  | some (.string text) :: pieces => do
      if !text.value.isEmpty then track id text.id (taint.reshaped text.value.length)
      trackPieces id taint pieces
  | _ :: pieces => trackPieces id taint pieces

/-- `String.split(regex)`. -/
def onSplit (pieces : Option (List (Option Obj))) (source : Option Obj) : Call PUnit :=
  guardedHook pieces.isSome .unit fun context ↦ do
    let some pieces := pieces | return
    propagateTaint source context fun id taint ↦ trackPieces id taint pieces

/-- A length-preserving transform. -/
def onPreservingTransform (result : Option StringRef) (source : Option Obj) : Call PUnit :=
  lateCheckedHook (fun _ ↦ result.isSome) .unit fun context ↦ do
    let some result := result | return
    propagateTaint source context fun id taint ↦ track id result.id taint.preservingTransform

/-- `source.substring(from, to)`. -/
def onSubstring (result : Option StringRef) (source : Option Obj) (lower upper : Int) :
    Call PUnit :=
  lateCheckedHook (fun _ ↦ result.isSome) .unit fun context ↦ do
    let some result := result | return
    propagateTaint source context fun id taint ↦ track id result.id (taint.substring lower upper)

/-- Carry taint from a value onto a derived object. -/
def onDerivedObject (derived : Option Nat) (source : Option Obj) : Call PUnit :=
  guardedHook derived.isSome .unit fun context ↦ do
    let some derived := derived | return
    propagateTaint source context fun id taint ↦ track id derived taint

/-- `ServletResponse.getWriter()`: remember where the response body goes. -/
def onResponseChannel (channel : Option Nat) : Call PUnit :=
  guardedHook channel.isSome .unit fun context ↦ do
    let some id := context | return
    change fun h ↦ h.updateContext id fun c ↦ c.registerResponseChannel channel

/-- Bind the current context to a task. The result is the context that the wrapped task will run
under, if the task is wrapped. -/
def wrapForHandoff (task : Option Nat) : Call (Option Nat) :=
  guardedHook task.isSome none fun context ↦ do
    Prog.attempt .internal
    return context

/-! ## Sanitizers -/

/-- What the sanitizers share. A sanitizer runs on unsampled requests too. -/
def sanitizeBody (source : Option Obj) (context : Option Nat)
    (use : Nat → TaintedValue → Body PUnit) : Body PUnit := do
  let some id := context | return
  let tracker ← trackerOf id
  if tracker.isEmpty then return
  let taint := tracker.taintOf (source.map Obj.id)
  if taint.isTainted then use id taint

/-- A sanitizer ran: clear the value for that rule class only. -/
def onSanitized (result : Option StringRef) (source : Option Obj) (rule : Option RuleClass) :
    Call PUnit :=
  lateCheckedHook (fun _ ↦ result.isSome) .unit fun context ↦ do
    let some result := result | return
    sanitizeBody source context fun id taint ↦ do
      let rule ← orRaise rule
      track id result.id (taint.sanitizedFor rule)

/-- An encoder ran that clears several rule classes. -/
def sanitize (result : Option StringRef) (source : Option Obj) (rules : List RuleClass) :
    Call PUnit :=
  guardedHook result.isSome .unit fun context ↦ do
    let some result := result | return
    sanitizeBody source context fun id taint ↦
      track id result.id (rules.foldl TaintedValue.sanitizedFor taint)

/-- A URL-context encoder ran. -/
def onUrlEncoded (result : Option StringRef) (source : Option Obj) : Call PUnit :=
  sanitize result source [.OPEN_REDIRECT, .HEADER_INJECTION, .SSRF]

/-- An HTML or XML escaper ran. -/
def onHtmlEscaped (result : Option StringRef) (source : Option Obj) : Call PUnit :=
  sanitize result source [.REFLECTED_XSS]

/-- An LDAP or XPath encoder ran. -/
def onQueryEncoded (result : Option StringRef) (source : Option Obj) : Call PUnit :=
  sanitize result source [.LDAP_INJECTION, .XPATH_INJECTION]

/-! ## Sinks -/

/-- `argument instanceof String`. -/
def isString : Option Obj → Bool
  | some (.string _) => true
  | _ => false

/-- What the platform answers while a sink is evaluated: the captured stack, and the moment. -/
structure Capture where
  stack : List StackTraceElement
  moment : Moment
  deriving DecidableEq

/-- Report a finding once per defect and request. -/
def reportFinding (id : Nat) (finding : Finding) (moment : Moment) : Body PUnit := do
  let key := finding.rule.key ++ java "|" ++ finding.stackFingerprint
  let first ← fetch fun h ↦ ((h.contexts id).firstReport key).1
  change fun h ↦ h.updateContext id fun c ↦ (c.firstReport key).2
  if first then
    Prog.modify fun h ↦ { h with findingsReported := h.findingsReported + 1 }
    change fun h ↦ { h with
      reporter := h.reporter.report finding (some (h.contexts id)) moment }

/-- Report what the detector found, if anything, and return it. -/
def concludeSink (id : Nat) (moment : Moment) : Option Finding → Body (Option Finding)
  | none => return none
  | some finding => do
      reportFinding id finding moment
      return some finding

variable (platform : Platform)

/-- `detector.evaluate` with the verdict of the signatures, for a rule class that may be null: the
signatures raise on a null rule unless the value is empty, and an empty value is no finding. -/
def evaluateSink (taint : TaintedValue) (value : JString) (rule : Option RuleClass)
    (sinkSignature : JString) (stack : List StackTraceElement) : Body (Option Finding) := do
  match rule with
  | none => if value.isEmpty then return none else Prog.raise .internal
  | some rule =>
      fetch fun h ↦ h.detector.evaluate platform taint value rule sinkSignature stack
        (AttackSignatures.looksMalicious platform (some value) rule)

/-- The try block of `onSink`. -/
def sinkBody (argument : StringRef) (rule : Option RuleClass) (sinkSignature : JString)
    (capture : Capture) (context : Option Nat) : Body (Option Finding) := do
  let some id ← sampledContext context | return none
  Prog.modify fun h ↦ { h with sinksEvaluated := h.sinksEvaluated + 1 }
  let tracker ← trackerOf id
  if tracker.isEmpty then return none
  let taint := tracker.taintOf (some argument.id)
  if !taint.isTainted then return none
  let finding ← evaluateSink platform taint argument.value rule sinkSignature capture.stack
  concludeSink id capture.moment finding

/-- A security-sensitive operation is about to run with the argument. The finding is returned
whether or not it is reported. -/
def onSink (argument : Option Obj) (rule : Option RuleClass) (sinkSignature : JString)
    (capture : Capture) : Call (Option Finding) := do
  match argument with
  | some (.string value) =>
      lateCheckedHook (fun h ↦ h.governor.level.allowsDataflow) none
        (sinkBody platform value rule sinkSignature capture)
  | _ => return none

/-- The finding confirms an exploitation attempt. -/
def isExploited (finding : Option Finding) : Bool :=
  finding.any fun finding ↦ finding.confidence = .EXPLOITED

/-- The exception that stops an exploitation attempt. -/
def blocked (finding : Finding) : Throwable :=
  .SecurityException (java "Aegis blocked confirmed " ++ finding.rule.key ++
    java " exploitation")

/-- Evaluate and report a string sink, then stop only a confirmed exploitation attempt. -/
def onBlockingSink (argument : Option Obj) (rule : Option RuleClass) (sinkSignature : JString)
    (capture : Capture) : Call PUnit := do
  let finding ← onSink platform argument rule sinkSignature capture
  let blocking ← Prog.read fun p ↦ p.installed && p.heap.blockingEnabled
  match finding with
  | some finding => if blocking && isExploited (some finding) then Prog.raise (blocked finding)
  | none => return

/-- The try block of `onObjectSink`. -/
def objectSinkBody (argument : Nat) (className : JString) (rule : RuleClass)
    (sinkSignature : JString) (capture : Capture) (context : Option Nat) :
    Body (Option Finding) := do
  if !(← dataflowAllowed) then return none
  let some id ← sampledContext context | return none
  let tracker ← trackerOf id
  if tracker.isEmpty then return none
  Prog.modify fun h ↦ { h with sinksEvaluated := h.sinksEvaluated + 1 }
  let taint := tracker.taintOf (some argument)
  if !taint.isTainted then return none
  let finding ← fetch fun h ↦ h.detector.evaluate platform taint
    (java "<" ++ className ++ java ">") rule sinkSignature capture.stack false
  concludeSink id capture.moment finding

/-- A sink whose dangerous argument is not a string. The object is given with the simple name of
its class. -/
def onObjectSink (argument : Option (Nat × JString)) (rule : RuleClass) (sinkSignature : JString)
    (capture : Capture) : Call (Option Finding) :=
  guardedHook argument.isSome none fun context ↦ do
    let some argument := argument | return none
    objectSinkBody platform argument.1 argument.2 rule sinkSignature capture context

/-- Hand each argument to a blocking sink, until one is stopped. -/
def blockingSinks (rule : RuleClass) (sinkSignature : JString) (capture : Capture) :
    List (Option Obj) → Call PUnit
  | [] => return
  | argument :: arguments => do
      onBlockingSink platform argument (some rule) sinkSignature capture
      blockingSinks rule sinkSignature capture arguments

/-- `ProcessBuilder.start()`. The command is absent when copying it raises. -/
def onProcessStart (builder : Option (Option (List StringRef))) (capture : Capture) :
    Call PUnit := do
  let installed ← Prog.read Process.installed
  match builder with
  | none => return
  | some command =>
      if !installed then return
      match command with
      | none => onHeap hookFailed
      | some command =>
          blockingSinks platform .COMMAND_INJECTION (java "java.lang.ProcessBuilder#start()")
            capture (command.map fun argument ↦ some (.string argument))

/-- The target is a body channel of the response, asked under the guard. A failure counts as no. -/
def writesResponse (ready : Bool) (target : Option Nat) : Call Bool :=
  guardedHook ready false fun context ↦ do
    let some id := context | return false
    fetch fun h ↦ (h.contexts id).isResponseChannel target

/-- A write to something, which is a sink when the target is the response's body. -/
def onResponseWrite (target : Option Nat) (value : Option Obj) (capture : Capture) :
    Call PUnit := do
  if ← writesResponse (isString value) target then
    onBlockingSink platform value (some .REFLECTED_XSS)
      (java "jakarta.servlet.ServletResponse#getWriter") capture

/-- One argument of a format call: an object, or an array of them. -/
inductive FormatArgument where
  | single (value : Option Obj)
  | nested (values : List (Option Obj))
  deriving DecidableEq

/-- The objects of a format call that reach the sink: strings, and whatever an array holds. -/
def FormatArgument.reaching : FormatArgument → List (Option Obj)
  | single (some (.string ref)) => [some (.string ref)]
  | single _ => []
  | nested values => values

/-- `PrintWriter.format/printf`. -/
def onResponseFormat (target : Option Nat) (arguments : Option (List FormatArgument))
    (capture : Capture) : Call PUnit := do
  if ← writesResponse arguments.isSome target then
    blockingSinks platform .REFLECTED_XSS (java "java.io.PrintWriter#format(String,Object...)")
      capture ((arguments.getD []).flatMap FormatArgument.reaching)

end AgentRuntime

end Aegis.Agent
