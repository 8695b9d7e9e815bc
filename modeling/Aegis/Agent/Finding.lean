import Aegis.Agent.Redactor
import Aegis.Agent.Taint.Value

/-!
# Findings

`Finding` and `SinkDetector` of the Java agent: whether a value that arrives at a sink is a finding,
and the evidence a finding carries. The digest in the stack fingerprint is the platform's.
-/

namespace Aegis.Agent

/-- How much the agent is prepared to claim. -/
inductive Confidence where
  | OBSERVED | CONFIRMED | EXPLOITED
  deriving DecidableEq, Repr

/-- One application frame from the stack captured at the sink. -/
structure StackFrame where
  declaringClass : JString
  methodName : JString
  lineNumber : Int
  applicationCode : Bool
  deriving DecidableEq

/-- An element of the stack as the platform captures it. -/
structure StackTraceElement where
  className : JString
  methodName : JString
  lineNumber : Int
  deriving DecidableEq

/-- A confirmed dataflow from an untrusted source to a security-sensitive sink. -/
structure Finding where
  rule : RuleClass
  confidence : Confidence
  sinkSignature : JString
  sinkArgument : JString
  ranges : List TaintRange
  stack : List StackFrame
  stackFingerprint : JString
  sanitizersApplied : List JString
  validatorsApplied : List JString
  imprecise : Bool
  deriving DecidableEq

/-- A validated but unsanitized flow is real, but not as loud as an unguarded one. -/
def Finding.effectiveSeverity (f : Finding) : Severity :=
  match f.confidence, f.rule.severity with
  | .OBSERVED, .CRITICAL => .HIGH
  | .OBSERVED, .HIGH => .MEDIUM
  | .OBSERVED, .MEDIUM => .LOW
  | .OBSERVED, _ => .INFO
  | _, severity => severity

/-- The detector with its settings. -/
structure SinkDetector where
  redactor : Redactor
  applicationPackages : List JString

namespace SinkDetector

/-- Package prefixes that are never application code. -/
def FRAMEWORK_PREFIXES : List JString :=
  ["java.", "javax.", "jakarta.", "jdk.", "sun.", "com.sun.", "org.springframework.",
    "org.apache.", "org.hibernate.", "org.eclipse.", "io.netty.", "reactor.", "kotlin.", "scala.",
    "com.fasterxml.", "ch.qos.logback.", "org.slf4j.", "org.junit.", "org.h2.", "org.postgresql.",
    "com.mysql.", "oracle.jdbc.", "com.microsoft.sqlserver.", "com.zaxxer.hikari.",
    "dev.aegis."].map java

/-- How many application frames form the fingerprint. -/
def FINGERPRINT_DEPTH : Nat := 5

/-- How many frames are kept. -/
def MAX_FRAMES : Nat := 24

/-- The class is the customer's. An explicit allow-list wins. -/
def isApplicationCode (d : SinkDetector) (className : JString) : Bool :=
  !className.isEmpty &&
    ((d.applicationPackages.any fun front ↦ !front.isEmpty && className.startsWith front) ||
      !FRAMEWORK_PREFIXES.any fun front ↦ className.startsWith front)

/-- The frames kept of a stack: those of the agent itself are dropped. -/
def captureFrames (d : SinkDetector) (stack : List StackTraceElement) : List StackFrame :=
  ((stack.filter fun element ↦ !element.className.startsWith (java "dev.aegis.agent.")).map
    fun element ↦ ⟨element.className, element.methodName, element.lineNumber,
      d.isApplicationCode element.className⟩).take MAX_FRAMES

variable (platform : Platform)

/-- Identity of the code path, without line numbers. -/
def fingerprint (frames : List StackFrame) : JString :=
  platform.sha256 (((frames.filter fun frame ↦ frame.applicationCode).take
    FINGERPRINT_DEPTH).flatMap fun frame ↦
      frame.declaringClass ++ java "#" ++ frame.methodName ++ java ";")

/-- The keys of the rule classes already cleared on the ranges, each once. -/
def sanitizersOn (taint : TaintedValue) : List JString :=
  let cleared := taint.ranges.flatMap fun range ↦
    (RuleClass.values.filter range.isSafeFor).map RuleClass.key
  cleared.foldl (fun applied key ↦ if key ∈ applied then applied else applied ++ [key]) []

/-- Validators are not modelled by the agent. -/
def validatorsOn (_ranges : List TaintRange) : List JString :=
  []

/-- Evaluate a sink hit: the finding, or `none` when there is nothing to report. -/
def evaluate (d : SinkDetector) (taint : TaintedValue) (argument : JString) (rule : RuleClass)
    (sinkSignature : JString) (stack : List StackTraceElement) (payloadLooksMalicious : Bool) :
    Option Finding :=
  if !taint.isTainted then none
  else if !taint.isDangerousIn 0 argument.length rule then none
  else
    let dangerous := taint.dangerousRanges rule
    if dangerous.isEmpty then none
    else
      let validators := validatorsOn dangerous
      let confidence :=
        if payloadLooksMalicious then .EXPLOITED
        else if validators.isEmpty then .CONFIRMED
        else .OBSERVED
      let frames := d.captureFrames stack
      some
        { rule := rule
          confidence := confidence
          sinkSignature := sinkSignature
          sinkArgument := d.redactor.redactValue platform (some argument)
          ranges := dangerous
          stack := frames
          stackFingerprint := fingerprint platform frames
          sanitizersApplied := sanitizersOn taint
          validatorsApplied := validators
          imprecise := taint.imprecise }

end SinkDetector

end Aegis.Agent
