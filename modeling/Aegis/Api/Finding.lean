import Mathlib.Data.List.DropRight
import Aegis.Api.Inventory

/-!
# Findings

`domain/entities/findings.py`: the managed record of a defect, its identity, its score and how a
sighting is folded into it. Scores and weights are exact decimals.
-/

namespace Aegis.Api

open Server

/-- Where a finding sits in its lifecycle. -/
inductive FindingStatus where
  | OPEN | CONFIRMED | REMEDIATED | FALSE_POSITIVE | ACCEPTED_RISK
  deriving DecidableEq, Repr

/-- The name of the status. -/
def FindingStatus.value : FindingStatus → PyStr
  | OPEN => py "OPEN"
  | CONFIRMED => py "CONFIRMED"
  | REMEDIATED => py "REMEDIATED"
  | FALSE_POSITIVE => py "FALSE_POSITIVE"
  | ACCEPTED_RISK => py "ACCEPTED_RISK"

/-- Suppressed findings absorb recurrences instead of reopening. -/
def FindingStatus.isSuppressed (status : FindingStatus) : Bool :=
  status = FALSE_POSITIVE || status = ACCEPTED_RISK

/-- How bad a defect is. -/
inductive Severity where
  | INFO | LOW | MEDIUM | HIGH | CRITICAL
  deriving DecidableEq, Repr

namespace Severity

/-- The severities in declaration order. -/
def values : List Severity :=
  [INFO, LOW, MEDIUM, HIGH, CRITICAL]

/-- The name of the severity. -/
def value : Severity → PyStr
  | INFO => py "INFO"
  | LOW => py "LOW"
  | MEDIUM => py "MEDIUM"
  | HIGH => py "HIGH"
  | CRITICAL => py "CRITICAL"

/-- The score a finding of the severity starts from. -/
def baseScore : Severity → ℚ
  | INFO => 1
  | LOW => 3
  | MEDIUM => 5
  | HIGH => 75 / 10
  | CRITICAL => 9

end Severity

/-- How sure the agent is that a finding is real. -/
inductive Confidence where
  | SUSPECTED | CONFIRMED | EXPLOITED
  deriving DecidableEq, Repr

namespace Confidence

/-- The confidences in declaration order. -/
def values : List Confidence :=
  [SUSPECTED, CONFIRMED, EXPLOITED]

/-- The name of the confidence. -/
def value : Confidence → PyStr
  | SUSPECTED => py "SUSPECTED"
  | CONFIRMED => py "CONFIRMED"
  | EXPLOITED => py "EXPLOITED"

/-- Factor of the score. -/
def multiplier : Confidence → ℚ
  | SUSPECTED => 7 / 10
  | CONFIRMED => 1
  | EXPLOITED => 12 / 10

/-- What the confidence means, for the reasoning of a score. -/
def meaning : Confidence → PyStr
  | EXPLOITED => py "an attack payload reached the sink"
  | CONFIRMED => py "dataflow confirmed from source to sink"
  | SUSPECTED => py "dataflow incomplete or imprecise"

end Confidence

/-! ## Identity -/

/-- A stack frame, with whether it is code of the application. -/
structure Frame where
  declaringClass : PyStr
  methodName : PyStr
  isApplicationCode : Bool

/-- How a frame enters the fingerprint. -/
def Frame.label (frame : Frame) : PyStr :=
  frame.declaringClass ++ py "#" ++ frame.methodName

/-- `stack_fingerprint`: the digest of the innermost application frames. -/
def stackFingerprint (lib : Library) (frames : List Frame) (depth : Nat) :
    Except PyException PyStr := do
  let applicationFrames := (frames.filter Frame.isApplicationCode).map Frame.label
  let data ← (PyStr.join (py "|") (applicationFrames.take depth)).encode
  .ok (lib.hexdigest data)

/-- `_normalize_signature`. -/
def normalizeSignature (lib : Library) (signature : PyStr) : PyStr :=
  let normalized := PyStr.join (py " ") signature.split
  lib.lower (PyStr.before 58 normalized).strip

/-- The parts of an identity, `parts` of `finding_identity`. -/
def identityParts (lib : Library) (organizationId applicationId : Uuid)
    (ruleKey sinkSignature sourceKind stackHash : PyStr) : List PyStr :=
  [organizationId.toStr, applicationId.toStr, lib.lower ruleKey.strip,
    normalizeSignature lib sinkSignature, lib.upper sourceKind.strip, stackHash]

/-- `finding_identity`: the deterministic identity of a defect. -/
def findingIdentity (lib : Library) (organizationId applicationId : Uuid)
    (ruleKey sinkSignature sourceKind stackHash : PyStr) : Except PyException PyStr := do
  let parts := identityParts lib organizationId applicationId ruleKey sinkSignature sourceKind
    stackHash
  let data ← (PyStr.join [0x1F] parts).encode
  .ok (lib.hexdigest data)

/-! ## Scores -/

/-- One factor of a score: its name, how much it moved the score, and why. -/
structure ScoreFactor where
  name : PyStr
  delta : ℚ
  reason : PyStr

/-- A score with its reasoning attached. -/
structure RiskScore where
  value : ℚ
  factors : List ScoreFactor

/-- A weight as the reasoning shows it. -/
def weightText (weight : ℚ) : PyStr :=
  PyStr.fixed2 (roundHalfEven (weight * 100)).toNat

/-- `score_finding`: combine the factors that decide what gets fixed first. -/
def scoreFinding (severity : Severity) (confidence : Confidence)
    (exposureWeight criticalityWeight : ℚ) (attackObserved : Bool) (occurrenceCount : Nat) :
    RiskScore :=
  let base := severity.baseScore
  let confident := base * confidence.multiplier
  let exposed := confident * exposureWeight
  let weighed := exposed * criticalityWeight
  let attacked := if attackObserved then weighed + 1 else weighed
  let recurring :=
    if occurrenceCount > 1 then
      attacked + min (5 / 10 : ℚ) (1 / 10 * ((bitLength occurrenceCount - 1 : Nat) : ℚ))
    else attacked
  { value := roundTo 2 (min recurring 10)
    factors :=
      [⟨py "severity", base, severity.value ++ py " rule class"⟩,
        ⟨py "confidence", confident - base,
          confidence.value ++ py ": " ++ confidence.meaning⟩,
        ⟨py "exposure", exposed - confident,
          py "environment weight " ++ weightText exposureWeight⟩,
        ⟨py "business criticality", weighed - exposed,
          py "application weight " ++ weightText criticalityWeight⟩] ++
      (if attackObserved then
        [⟨py "active attack", attacked - weighed, py "exploitation attempts observed"⟩]
      else []) ++
      if occurrenceCount > 1 then
        [⟨py "recurrence", recurring - attacked,
          PyStr.decimal occurrenceCount ++ py " occurrences"⟩]
      else [] }

/-! ## The finding -/

/-- A title that is not blank and that its column has room for. -/
abbrev Title := { title : PyStr // title.strip ≠ [] ∧ title.length ≤ 200 }

/-- Text that is not blank is not blank when it is stripped and cut. -/
theorem strip_take_strip_ne_nil {s : PyStr} (h : s.strip ≠ []) {n : Nat} (hn : 0 < n) :
    PyStr.strip (s.strip.take n) ≠ [] := by
  obtain ⟨c, rest, hcons, hc⟩ := PyStr.strip_head h
  obtain ⟨n, rfl⟩ : ∃ m, n = m + 1 := ⟨n - 1, by omega⟩
  rw [hcons, List.take_succ_cons, ne_eq, PyStr.strip_eq_nil_iff]
  intro hblank
  rw [hblank c List.mem_cons_self] at hc
  exact nomatch hc

/-- What a finding makes of the title it is given: it is stripped and cut, and may not be blank. -/
def Title.make (title : PyStr) : Except PyException Title :=
  if h : title.strip = [] then .error .InvalidStateError
  else .ok ⟨title.strip.take 200, strip_take_strip_ne_nil h (by decide), List.length_take_le _ _⟩

/-- The title of a stored finding, stripped and cut once more. -/
def Title.reload (title : Title) : Title :=
  ⟨title.val.strip.take 200, strip_take_strip_ne_nil title.property.1 (by decide),
    List.length_take_le _ _⟩

/-- Distinct routes remembered for each finding. -/
def MAX_ROUTES : Nat := 20

/-- One defect in one application. -/
structure Finding where
  id : Uuid
  organizationId : Uuid
  applicationId : Uuid
  identityHash : PyStr
  ruleKey : PyStr
  title : Title
  severity : Severity
  confidence : Confidence
  sinkSignature : PyStr
  sourceKind : PyStr
  stackHash : PyStr
  status : FindingStatus
  riskScore : ℚ
  riskFactors : List ScoreFactor
  occurrenceCount : Nat
  suppressedOccurrenceCount : Nat
  wouldBlockCount : Nat
  environmentsSeen : List PyStr
  routeTemplates : List PyStr
  firstSeenAt : Option Instant
  lastSeenAt : Option Instant
  remediatedAt : Option Instant
  regressed : Bool
  acceptedUntil : Option Instant
  triageNote : PyStr
  triagedBy : Option Uuid
  cweId : Option Nat

namespace Finding

/-- A finding made of the fields that have no default, with the defaults of its class. -/
def create (id organizationId applicationId : Uuid) (identityHash ruleKey : PyStr) (title : Title)
    (severity : Severity) (confidence : Confidence) (sinkSignature sourceKind stackHash : PyStr) :
    Finding where
  id := id
  organizationId := organizationId
  applicationId := applicationId
  identityHash := identityHash
  ruleKey := ruleKey
  title := title
  severity := severity
  confidence := confidence
  sinkSignature := sinkSignature
  sourceKind := sourceKind
  stackHash := stackHash
  status := .OPEN
  riskScore := 0
  riskFactors := []
  occurrenceCount := 0
  suppressedOccurrenceCount := 0
  wouldBlockCount := 0
  environmentsSeen := []
  routeTemplates := []
  firstSeenAt := none
  lastSeenAt := none
  remediatedAt := none
  regressed := false
  acceptedUntil := none
  triageNote := []
  triagedBy := none
  cweId := none

/-- How often the defect was seen, suppressed or not. -/
def sightings (finding : Finding) : Nat :=
  finding.occurrenceCount + finding.suppressedOccurrenceCount

/-- `record_would_block`: an exploitation attempt that blocking mode would have stopped. -/
def recordWouldBlock (finding : Finding) : Finding :=
  { finding with wouldBlockCount := finding.wouldBlockCount + 1 }

/-- The part of `record_occurrence` before the counters: when and where the defect was seen. -/
def recordPlace (finding : Finding) (environment routeTemplate : PyStr) (observedAt : Instant) :
    Finding :=
  { finding with
    lastSeenAt := some observedAt
    firstSeenAt := some (finding.firstSeenAt.getD observedAt)
    environmentsSeen :=
      if !environment.isEmpty && environment ∉ finding.environmentsSeen then
        finding.environmentsSeen ++ [environment]
      else finding.environmentsSeen
    routeTemplates :=
      if !routeTemplate.isEmpty && routeTemplate ∉ finding.routeTemplates then
        (finding.routeTemplates ++ [routeTemplate]).take MAX_ROUTES
      else finding.routeTemplates }

/-- `record_occurrence`: fold a repeat sighting into the finding. True when the finding reopened as
a regression. -/
def recordOccurrence (finding : Finding) (environment routeTemplate : PyStr)
    (observedAt : Instant) : Finding × Bool :=
  let seen := finding.recordPlace environment routeTemplate observedAt
  if finding.status.isSuppressed then
    ({ seen with suppressedOccurrenceCount := finding.suppressedOccurrenceCount + 1 }, false)
  else
    let counted := { seen with occurrenceCount := finding.occurrenceCount + 1 }
    if finding.status = .REMEDIATED then
      ({ counted with status := .OPEN, regressed := true, remediatedAt := none }, true)
    else (counted, false)

/-- `rescore`. -/
def rescore (finding : Finding) (score : RiskScore) : Finding :=
  { finding with riskScore := score.value, riskFactors := score.factors }

/-- A sighting is counted once, whatever the status. -/
theorem sightings_record_occurrence (finding : Finding) (environment routeTemplate : PyStr)
    (observedAt : Instant) :
    (finding.recordOccurrence environment routeTemplate observedAt).1.sightings =
      finding.sightings + 1 := by
  unfold recordOccurrence sightings
  split
  · simp only [recordPlace]
    omega
  · split <;> simp only [recordPlace] <;> omega

end Finding

/-- One observed sighting of a finding, with the evidence attached. -/
structure Occurrence where
  id : Uuid
  organizationId : Uuid
  findingId : Uuid
  environment : PyStr
  traceId : PyStr
  requestMethod : PyStr
  requestPath : PyStr
  routeTemplate : PyStr
  sinkArgument : PyStr
  taintedRanges : List (Int × Int × PyStr × PyStr)
  stackFrames : List (PyStr × PyStr × Int × Bool)
  remoteAddress : PyStr
  attackDetected : Bool
  observedAt : Instant

end Aegis.Api
