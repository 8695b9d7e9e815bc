import Mathlib.Data.Finset.Basic
import Aegis.Lib.Span
import Aegis.Agent.Text

/-!
# Taint ranges

`TaintRange` of the Java agent: a contiguous span of a value that came from an untrusted source,
with the rule classes a sanitizer has cleared it for. The checks of the constructor are fields of
the structure, so an operation that would fail them yields `none` here where the source throws.
Positions are unbounded integers: every position of a range lies inside a Java string, so no
`int` computed from them overflows.
-/

namespace Aegis.Agent

open Spans

/-- How bad a defect of a rule class is. -/
inductive Severity where
  | INFO | LOW | MEDIUM | HIGH | CRITICAL
  deriving DecidableEq, Repr

/-- A family of vulnerability that a given sanitizer neutralizes. -/
inductive RuleClass where
  | SQL_INJECTION | COMMAND_INJECTION | PATH_TRAVERSAL | UNSAFE_DESERIALIZATION | XXE
  | REFLECTED_XSS | SSRF | LDAP_INJECTION | XPATH_INJECTION | OPEN_REDIRECT | LOG_INJECTION
  | HEADER_INJECTION
  deriving DecidableEq, Repr

namespace RuleClass

/-- The rule classes in declaration order, the iteration order of an `EnumSet`. -/
def values : List RuleClass :=
  [SQL_INJECTION, COMMAND_INJECTION, PATH_TRAVERSAL, UNSAFE_DESERIALIZATION, XXE, REFLECTED_XSS,
    SSRF, LDAP_INJECTION, XPATH_INJECTION, OPEN_REDIRECT, LOG_INJECTION, HEADER_INJECTION]

/-- Stable identifier used on the wire and in the rule catalogue. -/
def key : RuleClass → JString
  | SQL_INJECTION => java "sql-injection"
  | COMMAND_INJECTION => java "command-injection"
  | PATH_TRAVERSAL => java "path-traversal"
  | UNSAFE_DESERIALIZATION => java "unsafe-deserialization"
  | XXE => java "xxe"
  | REFLECTED_XSS => java "reflected-xss"
  | SSRF => java "ssrf"
  | LDAP_INJECTION => java "ldap-injection"
  | XPATH_INJECTION => java "xpath-injection"
  | OPEN_REDIRECT => java "open-redirect"
  | LOG_INJECTION => java "log-injection"
  | HEADER_INJECTION => java "header-injection"

/-- The severity of a finding of this class. -/
def severity : RuleClass → Severity
  | SQL_INJECTION | COMMAND_INJECTION | UNSAFE_DESERIALIZATION | XXE => .CRITICAL
  | PATH_TRAVERSAL | REFLECTED_XSS | SSRF | LDAP_INJECTION | XPATH_INJECTION => .HIGH
  | OPEN_REDIRECT | LOG_INJECTION | HEADER_INJECTION => .MEDIUM

end RuleClass

/-- Where attacker-controllable data entered the application. -/
inductive SourceKind where
  | PARAMETER | HEADER | COOKIE | BODY | PATH | QUERY_STRING | MESSAGE_QUEUE | DATABASE | FILE
  deriving DecidableEq, Repr

/-- A contiguous span of a value that came from an untrusted source. The last two fields are the
checks the constructor makes. -/
structure TaintRange where
  start : Int
  length : Int
  source : SourceKind
  sourceName : JString
  clearedFor : Finset RuleClass
  start_nonneg : 0 ≤ start
  length_pos : 0 < length
  deriving DecidableEq

namespace TaintRange

/-- `TaintRange.end()`, exclusive. -/
def endExclusive (r : TaintRange) : Int :=
  r.start + r.length

/-- A sanitizer for `rule` has been applied to this span. -/
def isSafeFor (r : TaintRange) (rule : RuleClass) : Bool :=
  rule ∈ r.clearedFor

/-- Shift by `delta`, as concatenation does to the right-hand operand. `none` is the exception
raised when the range would move before zero. -/
def shift (r : TaintRange) (delta : Int) : Option TaintRange :=
  if h : 0 ≤ r.start + delta then some { r with start := r.start + delta, start_nonneg := h }
  else none

/-- Intersect with `[lower, upper)` and rebase to that window, as `substring` does. `none` is the
`null` returned when nothing survives. -/
def clip (r : TaintRange) (lower upper : Int) : Option TaintRange :=
  if h : min r.endExclusive upper ≤ max r.start lower then none
  else
    some { r with
      start := max r.start lower - lower
      length := min r.endExclusive upper - max r.start lower
      start_nonneg := by omega
      length_pos := by omega }

/-- Mark this span sanitized for `rule`; other rule classes keep their taint. -/
def clearFor (r : TaintRange) (rule : RuleClass) : TaintRange :=
  if rule ∈ r.clearedFor then r else { r with clearedFor := insert rule r.clearedFor }

/-- This range shares at least one character with `[lower, upper)`. -/
def overlaps (r : TaintRange) (lower upper : Int) : Bool :=
  r.start < upper && lower < r.endExclusive

/-- Two ranges can be merged: adjacent or overlapping, same origin, and cleared for the same rule
classes. -/
def mergeableWith (r other : TaintRange) : Bool :=
  r.source == other.source && r.sourceName == other.sourceName &&
    decide (r.clearedFor = other.clearedFor) && decide (r.start ≤ other.endExclusive) &&
    decide (other.start ≤ r.endExclusive)

/-- The range from the earlier start to the later end. -/
def mergeWith (r other : TaintRange) : TaintRange :=
  { r with
    start := min r.start other.start
    length := max r.endExclusive other.endExclusive - min r.start other.start
    start_nonneg := le_min r.start_nonneg other.start_nonneg
    length_pos := by
      have := r.length_pos
      simp only [endExclusive]
      omega }

@[simp] theorem end_exclusive_eq (r : TaintRange) : r.endExclusive = r.start + r.length := rfl

end TaintRange

/-- What a range says about each of its characters: where it came from and which rule classes it
is safe for. -/
structure Label where
  source : SourceKind
  sourceName : JString
  clearedFor : Finset RuleClass
  deriving DecidableEq

/-- The label once a sanitizer for `rule` has run over the character. -/
def Label.clear (l : Label) (rule : RuleClass) : Label :=
  { l with clearedFor := insert rule l.clearedFor }

/-- The label of every character of the range. -/
def TaintRange.label (r : TaintRange) : Label :=
  ⟨r.source, r.sourceName, r.clearedFor⟩

/-- A taint range is a span of characters that carry its label. -/
instance : Span TaintRange Label where
  lo r := r.start
  hi r := r.endExclusive
  label r := r.label
  lo_lt_hi r := by
    have := r.length_pos
    simp only [TaintRange.endExclusive]
    omega

namespace TaintRange

@[simp] theorem lo_eq (r : TaintRange) : lo r = r.start := rfl

@[simp] theorem hi_eq (r : TaintRange) : hi r = r.start + r.length := rfl

@[simp] theorem span_label_eq (r : TaintRange) : Spans.label r = r.label := rfl

/-- The ranges a rule can be dangerous in are those its label is dangerous for. -/
theorem is_safe_for_iff (r : TaintRange) (rule : RuleClass) :
    r.isSafeFor rule = true ↔ rule ∈ r.label.clearedFor := by
  simp [isSafeFor, label]

/-- Clearing a range adds the rule to its cleared set. -/
theorem label_clear_for (r : TaintRange) (rule : RuleClass) :
    (r.clearFor rule).label = r.label.clear rule := by
  unfold clearFor
  split
  · next h => simp [label, Label.clear, Finset.insert_eq_of_mem h]
  · rfl

/-- Clearing a range moves none of its characters. -/
theorem covers_clear_for (r : TaintRange) (rule : RuleClass) (i : Int) :
    Covers (r.clearFor rule) i ↔ Covers r i := by
  unfold clearFor
  split <;> rfl

/-- Merging ranges follows the laws of coalescing. -/
theorem merge_laws : MergeLaws mergeableWith mergeWith where
  mergeable_iff a b := by
    simp only [mergeableWith, Bool.and_eq_true, beq_iff_eq, decide_eq_true_eq]
    simp only [span_label_eq, label, Label.mk.injEq, lo_eq, hi_eq, endExclusive]
    tauto
  lo_merge a b := rfl
  hi_merge a b := by
    simp only [mergeWith, hi_eq, end_exclusive_eq]
    omega
  label_merge a b := rfl

end TaintRange

end Aegis.Agent
