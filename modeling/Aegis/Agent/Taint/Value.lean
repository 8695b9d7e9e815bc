import Aegis.Agent.Taint.Range

/-!
# Tainted values

`TaintedValue` of the Java agent: the tainted ranges over one value, and the propagators that
follow the string operations of the JDK. Every propagator builds a list of ranges and hands it to
`normalize`, which sorts and merges it and collapses it past the cap. A propagator returns `none`
where the source throws `IllegalArgumentException`.
-/

namespace Aegis.Agent

open Spans

/-- The set of tainted ranges over one value. -/
structure TaintedValue where
  ranges : List TaintRange
  imprecise : Bool
  deriving DecidableEq

namespace TaintedValue

/-- Beyond this, ranges collapse into a single covering range. -/
def MAX_RANGES : Nat := 32

/-- `EMPTY`, the untainted value. -/
def empty : TaintedValue := ⟨[], false⟩

/-- Some character of the value is tainted. -/
def isTainted (v : TaintedValue) : Bool :=
  !v.ranges.isEmpty

/-- Any range overlapping `[lower, upper)` is still dangerous for `rule`. -/
def isDangerousIn (v : TaintedValue) (lower upper : Int) (rule : RuleClass) : Bool :=
  v.ranges.any fun range ↦ range.overlaps lower upper && !range.isSafeFor rule

/-- Any range is still dangerous for `rule`. -/
def isDangerousFor (v : TaintedValue) (rule : RuleClass) : Bool :=
  v.ranges.any fun range ↦ !range.isSafeFor rule

/-- Ranges still dangerous for `rule`, the evidence attached to a finding. -/
def dangerousRanges (v : TaintedValue) (rule : RuleClass) : List TaintRange :=
  v.ranges.filter fun range ↦ !range.isSafeFor rule

/-! ## Normalization -/

/-- The order of `comparingInt(start).thenComparingInt(end)`. -/
def sortsBefore (a b : TaintRange) : Prop :=
  a.start < b.start ∨ (a.start = b.start ∧ a.endExclusive ≤ b.endExclusive)

instance : DecidableRel sortsBefore :=
  fun _ _ ↦ inferInstanceAs (Decidable (_ ∨ _))

instance : Std.Total sortsBefore :=
  ⟨fun _ _ ↦ by simp only [sortsBefore]; omega⟩

instance : IsTrans TaintRange sortsBefore :=
  ⟨fun _ _ _ ↦ by simp only [sortsBefore]; omega⟩

/-- The start, end and common cleared set that the loop of `collapse` keeps. -/
structure Covering where
  start : Int
  endExclusive : Int
  commonCleared : Finset RuleClass
  start_nonneg : 0 ≤ start
  start_lt_end : start < endExclusive

/-- What the loop of `collapse` starts from. -/
def Covering.of (range : TaintRange) : Covering :=
  ⟨range.start, range.endExclusive, range.clearedFor, range.start_nonneg, lo_lt_hi range⟩

/-- One turn of the loop of `collapse`. -/
def Covering.extend (c : Covering) (range : TaintRange) : Covering where
  start := min c.start range.start
  endExclusive := max c.endExclusive range.endExclusive
  commonCleared := c.commonCleared ∩ range.clearedFor
  start_nonneg := le_min c.start_nonneg range.start_nonneg
  start_lt_end := by
    have := c.start_lt_end
    omega

/-- Collapse to one covering range once the cap is exceeded. The range keeps the first range's
origin and only the rule classes cleared across every component. -/
def collapse : List TaintRange → TaintedValue
  | [] => empty
  | first :: rest =>
      let covering := rest.foldl Covering.extend (Covering.of first)
      ⟨[{ start := covering.start
          length := covering.endExclusive - covering.start
          source := first.source
          sourceName := first.sourceName
          clearedFor := covering.commonCleared
          start_nonneg := covering.start_nonneg
          length_pos := by
            have := covering.start_lt_end
            omega }], true⟩

/-- `normalize`: sort, merge neighbours, collapse past the cap. -/
def normalize (input : List TaintRange) (imprecise : Bool) : TaintedValue :=
  match input.insertionSort sortsBefore with
  | [] => ⟨[], imprecise⟩
  | current :: rest =>
      let merged := coalesce TaintRange.mergeableWith TaintRange.mergeWith current rest
      if merged.length ≤ MAX_RANGES then ⟨merged, imprecise⟩ else collapse merged

/-! ## Propagators -/

/-- A value tainted end to end, as returned directly by a source. -/
def fullyTainted (length : Int) (source : SourceKind) (sourceName : Option JString) :
    TaintedValue :=
  if h : length ≤ 0 then empty
  else
    ⟨[{ start := 0
        length := length
        source := source
        sourceName := sourceName.getD []
        clearedFor := ∅
        start_nonneg := le_rfl
        length_pos := by omega }], false⟩

/-- Concatenation: `left + right`. The right operand's ranges shift by the left one's length. -/
def concat (left : TaintedValue) (leftLength : Int) (right : TaintedValue) :
    Option TaintedValue :=
  if !left.isTainted && !right.isTainted then some empty
  else do
    let shifted ← right.ranges.mapM fun range ↦ range.shift leftLength
    some (normalize (left.ranges ++ shifted) (left.imprecise || right.imprecise))

/-- `substring(lower, upper)`: clip and rebase. -/
def substring (v : TaintedValue) (lower upper : Int) : TaintedValue :=
  if !v.isTainted || upper ≤ lower then empty
  else normalize (v.ranges.filterMap fun range ↦ range.clip lower upper) v.imprecise

/-- What `insert` keeps of one range: the range itself, moved or not, or its two halves. -/
def insertPieces (offset insertedLength : Int) (range : TaintRange) : Option (List TaintRange) :=
  if range.start ≥ offset then do
    let moved ← range.shift insertedLength
    some [moved]
  else if range.endExclusive ≤ offset then some [range]
  else do
    let head ← (range.clip range.start offset).toList.mapM fun head ↦ head.shift range.start
    let tail ← (range.clip offset range.endExclusive).toList.mapM fun tail ↦
      tail.shift (offset + insertedLength)
    some (head ++ tail)

/-- Insert `inserted` at `offset`, as `StringBuilder.insert` does. -/
def insert (v : TaintedValue) (offset : Int) (inserted : TaintedValue) (insertedLength : Int) :
    Option TaintedValue := do
  let result ← v.ranges.mapM (insertPieces offset insertedLength)
  let moved ← inserted.ranges.mapM fun range ↦ range.shift offset
  some (normalize (result.flatten ++ moved) (v.imprecise || inserted.imprecise))

/-- What `replace` keeps of one range: all of it, moved or not, or the portions outside the
replaced window. -/
def replacePieces (lower upper replacementLength : Int) (hlower : 0 ≤ lower)
    (hlength : 0 ≤ replacementLength) (range : TaintRange) : Option (List TaintRange) :=
  if range.endExclusive ≤ lower then some [range]
  else if range.start ≥ upper then do
    let moved ← range.shift (replacementLength - (upper - lower))
    some [moved]
  else
    let before : List TaintRange :=
      if h : range.start < lower then
        [{ range with length := lower - range.start, length_pos := by omega }]
      else []
    let after : List TaintRange :=
      if h : range.endExclusive > upper then
        [{ range with
            start := lower + replacementLength
            length := range.endExclusive - upper
            start_nonneg := by omega
            length_pos := by omega }]
      else []
    some (before ++ after)

/-- Replace `[lower, upper)` with a new value, as `StringBuilder.replace` does. -/
def replace (v : TaintedValue) (lower upper : Int) (replacement : TaintedValue)
    (replacementLength : Int) : Option TaintedValue :=
  if h : lower < 0 ∨ upper < lower ∨ replacementLength < 0 then none
  else if !v.isTainted && !replacement.isTainted then some empty
  else do
    let result ← v.ranges.mapM
      (replacePieces lower upper replacementLength (by omega) (by omega))
    let moved ← replacement.ranges.mapM fun range ↦ range.shift lower
    some (normalize (result.flatten ++ moved) (v.imprecise || replacement.imprecise))

/-- A transform that rewrites the value wholesale: one range over all of it, imprecise, cleared
only for what every range was cleared for. -/
def reshaped (v : TaintedValue) (newLength : Int) : TaintedValue :=
  match v.ranges with
  | [] => empty
  | first :: rest =>
      if h : newLength ≤ 0 then empty
      else
        let cleared := (first :: rest).foldl
          (fun cleared range ↦ cleared ∩ range.clearedFor) first.clearedFor
        normalize
          [{ start := 0
             length := newLength
             source := first.source
             sourceName := first.sourceName
             clearedFor := cleared
             start_nonneg := le_rfl
             length_pos := by omega }] true

/-- The mirror image of one range, or `none` when it reaches past `length`. -/
def mirror (length : Int) (range : TaintRange) : Option TaintRange :=
  if h : range.endExclusive > length then none
  else some { range with start := length - range.endExclusive, start_nonneg := by omega }

/-- Mirror every range across a value of `length`, as `reverse()` does. A range that reaches past
the value makes the result approximate instead. -/
def reversed (v : TaintedValue) (length : Int) : TaintedValue :=
  if !v.isTainted || length ≤ 0 then empty
  else
    match v.ranges.mapM (mirror length) with
    | none => v.reshaped length
    | some result => normalize result v.imprecise

/-- Length-preserving transforms leave the ranges alone. -/
def preservingTransform (v : TaintedValue) : TaintedValue := v

/-- Mark every range sanitized for `rule`. Other rule classes keep their taint. -/
def sanitizedFor (v : TaintedValue) (rule : RuleClass) : TaintedValue :=
  if !v.isTainted then v
  else normalize (v.ranges.map fun range ↦ range.clearFor rule) v.imprecise

end TaintedValue

end Aegis.Agent
