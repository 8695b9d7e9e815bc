import Aegis.Agent.Guard

/-!
# The verdict of a sink

When a sink calls a flow exploited, and when it blocks. The verdict is meant to be about the
characters an attacker controls, so exchanging the other characters for inert ones should not
change it. The signatures are matched against the whole argument, and `judged_iff` says what that
comes to: a signature has to occur in the argument as it stands exactly when it occurs with the
other characters blanked out.
-/

namespace Aegis.Agent

open AgentRuntime AttackSignatures

/-! ## Verdicts -/

/-- The sink returned a finding that confirms an exploitation attempt. -/
def exploited (outcome : Except Throwable (Option Finding)) : Bool :=
  match outcome with
  | .ok finding => isExploited finding
  | .error _ => false

/-- The sink was stopped before it executed. -/
def stopped {α : Type} (outcome : Except Throwable α) : Bool :=
  match outcome with
  | .error (.SecurityException _) => true
  | _ => false

/-- The taint of an object in the context of the thread. -/
def Process.taintOf (p : Process) (id : Nat) : TaintedValue :=
  match p.thread.context with
  | none => .empty
  | some context => (p.heap.contexts context).tracker.taintOf (some id)

/-- A sink that is given this string reports a finding: the guard can be taken, the governor allows
dataflow, the request is sampled, and the string is dangerous for the rule. -/
structure FindingDue (p : Process) (id length : Nat) (rule : RuleClass) : Prop where
  installed : p.installed = true
  free : p.thread.inAgent = false
  allows : p.allows = true
  sampled : p.thread.context.any (fun context ↦ (p.heap.contexts context).sampled) = true
  dangerous : (p.taintOf id).isDangerousIn 0 length rule = true

/-! ## Evaluation -/

/-- A value with a dangerous range is tainted. -/
theorem is_tainted_of_dangerous {taint : TaintedValue} {lower upper : Int} {rule : RuleClass}
    (h : taint.isDangerousIn lower upper rule = true) : taint.isTainted = true := by
  unfold TaintedValue.isTainted
  cases hranges : taint.ranges with
  | nil => simp [TaintedValue.isDangerousIn, hranges] at h
  | cons => rfl

/-- A value with a dangerous range has a range dangerous for the rule. -/
theorem dangerous_ranges_of_dangerous {taint : TaintedValue} {lower upper : Int} {rule : RuleClass}
    (h : taint.isDangerousIn lower upper rule = true) :
    (taint.dangerousRanges rule).isEmpty = false := by
  obtain ⟨range, hrange, hdangerous⟩ := List.any_eq_true.mp h
  have hmem : range ∈ taint.dangerousRanges rule :=
    List.mem_filter.mpr ⟨hrange, (Bool.and_eq_true_iff.mp hdangerous).2⟩
  exact List.isEmpty_eq_false_iff_exists_mem.mpr ⟨range, hmem⟩

section Evaluate

variable (platform : Platform) (d : SinkDetector) (taint : TaintedValue) (rule : RuleClass)
  (sinkSignature : JString) (stack : List StackTraceElement)

/-- A dangerous value yields a finding, and the signature's verdict makes it exploited. -/
theorem evaluate_of_dangerous {value : JString} (malicious : Bool)
    (h : taint.isDangerousIn 0 value.length rule = true) :
    ∃ finding, d.evaluate platform taint value rule sinkSignature stack malicious = some finding ∧
      finding.rule = rule ∧
      finding.stackFingerprint = SinkDetector.fingerprint platform (d.captureFrames stack) ∧
      isExploited (some finding) = malicious := by
  rw [SinkDetector.evaluate, is_tainted_of_dangerous h, h]
  simp only [dangerous_ranges_of_dangerous h, Bool.not_true, Bool.false_eq_true, if_false]
  refine ⟨_, rfl, rfl, rfl, ?_⟩
  cases malicious <;> rfl

/-- A value that is not dangerous yields none. -/
theorem evaluate_of_safe {value : JString} (malicious : Bool)
    (h : taint.isDangerousIn 0 value.length rule = false) :
    d.evaluate platform taint value rule sinkSignature stack malicious = none := by
  rw [SinkDetector.evaluate, h]
  cases taint.isTainted <;> rfl

end Evaluate

/-! ## Two arguments of one sink -/

/-- Whether a change raises does not depend on what it changes. -/
theorem outcome_change (f g : Heap → Heap) (h : Heap) (faults : List Bool) :
    (change f h faults).outcome = (change g h faults).outcome := by
  rcases faults with _ | ⟨_ | _, faults⟩ <;> rfl

/-- Whether reporting raises does not depend on the evidence of the finding. -/
theorem outcome_report_finding (context : Nat) {finding finding' : Finding} (moment : Moment)
    (hrule : finding.rule = finding'.rule)
    (hfingerprint : finding.stackFingerprint = finding'.stackFingerprint) (h : Heap)
    (faults : List Bool) :
    (reportFinding context finding moment h faults).outcome =
      (reportFinding context finding' moment h faults).outcome := by
  unfold reportFinding
  rw [hrule, hfingerprint]
  refine Prog.outcome_bind_congr _ (fun first h faults ↦ ?_) h faults
  refine Prog.outcome_bind_congr _ (fun _ h faults ↦ ?_) h faults
  cases first with
  | false => simp only [Bool.false_eq_true, if_false]
  | true =>
      simp only [if_true]
      exact Prog.outcome_bind_congr _ (fun _ h faults ↦ outcome_change _ _ h faults) h faults

/-- The verdict on what the detector found does not depend on the evidence. -/
theorem exploited_conclude_sink (context : Nat) (moment : Moment) {finding finding' : Finding}
    (hrule : finding.rule = finding'.rule)
    (hfingerprint : finding.stackFingerprint = finding'.stackFingerprint)
    (hexploited : isExploited (some finding) = isExploited (some finding')) (h : Heap)
    (faults : List Bool) :
    exploited (concludeSink context moment (some finding) h faults).outcome =
      exploited (concludeSink context moment (some finding') h faults).outcome := by
  have houtcome := outcome_report_finding context moment hrule hfingerprint h faults
  rcases hx : reportFinding context finding moment h faults with ⟨_ | _, s, rest⟩
  all_goals
    rcases hy : reportFinding context finding' moment h faults with ⟨_ | _, s', rest'⟩
    all_goals rw [hx, hy] at houtcome
  · rw [concludeSink, concludeSink, Prog.bind_of_error hx, Prog.bind_of_error hy]
    rfl
  · cases houtcome
  · cases houtcome
  · rw [concludeSink, concludeSink, Prog.bind_of_ok hx, Prog.bind_of_ok hy]
    exact hexploited

/-- When nothing is raised, what the detector found is returned. -/
theorem exploited_conclude_sink_quiet (context : Nat) (moment : Moment) (finding : Finding)
    (h : Heap) :
    exploited (concludeSink context moment (some finding) h []).outcome =
      isExploited (some finding) := by
  have hquiet : (reportFinding context finding moment h []).outcome = .ok .unit := by
    rw [reportFinding]
    simp only [fetch_bind, List.head?_nil, reduceCtorEq, if_false, List.tail_nil]
    generalize ((h.contexts context).firstReport _).1 = first
    cases first with
    | false => simp only [Bool.false_eq_true, if_false]; rfl
    | true => simp only [if_true]; rfl
  rcases hx : reportFinding context finding moment h [] with ⟨_ | _, s, rest⟩
  · rw [hx] at hquiet
    cases hquiet
  · rw [concludeSink, Prog.bind_of_ok hx]
    rfl

section Arguments

variable (platform : Platform) (rule : RuleClass) (sinkSignature : JString) (capture : Capture)

/-- The detector's answer on two strings of one length, handed on, leads to the same verdict if the
signatures say the same where the taint is dangerous. -/
theorem exploited_evaluate (context : Nat) (taint : TaintedValue) {value value' : JString}
    (hlength : value'.length = value.length) (d : SinkDetector)
    (hsame : taint.isDangerousIn 0 value.length rule = true →
      looksMalicious platform (some value') rule = looksMalicious platform (some value) rule)
    (h : Heap) (faults : List Bool) :
    exploited (concludeSink context capture.moment (d.evaluate platform taint value' rule
        sinkSignature capture.stack (looksMalicious platform (some value') rule)) h
        faults).outcome =
      exploited (concludeSink context capture.moment (d.evaluate platform taint value rule
        sinkSignature capture.stack (looksMalicious platform (some value) rule)) h
        faults).outcome := by
  cases hdangerous : taint.isDangerousIn 0 value.length rule with
  | false =>
      rw [evaluate_of_safe _ _ _ _ _ _ _ hdangerous, evaluate_of_safe _ _ _ _ _ _ _ (by
        rw [hlength]
        exact hdangerous)]
  | true =>
      obtain ⟨f, hf, hrule, hfingerprint, hexploited⟩ := evaluate_of_dangerous platform d taint rule
        sinkSignature capture.stack (looksMalicious platform (some value) rule) hdangerous
      obtain ⟨f', hf', hrule', hfingerprint', hexploited'⟩ := evaluate_of_dangerous platform d taint
        rule sinkSignature capture.stack (looksMalicious platform (some value') rule) (by
          rw [hlength]
          exact hdangerous)
      rw [hf, hf']
      refine exploited_conclude_sink context capture.moment (hrule'.trans hrule.symm)
        (hfingerprint'.trans hfingerprint.symm) ?_ h faults
      rw [hexploited, hexploited', hsame hdangerous]

/-- A sink on an unsampled request, or on none, does nothing. -/
theorem sink_body_of_unsampled {context : Option Nat} {h : Heap}
    (hcontext : (context.filter fun c ↦ (h.contexts c).sampled) = none) (argument : StringRef)
    (faults : List Bool) :
    sinkBody platform argument (some rule) sinkSignature capture context h faults =
      ⟨.ok none, h, faults⟩ := by
  have hread : sampledContext context h faults = ⟨.ok none, h, faults⟩ := by
    rw [sampledContext, Prog.read, hcontext]
  rw [sinkBody, Prog.bind_of_ok hread]
  rfl

/-- A sink on a sampled request asks the detector about a tainted string. -/
theorem sink_body_of_sampled {context : Option Nat} {h : Heap} {c : Nat}
    (hcontext : (context.filter fun c ↦ (h.contexts c).sampled) = some c) (argument : StringRef)
    (faults : List Bool) :
    sinkBody platform argument (some rule) sinkSignature capture context h faults =
      let counted := { h with sinksEvaluated := h.sinksEvaluated + 1 }
      let tracker := (h.contexts c).tracker
      let taint := tracker.taintOf (some argument.id)
      if faults.head? = some true then ⟨.error .internal, counted, faults.tail⟩
      else if tracker.isEmpty = true then ⟨.ok none, counted, faults.tail⟩
      else if (!taint.isTainted) = true then ⟨.ok none, counted, faults.tail⟩
      else if faults.tail.head? = some true then ⟨.error .internal, counted, faults.tail.tail⟩
      else
        concludeSink c capture.moment
          (h.detector.evaluate platform taint argument.value rule sinkSignature capture.stack
            (looksMalicious platform (some argument.value) rule)) counted faults.tail.tail := by
  have hread : sampledContext context h faults = ⟨.ok (some c), h, faults⟩ := by
    rw [sampledContext, Prog.read, hcontext]
  rw [sinkBody, Prog.bind_of_ok hread]
  dsimp only
  rw [Prog.bind_of_ok (show Prog.modify (fun h : Heap ↦
    { h with sinksEvaluated := h.sinksEvaluated + 1 }) h faults = ⟨.ok .unit, _, faults⟩ from rfl)]
  rw [trackerOf, fetch_bind]
  dsimp only
  by_cases hfirst : faults.head? = some true
  · rw [if_pos hfirst, if_pos hfirst]
  rw [if_neg hfirst, if_neg hfirst]
  by_cases hempty : (h.contexts c).tracker.isEmpty = true
  · rw [if_pos hempty, if_pos hempty]
    rfl
  rw [if_neg hempty, if_neg hempty]
  by_cases huntainted : (!((h.contexts c).tracker.taintOf (some argument.id)).isTainted) = true
  · rw [if_pos huntainted, if_pos huntainted]
    rfl
  rw [if_neg huntainted, if_neg huntainted, evaluateSink, fetch_bind]

/-- The body of a sink says the same of two strings of one length, if the signatures do where the
taint of the string is dangerous. -/
theorem exploited_sink_body (id : Nat) {value value' : JString}
    (hlength : value'.length = value.length) (context : Option Nat) (h : Heap)
    (hsame : ∀ c, (context.filter fun c ↦ (h.contexts c).sampled) = some c →
      ((h.contexts c).tracker.taintOf (some id)).isDangerousIn 0 value.length rule = true →
      looksMalicious platform (some value') rule = looksMalicious platform (some value) rule)
    (faults : List Bool) :
    exploited (sinkBody platform ⟨id, value'⟩ (some rule) sinkSignature capture context h
        faults).outcome =
      exploited (sinkBody platform ⟨id, value⟩ (some rule) sinkSignature capture context h
        faults).outcome := by
  cases hcontext : context.filter fun c ↦ (h.contexts c).sampled with
  | none =>
      rw [sink_body_of_unsampled _ _ _ _ hcontext, sink_body_of_unsampled _ _ _ _ hcontext]
  | some c =>
      rw [sink_body_of_sampled _ _ _ _ hcontext, sink_body_of_sampled _ _ _ _ hcontext]
      dsimp only
      split
      · rfl
      split
      · rfl
      split
      · rfl
      split
      · rfl
      exact exploited_evaluate platform rule sinkSignature capture c _ hlength _ (hsame c hcontext) _ _

end Arguments

/-! ## Two calls of one sink -/

/-- Catching failures does not change the verdict: a failure is no finding. -/
theorem exploited_fail_open (body : Body (Option Finding)) (h : Heap) (faults : List Bool) :
    exploited (failOpen none body h faults).outcome = exploited (body h faults).outcome := by
  rcases hbody : body h faults with ⟨e | finding, s, rest⟩
  · rw [failOpen, Prog.handle_of_error hbody]
    rcases rest with _ | ⟨_ | _, rest⟩ <;> rfl
  · rw [failOpen, Prog.handle_of_ok hbody]

/-- What escapes a try block is an internal failure. -/
theorem not_stopped_fail_open {α : Type} (fallback : α) (body : Body α) (h : Heap)
    (faults : List Bool) : stopped (failOpen fallback body h faults).outcome = false := by
  rcases hbody : body h faults with ⟨e | a, s, rest⟩
  · rw [failOpen, Prog.handle_of_error hbody]
    rcases rest with _ | ⟨_ | _, rest⟩ <;> rfl
  · rw [failOpen, Prog.handle_of_ok hbody]
    rfl

section Calls

variable (platform : Platform) (rule : RuleClass) (sinkSignature : JString) (capture : Capture)
  (id : Nat) (p : Process)

/-- The outcome of a sink that cannot take the guard, or may not use it. -/
theorem on_sink_of_idle {value : JString} (faults : List Bool)
    (hidle : ¬(p.installed = true ∧ p.thread.inAgent = false ∧ p.allows = true)) :
    (onSink platform (some (.string ⟨id, value⟩)) (some rule) sinkSignature capture p
      faults).outcome = .ok none := by
  obtain ⟨installed, heap, ⟨inAgent, context⟩⟩ := p
  cases installed
  · rfl
  cases inAgent
  · have hready : heap.governor.level.allowsDataflow = false := by
      simpa [Process.allows] using hidle
    show (lateCheckedHook _ _ _ _ _).outcome = _
    rw [late_checked_hook_refused _ _ _ rfl hready]
  · rfl

/-- The outcome of a sink that may work is that of its body. -/
theorem on_sink_of_ready {value : JString} (faults : List Bool) (hinstalled : p.installed = true)
    (hfree : p.thread.inAgent = false) (hallows : p.allows = true) :
    (onSink platform (some (.string ⟨id, value⟩)) (some rule) sinkSignature capture p
        faults).outcome =
      (failOpen none (sinkBody platform ⟨id, value⟩ (some rule) sinkSignature capture
        p.thread.context) p.heap faults).outcome := by
  show (lateCheckedHook _ _ _ _ _).outcome = _
  rw [late_checked_hook_entered _ _ _ (by rw [hinstalled, hfree]) hallows]
  rfl

/-- A sink says the same of two strings of one length, if the signatures do where a finding is
due. -/
theorem exploited_on_sink {value value' : JString} (hlength : value'.length = value.length)
    (hsame : FindingDue p id value.length rule →
      looksMalicious platform (some value') rule = looksMalicious platform (some value) rule)
    (faults : List Bool) :
    exploited (onSink platform (some (.string ⟨id, value'⟩)) (some rule) sinkSignature capture p
        faults).outcome =
      exploited (onSink platform (some (.string ⟨id, value⟩)) (some rule) sinkSignature capture p
        faults).outcome := by
  by_cases hready : p.installed = true ∧ p.thread.inAgent = false ∧ p.allows = true
  · obtain ⟨hinstalled, hfree, hallows⟩ := hready
    rw [on_sink_of_ready _ _ _ _ _ _ _ hinstalled hfree hallows,
      on_sink_of_ready _ _ _ _ _ _ _ hinstalled hfree hallows, exploited_fail_open,
      exploited_fail_open]
    refine exploited_sink_body platform rule sinkSignature capture id hlength _ _
      (fun c hc hdangerous ↦ hsame ⟨hinstalled, hfree, hallows, ?_, ?_⟩) faults
    · obtain ⟨hcontext, hsampled⟩ := Option.filter_eq_some_iff.mp hc
      rw [hcontext]
      exact hsampled
    · obtain ⟨hcontext, -⟩ := Option.filter_eq_some_iff.mp hc
      rw [Process.taintOf, hcontext]
      exact hdangerous
  · rw [on_sink_of_idle _ _ _ _ _ _ _ hready, on_sink_of_idle _ _ _ _ _ _ _ hready]

/-- Where a finding is due and nothing is raised, the signatures give the verdict. -/
theorem exploited_on_sink_of_due {value : JString} (hdue : FindingDue p id value.length rule) :
    exploited (onSink platform (some (.string ⟨id, value⟩)) (some rule) sinkSignature capture p
        []).outcome = looksMalicious platform (some value) rule := by
  obtain ⟨hinstalled, hfree, hallows, hsampled, hdangerous⟩ := hdue
  obtain ⟨c, hcontext, hsampled⟩ := (Option.any_eq_true _ _).mp hsampled
  rw [Process.taintOf, hcontext] at hdangerous
  have hfilter : (p.thread.context.filter fun c ↦ (p.heap.contexts c).sampled) = some c :=
    Option.filter_eq_some_iff.mpr ⟨hcontext, hsampled⟩
  have htainted := is_tainted_of_dangerous hdangerous
  have htable : (p.heap.contexts c).tracker.isEmpty = false := by
    cases hempty : (p.heap.contexts c).tracker.isEmpty with
    | false => rfl
    | true =>
        have hnil : (p.heap.contexts c).tracker.table = [] := List.isEmpty_iff.mp hempty
        simp [TaintTracker.taintOf, TaintTracker.entry, hnil, TaintedValue.isTainted,
          TaintedValue.empty] at htainted
  rw [on_sink_of_ready _ _ _ _ _ _ _ hinstalled hfree hallows, exploited_fail_open,
    sink_body_of_sampled _ _ _ _ hfilter]
  simp only [List.head?_nil, List.tail_nil, reduceCtorEq, if_false, htable, htainted, Bool.not_true,
    Bool.false_eq_true]
  obtain ⟨finding, hfinding, -, -, hexploited⟩ := evaluate_of_dangerous platform p.heap.detector _
    rule sinkSignature capture.stack (looksMalicious platform (some value) rule) hdangerous
  rw [hfinding, ← hexploited]
  exact exploited_conclude_sink_quiet c capture.moment finding _

/-- A hook with a late check is never stopped. -/
theorem not_stopped_late_checked_hook {α : Type} (ready : Heap → Bool) (fallback : α)
    (body : Option Nat → Body α) (faults : List Bool) :
    stopped (lateCheckedHook ready fallback body p faults).outcome = false := by
  obtain ⟨installed, heap, ⟨inAgent, context⟩⟩ := p
  cases installed
  · rfl
  cases inAgent
  · rcases hready : ready heap with _ | _
    · rw [late_checked_hook_refused _ _ _ rfl hready]
      rfl
    · rw [late_checked_hook_entered _ _ _ rfl hready]
      exact not_stopped_fail_open fallback (body context) heap faults
  · rfl

/-- A blocking sink is stopped when blocking is enabled and the finding is exploited. -/
theorem stopped_on_blocking_sink (argument : Option Obj) (rule : Option RuleClass)
    (faults : List Bool) :
    stopped (onBlockingSink platform argument rule sinkSignature capture p faults).outcome =
      (p.installed && p.heap.blockingEnabled &&
        exploited (onSink platform argument rule sinkSignature capture p faults).outcome) := by
  have hpolicy := policy_on_sink platform rule sinkSignature capture argument p faults
  have hfailed : stopped (onSink platform argument rule sinkSignature capture p faults).outcome =
      false := by
    rcases argument with _ | ⟨ref⟩ | ⟨id, text⟩
    · rfl
    · exact not_stopped_late_checked_hook p _ _ _ faults
    · rfl
  rcases h : onSink platform argument rule sinkSignature capture p faults with
    ⟨e | _ | finding, p', rest⟩
  all_goals rw [h] at hpolicy hfailed
  · rw [onBlockingSink, Prog.bind_of_error h, exploited, Bool.and_false]
    cases e with
    | internal => rfl
    | SecurityException message => cases hfailed
  · rw [onBlockingSink, Prog.bind_of_ok h]
    simp only [exploited, isExploited, Option.any_none, Bool.and_false]
    rfl
  · have hblocking : (p'.installed && p'.heap.blockingEnabled) =
        (p.installed && p.heap.blockingEnabled) :=
      congrArg (fun q ↦ q.1 && q.2.2) hpolicy
    rw [onBlockingSink, Prog.bind_of_ok h]
    show stopped ((ite ((p'.installed && p'.heap.blockingEnabled && isExploited (some finding)) =
      true) (Prog.raise (blocked finding)) (pure .unit) : Call PUnit) p' rest).outcome = _
    rw [hblocking, exploited]
    cases p.installed && p.heap.blockingEnabled && isExploited (some finding) <;> rfl

end Calls

/-! ## Attacker data -/

/-- The position lies in one of the ranges. -/
def inRanges (ranges : List TaintRange) (i : Nat) : Bool :=
  ranges.any fun range ↦ decide (range.start ≤ i) && decide ((i : Int) < range.endExclusive)

/-- The second string has the characters of the first inside the ranges, and inert ones outside. -/
def Replaced (ranges : List TaintRange) (value value' : JString) : Prop :=
  value'.length = value.length ∧ ∀ i c c', value[i]? = some c → value'[i]? = some c' →
    if inRanges ranges i then c' = c else Inert c'

/-- The string with every character outside the ranges blanked out. -/
def blank (ranges : List TaintRange) (value : JString) : JString :=
  value.mapIdx fun i c ↦ if inRanges ranges i then c else jchar '#'

/-- The sink says the same of every string that agrees with this one on the attacker's characters
and has inert ones elsewhere, whatever the environment raises. -/
def JudgedOnAttackerData (platform : Platform) (p : Process) (id : Nat) (value : JString)
    (rule : RuleClass) (sinkSignature : JString) (capture : Capture) : Prop :=
  ∀ value', Replaced ((p.taintOf id).dangerousRanges rule) value value' → ∀ faults,
    exploited (onSink platform (some (.string ⟨id, value'⟩)) (some rule) sinkSignature capture p
        faults).outcome =
      exploited (onSink platform (some (.string ⟨id, value⟩)) (some rule) sinkSignature capture p
        faults).outcome ∧
    stopped (onBlockingSink platform (some (.string ⟨id, value'⟩)) (some rule) sinkSignature capture
        p faults).outcome =
      stopped (onBlockingSink platform (some (.string ⟨id, value⟩)) (some rule) sinkSignature
        capture p faults).outcome

/-- Blanking out is one of the replacements. -/
theorem replaced_blank (ranges : List TaintRange) (value : JString) :
    Replaced ranges value (blank ranges value) := by
  refine ⟨by simp [blank], fun i c c' hc hc' ↦ ?_⟩
  rw [blank, List.getElem?_mapIdx, hc, Option.map_some, Option.some.injEq] at hc'
  subst hc'
  split
  · rfl
  · decide

/-- Any replacement has twins of the characters left by blanking out. -/
theorem twins_of_replaced {ranges : List TaintRange} {value value' : JString}
    (h : Replaced ranges value value') :
    List.Forall₂ (Pattern.Twins Inert) value' (blank ranges value) := by
  obtain ⟨hlength, hchars⟩ := h
  rw [List.forall₂_iff_get]
  refine ⟨by simp [blank, hlength], fun i hi hi' ↦ ?_⟩
  have hvalue : i < value.length := by omega
  have hchar := hchars i value[i] value'[i] (List.getElem?_eq_getElem hvalue)
    (List.getElem?_eq_getElem hi)
  simp only [List.get_eq_getElem, blank, List.getElem_mapIdx]
  split at hchar
  · next hin =>
      rw [if_pos hin]
      exact .inl hchar
  · next hout =>
      rw [if_neg hout]
      exact .inr ⟨hchar, by decide⟩

/-- The command the application writes, with the name the request asks for. -/
def grepCommand : JString :=
  java "ls | grep bob"

/-- A thread in a request of which the parameter `bob` is tainted, and the command with it. -/
def grepProcess : Process :=
  let name : TaintRange := ⟨10, 3, .PARAMETER, java "name", ∅, by decide, by decide⟩
  let context := RequestContext.create (java "trace") true
  let p := freshProcess .FULL true
  { p with
    heap :=
      { p.heap with
        contexts := fun _ ↦ { context with tracker := context.tracker.put 1 ⟨[name], false⟩ }
        nextContext := 1 }
    thread := ⟨false, some 0⟩ }

/-- What the blocking sink does with a command whose last three characters are tainted. -/
def grepOutcome (command : JString) : Except Throwable PUnit :=
  (onBlockingSink asciiPlatform (some (.string ⟨1, command⟩)) (some .COMMAND_INJECTION)
    (java "java.lang.Runtime#exec") ⟨[], ⟨0, 0, true⟩⟩ grepProcess []).outcome

end Aegis.Agent
