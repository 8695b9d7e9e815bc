import Aegis.Lib.Machine
import Aegis.Agent.AgentRuntime

/-!
# The re-entrancy guard

What every hook does to the thread it runs on. A hook that makes its checks before it takes the
guard leaves the thread as it was, whatever its body does. A hook that takes the guard first and
then returns on a failed check leaves the guard taken, and every later hook on that thread is
ignored. `balanced_iff` says which calls do so.
-/

namespace Aegis.Agent

open AgentRuntime

/-! ## Calls -/

/-- The hooks that run inside a request. -/
inductive Hook where
  | onHttpSource (accessor : Option JString) (arguments : Option (List (Option Obj)))
      (result : Option Accessed)
  | onCookieValue (cookie : Option JString) (value : Option StringRef)
  | onRequestBodySource (stream : Option Nat)
  | onSource (value : Option StringRef) (kind : Option SourceKind) (name : Option JString)
  | onSourceEnumeration (values : Option Nat)
  | onConcat (result : Option StringRef) (left right : Option Obj)
  | onIndyConcat (result : StringRef) (recipe : Option JString)
      (constants arguments : Option (List (Option Obj)))
  | onBuilderAppend (builder : Option Nat) (lengthBefore : Int) (appended : Option Obj)
  | onBuilderReplace (builder : Option Nat) (lengthBefore lower upper : Int)
      (replacement : Option Obj) (replacementLength : Int)
  | onBuilderReverse (builder : Option Nat) (length : Int)
  | onStringFormat (result : Option StringRef) (format : Option Obj)
      (arguments : Option (List (Option Obj)))
  | onReshapingTransform (result : Option StringRef) (source : Option Obj)
  | onSplit (pieces : Option (List (Option Obj))) (source : Option Obj)
  | onPreservingTransform (result : Option StringRef) (source : Option Obj)
  | onSubstring (result : Option StringRef) (source : Option Obj) (lower upper : Int)
  | onDerivedObject (derived : Option Nat) (source : Option Obj)
  | onResponseChannel (channel : Option Nat)
  | wrapForHandoff (task : Option Nat)
  | onSanitized (result : Option StringRef) (source : Option Obj) (rule : Option RuleClass)
  | onUrlEncoded (result : Option StringRef) (source : Option Obj)
  | onHtmlEscaped (result : Option StringRef) (source : Option Obj)
  | onQueryEncoded (result : Option StringRef) (source : Option Obj)
  | onSink (argument : Option Obj) (rule : Option RuleClass) (sinkSignature : JString)
      (capture : Capture)
  | onBlockingSink (argument : Option Obj) (rule : Option RuleClass) (sinkSignature : JString)
      (capture : Capture)
  | onObjectSink (argument : Option (Nat × JString)) (rule : RuleClass) (sinkSignature : JString)
      (capture : Capture)
  | onProcessStart (builder : Option (Option (List StringRef))) (capture : Capture)
  | onResponseWrite (target : Option Nat) (value : Option Obj) (capture : Capture)
  | onResponseFormat (target : Option Nat) (arguments : Option (List FormatArgument))
      (capture : Capture)

/-- What a hook returns. -/
inductive Answer where
  | done
  | flag (value : Bool)
  | task (context : Option Nat)
  | finding (value : Option Finding)
  deriving DecidableEq

/-- The call of a hook. -/
def Hook.call (platform : Platform) : Hook → Call Answer
  | onHttpSource accessor arguments result => do
      AgentRuntime.onHttpSource accessor arguments result
      return .done
  | onCookieValue cookie value => do
      AgentRuntime.onCookieValue cookie value
      return .done
  | onRequestBodySource stream => do
      AgentRuntime.onRequestBodySource stream
      return .done
  | onSource value kind name => do
      AgentRuntime.onSource value kind name
      return .done
  | onSourceEnumeration values => return .flag (← AgentRuntime.onSourceEnumeration values)
  | onConcat result left right => do
      AgentRuntime.onConcat result left right
      return .done
  | onIndyConcat result recipe constants arguments => do
      AgentRuntime.onIndyConcat result recipe constants arguments
      return .done
  | onBuilderAppend builder lengthBefore appended => do
      AgentRuntime.onBuilderAppend builder lengthBefore appended
      return .done
  | onBuilderReplace builder lengthBefore lower upper replacement replacementLength => do
      AgentRuntime.onBuilderReplace builder lengthBefore lower upper replacement replacementLength
      return .done
  | onBuilderReverse builder length => do
      AgentRuntime.onBuilderReverse builder length
      return .done
  | onStringFormat result format arguments => do
      AgentRuntime.onStringFormat result format arguments
      return .done
  | onReshapingTransform result source => do
      AgentRuntime.onReshapingTransform result source
      return .done
  | onSplit pieces source => do
      AgentRuntime.onSplit pieces source
      return .done
  | onPreservingTransform result source => do
      AgentRuntime.onPreservingTransform result source
      return .done
  | onSubstring result source lower upper => do
      AgentRuntime.onSubstring result source lower upper
      return .done
  | onDerivedObject derived source => do
      AgentRuntime.onDerivedObject derived source
      return .done
  | onResponseChannel channel => do
      AgentRuntime.onResponseChannel channel
      return .done
  | wrapForHandoff task => return .task (← AgentRuntime.wrapForHandoff task)
  | onSanitized result source rule => do
      AgentRuntime.onSanitized result source rule
      return .done
  | onUrlEncoded result source => do
      AgentRuntime.onUrlEncoded result source
      return .done
  | onHtmlEscaped result source => do
      AgentRuntime.onHtmlEscaped result source
      return .done
  | onQueryEncoded result source => do
      AgentRuntime.onQueryEncoded result source
      return .done
  | onSink argument rule sinkSignature capture =>
      return .finding (← AgentRuntime.onSink platform argument rule sinkSignature capture)
  | onBlockingSink argument rule sinkSignature capture => do
      AgentRuntime.onBlockingSink platform argument rule sinkSignature capture
      return .done
  | onObjectSink argument rule sinkSignature capture =>
      return .finding (← AgentRuntime.onObjectSink platform argument rule sinkSignature capture)
  | onProcessStart builder capture => do
      AgentRuntime.onProcessStart platform builder capture
      return .done
  | onResponseWrite target value capture => do
      AgentRuntime.onResponseWrite platform target value capture
      return .done
  | onResponseFormat target arguments capture => do
      AgentRuntime.onResponseFormat platform target arguments capture
      return .done

/-- A call of the runtime: the two ends of a request, and the hooks between them. -/
inductive HookCall where
  | onRequestEnter (request : Option HttpRequest) (draw : Bool) (traceId : JString)
  | onRequestExit (owner : Bool) (request : Option HttpRequest) (moment : Moment)
  | hook (h : Hook)

/-- The call of the runtime. -/
def HookCall.call (platform : Platform) : HookCall → Call Answer
  | onRequestEnter request draw traceId =>
      return .flag (← AgentRuntime.onRequestEnter request draw traceId)
  | onRequestExit owner request moment => do
      AgentRuntime.onRequestExit owner request moment
      return .done
  | hook h => h.call platform

/-! ## Guarded sections and the thread -/

section Shapes

variable {α : Type} (p : Process) (faults : List Bool)

/-- A try block under the guard releases it and leaves the rest of the thread alone. -/
theorem thread_guarded (fallback : α) (body : Option Nat → Body α) :
    (guarded fallback body p faults).state.thread = { p.thread with inAgent := false } :=
  rfl

/-- A hook that makes its checks first leaves the thread as it was. -/
theorem thread_guarded_hook (ready : Bool) (fallback : α) (body : Option Nat → Body α) :
    (guardedHook ready fallback body p faults).state.thread = p.thread := by
  obtain ⟨installed, heap, ⟨inAgent, context⟩⟩ := p
  cases installed <;> cases ready <;> cases inAgent <;> rfl

/-- A late check that fails returns with the guard taken. -/
theorem late_checked_hook_refused {p : Process} (fallback : α) (body : Option Nat → Body α)
    {ready : Heap → Bool} (faults : List Bool) (hfree : (p.installed, p.thread.inAgent) = (true, false))
    (hready : ready p.heap = false) :
    lateCheckedHook ready fallback body p faults =
      ⟨.ok fallback, { p with thread := { p.thread with inAgent := true } }, faults⟩ := by
  obtain ⟨installed, heap, ⟨inAgent, context⟩⟩ := p
  cases hfree
  show (if (!ready heap) = true then pure fallback else guarded fallback body : Call α) _ _ = _
  rw [show ready heap = false from hready]
  rfl

/-- A late check that succeeds leads into the try block. -/
theorem late_checked_hook_entered {p : Process} (fallback : α) (body : Option Nat → Body α)
    {ready : Heap → Bool} (faults : List Bool) (hfree : (p.installed, p.thread.inAgent) = (true, false))
    (hready : ready p.heap = true) :
    lateCheckedHook ready fallback body p faults =
      guarded fallback body { p with thread := { p.thread with inAgent := true } } faults := by
  obtain ⟨installed, heap, ⟨inAgent, context⟩⟩ := p
  cases hfree
  show (if (!ready heap) = true then pure fallback else guarded fallback body : Call α) _ _ = _
  rw [show ready heap = true from hready]
  rfl

/-- A hook that takes the guard first keeps it when its check fails. -/
theorem thread_late_checked_hook (ready : Heap → Bool) (fallback : α)
    (body : Option Nat → Body α) :
    (lateCheckedHook ready fallback body p faults).state.thread =
      { p.thread with inAgent := p.thread.inAgent || (p.installed && !ready p.heap) } := by
  obtain ⟨installed, heap, ⟨inAgent, context⟩⟩ := p
  cases installed
  · cases inAgent <;> rfl
  · cases inAgent
    · rcases hready : ready heap with _ | _
      · rw [late_checked_hook_refused _ _ _ rfl hready]
        rfl
      · rw [late_checked_hook_entered _ _ _ rfl hready]
        rfl
    · rfl

end Shapes

/-! ## What a body cannot change -/

/-- What decides whether a hook may work and whether it may block. -/
def Heap.policy (h : Heap) : ResourceGovernor × Bool :=
  (h.governor, h.blockingEnabled)

/-- The policy of the heap, and whether the runtime is installed. -/
def Process.policy (p : Process) : Bool × ResourceGovernor × Bool :=
  (p.installed, p.heap.policy)

section Keeps

variable {α β : Type} {view : Heap → β}

theorem keeps_fetch (f : Heap → α) : Prog.Keeps view (fetch f) :=
  Prog.keeps_bind (Prog.keeps_attempt _) fun _ ↦ Prog.keeps_read _

theorem keeps_change {f : Heap → Heap} (h : ∀ s, view (f s) = view s) :
    Prog.Keeps view (change f) :=
  Prog.keeps_bind (Prog.keeps_attempt _) fun _ ↦ Prog.keeps_modify h

/-- A failure that is caught changes the counter only. -/
theorem keeps_fail_open {fallback : α} {body : Body α} (hbody : Prog.Keeps view body)
    (h : ∀ s n, view { s with hookFailures := n } = view s) :
    Prog.Keeps view (failOpen fallback body) :=
  Prog.keeps_handle hbody fun _ ↦
    Prog.keeps_bind (Prog.keeps_bind (Prog.keeps_modify fun s ↦ h s _) fun _ ↦
      Prog.keeps_attempt _) fun _ ↦ Prog.keeps_pure _

/-- Reporting a finding does not change the policy. -/
theorem policy_report_finding (id : Nat) (finding : Finding) (moment : Moment) :
    Prog.Keeps Heap.policy (reportFinding id finding moment) := by
  refine Prog.keeps_bind (keeps_fetch _) fun first ↦
    Prog.keeps_bind (keeps_change fun _ ↦ rfl) fun _ ↦ ?_
  cases first with
  | false => exact Prog.keeps_pure _
  | true => exact Prog.keeps_bind (Prog.keeps_modify fun _ ↦ rfl) fun _ ↦ keeps_change fun _ ↦ rfl

variable (platform : Platform)

/-- Evaluating a sink changes nothing. -/
theorem keeps_evaluate_sink (taint : TaintedValue) (value : JString) (rule : Option RuleClass)
    (sinkSignature : JString) (stack : List StackTraceElement) :
    Prog.Keeps view (evaluateSink platform taint value rule sinkSignature stack) := by
  unfold evaluateSink
  cases rule with
  | none =>
      dsimp only
      split
      · exact Prog.keeps_pure _
      · exact Prog.keeps_raise _
  | some rule => exact keeps_fetch _

/-- The try block of a sink does not change the policy. -/
theorem policy_sink_body (argument : StringRef) (rule : Option RuleClass)
    (sinkSignature : JString) (capture : Capture) (context : Option Nat) :
    Prog.Keeps Heap.policy (sinkBody platform argument rule sinkSignature capture context) := by
  refine Prog.keeps_bind (Prog.keeps_read _) fun id ↦ ?_
  cases id with
  | none => exact Prog.keeps_pure _
  | some id =>
      refine Prog.keeps_bind (Prog.keeps_modify fun _ ↦ rfl) fun _ ↦
        Prog.keeps_bind (keeps_fetch _) fun tracker ↦ ?_
      dsimp only
      split
      · exact Prog.keeps_pure _
      split
      · exact Prog.keeps_pure _
      refine Prog.keeps_bind (keeps_evaluate_sink _ _ _ _ _ _) fun finding ↦ ?_
      cases finding with
      | none => exact Prog.keeps_pure _
      | some finding =>
          exact Prog.keeps_bind (policy_report_finding _ _ _) fun _ ↦ Prog.keeps_pure _

end Keeps

section Policy

variable {α : Type}

/-- A try block keeps the policy when its body does. -/
theorem policy_guarded {fallback : α} {body : Option Nat → Body α}
    (hbody : ∀ context, Prog.Keeps Heap.policy (body context)) :
    Prog.Keeps Process.policy (guarded fallback body) := by
  intro p faults
  have hkeeps : Prog.Keeps Heap.policy (failOpen fallback (body p.thread.context)) :=
    keeps_fail_open (hbody p.thread.context) fun _ _ ↦ rfl
  show (p.installed, _) = (p.installed, _)
  exact congrArg _ (hkeeps p.heap faults)

/-- So does a hook that makes its checks first. -/
theorem policy_guarded_hook {ready : Bool} {fallback : α} {body : Option Nat → Body α}
    (hbody : ∀ context, Prog.Keeps Heap.policy (body context)) :
    Prog.Keeps Process.policy (guardedHook ready fallback body) := by
  intro p faults
  obtain ⟨installed, heap, ⟨inAgent, context⟩⟩ := p
  cases installed <;> cases ready <;> cases inAgent <;> try rfl
  exact policy_guarded hbody _ faults

/-- And one that makes a check late. -/
theorem policy_late_checked_hook {ready : Heap → Bool} {fallback : α}
    {body : Option Nat → Body α} (hbody : ∀ context, Prog.Keeps Heap.policy (body context)) :
    Prog.Keeps Process.policy (lateCheckedHook ready fallback body) := by
  intro p faults
  obtain ⟨installed, heap, ⟨inAgent, context⟩⟩ := p
  cases installed
  · rfl
  · cases inAgent
    · rcases hready : ready heap with _ | _
      · rw [late_checked_hook_refused _ _ _ rfl hready]
        rfl
      · rw [late_checked_hook_entered _ _ _ rfl hready]
        exact policy_guarded hbody _ faults
    · rfl

end Policy

/-! ## Sinks and the thread -/

/-- The governor allows dataflow. -/
def Process.allows (p : Process) : Bool :=
  p.heap.governor.level.allowsDataflow

/-- The thread after a hook that returns with the guard taken, if it leaks. -/
def Process.leaking (p : Process) (leak : Bool) : ThreadState :=
  { p.thread with inAgent := p.thread.inAgent || (p.installed && leak) }

@[simp] theorem leaking_false (p : Process) : p.leaking false = p.thread := by
  simp [Process.leaking]

/-- The question whether the target is a body channel of the response is answered with yes. -/
def answersYes (ready : Bool) (target : Option Nat) (p : Process) (faults : List Bool) : Bool :=
  match (writesResponse ready target p faults).outcome with
  | .ok answer => answer
  | .error _ => false

section Sinks

variable (platform : Platform) (rule : Option RuleClass) (sinkSignature : JString)
  (capture : Capture)

/-- A sink takes the guard of a string before it asks the governor. -/
theorem thread_on_sink (argument : Option Obj) (p : Process) (faults : List Bool) :
    (onSink platform argument rule sinkSignature capture p faults).state.thread =
      p.leaking (isString argument && !p.allows) := by
  rcases argument with _ | ⟨ref⟩ | ⟨id, text⟩
  · exact (leaking_false p).symm
  · exact thread_late_checked_hook p faults _ _ _
  · exact (leaking_false p).symm

/-- A sink does not change the policy. -/
theorem policy_on_sink (argument : Option Obj) :
    Prog.Keeps Process.policy (onSink platform argument rule sinkSignature capture) := by
  rcases argument with _ | ⟨ref⟩ | ⟨id, text⟩
  · exact Prog.keeps_pure _
  · exact policy_late_checked_hook fun _ ↦ policy_sink_body _ _ _ _ _ _
  · exact Prog.keeps_pure _

/-- Where the governor does not allow dataflow, a sink finds nothing. -/
theorem outcome_on_sink (argument : Option Obj) {p : Process} (faults : List Bool)
    (hallows : p.allows = false) :
    (onSink platform argument rule sinkSignature capture p faults).outcome = .ok none := by
  rcases argument with _ | ⟨ref⟩ | ⟨id, text⟩
  · rfl
  · obtain ⟨installed, heap, ⟨inAgent, context⟩⟩ := p
    cases installed
    · rfl
    · cases inAgent
      · show (lateCheckedHook _ _ _ _ _).outcome = _
        rw [late_checked_hook_refused _ _ _ rfl hallows]
      · rfl
  · rfl

/-- Blocking decides on the finding and changes nothing more. -/
theorem state_on_blocking_sink (argument : Option Obj) (p : Process) (faults : List Bool) :
    (onBlockingSink platform argument rule sinkSignature capture p faults).state =
      (onSink platform argument rule sinkSignature capture p faults).state := by
  rcases h : onSink platform argument rule sinkSignature capture p faults with
    ⟨_ | _ | finding, p', faults'⟩
  · rw [onBlockingSink, Prog.bind_of_error h]
  · rw [onBlockingSink, Prog.bind_of_ok h]
    rfl
  · rw [onBlockingSink, Prog.bind_of_ok h]
    show ((ite _ _ _ : Call PUnit) p' faults').state = p'
    split <;> rfl

/-- Where the governor does not allow dataflow, nothing is blocked. -/
theorem outcome_on_blocking_sink (argument : Option Obj) {p : Process} (faults : List Bool)
    (hallows : p.allows = false) :
    (onBlockingSink platform argument rule sinkSignature capture p faults).outcome =
      .ok .unit := by
  have hnone := outcome_on_sink platform rule sinkSignature capture argument faults hallows
  rcases h : onSink platform argument rule sinkSignature capture p faults with
    ⟨outcome, p', faults'⟩
  rw [h] at hnone
  cases hnone
  rw [onBlockingSink, Prog.bind_of_ok h]
  rfl

/-- A blocking sink takes the guard of a string before it asks the governor. -/
theorem thread_on_blocking_sink (argument : Option Obj) (p : Process) (faults : List Bool) :
    (onBlockingSink platform argument rule sinkSignature capture p faults).state.thread =
      p.leaking (isString argument && !p.allows) := by
  rw [state_on_blocking_sink, thread_on_sink]

/-- A blocking sink does not change the policy. -/
theorem policy_on_blocking_sink (argument : Option Obj) :
    Prog.Keeps Process.policy (onBlockingSink platform argument rule sinkSignature capture) := by
  intro p faults
  rw [state_on_blocking_sink]
  exact policy_on_sink _ _ _ _ _ p faults

/-- A series of blocking sinks keeps the guard as soon as one of them does. -/
theorem thread_blocking_sinks (rule : RuleClass) (arguments : List (Option Obj)) (p : Process)
    (faults : List Bool) :
    (blockingSinks platform rule sinkSignature capture arguments p faults).state.thread =
      p.leaking (!p.allows && arguments.any isString) := by
  induction arguments generalizing p faults with
  | nil =>
      rw [List.any_nil, Bool.and_false, leaking_false]
      rfl
  | cons argument arguments ih =>
      have hthread := thread_on_blocking_sink platform (some rule) sinkSignature capture argument p
        faults
      have hpolicy := policy_on_blocking_sink platform (some rule) sinkSignature capture argument p
        faults
      have hrefused := outcome_on_blocking_sink platform (some rule) sinkSignature capture argument
        (p := p) faults
      rcases h : onBlockingSink platform argument (some rule) sinkSignature capture p faults with
        ⟨_ | _, p', faults'⟩
      all_goals rw [h] at hthread hpolicy hrefused
      · -- The call was blocked, so the governor allows dataflow and nothing leaks.
        have hallows : p.allows = true := by
          cases hallows : p.allows with
          | true => rfl
          | false => cases hrefused hallows
        rw [blockingSinks, Prog.bind_of_error h, hthread, hallows]
        simp
      · have hallows : p'.allows = p.allows := congrArg (fun q ↦ q.2.1.level.allowsDataflow) hpolicy
        have hinstalled : p'.installed = p.installed := congrArg Prod.fst hpolicy
        rw [blockingSinks, Prog.bind_of_ok h, ih]
        simp only [Process.leaking, hallows, hinstalled] at hthread ⊢
        rw [hthread, List.any_cons]
        cases p.installed <;> cases p.thread.inAgent <;> cases p.allows <;>
          cases isString argument <;> simp

/-- Starting a process hands every string of the command to a blocking sink. -/
theorem thread_on_process_start (builder : Option (Option (List StringRef))) (p : Process)
    (faults : List Bool) :
    (onProcessStart platform builder capture p faults).state.thread =
      p.leaking (!p.allows && !(builder.join.getD []).isEmpty) := by
  have hstrings (command : List StringRef) :
      (command.map fun argument ↦ some (Obj.string argument)).any isString = !command.isEmpty := by
    cases command <;> simp [isString]
  obtain ⟨installed, heap, thread⟩ := p
  rcases builder with _ | _ | command
  · show thread = _
    simp
  · have hkept : (onProcessStart platform (some none) capture ⟨installed, heap, thread⟩
        faults).state.thread = thread := by
      cases installed <;> rfl
    simpa using hkept
  · cases installed with
    | false =>
        show thread = _
        simp [Process.leaking]
    | true =>
        show (blockingSinks platform _ _ capture _ _ faults).state.thread = _
        rw [thread_blocking_sinks, hstrings]
        rfl

/-- A series of blocking sinks after a question that is answered with yes or no. -/
theorem thread_after_question (ready : Bool) (target : Option Nat) (sinks : Call PUnit)
    (reaches : Bool) (p : Process) (faults : List Bool)
    (hsinks : ∀ q faults, (sinks q faults).state.thread = q.leaking (!q.allows && reaches)) :
    ((do if ← writesResponse ready target then sinks : Call PUnit) p faults).state.thread =
      p.leaking (!p.allows && reaches && answersYes ready target p faults) := by
  have hthread : (writesResponse ready target p faults).state.thread = p.thread :=
    thread_guarded_hook p faults _ _ _
  have hpolicy : (writesResponse ready target p faults).state.policy = p.policy :=
    policy_guarded_hook (fun context ↦ by
      cases context with
      | none => exact Prog.keeps_pure _
      | some id => exact keeps_fetch _) p faults
  unfold answersYes
  rcases h : writesResponse ready target p faults with ⟨_ | _ | _, p', faults'⟩
  all_goals
    rw [h] at hthread hpolicy
    replace hthread : p'.thread = p.thread := hthread
  · rw [Prog.bind_of_error h]
    simpa using hthread
  · rw [Prog.bind_of_ok h]
    show p'.thread = _
    simpa using hthread
  · have hallows : p'.allows = p.allows := congrArg (fun q ↦ q.2.1.level.allowsDataflow) hpolicy
    have hinstalled : p'.installed = p.installed := congrArg Prod.fst hpolicy
    rw [Prog.bind_of_ok h]
    show (sinks p' faults').state.thread = _
    rw [hsinks]
    simp only [Process.leaking, hallows, hinstalled, hthread]
    simp

end Sinks

/-! ## Which calls leak the guard -/

/-- The hook returns after it has taken the guard and before the try block that releases it. -/
def Hook.leaks (h : Hook) (p : Process) (faults : List Bool) : Bool :=
  match h with
  | onSource _ _ _ => !p.allows
  | onConcat result _ _ => !(result.isSome && p.allows)
  | onBuilderAppend builder _ _ => !(builder.isSome && p.allows)
  | onPreservingTransform result _ => !result.isSome
  | onSubstring result _ _ _ => !result.isSome
  | onSanitized result _ _ => !result.isSome
  | onSink argument _ _ _ => isString argument && !p.allows
  | onBlockingSink argument _ _ _ => isString argument && !p.allows
  | onProcessStart builder _ => !p.allows && !((builder.join.getD []).isEmpty)
  | onResponseWrite target value _ =>
      !p.allows && isString value && answersYes (isString value) target p faults
  | onResponseFormat target arguments _ =>
      !p.allows && ((arguments.getD []).flatMap FormatArgument.reaching).any isString &&
        answersYes arguments.isSome target p faults
  | _ => false

/-- What a hook inside a request does to the thread. -/
theorem thread_hook (platform : Platform) (h : Hook) (p : Process) (faults : List Bool) :
    (h.call platform p faults).state.thread = p.leaking (h.leaks p faults) := by
  cases h with
  | onHttpSource | onCookieValue | onRequestBodySource | onSourceEnumeration | onIndyConcat
  | onBuilderReplace | onBuilderReverse | onStringFormat | onReshapingTransform | onSplit
  | onDerivedObject | onResponseChannel | wrapForHandoff | onUrlEncoded | onHtmlEscaped
  | onQueryEncoded | onObjectSink =>
      rw [Hook.call, Prog.state_bind_pure]
      exact (thread_guarded_hook p faults _ _ _).trans (leaking_false p).symm
  | onSource | onConcat | onBuilderAppend | onPreservingTransform | onSubstring | onSanitized =>
      rw [Hook.call, Prog.state_bind_pure]
      exact thread_late_checked_hook p faults _ _ _
  | onSink argument rule sinkSignature capture =>
      rw [Hook.call, Prog.state_bind_pure]
      exact thread_on_sink platform rule sinkSignature capture argument p faults
  | onBlockingSink argument rule sinkSignature capture =>
      rw [Hook.call, Prog.state_bind_pure]
      exact thread_on_blocking_sink platform rule sinkSignature capture argument p faults
  | onProcessStart builder capture =>
      rw [Hook.call, Prog.state_bind_pure]
      exact thread_on_process_start platform capture builder p faults
  | onResponseWrite target value capture =>
      rw [Hook.call, Prog.state_bind_pure]
      exact thread_after_question _ _ _ _ p faults fun q faults ↦ by
        rw [thread_on_blocking_sink, Bool.and_comm]
  | onResponseFormat target arguments capture =>
      rw [Hook.call, Prog.state_bind_pure]
      exact thread_after_question _ _ _ _ p faults fun q faults ↦
        thread_blocking_sinks platform _ capture _ _ q faults

/-! ## The two ends of a request -/

section Ends

variable (p : Process) (faults : List Bool)

/-- Entering a request leaves the guard as it was. -/
theorem guard_on_request_enter (request : Option HttpRequest) (draw : Bool) (traceId : JString) :
    (AgentRuntime.onRequestEnter request draw traceId p faults).state.thread.inAgent =
      p.thread.inAgent := by
  obtain ⟨installed, heap, ⟨inAgent, context⟩⟩ := p
  cases installed <;> cases inAgent <;> rfl

/-- Leaving a request leaves the guard as it was. -/
theorem guard_on_request_exit (owner : Bool) (request : Option HttpRequest) (moment : Moment) :
    (AgentRuntime.onRequestExit owner request moment p faults).state.thread.inAgent =
      p.thread.inAgent := by
  obtain ⟨installed, heap, ⟨inAgent, context⟩⟩ := p
  cases installed <;> cases owner <;> cases inAgent <;> rfl

end Ends

/-! ## The guard of a thread -/

/-- The call leaks the guard in this state. -/
def HookCall.leaks (c : HookCall) (p : Process) (faults : List Bool) : Bool :=
  match c with
  | hook h => h.leaks p faults
  | _ => false

/-- The call takes a free guard of an installed runtime and leaves it taken. -/
def LeavesGuard (p : Process) (label : HookCall × List Bool) : Prop :=
  p.installed = true ∧ p.thread.inAgent = false ∧ label.1.leaks p label.2 = true

instance (p : Process) (label : HookCall × List Bool) : Decidable (LeavesGuard p label) :=
  inferInstanceAs (Decidable (_ ∧ _))

/-- One call of the runtime on a thread, with the faults of the environment. -/
def hookStep (platform : Platform) (p : Process) (label : HookCall × List Bool) :
    Except Throwable Answer × Process :=
  let ending := label.1.call platform p label.2
  (ending.outcome, ending.state)

/-- A call leaves the guard as it was unless it leaks it. -/
theorem guard_step_iff (platform : Platform) (p : Process) (label : HookCall × List Bool) :
    (hookStep platform p label).2.thread.inAgent = p.thread.inAgent ↔ ¬LeavesGuard p label := by
  obtain ⟨call, faults⟩ := label
  cases call with
  | onRequestEnter request draw traceId =>
      have h := guard_on_request_enter p faults request draw traceId
      simp only [hookStep, HookCall.call, Prog.state_bind_pure, h, LeavesGuard, HookCall.leaks]
      simp
  | onRequestExit owner request moment =>
      have h := guard_on_request_exit p faults owner request moment
      simp only [hookStep, HookCall.call, Prog.state_bind_pure, h, LeavesGuard, HookCall.leaks]
      simp
  | hook h =>
      simp only [hookStep, HookCall.call, thread_hook, Process.leaking, LeavesGuard,
        HookCall.leaks]
      cases p.thread.inAgent <;> cases p.installed <;> cases h.leaks p faults <;> simp

/-- The guard is the same after every call of a run exactly when no call of the run leaks it. -/
theorem guard_run_iff (platform : Platform) (p : Process) (run : List (HookCall × List Bool)) :
    (∀ v ∈ Machine.visited (hookStep platform) p run, v.2.thread.inAgent = p.thread.inAgent) ↔
      Machine.Meets (hookStep platform) (fun q label ↦ ¬LeavesGuard q label) p run := by
  induction run generalizing p with
  | nil => simp [Machine.visited, Machine.Meets]
  | cons label run ih =>
      rw [Machine.visited, List.forall_mem_cons, Machine.Meets, guard_step_iff, ← ih]
      refine and_congr_right fun hnot ↦ ?_
      rw [(guard_step_iff platform p label).mpr hnot]

/-- A call leaves the guard as it found it exactly when it does not leak it, and the guard is the
same after every call of a run exactly when no call of the run leaks it. -/
theorem balanced_iff (platform : Platform) :
    (∀ p label, (hookStep platform p label).2.thread.inAgent = p.thread.inAgent ↔
        ¬LeavesGuard p label) ∧
      ∀ p run, (∀ v ∈ Machine.visited (hookStep platform) p run,
          v.2.thread.inAgent = p.thread.inAgent) ↔
        Machine.Meets (hookStep platform) (fun q label ↦ ¬LeavesGuard q label) p run :=
  ⟨guard_step_iff platform, guard_run_iff platform⟩

/-! ## A leak -/

/-- An agent that has just been installed, on a thread outside any request. -/
def freshProcess (level : Level) (blockingEnabled : Bool) : Process where
  installed := true
  heap :=
    { detector := ⟨.create asciiPlatform none .NONE 512 false, []⟩
      blockingEnabled := blockingEnabled
      governor := { ResourceGovernor.create 5 with level := level }
      reporter := .create 4096
      hookFailures := 0
      sinksEvaluated := 0
      findingsReported := 0
      contexts := fun _ ↦ .create [] false
      nextContext := 0 }
  thread := ⟨false, none⟩

/-- A string is appended while the governor has turned dataflow off. The guard stays taken, and
the request that follows is not entered even after the governor has recovered. -/
theorem append_leaks :
    let append : HookCall := .hook (.onBuilderAppend (some 1) 0 (some (.other 2 (some []))))
    let stuck := (hookStep asciiPlatform (freshProcess .CONFIG_ONLY false) (append, [])).2
    let recovered := { stuck with
      heap := { stuck.heap with governor := ResourceGovernor.create 5 } }
    (freshProcess .CONFIG_ONLY false).thread.inAgent = false ∧ stuck.thread.inAgent = true ∧
      (hookStep asciiPlatform recovered (.onRequestEnter none true (java "trace"), [])).1 =
        .ok (.flag false) ∧
      (hookStep asciiPlatform { recovered with thread := ⟨false, none⟩ }
        (.onRequestEnter none true (java "trace"), [])).1 = .ok (.flag true) :=
  ⟨rfl, rfl, rfl, rfl⟩

end Aegis.Agent
