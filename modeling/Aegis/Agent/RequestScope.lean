import Aegis.Agent.Guard

/-!
# The scope of a request

A thread that serves requests, as a machine: servlet frames are entered and left like a stack, hooks
run between, and the governor may change at any point. A frame remembers the token its
`onRequestEnter` returned and the context that call created. `released_of_meets` says that a
context ends with the frame that created it, in every run in which no hook leaks the guard while a
context is current and no request fails to be described after its context was created.
-/

namespace Aegis.Agent

open AgentRuntime

/-! ## The machine -/

/-- A servlet frame: the token it was given, and the context that was created for it. -/
structure Frame where
  owner : Bool
  created : Option Nat
  deriving DecidableEq

/-- A thread of the process with the servlet frames on its stack, the innermost first. -/
structure ServingThread where
  process : Process
  frames : List Frame

/-- What happens next on the thread. -/
inductive Step where
  | enter (request : Option HttpRequest) (draw : Bool) (traceId : JString)
  | exit (request : Option HttpRequest) (moment : Moment)
  | hook (h : Hook)
  | govern (governor : ResourceGovernor)

/-- What has happened to the frames. -/
inductive Passage where
  | entered (frame : Frame)
  | exited (frame : Frame)
  | within
  deriving DecidableEq

/-- The token of a frame. The advice suppresses an exception and leaves the token false. -/
def token (outcome : Except Throwable Bool) : Bool :=
  match outcome with
  | .ok owner => owner
  | .error _ => false

/-- The context a call has created: the thread had none before and has one after. -/
def createdContext (p p' : Process) : Option Nat :=
  if p.thread.context.isNone then p'.thread.context else none

/-- One step of the thread, with the faults of the environment. -/
def serve (platform : Platform) (s : ServingThread) (label : Step × List Bool) :
    Passage × ServingThread :=
  match label.1 with
  | .enter request draw traceId =>
      let ending := onRequestEnter request draw traceId s.process label.2
      let frame := ⟨token ending.outcome, createdContext s.process ending.state⟩
      (.entered frame, ⟨ending.state, frame :: s.frames⟩)
  | .exit request moment =>
      match s.frames with
      | [] => (.within, s)
      | frame :: frames =>
          (.exited frame,
            ⟨(onRequestExit frame.owner request moment s.process label.2).state, frames⟩)
  | .hook h => (.within, { s with process := (h.call platform s.process label.2).state })
  | .govern governor =>
      (.within, { s with
        process := { s.process with heap := { s.process.heap with governor := governor } } })

/-- A thread that serves no request yet. -/
def idleThread (installed : Bool) (heap : Heap) : ServingThread :=
  ⟨⟨installed, heap, ⟨false, none⟩⟩, []⟩

/-! ## The steps that strand a context -/

/-- Of the faults of `onRequestEnter`, the first to strike is the one that describes the request,
after the context has become the thread's. -/
def describeRaises (faults : List Bool) : Bool :=
  match faults with
  | false :: false :: true :: _ => true
  | _ => false

/-- The step would create a context whose frame is then denied its token, or it leaks the guard
while a context is current. -/
def Strands (s : ServingThread) (label : Step × List Bool) : Prop :=
  match label.1 with
  | .enter _ _ _ =>
      s.process.installed = true ∧ s.process.thread = ⟨false, none⟩ ∧
        s.process.heap.governor.level ≠ .UNINSTALLED ∧ describeRaises label.2 = true
  | .hook h =>
      s.process.thread.context.isSome = true ∧ LeavesGuard s.process (.hook h, label.2)
  | _ => False

instance (s : ServingThread) (label : Step × List Bool) : Decidable (Strands s label) := by
  unfold Strands
  split <;> infer_instance

/-! ## What one call does -/

section Installed

variable {α : Type} (platform : Platform)

/-- A hook does not uninstall the runtime. -/
theorem installed_guarded_hook (ready : Bool) (fallback : α) (body : Option Nat → Body α) :
    Prog.Keeps Process.installed (guardedHook ready fallback body) := by
  rintro ⟨installed, heap, ⟨inAgent, context⟩⟩ faults
  cases installed <;> cases ready <;> cases inAgent <;> rfl

/-- Nor does one with a late check. -/
theorem installed_late_checked_hook (ready : Heap → Bool) (fallback : α)
    (body : Option Nat → Body α) :
    Prog.Keeps Process.installed (lateCheckedHook ready fallback body) := by
  rintro ⟨installed, heap, ⟨inAgent, context⟩⟩ faults
  cases installed
  · rfl
  · cases inAgent
    · rcases hready : ready heap with _ | _
      · rw [late_checked_hook_refused _ _ _ rfl hready]
      · rw [late_checked_hook_entered _ _ _ rfl hready]
        rfl
    · rfl

/-- Nor does a series of blocking sinks. -/
theorem installed_blocking_sinks (rule : RuleClass) (sinkSignature : JString) (capture : Capture)
    (arguments : List (Option Obj)) :
    Prog.Keeps Process.installed
      (blockingSinks platform rule sinkSignature capture arguments) := by
  induction arguments with
  | nil => exact Prog.keeps_pure _
  | cons argument arguments ih =>
      refine Prog.keeps_bind (fun p faults ↦ ?_) fun _ ↦ ih
      exact congrArg Prod.fst (policy_on_blocking_sink platform _ _ _ _ p faults)

/-- No hook inside a request uninstalls the runtime. -/
theorem installed_hook (h : Hook) : Prog.Keeps Process.installed (h.call platform) := by
  have hquestion (ready : Bool) (target : Option Nat) {sinks : Call PUnit}
      (hsinks : Prog.Keeps Process.installed sinks) :
      Prog.Keeps Process.installed (do if ← writesResponse ready target then sinks) :=
    Prog.keeps_bind (installed_guarded_hook _ _ _) fun answer ↦ by
      cases answer
      · exact Prog.keeps_pure _
      · exact hsinks
  intro p faults
  cases h with
  | onSource | onConcat | onBuilderAppend | onPreservingTransform | onSubstring | onSanitized =>
      rw [Hook.call, Prog.state_bind_pure]
      exact installed_late_checked_hook _ _ _ p faults
  | onSink argument rule sinkSignature capture =>
      rw [Hook.call, Prog.state_bind_pure]
      exact congrArg Prod.fst (policy_on_sink platform rule sinkSignature capture argument p faults)
  | onBlockingSink argument rule sinkSignature capture =>
      rw [Hook.call, Prog.state_bind_pure]
      exact congrArg Prod.fst
        (policy_on_blocking_sink platform rule sinkSignature capture argument p faults)
  | onProcessStart builder capture =>
      rw [Hook.call, Prog.state_bind_pure]
      refine Prog.keeps_bind (Prog.keeps_read _) (fun installed ↦ ?_) p faults
      rcases builder with _ | _ | command
      · exact Prog.keeps_pure _
      · cases installed
        · exact Prog.keeps_pure _
        · exact fun _ _ ↦ rfl
      · cases installed
        · exact Prog.keeps_pure _
        · exact installed_blocking_sinks platform _ _ _ _
  | onResponseWrite target value capture =>
      rw [Hook.call, Prog.state_bind_pure]
      refine hquestion _ _ (fun p faults ↦ ?_) p faults
      exact congrArg Prod.fst (policy_on_blocking_sink platform _ _ _ _ p faults)
  | onResponseFormat target arguments capture =>
      rw [Hook.call, Prog.state_bind_pure]
      exact hquestion _ _ (installed_blocking_sinks platform _ _ _ _) p faults
  | _ =>
      rw [Hook.call, Prog.state_bind_pure]
      exact installed_guarded_hook _ _ _ p faults

end Installed

/-- A request that has just begun has no taint and no recorded data. -/
def Pristine (c : RequestContext) : Prop :=
  c.tracker.isEmpty = true ∧ c.parameters = [] ∧ c.headers = []

/-- Describing a request records the request line only. -/
theorem pristine_describe {c : RequestContext} (h : Pristine c) (request : Option HttpRequest) :
    Pristine (describe request c) := by
  rcases request with _ | ⟨_ | _, _⟩
  · exact h
  · exact h
  · exact h

section Enter

variable (request : Option HttpRequest) (draw : Bool) (traceId : JString)

/-- The process once the request of a context has been described. -/
def Process.describing (p : Process) (id : Nat) : Process :=
  { p with heap := p.heap.updateContext id (describe request) }

/-- The ways creating a context can end: it raises before there is one, it raises while the request
is described, or it returns true. -/
theorem begin_request_cases (p : Process) (faults : List Bool) :
    let ending := beginRequest request draw traceId p faults
    let begun := beginContext traceId (p.heap.governor.shouldSample draw) p
    (∃ rest, ending = ⟨.error .internal, p, rest⟩ ∧ describeRaises faults = false) ∨
      (∃ rest, ending = ⟨.error .internal, begun, rest⟩ ∧ describeRaises faults = true) ∨
      (∃ rest, ending = ⟨.ok true, begun.describing request p.heap.nextContext, rest⟩ ∧
        describeRaises faults = false) := by
  -- Of the three steps that may raise, two come before the context and one after it.
  rcases faults with _ | ⟨_ | _, _ | ⟨_ | _, _ | ⟨_ | _, faults⟩⟩⟩
  all_goals
    first
    | exact .inl ⟨_, rfl, rfl⟩
    | exact .inr (.inl ⟨_, rfl, rfl⟩)
    | exact .inr (.inr ⟨_, rfl, rfl⟩)

/-- The catch block leaves all but the counter as it is and gives no token. -/
theorem request_enter_failed (p : Process) (faults : List Bool) :
    let ending := requestEnterFailed p faults
    ending.state.installed = p.installed ∧ ending.state.thread = p.thread ∧
      ending.state.heap.contexts = p.heap.contexts ∧ token ending.outcome = false := by
  rcases faults with _ | ⟨_ | _, faults⟩ <;> exact ⟨rfl, rfl, rfl, rfl⟩

/-- On a thread without a context, at a level at which the agent is there, a context is created. -/
theorem request_enter_body_eq {p : Process} (faults : List Bool)
    (hcontext : p.thread.context = none) (hlevel : p.heap.governor.level ≠ .UNINSTALLED) :
    requestEnterBody request draw traceId p faults = beginRequest request draw traceId p faults := by
  obtain ⟨installed, heap, ⟨inAgent, context⟩⟩ := p
  cases hcontext
  show (ite (heap.governor.level = .UNINSTALLED) _ _ : Call Bool) _ faults = _
  rw [if_neg hlevel]

/-- What entering a request can do: leave the thread as it is and give no token, or create a
pristine context, and then the token says whether the request could be described. -/
theorem on_request_enter_cases (p : Process) (faults : List Bool) :
    let ending := onRequestEnter request draw traceId p faults
    ending.state.installed = p.installed ∧
      ((ending.state.thread = p.thread ∧ token ending.outcome = false) ∨
        (p.installed = true ∧ p.thread = ⟨false, none⟩ ∧
          p.heap.governor.level ≠ .UNINSTALLED ∧
          ending.state.thread = ⟨false, some p.heap.nextContext⟩ ∧
          token ending.outcome = !describeRaises faults ∧
          Pristine (ending.state.heap.contexts p.heap.nextContext))) := by
  obtain ⟨installed, heap, ⟨inAgent, context⟩⟩ := p
  cases installed with
  | false => exact ⟨rfl, .inl ⟨rfl, rfl⟩⟩
  | true =>
  cases inAgent with
  | true => exact ⟨rfl, .inl ⟨rfl, rfl⟩⟩
  | false =>
  cases context with
  | some id => exact ⟨rfl, .inl ⟨rfl, rfl⟩⟩
  | none =>
  by_cases hlevel : heap.governor.level = .UNINSTALLED
  · obtain ⟨_, _, ⟨_, level, _, _⟩, _, _, _, _, _, _⟩ := heap
    cases hlevel
    exact ⟨rfl, .inl ⟨rfl, rfl⟩⟩
  · have hending : onRequestEnter request draw traceId ⟨true, heap, ⟨false, none⟩⟩ faults =
        Prog.finish (Prog.handle (requestEnterBody request draw traceId)
          fun _ ↦ requestEnterFailed) Process.exit ⟨true, heap, ⟨true, none⟩⟩ faults := rfl
    have hbody := request_enter_body_eq request draw traceId (p := ⟨true, heap, ⟨true, none⟩⟩)
      faults rfl hlevel
    dsimp only
    rw [hending, Prog.finish]
    rcases begin_request_cases request draw traceId ⟨true, heap, ⟨true, none⟩⟩ faults with
      ⟨rest, hbegin, hraises⟩ | ⟨rest, hbegin, hraises⟩ | ⟨rest, hbegin, hraises⟩
    · obtain ⟨hinstalled, hthread, -, htoken⟩ := request_enter_failed ⟨true, heap, ⟨true, none⟩⟩ rest
      rw [Prog.handle_of_error (hbody.trans hbegin)]
      refine ⟨hinstalled, .inl ⟨?_, htoken⟩⟩
      rw [Process.exit, hthread]
      rfl
    · obtain ⟨hinstalled, hthread, hcontexts, htoken⟩ := request_enter_failed
        (beginContext traceId (heap.governor.shouldSample draw) ⟨true, heap, ⟨true, none⟩⟩) rest
      rw [Prog.handle_of_error (hbody.trans hbegin)]
      refine ⟨hinstalled, .inr ⟨rfl, rfl, hlevel, ?_, ?_, ?_⟩⟩
      · rw [Process.exit, hthread]
        rfl
      · rw [htoken, hraises]
        rfl
      · rw [Process.exit, hcontexts]
        show Pristine ((heap.allocate _).contexts heap.nextContext)
        rw [Heap.contexts_allocate]
        exact ⟨rfl, rfl, rfl⟩
    · rw [Prog.handle_of_ok (hbody.trans hbegin)]
      refine ⟨rfl, .inr ⟨rfl, rfl, hlevel, rfl, ?_, ?_⟩⟩
      · rw [hraises]
        rfl
      · show Pristine (((heap.allocate _).updateContext heap.nextContext _).contexts _)
        rw [Heap.contexts_update_context, Heap.contexts_allocate]
        exact pristine_describe ⟨rfl, rfl, rfl⟩ request

end Enter

/-- Ending the current context releases its table and leaves the thread without one. -/
theorem end_context {p : Process} {id : Nat} (hcontext : p.thread.context = some id) :
    (endContext p).installed = p.installed ∧ (endContext p).thread.context = none ∧
      ((endContext p).heap.contexts id).tracker.isEmpty = true := by
  have hend : endContext p =
      { p with
        heap := p.heap.updateContext id RequestContext.release
        thread := { p.thread with context := none } } := by
    rw [endContext, hcontext]
  rw [hend]
  refine ⟨rfl, rfl, ?_⟩
  show ((p.heap.updateContext id RequestContext.release).contexts id).tracker.isEmpty = true
  rw [Heap.contexts_update_context, RequestContext.tracker_release]

/-- What leaving a request does for the owner of a context. -/
theorem on_request_exit_owner (request : Option HttpRequest) (moment : Moment) (p : Process)
    (faults : List Bool) {id : Nat} (hinstalled : p.installed = true)
    (hthread : p.thread = ⟨false, some id⟩) :
    let ending := onRequestExit true request moment p faults
    ending.state.installed = true ∧ ending.state.thread = ⟨false, none⟩ ∧
      (ending.state.heap.contexts id).tracker.isEmpty = true := by
  obtain ⟨installed, heap, thread⟩ := p
  cases hinstalled
  cases hthread
  obtain ⟨-, -, hreleased⟩ := end_context (p := { (onHeap (failOpen PUnit.unit
    (reportRequest request moment (some id))) ⟨true, heap, ⟨true, some id⟩⟩ faults).state with
      thread := ⟨true, some id⟩ }) rfl
  exact ⟨rfl, rfl, hreleased⟩

/-- A frame without the token changes nothing when it is left. -/
theorem on_request_exit_other (request : Option HttpRequest) (moment : Moment) (p : Process)
    (faults : List Bool) : (onRequestExit false request moment p faults).state = p := by
  obtain ⟨installed, heap, thread⟩ := p
  cases installed <;> rfl

/-! ## The scope of a context -/

/-- Exactly the frame that created the current context has a token, and while there is a context
the guard is free. -/
structure Scoped (s : ServingThread) : Prop where
  token : ∀ frame ∈ s.frames, frame.owner = frame.created.isSome
  created : s.frames.filterMap Frame.created = s.process.thread.context.toList
  free : s.process.thread.context.isSome = true →
    s.process.installed = true ∧ s.process.thread.inAgent = false

/-- A new context has no data of an earlier request, and a context is gone with its table emptied
once the frame that created it has been left. -/
def Released (passage : Passage) (s : ServingThread) : Prop :=
  match passage with
  | .entered frame => ∀ id ∈ frame.created, Pristine (s.process.heap.contexts id)
  | .exited frame => ∀ id ∈ frame.created,
      s.process.thread.context = none ∧ (s.process.heap.contexts id).tracker.isEmpty = true
  | .within => True

/-- A thread that serves no request yet is in scope. -/
theorem scoped_idle (installed : Bool) (heap : Heap) : Scoped (idleThread installed heap) where
  token := by simp [idleThread]
  created := rfl
  free := by simp [idleThread]

section Serve

variable {platform : Platform} {s : ServingThread} {faults : List Bool}

/-- Entering a request keeps the scope. -/
theorem scoped_enter (hscoped : Scoped s) (request : Option HttpRequest) (draw : Bool)
    (traceId : JString) (hstrands : ¬Strands s (.enter request draw traceId, faults)) :
    let step := serve platform s (.enter request draw traceId, faults)
    Scoped step.2 ∧ Released step.1 step.2 := by
  obtain ⟨hinstalled, hcases⟩ := on_request_enter_cases request draw traceId s.process faults
  simp only [serve]
  rcases hcases with ⟨hthread, htoken⟩ | ⟨hpresent, hidle, hlevel, hthread, htoken, hpristine⟩
  · -- Nothing was created, so the new frame owns nothing.
    have hcreated : createdContext s.process
        (onRequestEnter request draw traceId s.process faults).state = none := by
      rw [createdContext, hthread]
      cases s.process.thread.context <;> rfl
    rw [hcreated, htoken]
    refine ⟨⟨?_, ?_, ?_⟩, by simp [Released]⟩
    · exact List.forall_mem_cons.mpr ⟨rfl, hscoped.token⟩
    · rw [List.filterMap_cons_none rfl, hthread, hscoped.created]
    · rw [hthread, hinstalled]
      exact hscoped.free
  · -- The new frame owns the context: the request was described.
    have hraises : describeRaises faults = false := by
      cases hraises : describeRaises faults with
      | false => rfl
      | true => exact absurd ⟨hpresent, hidle, hlevel, hraises⟩ hstrands
    have hcreated : createdContext s.process
        (onRequestEnter request draw traceId s.process faults).state =
          some s.process.heap.nextContext := by
      rw [createdContext, hthread, hidle]
      rfl
    have hnone := hscoped.created
    rw [hidle] at hnone
    rw [hcreated, htoken, hraises]
    refine ⟨⟨?_, ?_, ?_⟩, ?_⟩
    · exact List.forall_mem_cons.mpr ⟨rfl, hscoped.token⟩
    · simp only [List.filterMap_cons, hthread, hnone, Option.toList_none, Option.toList_some]
    · rw [hthread, hinstalled]
      exact fun _ ↦ ⟨hpresent, rfl⟩
    · rintro id ⟨⟩
      exact hpristine

/-- Leaving a request keeps the scope and releases what the frame created. -/
theorem scoped_exit (hscoped : Scoped s) (request : Option HttpRequest) (moment : Moment) :
    let step := serve platform s (.exit request moment, faults)
    Scoped step.2 ∧ Released step.1 step.2 := by
  obtain ⟨process, frames⟩ := s
  cases frames with
  | nil => exact ⟨hscoped, trivial⟩
  | cons frame frames =>
      obtain ⟨howner, hothers⟩ := List.forall_mem_cons.mp hscoped.token
      obtain ⟨owner, created⟩ := frame
      have hcreated := hscoped.created
      simp only [serve]
      cases created with
      | none =>
          rw [show owner = false from howner, on_request_exit_other]
          rw [List.filterMap_cons_none rfl] at hcreated
          exact ⟨⟨hothers, hcreated, hscoped.free⟩, by simp [Released]⟩
      | some id =>
          simp only [List.filterMap_cons] at hcreated
          obtain ⟨context, hcontext⟩ : ∃ context, process.thread.context = some context := by
            cases hcontext : process.thread.context with
            | none => simp [hcontext] at hcreated
            | some context => exact ⟨context, rfl⟩
          rw [hcontext, Option.toList_some, List.cons.injEq] at hcreated
          obtain ⟨rfl, hrest⟩ := hcreated
          obtain ⟨hpresent, hguard⟩ := hscoped.free (by simp [hcontext])
          have hthread : process.thread = ⟨false, some id⟩ := by
            rw [← hguard, ← hcontext]
          obtain ⟨hinstalled, hafter, hreleased⟩ :=
            on_request_exit_owner request moment process faults hpresent hthread
          rw [show owner = true from howner]
          refine ⟨⟨hothers, ?_, ?_⟩, ?_⟩
          · rw [hafter]
            exact hrest
          · simp [hafter]
          · rintro _ ⟨⟩
            exact ⟨by rw [hafter], hreleased⟩

/-- A hook that does not leak the guard of a current context keeps the scope. -/
theorem scoped_hook (hscoped : Scoped s) (h : Hook) (hstrands : ¬Strands s (.hook h, faults)) :
    Scoped (serve platform s (.hook h, faults)).2 := by
  have hthread := thread_hook platform h s.process faults
  have hinstalled := installed_hook platform h s.process faults
  refine ⟨hscoped.token, ?_, ?_⟩
  · simp only [serve, hthread, Process.leaking]
    exact hscoped.created
  · simp only [serve, hthread, hinstalled, Process.leaking]
    intro hcurrent
    obtain ⟨hpresent, hguard⟩ := hscoped.free hcurrent
    have hkept : h.leaks s.process faults = false := by
      cases hleaks : h.leaks s.process faults with
      | false => rfl
      | true => exact absurd ⟨hcurrent, hpresent, hguard, hleaks⟩ hstrands
    exact ⟨hpresent, by rw [hguard, hkept, Bool.and_false, Bool.or_false]⟩

/-- One step keeps the scope and releases what it should, unless it strands a context. -/
theorem scoped_serve (hscoped : Scoped s) (label : Step × List Bool)
    (hstrands : ¬Strands s label) :
    Scoped (serve platform s label).2 ∧
      Released (serve platform s label).1 (serve platform s label).2 := by
  obtain ⟨step, faults⟩ := label
  cases step with
  | enter request draw traceId => exact scoped_enter hscoped request draw traceId hstrands
  | exit request moment => exact scoped_exit hscoped request moment
  | hook h => exact ⟨scoped_hook hscoped h hstrands, trivial⟩
  | govern governor => exact ⟨⟨hscoped.token, hscoped.created, hscoped.free⟩, trivial⟩

end Serve

/-- In every run of a thread in which no step strands a context, every context ends with the frame
that created it, its table emptied, and every context starts without data. -/
theorem released_of_meets (platform : Platform) (installed : Bool) (heap : Heap)
    (run : List (Step × List Bool))
    (hmeets : Machine.Meets (serve platform) (fun s label ↦ ¬Strands s label)
      (idleThread installed heap) run) :
    ∀ v ∈ Machine.visited (serve platform) (idleThread installed heap) run, Released v.1 v.2 := by
  have hstep (s : ServingThread) (label : Step × List Bool) (hscoped : Scoped s)
      (hnot : ¬Strands s label) : Scoped (serve platform s label).2 ∧
        Released (serve platform s label).1 (serve platform s label).2 :=
    scoped_serve hscoped label hnot
  intro v hv
  exact (Machine.forall_visited hstep (scoped_idle installed heap) hmeets v hv).2

/-! ## Two runs -/

/-- A thread of a freshly installed agent. -/
def freshThread : ServingThread :=
  idleThread true (freshProcess .FULL false).heap

/-- A request that reads a parameter, and during which the governor turns dataflow off. Then comes
one more hook, and the request ends. -/
def requestRun (last : Hook) : List (Step × List Bool) :=
  [(.enter none true (java "trace"), []),
    (.hook (.onSource (some ⟨7, java "secret"⟩) (some .PARAMETER) (some (java "password"))), []),
    (.govern { ResourceGovernor.create 5 with level := .CONFIG_ONLY }, []),
    (.hook last, []),
    (.exit none ⟨0, 0, true⟩, [])]

/-- The claim holds of a run whose last hook makes its checks before it takes the guard. -/
theorem released_of_meets_reverse :
    (Machine.final (serve asciiPlatform) freshThread
        (requestRun (.onBuilderReverse (some 1) 0))).process.thread = ⟨false, none⟩ ∧
      ∀ v ∈ Machine.visited (serve asciiPlatform) freshThread
        (requestRun (.onBuilderReverse (some 1) 0)), Released v.1 v.2 :=
  ⟨rfl, released_of_meets asciiPlatform true _ _
    ⟨by decide, by decide, by decide, by decide, by decide, trivial⟩⟩

/-- A string is appended to a builder while dataflow is off. The request ends, but its context stays
on the thread with the parameter it recorded and the taint of its value. -/
theorem append_strands_context :
    let run := requestRun (.onBuilderAppend (some 1) 0 (some (.other 2 (some []))))
    let served := Machine.final (serve asciiPlatform) freshThread run
    (served.frames = [] ∧ served.process.thread = ⟨true, some 0⟩ ∧
      (served.process.heap.contexts 0).parameters = [(java "password", java "secret")]) ∧
      ¬∀ v ∈ Machine.visited (serve asciiPlatform) freshThread run, Released v.1 v.2 := by
  refine ⟨⟨rfl, rfl, rfl⟩, fun h ↦ ?_⟩
  simp only [requestRun, Machine.visited, List.forall_mem_cons] at h
  obtain ⟨-, -, -, -, hexit, -⟩ := h
  have hgone : some 0 = none := (hexit 0 rfl).1
  cases hgone

end Aegis.Agent
