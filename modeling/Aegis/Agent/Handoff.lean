import Aegis.Agent.AtWork

/-!
# Handing tasks to other threads

`wrapForHandoff` and what an executor makes of it. A task is any program over the process as the
executing thread sees it: it may run hooks, hand over further tasks and run them itself, and raise.
The wrapped task adopts the captured context and, when the task has ended, detaches it. It does not
remember what was current before, so `hands_over_iff` says that the executing thread is left as it
was just when it had no context.
-/

namespace Aegis.Agent

open AgentRuntime

variable {ε α : Type}

/-! ## Adopting and detaching -/

namespace RequestContext

/-- Adopt a context on another thread. -/
def adopt (context : Option Nat) (p : Process) : Process :=
  match context with
  | none => p
  | some id => { p with thread := { p.thread with context := some id } }

/-- Detach without clearing: the originating thread still owns the table. -/
def detach (p : Process) : Process :=
  { p with thread := { p.thread with context := none } }

end RequestContext

/-! ## Tasks -/

/-- A task of the application, a `Runnable` or a `Callable`, on the thread that executes it. -/
abbrev Task (ε α : Type) := Prog ε Process α

/-- The task that `wrapForHandoff` returns for the context it captured. With nothing to carry it is
the original task. -/
def handedOff (captured : Option Nat) (task : Task ε α) : Task ε α :=
  match captured with
  | none => task
  | some id => do
      Prog.modify (RequestContext.adopt (some id))
      Prog.finish task RequestContext.detach

/-- A task that is submitted in one place and executed in another. The application's task is given
by its reference and by what it does. -/
structure Handoff (ε α : Type) where
  submitter : Process
  reference : Nat
  interruptions : List Bool
  task : Task ε α

namespace Handoff

/-- The context that the advice of `execute` and `submit` puts into the task. The advice suppresses
an exception and leaves the argument as it is. -/
def captured (h : Handoff ε α) : Option Nat :=
  match (wrapForHandoff (some h.reference) h.submitter h.interruptions).outcome with
  | .ok context => context
  | .error _ => none

/-- The task was wrapped. -/
def wrapped (h : Handoff ε α) : Bool :=
  h.captured.isSome

/-- Execute the task on a thread. -/
def execute (h : Handoff ε α) : Task ε α :=
  handedOff h.captured h.task

end Handoff

/-! ## What a hand-off is for -/

/-- The process as its thread sees it under another context. -/
def Process.under (p : Process) (context : Option Nat) : Process :=
  { p with thread := { p.thread with context := context } }

/-- A hand-off on an executing thread, with the faults of the environment. The task runs as it does
under the context of the submission, and the thread's context is left as it was. -/
structure HandsOver (h : Handoff ε α) (p : Process) (faults : List Bool) : Prop where
  sees : (h.execute p faults).outcome =
    (h.task (p.under h.submitter.thread.context) faults).outcome
  leaves : (h.execute p faults).state.thread.context = p.thread.context

/-- The heap is shared and is the one the task left, and so is the rest of the thread. -/
theorem execute_of_captured {h : Handoff ε α} {id : Nat} (hcaptured : h.captured = some id)
    (p : Process) (faults : List Bool) :
    h.execute p faults =
      { h.task (p.under (some id)) faults with
        state := (h.task (p.under (some id)) faults).state.under none } := by
  rw [Handoff.execute, hcaptured]
  rfl

/-- What is captured is the submitting thread's context. -/
theorem context_of_captured {h : Handoff ε α} {id : Nat} (hcaptured : h.captured = some id) :
    h.submitter.thread.context = some id := by
  have houtcome : (wrapForHandoff (some h.reference) h.submitter h.interruptions).outcome =
      .ok (some id) := by
    unfold Handoff.captured at hcaptured
    split at hcaptured
    · next heq => rw [heq, hcaptured]
    · cases hcaptured
  obtain ⟨⟨installed, heap, ⟨inAgent, context⟩⟩, reference, interruptions, task⟩ := h
  cases installed
  · cases houtcome
  cases inAgent
  · -- the guard is free, so the result is the thread's context unless the environment interrupts
    rcases interruptions with _ | ⟨_ | _, interruptions⟩
    · exact Except.ok.inj houtcome
    · exact Except.ok.inj houtcome
    · rcases interruptions with _ | ⟨_ | _, interruptions⟩ <;> cases houtcome
  · cases houtcome

/-- A wrapped task is handed over just when the executing thread has no context of its own. -/
theorem hands_over_of_wrapped {h : Handoff ε α} (hwrapped : h.wrapped) (p : Process)
    (faults : List Bool) : HandsOver h p faults ↔ p.thread.context = none := by
  obtain ⟨id, hid⟩ := Option.isSome_iff_exists.mp hwrapped
  have hexecute := execute_of_captured hid p faults
  constructor
  · intro hover
    have hleaves := hover.leaves
    rw [hexecute] at hleaves
    exact hleaves.symm
  · intro hnone
    refine ⟨?_, ?_⟩
    · rw [hexecute, context_of_captured hid]
    · rw [hexecute]
      exact hnone.symm

/-! ## The executing thread -/

/-- One task on a thread: how it ends, and the process afterwards. -/
def executeNext (p : Process) (label : Handoff ε α × List Bool) : Except ε α × Process :=
  let ending := label.1.execute p label.2
  ⟨ending.outcome, ending.state⟩

/-- Wrapped tasks, on whatever thread and whatever else they do, see the context of their submission
and leave the thread's own as it was just when that thread has none. So it is for one task, and for
every task of a thread that executes one after the other. -/
theorem hands_over_iff (p : Process) :
    (∀ (h : Handoff ε α) (faults : List Bool), h.wrapped →
      (HandsOver h p faults ↔ p.thread.context = none)) ∧
    ∀ run : List (Handoff ε α × List Bool),
      Machine.Meets executeNext (fun q l ↦ l.1.wrapped → HandsOver l.1 q l.2) p run ↔
        Machine.Meets executeNext (fun q l ↦ l.1.wrapped → q.thread.context = none) p run := by
  refine ⟨fun h faults hwrapped ↦ hands_over_of_wrapped hwrapped p faults, fun run ↦ ?_⟩
  refine Machine.meets_congr fun q l ↦ ?_
  exact forall_congr' fun hwrapped ↦ hands_over_of_wrapped hwrapped q l.2

/-- The threads of a pool start without a context. As long as the tasks that carry none leave it so,
every wrapped task that such a thread executes is handed over. -/
theorem pool_thread_hands_over {p : Process} (hidle : p.thread.context = none)
    (run : List (Handoff ε α × List Bool))
    (hplain : ∀ l ∈ run, l.1.wrapped = false → ∀ q : Process, q.thread.context = none →
      (l.1.task q l.2).state.thread.context = none) :
    Machine.Meets executeNext (fun q l ↦ l.1.wrapped → HandsOver l.1 q l.2) p run := by
  induction run generalizing p with
  | nil => trivial
  | cons l run ih =>
      refine ⟨fun hwrapped ↦ (hands_over_of_wrapped hwrapped p l.2).mpr hidle, ih ?_ ?_⟩
      · show (l.1.execute p l.2).state.thread.context = none
        cases hcaptured : l.1.captured with
        | none =>
            rw [Handoff.execute, hcaptured]
            exact hplain l (List.mem_cons_self ..) (by rw [Handoff.wrapped, hcaptured]; rfl) p hidle
        | some id => rw [execute_of_captured hcaptured]; rfl
      · exact fun l' hl' ↦ hplain l' (List.mem_cons_of_mem _ hl')

/-! ## The submitting thread itself -/

/-- A task that says which context it sees. -/
def askContext : Handoff Throwable (Option Nat) where
  submitter := servingProcess
  reference := 7
  interruptions := []
  task := Prog.read fun p ↦ p.thread.context

/-- A pool that is full lets the caller run its own task. The task sees the request, and the rest of
the request has no context any more. -/
theorem caller_runs_loses_context :
    askContext.wrapped = true ∧ servingProcess.thread.context = some 0 ∧
      (askContext.execute servingProcess []).outcome = .ok (some 0) ∧
      (askContext.execute servingProcess []).state.thread.context = none ∧
      ¬ HandsOver askContext servingProcess [] := by
  refine ⟨rfl, rfl, rfl, rfl, fun h ↦ ?_⟩
  have hleaves := h.leaves
  cases hleaves

end Aegis.Agent
