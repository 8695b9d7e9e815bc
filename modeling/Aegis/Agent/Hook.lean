import Aegis.Lib.Prog
import Aegis.Agent.AttackSignatures
import Aegis.Agent.Reporter

/-!
# Hooks

What the hooks of `AgentRuntime` share: the state they reach, the re-entrancy guard of
`ThreadState`, and the two shapes their guarded sections have. A body runs on the heap only, so it
can touch neither the guard nor the thread's context. The guard operations and
`RequestContext.end` are assignments and cannot raise; every other step of a hook may.
-/

namespace Aegis.Agent

/-- What a hook may raise: an internal failure, or the exception that blocks an attack. -/
inductive Throwable where
  | internal
  | SecurityException (message : JString)
  deriving DecidableEq

/-! ## State -/

/-- What the runtime reaches apart from the thread's own state. Contexts are objects shared by
identity. -/
structure Heap where
  detector : SinkDetector
  blockingEnabled : Bool
  governor : ResourceGovernor
  reporter : Reporter
  hookFailures : Nat
  sinksEvaluated : Nat
  findingsReported : Nat
  contexts : Nat → RequestContext
  nextContext : Nat

/-- Everything the agent knows about the current thread. -/
structure ThreadState where
  inAgent : Bool
  context : Option Nat
  deriving DecidableEq

namespace ThreadState

/-- Take the re-entrancy guard. True when the caller took it and must release it. -/
def enter (t : ThreadState) : Bool × ThreadState :=
  if t.inAgent then (false, t) else (true, { t with inAgent := true })

/-- Release the guard. -/
def exit (t : ThreadState) : ThreadState :=
  { t with inAgent := false }

end ThreadState

/-- The process as one thread sees it. `installed` says that the runtime's instance is not null. -/
structure Process where
  installed : Bool
  heap : Heap
  thread : ThreadState

/-- A guarded section, which runs on the heap. -/
abbrev Body (α : Type) := Prog Throwable Heap α

/-- A hook, which runs on the process. -/
abbrev Call (α : Type) := Prog Throwable Process α

namespace Heap

/-- Change a context. -/
def updateContext (h : Heap) (id : Nat) (f : RequestContext → RequestContext) : Heap :=
  { h with contexts := Function.update h.contexts id (f (h.contexts id)) }

/-- Allocate a context. -/
def allocate (h : Heap) (c : RequestContext) : Heap :=
  { h with
    contexts := Function.update h.contexts h.nextContext c
    nextContext := h.nextContext + 1 }

@[simp] theorem contexts_update_context (h : Heap) (id : Nat)
    (f : RequestContext → RequestContext) :
    (h.updateContext id f).contexts id = f (h.contexts id) :=
  Function.update_self ..

@[simp] theorem contexts_allocate (h : Heap) (c : RequestContext) :
    (h.allocate c).contexts h.nextContext = c :=
  Function.update_self ..

end Heap

/-! ## Steps of a body -/

/-- A read that may raise. -/
def fetch {α : Type} (f : Heap → α) : Body α := do
  Prog.attempt .internal
  Prog.read f

/-- What follows a read runs on what is read, unless the read raises. -/
theorem fetch_bind {α β : Type} (f : Heap → α) (next : α → Body β) (h : Heap)
    (faults : List Bool) :
    (fetch f >>= next) h faults =
      if faults.head? = some true then ⟨.error .internal, h, faults.tail⟩
      else next (f h) h faults.tail := by
  rcases faults with _ | ⟨_ | _, faults⟩ <;> rfl

/-- A change that may raise before it happens. -/
def change (f : Heap → Heap) : Body PUnit := do
  Prog.attempt .internal
  Prog.modify f

/-- The value, or the exception that its computation raises. -/
def orRaise {α : Type} : Option α → Body α
  | some a => pure a
  | none => Prog.raise .internal

/-- The level of the governor allows dataflow. -/
def dataflowAllowed : Body Bool :=
  Prog.read fun h ↦ h.governor.level.allowsDataflow

/-- The thread's context, when there is one and its request was sampled. -/
def sampledContext (context : Option Nat) : Body (Option Nat) :=
  Prog.read fun h ↦ context.filter fun id ↦ (h.contexts id).sampled

/-- The taint table of a context. -/
def trackerOf (id : Nat) : Body TaintTracker :=
  fetch fun h ↦ (h.contexts id).tracker

/-- Change the taint table of a context. -/
def updateTracker (id : Nat) (f : TaintTracker → TaintTracker) : Body PUnit :=
  change fun h ↦ h.updateContext id fun c ↦ { c with tracker := f c.tracker }

/-- Track an object in the taint table of a context. -/
def track (id : Nat) (value : Nat) (taint : TaintedValue) : Body PUnit :=
  updateTracker id fun t ↦ t.track (some value) (some taint)

/-! ## Guarded sections -/

/-- Record an internal failure. Printing it, when debugging is on, may raise again. -/
def hookFailed : Body PUnit := do
  Prog.modify fun h ↦ { h with hookFailures := h.hookFailures + 1 }
  Prog.attempt .internal

/-- The body with the catch block every hook has: count the failure and return the fallback. -/
def failOpen {α : Type} (fallback : α) (body : Body α) : Body α :=
  Prog.handle body fun _ ↦ do
    hookFailed
    return fallback

/-- Run a body on the heap of the process. -/
def onHeap {α : Type} (body : Body α) : Call α :=
  Prog.within Process.heap (fun h p ↦ { p with heap := h }) body

/-- Take the guard. -/
def enter : Call Bool :=
  fun p faults ↦ ⟨.ok p.thread.enter.1, { p with thread := p.thread.enter.2 }, faults⟩

/-- Release the guard, as a cleanup. -/
def Process.exit (p : Process) : Process :=
  { p with thread := p.thread.exit }

/-- The try block of a hook that holds the guard: the body runs on the thread's context, failures
are caught and the guard is released. -/
def guarded {α : Type} (fallback : α) (body : Option Nat → Body α) : Call α :=
  Prog.finish (do
    let context ← Prog.read fun p ↦ p.thread.context
    onHeap (failOpen fallback (body context))) Process.exit

/-- A hook that makes all its checks before it takes the guard, and enters the try block at once. -/
def guardedHook {α : Type} (ready : Bool) (fallback : α) (body : Option Nat → Body α) : Call α := do
  let installed ← Prog.read Process.installed
  if !installed || !ready then return fallback
  if !(← enter) then return fallback
  guarded fallback body

/-- A hook that takes the guard first and then returns on a failed check, before the try block
whose finally block would release it. -/
def lateCheckedHook {α : Type} (ready : Heap → Bool) (fallback : α) (body : Option Nat → Body α) :
    Call α := do
  let installed ← Prog.read Process.installed
  if !installed then return fallback
  if !(← enter) then return fallback
  if !(← Prog.read fun p ↦ ready p.heap) then return fallback
  guarded fallback body

end Aegis.Agent
