import Aegis.Agent.Guard

/-!
# Hooks at work

What the propagators do when nothing keeps them from it: the runtime is installed, the guard is free,
the governor allows dataflow, and the thread serves a sampled request. A hook then runs its try
block on that request, and what it tracks can be read back from the request's table as long as the
table has room for the object.
-/

namespace Aegis.Agent

open AgentRuntime

/-! ## The taint table -/

namespace TaintTracker

variable {t : TaintTracker} {value other : Nat} {taint : TaintedValue}

/-- The table takes the object: it is not full, or the object is already in it. -/
def HasRoom (t : TaintTracker) (value : Nat) : Prop :=
  t.table.length < t.capacity ∨ (t.entry value).isSome

instance (t : TaintTracker) (value : Nat) : Decidable (t.HasRoom value) :=
  inferInstanceAs (Decidable (_ ∨ _))

/-- An entry survives the removal of another object. -/
theorem lookup_filter_ne {table : List (Nat × TaintedValue)} (h : other ≠ value) :
    (table.filter fun e ↦ e.1 != value).lookup other = table.lookup other := by
  induction table with
  | nil => rfl
  | cons e table ih =>
      obtain ⟨key, taint⟩ := e
      by_cases hkey : key = value
      · subst hkey
        rw [List.filter_cons_of_neg (by simp), ih, List.lookup_cons, beq_eq_false_iff_ne.mpr h]
      · rw [List.filter_cons_of_pos (by simpa using hkey), List.lookup_cons, List.lookup_cons, ih]

/-- A removed object has no entry. -/
theorem lookup_filter_self {table : List (Nat × TaintedValue)} :
    (table.filter fun e ↦ e.1 != value).lookup value = none := by
  induction table with
  | nil => rfl
  | cons e table ih =>
      obtain ⟨key, taint⟩ := e
      by_cases hkey : key = value
      · rw [List.filter_cons_of_neg (by simpa using hkey), ih]
      · rw [List.filter_cons_of_pos (by simpa using hkey), List.lookup_cons,
          beq_eq_false_iff_ne.mpr fun h ↦ hkey h.symm, ih]

/-- Tracking an object changes no other entry. -/
theorem entry_track_of_ne (h : other ≠ value) :
    (t.track (some value) (some taint)).entry other = t.entry other := by
  unfold track
  dsimp only
  split
  · exact lookup_filter_ne h
  split
  · rfl
  · show List.lookup other ((value, taint) :: _) = _
    rw [List.lookup_cons, beq_eq_false_iff_ne.mpr h]
    exact lookup_filter_ne h

/-- What is tracked for an object is read back, when there is room for it. -/
theorem taintOf_track (h : t.HasRoom value) :
    (t.track (some value) (some taint)).taintOf (some value) =
      if taint.isTainted then taint else .empty := by
  unfold track taintOf
  dsimp only
  cases htainted : taint.isTainted with
  | false =>
      simp only [Bool.not_false, if_true, remove, entry, lookup_filter_self, Option.getD_none,
        Bool.false_eq_true, if_false]
  | true =>
      simp only [Bool.not_true, Bool.false_eq_true, if_false, if_true]
      have hroom : (decide (t.table.length ≥ t.capacity) && (t.entry value).isNone) = false := by
        rcases h with hlt | hsome
        · rw [decide_eq_false (by omega), Bool.false_and]
        · rw [Option.isNone_eq_false_iff.mpr hsome, Bool.and_false]
      rw [hroom, if_neg Bool.false_ne_true]
      simp [put, entry]

/-- The ranges that are tracked are read back, also when there are none. -/
theorem ranges_taintOf_track (h : t.HasRoom value) :
    ((t.track (some value) (some taint)).taintOf (some value)).ranges = taint.ranges := by
  rw [taintOf_track h]
  split
  · rfl
  · next huntainted =>
      have hnil : taint.ranges = [] := by simpa [TaintedValue.isTainted] using huntainted
      exact hnil.symm

/-- Tracking an object leaves what is read of the others. -/
theorem taintOf_track_of_ne (h : other ≠ value) :
    (t.track (some value) (some taint)).taintOf (some other) = t.taintOf (some other) := by
  unfold taintOf
  dsimp only
  rw [entry_track_of_ne h]

/-- Tracking an object adds one entry at most, and does not change how many there can be. -/
theorem size_track (t : TaintTracker) (value : Nat) (taint : TaintedValue) :
    (t.track (some value) (some taint)).table.length ≤ t.table.length + 1 ∧
    (t.track (some value) (some taint)).capacity = t.capacity := by
  have hfilter := List.length_filter_le (fun e : Nat × TaintedValue ↦ e.1 != value) t.table
  unfold track
  dsimp only
  split
  · exact ⟨hfilter.trans (Nat.le_succ _), rfl⟩
  split
  · exact ⟨Nat.le_succ _, rfl⟩
  · exact ⟨Nat.succ_le_succ hfilter, rfl⟩

/-- An object without an entry is untainted. -/
theorem taintOf_of_entry_none (h : t.entry value = none) : t.taintOf (some value) = .empty := by
  unfold taintOf
  dsimp only
  rw [h]
  rfl

/-- In an empty table every object is untainted. -/
theorem taintOf_of_isEmpty (h : t.isEmpty = true) (object : Option Nat) :
    t.taintOf object = .empty := by
  cases object with
  | none => rfl
  | some value =>
      refine taintOf_of_entry_none ?_
      rw [entry, List.isEmpty_iff.mp h]
      rfl

end TaintTracker

/-! ## The thread of a sampled request -/

/-- Nothing keeps a hook from its work, and the thread serves the request of this context. -/
structure Working (p : Process) (id : Nat) : Prop where
  installed : p.installed = true
  free : p.thread.inAgent = false
  allows : p.heap.governor.level.allowsDataflow = true
  serving : p.thread.context = some id
  sampled : (p.heap.contexts id).sampled = true

/-- The heap with this taint tracked for an object in a context. -/
def Heap.recording (h : Heap) (id value : Nat) (taint : TaintedValue) : Heap :=
  h.updateContext id fun c ↦ { c with tracker := c.tracker.track (some value) (some taint) }

/-- The taint table of the context. -/
def Process.table (p : Process) (id : Nat) : TaintTracker :=
  (p.heap.contexts id).tracker

/-- The process with this taint tracked for an object in a context. -/
def Process.recording (p : Process) (id value : Nat) (taint : TaintedValue) : Process :=
  { p with heap := p.heap.recording id value taint }

@[simp] theorem table_recording (p : Process) (id value : Nat) (taint : TaintedValue) :
    (p.recording id value taint).table id = (p.table id).track (some value) (some taint) := by
  unfold Process.table Process.recording Heap.recording
  rw [Heap.contexts_update_context]

section Working

variable {p : Process} {id : Nat}

/-- Tracking an object keeps hooks from nothing. -/
theorem Working.recording (hw : Working p id) (value : Nat) (taint : TaintedValue) :
    Working (p.recording id value taint) id where
  installed := hw.installed
  free := hw.free
  allows := hw.allows
  serving := hw.serving
  sampled := by
    unfold Process.recording Heap.recording
    rw [Heap.contexts_update_context]
    exact hw.sampled

/-- A thread of a freshly installed agent that serves a sampled request. -/
def servingProcess : Process :=
  beginContext (java "trace") true (freshProcess .FULL false)

/-- Nothing keeps the hooks of that thread from their work. -/
theorem working_serving : Working servingProcess 0 :=
  ⟨rfl, rfl, rfl, rfl, rfl⟩

variable {α : Type} {fallback a : α} {body : Option Nat → Body α} {h : Heap}

/-- A hook that makes its checks first runs its try block. -/
theorem Working.guarded_hook (hw : Working p id)
    (hbody : Prog.Runs (body (some id)) p.heap a h) :
    Prog.Runs (guardedHook true fallback body) p a { p with heap := h } := by
  obtain ⟨installed, heap, ⟨inAgent, context⟩⟩ := p
  obtain ⟨hinstalled, hfree, -, hserving, -⟩ := hw
  cases hinstalled
  cases hfree
  cases hserving
  have hopen : failOpen fallback (body (some id)) heap [] = ⟨.ok a, h, []⟩ :=
    Prog.runs_handle hbody
  show Ending.mk (failOpen fallback (body (some id)) heap []).outcome _
    (failOpen fallback (body (some id)) heap []).faults = _
  rw [hopen]
  show Ending.mk _ (Process.exit
    ⟨true, (failOpen fallback (body (some id)) heap []).state, ⟨true, some id⟩⟩) _ = _
  rw [hopen]
  rfl

/-- So does a hook that makes a check late, when the check succeeds. -/
theorem Working.late_checked_hook (hw : Working p id) {ready : Heap → Bool}
    (hready : ready p.heap = true) (hbody : Prog.Runs (body (some id)) p.heap a h) :
    Prog.Runs (lateCheckedHook ready fallback body) p a { p with heap := h } := by
  have hfree : (p.installed, p.thread.inAgent) = (true, false) := by
    rw [hw.installed, hw.free]
  have hfirst : Prog.Runs (guardedHook true fallback body) p a { p with heap := h } :=
    hw.guarded_hook hbody
  obtain ⟨installed, heap, ⟨inAgent, context⟩⟩ := p
  cases hfree
  exact (late_checked_hook_entered fallback body [] rfl hready).trans hfirst

end Working

/-! ## Steps of a body that nothing interrupts -/

theorem runs_fetch {α : Type} (f : Heap → α) (h : Heap) : Prog.Runs (fetch f) h (f h) h :=
  rfl

theorem runs_change (f : Heap → Heap) (h : Heap) : Prog.Runs (change f) h .unit (f h) :=
  rfl

/-- On a sampled request the context is the thread's. -/
theorem runs_sampled_context {h : Heap} {id : Nat} (hsampled : (h.contexts id).sampled = true) :
    Prog.Runs (sampledContext (some id)) h (some id) h := by
  show Ending.mk (.ok (Option.filter _ (some id))) h [] = _
  rw [Option.filter_some, if_pos hsampled]

end Aegis.Agent
