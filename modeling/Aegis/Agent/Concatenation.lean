import Aegis.Agent.AtWork
import Aegis.Agent.Recipes

/-!
# What an `invokedynamic` concatenation records

`onIndyConcat` against the per-character reference. Whatever interrupts it, it records nothing or
the value that the fold over the pieces of the recipe reaches (`indy_concat_cases`). Over sound
arguments that value says of each character of the result what is recorded of the character of the
argument that produced it. When nothing interrupts, folding `onConcat` over the pieces records
the same.
-/

namespace Aegis.Agent

open Spans TaintedValue AgentRuntime

/-! ## Steps of a body, however they end -/

section Ends

variable {α : Type} {h : Heap} {raises : Throwable → Heap → Prop}

/-- A read that may raise leaves the heap as it is. -/
theorem ends_fetch {f : Heap → α} {returns : α → Heap → Prop} (hreturns : returns (f h) h)
    (hraises : raises .internal h) : Prog.Ends (fetch f) h returns raises :=
  Prog.ends_bind (Prog.ends_attempt (Prog.ends_read hreturns) hraises)

/-- A change that may raise is made as a whole or not at all. -/
theorem ends_change {f : Heap → Heap} {returns : PUnit → Heap → Prop}
    (hreturns : returns .unit (f h)) (hraises : raises .internal h) :
    Prog.Ends (change f) h returns raises :=
  Prog.ends_bind (Prog.ends_attempt (Prog.ends_modify hreturns) hraises)

/-- A computation that raises does so before anything happens. -/
theorem ends_or_raise {x : Option α} {returns : α → Heap → Prop}
    (hreturns : ∀ a, x = some a → returns a h) (hraises : raises .internal h) :
    Prog.Ends (orRaise x) h returns raises := by
  cases x with
  | none => exact Prog.ends_raise hraises
  | some a => exact Prog.ends_pure (hreturns a rfl)

end Ends

/-! ## What is recorded -/

/-- The recipe can be read and names these pieces. -/
def Names (recipe : Option JString) (constants arguments : Option (List (Option Obj)))
    (pieces : List Piece) : Prop :=
  ∃ r cs as, recipe = some r ∧ constants = some cs ∧ arguments = some as ∧
    readRecipe r as cs = some pieces

/-- What the call can have recorded in the thread's context: the value that the fold over the pieces
of the recipe reaches, when the texts of the pieces are as long as the result. -/
structure Reconstructs (h : Heap) (context : Option Nat) (result : StringRef)
    (recipe : Option JString) (constants arguments : Option (List (Option Obj))) (id : Nat)
    (pieces : List Piece) (v : TaintedValue) : Prop where
  serving : context = some id
  names : Names recipe constants arguments pieces
  reaches : pieces.foldlM (Piece.append (h.contexts id).tracker) (.empty, 0) =
    some (v, (result.value.length : Int))

variable (result : StringRef) (recipe : Option JString)
  (constants arguments : Option (List (Option Obj)))

/-- The try block raises with nothing recorded, and returns with nothing recorded or with what it
reconstructs. -/
theorem ends_indy_concat_body (h : Heap) (context : Option Nat) :
    Prog.Ends (indyConcatBody result recipe constants arguments context) h
      (fun _ t ↦ t = h ∨ ∃ id pieces v,
        Reconstructs h context result recipe constants arguments id pieces v ∧
          t = h.recording id result.id v)
      (fun _ t ↦ t = h) := by
  refine Prog.ends_bind (Prog.ends_read ?_)
  split
  · exact Prog.ends_pure (.inl rfl)
  refine Prog.ends_bind (Prog.ends_read ?_)
  cases hcontext : context.filter fun id ↦ (h.contexts id).sampled with
  | none => exact Prog.ends_pure (.inl rfl)
  | some id =>
  have hserving : context = some id := (Option.filter_eq_some_iff.mp hcontext).1
  refine Prog.ends_bind (ends_fetch ?_ rfl)
  split
  · exact Prog.ends_pure (.inl rfl)
  refine Prog.ends_bind (ends_or_raise (fun as has ↦ ?_) rfl)
  split
  · exact Prog.ends_pure (.inl rfl)
  refine Prog.ends_bind (ends_or_raise (fun r hr ↦ ?_) rfl)
  refine Prog.ends_bind (ends_or_raise (fun cs hcs ↦ ?_) rfl)
  obtain ⟨outcome, hloop, hiff⟩ := concat_loop_spec (h.contexts id).tracker r as cs .empty 0
  refine Prog.ends_bind fun faults ↦ ?_
  rw [hloop]
  refine ⟨fun reached hreached ↦ ?_, fun _ _ ↦ rfl⟩
  cases reached with
  | none => exact Prog.ends_pure (.inl rfl)
  | some reached =>
      obtain ⟨v, offset⟩ := reached
      obtain ⟨pieces, hpieces, hfold⟩ := (hiff _).mp hreached
      dsimp only
      split
      · exact Prog.ends_pure (.inl rfl)
      · next hlength =>
          obtain rfl := not_not.mp hlength
          exact ends_change (.inr ⟨id, pieces, v,
            ⟨hserving, ⟨r, cs, as, hr, hcs, has, hpieces⟩, hfold⟩, rfl⟩) rfl

/-- Whatever interrupts it, the hook leaves the contexts as they are or records what it
reconstructs. -/
theorem contexts_on_indy_concat (p : Process) (faults : List Bool) :
    let after := (onIndyConcat result recipe constants arguments p faults).state
    after.heap.contexts = p.heap.contexts ∨ ∃ id pieces v,
      Reconstructs p.heap p.thread.context result recipe constants arguments id pieces v ∧
        after.heap.contexts = (p.heap.recording id result.id v).contexts := by
  obtain ⟨installed, heap, ⟨inAgent, context⟩⟩ := p
  cases installed
  · exact .inl rfl
  cases inAgent
  · have hbody := ends_indy_concat_body result recipe constants arguments heap context
    have hends : Prog.Ends (failOpen .unit
        (indyConcatBody result recipe constants arguments context)) heap
        (fun _ t ↦ t.contexts = heap.contexts ∨ ∃ id pieces v,
          Reconstructs heap context result recipe constants arguments id pieces v ∧
            t.contexts = (heap.recording id result.id v).contexts)
        (fun _ t ↦ t.contexts = heap.contexts) := by
      refine Prog.ends_handle (hbody.mono ?_ ?_)
      · rintro - t (rfl | ⟨id, pieces, v, hreconstructs, rfl⟩)
        · exact .inl rfl
        · exact .inr ⟨id, pieces, v, hreconstructs, rfl⟩
      · rintro - t rfl
        refine Prog.ends_bind (Prog.ends_bind (Prog.ends_modify ?_))
        exact Prog.ends_attempt (Prog.ends_pure (.inl rfl)) rfl
    rcases hends.cases faults with ⟨-, h⟩ | ⟨-, h⟩
    · exact h
    · exact .inl h
  · exact .inl rfl

/-! ## When nothing interrupts -/

section Works

variable {p : Process} {id : Nat}

/-- The process with this taint recorded for an object, if there is any. -/
def Process.recordingTainted (p : Process) (id value : Nat) (taint : TaintedValue) : Process :=
  if taint.isTainted then p.recording id value taint else p

theorem Process.with_heap_recordingTainted (p : Process) (id value : Nat) (taint : TaintedValue) :
    { p with heap := (p.recordingTainted id value taint).heap } =
      p.recordingTainted id value taint := by
  unfold Process.recordingTainted
  split <;> rfl

/-- `onConcat` records the concatenation of what is recorded of its operands. -/
theorem Working.on_concat (hw : Working p id) (result left : StringRef) (right : Option Obj) {v : TaintedValue}
    (hconcat : ((p.table id).taintOf (some left.id)).concat left.value.length
      ((p.table id).taintOf (right.map Obj.id)) = some v) :
    Prog.Runs (onConcat (some result) (some (.string left)) right) p .unit
      (p.recordingTainted id result.id v) := by
  have hcases := (concat_cases hconcat).1
  have hbody : Prog.Runs (concatBody result (some (.string left)) right (some id)) p.heap .unit
      (p.recordingTainted id result.id v).heap := by
    refine Prog.runs_bind (runs_sampled_context hw.sampled) (Prog.runs_bind (runs_fetch _ _) ?_)
    show Prog.Runs (ite ((p.table id).isEmpty = true) (pure .unit) _ : Body PUnit) _ _ _
    by_cases hempty : (p.table id).isEmpty = true
    · rw [if_pos hempty]
      have huntainted : v.isTainted = false := by
        rw [hcases, TaintTracker.taintOf_of_isEmpty hempty, TaintTracker.taintOf_of_isEmpty hempty]
        rfl
      rw [Process.recordingTainted, huntainted]
      rfl
    · rw [if_neg hempty]
      show Prog.Runs (ite ((!((p.table id).taintOf (some left.id)).isTainted &&
        !((p.table id).taintOf (right.map Obj.id)).isTainted) = true) (pure .unit) _ : Body PUnit)
        _ _ _
      cases htainted : v.isTainted with
      | false =>
          rw [htainted] at hcases
          rw [if_pos (by rw [← Bool.not_or, ← hcases]; rfl), Process.recordingTainted, htainted]
          rfl
      | true =>
          rw [htainted] at hcases
          rw [if_neg (by rw [← Bool.not_or, ← hcases]; exact Bool.false_ne_true),
            Process.recordingTainted, htainted]
          refine Prog.runs_bind (show Prog.Runs _ _ (left.value.length : Int) p.heap from rfl) ?_
          have hvalue : Prog.Runs (orRaise (TaintedValue.concat
              ((p.table id).taintOf (some left.id)) left.value.length
              ((p.table id).taintOf (right.map Obj.id)))) p.heap v p.heap := by
            rw [hconcat]
            rfl
          exact Prog.runs_bind hvalue rfl
  have hready : ((some result).isSome && p.heap.governor.level.allowsDataflow) = true := hw.allows
  have hruns : Prog.Runs (onConcat (some result) (some (.string left)) right) p .unit
      { p with heap := (p.recordingTainted id result.id v).heap } :=
    hw.late_checked_hook hready hbody
  rwa [Process.with_heap_recordingTainted] at hruns

/-- `onIndyConcat` records what the fold over the pieces reaches, as soon as an argument is
tainted. -/
theorem Working.on_indy_concat (hw : Working p id) (result : StringRef) {recipe : JString}
    {constants arguments : List (Option Obj)} {pieces : List Piece} {v : TaintedValue}
    (hread : readRecipe recipe arguments constants = some pieces)
    (hfold : pieces.foldlM (Piece.append (p.table id)) (.empty, 0) =
      some (v, (result.value.length : Int))) :
    Prog.Runs (onIndyConcat result (some recipe) (some constants) (some arguments)) p .unit
      (if arguments.any fun argument ↦ ((p.table id).taintOf (argument.map Obj.id)).isTainted then
        p.recording id result.id v
      else p) := by
  obtain ⟨outcome, hloop, hiff⟩ := concat_loop_spec (p.table id) recipe arguments constants .empty 0
  have houtcome := (hiff _).mpr ⟨pieces, hread, hfold⟩
  subst houtcome
  have hbody : Prog.Runs
      (indyConcatBody result (some recipe) (some constants) (some arguments) (some id)) p.heap .unit
      (if arguments.any fun argument ↦ ((p.table id).taintOf (argument.map Obj.id)).isTainted then
        p.heap.recording id result.id v
      else p.heap) := by
    refine Prog.runs_bind (Prog.runs_read _ _) ?_
    rw [hw.allows]
    refine Prog.runs_bind (runs_sampled_context hw.sampled) (Prog.runs_bind (runs_fetch _ _) ?_)
    show Prog.Runs (ite ((p.table id).isEmpty = true) (pure .unit) _ : Body PUnit) _ _ _
    by_cases hempty : (p.table id).isEmpty = true
    · rw [if_pos hempty, if_neg]
      · rfl
      · simp [TaintTracker.taintOf_of_isEmpty hempty, isTainted, TaintedValue.empty]
    · rw [if_neg hempty]
      refine Prog.runs_bind (show Prog.Runs _ _ arguments p.heap from rfl) ?_
      show Prog.Runs (ite ((!arguments.any fun argument ↦
        ((p.table id).taintOf (argument.map Obj.id)).isTainted) = true) (pure .unit) _ : Body PUnit)
        _ _ _
      cases hany : arguments.any fun argument ↦
          ((p.table id).taintOf (argument.map Obj.id)).isTainted with
      | false => rfl
      | true =>
          refine Prog.runs_bind (show Prog.Runs _ _ recipe p.heap from rfl)
            (Prog.runs_bind (show Prog.Runs _ _ constants p.heap from rfl)
              (Prog.runs_bind (hloop p.heap []) ?_))
          show Prog.Runs (ite ((result.value.length : Int) ≠ result.value.length) (pure .unit) _ :
            Body PUnit) _ _ _
          rw [if_neg (not_not.mpr rfl)]
          rfl
  have hruns : Prog.Runs (onIndyConcat result (some recipe) (some constants) (some arguments)) p
      .unit { p with heap := _ } := hw.guarded_hook hbody
  refine hruns.trans ?_
  split <;> rfl

end Works

/-! ## Folding `onConcat` -/

/-- Append one object after the other, each time with `onConcat`. A step is the object appended and
the string that results. -/
def concatEach : StringRef → List (Option Obj × StringRef) → Call PUnit
  | _, [] => pure .unit
  | left, (object, result) :: steps => do
      onConcat (some result) (some (.string left)) object
      concatEach result steps

/-- The last string that results. -/
def lastResult : StringRef → List (Option Obj × StringRef) → StringRef
  | left, [] => left
  | _, (_, result) :: steps => lastResult result steps

/-- Every string that results holds the text before it and the text of the object. -/
def Appends : StringRef → List (Option Obj × StringRef) → Prop
  | _, [] => True
  | left, (object, result) :: steps =>
      (∃ text, valueOf object = some text ∧ result.value = left.value ++ text) ∧
        Appends result steps

/-- The strings that result are new objects, and the table has room for them. -/
structure Fresh (t : TaintTracker) (left : StringRef) (steps : List (Option Obj × StringRef)) :
    Prop where
  distinct : (left.id :: steps.map fun step ↦ step.2.id).Nodup
  unknown : ∀ step ∈ steps, t.entry step.2.id = none
  apart : ∀ step ∈ steps, ∀ object, step.1 = some object →
    object.id ∉ steps.map fun step ↦ step.2.id
  room : t.table.length + steps.length ≤ t.capacity

/-- After a step the table still has room for the strings to come, and knows none of them. -/
theorem Fresh.tail {t : TaintTracker} {left result : StringRef} {object : Option Obj}
    {steps : List (Option Obj × StringRef)} (h : Fresh t left ((object, result) :: steps))
    {t' : TaintTracker} (htable : t' = t ∨ ∃ v, t' = t.track (some result.id) (some v)) :
    Fresh t' result steps := by
  obtain ⟨hleft, hdistinct⟩ := List.nodup_cons.mp h.distinct
  rw [List.map_cons] at hdistinct
  have hunknown := (List.forall_mem_cons.mp h.unknown).2
  have hroom := h.room
  rw [List.length_cons] at hroom
  refine ⟨hdistinct, fun step hstep ↦ ?_, fun step hstep object hobject hmem ↦ ?_, ?_⟩
  · rcases htable with rfl | ⟨v, rfl⟩
    · exact hunknown step hstep
    · rw [TaintTracker.entry_track_of_ne]
      · exact hunknown step hstep
      · intro heq
        exact (List.nodup_cons.mp hdistinct).1 (heq ▸ List.mem_map_of_mem hstep)
  · exact h.apart step (List.mem_cons_of_mem _ hstep) object hobject (List.mem_cons_of_mem _ hmem)
  · rcases htable with rfl | ⟨v, rfl⟩
    · omega
    · obtain ⟨hsize, hcapacity⟩ := TaintTracker.size_track t result.id v
      omega

/-- One `onConcat` at work: the string that results carries the concatenation, and nothing else is
changed. -/
theorem Working.append_step {p : Process} {id : Nat} (hw : Working p id) {left result : StringRef}
    {object : Option Obj} {steps : List (Option Obj × StringRef)}
    (hfresh : Fresh (p.table id) left ((object, result) :: steps)) {v : TaintedValue}
    (hconcat : ((p.table id).taintOf (some left.id)).concat left.value.length
      ((p.table id).taintOf (object.map Obj.id)) = some v) :
    ∃ q, Prog.Runs (onConcat (some result) (some (.string left)) object) p .unit q ∧
      Working q id ∧ (q.table id).taintOf (some result.id) = v ∧
      Fresh (q.table id) result steps ∧
      ∀ other, other ≠ some result.id → (q.table id).taintOf other = (p.table id).taintOf other := by
  refine ⟨_, hw.on_concat result left object hconcat, ?_⟩
  have hunknown := hfresh.unknown _ (List.mem_cons_self ..)
  have hroom := hfresh.room
  rw [List.length_cons] at hroom
  unfold Process.recordingTainted
  cases htainted : v.isTainted with
  | false =>
      refine ⟨hw, ?_, hfresh.tail (.inl rfl), fun _ _ ↦ rfl⟩
      exact (TaintTracker.taintOf_of_entry_none hunknown).trans ((concat_cases hconcat).2 htainted).symm
  | true =>
      refine ⟨hw.recording _ _, ?_, hfresh.tail (.inr ⟨v, table_recording ..⟩), fun other hother ↦ ?_⟩
      · simp only [if_true, table_recording]
        rw [TaintTracker.taintOf_track (.inl (by omega)), htainted, if_pos rfl]
      · simp only [if_true, table_recording]
        cases other with
        | none => rfl
        | some other =>
            exact TaintTracker.taintOf_track_of_ne fun h ↦ hother (congrArg some h)

/-- Folding `onConcat` over objects that stand for the pieces records the fold of the binary
concatenations. -/
theorem Working.concat_each {p : Process} {id : Nat} (hw : Working p id) {t : TaintTracker}
    {left : StringRef} {pieces : List Piece} {steps : List (Option Obj × StringRef)}
    (happends : Appends left steps) (hfresh : Fresh (p.table id) left steps)
    (hstand : List.Forall₂ (fun piece step ↦ valueOf step.1 = piece.text ∧
      (p.table id).taintOf (step.1.map Obj.id) = piece.taint t) pieces steps)
    {last : TaintedValue × Int}
    (hfold : pieces.foldlM (Piece.concat t)
      ((p.table id).taintOf (some left.id), (left.value.length : Int)) = some last) :
    ∃ q, Prog.Runs (concatEach left steps) p .unit q ∧
      (q.table id).taintOf (some (lastResult left steps).id) = last.1 ∧
      ((lastResult left steps).value.length : Int) = last.2 := by
  induction steps generalizing p left pieces with
  | nil =>
      cases hstand
      obtain rfl := Option.some.inj hfold
      exact ⟨p, rfl, rfl, rfl⟩
  | cons step steps ih =>
      obtain ⟨object, result⟩ := step
      obtain ⟨⟨text, htext, hvalue⟩, hrest⟩ := happends
      cases hstand with
      | cons hpiece hpieces =>
      rename_i piece pieces
      obtain ⟨hpiecetext, hpiecetaint⟩ := hpiece
      rw [List.foldlM_cons] at hfold
      obtain ⟨next, hnext, hfold⟩ := Option.bind_eq_some_iff.mp hfold
      obtain ⟨v, hconcat, hnext⟩ := Option.bind_eq_some_iff.mp hnext
      obtain ⟨text', htext', hnext⟩ := Option.bind_eq_some_iff.mp hnext
      obtain rfl := Option.some.inj hnext
      obtain rfl : text = text' := Option.some.inj (htext.symm.trans (hpiecetext.trans htext'))
      rw [← hpiecetaint] at hconcat
      obtain ⟨q, hruns, hworking, htaint, hlater, hframe⟩ := hw.append_step hfresh hconcat
      have hlength : (result.value.length : Int) = (left.value.length : Int) + text.length := by
        rw [hvalue, List.length_append, Nat.cast_add]
      have hstand : List.Forall₂ (fun piece step ↦ valueOf step.1 = piece.text ∧
          (q.table id).taintOf (step.1.map Obj.id) = piece.taint t) pieces steps := by
        obtain ⟨hsame, hzip⟩ := List.forall₂_iff_zip.mp hpieces
        refine List.forall₂_iff_zip.mpr ⟨hsame, fun hmem ↦ ⟨(hzip hmem).1, ?_⟩⟩
        rw [hframe, (hzip hmem).2]
        intro hobject
        obtain ⟨o, ho, hid⟩ := Option.map_eq_some_iff.mp hobject
        refine hfresh.apart _ (List.mem_cons_of_mem _ (List.of_mem_zip hmem).2) o ho ?_
        rw [hid]
        exact List.mem_cons_self ..
      obtain ⟨q', hruns', hlast⟩ := ih hworking hrest hlater hstand (by rwa [htaint, hlength])
      exact ⟨q', Prog.runs_bind hruns hruns', hlast⟩

/-- Strings and objects with which `onConcat` builds up the result of a recipe, piece by piece. An
argument stands for itself, and an object about which nothing is recorded for anything else. -/
structure Folding (t : TaintTracker) (result : StringRef) (pieces : List Piece) (left : StringRef)
    (steps : List (Option Obj × StringRef)) : Prop where
  start : left.value = [] ∧ t.entry left.id = none
  stand : List.Forall₂ (fun piece step ↦ valueOf step.1 = piece.text ∧
    t.taintOf (step.1.map Obj.id) = piece.taint t) pieces steps
  appends : Appends left steps
  fresh : Fresh t left steps
  whole : (lastResult left steps).value = result.value
  unknown : t.entry result.id = none
  room : t.table.length < t.capacity

/-- Pieces that stand for appended objects have texts. -/
theorem texts_of_appends {t tracker : TaintTracker} {left : StringRef} {pieces : List Piece}
    {steps : List (Option Obj × StringRef)} (happends : Appends left steps)
    (hstand : List.Forall₂ (fun piece step ↦ valueOf step.1 = piece.text ∧
      t.taintOf (step.1.map Obj.id) = piece.taint tracker) pieces steps) :
    ∀ piece ∈ pieces, piece.text.isSome := by
  induction hstand generalizing left with
  | nil => exact fun _ h ↦ nomatch h
  | @cons piece step pieces steps hpiece _ ih =>
      obtain ⟨⟨text, htext, -⟩, hrest⟩ := happends
      refine List.forall_mem_cons.mpr ⟨?_, ih hrest⟩
      rw [← hpiece.1, htext]
      rfl

/-- The two ways to build a result record the same of it. -/
theorem Working.indy_concat_eq_fold {p : Process} {id : Nat} (hw : Working p id)
    {result left : StringRef} {recipe : JString} {constants arguments : List (Option Obj)}
    {pieces : List Piece} {steps : List (Option Obj × StringRef)}
    (hread : readRecipe recipe arguments constants = some pieces)
    (hsound : SoundArguments (p.table id) arguments)
    (hfolding : Folding (p.table id) result pieces left steps) :
    ∃ v q q', Prog.Runs (onIndyConcat result (some recipe) (some constants) (some arguments)) p
        .unit q ∧ Prog.Runs (concatEach left steps) p .unit q' ∧
      (q.table id).taintOf (some result.id) = v ∧
      (q'.table id).taintOf (some (lastResult left steps).id) = v := by
  have htexts := texts_of_appends hfolding.appends hfolding.stand
  obtain ⟨⟨v, n⟩, happend, hconcat, hreached⟩ :=
    fold_append reached_nil (hsound.pieces hread) htexts
  have hleft : (p.table id).taintOf (some left.id) = .empty :=
    TaintTracker.taintOf_of_entry_none hfolding.start.2
  have hconcat' : pieces.foldlM (Piece.concat (p.table id))
      ((p.table id).taintOf (some left.id), (left.value.length : Int)) = some (v, n) := by
    rwa [hleft, hfolding.start.1]
  obtain ⟨q', hruns', htaint', hlength⟩ :=
    hw.concat_each hfolding.appends hfolding.fresh hfolding.stand hconcat'
  rw [hfolding.whole] at hlength
  obtain rfl : (result.value.length : Int) = n := hlength
  refine ⟨v, _, q', hw.on_indy_concat result hread happend, hruns', ?_, htaint'⟩
  cases hany : arguments.any fun argument ↦
      ((p.table id).taintOf (argument.map Obj.id)).isTainted with
  | true =>
      rw [if_pos rfl, table_recording, TaintTracker.taintOf_track (.inl hfolding.room)]
      cases htainted : v.isTainted with
      | true => rfl
      | false => exact (hreached.untainted htainted).symm
  | false =>
      rw [if_neg Bool.false_ne_true, TaintTracker.taintOf_of_entry_none hfolding.unknown]
      refine (fold_append_untainted rfl (fun piece hpiece ↦ ?_) happend).symm
      cases piece with
      | literal character => rfl
      | constant value => rfl
      | argument value =>
          have hargument := List.any_eq_false.mp hany value (argument_mem hread hpiece)
          exact Bool.eq_false_iff.mpr hargument

/-! ## The reference -/

/-- What a value says of each character, against what is true of them: the same when the value is
precise, and otherwise at least as much and nothing safer. -/
structure Follows (v : TaintedValue) (truth : List (Option Label)) : Prop where
  exact : v.imprecise = false → ∀ i (h : i < truth.length), labelAt v.ranges i = truth[i]
  covers : ∀ i (h : i < truth.length) l, truth[i] = some l →
    ∃ m, labelAt v.ranges i = some m ∧ m.clearedFor ⊆ l.clearedFor

/-- A model of a string follows it. -/
theorem TaintedValue.Models.follows {v : TaintedValue} {truth : List (Option Label)}
    (h : v.Models truth) : Follows v truth := by
  have hlabel : ∀ i (hi : i < truth.length), labelOf truth i = truth[i] := by
    intro i hi
    rw [label_of_natCast, List.getElem?_eq_getElem hi, Option.join_some]
  constructor
  · intro hprecise i hi
    have hread := h.reads i
    rw [hprecise, hlabel i hi] at hread
    exact hread
  · intro i hi l hl
    exact (h.reads i).exists_read ((hlabel i hi).trans hl)

/-- `onIndyConcat` against the reference. Whatever interrupts it, it records nothing, or a value that
follows what is recorded of the characters of the arguments and says nothing of literals and
constants; it records nothing when the texts are not as long as the result; and it records what
folding `onConcat` over the pieces records. -/
theorem indy_concat_follows_reference (p : Process) (result : StringRef) (recipe : Option JString)
    (constants arguments : Option (List (Option Obj))) :
    (∀ faults, let after := (onIndyConcat result recipe constants arguments p faults).state
      after.heap.contexts = p.heap.contexts ∨ ∃ id pieces v,
        p.thread.context = some id ∧ Names recipe constants arguments pieces ∧
        after.heap.contexts = (p.recording id result.id v).heap.contexts ∧
        ((∀ as, arguments = some as → SoundArguments (p.table id) as) →
          Follows v (labelsOf (p.table id) pieces) ∧
          (Precise (p.table id) pieces → v.imprecise = false))) ∧
    (∀ faults, (∀ pieces, Names recipe constants arguments pieces →
        (textOf pieces).length ≠ result.value.length) →
      (onIndyConcat result recipe constants arguments p faults).state.heap.contexts =
        p.heap.contexts) ∧
    ∀ id pieces left steps, Working p id → Names recipe constants arguments pieces →
      (∀ as, arguments = some as → SoundArguments (p.table id) as) →
      Folding (p.table id) result pieces left steps →
      ((onIndyConcat result recipe constants arguments p []).state.table id).taintOf
          (some result.id) =
        ((concatEach left steps p []).state.table id).taintOf
          (some (lastResult left steps).id) := by
  refine ⟨fun faults ↦ ?_, fun faults hlengths ↦ ?_, ?_⟩
  · rcases contexts_on_indy_concat result recipe constants arguments p faults with
      h | ⟨id, pieces, v, hreconstructs, h⟩
    · exact .inl h
    · refine .inr ⟨id, pieces, v, hreconstructs.serving, hreconstructs.names, h, fun hsound ↦ ?_⟩
      obtain ⟨r, cs, as, -, -, has, hread⟩ := hreconstructs.names
      obtain ⟨last, happend, -, hreached⟩ := fold_append reached_nil
        ((hsound as has).pieces hread) (fold_append_length hreconstructs.reaches).1
      obtain rfl := Option.some.inj (happend.symm.trans hreconstructs.reaches)
      refine ⟨hreached.models.follows, fun hprecise ↦ ?_⟩
      refine fold_append_precise rfl hprecise.exact ?_ happend
      exact (Nat.zero_add _).trans_le hprecise.few
  · rcases contexts_on_indy_concat result recipe constants arguments p faults with
      h | ⟨id, pieces, v, hreconstructs, -⟩
    · exact h
    · -- what is reconstructed is as long as the result
      have hlength := (fold_append_length hreconstructs.reaches).2
      refine absurd ?_ (hlengths pieces hreconstructs.names)
      simpa using hlength.symm
  · rintro id pieces left steps hw ⟨r, cs, as, rfl, rfl, rfl, hread⟩ hsound hfolding
    obtain ⟨v, q, q', hruns, hruns', htaint, htaint'⟩ :=
      hw.indy_concat_eq_fold hread (hsound as rfl) hfolding
    rw [hruns, hruns']
    exact htaint.trans htaint'.symm

/-! ## Three concatenations -/

/-- A string that came from a parameter. -/
def parameterString : Obj :=
  .string ⟨1, java "a"⟩

/-- A thread that has read the parameter. -/
def readParameter : Process :=
  servingProcess.recording 0 1 (fullyTainted 1 .PARAMETER (some (java "q")))

/-- The parameter and a semicolon: both ways record the parameter's character and not the other. -/
theorem indy_concat_follows_reference_semicolon :
    ((onIndyConcat ⟨9, java "a;"⟩ (some [RECIPE_ARGUMENT, jchar ';']) (some [])
      (some [some parameterString]) readParameter []).state.table 0).taintOf (some 9) =
    ((concatEach ⟨10, []⟩
      [(some parameterString, ⟨11, java "a"⟩), (some (.string ⟨12, java ";"⟩), ⟨13, java "a;"⟩)]
      readParameter []).state.table 0).taintOf (some 13) := by
  have hsound : ∀ as, some [some parameterString] = some as →
      SoundArguments (readParameter.table 0) as := by
    intro as has
    obtain rfl := Option.some.inj has
    exact List.forall_mem_singleton.mpr (canonical_singleton false (le_refl _))
  refine (indy_concat_follows_reference readParameter ⟨9, java "a;"⟩ _ _ _).2.2 0
    [.argument (some parameterString), .literal (jchar ';')] ⟨10, []⟩ _
    (working_serving.recording ..) ⟨_, _, _, rfl, rfl, rfl, by decide⟩ hsound ?_
  exact ⟨⟨rfl, by decide⟩, .cons ⟨by decide, rfl⟩ (.cons ⟨by decide, by decide⟩ .nil),
    ⟨⟨_, rfl, rfl⟩, ⟨_, rfl, rfl⟩, trivial⟩,
    ⟨by decide, by decide, by decide, by decide⟩, rfl, by decide, by decide⟩

/-- The parameter 33 times with semicolons between: the ranges collapse, and the first semicolon is
recorded as coming from the parameter. A builder whose ranges reach past its text does the same to
the literal after it. -/
theorem semicolon_recorded_as_tainted :
    let arguments := List.replicate 33 (some parameterString)
    let recipe := (List.replicate 33 [RECIPE_ARGUMENT, jchar ';']).flatten
    let result : StringRef := ⟨9, (List.replicate 33 (java "a;")).flatten⟩
    let after := (onIndyConcat result (some recipe) (some []) (some arguments) readParameter []).state
    let cut := servingProcess.recording 0 2 (fullyTainted 3 .PARAMETER (some (java "q")))
    let afterCut := (onIndyConcat ⟨9, java "a;"⟩ (some [RECIPE_ARGUMENT, jchar ';']) (some [])
      (some [some (.other 2 (some (java "a")))]) cut []).state
    (readRecipe recipe arguments []).map (fun pieces ↦ pieces[1]?) =
        some (some (.literal (jchar ';'))) ∧
      labelAt ((after.table 0).taintOf (some 9)).ranges 1 = some ⟨.PARAMETER, java "q", ∅⟩ ∧
      labelAt ((afterCut.table 0).taintOf (some 9)).ranges 1 = some ⟨.PARAMETER, java "q", ∅⟩ := by
  decide +kernel

end Aegis.Agent
