import Mathlib.Data.List.Basic

/-!
# Machines and their runs

A machine is a step function that takes a state and a label to an output and the next state. A
run is a list of labels; whatever is nondeterministic about a system is in the labels.
`forall_visited` turns a fact about one step into a fact about every step of every run whose
steps meet a condition.
-/

namespace Machine

universe u v w

variable {S : Type u} {L : Type v} {O : Type w} (step : S → L → O × S)

/-- The output of every step of a run, with the state the step leads to. -/
def visited : S → List L → List (O × S)
  | _, [] => []
  | s, l :: ls => step s l :: visited (step s l).2 ls

/-- The state a run ends in. -/
def final (s : S) (ls : List L) : S :=
  ls.foldl (fun s l ↦ (step s l).2) s

/-- Every step of the run meets the condition in the state it is taken in. -/
def Meets (condition : S → L → Prop) : S → List L → Prop
  | _, [] => True
  | s, l :: ls => condition s l ∧ Meets condition (step s l).2 ls

/-- A condition that is decided at each step is decided along a run. -/
instance Meets.decidable (condition : S → L → Prop) [∀ s l, Decidable (condition s l)] :
    (s : S) → (ls : List L) → Decidable (Meets step condition s ls)
  | _, [] => inferInstanceAs (Decidable True)
  | s, l :: ls =>
      have := decidable condition (step s l).2 ls
      inferInstanceAs (Decidable (_ ∧ _))

variable {step}

@[simp] theorem final_nil (s : S) : final step s [] = s := rfl

@[simp] theorem final_cons (s : S) (l : L) (ls : List L) :
    final step s (l :: ls) = final step (step s l).2 ls := rfl

/-- A run goes on from where its first part ends. -/
theorem final_append (s : S) (ls more : List L) :
    final step s (ls ++ more) = final step (final step s ls) more :=
  List.foldl_append

/-- So does a condition on its steps. -/
theorem meets_append {condition : S → L → Prop} {s : S} {ls more : List L} :
    Meets step condition s (ls ++ more) ↔
      Meets step condition s ls ∧ Meets step condition (final step s ls) more := by
  induction ls generalizing s with
  | nil => exact (and_iff_right trivial).symm
  | cons l ls ih => exact (and_congr_right' ih).trans and_assoc.symm

/-- The steps of a run are those of its first part, and its last. -/
theorem visited_concat (s : S) (ls : List L) (l : L) :
    visited step s (ls ++ [l]) = visited step s ls ++ [step (final step s ls) l] := by
  induction ls generalizing s with
  | nil => rfl
  | cons first ls ih => exact congrArg (step s first :: ·) (ih (step s first).2)

/-- Conditions that agree at every step agree along a run. -/
theorem meets_congr {condition condition' : S → L → Prop}
    (h : ∀ s l, condition s l ↔ condition' s l) {s : S} {ls : List L} :
    Meets step condition s ls ↔ Meets step condition' s ls := by
  induction ls generalizing s with
  | nil => exact Iff.rfl
  | cons l ls ih => exact and_congr (h s l) ih

/-- Every run meets the condition that is always true. -/
theorem meets_true (s : S) (ls : List L) : Meets step (fun _ _ ↦ True) s ls := by
  induction ls generalizing s with
  | nil => trivial
  | cons l ls ih => exact ⟨trivial, ih _⟩

/-- A run meets a condition on labels when all of its labels do. -/
theorem meets_of_forall_mem {condition : L → Prop} {s : S} {ls : List L}
    (h : ∀ l ∈ ls, condition l) : Meets step (fun _ ↦ condition) s ls := by
  induction ls generalizing s with
  | nil => trivial
  | cons l ls ih =>
      obtain ⟨hl, hls⟩ := List.forall_mem_cons.mp h
      exact ⟨hl, ih hls⟩

/-- A run meets a condition when it does up to its last step, and its last step does. -/
theorem meets_concat {condition : S → L → Prop} {s : S} {ls : List L} {l : L} :
    Meets step condition s (ls ++ [l]) ↔
      Meets step condition s ls ∧ condition (final step s ls) l :=
  meets_append.trans (and_congr_right' (and_iff_left trivial))

/-- The state a run ends in is one that its last step leads to. -/
theorem exists_visited_final (s : S) (l : L) (ls : List L) :
    ∃ o, (o, final step s (l :: ls)) ∈ visited step s (l :: ls) := by
  induction ls generalizing s l with
  | nil => exact ⟨(step s l).1, List.mem_singleton_self _⟩
  | cons l' ls ih =>
      obtain ⟨o, ho⟩ := ih (step s l).2 l'
      exact ⟨o, List.mem_cons_of_mem _ ho⟩

/-- What every step under the condition establishes, and the invariant it preserves, hold at every
step of a run that meets the condition. -/
theorem forall_visited {condition : S → L → Prop} {inv : S → Prop} {good : O → S → Prop}
    (hstep : ∀ s l, inv s → condition s l → inv (step s l).2 ∧ good (step s l).1 (step s l).2)
    {s : S} {ls : List L} (hinv : inv s) (hmeets : Meets step condition s ls) :
    ∀ p ∈ visited step s ls, inv p.2 ∧ good p.1 p.2 := by
  induction ls generalizing s with
  | nil => simp [visited]
  | cons l ls ih =>
      obtain ⟨hcondition, hrest⟩ := hmeets
      have hnext := hstep s l hinv hcondition
      rw [visited, List.forall_mem_cons]
      exact ⟨hnext, ih hnext.1 hrest⟩

/-- An invariant that every step preserves holds at every step of every run. -/
theorem invariant_visited {inv : S → Prop} (hstep : ∀ s l, inv s → inv (step s l).2)
    {s : S} {ls : List L} (hinv : inv s) : ∀ p ∈ visited step s ls, inv p.2 := by
  induction ls generalizing s with
  | nil => simp [visited]
  | cons l ls ih =>
      rw [visited, List.forall_mem_cons]
      exact ⟨hstep s l hinv, ih (hstep s l hinv)⟩

/-- The invariant holds in the state a run that meets the condition ends in. -/
theorem final_invariant {condition : S → L → Prop} {inv : S → Prop}
    (hstep : ∀ s l, inv s → condition s l → inv (step s l).2)
    {s : S} {ls : List L} (hinv : inv s) (hmeets : Meets step condition s ls) :
    inv (final step s ls) := by
  induction ls generalizing s with
  | nil => exact hinv
  | cons l ls ih => exact ih (hstep s l hinv hmeets.1) hmeets.2

/-- An invariant that every step preserves holds in the state a run ends in. -/
theorem invariant_final {inv : S → Prop} (hstep : ∀ s l, inv s → inv (step s l).2) {s : S}
    (hinv : inv s) (ls : List L) : inv (final step s ls) := by
  induction ls generalizing s with
  | nil => exact hinv
  | cons l ls ih => exact ih (hstep s l hinv)

/-- Two machines whose states stay related step by step have the same outputs. -/
theorem simulation {T : Type*} {step' : T → L → O × T} {rel : S → T → Prop}
    (hstep : ∀ s t l, rel s t → (step s l).1 = (step' t l).1 ∧ rel (step s l).2 (step' t l).2)
    {s : S} {t : T} (hrel : rel s t) (ls : List L) :
    (visited step s ls).map Prod.fst = (visited step' t ls).map Prod.fst ∧
      rel (final step s ls) (final step' t ls) := by
  induction ls generalizing s t with
  | nil => exact ⟨rfl, hrel⟩
  | cons l ls ih =>
      obtain ⟨hout, hnext⟩ := hstep s t l hrel
      obtain ⟨houts, hlast⟩ := ih hnext
      rw [visited, visited, List.map_cons, List.map_cons, hout, houts]
      exact ⟨rfl, hlast⟩

end Machine
