import Aegis.Lib.Transaction

/-!
# Transactions that keep what they rely on

The common case of the rule for all runs: there is one relation between committed states that every
transaction relies on and keeps. What the relation preserves is then an invariant of every run, and
what every transaction answers from a state that has it is so of all answers.
-/

namespace Transaction

variable {D W Q R : Type} [Store D W]

/-- When every transaction keeps the relation, and answers as it should from a good state, every
state of a run is a good one and every answer is as it should be. -/
theorem guaranteed_run (program : Q → Txn D W R Empty) (labels : List (Label Q))
    {Kept : D → D → Prop} {Good : D → Prop} {ends : Q → Bool → R → World D Q R → D → Prop}
    {answered : Q → Bool → R → Prop}
    (hkept : Interference fun w w' : World D Q R ↦ Kept w.db w'.db)
    (hgood : ∀ d d', Good d → Kept d d' → Good d')
    (hends : ∀ q committed outcome (w : World D Q R) db, ends q committed outcome w db →
      Kept w.db db ∧ answered q committed outcome)
    (hsafe : ∀ q (w : World D Q R), .start q ∈ labels → Good w.db →
      Wp (fun w w' ↦ Kept w.db w'.db) (ends q) (program q) (fun e _ _ ↦ e.elim) [] w)
    {d : D} (hd : Good d) :
    ∀ reached ∈ Machine.visited (step program) ⟨⟨d, []⟩, []⟩ labels,
      Kept d reached.2.world.db ∧ Good reached.2.world.db ∧
        ∀ entry ∈ reached.2.world.log, answered entry.request entry.committed entry.outcome := by
  let inv : World D Q R → Prop := fun w ↦ Kept d w.db ∧ Good w.db ∧
    ∀ entry ∈ w.log, answered entry.request entry.committed entry.outcome
  have henter : ∀ (s : Server D W Q R) q, inv s.world →
      (∀ q', Label.start q = .start q' → .start q' ∈ labels) →
      Flight.Safe (fun _ _ w w' ↦ Kept w.db w'.db) ends ⟨q, [], program q⟩ s.world :=
    fun s q hinv hstart ↦ wp_noted_iff.mpr (hsafe q s.world (hstart q rfl) hinv.2.1)
  have hstep : ∀ (s : Server D W Q R) label, inv s.world →
      (∀ q, label = .start q → .start q ∈ labels) →
      Ended ends s.world (step program s label).2.world →
      inv (step program s label).2.world ∧
        ∀ f ∈ others s label, Kept s.world.db (step program s label).2.world.db := by
    rintro s label ⟨hfrom, hgoodNow, hlog⟩ - ⟨q, committed, outcome, db, hworld, hended⟩
    obtain ⟨hkeeps, hanswered⟩ := hends q committed outcome s.world db hended
    rw [hworld]
    refine ⟨⟨?_, hgood _ _ hgoodNow hkeeps, List.forall_mem_cons.mpr ⟨hanswered, hlog⟩⟩,
      fun _ _ ↦ hkeeps⟩
    exact hkept.trans (a := ⟨d, []⟩) (b := s.world) (c := s.world.ended q committed outcome db)
      hfrom hkeeps
  have hinv : inv ⟨d, []⟩ := ⟨hkept.refl ⟨d, []⟩, hd, by simp⟩
  have hstarts : ∀ label ∈ labels, ∀ q, label = .start q → .start q ∈ labels :=
    fun label hlabel q hq ↦ hq ▸ hlabel
  exact invariant_run (fun _ _ ↦ hkept) henter hstep hinv (Machine.meets_of_forall_mem hstarts)

end Transaction
