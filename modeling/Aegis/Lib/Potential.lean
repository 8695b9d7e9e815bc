import Aegis.Lib.Machine
import Mathlib.Algebra.Order.Monoid.Defs

/-!
# What a run costs

The potential method. Each step of a machine costs something, and a potential is what a state has
put by: when no step costs more than the potential it takes away, no run costs more than the
potential it starts from.
-/

namespace Machine

universe u v w

variable {S : Type u} {L : Type v} {O : Type w} (step : S → L → O × S)
variable {M : Type*} [AddCommMonoid M]

/-- What the steps of a run cost together. -/
def total (cost : S → L → M) : S → List L → M
  | _, [] => 0
  | s, l :: ls => cost s l + total cost (step s l).2 ls

variable {step} [PartialOrder M] [IsOrderedAddMonoid M]

/-- A run costs no more than the potential it takes away. -/
theorem total_add_potential_le {condition : S → L → Prop} {inv : S → Prop} {cost : S → L → M}
    {potential : S → M} (hinv : ∀ s l, inv s → condition s l → inv (step s l).2)
    (hstep : ∀ s l, inv s → condition s l → cost s l + potential (step s l).2 ≤ potential s)
    {s : S} {ls : List L} (hs : inv s) (hmeets : Meets step condition s ls) :
    total step cost s ls + potential (final step s ls) ≤ potential s := by
  induction ls generalizing s with
  | nil => exact (zero_add _).le
  | cons l ls ih =>
      have hrest := ih (hinv s l hs hmeets.1) hmeets.2
      calc total step cost s (l :: ls) + potential (final step s (l :: ls))
          = cost s l + (total step cost (step s l).2 ls +
              potential (final step (step s l).2 ls)) := add_assoc _ _ _
        _ ≤ cost s l + potential (step s l).2 := by gcongr
        _ ≤ potential s := hstep s l hs hmeets.1

/-- A run costs no more than the potential it starts from, when no potential is negative. -/
theorem total_le_potential {condition : S → L → Prop} {inv : S → Prop} {cost : S → L → M}
    {potential : S → M} (hinv : ∀ s l, inv s → condition s l → inv (step s l).2)
    (hstep : ∀ s l, inv s → condition s l → cost s l + potential (step s l).2 ≤ potential s)
    (hpotential : ∀ s, inv s → 0 ≤ potential s) {s : S} {ls : List L} (hs : inv s)
    (hmeets : Meets step condition s ls) : total step cost s ls ≤ potential s :=
  (le_add_of_nonneg_right (hpotential _ (final_invariant hinv hs hmeets))).trans
    (total_add_potential_le hinv hstep hs hmeets)

/-- A run of steps that cost nothing less than nothing costs nothing only if no step does. -/
theorem meets_free {condition : S → L → Prop} {cost : S → L → M}
    (hcost : ∀ s l, condition s l → 0 ≤ cost s l) {s : S} {ls : List L}
    (hmeets : Meets step condition s ls) (hfree : total step cost s ls = 0) :
    Meets step (fun s l ↦ condition s l ∧ cost s l = 0) s ls := by
  have hnonneg : ∀ {s ls}, Meets step condition s ls → 0 ≤ total step cost s ls := by
    intro s ls
    induction ls generalizing s with
    | nil => exact fun _ ↦ le_rfl
    | cons l ls ih => exact fun h ↦ add_nonneg (hcost s l h.1) (ih h.2)
  induction ls generalizing s with
  | nil => trivial
  | cons l ls ih =>
      have hboth := (add_eq_zero_iff_of_nonneg (hcost s l hmeets.1) (hnonneg hmeets.2)).mp hfree
      exact ⟨⟨hmeets.1, hboth.1⟩, ih hmeets.2 hboth.2⟩

end Machine
