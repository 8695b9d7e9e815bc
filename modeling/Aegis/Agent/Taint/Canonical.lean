import Aegis.Agent.Taint.Value

/-!
# Canonical form and approximation

`Canonical` is the form every tainted value is kept in and `Approximates` says how what a value
reads at a position relates to the truth there. `normalize_models` is the one fact about
`normalize` that every propagator uses: it puts disjoint ranges into canonical form, and what it
reads approximates whatever its input approximated.
-/

namespace Aegis.Agent

open Spans

namespace TaintedValue

/-- The form of the ranges of a value of the given length: nonempty, sorted by start, disjoint,
inside the value, no two neighbours mergeable, and at most `MAX_RANGES` of them. -/
structure Canonical (v : TaintedValue) (length : Int) : Prop where
  nonempty : ∀ r ∈ v.ranges, r.start < r.endExclusive
  sorted : v.ranges.Pairwise fun a b ↦ a.start < b.start
  disjoint : v.ranges.Pairwise fun a b ↦ a.endExclusive ≤ b.start
  within : ∀ r ∈ v.ranges, 0 ≤ r.start ∧ r.endExclusive ≤ length
  separated : v.ranges.IsChain fun a b ↦ a.mergeableWith b = false
  bounded : v.ranges.length ≤ MAX_RANGES

/-- Canonical form from what the span library proves of a list. -/
theorem Canonical.intro {v : TaintedValue} {length : Int} (hordered : Ordered v.ranges)
    (hwithin : Within length v.ranges)
    (hseparated : v.ranges.IsChain fun a b ↦ a.mergeableWith b = false)
    (hbounded : v.ranges.length ≤ MAX_RANGES) : v.Canonical length where
  nonempty r _ := lo_lt_hi r
  sorted := hordered.imp fun h ↦ (lo_lt_hi _).trans_le h
  disjoint := hordered
  within := hwithin
  separated := hseparated
  bounded := hbounded

/-- The untainted value is canonical at every length. -/
theorem canonical_nil (imprecise : Bool) (length : Int) :
    Canonical ⟨[], imprecise⟩ length :=
  .intro (List.Pairwise.nil) (by simp [Within]) (List.IsChain.nil) (by simp [MAX_RANGES])

/-- A single range inside the value is canonical. -/
theorem canonical_singleton {r : TaintRange} {length : Int} (imprecise : Bool)
    (h : r.endExclusive ≤ length) : Canonical ⟨[r], imprecise⟩ length :=
  .intro (List.pairwise_singleton _ _) (by simpa [Within, r.start_nonneg] using h)
    (List.IsChain.singleton _) (by simp [MAX_RANGES])

/-- The ranges of a canonical value share no position. -/
theorem Canonical.spansDisjoint {v : TaintedValue} {length : Int} (h : v.Canonical length) :
    Disjoint v.ranges :=
  Ordered.disjoint h.disjoint

/-- A position a range of a canonical value covers lies inside the value. -/
theorem Canonical.covers_inside {v : TaintedValue} {length : Int} (h : v.Canonical length)
    {r : TaintRange} (hr : r ∈ v.ranges) {i : Int} (hi : Covers r i) : 0 ≤ i ∧ i < length := by
  have hw := h.within r hr
  simp only [Covers, TaintRange.lo_eq, TaintRange.hi_eq] at hi
  simp only [TaintRange.end_exclusive_eq] at hw
  omega

/-! ## Approximation -/

/-- What a value reads at a position, against the truth: equal when the value is precise; when it
is imprecise, tainted wherever the truth is and cleared for nothing the truth is not cleared
for. -/
def Approximates (imprecise : Bool) (read truth : Option Label) : Prop :=
  if imprecise then
    ∀ l, truth = some l → ∃ m, read = some m ∧ m.clearedFor ⊆ l.clearedFor
  else read = truth

/-- Reading the truth approximates it. -/
theorem Approximates.refl (imprecise : Bool) (read : Option Label) :
    Approximates imprecise read read := by
  cases imprecise with
  | false => rfl
  | true => exact fun l h ↦ ⟨l, h, subset_rfl⟩

/-- A truth that says nothing is approximated by reading nothing. -/
theorem approximates_none (imprecise : Bool) : Approximates imprecise none none :=
  .refl imprecise none

/-- In either case a tainted position is read tainted, and cleared for nothing more. -/
theorem Approximates.exists_read {imprecise : Bool} {read truth : Option Label}
    (h : Approximates imprecise read truth) {l : Label} (hl : truth = some l) :
    ∃ m, read = some m ∧ m.clearedFor ⊆ l.clearedFor := by
  cases imprecise with
  | false => exact ⟨l, (show read = truth from h).trans hl, subset_rfl⟩
  | true => exact h l hl

/-- Reading nothing is only right where the truth says nothing. -/
theorem Approximates.truth_none {imprecise : Bool} {truth : Option Label}
    (h : Approximates imprecise none truth) : truth = none := by
  cases ht : truth with
  | none => rfl
  | some l =>
      obtain ⟨m, hm, -⟩ := h.exists_read ht
      simp at hm

/-- Losing precision keeps an approximation. -/
theorem Approximates.weaken {imprecise : Bool} {read truth : Option Label}
    (h : Approximates imprecise read truth) (other : Bool) :
    Approximates (imprecise || other) read truth := by
  cases imprecise with
  | true => exact h
  | false =>
      obtain rfl : read = truth := h
      exact .refl _ _

/-- Reading more coarsely keeps an approximation, as an imprecise one. -/
theorem Approximates.coarsen {imprecise : Bool} {read read' truth : Option Label}
    (h : Approximates imprecise read truth)
    (hread : ∀ m, read = some m → ∃ m', read' = some m' ∧ m'.clearedFor ⊆ m.clearedFor) :
    Approximates true read' truth := by
  intro l hl
  obtain ⟨m, hm, hsub⟩ := h.exists_read hl
  obtain ⟨m', hm', hsub'⟩ := hread m hm
  exact ⟨m', hm', hsub'.trans hsub⟩

/-- Reading at an origin approximates the truth at that origin. -/
theorem Approximates.bind {imprecise : Bool} {read truth : Int → Option Label}
    (h : ∀ i, Approximates imprecise (read i) (truth i)) (origin : Option Int) :
    Approximates imprecise (origin.bind read) (origin.bind truth) := by
  cases origin with
  | none => exact approximates_none imprecise
  | some i => exact h i

/-- Two readings of which at most one says anything approximate the two truths together. -/
theorem Approximates.or {imprecise : Bool} {read read' truth truth' : Option Label}
    (h : Approximates imprecise read truth) (h' : Approximates imprecise read' truth')
    (hone : (read = none ∧ truth = none) ∨ (read' = none ∧ truth' = none)) :
    Approximates imprecise (read.or read') (truth.or truth') := by
  rcases hone with ⟨rfl, rfl⟩ | ⟨rfl, rfl⟩
  · simpa using h'
  · simpa using h

/-- Clearing a rule on both sides keeps an approximation. -/
theorem Approximates.clear {imprecise : Bool} {read truth : Option Label}
    (h : Approximates imprecise read truth) (rule : RuleClass) :
    Approximates imprecise (read.map (·.clear rule)) (truth.map (·.clear rule)) := by
  cases imprecise with
  | false =>
      obtain rfl : read = truth := h
      rfl
  | true =>
      intro l hl
      obtain ⟨l', hl', rfl⟩ := Option.map_eq_some_iff.mp hl
      obtain ⟨m, hm, hsub⟩ := h l' hl'
      exact ⟨m.clear rule, by simp [hm], Finset.insert_subset_insert rule hsub⟩

/-! ## What normalization keeps -/

/-- Extending a covering keeps it around what it covered. -/
theorem Covering.extend_bounds (rest : List TaintRange) (c : Covering) :
    (rest.foldl extend c).start ≤ c.start ∧
      c.endExclusive ≤ (rest.foldl extend c).endExclusive ∧
      (rest.foldl extend c).commonCleared ⊆ c.commonCleared := by
  induction rest generalizing c with
  | nil => simp
  | cons range rest ih =>
      obtain ⟨hstart, hend, hcleared⟩ := ih (c.extend range)
      exact ⟨hstart.trans (min_le_left _ _), (le_max_left _ _).trans hend,
        hcleared.trans Finset.inter_subset_left⟩

/-- A range folded into a covering lies inside it and is cleared for all it is cleared for. -/
theorem Covering.extend_covers {rest : List TaintRange} (c : Covering) {range : TaintRange}
    (h : range ∈ rest) :
    (rest.foldl extend c).start ≤ range.start ∧
      range.endExclusive ≤ (rest.foldl extend c).endExclusive ∧
      (rest.foldl extend c).commonCleared ⊆ range.clearedFor := by
  induction rest generalizing c with
  | nil => simp at h
  | cons head rest ih =>
      rcases List.mem_cons.mp h with rfl | h
      · obtain ⟨hstart, hend, hcleared⟩ := extend_bounds rest (c.extend range)
        exact ⟨hstart.trans (min_le_right _ _), (le_max_right _ _).trans hend,
          hcleared.trans Finset.inter_subset_right⟩
      · exact ih (c.extend head) h

/-- A covering ends inside the bounds of everything folded into it. -/
theorem Covering.extend_end_le {n : Int} (rest : List TaintRange) (c : Covering)
    (hend : c.endExclusive ≤ n) (h : Within n rest) :
    (rest.foldl extend c).endExclusive ≤ n := by
  induction rest generalizing c with
  | nil => exact hend
  | cons range rest ih =>
      have hrange := h range (by simp)
      exact ih (c.extend range) (max_le hend hrange.2) fun r hr ↦ h r (by simp [hr])

/-- Collapsing gives one range inside the bounds. -/
theorem canonical_collapse {merged : List TaintRange} {n : Int} (h : Within n merged) :
    (collapse merged).Canonical n := by
  cases merged with
  | nil => exact canonical_nil _ _
  | cons first rest =>
      refine canonical_singleton true ?_
      have hend := Covering.extend_end_le rest (Covering.of first) (h first (by simp)).2
        fun r hr ↦ h r (by simp [hr])
      simp only [TaintRange.end_exclusive_eq]
      omega

/-- Collapsing covers every range with one that is cleared for nothing more. -/
theorem collapse_covers {merged : List TaintRange} {r : TaintRange} (hr : r ∈ merged) {i : Int}
    (hi : Covers r i) :
    ∃ s, labelAt (collapse merged).ranges i = some s.label ∧ s ∈ (collapse merged).ranges ∧
      Covers s i ∧ s.clearedFor ⊆ r.clearedFor := by
  cases merged with
  | nil => exact nomatch hr
  | cons first rest =>
      -- the range is the first one or was folded in, so the covering is around it
      have hcovering : (rest.foldl Covering.extend (Covering.of first)).start ≤ r.start ∧
          r.endExclusive ≤ (rest.foldl Covering.extend (Covering.of first)).endExclusive ∧
          (rest.foldl Covering.extend (Covering.of first)).commonCleared ⊆ r.clearedFor := by
        rcases List.mem_cons.mp hr with rfl | hr
        · exact Covering.extend_bounds rest (Covering.of r)
        · exact Covering.extend_covers _ hr
      obtain ⟨hstart, hend, hcleared⟩ := hcovering
      simp only [Covers, TaintRange.lo_eq, TaintRange.hi_eq] at hi
      simp only [TaintRange.end_exclusive_eq] at hend
      have hcovers : ∀ s : TaintRange,
          s.start = (rest.foldl Covering.extend (Covering.of first)).start →
          s.length = (rest.foldl Covering.extend (Covering.of first)).endExclusive -
            (rest.foldl Covering.extend (Covering.of first)).start → Covers s i := by
        intro s hs hl
        simp only [Covers, TaintRange.lo_eq, TaintRange.hi_eq]
        omega
      refine ⟨_, ?_, List.mem_singleton_self _, hcovers _ rfl rfl, hcleared⟩
      rw [collapse, label_at_cons, if_pos (hcovers _ rfl rfl)]
      rfl

/-- So it reads every position cleared for no more than any range there was cleared for. -/
theorem collapse_coarser {merged : List TaintRange} {i : Int} {l : Label}
    (h : labelAt merged i = some l) :
    ∃ m, labelAt (collapse merged).ranges i = some m ∧ m.clearedFor ⊆ l.clearedFor := by
  obtain ⟨r, hr, hcovers, rfl⟩ := exists_of_label_at h
  obtain ⟨s, hread, -, -, hcleared⟩ := collapse_covers hr hcovers
  exact ⟨_, hread, hcleared⟩

/-- A collapsed value is marked imprecise as soon as it keeps a range. -/
theorem collapse_imprecise {merged : List TaintRange} (h : merged ≠ []) :
    (collapse merged).imprecise = true := by
  cases merged with
  | nil => exact absurd rfl h
  | cons => rfl

/-- Normalizing disjoint ranges gives canonical form, and what the result reads approximates
whatever its input approximated. -/
theorem normalize_models {input : List TaintRange} {n : Int} (imprecise : Bool)
    (truth : Int → Option Label) (hd : Disjoint input) (hw : Within n input)
    (hread : ∀ i, Approximates imprecise (labelAt input i) (truth i)) :
    (normalize input imprecise).Canonical n ∧ ∀ i,
      Approximates (normalize input imprecise).imprecise
        (labelAt (normalize input imprecise).ranges i) (truth i) := by
  have hperm := List.perm_insertionSort sortsBefore input
  have hsorted : ∀ i, labelAt (input.insertionSort sortsBefore) i = labelAt input i :=
    label_at_perm hperm.symm hd
  have hordered : Ordered (input.insertionSort sortsBefore) :=
    sorted_ordered (fun a b h ↦ by simp only [sortsBefore] at h; simp only [TaintRange.lo_eq]; omega)
      hd
  have hwithin : Within n (input.insertionSort sortsBefore) :=
    fun r hr ↦ hw r (hperm.mem_iff.mp hr)
  unfold normalize
  cases hs : input.insertionSort sortsBefore with
  | nil =>
      refine ⟨canonical_nil _ _, fun i ↦ ?_⟩
      have hnone := hsorted i
      rw [hs] at hnone
      simpa [← hnone] using hread i
  | cons current rest =>
      rw [hs] at hsorted hordered hwithin
      have hlabel : ∀ i, labelAt
          (coalesce TaintRange.mergeableWith TaintRange.mergeWith current rest) i =
            labelAt input i :=
        fun i ↦ (label_at_coalesce TaintRange.merge_laws hordered i).trans (hsorted i)
      have hmerged := within_coalesce TaintRange.merge_laws hwithin
      dsimp only
      split
      · next hbound =>
          refine ⟨.intro (ordered_coalesce TaintRange.merge_laws hordered) hmerged
            (chain_coalesce TaintRange.merge_laws hordered.rising) hbound, fun i ↦ ?_⟩
          rw [hlabel i]
          exact hread i
      · next hbound =>
          refine ⟨canonical_collapse hmerged, fun i ↦ ?_⟩
          rw [collapse_imprecise (by rintro h; simp [h] at hbound)]
          refine (hread i).coarsen fun m hm ↦ ?_
          exact collapse_coarser ((hlabel i).trans hm)

end TaintedValue

end Aegis.Agent
