import Aegis.Agent.Taint.Danger

/-!
# The normal form

`TaintedValue.of` sorts ranges by where they start and end and merges neighbours in one pass. That
is a normal form where no range of another label stands between two that could be merged; ranges of
different labels at the same place stand between themselves. `normalizes_canonically_iff` is exact,
also for what collapses.
-/

namespace Aegis.Agent

open Spans

namespace TaintedValue

/-- `TaintedValue.of`. -/
def of (ranges : List TaintRange) : TaintedValue :=
  normalize ranges false

/-- What merging leaves of sorted ranges. -/
def mergedRanges : List TaintRange → List TaintRange
  | [] => []
  | current :: rest => coalesce TaintRange.mergeableWith TaintRange.mergeWith current rest

/-- Normalization is sorting, merging and collapsing. -/
theorem normalize_eq (input : List TaintRange) (imprecise : Bool) :
    normalize input imprecise =
      if (mergedRanges (input.insertionSort sortsBefore)).length ≤ MAX_RANGES then
        ⟨mergedRanges (input.insertionSort sortsBefore), imprecise⟩
      else collapse (mergedRanges (input.insertionSort sortsBefore)) := by
  unfold normalize
  cases input.insertionSort sortsBefore with
  | nil => rfl
  | cons current rest => rfl

/-- A position is in a range that is dangerous for a rule. -/
def DangerousAt (ranges : List TaintRange) (rule : RuleClass) (i : Int) : Prop :=
  ∃ r ∈ ranges, Covers r i ∧ r.isSafeFor rule = false

/-! ## The claim of a normal form -/

/-- Ranges have a normal form: it is the same in any order, keeps the dangerous characters, exactly
unless it is imprecise, has no two ranges that could be merged, and is its own. -/
structure NormalizesCanonically (input : List TaintRange) : Prop where
  of_perm : ∀ other, other.Perm input → of other = of input
  dangerous_of : ∀ rule i, DangerousAt input rule i → DangerousAt (of input).ranges rule i
  dangerous : (of input).imprecise = false →
    ∀ rule i, DangerousAt (of input).ranges rule i → DangerousAt input rule i
  unmergeable : (of input).ranges.Pairwise fun a b ↦ a.mergeableWith b = false
  idempotent : normalize (of input).ranges (of input).imprecise = of input

/-- No range of another label stands, by start and end, between two that could be merged. Ranges at
the same place stand before and behind each other. -/
def Unambiguous (input : List TaintRange) : Prop :=
  ∀ a ∈ input, ∀ b ∈ input, ∀ c ∈ input, a.mergeableWith c = true → sortsBefore a b →
    sortsBefore b c → b.label = a.label

/-- The runs of ranges with equal labels, each in reach of the ranges before it in the run. -/
def runCount : List TaintRange → Nat
  | [] => 0
  | first :: rest => runs first first.endExclusive rest

/-- In whatever order by start and end, there are more runs than a value has ranges. -/
def Overflows (input : List TaintRange) : Prop :=
  ∀ sorted : List TaintRange, sorted.Perm input → sorted.Pairwise sortsBefore →
    MAX_RANGES < runCount sorted

/-- Ranges that come first in such an order are of one origin. -/
def OneOrigin (input : List TaintRange) : Prop :=
  ∀ a ∈ input, ∀ b ∈ input, (∀ r ∈ input, sortsBefore a r) → (∀ r ∈ input, sortsBefore b r) →
    a.source = b.source ∧ a.sourceName = b.sourceName

/-! ## Merging sorted ranges -/

variable {input sorted : List TaintRange}

theorem lo_le_of_sorts_before {a b : TaintRange} (h : sortsBefore a b) : lo a ≤ lo b := by
  simp only [sortsBefore] at h
  simp only [TaintRange.lo_eq]
  omega

theorem rising_of_sorted (h : sorted.Pairwise sortsBefore) : Rising sorted :=
  h.imp lo_le_of_sorts_before

/-- Merging leaves as many ranges as there are runs. -/
theorem length_merged_ranges (h : sorted.Pairwise sortsBefore) :
    (mergedRanges sorted).length = runCount sorted := by
  cases sorted with
  | nil => rfl
  | cons first rest => exact length_coalesce TaintRange.merge_laws (rising_of_sorted h) rfl

/-- Every range lies in a merged one. -/
theorem exists_merged {r : TaintRange} (h : r ∈ sorted) : ∃ s ∈ mergedRanges sorted, Inside r s := by
  cases sorted with
  | nil => cases h
  | cons first rest => exact exists_coalesce_covering TaintRange.merge_laws h

/-- Every position of a merged range lies in one of the ranges, with its label. -/
theorem exists_of_covers_merged {s : TaintRange} (hs : s ∈ mergedRanges sorted) {i : Int}
    (hi : Covers s i) : ∃ r ∈ sorted, Covers r i ∧ r.label = s.label := by
  cases sorted with
  | nil => cases hs
  | cons first rest => exact exists_of_covers_coalesce TaintRange.merge_laws hs hi

/-- Merging keeps what is dangerous. -/
theorem dangerous_merged_ranges (rule : RuleClass) (i : Int) :
    DangerousAt (mergedRanges sorted) rule i ↔ DangerousAt sorted rule i := by
  have hsafe : ∀ {r s : TaintRange}, r.label = s.label → r.isSafeFor rule = s.isSafeFor rule := by
    intro r s h
    exact congrArg (fun cleared : Finset RuleClass ↦ decide (rule ∈ cleared))
      (congrArg Label.clearedFor h)
  constructor
  · rintro ⟨s, hs, hcovers, hdanger⟩
    obtain ⟨r, hr, hcovered, hlabel⟩ := exists_of_covers_merged hs hcovers
    exact ⟨r, hr, hcovered, (hsafe hlabel).trans hdanger⟩
  · rintro ⟨r, hr, hcovers, hdanger⟩
    obtain ⟨s, hs, hlo, hhi, hlabel⟩ := exists_merged hr
    exact ⟨s, hs, ⟨hlo.trans hcovers.1, hcovers.2.trans_le hhi⟩, (hsafe hlabel).trans hdanger⟩

/-- A merge of sorted ranges sorts as the ranges do. -/
theorem sorts_before_merge {a b c : TaintRange} (ha : sortsBefore c a) (hb : sortsBefore c b) :
    sortsBefore c (a.mergeWith b) := by
  simp only [sortsBefore, TaintRange.mergeWith, TaintRange.end_exclusive_eq] at ha hb ⊢
  omega

theorem merge_sorts_before {a b c : TaintRange} (hac : sortsBefore a c) (hbc : sortsBefore b c) :
    sortsBefore (a.mergeWith b) c := by
  simp only [sortsBefore, TaintRange.mergeWith, TaintRange.end_exclusive_eq] at hac hbc ⊢
  omega

/-- Merged ranges are sorted. -/
theorem sorted_merged_ranges (h : sorted.Pairwise sortsBefore) :
    (mergedRanges sorted).Pairwise sortsBefore := by
  cases sorted with
  | nil => exact h
  | cons current rest =>
      rw [mergedRanges]
      induction rest generalizing current with
      | nil => exact h
      | cons next rest ih =>
          obtain ⟨hcurrent, hrest⟩ := List.pairwise_cons.mp h
          obtain ⟨hnext, hlast⟩ := List.pairwise_cons.mp hrest
          rw [coalesce]
          split
          · refine ih _ (List.pairwise_cons.mpr ⟨fun r hr ↦ ?_, hlast⟩)
            exact merge_sorts_before (hcurrent r (List.mem_cons_of_mem _ hr)) (hnext r hr)
          · exact List.pairwise_cons.mpr
              ⟨forall_mem_coalesce (fun _ _ ↦ sorts_before_merge) hcurrent, ih next hrest⟩

/-- Merged ranges are merged already. -/
theorem merged_ranges_merged_ranges (h : sorted.Pairwise sortsBefore) :
    mergedRanges (mergedRanges sorted) = mergedRanges sorted := by
  cases sorted with
  | nil => rfl
  | cons current rest =>
      have hchain := chain_coalesce TaintRange.merge_laws (rising_of_sorted h)
      obtain ⟨first, tail, heq, -⟩ := head_coalesce TaintRange.merge_laws (rising_of_sorted h)
      rw [heq] at hchain
      rw [show mergedRanges (current :: rest) = first :: tail from heq]
      exact coalesce_of_chain hchain

/-! ## What always holds -/

/-- How normalization sorts. -/
theorem sorted_insertion_sort (input : List TaintRange) :
    (input.insertionSort sortsBefore).Pairwise sortsBefore :=
  List.pairwise_insertionSort sortsBefore input

/-- Unless there are too many runs, the value has the merged ranges, and is precise. -/
theorem of_eq_merged (h : runCount (input.insertionSort sortsBefore) ≤ MAX_RANGES) :
    of input = ⟨mergedRanges (input.insertionSort sortsBefore), false⟩ := by
  rw [← length_merged_ranges (sorted_insertion_sort input)] at h
  rw [of, normalize_eq, if_pos h]

/-- If there are, it collapses. -/
theorem of_eq_collapse (h : MAX_RANGES < runCount (input.insertionSort sortsBefore)) :
    of input = collapse (mergedRanges (input.insertionSort sortsBefore)) := by
  rw [← length_merged_ranges (sorted_insertion_sort input)] at h
  rw [of, normalize_eq, if_neg h.not_ge]

/-- Collapsing leaves one range. -/
theorem collapse_eq {merged : List TaintRange} (h : merged ≠ []) :
    ∃ covering, collapse merged = ⟨[covering], true⟩ := by
  cases merged with
  | nil => exact absurd rfl h
  | cons first rest => exact ⟨_, rfl⟩

/-- Too many runs are not none. -/
theorem merged_ranges_ne_nil (h : MAX_RANGES < runCount sorted) : mergedRanges sorted ≠ [] := by
  cases sorted with
  | nil => cases h
  | cons first rest => exact coalesce_ne_nil _ _ _ _

/-- What is dangerous stays so. -/
theorem dangerous_of_input {rule : RuleClass} {i : Int} (h : DangerousAt input rule i) :
    DangerousAt (of input).ranges rule i := by
  obtain ⟨r, hr, hcovers, hdanger⟩ := h
  obtain ⟨s, hs, hcovered, hcleared⟩ := normalize_covers false hr hcovers
  refine ⟨s, hs, hcovered, ?_⟩
  simp only [TaintRange.isSafeFor, decide_eq_false_iff_not] at hdanger ⊢
  exact fun hmem ↦ hdanger (hcleared hmem)

/-- Unless the value is imprecise, nothing else is. -/
theorem dangerous_input_of (h : (of input).imprecise = false) {rule : RuleClass} {i : Int}
    (hdanger : DangerousAt (of input).ranges rule i) : DangerousAt input rule i := by
  rcases Nat.lt_or_ge MAX_RANGES (runCount (input.insertionSort sortsBefore)) with hmany | hfew
  · obtain ⟨covering, hcollapse⟩ := collapse_eq (merged_ranges_ne_nil hmany)
    rw [of_eq_collapse hmany, hcollapse] at h
    cases h
  · rw [of_eq_merged hfew] at hdanger
    obtain ⟨r, hr, hread⟩ := (dangerous_merged_ranges rule i).mp hdanger
    exact ⟨r, (List.mem_insertionSort sortsBefore).mp hr, hread⟩

/-- A value is its own normal form. -/
theorem normalize_of (input : List TaintRange) :
    normalize (of input).ranges (of input).imprecise = of input := by
  rcases Nat.lt_or_ge MAX_RANGES (runCount (input.insertionSort sortsBefore)) with hmany | hfew
  · obtain ⟨covering, hcollapse⟩ := collapse_eq (merged_ranges_ne_nil hmany)
    rw [of_eq_collapse hmany, hcollapse]
    rfl
  · have hsorted := sorted_merged_ranges (sorted_insertion_sort input)
    rw [of_eq_merged hfew, normalize_eq, hsorted.insertionSort_eq,
      merged_ranges_merged_ranges (sorted_insertion_sort input), if_pos]
    rw [length_merged_ranges (sorted_insertion_sort input)]
    exact hfew

/-! ## Where nothing stands between -/

/-- A range is its place and its label. -/
theorem eq_of_place_label {a b : TaintRange} (hstart : a.start = b.start)
    (hend : a.endExclusive = b.endExclusive) (hlabel : a.label = b.label) : a = b := by
  have hlength : a.length = b.length := by
    simp only [TaintRange.end_exclusive_eq] at hend
    omega
  obtain ⟨start, length, source, name, cleared, _, _⟩ := a
  obtain ⟨start', length', source', name', cleared', _, _⟩ := b
  cases hstart
  cases hlength
  cases hlabel
  rfl

/-- Ranges that come before each other are the same, where nothing stands between. -/
theorem Unambiguous.eq_of_tie (h : Unambiguous input) {a b : TaintRange} (ha : a ∈ input)
    (hb : b ∈ input) (hab : sortsBefore a b) (hba : sortsBefore b a) : a = b := by
  have hself : a.mergeableWith a = true :=
    (TaintRange.merge_laws.mergeable_iff a a).mpr ⟨rfl, (lo_lt_hi a).le, (lo_lt_hi a).le⟩
  have hlabel := h a ha b hb a ha hself hab hba
  simp only [sortsBefore, TaintRange.end_exclusive_eq] at hab hba
  refine eq_of_place_label (by omega) ?_ hlabel.symm
  simp only [TaintRange.end_exclusive_eq]
  omega

/-- Then they sort into one list. -/
theorem Unambiguous.sort_eq (h : Unambiguous input) {other : List TaintRange}
    (hperm : other.Perm input) :
    other.insertionSort sortsBefore = input.insertionSort sortsBefore := by
  have hother := List.perm_insertionSort sortsBefore other
  have hinput := List.perm_insertionSort sortsBefore input
  refine ((hother.trans hperm).trans hinput.symm).eq_of_pairwise (fun a b ha hb ↦ ?_)
    (sorted_insertion_sort other) (sorted_insertion_sort input)
  exact h.eq_of_tie (hperm.mem_iff.mp (hother.mem_iff.mp ha)) (hinput.mem_iff.mp hb)

/-- And no two merged ranges could be merged. -/
theorem Unambiguous.unmergeable (h : Unambiguous input) (hsorted : sorted.Pairwise sortsBefore)
    (hmem : ∀ r ∈ sorted, r ∈ input) :
    (mergedRanges sorted).Pairwise fun a b ↦ a.mergeableWith b = false := by
  cases sorted with
  | nil => exact List.Pairwise.nil
  | cons current rest =>
      obtain ⟨hcurrent, hrest⟩ := List.pairwise_cons.mp hsorted
      obtain ⟨hfirst, hothers⟩ := List.forall_mem_cons.mp hmem
      refine pairwise_coalesce TaintRange.merge_laws (fun _ _ ↦ lo_le_of_sorts_before) hrest
        (fun r hr ↦ lo_le_of_sorts_before (hcurrent r hr)) ?_ fun a ha b hb c hc ↦
          h a (hothers a ha) b (hothers b hb) c (hothers c hc)
      refine hrest.imp_of_mem fun {b c} hb hc hbc hlabel hreach ↦ ?_
      have hstart := lo_le_of_sorts_before (hcurrent c hc)
      exact h current hfirst b (hothers b hb) c (hothers c hc)
        ((TaintRange.merge_laws.mergeable_iff _ _).mpr
          ⟨hlabel.symm, hstart.trans (lo_lt_hi c).le, hreach⟩) (hcurrent b hb) hbc

/-- Ranges between which nothing stands have a normal form. -/
theorem Unambiguous.normalizes (h : Unambiguous input) : NormalizesCanonically input where
  of_perm other hperm := by
    rw [of, of, normalize_eq, normalize_eq, h.sort_eq hperm]
  dangerous_of _ _ := dangerous_of_input
  dangerous hprecise _ _ := dangerous_input_of hprecise
  unmergeable := by
    rcases Nat.lt_or_ge MAX_RANGES (runCount (input.insertionSort sortsBefore)) with hmany | hfew
    · obtain ⟨covering, hcollapse⟩ := collapse_eq (merged_ranges_ne_nil hmany)
      rw [of_eq_collapse hmany, hcollapse]
      exact List.pairwise_singleton _ _
    · rw [of_eq_merged hfew]
      exact h.unmergeable (sorted_insertion_sort input)
        fun r ↦ (List.mem_insertionSort sortsBefore).mp
  idempotent := normalize_of input

/-! ## Where something does -/

/-- Ranges of different labels stay in their order, in some order of the input. -/
theorem exists_pair_merged {a b : TaintRange} (ha : a ∈ input) (hb : b ∈ input)
    (hab : sortsBefore a b) (hne : a.label ≠ b.label) :
    ∃ other : List TaintRange, other.Perm input ∧ ∃ s t,
      [s, t].Sublist (mergedRanges (other.insertionSort sortsBefore)) ∧ Inside a s ∧ Inside b t := by
  have hrest : b ∈ input.erase a :=
    (List.mem_erase_of_ne fun heq ↦ hne (congrArg TaintRange.label heq.symm)).mpr hb
  have hperm : (a :: b :: (input.erase a).erase b).Perm input :=
    (((List.perm_cons_erase hrest).symm).cons a).trans (List.perm_cons_erase ha).symm
  refine ⟨_, hperm, ?_⟩
  have hpair : [a, b].Sublist
      ((a :: b :: (input.erase a).erase b).insertionSort sortsBefore) :=
    List.pair_sublist_insertionSort hab (((List.nil_sublist _).cons_cons b).cons_cons a)
  cases hsort : (a :: b :: (input.erase a).erase b).insertionSort sortsBefore with
  | nil =>
      rw [hsort] at hpair
      cases hpair
  | cons current rest =>
      rw [hsort] at hpair
      exact exists_pair_coalesce TaintRange.merge_laws hpair hne

/-- No list without repetitions has two members in both orders. -/
theorem not_sublist_swap {α : Type*} {l : List α} (hnodup : l.Nodup) {x y : α}
    (h : [x, y].Sublist l) : ¬ [y, x].Sublist l := by
  induction l with
  | nil => cases h
  | cons z l ih =>
      obtain ⟨hz, hl⟩ := List.nodup_cons.mp hnodup
      intro hswap
      rcases List.sublist_cons_iff.mp h with hlater | ⟨more, hxy, hy⟩ <;>
        rcases List.sublist_cons_iff.mp hswap with hafter | ⟨others, hyx, hx⟩
      · exact ih hl hlater hafter
      · obtain ⟨rfl, rfl⟩ := List.cons.inj hyx
        exact hz (hlater.subset (List.mem_cons_of_mem _ List.mem_cons_self))
      · obtain ⟨rfl, rfl⟩ := List.cons.inj hxy
        exact hz (hafter.subset (List.mem_cons_of_mem _ List.mem_cons_self))
      · obtain ⟨rfl, rfl⟩ := List.cons.inj hxy
        obtain ⟨rfl, rfl⟩ := List.cons.inj hyx
        exact hz (List.singleton_sublist.mp hx)

/-- Where no two merged ranges could be merged, those that two such ranges lie in are the same. -/
theorem eq_of_inside {merged : List TaintRange}
    (h : merged.Pairwise fun a b ↦ a.mergeableWith b = false) {a c s u : TaintRange}
    (hs : s ∈ merged) (hu : u ∈ merged) (ha : Inside a s) (hc : Inside c u)
    (hac : a.mergeableWith c = true) : s = u := by
  obtain ⟨hlabel, hleft, hright⟩ := (TaintRange.merge_laws.mergeable_iff a c).mp hac
  have hmergeable : s.mergeableWith u = true :=
    (TaintRange.merge_laws.mergeable_iff s u).mpr
      ⟨ha.2.2.trans (hlabel.trans hc.2.2.symm), (ha.1.trans hleft).trans hc.2.1,
        (hc.1.trans hright).trans ha.2.1⟩
  have hsymm : Std.Symm fun a b : TaintRange ↦ a.mergeableWith b = false := by
    refine ⟨fun a b hab ↦ ?_⟩
    rw [Bool.eq_false_iff, ne_eq, TaintRange.merge_laws.mergeable_iff] at hab ⊢
    exact fun ⟨hsame, hba, hreach⟩ ↦ hab ⟨hsame.symm, hreach, hba⟩
  by_contra hne
  have hapart := h.forall hs hu hne
  rw [hmergeable] at hapart
  cases hapart

/-- A normal form that is precise is one where nothing stands between. -/
theorem NormalizesCanonically.unambiguous (h : NormalizesCanonically input)
    (hprecise : (of input).imprecise = false) : Unambiguous input := by
  -- in any order, the same ranges are left
  have hmerged : ∀ other : List TaintRange, other.Perm input →
      mergedRanges (other.insertionSort sortsBefore) = (of input).ranges := by
    intro other hperm
    have hof := h.of_perm other hperm
    rcases Nat.lt_or_ge MAX_RANGES (runCount (other.insertionSort sortsBefore)) with hmany | hfew
    · obtain ⟨covering, hcollapse⟩ := collapse_eq (merged_ranges_ne_nil hmany)
      rw [← hof, of_eq_collapse hmany, hcollapse] at hprecise
      cases hprecise
    · rw [← hof, of_eq_merged hfew]
  have hself : ∀ r : TaintRange, r.mergeableWith r = true := fun r ↦
    (TaintRange.merge_laws.mergeable_iff r r).mpr ⟨rfl, (lo_lt_hi r).le, (lo_lt_hi r).le⟩
  have hnodup : (of input).ranges.Nodup := h.unmergeable.imp fun hab heq ↦ by
    rw [heq, hself] at hab
    cases hab
  intro a ha b hb c hc hac hab hbc
  by_contra hne
  have hlabel := ((TaintRange.merge_laws.mergeable_iff a c).mp hac).1
  obtain ⟨first, hfirst, s, t, hst, has, hbt⟩ := exists_pair_merged ha hb hab (Ne.symm hne)
  obtain ⟨second, hsecond, t', u, htu, hbt', hcu⟩ :=
    exists_pair_merged hb hc hbc fun heq ↦ hne (heq.trans hlabel.symm)
  rw [hmerged first hfirst] at hst
  rw [hmerged second hsecond] at htu
  obtain rfl := eq_of_inside h.unmergeable (hst.subset List.mem_cons_self)
    (htu.subset (List.mem_cons_of_mem _ List.mem_cons_self)) has hcu hac
  obtain rfl := eq_of_inside h.unmergeable
    (hst.subset (List.mem_cons_of_mem _ List.mem_cons_self)) (htu.subset List.mem_cons_self)
    hbt hbt' (hself b)
  exact not_sublist_swap hnodup hst htu

/-! ## What collapses -/

/-- Extending a covering, it starts where something folded into it starts, ends where something
ends, and is cleared for what all are. -/
theorem Covering.extend_spec (c : Covering) (rest : List TaintRange) :
    ((rest.foldl extend c).start = c.start ∨
        ∃ r ∈ rest, (rest.foldl extend c).start = r.start) ∧
      ((rest.foldl extend c).endExclusive = c.endExclusive ∨
        ∃ r ∈ rest, (rest.foldl extend c).endExclusive = r.endExclusive) ∧
      ∀ rule, rule ∈ (rest.foldl extend c).commonCleared ↔
        rule ∈ c.commonCleared ∧ ∀ r ∈ rest, rule ∈ r.clearedFor := by
  induction rest generalizing c with
  | nil => exact ⟨.inl rfl, .inl rfl, fun rule ↦ (and_iff_left (List.forall_mem_nil _)).symm⟩
  | cons range rest ih =>
      obtain ⟨hstart, hend, hcleared⟩ := ih (c.extend range)
      rw [List.foldl_cons]
      refine ⟨?_, ?_, fun rule ↦ ?_⟩
      · rcases hstart with hstart | ⟨r, hr, hstart⟩
        · rcases min_choice c.start range.start with hmin | hmin
          · exact .inl (hstart.trans hmin)
          · exact .inr ⟨range, List.mem_cons_self, hstart.trans hmin⟩
        · exact .inr ⟨r, List.mem_cons_of_mem _ hr, hstart⟩
      · rcases hend with hend | ⟨r, hr, hend⟩
        · rcases max_choice c.endExclusive range.endExclusive with hmax | hmax
          · exact .inl (hend.trans hmax)
          · exact .inr ⟨range, List.mem_cons_self, hend.trans hmax⟩
        · exact .inr ⟨r, List.mem_cons_of_mem _ hr, hend⟩
      · rw [hcleared rule, List.forall_mem_cons, ← and_assoc]
        exact and_congr_left' Finset.mem_inter

/-- The range that covers all of the input, cleared for what all of it is. -/
structure Hull (input : List TaintRange) (r : TaintRange) : Prop where
  start_le : ∀ x ∈ input, r.start ≤ x.start
  start_mem : ∃ x ∈ input, x.start = r.start
  le_end : ∀ x ∈ input, x.endExclusive ≤ r.endExclusive
  end_mem : ∃ x ∈ input, x.endExclusive = r.endExclusive
  cleared : ∀ rule, rule ∈ r.clearedFor ↔ ∀ x ∈ input, rule ∈ x.clearedFor

/-- Collapsing merged ranges leaves the range that covers the input, of the first one's origin. -/
theorem collapse_merged_ranges {first : TaintRange} {rest : List TaintRange}
    (hsorted : (first :: rest).Pairwise sortsBefore) :
    ∃ r, collapse (mergedRanges (first :: rest)) = ⟨[r], true⟩ ∧ Hull (first :: rest) r ∧
      r.source = first.source ∧ r.sourceName = first.sourceName := by
  obtain ⟨head, tail, hmerged, -, hlabel⟩ :=
    head_coalesce TaintRange.merge_laws (rising_of_sorted hsorted)
  have heq : mergedRanges (first :: rest) = head :: tail := hmerged
  have horigin := Label.mk.inj hlabel
  -- what is true of the merged ranges is true of the input
  have hbounds : ∀ s ∈ head :: tail, (tail.foldl Covering.extend (.of head)).start ≤ s.start ∧
      s.endExclusive ≤ (tail.foldl Covering.extend (.of head)).endExclusive ∧
      (tail.foldl Covering.extend (.of head)).commonCleared ⊆ s.clearedFor :=
    List.forall_mem_cons.mpr
      ⟨Covering.extend_bounds tail (.of head), fun s ↦ Covering.extend_covers (.of head)⟩
  have hspec := Covering.extend_spec (.of head) tail
  have hstart : ∃ s ∈ head :: tail, (tail.foldl Covering.extend (.of head)).start = s.start := by
    rcases hspec.1 with h | ⟨s, hs, h⟩
    · exact ⟨head, List.mem_cons_self, h⟩
    · exact ⟨s, List.mem_cons_of_mem _ hs, h⟩
  have hend : ∃ s ∈ head :: tail,
      (tail.foldl Covering.extend (.of head)).endExclusive = s.endExclusive := by
    rcases hspec.2.1 with h | ⟨s, hs, h⟩
    · exact ⟨head, List.mem_cons_self, h⟩
    · exact ⟨s, List.mem_cons_of_mem _ hs, h⟩
  have hcleared : ∀ rule, rule ∈ (tail.foldl Covering.extend (.of head)).commonCleared ↔
      ∀ s ∈ head :: tail, rule ∈ s.clearedFor := fun rule ↦
    (hspec.2.2 rule).trans (List.forall_mem_cons (p := fun s : TaintRange ↦ rule ∈ s.clearedFor)).symm
  rw [← heq] at hbounds hstart hend hcleared
  rw [heq]
  refine ⟨_, rfl, ?_, horigin.1, horigin.2.1⟩
  refine ⟨fun x hx ↦ ?_, ?_, fun x hx ↦ ?_, ?_, fun rule ↦ (hcleared rule).trans ?_⟩
  · obtain ⟨s, hs, hlo, -⟩ := exists_merged hx
    exact (hbounds s hs).1.trans hlo
  · obtain ⟨s, hs, hs'⟩ := hstart
    obtain ⟨x, hx, hcovers, -⟩ := exists_of_covers_merged hs (i := lo s) ⟨le_rfl, lo_lt_hi s⟩
    obtain ⟨t, ht, hlo, -⟩ := exists_merged hx
    exact ⟨x, hx, le_antisymm (hcovers.1.trans_eq hs'.symm) ((hbounds t ht).1.trans hlo)⟩
  · obtain ⟨s, hs, -, hhi, -⟩ := exists_merged hx
    have hle : x.endExclusive ≤ _ := hhi.trans (hbounds s hs).2.1
    refine hle.trans_eq ?_
    simp only [TaintRange.end_exclusive_eq]
    omega
  · obtain ⟨s, hs, hs'⟩ := hend
    have hlast : Covers s (hi s - 1) := ⟨by have := lo_lt_hi s; omega, by omega⟩
    obtain ⟨x, hx, hcovers, -⟩ := exists_of_covers_merged hs hlast
    obtain ⟨t, ht, -, hhi, -⟩ := exists_merged hx
    have hle := hhi.trans (hbounds t ht).2.1
    have hge : s.endExclusive ≤ x.endExclusive := Int.le_of_sub_one_lt hcovers.2
    have hsame : x.endExclusive = _ := le_antisymm hle (hs'.trans_le hge)
    refine ⟨x, hx, hsame.trans ?_⟩
    simp only [TaintRange.end_exclusive_eq]
    omega
  · constructor
    · intro hall x hx
      obtain ⟨s, hs, -, -, hlabel⟩ := exists_merged hx
      have hsame : s.clearedFor = x.clearedFor := congrArg Label.clearedFor hlabel
      exact hsame ▸ hall s hs
    · intro hall s hs
      obtain ⟨x, hx, -, hlabel⟩ := exists_of_covers_merged hs (i := lo s) ⟨le_rfl, lo_lt_hi s⟩
      have hsame : x.clearedFor = s.clearedFor := congrArg Label.clearedFor hlabel
      exact hsame ▸ hall x hx

/-- The range that covers the input is determined by its origin. -/
theorem Hull.eq {r s : TaintRange} (hr : Hull input r) (hs : Hull input s)
    (hsource : r.source = s.source) (hname : r.sourceName = s.sourceName) : r = s := by
  have hstart : r.start = s.start := by
    obtain ⟨x, hx, hxr⟩ := hr.start_mem
    obtain ⟨y, hy, hys⟩ := hs.start_mem
    have := hs.start_le x hx
    have := hr.start_le y hy
    omega
  have hend : r.endExclusive = s.endExclusive := by
    obtain ⟨x, hx, hxr⟩ := hr.end_mem
    obtain ⟨y, hy, hys⟩ := hs.end_mem
    have := hs.le_end x hx
    have := hr.le_end y hy
    omega
  have hcleared : r.clearedFor = s.clearedFor := by
    ext rule
    rw [hr.cleared, hs.cleared]
  refine eq_of_place_label hstart hend ?_
  rw [TaintRange.label, TaintRange.label, hsource, hname, hcleared]

/-- It covers the input in any order. -/
theorem Hull.of_perm {other : List TaintRange} {r : TaintRange} (h : Hull other r)
    (hperm : other.Perm input) : Hull input r := by
  have hmem : ∀ {x}, x ∈ other ↔ x ∈ input := hperm.mem_iff
  refine ⟨fun x hx ↦ h.start_le x (hmem.mpr hx), ?_, fun x hx ↦ h.le_end x (hmem.mpr hx), ?_,
    fun rule ↦ (h.cleared rule).trans (forall_congr' fun x ↦ imp_congr_left hmem)⟩
  · obtain ⟨x, hx, hxr⟩ := h.start_mem
    exact ⟨x, hmem.mp hx, hxr⟩
  · obtain ⟨x, hx, hxr⟩ := h.end_mem
    exact ⟨x, hmem.mp hx, hxr⟩

/-- What comes first of sorted ranges comes before each of them. -/
theorem sorts_before_of_first {first : TaintRange} {rest : List TaintRange}
    (h : (first :: rest).Pairwise sortsBefore) : ∀ r ∈ first :: rest, sortsBefore first r :=
  List.forall_mem_cons.mpr ⟨.inr ⟨rfl, le_rfl⟩, (List.pairwise_cons.mp h).1⟩

/-- Ranges that overflow in any order collapse in any order, to a range of the origin of one that
comes first. -/
theorem Overflows.of_eq (h : Overflows input) {other : List TaintRange}
    (hperm : other.Perm input) :
    ∃ first ∈ input, (∀ x ∈ input, sortsBefore first x) ∧ ∃ r, of other = ⟨[r], true⟩ ∧
      Hull input r ∧ r.source = first.source ∧ r.sourceName = first.sourceName := by
  have hsort := (List.perm_insertionSort sortsBefore other).trans hperm
  have hsorted := sorted_insertion_sort other
  have hmany := h _ hsort hsorted
  have hof := of_eq_collapse hmany
  cases heq : other.insertionSort sortsBefore with
  | nil =>
      rw [heq] at hmany
      cases hmany
  | cons first rest =>
      rw [heq] at hsort hsorted hof
      obtain ⟨r, hcollapse, hhull, horigin⟩ := collapse_merged_ranges hsorted
      exact ⟨first, hsort.mem_iff.mp List.mem_cons_self,
        fun x hx ↦ sorts_before_of_first hsorted x (hsort.mem_iff.mpr hx), r,
        hof.trans hcollapse, hhull.of_perm hsort, horigin⟩

/-- Where the ranges overflow in any order and have one origin, they have a normal form. -/
theorem Overflows.normalizes (hmany : Overflows input) (hone : OneOrigin input) :
    NormalizesCanonically input where
  of_perm other hperm := by
    obtain ⟨first, hfirst, hbefore, r, hr, hhull, hsource, hname⟩ := hmany.of_eq hperm
    obtain ⟨first', hfirst', hbefore', r', hr', hhull', hsource', hname'⟩ :=
      hmany.of_eq (List.Perm.refl input)
    obtain ⟨horigin, horiginName⟩ := hone first hfirst first' hfirst' hbefore hbefore'
    rw [hr, hr', hhull.eq hhull' (hsource.trans (horigin.trans hsource'.symm))
      (hname.trans (horiginName.trans hname'.symm))]
  dangerous_of _ _ := dangerous_of_input
  dangerous hprecise _ _ := dangerous_input_of hprecise
  unmergeable := by
    obtain ⟨_, -, -, r, hr, -⟩ := hmany.of_eq (List.Perm.refl input)
    rw [hr]
    exact List.pairwise_singleton _ _
  idempotent := normalize_of input

/-- The value starts with a range of the first one's origin. -/
theorem origin_of_first {first : TaintRange} {rest : List TaintRange}
    (h : ∀ r ∈ rest, sortsBefore first r) :
    (of (first :: rest)).ranges.head?.map (fun r ↦ (r.source, r.sourceName)) =
      some (first.source, first.sourceName) := by
  have hsorted := sorted_insertion_sort (first :: rest)
  have hfew := @of_eq_merged (first :: rest)
  have hmany := @of_eq_collapse (first :: rest)
  rw [List.insertionSort_cons_of_forall_rel sortsBefore h] at hsorted hfew hmany
  rcases Nat.lt_or_ge MAX_RANGES (runCount (first :: rest.insertionSort sortsBefore)) with hover | hle
  · obtain ⟨r, hcollapse, -, hsource, hname⟩ := collapse_merged_ranges hsorted
    rw [hmany hover, hcollapse, ← hsource, ← hname]
    rfl
  · obtain ⟨head, tail, hmerged, -, hlabel⟩ :=
      head_coalesce TaintRange.merge_laws (rising_of_sorted hsorted)
    obtain ⟨hsource, hname, -⟩ := Label.mk.inj hlabel
    rw [hfew hle, mergedRanges, hmerged]
    exact congrArg some (Prod.ext hsource hname)

/-- In a normal form, what comes first has one origin. -/
theorem NormalizesCanonically.one_origin (h : NormalizesCanonically input) : OneOrigin input := by
  have horigin : ∀ a ∈ input, (∀ r ∈ input, sortsBefore a r) →
      (of input).ranges.head?.map (fun r ↦ (r.source, r.sourceName)) =
        some (a.source, a.sourceName) := by
    intro a ha hfirst
    rw [← h.of_perm _ (List.perm_cons_erase ha).symm]
    exact origin_of_first fun r hr ↦ hfirst r (List.mem_of_mem_erase hr)
  intro a ha b hb hafirst hbfirst
  have hsame := (horigin a ha hafirst).symm.trans (horigin b hb hbfirst)
  exact Prod.mk.inj (Option.some.inj hsame)

/-- Exactly when ranges have a normal form: where nothing stands between two that could be merged,
or where they overflow in any order and what comes first has one origin. -/
theorem normalizes_canonically_iff (input : List TaintRange) :
    NormalizesCanonically input ↔
      Unambiguous input ∨ Overflows input ∧ OneOrigin input := by
  refine ⟨fun h ↦ ?_, ?_⟩
  · by_cases hbetween : Unambiguous input
    · exact .inl hbetween
    · refine .inr ⟨fun sorted hperm hsorted ↦ ?_, h.one_origin⟩
      by_contra hfew
      refine hbetween (h.unambiguous ?_)
      rw [← hsorted.insertionSort_eq] at hfew
      rw [← h.of_perm sorted hperm, of_eq_merged (Nat.le_of_not_lt hfew)]
  · rintro (hbetween | ⟨hmany, hone⟩)
    · exact hbetween.normalizes
    · exact hmany.normalizes hone

/-- A range of ten characters from a source. -/
def tenFrom (source : SourceKind) : TaintRange :=
  ⟨0, 10, source, [], ∅, by decide, by decide⟩

/-- A value that a parameter and a header both taint has two normal forms. -/
theorem of_depends_on_order :
    [tenFrom .HEADER, tenFrom .PARAMETER].Perm [tenFrom .PARAMETER, tenFrom .HEADER] ∧
      of [tenFrom .HEADER, tenFrom .PARAMETER] ≠ of [tenFrom .PARAMETER, tenFrom .HEADER] := by
  decide +kernel

end TaintedValue

end Aegis.Agent
