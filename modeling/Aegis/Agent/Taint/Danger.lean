import Aegis.Agent.Taint.Propagators

/-!
# Copied characters stay dangerous

A propagator may move a range, cut it, merge it or fold it into a covering one. For any ranges at
all, in canonical form or not, a character that is copied stays dangerous for the rules it was
dangerous for.
-/

namespace Aegis.Agent

open Spans

/-- The character at a position lies in a range that is not safe for the rule. -/
def TaintedValue.isDangerousAt (v : TaintedValue) (i : Nat) (rule : RuleClass) : Bool :=
  v.isDangerousIn i (i + 1) rule

namespace TaintedValue

/-- A character is dangerous for a rule when a range that covers it is not safe for it. -/
theorem is_dangerous_at_iff {v : TaintedValue} {i : Nat} {rule : RuleClass} :
    v.isDangerousAt i rule = true ↔ ∃ r ∈ v.ranges, Covers r i ∧ rule ∉ r.label.clearedFor := by
  have hsafe : ∀ r : TaintRange, (!r.isSafeFor rule) = true ↔ rule ∉ r.label.clearedFor := by
    intro r
    rw [Bool.not_eq_true', ← Bool.not_eq_true, TaintRange.is_safe_for_iff]
  have hoverlaps : ∀ r : TaintRange, r.overlaps i (i + 1) = true ↔ Covers r i := by
    intro r
    simp only [TaintRange.overlaps, Bool.and_eq_true, decide_eq_true_eq]
    simp only [Covers, TaintRange.lo_eq, TaintRange.hi_eq, TaintRange.end_exclusive_eq]
    omega
  unfold isDangerousAt isDangerousIn
  simp only [List.any_eq_true, Bool.and_eq_true, hsafe, hoverlaps]

/-- In canonical form the label read at the character decides. -/
theorem Canonical.is_dangerous_at_iff {v : TaintedValue} {n : Int} (h : v.Canonical n) {i : Nat}
    {rule : RuleClass} :
    v.isDangerousAt i rule = true ↔ ∃ m, labelAt v.ranges i = some m ∧ rule ∉ m.clearedFor := by
  rw [TaintedValue.is_dangerous_at_iff]
  constructor
  · rintro ⟨r, hr, hcovers, hrule⟩
    exact ⟨_, label_at_of_covers h.spansDisjoint hr hcovers, hrule⟩
  · rintro ⟨m, hm, hrule⟩
    obtain ⟨r, hr, hcovers, rfl⟩ := exists_of_label_at hm
    exact ⟨r, hr, hcovers, hrule⟩

/-- A reshaped value is one range over the whole result, cleared for nothing that some range of the
value is not cleared for. -/
theorem reshaped_ranges {v : TaintedValue} (hv : v.isTainted = true) {n : Nat} (hn : 0 < n) :
    ∃ r, (v.reshaped n).ranges = [r] ∧ r.start = 0 ∧ r.length = n ∧
      ∀ s ∈ v.ranges, r.clearedFor ⊆ s.clearedFor := by
  unfold TaintedValue.reshaped
  cases hranges : v.ranges with
  | nil => simp [isTainted, hranges] at hv
  | cons first rest =>
      dsimp only
      rw [dif_neg (by omega)]
      exact ⟨_, rfl, rfl, rfl, fun s hs ↦ cleared_subset_of_mem _ hs⟩

/-- Normalizing covers every range with one that is cleared for nothing more. -/
theorem normalize_covers {input : List TaintRange} (imprecise : Bool) {r : TaintRange}
    (hr : r ∈ input) {i : Int} (hi : Covers r i) :
    ∃ s ∈ (normalize input imprecise).ranges, Covers s i ∧ s.clearedFor ⊆ r.clearedFor := by
  have hmem := (List.mem_insertionSort sortsBefore).mpr hr
  unfold normalize
  cases hs : input.insertionSort sortsBefore with
  | nil =>
      rw [hs] at hmem
      exact nomatch hmem
  | cons current rest =>
      rw [hs] at hmem
      obtain ⟨s, hsmem, hlo, hhi, hlabel⟩ := exists_coalesce_covering TaintRange.merge_laws hmem
      have hcleared : s.clearedFor = r.clearedFor := congrArg Label.clearedFor hlabel
      have hcovers : Covers s i := ⟨hlo.trans hi.1, hi.2.trans_le hhi⟩
      dsimp only
      split
      · exact ⟨s, hsmem, hcovers, hcleared.le⟩
      · -- the covering range is around every merged one
        obtain ⟨covering, -, hcovering, hcoveri, hsub⟩ := collapse_covers hsmem hcovers
        exact ⟨covering, hcovering, hcoveri, hsub.trans hcleared.le⟩

/-- What normalizing is given danger for at a character, it keeps. -/
theorem normalize_dangerous {input : List TaintRange} (imprecise : Bool) {i : Nat}
    {rule : RuleClass} {r : TaintRange} (hr : r ∈ input) (hi : Covers r i)
    (hrule : rule ∉ r.clearedFor) : (normalize input imprecise).isDangerousAt i rule = true := by
  obtain ⟨s, hs, hcovers, hsub⟩ := normalize_covers imprecise hr hi
  exact is_dangerous_at_iff.mpr ⟨s, hs, hcovers, fun hmem ↦ hrule (hsub hmem)⟩

/-- A value that is dangerous somewhere is tainted. -/
theorem is_tainted_of_dangerous_at {v : TaintedValue} {i : Nat} {rule : RuleClass}
    (h : v.isDangerousAt i rule = true) : v.isTainted = true := by
  obtain ⟨r, hr, -⟩ := is_dangerous_at_iff.mp h
  unfold isTainted
  rw [Bool.not_eq_true', List.isEmpty_eq_false_iff]
  exact List.ne_nil_of_mem hr

/-- A shifted range covers what it covered, moved. -/
theorem covers_shift {r s : TaintRange} {delta : Int} (h : r.shift delta = some s) (i : Int) :
    (Covers s (i + delta) ↔ Covers r i) ∧ s.clearedFor = r.clearedFor := by
  unfold TaintRange.shift at h
  split at h
  · obtain rfl := Option.some.inj h
    simp only [Covers, TaintRange.lo_eq, TaintRange.hi_eq, and_true]
    omega
  · cases h

/-- Concatenating at a true length succeeds. -/
theorem exists_concat (left right : TaintedValue) (length : Nat) :
    ∃ v, left.concat length right = some v := by
  unfold TaintedValue.concat
  split
  · exact ⟨_, rfl⟩
  · rw [TaintRange.mapM_shift _ (Int.natCast_nonneg length)]
    exact ⟨_, rfl⟩

/-- Concatenation keeps the danger of both operands, that of the right one behind the left. -/
theorem concat_dangerous {left right v : TaintedValue} {length : Nat}
    (h : left.concat length right = some v) (i : Nat) (rule : RuleClass) :
    (left.isDangerousAt i rule = true → v.isDangerousAt i rule = true) ∧
      (right.isDangerousAt i rule = true → v.isDangerousAt (length + i) rule = true) := by
  unfold TaintedValue.concat at h
  split at h
  · next hnone =>
      simp only [Bool.and_eq_true, Bool.not_eq_true'] at hnone
      constructor
      · intro hdangerous
        exact absurd (is_tainted_of_dangerous_at hdangerous) (by simp [hnone.1])
      · intro hdangerous
        exact absurd (is_tainted_of_dangerous_at hdangerous) (by simp [hnone.2])
  · rw [TaintRange.mapM_shift _ (Int.natCast_nonneg length)] at h
    obtain rfl := Option.some.inj h
    constructor
    · intro hdangerous
      obtain ⟨r, hr, hi, hrule⟩ := is_dangerous_at_iff.mp hdangerous
      exact normalize_dangerous _ (List.mem_append_left _ hr) hi hrule
    · intro hdangerous
      obtain ⟨r, hr, hi, hrule⟩ := is_dangerous_at_iff.mp hdangerous
      have hstart := r.start_nonneg
      obtain ⟨s, hshift⟩ : ∃ s, r.shift (length : Nat) = some s :=
        ⟨_, TaintRange.shift_eq (by omega)⟩
      obtain ⟨hcovers, hcleared⟩ := covers_shift hshift i
      refine normalize_dangerous _ (List.mem_append_right _ (List.mem_flatMap.mpr
        ⟨r, hr, by rw [hshift]; exact List.mem_singleton_self s⟩)) ?_
        (by rw [hcleared]; exact hrule)
      rw [show ((length + i : Nat) : Int) = i + length by omega]
      exact hcovers.mpr hi

/-- A substring keeps the danger of the characters it copies. -/
theorem substring_dangerous {v : TaintedValue} {lower upper i : Nat} {rule : RuleClass}
    (hi : lower + i < upper) (h : v.isDangerousAt (lower + i) rule = true) :
    (v.substring lower upper).isDangerousAt i rule = true := by
  obtain ⟨r, hr, hcovers, hrule⟩ := is_dangerous_at_iff.mp h
  have htainted := is_tainted_of_dangerous_at h
  unfold TaintedValue.substring
  rw [htainted, Bool.not_true, Bool.false_or, if_neg (by simp; omega)]
  have hclip : ∃ s, r.clip lower upper = some s ∧ Spans.Covers s i :=
    TaintRange.covers_clip.mpr
      ⟨by omega, by rwa [show (i : Int) + lower = ((lower + i : Nat) : Int) by omega]⟩
  obtain ⟨s, hs, hsi⟩ := hclip
  have hlabel : s.clearedFor = r.clearedFor :=
    congrArg Label.clearedFor (TaintRange.label_of_clip hs)
  exact normalize_dangerous _ (List.mem_filterMap.mpr ⟨r, hr, hs⟩) hsi (hlabel ▸ hrule)

/-- Replacing a window at true lengths succeeds. The characters before it keep their danger, those
behind it carry theirs along, and those of the replacement take it to the window. -/
theorem replace_dangerous (v w : TaintedValue) {lower upper : Nat} (n : Nat) (h : lower ≤ upper) :
    ∃ u, v.replace lower upper w n = some u ∧ ∀ i rule,
      (i < lower → v.isDangerousAt i rule = true → u.isDangerousAt i rule = true) ∧
      (w.isDangerousAt i rule = true → u.isDangerousAt (lower + i) rule = true) ∧
      (v.isDangerousAt (upper + i) rule = true → u.isDangerousAt (lower + n + i) rule = true) := by
  unfold TaintedValue.replace
  rw [dif_neg (by omega)]
  split
  · next hnone =>
      simp only [Bool.and_eq_true, Bool.not_eq_true'] at hnone
      have hv : ∀ i rule, v.isDangerousAt i rule ≠ true := fun i rule hdangerous ↦
        absurd (is_tainted_of_dangerous_at hdangerous) (by simp [hnone.1])
      have hw : ∀ i rule, w.isDangerousAt i rule ≠ true := fun i rule hdangerous ↦
        absurd (is_tainted_of_dangerous_at hdangerous) (by simp [hnone.2])
      exact ⟨_, rfl, fun i rule ↦ ⟨fun _ hi ↦ absurd hi (hv _ _), fun hi ↦ absurd hi (hw _ _),
        fun hi ↦ absurd hi (hv _ _)⟩⟩
  · have hkeeps := fun r ↦ TaintRange.keeps_replace_pieces lower upper n
      (Int.natCast_nonneg lower) (by omega) (Int.natCast_nonneg n) r
    obtain ⟨⟨kept, hkept, hflatten⟩, -⟩ :=
      TaintRange.traces_pieces (l := v.ranges) fun r _ ↦ hkeeps r
    rw [hkept, TaintRange.mapM_shift _ (Int.natCast_nonneg lower)]
    refine ⟨_, rfl, fun i rule ↦ ?_⟩
    -- a kept range has a piece at every position that comes from one it covers
    have hpiece : ∀ (i j : Nat), TaintRange.spliceOrigin lower upper n j = some (i : Int) →
        v.isDangerousAt i rule = true →
        (normalize (kept.flatten ++ w.ranges.flatMap fun r ↦ (r.shift lower).toList)
          (v.imprecise || w.imprecise)).isDangerousAt j rule = true := by
      intro i j horigin hdangerous
      obtain ⟨r, hr, hi, hrule⟩ := is_dangerous_at_iff.mp hdangerous
      obtain ⟨pieces, hpieces, hkeep⟩ := hkeeps r
      obtain ⟨s, hs, hsj⟩ := (hkeep.covers j).mpr ⟨i, horigin, hi⟩
      have hcleared : s.clearedFor = r.clearedFor :=
        congrArg Label.clearedFor (hkeep.label s hs)
      refine normalize_dangerous _ (List.mem_append_left _ ?_) hsj (hcleared ▸ hrule)
      rw [hflatten]
      exact List.mem_flatMap.mpr ⟨r, hr, by rw [hpieces]; exact hs⟩
    refine ⟨fun hi ↦ hpiece i i ?_, fun hdangerous ↦ ?_, hpiece (upper + i) (lower + n + i) ?_⟩
    · rw [TaintRange.spliceOrigin, if_pos (by omega)]
    · obtain ⟨r, hr, hi, hrule⟩ := is_dangerous_at_iff.mp hdangerous
      have hstart := r.start_nonneg
      obtain ⟨s, hshift⟩ : ∃ s, r.shift (lower : Nat) = some s :=
        ⟨_, TaintRange.shift_eq (by omega)⟩
      obtain ⟨hcovers, hcleared⟩ := covers_shift hshift i
      refine normalize_dangerous _ (List.mem_append_right _ (List.mem_flatMap.mpr
        ⟨r, hr, by rw [hshift]; exact List.mem_singleton_self s⟩)) ?_
        (by rw [hcleared]; exact hrule)
      rw [show ((lower + i : Nat) : Int) = i + lower by omega]
      exact hcovers.mpr hi
    · rw [TaintRange.spliceOrigin, if_neg (by omega), if_neg (by omega)]
      exact congrArg some (by omega)

end TaintedValue

end Aegis.Agent
