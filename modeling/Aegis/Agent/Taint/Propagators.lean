import Aegis.Agent.Taint.Reference

/-!
# Every propagator models its string operation

One lemma for each propagator of `TaintedValue`: applied to models of its operands, at the true
length and at offsets the JDK method accepts, it throws nothing and models the string the
operation produces.
-/

namespace Aegis.Agent

open Spans

/-- A list all of whose elements succeed is mapped to the concatenation of the results. -/
theorem mapM_of_isSome {α β : Type*} {f : α → Option β} {l : List α}
    (h : ∀ a ∈ l, (f a).isSome) : l.mapM f = some (l.flatMap fun a ↦ (f a).toList) := by
  induction l with
  | nil => rfl
  | cons a l ih =>
      obtain ⟨b, hb⟩ := Option.isSome_iff_exists.mp (h a (by simp))
      rw [List.mapM_cons, hb, ih fun c hc ↦ h c (by simp [hc])]
      simp [hb]

namespace TaintRange

/-- Shifting by a nonnegative amount succeeds. -/
theorem shift_eq {r : TaintRange} {delta : Int} (h : 0 ≤ r.start + delta) :
    r.shift delta = some { r with start := r.start + delta, start_nonneg := h } := by
  simp [shift, h]

/-- Shifted ranges carry at `i` what their ranges carried at `i - delta`. -/
theorem traces_shift {l : List TaintRange} (delta : Int) (h : 0 ≤ delta) :
    Traces (fun r : TaintRange ↦ (r.shift delta).toList) id (fun i ↦ some (i - delta)) l := by
  refine traces_of_covers ?_ ?_ ?_
  · intro r _
    have := r.start_nonneg
    rw [shift_eq (by omega)]
    exact List.pairwise_singleton _ _
  · intro r _ p hp
    have := r.start_nonneg
    rw [shift_eq (by omega), Option.toList_some, List.mem_singleton] at hp
    rw [hp]
    rfl
  · intro r _ i
    have := r.start_nonneg
    rw [shift_eq (by omega)]
    simp only [Option.toList_some, List.mem_singleton, exists_eq_left, Option.some.injEq,
      exists_eq_left', Covers, lo_eq, hi_eq]
    omega

/-- A clipped range covers what its range covers inside the window. -/
theorem covers_clip {r : TaintRange} {lower upper i : Int} :
    (∃ s, r.clip lower upper = some s ∧ Covers s i) ↔
      (0 ≤ i ∧ i < upper - lower) ∧ Covers r (i + lower) := by
  by_cases h : min r.endExclusive upper ≤ max r.start lower
  · rw [clip, dif_pos h]
    simp only [end_exclusive_eq] at h
    simp only [reduceCtorEq, false_and, exists_false, false_iff, Covers, lo_eq, hi_eq]
    omega
  · rw [clip, dif_neg h]
    simp only [end_exclusive_eq] at h
    simp only [Option.some.injEq, exists_eq_left', Covers, lo_eq, hi_eq, end_exclusive_eq]
    omega

/-- A clipped range keeps its label. -/
theorem label_of_clip {r s : TaintRange} {lower upper : Int} (h : r.clip lower upper = some s) :
    s.label = r.label := by
  unfold clip at h
  split at h
  · simp at h
  · obtain rfl := Option.some.inj h
    rfl

/-- Clipped ranges carry at `i` what their ranges carried at `i + lower`. -/
theorem traces_clip {l : List TaintRange} {lower upper : Int} :
    Traces (fun r : TaintRange ↦ (r.clip lower upper).toList) id
      (fun i ↦ if 0 ≤ i ∧ i < upper - lower then some (i + lower) else none) l := by
  refine traces_of_covers ?_ ?_ ?_
  · intro r _
    cases r.clip lower upper with
    | none => exact List.Pairwise.nil
    | some s => exact List.pairwise_singleton _ _
  · exact fun r _ p hp ↦ label_of_clip (Option.mem_toList.mp hp)
  · intro r _ i
    simp only [Option.mem_toList, covers_clip, Option.ite_none_right_eq_some,
      Option.some.injEq, and_assoc, exists_and_left, exists_eq_left']

/-- Shifting every range by a nonnegative amount succeeds. -/
theorem mapM_shift (l : List TaintRange) {delta : Int} (h : 0 ≤ delta) :
    l.mapM (fun r ↦ r.shift delta) = some (l.flatMap fun r ↦ (r.shift delta).toList) := by
  refine mapM_of_isSome fun r _ ↦ ?_
  have := r.start_nonneg
  rw [shift_eq (by omega)]
  rfl

/-- What a propagator keeps of one range: disjoint pieces with its label, which cover the positions
whose origin it covers. -/
structure Keeps (origin : Int → Option Int) (r : TaintRange) (pieces : List TaintRange) :
    Prop where
  disjoint : Disjoint pieces
  label : ∀ p ∈ pieces, p.label = r.label
  covers : ∀ i, (∃ p ∈ pieces, Covers p i) ↔ ∃ j, origin i = some j ∧ Covers r j

/-- Keeping pieces of every range succeeds, and the pieces trace the ranges. -/
theorem traces_pieces {f : TaintRange → Option (List TaintRange)} {origin : Int → Option Int}
    {l : List TaintRange} (h : ∀ r ∈ l, ∃ pieces, f r = some pieces ∧ Keeps origin r pieces) :
    (∃ kept, l.mapM f = some kept ∧ kept.flatten = l.flatMap fun r ↦ (f r).getD []) ∧
      Traces (fun r ↦ (f r).getD []) id origin l := by
  constructor
  · refine ⟨_, mapM_of_isSome fun r hr ↦ ?_, ?_⟩
    · obtain ⟨pieces, hpieces, -⟩ := h r hr
      simp [hpieces]
    · rw [← List.flatMap_id, List.flatMap_assoc]
      refine List.flatMap_congr fun r _ ↦ ?_
      cases f r <;> simp
  · refine traces_of_covers ?_ ?_ ?_
    all_goals
      intro r hr
      obtain ⟨pieces, hpieces, hkeeps⟩ := h r hr
      simp only [hpieces, Option.getD_some]
    · exact hkeeps.disjoint
    · exact hkeeps.label
    · exact hkeeps.covers

/-- Where the positions of a string come from once `n` characters stand in place of
`[lower, upper)`. -/
def spliceOrigin (lower upper n i : Int) : Option Int :=
  if i < lower then some i else if i < lower + n then none else some (i - n + (upper - lower))

/-- `insert` keeps a range, or both of its halves. -/
theorem keeps_insert_pieces (offset n : Int) (hoffset : 0 ≤ offset) (hn : 0 ≤ n)
    (r : TaintRange) : ∃ pieces, TaintedValue.insertPieces offset n r = some pieces ∧
      Keeps (spliceOrigin offset offset n) r pieces := by
  have hstart := r.start_nonneg
  have hlength := r.length_pos
  unfold TaintedValue.insertPieces
  split
  · next hafter =>
      rw [shift_eq (by omega)]
      refine ⟨_, rfl, List.pairwise_singleton _ _, by simp [label], fun i ↦ ?_⟩
      simp only [List.mem_singleton, exists_eq_left, Covers, lo_eq, hi_eq, spliceOrigin]
      split_ifs <;> simp <;> omega
  · split
    · next hbefore =>
        simp only [end_exclusive_eq] at hbefore
        refine ⟨_, rfl, List.pairwise_singleton _ _, by simp, fun i ↦ ?_⟩
        simp only [List.mem_singleton, exists_eq_left, Covers, lo_eq, hi_eq, spliceOrigin]
        split_ifs <;> simp <;> omega
    · next hnotafter hnotbefore =>
        -- the insertion splits the range, and neither half is empty
        simp only [end_exclusive_eq] at hnotbefore
        rw [clip, dif_neg (by simp only [end_exclusive_eq]; omega), clip,
          dif_neg (by simp only [end_exclusive_eq]; omega)]
        simp only [Option.toList_some, List.mapM_cons, List.mapM_nil]
        rw [shift_eq (by dsimp only; omega), shift_eq (by dsimp only; omega)]
        refine ⟨_, rfl, ?_, ?_, fun i ↦ ?_⟩
        · refine List.pairwise_pair.mpr fun i ↦ ?_
          simp only [Covers, lo_eq, hi_eq, end_exclusive_eq]
          omega
        · simp [label]
        · simp only [List.singleton_append, List.mem_cons, List.not_mem_nil, or_false,
            exists_eq_or_imp, exists_eq_left, Covers, lo_eq, hi_eq, end_exclusive_eq, spliceOrigin]
          split_ifs <;> simp <;> omega

/-- `replace` keeps the portions of a range outside the replaced window. -/
theorem keeps_replace_pieces (lower upper n : Int) (hlower : 0 ≤ lower) (hupper : lower ≤ upper)
    (hn : 0 ≤ n) (r : TaintRange) :
    ∃ pieces, TaintedValue.replacePieces lower upper n hlower hn r = some pieces ∧
      Keeps (spliceOrigin lower upper n) r pieces := by
  have hstart := r.start_nonneg
  have hlength := r.length_pos
  unfold TaintedValue.replacePieces
  split
  · next hbefore =>
      simp only [end_exclusive_eq] at hbefore
      refine ⟨_, rfl, List.pairwise_singleton _ _, by simp, fun i ↦ ?_⟩
      simp only [List.mem_singleton, exists_eq_left, Covers, lo_eq, hi_eq, spliceOrigin]
      split_ifs <;> simp <;> omega
  · split
    · next hafter =>
        rw [shift_eq (by omega)]
        refine ⟨_, rfl, List.pairwise_singleton _ _, by simp [label], fun i ↦ ?_⟩
        simp only [List.mem_singleton, exists_eq_left, Covers, lo_eq, hi_eq, spliceOrigin]
        split_ifs <;> simp <;> omega
    · next hnotbefore hnotafter =>
        -- the window overlaps the range: a head, a tail, both or neither survive
        have hpair : ∀ head tail : TaintRange, head.start + head.length ≤ tail.start →
            Spans.Disjoint [head, tail] := by
          refine fun head tail h ↦ List.pairwise_pair.mpr fun i ↦ ?_
          simp only [Covers, lo_eq, hi_eq]
          omega
        by_cases hhead : r.start < lower <;> by_cases htail : r.endExclusive > upper
        all_goals
          simp only [hhead, htail, dite_true, dite_false]
          simp only [end_exclusive_eq] at hnotbefore hnotafter htail
          refine ⟨_, rfl, ?_, by simp [label], fun i ↦ ?_⟩
          · first
              | exact hpair _ _ (by dsimp only; omega)
              | exact List.pairwise_singleton _ _
              | exact List.Pairwise.nil
          · simp only [List.nil_append, List.cons_append, List.mem_cons, List.not_mem_nil, or_false,
              exists_eq_or_imp, exists_eq_left, false_and, exists_false, Covers, lo_eq, hi_eq,
              end_exclusive_eq, spliceOrigin]
            split_ifs <;> simp <;> omega

/-- A mirrored range covers the mirror images of the positions it covered. -/
theorem traces_mirror {l : List TaintRange} {n : Int} (h : Within n l) :
    (∃ mirrored, l.mapM (TaintedValue.mirror n) = some mirrored ∧
      mirrored = l.flatMap fun r ↦ (TaintedValue.mirror n r).toList) ∧
      Traces (fun r ↦ (TaintedValue.mirror n r).toList) id (fun i ↦ some (n - 1 - i)) l := by
  have hmirror : ∀ r ∈ l, ∃ s, TaintedValue.mirror n r = some s ∧ s.label = r.label ∧
      ∀ i, Covers s i ↔ Covers r (n - 1 - i) := by
    intro r hr
    have hbound := (h r hr).2
    simp only [hi_eq] at hbound
    rw [TaintedValue.mirror, dif_neg (by simp only [end_exclusive_eq]; omega)]
    refine ⟨_, rfl, rfl, fun i ↦ ?_⟩
    simp only [Covers, lo_eq, hi_eq, end_exclusive_eq]
    omega
  constructor
  · refine ⟨_, mapM_of_isSome fun r hr ↦ ?_, rfl⟩
    obtain ⟨s, hs, -⟩ := hmirror r hr
    simp [hs]
  · refine traces_of_covers ?_ ?_ ?_
    all_goals
      intro r hr
      obtain ⟨s, hs, hlabel, hcovers⟩ := hmirror r hr
      simp only [hs, Option.toList_some]
    · exact List.pairwise_singleton _ _
    · simpa using hlabel
    · simpa using hcovers

end TaintRange

namespace TaintedValue

/-- `concat` models the concatenation of the two strings. -/
theorem Models.concat {left right : TaintedValue} {tl tr : List (Option Label)}
    (hl : left.Models tl) (hr : right.Models tr) :
    ∃ v, concat left tl.length right = some v ∧ v.Models (tl ++ tr) := by
  unfold TaintedValue.concat
  by_cases h : (!left.isTainted && !right.isTainted) = true
  · rw [if_pos h]
    simp only [Bool.and_eq_true, Bool.not_eq_true'] at h
    refine ⟨_, rfl, models_empty fun i ↦ ?_⟩
    rw [label_of_append]
    split
    · exact hl.label_of_eq_none h.1 i
    · exact hr.label_of_eq_none h.2 _
  · rw [if_neg h, TaintRange.mapM_shift _ (by omega)]
    refine ⟨_, rfl, ?_⟩
    have hself : Traces (fun r : TaintRange ↦ [r]) id some left.ranges := by
      refine traces_of_covers ?_ ?_ ?_
      · exact fun r _ ↦ List.pairwise_singleton _ _
      · simp
      · simp
    have hcombine := models_combine (tl ++ tr) hl hr hself
      (TaintRange.traces_shift tl.length (by omega)) ⟨by simp; omega, by simp; omega, by simp; omega⟩ ?_
    · simpa using hcombine
    · intro i
      rw [label_of_append]
      simp only [Option.bind_some]
      split
      · rw [label_of_outside tr (by omega), Option.or_none]
      · rw [label_of_outside tl (by omega), Option.none_or]

/-- `substring` models the part of the string it names. -/
theorem Models.substring {v : TaintedValue} {truth : List (Option Label)} (h : v.Models truth)
    {lower upper : Nat} (hlower : lower ≤ upper) (hupper : upper ≤ truth.length) :
    (v.substring lower upper).Models ((truth.drop lower).take (upper - lower)) := by
  have htruth : ∀ i, labelOf ((truth.drop lower).take (upper - lower)) i =
      (if 0 ≤ i ∧ i < (upper : Int) - lower then some (i + lower) else none).bind
        (labelOf truth) := by
    intro i
    rw [label_of_take, label_of_drop]
    split_ifs <;> first | rfl | omega
  unfold TaintedValue.substring
  split
  · next hnone =>
      refine models_empty fun i ↦ ?_
      rw [htruth i]
      rcases (by simpa using hnone : v.isTainted = false ∨ upper ≤ lower) with h' | h'
      · split
        · exact h.label_of_eq_none h' _
        · rfl
      · rw [if_neg (by omega)]
        rfl
  · rw [List.filterMap_eq_flatMap_toList]
    refine models_single h TaintRange.traces_clip ?_ htruth
    intro i j hj _ _
    simp only [Option.ite_none_right_eq_some] at hj
    simp only [List.length_take, List.length_drop]
    omega

/-- The truth about a string with another one spliced in, at the origins. -/
theorem label_of_splice {truth other : List (Option Label)} {lower upper : Nat}
    (hlower : lower ≤ truth.length) (i : Int) :
    labelOf (truth.take lower ++ other ++ truth.drop upper) i =
      ((TaintRange.spliceOrigin lower upper other.length i).bind (labelOf truth)).or
        (labelOf other (i - lower)) := by
  rw [label_of_append, label_of_append, label_of_take, label_of_drop, List.length_append,
    List.length_take, Nat.min_eq_left hlower, TaintRange.spliceOrigin]
  by_cases hhead : i < lower
  · rw [if_pos (by omega), if_pos hhead, if_pos hhead, if_pos hhead,
      label_of_outside other (by omega), Option.or_none, Option.bind_some]
  · rw [if_neg hhead, if_neg hhead]
    by_cases hmiddle : i < lower + other.length
    · rw [if_pos (by omega), if_pos hmiddle, Option.bind_none, Option.none_or]
    · rw [if_neg (by omega), if_neg hmiddle, if_pos (by omega),
        label_of_outside other (by omega), Option.or_none, Option.bind_some]
      congr 1
      omega

/-- Ranges that trace their value around a splice, with those of the other value moved into it,
normalize to a model of the spliced string. -/
theorem models_splice {v w : TaintedValue} {truth other : List (Option Label)}
    (h : v.Models truth) (hother : w.Models other) {lower upper : Nat}
    (hlower : lower ≤ truth.length) {f : TaintRange → List TaintRange}
    (hf : Traces f id (TaintRange.spliceOrigin lower upper other.length) v.ranges) :
    (normalize (v.ranges.flatMap f ++ w.ranges.flatMap fun r ↦ (r.shift lower).toList)
      (v.imprecise || w.imprecise)).Models (truth.take lower ++ other ++ truth.drop upper) := by
  refine models_combine _ h hother hf (TaintRange.traces_shift _ (by omega)) ?_
    fun i ↦ label_of_splice hlower i
  have horigin : ∀ i j, TaintRange.spliceOrigin lower upper other.length i = some j →
      (i < lower ∧ j = i) ∨ (lower + other.length ≤ i ∧ j = i - other.length + (upper - lower)) := by
    intro i j hj
    unfold TaintRange.spliceOrigin at hj
    split_ifs at hj <;> simp at hj <;> omega
  simp only [List.length_append, List.length_take, List.length_drop]
  constructor
  · intro i j k hj hk
    have := horigin i j hj
    have := Option.some.inj hk
    omega
  · intro i j hj
    have := horigin i j hj
    omega
  · intro i k hk
    have := Option.some.inj hk
    omega

/-- `insert` models the string with the other string inserted. -/
theorem Models.insert {v inserted : TaintedValue} {truth other : List (Option Label)}
    (h : v.Models truth) (hother : inserted.Models other) {offset : Nat}
    (hoffset : offset ≤ truth.length) :
    ∃ w, v.insert offset inserted other.length = some w ∧
      w.Models (truth.take offset ++ other ++ truth.drop offset) := by
  obtain ⟨⟨kept, hkept, hflatten⟩, htraces⟩ :=
    TaintRange.traces_pieces (l := v.ranges) fun r _ ↦
      TaintRange.keeps_insert_pieces offset other.length (by omega) (by omega) r
  refine ⟨_, by rw [TaintedValue.insert, hkept, TaintRange.mapM_shift _ (by omega)]; rfl, ?_⟩
  rw [hflatten]
  exact models_splice h hother hoffset htraces

/-- `replace` models the string with part of it replaced by the other string. -/
theorem Models.replace {v replacement : TaintedValue} {truth other : List (Option Label)}
    (h : v.Models truth) (hother : replacement.Models other) {lower upper : Nat}
    (hlower : lower ≤ truth.length) (hupper : lower ≤ upper) :
    ∃ w, v.replace lower upper replacement other.length = some w ∧
      w.Models (truth.take lower ++ other ++ truth.drop upper) := by
  rw [TaintedValue.replace, dif_neg (by omega)]
  split
  · next hnone =>
      simp only [Bool.and_eq_true, Bool.not_eq_true'] at hnone
      refine ⟨_, rfl, models_empty fun i ↦ ?_⟩
      rw [label_of_splice hlower, hother.label_of_eq_none hnone.2, Option.or_none]
      cases TaintRange.spliceOrigin lower upper other.length i with
      | none => rfl
      | some j => exact h.label_of_eq_none hnone.1 j
  · obtain ⟨⟨kept, hkept, hflatten⟩, htraces⟩ :=
      TaintRange.traces_pieces (l := v.ranges) fun r _ ↦
        TaintRange.keeps_replace_pieces lower upper other.length (by omega) (by omega) (by omega) r
    refine ⟨_, by rw [hkept, TaintRange.mapM_shift _ (by omega)]; rfl, ?_⟩
    rw [hflatten]
    exact models_splice h hother hlower htraces

/-- `reversed` models the reversed string. -/
theorem Models.reversed {v : TaintedValue} {truth : List (Option Label)} (h : v.Models truth) :
    (v.reversed truth.length).Models truth.reverse := by
  unfold TaintedValue.reversed
  split
  · next hnone =>
      refine models_empty fun i ↦ ?_
      rw [label_of_reverse]
      rcases (by simpa using hnone : v.isTainted = false ∨ truth = []) with h' | rfl
      · exact h.label_of_eq_none h' _
      · simp
  · obtain ⟨⟨mirrored, hmirrored, rfl⟩, htraces⟩ := TaintRange.traces_mirror h.canonical.within
    rw [hmirrored]
    refine models_single h htraces (fun i j hj _ _ ↦ ?_) fun i ↦ label_of_reverse truth i
    have := Option.some.inj hj
    rw [List.length_reverse]
    omega

/-- `sanitizedFor` models the string every tainted character of which is cleared for the rule. -/
theorem Models.sanitizedFor {v : TaintedValue} {truth : List (Option Label)} (h : v.Models truth)
    (rule : RuleClass) :
    (v.sanitizedFor rule).Models (truth.map (Option.map (·.clear rule))) := by
  unfold TaintedValue.sanitizedFor
  split
  · next hnone =>
      have hnone : v.isTainted = false := by simpa using hnone
      refine ⟨by simpa using h.canonical, fun i ↦ ?_⟩
      rw [label_of_map, h.label_of_eq_none hnone i]
      simpa [h.label_of_eq_none hnone i] using h.reads i
  · have htraces : Traces (fun r : TaintRange ↦ [r.clearFor rule]) (·.clear rule) some v.ranges :=
      traces_of_covers (fun r _ ↦ List.pairwise_singleton _ _)
        (by simp [TaintRange.label_clear_for]) (by simp [TaintRange.covers_clear_for])
    rw [List.map_eq_flatMap]
    have hwithin : Within truth.length (v.ranges.flatMap fun r ↦ [r.clearFor rule]) := by
      refine within_of_covers fun p hp i hi ↦ ?_
      obtain ⟨r, hr, hp⟩ := List.mem_flatMap.mp hp
      obtain rfl := List.mem_singleton.mp hp
      exact h.canonical.covers_inside hr ((TaintRange.covers_clear_for r rule i).mp hi)
    obtain ⟨hcanonical, hreads⟩ := normalize_models v.imprecise
      (fun i ↦ (labelOf truth i).map (·.clear rule))
      (disjoint_flat_map htraces h.canonical.spansDisjoint) hwithin fun i ↦ by
        rw [label_at_flat_map htraces]
        exact (h.reads i).clear rule
    refine ⟨by simpa using hcanonical, fun i ↦ ?_⟩
    rw [label_of_map]
    exact hreads i

/-- A value tainted end to end models the string every character of which came from the
source. -/
theorem models_fully_tainted (n : Nat) (source : SourceKind) (sourceName : Option JString) :
    (fullyTainted n source sourceName).Models
      (List.replicate n (some ⟨source, sourceName.getD [], ∅⟩)) := by
  unfold fullyTainted
  split
  · next h =>
      obtain rfl : n = 0 := by omega
      exact models_empty fun i ↦ by simp
  · refine ⟨canonical_singleton false (by simp), fun i ↦ ?_⟩
    rw [label_of_replicate, label_at_cons]
    by_cases h : 0 ≤ i ∧ i < n
    · rw [if_pos (by simpa [Covers] using h), if_pos h]
      exact .refl _ _
    · rw [if_neg (by simpa [Covers] using h), if_neg h]
      exact .refl _ _

/-- The set folded by `reshaped` is inside the cleared set of every range. -/
theorem cleared_subset_of_mem {l : List TaintRange} (cleared : Finset RuleClass) {r : TaintRange}
    (h : r ∈ l) :
    l.foldl (fun cleared range ↦ cleared ∩ range.clearedFor) cleared ⊆ r.clearedFor := by
  have hshrinks : ∀ (l : List TaintRange) (cleared : Finset RuleClass),
      l.foldl (fun cleared range ↦ cleared ∩ range.clearedFor) cleared ⊆ cleared := by
    intro l
    induction l with
    | nil => exact fun cleared ↦ subset_rfl
    | cons range l ih => exact fun cleared ↦ (ih _).trans Finset.inter_subset_left
  induction l generalizing cleared with
  | nil => simp at h
  | cons range l ih =>
      rcases List.mem_cons.mp h with rfl | h
      · exact (hshrinks l _).trans Finset.inter_subset_right
      · exact ih _ h

/-- The characters of `truth'` derive from those of `truth`: one of them is tainted only if some
character of `truth` is, and a rule it is dangerous for some character of `truth` is dangerous
for. -/
structure Derives (truth truth' : List (Option Label)) : Prop where
  tainted : ∀ i l, labelOf truth' i = some l → ∃ j m, labelOf truth j = some m
  dangerous : ∀ i l rule, labelOf truth' i = some l → rule ∉ l.clearedFor →
    ∃ j m, labelOf truth j = some m ∧ rule ∉ m.clearedFor

/-- One range over the whole value, cleared for nothing a tainted character is not cleared for,
models it imprecisely. -/
theorem models_covering {truth : List (Option Label)} (r : TaintRange) (hstart : r.start = 0)
    (hlength : r.length = truth.length)
    (hcleared : ∀ i l, labelOf truth i = some l → r.clearedFor ⊆ l.clearedFor) :
    (normalize [r] true).Models truth := by
  obtain ⟨hcanonical, hreads⟩ := normalize_models (n := truth.length) true (labelOf truth)
    (List.pairwise_singleton _ r) (by simp [Within, hstart, hlength]) fun i l hl ↦ by
      have hi : 0 ≤ i ∧ i < truth.length := by
        by_contra hout
        rw [label_of_outside truth (by omega)] at hl
        simp at hl
      rw [label_at_cons, if_pos (by simpa [Covers, hstart, hlength] using hi)]
      exact ⟨_, rfl, hcleared i l hl⟩
  exact ⟨hcanonical, hreads⟩

/-- `reshaped` models every string whose characters derive from those of its operand. -/
theorem Models.reshaped {v : TaintedValue} {truth truth' : List (Option Label)}
    (h : v.Models truth) (hderives : Derives truth truth') :
    (v.reshaped truth'.length).Models truth' := by
  unfold TaintedValue.reshaped
  cases hranges : v.ranges with
  | nil =>
      refine models_empty fun i ↦ ?_
      by_contra hi
      obtain ⟨l, hl⟩ := Option.ne_none_iff_exists'.mp hi
      obtain ⟨j, m, hm⟩ := hderives.tainted i l hl
      rw [h.label_of_eq_none (by simp [isTainted, hranges]) j] at hm
      simp at hm
  | cons first rest =>
      dsimp only
      split
      · next hempty =>
          obtain rfl : truth' = [] := List.length_eq_zero_iff.mp (by omega)
          exact models_empty label_of_nil
      · refine models_covering _ rfl rfl fun i l hl rule hrule ↦ ?_
        -- a rule cleared over every range is cleared on every character it derives from
        by_contra hdanger
        obtain ⟨j, m, hm, hnot⟩ := hderives.dangerous i l rule hl hdanger
        obtain ⟨read, hread, hsub⟩ := (h.reads j).exists_read hm
        obtain ⟨r, hr, -, rfl⟩ := exists_of_label_at hread
        rw [hranges] at hr
        exact hnot (hsub (cleared_subset_of_mem _ hr hrule))

end TaintedValue

end Aegis.Agent
