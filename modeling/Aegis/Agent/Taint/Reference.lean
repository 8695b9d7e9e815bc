import Aegis.Agent.Taint.Canonical

/-!
# The per-character reference

The truth about a string is one label, or none, for each of its characters. `Models` says that a
tainted value is in canonical form and approximates that truth. Every propagator preserves it:
the ranges it builds trace the ranges it was given (`Traces`), the truth of its result is the
truth of its operands at the same origins, and `normalize_models` does the rest. `Expr` closes
the propagators under composition.
-/

namespace Aegis.Agent

open Spans

/-- What is true of the character at a position, if there is one. -/
def labelOf (truth : List (Option Label)) (i : Int) : Option Label :=
  if 0 ≤ i then (truth[i.toNat]?).join else none

theorem label_of_outside (truth : List (Option Label)) {i : Int}
    (h : i < 0 ∨ (truth.length : Int) ≤ i) : labelOf truth i = none := by
  unfold labelOf
  split
  · rw [List.getElem?_eq_none (by omega)]
    rfl
  · rfl

theorem label_of_natCast (truth : List (Option Label)) (i : Nat) :
    labelOf truth i = (truth[i]?).join := by
  simp [labelOf]

@[simp] theorem label_of_nil (i : Int) : labelOf [] i = none := by
  simp [labelOf]

theorem label_of_append (left right : List (Option Label)) (i : Int) :
    labelOf (left ++ right) i =
      if i < left.length then labelOf left i else labelOf right (i - left.length) := by
  by_cases hneg : i < 0
  · rw [label_of_outside _ (.inl hneg), label_of_outside _ (.inl hneg), if_pos (by omega)]
  · obtain ⟨n, rfl⟩ := Int.eq_ofNat_of_zero_le (Int.not_lt.mp hneg)
    rw [label_of_natCast, label_of_natCast, List.getElem?_append]
    split
    · rw [if_pos (by omega)]
    · rw [if_neg (by omega), ← label_of_natCast]
      congr 1
      omega

theorem label_of_take (truth : List (Option Label)) (n : Nat) (i : Int) :
    labelOf (truth.take n) i = if i < n then labelOf truth i else none := by
  unfold labelOf
  split
  · rw [List.getElem?_take]
    split
    · rw [if_pos (by omega)]
    · rw [if_neg (by omega)]
      rfl
  · simp

theorem label_of_drop (truth : List (Option Label)) (n : Nat) (i : Int) :
    labelOf (truth.drop n) i = if 0 ≤ i then labelOf truth (i + n) else none := by
  unfold labelOf
  split
  · rw [if_pos (by omega), List.getElem?_drop]
    congr 2
    omega
  · rfl

theorem label_of_reverse (truth : List (Option Label)) (i : Int) :
    labelOf truth.reverse i = labelOf truth (truth.length - 1 - i) := by
  by_cases h : 0 ≤ i ∧ i < truth.length
  · unfold labelOf
    rw [if_pos h.1, if_pos (by omega), List.getElem?_reverse (by omega)]
    congr 2
    omega
  · rw [label_of_outside _ (by rw [List.length_reverse]; omega), label_of_outside _ (by omega)]

theorem label_of_map (g : Label → Label) (truth : List (Option Label)) (i : Int) :
    labelOf (truth.map (Option.map g)) i = (labelOf truth i).map g := by
  unfold labelOf
  split
  · rw [List.getElem?_map]
    cases truth[i.toNat]? <;> rfl
  · rfl

theorem label_of_replicate (n : Nat) (l : Label) (i : Int) :
    labelOf (List.replicate n (some l)) i = if 0 ≤ i ∧ i < n then some l else none := by
  by_cases h : 0 ≤ i ∧ i < n
  · rw [labelOf, if_pos h.1, if_pos h, List.getElem?_replicate, if_pos (by omega)]
    rfl
  · rw [if_neg h, label_of_outside _ (by rw [List.length_replicate]; omega)]

namespace TaintedValue

/-- The value is in canonical form and approximates the truth about a string. -/
structure Models (v : TaintedValue) (truth : List (Option Label)) : Prop where
  canonical : v.Canonical truth.length
  reads : ∀ i, Approximates v.imprecise (labelAt v.ranges i) (labelOf truth i)

/-- A value without ranges models nothing tainted. -/
theorem Models.label_of_eq_none {v : TaintedValue} {truth : List (Option Label)}
    (h : v.Models truth) (huntainted : v.isTainted = false) (i : Int) :
    labelOf truth i = none := by
  have hnil : v.ranges = [] := by simpa [isTainted] using huntainted
  have hread := h.reads i
  rw [hnil] at hread
  exact hread.truth_none

/-- The untainted value models a string no character of which is tainted. -/
theorem models_empty {truth : List (Option Label)} (h : ∀ i, labelOf truth i = none) :
    empty.Models truth where
  canonical := canonical_nil _ _
  reads i := by
    rw [h i]
    exact approximates_none _

/-- An origin outside the string reads nothing and nothing is true there. -/
theorem Models.bind_outside {v : TaintedValue} {truth : List (Option Label)}
    (h : v.Models truth) {origin : Option Int}
    (hout : ∀ j, origin = some j → ¬ (0 ≤ j ∧ j < truth.length)) :
    origin.bind (labelAt v.ranges) = none ∧ origin.bind (labelOf truth) = none := by
  cases origin with
  | none => simp
  | some j =>
      have hj : j < 0 ∨ (truth.length : Int) ≤ j := by
        have := hout j rfl
        omega
      exact ⟨label_at_outside h.canonical.within hj, label_of_outside truth hj⟩

/-- Where the positions of a combined string come from: position `i` comes from `origin i` of the
first operand or from `origin' i` of the second, never from both. -/
structure Origins (first second result : Nat) (origin origin' : Int → Option Int) : Prop where
  exclusive : ∀ i j k, origin i = some j → origin' i = some k →
    0 ≤ j → j < first → 0 ≤ k → k < second → False
  inside : ∀ i j, origin i = some j → 0 ≤ j → j < first → 0 ≤ i ∧ i < result
  inside' : ∀ i k, origin' i = some k → 0 ≤ k → k < second → 0 ≤ i ∧ i < result

/-- Ranges that trace the ranges of two operands normalize to a model of the truth at the
origins. -/
theorem models_combine {a b : TaintedValue} {ta tb : List (Option Label)}
    (truth : List (Option Label)) (ha : a.Models ta) (hb : b.Models tb)
    {f g : TaintRange → List TaintRange} {origin origin' : Int → Option Int}
    (hf : Traces f id origin a.ranges) (hg : Traces g id origin' b.ranges)
    (ho : Origins ta.length tb.length truth.length origin origin')
    (htruth : ∀ i, labelOf truth i =
      ((origin i).bind (labelOf ta)).or ((origin' i).bind (labelOf tb))) :
    (normalize (a.ranges.flatMap f ++ b.ranges.flatMap g)
      (a.imprecise || b.imprecise)).Models truth := by
  have hfirst : ∀ p ∈ a.ranges.flatMap f, ∀ i, Covers p i →
      ∃ j, origin i = some j ∧ 0 ≤ j ∧ j < ta.length := by
    intro p hp i hi
    obtain ⟨r, hr, hp⟩ := List.mem_flatMap.mp hp
    obtain ⟨j, hj, hcovers⟩ := hf.covers_origin hr hp hi
    exact ⟨j, hj, ha.canonical.covers_inside hr hcovers⟩
  have hsecond : ∀ p ∈ b.ranges.flatMap g, ∀ i, Covers p i →
      ∃ k, origin' i = some k ∧ 0 ≤ k ∧ k < tb.length := by
    intro p hp i hi
    obtain ⟨r, hr, hp⟩ := List.mem_flatMap.mp hp
    obtain ⟨k, hk, hcovers⟩ := hg.covers_origin hr hp hi
    exact ⟨k, hk, hb.canonical.covers_inside hr hcovers⟩
  have hdisjoint : Disjoint (a.ranges.flatMap f ++ b.ranges.flatMap g) := by
    refine disjoint_append (disjoint_flat_map hf ha.canonical.spansDisjoint)
      (disjoint_flat_map hg hb.canonical.spansDisjoint) ?_
    intro p hp q hq i hpi hqi
    obtain ⟨j, hj, hj0, hjn⟩ := hfirst p hp i hpi
    obtain ⟨k, hk, hk0, hkn⟩ := hsecond q hq i hqi
    exact ho.exclusive i j k hj hk hj0 hjn hk0 hkn
  have hwithin : Within truth.length (a.ranges.flatMap f ++ b.ranges.flatMap g) := by
    refine within_of_covers fun p hp i hi ↦ ?_
    rcases List.mem_append.mp hp with hp | hp
    · obtain ⟨j, hj, hj0, hjn⟩ := hfirst p hp i hi
      exact ho.inside i j hj hj0 hjn
    · obtain ⟨k, hk, hk0, hkn⟩ := hsecond p hp i hi
      exact ho.inside' i k hk hk0 hkn
  have hreads : ∀ i, Approximates (a.imprecise || b.imprecise)
      (labelAt (a.ranges.flatMap f ++ b.ranges.flatMap g) i) (labelOf truth i) := by
    intro i
    rw [label_at_append, label_at_flat_map hf, label_at_flat_map hg, htruth, Option.map_id]
    have hra := (Approximates.bind ha.reads (origin i)).weaken b.imprecise
    have hrb := (Approximates.bind hb.reads (origin' i)).weaken a.imprecise
    rw [Bool.or_comm] at hrb
    refine hra.or hrb ?_
    by_cases hin : ∃ j, origin i = some j ∧ 0 ≤ j ∧ j < ta.length
    · obtain ⟨j, hj, hj0, hjn⟩ := hin
      refine .inr (hb.bind_outside fun k hk hinside ↦ ?_)
      exact ho.exclusive i j k hj hk hj0 hjn hinside.1 hinside.2
    · exact .inl (ha.bind_outside fun j hj hinside ↦ hin ⟨j, hj, hinside⟩)
  obtain ⟨hcanonical, hresult⟩ := normalize_models _ (labelOf truth) hdisjoint hwithin hreads
  exact ⟨hcanonical, hresult⟩

/-- Ranges that trace the ranges of one operand normalize to a model of the truth at the
origins. -/
theorem models_single {a : TaintedValue} {ta truth : List (Option Label)} (ha : a.Models ta)
    {f : TaintRange → List TaintRange} {origin : Int → Option Int}
    (hf : Traces f id origin a.ranges)
    (hinside : ∀ i j, origin i = some j → 0 ≤ j → j < ta.length → 0 ≤ i ∧ i < truth.length)
    (htruth : ∀ i, labelOf truth i = (origin i).bind (labelOf ta)) :
    (normalize (a.ranges.flatMap f) a.imprecise).Models truth := by
  have hempty : empty.Models [] := models_empty label_of_nil
  have hnone : Traces (fun _ : TaintRange ↦ ([] : List TaintRange)) id (fun _ ↦ none)
      empty.ranges := by
    simp [Traces, empty]
  have hcombine := models_combine truth ha hempty hf hnone ⟨by simp, hinside, by simp⟩
    (by simpa using htruth)
  simpa [empty] using hcombine

end TaintedValue

end Aegis.Agent
