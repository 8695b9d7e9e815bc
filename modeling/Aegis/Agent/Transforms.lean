import Mathlib.Data.List.DropRight
import Aegis.Agent.AtWork
import Aegis.Agent.Recipes
import Aegis.Agent.Taint.Danger

/-!
# Instrumented string transforms

What the hooks of the instrumented `String` methods record, for any result the methods can have. A
result is given with the source characters each of its characters is a copy or an expansion of.
`substring`, `split` and the decoders place the taint by the result. The methods that are taken to
preserve lengths, and the sanitizers, hand on the offsets of the source, so what they record is
right just when the source was dangerous at those offsets already (`transform_right_iff`).
-/

namespace Aegis.Agent

open Spans TaintedValue AgentRuntime

/-! ## Transforms -/

/-- A string that a transform made of a source string. For every character it lists the positions
in the source of the characters it is a copy or an expansion of. -/
structure Rewritten where
  ref : StringRef
  origins : List (List Nat)
  length_eq : origins.length = ref.value.length

/-- A substring copies one character after the other. -/
def Rewritten.slice (ref : StringRef) (lower : Nat) : Rewritten where
  ref := ref
  origins := (List.range ref.value.length).map fun i ↦ [lower + i]
  length_eq := by simp

/-- The instrumented methods, by the advice they have, with their results. `preserving` stands for
`toLowerCase`, `toUpperCase`, `trim`, `strip` and `intern`. -/
inductive Transform where
  | preserving (result : Rewritten)
  | substring (lower : Nat) (ref : StringRef)
  | split (pieces : List Rewritten)
  | urlDecode (result : Rewritten)
  | urlEncode (result : Rewritten)
  | htmlEscape (result : Rewritten)
  | queryEncode (result : Rewritten)

namespace Transform

/-- The strings the method returns. -/
def results : Transform → List Rewritten
  | preserving result | urlDecode result | urlEncode result | htmlEscape result
  | queryEncode result => [result]
  | substring lower ref => [.slice ref lower]
  | split pieces => pieces

/-- The rules the method is registered as a sanitizer for. -/
def sanitizes : Transform → List RuleClass
  | urlEncode _ => [.OPEN_REDIRECT, .HEADER_INJECTION, .SSRF]
  | htmlEscape _ => [.REFLECTED_XSS]
  | queryEncode _ => [.LDAP_INJECTION, .XPATH_INJECTION]
  | _ => []

/-- The advice of the method. -/
def exit (source : StringRef) : Transform → Call PUnit
  | preserving result => onPreservingTransform (some result.ref) (some (.string source))
  | substring lower ref =>
      onSubstring (some ref) (some (.string source)) lower (lower + ref.value.length)
  | split pieces =>
      onSplit (some (pieces.map fun piece ↦ some (.string piece.ref))) (some (.string source))
  | urlDecode result => onReshapingTransform (some result.ref) (some (.string source))
  | urlEncode result => onUrlEncoded (some result.ref) (some (.string source))
  | htmlEscape result => onHtmlEscaped (some result.ref) (some (.string source))
  | queryEncode result => onQueryEncoded (some result.ref) (some (.string source))

end Transform

/-! ## What is right -/

/-- What is recorded of a result is right: it lies in the result, and every copy or expansion of a
character of the source that is dangerous for a rule, which the transform does not sanitize, is
dangerous for it. -/
structure Right (source recorded : TaintedValue) (origins : List (List Nat))
    (sanitized : List RuleClass) : Prop where
  within : ∀ r ∈ recorded.ranges, 0 ≤ r.start ∧ r.endExclusive ≤ origins.length
  dangerous : ∀ i (h : i < origins.length), ∀ j ∈ origins[i], ∀ rule ∉ sanitized,
    source.isDangerousAt j rule → recorded.isDangerousAt i rule

/-- The offsets of the source fit the result: none lies past it, and where a dangerous character has
come to stand the source was dangerous too. -/
structure Fits (source : TaintedValue) (origins : List (List Nat)) (sanitized : List RuleClass) :
    Prop where
  within : ∀ r ∈ source.ranges, r.endExclusive ≤ origins.length
  stays : ∀ i (h : i < origins.length), ∀ j ∈ origins[i], ∀ rule ∉ sanitized,
    source.isDangerousAt j rule → source.isDangerousAt i rule

/-- Only the ranges count. -/
theorem right_congr {source recorded recorded' : TaintedValue} {origins : List (List Nat)}
    {sanitized : List RuleClass} (h : recorded.ranges = recorded'.ranges) :
    Right source recorded origins sanitized ↔ Right source recorded' origins sanitized := by
  have hdangerous : ∀ i rule, recorded.isDangerousAt i rule = recorded'.isDangerousAt i rule := by
    intro i rule
    rw [isDangerousAt, isDangerousAt, isDangerousIn, isDangerousIn, h]
  constructor
  · rintro ⟨hwithin, hright⟩
    exact ⟨h ▸ hwithin, fun i hi j hj rule hrule hsource ↦
      (hdangerous i rule).symm.trans (hright i hi j hj rule hrule hsource)⟩
  · rintro ⟨hwithin, hright⟩
    exact ⟨h ▸ hwithin, fun i hi j hj rule hrule hsource ↦
      (hdangerous i rule).trans (hright i hi j hj rule hrule hsource)⟩

/-! ## Danger at a character -/

namespace TaintedValue

/-- Canonical form does not mind more room. -/
theorem Canonical.mono {v : TaintedValue} {n m : Int} (h : v.Canonical n) (hle : n ≤ m) :
    v.Canonical m where
  nonempty := h.nonempty
  sorted := h.sorted
  disjoint := h.disjoint
  within r hr := ⟨(h.within r hr).1, (h.within r hr).2.trans hle⟩
  separated := h.separated
  bounded := h.bounded

/-- A value lies in `n` characters when it reads nothing after them. -/
theorem Canonical.within_iff {v : TaintedValue} {m : Int} (h : v.Canonical m) (n : Nat) :
    (∀ r ∈ v.ranges, r.endExclusive ≤ (n : Int)) ↔
      ∀ i : Int, n ≤ i → labelAt v.ranges i = none := by
  constructor
  · intro hwithin i hi
    by_contra hsome
    obtain ⟨l, hl⟩ := Option.ne_none_iff_exists'.mp hsome
    obtain ⟨r, hr, hcovers, -⟩ := exists_of_label_at hl
    have hend := hwithin r hr
    simp only [Covers, TaintRange.hi_eq, TaintRange.end_exclusive_eq] at hcovers hend
    omega
  · intro hnone r hr
    by_contra hend
    have hpositive := r.length_pos
    have hcovers : Covers r (r.endExclusive - 1) := by
      simp only [Covers, TaintRange.lo_eq, TaintRange.hi_eq, TaintRange.end_exclusive_eq]
      omega
    have hread := label_at_of_covers h.spansDisjoint hr hcovers
    rw [hnone _ (by omega)] at hread
    cases hread

/-- Normalizing disjoint ranges that are few enough changes no label. -/
theorem label_at_normalize {input : List TaintRange} {n : Int} (imprecise : Bool)
    (hdisjoint : Disjoint input) (hwithin : Within n input) (hfew : input.length ≤ MAX_RANGES)
    (i : Int) : labelAt (normalize input imprecise).ranges i = labelAt input i := by
  have hread := (normalize_models false (labelAt input) hdisjoint hwithin
    fun i ↦ .refl false (labelAt input i)).2 i
  rw [(normalize_of_few false hfew).1] at hread
  -- the ranges do not depend on what is said of their precision, unless they are collapsed
  have hsame : (normalize input imprecise).ranges = (normalize input false).ranges := by
    unfold normalize
    split
    · rfl
    · dsimp only
      split <;> rfl
  rw [hsame]
  exact hread

/-- Clearing a value for a rule clears what is read of each character, and leaves a value in
canonical form. -/
theorem Canonical.sanitizedFor {v : TaintedValue} {n : Int} (h : v.Canonical n)
    (rule : RuleClass) : (v.sanitizedFor rule).Canonical n ∧ ∀ i,
      labelAt (v.sanitizedFor rule).ranges i = (labelAt v.ranges i).map (·.clear rule) := by
  unfold TaintedValue.sanitizedFor
  split
  · next hnone =>
      have hranges : v.ranges = [] := by simpa [isTainted] using hnone
      exact ⟨h, fun i ↦ by rw [hranges]; rfl⟩
  · have htraces : Traces (fun r : TaintRange ↦ [r.clearFor rule]) (·.clear rule) some v.ranges :=
      traces_of_covers (fun r _ ↦ List.pairwise_singleton _ _)
        (by simp [TaintRange.label_clear_for]) (by simp [TaintRange.covers_clear_for])
    rw [List.map_eq_flatMap]
    have hwithin : Within n (v.ranges.flatMap fun r ↦ [r.clearFor rule]) := by
      refine within_of_covers fun p hp i hi ↦ ?_
      obtain ⟨r, hr, hp⟩ := List.mem_flatMap.mp hp
      obtain rfl := List.mem_singleton.mp hp
      exact h.covers_inside hr ((TaintRange.covers_clear_for r rule i).mp hi)
    have hdisjoint := disjoint_flat_map htraces h.spansDisjoint
    refine ⟨(normalize_models v.imprecise _ hdisjoint hwithin fun i ↦ .refl _ _).1, fun i ↦ ?_⟩
    rw [label_at_normalize _ hdisjoint hwithin (by simpa using h.bounded),
      label_at_flat_map htraces]
    rfl

/-- Clearing a value for several rules, one after the other. -/
theorem Canonical.sanitized {v : TaintedValue} {n : Int} (h : v.Canonical n)
    (rules : List RuleClass) : (rules.foldl TaintedValue.sanitizedFor v).Canonical n ∧ ∀ i,
      labelAt (rules.foldl TaintedValue.sanitizedFor v).ranges i =
        (labelAt v.ranges i).map fun l ↦ rules.foldl Label.clear l := by
  induction rules generalizing v with
  | nil => exact ⟨h, fun i ↦ by simp⟩
  | cons rule rules ih =>
      obtain ⟨hcanonical, hlabel⟩ := h.sanitizedFor rule
      obtain ⟨hlast, hlabels⟩ := ih hcanonical
      refine ⟨hlast, fun i ↦ ?_⟩
      rw [List.foldl_cons, hlabels i, hlabel i, Option.map_map]
      rfl

/-- Clearing rules leaves a label dangerous for every other rule. -/
theorem mem_cleared_foldl {rules : List RuleClass} {rule : RuleClass} (h : rule ∉ rules)
    (l : Label) : rule ∈ (rules.foldl Label.clear l).clearedFor ↔ rule ∈ l.clearedFor := by
  induction rules generalizing l with
  | nil => exact Iff.rfl
  | cons first rules ih =>
      rw [List.mem_cons, not_or] at h
      rw [List.foldl_cons, ih h.2]
      simp [Label.clear, h.1]

/-- A sanitized value is as dangerous as before for the rules it is not sanitized for, and ends where
it did. -/
theorem Canonical.sanitized_dangerous {v : TaintedValue} {n : Int} (h : v.Canonical n)
    (rules : List RuleClass) :
    (∀ i rule, rule ∉ rules →
      (rules.foldl TaintedValue.sanitizedFor v).isDangerousAt i rule = v.isDangerousAt i rule) ∧
    ∀ m : Nat, (∀ r ∈ (rules.foldl TaintedValue.sanitizedFor v).ranges,
      r.endExclusive ≤ (m : Int)) ↔ ∀ r ∈ v.ranges, r.endExclusive ≤ (m : Int) := by
  obtain ⟨hcanonical, hlabel⟩ := h.sanitized rules
  constructor
  · intro i rule hrule
    rw [Bool.eq_iff_iff, hcanonical.is_dangerous_at_iff, h.is_dangerous_at_iff, hlabel]
    constructor
    · rintro ⟨m, hm, hnot⟩
      obtain ⟨l, hl, rfl⟩ := Option.map_eq_some_iff.mp hm
      exact ⟨l, hl, fun hmem ↦ hnot ((mem_cleared_foldl hrule l).mpr hmem)⟩
    · rintro ⟨l, hl, hnot⟩
      exact ⟨_, by rw [hl]; rfl, fun hmem ↦ hnot ((mem_cleared_foldl hrule l).mp hmem)⟩
  · intro m
    rw [hcanonical.within_iff, h.within_iff]
    refine forall₂_congr fun i _ ↦ ?_
    rw [hlabel, Option.map_eq_none_iff]

end TaintedValue

/-! ## Values that fit the result -/

section Values

variable {v : TaintedValue}

/-- A reshaped value is right for whatever derives from its source. -/
theorem right_reshaped (hv : v.isTainted = true) (origins : List (List Nat)) :
    Right v (v.reshaped origins.length) origins [] := by
  rcases Nat.eq_zero_or_pos origins.length with hzero | hpositive
  · have hempty : (v.reshaped origins.length).ranges = [] := by
      rw [hzero]
      unfold TaintedValue.reshaped
      cases v.ranges <;> rfl
    constructor
    · rw [hempty]
      exact fun _ h ↦ nomatch h
    · intro i hi
      omega
  · obtain ⟨r, hr, hstart, hlength, hcleared⟩ := reshaped_ranges hv hpositive
    constructor
    · rw [hr, List.forall_mem_singleton, TaintRange.end_exclusive_eq]
      omega
    · intro i hi j _ rule _ hsource
      obtain ⟨s, hs, -, hrule⟩ := TaintedValue.is_dangerous_at_iff.mp hsource
      refine TaintedValue.is_dangerous_at_iff.mpr ⟨r, by rw [hr]; exact List.mem_singleton_self r, ?_,
        fun hmem ↦ hrule (hcleared s hs hmem)⟩
      simp only [Covers, TaintRange.lo_eq, TaintRange.hi_eq]
      omega

/-- The clipped ranges of a value are right for a substring. -/
theorem right_substring {m : Int} (hcanonical : v.Canonical m) (ref : StringRef) (lower : Nat) :
    Right v (v.substring lower (lower + ref.value.length)) (Rewritten.slice ref lower).origins
      [] := by
  have hlength : (Rewritten.slice ref lower).origins.length = ref.value.length :=
    (Rewritten.slice ref lower).length_eq
  obtain ⟨k, hk, hm⟩ : ∃ k : Nat, lower + ref.value.length ≤ k ∧ m ≤ k :=
    ⟨max (lower + ref.value.length) m.toNat, le_max_left _ _, by omega⟩
  have hmodels := (hcanonical.mono hm).models_reading.substring
    (Nat.le_add_right lower ref.value.length) (by rwa [length_reading])
  rw [Nat.cast_add] at hmodels
  have htruth : (((v.reading k).drop lower).take (lower + ref.value.length - lower)).length =
      ref.value.length := by
    rw [List.length_take, List.length_drop, length_reading]
    omega
  constructor
  · intro r hr
    have hwithin := hmodels.canonical.within r hr
    rwa [htruth, ← hlength] at hwithin
  · intro i hi j hj rule _ hsource
    rw [hlength] at hi
    have hj : j = lower + i := by simpa [Rewritten.slice] using hj
    subst hj
    obtain ⟨l, hl, hrule⟩ := hcanonical.is_dangerous_at_iff.mp hsource
    have hlabel : labelOf (((v.reading k).drop lower).take (lower + ref.value.length - lower)) i =
        some l := by
      rw [label_of_take, if_pos (by omega), label_of_drop, if_pos (by omega),
        show (i : Int) + lower = ((lower + i : Nat) : Int) by omega, label_of_natCast, reading,
        List.getElem?_map, List.getElem?_range (by omega)]
      exact congrArg Option.join (congrArg some hl)
    obtain ⟨read, hread, hsub⟩ := (hmodels.reads i).exists_read hlabel
    exact hmodels.canonical.is_dangerous_at_iff.mpr ⟨read, hread, fun hmem ↦ hrule (hsub hmem)⟩

/-- A value with the offsets of the source is right just when they fit the result. -/
theorem right_sanitized_iff {m : Int} (hcanonical : v.Canonical m) (rules : List RuleClass)
    (origins : List (List Nat)) :
    Right v (rules.foldl TaintedValue.sanitizedFor v) origins rules ↔ Fits v origins rules := by
  obtain ⟨hdangerous, hwithin⟩ := hcanonical.sanitized_dangerous rules
  constructor
  · rintro ⟨hin, hright⟩
    refine ⟨(hwithin _).mp fun r hr ↦ (hin r hr).2, fun i hi j hj rule hrule hsource ↦ ?_⟩
    exact (hdangerous i rule hrule).symm.trans (hright i hi j hj rule hrule hsource)
  · rintro ⟨hin, hstays⟩
    refine ⟨fun r hr ↦ ⟨r.start_nonneg, (hwithin _).mpr hin r hr⟩,
      fun i hi j hj rule hrule hsource ↦ ?_⟩
    exact (hdangerous i rule hrule).trans (hstays i hi j hj rule hrule hsource)

end Values

/-! ## What the hooks record -/

section Hooks

variable {p : Process} {id : Nat} {source : StringRef}

/-- A table that holds a tainted object is not empty. -/
theorem isEmpty_of_tainted {t : TaintTracker} {object : Option Nat}
    (h : (t.taintOf object).isTainted = true) : t.isEmpty = false := by
  by_contra hempty
  rw [Bool.not_eq_false] at hempty
  rw [TaintTracker.taintOf_of_isEmpty hempty] at h
  cases h

/-- A propagator at work on a tainted source does with its taint what it is given to do. -/
theorem Working.propagates (hw : Working p id) {o : Obj} {f : Nat → TaintedValue → Body PUnit}
    {h : Heap} (htainted : ((p.table id).taintOf (some o.id)).isTainted = true)
    (hf : Prog.Runs (f id ((p.table id).taintOf (some o.id))) p.heap .unit h) :
    Prog.Runs (propagateTaint (some o) (some id) f) p.heap .unit h := by
  have hsome := isEmpty_of_tainted htainted
  refine Prog.runs_bind (runs_sampled_context hw.sampled) (Prog.runs_bind (runs_fetch _ _) ?_)
  show Prog.Runs (ite ((p.table id).isEmpty = true) (pure .unit) _ : Body PUnit) _ _ _
  rw [hsome, if_neg Bool.false_ne_true]
  show Prog.Runs (ite (((p.table id).taintOf (some o.id)).isTainted = true) _ _ : Body PUnit) _ _ _
  rwa [if_pos htainted]

/-- On an untainted source it does nothing. -/
theorem Working.propagates_nothing (hw : Working p id) {o : Obj}
    (f : Nat → TaintedValue → Body PUnit)
    (huntainted : ((p.table id).taintOf (some o.id)).isTainted = false) :
    Prog.Runs (propagateTaint (some o) (some id) f) p.heap .unit p.heap := by
  refine Prog.runs_bind (runs_sampled_context hw.sampled) (Prog.runs_bind (runs_fetch _ _) ?_)
  show Prog.Runs (ite ((p.table id).isEmpty = true) (pure .unit) _ : Body PUnit) _ _ _
  by_cases hempty : (p.table id).isEmpty = true
  · rw [if_pos hempty]
    rfl
  · rw [if_neg hempty]
    show Prog.Runs (ite (((p.table id).taintOf (some o.id)).isTainted = true) _ _ : Body PUnit)
      _ _ _
    rw [huntainted, if_neg Bool.false_ne_true]
    rfl

/-- So does a sanitizer. -/
theorem runs_sanitizes {f : Nat → TaintedValue → Body PUnit} {h : Heap}
    (htainted : ((p.table id).taintOf (some source.id)).isTainted = true)
    (hf : Prog.Runs (f id ((p.table id).taintOf (some source.id))) p.heap .unit h) :
    Prog.Runs (sanitizeBody (some (.string source)) (some id) f) p.heap .unit h := by
  have hsome := isEmpty_of_tainted htainted
  refine Prog.runs_bind (runs_fetch _ _) ?_
  show Prog.Runs (ite ((p.table id).isEmpty = true) (pure .unit) _ : Body PUnit) _ _ _
  rw [hsome, if_neg Bool.false_ne_true]
  show Prog.Runs (ite (((p.table id).taintOf (some source.id)).isTainted = true) _ _ : Body PUnit)
    _ _ _
  rwa [if_pos htainted]

/-- What a transform that returns one string records for it. -/
def Transform.recorded (v : TaintedValue) : Transform → TaintedValue
  | preserving _ => v
  | substring lower ref => v.substring lower (lower + ref.value.length)
  | urlDecode result => v.reshaped result.ref.value.length
  | urlEncode result => (urlEncode result).sanitizes.foldl TaintedValue.sanitizedFor v
  | htmlEscape result => (htmlEscape result).sanitizes.foldl TaintedValue.sanitizedFor v
  | queryEncode result => (queryEncode result).sanitizes.foldl TaintedValue.sanitizedFor v
  | split _ => .empty

/-- A transform that returns one string tracks it. -/
theorem Working.exit_one (hw : Working p id)
    (htainted : ((p.table id).taintOf (some source.id)).isTainted = true) {transform : Transform}
    {result : Rewritten} (hone : transform.results = [result])
    (hsplit : ∀ pieces, transform ≠ .split pieces) :
    Prog.Runs (transform.exit source) p .unit
      (p.recording id result.ref.id
        (transform.recorded ((p.table id).taintOf (some source.id)))) := by
  have htracks : ∀ f : TaintedValue → TaintedValue,
      Prog.Runs (track id result.ref.id (f ((p.table id).taintOf (some source.id)))) p.heap .unit
        (p.heap.recording id result.ref.id (f ((p.table id).taintOf (some source.id)))) :=
    fun f ↦ runs_change _ _
  have hpropagates := fun f ↦
    hw.propagates (o := .string source) (f := fun id taint ↦ track id result.ref.id (f taint))
      htainted (htracks f)
  have hsanitizes := fun f ↦
    runs_sanitizes (f := fun id taint ↦ track id result.ref.id (f taint)) htainted (htracks f)
  cases transform with
  | preserving result' =>
      obtain rfl := List.singleton_inj.mp hone
      show Prog.Runs (lateCheckedHook (fun _ ↦ true) PUnit.unit fun context ↦
        propagateTaint (some (.string source)) context fun id taint ↦
          track id result'.ref.id taint.preservingTransform) p .unit _
      exact hw.late_checked_hook rfl (hpropagates TaintedValue.preservingTransform)
  | substring lower ref =>
      obtain rfl := List.singleton_inj.mp hone
      show Prog.Runs (lateCheckedHook (fun _ ↦ true) PUnit.unit fun context ↦
        propagateTaint (some (.string source)) context fun id taint ↦
          track id ref.id (taint.substring lower (lower + ref.value.length))) p .unit _
      exact hw.late_checked_hook rfl
        (hpropagates fun taint ↦ taint.substring lower (lower + ref.value.length))
  | split pieces => exact absurd rfl (hsplit pieces)
  | urlDecode result' =>
      obtain rfl := List.singleton_inj.mp hone
      exact hw.guarded_hook (hpropagates fun taint ↦ taint.reshaped result'.ref.value.length)
  | urlEncode result' =>
      obtain rfl := List.singleton_inj.mp hone
      exact hw.guarded_hook (hsanitizes _)
  | htmlEscape result' =>
      obtain rfl := List.singleton_inj.mp hone
      exact hw.guarded_hook (hsanitizes _)
  | queryEncode result' =>
      obtain rfl := List.singleton_inj.mp hone
      exact hw.guarded_hook (hsanitizes _)

/-- The pieces of a split are tracked one after the other. A piece that is not empty ends with the
reshaped taint, and no other object is touched. Hooks keep working. -/
theorem runs_track_pieces (taint : TaintedValue) (pieces : List Rewritten) (h : Heap)
    (hroom : (h.contexts id).tracker.table.length + pieces.length ≤
      (h.contexts id).tracker.capacity)
    (hvalues : ∀ a ∈ pieces, ∀ b ∈ pieces, a.ref.id = b.ref.id → a.ref.value = b.ref.value) :
    ∃ h', Prog.Runs (trackPieces id taint (pieces.map fun piece ↦ some (.string piece.ref))) h
        .unit h' ∧
      (∀ p : Process, Working { p with heap := h } id → Working { p with heap := h' } id) ∧
      (∀ other, (∀ piece ∈ pieces, piece.ref.value ≠ [] → piece.ref.id ≠ other) →
        (h'.contexts id).tracker.taintOf (some other) =
          (h.contexts id).tracker.taintOf (some other)) ∧
      ∀ piece ∈ pieces, piece.ref.value ≠ [] →
        ((h'.contexts id).tracker.taintOf (some piece.ref.id)).ranges =
          (taint.reshaped piece.ref.value.length).ranges := by
  induction pieces generalizing h with
  | nil => exact ⟨h, rfl, fun _ hw ↦ hw, fun _ _ ↦ rfl, fun _ hmem ↦ nomatch hmem⟩
  | cons piece pieces ih =>
      have hrest : ∀ a ∈ pieces, ∀ b ∈ pieces, a.ref.id = b.ref.id → a.ref.value = b.ref.value :=
        fun a ha b hb ↦ hvalues a (List.mem_cons_of_mem _ ha) b (List.mem_cons_of_mem _ hb)
      rw [List.length_cons] at hroom
      by_cases hempty : piece.ref.value = []
      · obtain ⟨h', hruns, hworking, hother, hpieces⟩ := ih h (by omega) hrest
        refine ⟨h', ?_, hworking, fun other hne ↦ hother other fun a ha ↦ hne a (List.mem_cons_of_mem _ ha),
          fun a ha hnonempty ↦ ?_⟩
        · show Prog.Runs (ite _ _ _ : Body PUnit) h _ h'
          rw [if_neg (by simp [hempty])]
          exact hruns
        · rcases List.mem_cons.mp ha with rfl | ha
          · exact absurd hempty hnonempty
          · exact hpieces a ha hnonempty
      · have htracker : ((h.recording id piece.ref.id
            (taint.reshaped piece.ref.value.length)).contexts id).tracker =
            (h.contexts id).tracker.track (some piece.ref.id)
              (some (taint.reshaped piece.ref.value.length)) := by
          unfold Heap.recording
          rw [Heap.contexts_update_context]
        obtain ⟨hsize, hcapacity⟩ := TaintTracker.size_track (h.contexts id).tracker piece.ref.id
          (taint.reshaped piece.ref.value.length)
        obtain ⟨h', hruns, hworking, hother, hpieces⟩ := ih (h.recording id piece.ref.id
          (taint.reshaped piece.ref.value.length)) (by rw [htracker, hcapacity]; omega) hrest
        rw [htracker] at hother
        refine ⟨h', ?_, fun p hw ↦ hworking p (hw.recording _ _), fun other hne ↦ ?_,
          fun a ha hnonempty ↦ ?_⟩
        · show Prog.Runs (ite _ _ _ : Body PUnit) h _ h'
          rw [if_pos (by simpa using hempty)]
          exact Prog.runs_bind (runs_change _ _) hruns
        · rw [hother other fun a ha ↦ hne a (List.mem_cons_of_mem _ ha),
            TaintTracker.taintOf_track_of_ne (hne piece (List.mem_cons_self ..) hempty).symm]
        · -- a later piece may be the same string, and then it is tracked with the same taint
          by_cases hlater : ∃ b ∈ pieces, b.ref.value ≠ [] ∧ b.ref.id = a.ref.id
          · obtain ⟨b, hb, hbnonempty, hid⟩ := hlater
            have hsame := hvalues b (List.mem_cons_of_mem _ hb) a ha hid
            rw [← hid, hpieces b hb hbnonempty, hsame]
          · rcases List.mem_cons.mp ha with rfl | ha
            · rw [hother a.ref.id fun b hb hbnonempty hid ↦ hlater ⟨b, hb, hbnonempty, hid⟩]
              exact TaintTracker.ranges_taintOf_track (.inl (by omega))
            · exact absurd ⟨a, ha, hnonempty, rfl⟩ hlater

/-- A split tracks its pieces. -/
theorem Working.exit_split (hw : Working p id)
    (htainted : ((p.table id).taintOf (some source.id)).isTainted = true) (pieces : List Rewritten)
    (hroom : (p.table id).table.length + pieces.length ≤ (p.table id).capacity)
    (hvalues : ∀ a ∈ pieces, ∀ b ∈ pieces, a.ref.id = b.ref.id → a.ref.value = b.ref.value) :
    ∃ q, Prog.Runs (Transform.exit source (.split pieces)) p .unit q ∧ Working q id ∧
      (∀ other, (∀ piece ∈ pieces, piece.ref.value ≠ [] → piece.ref.id ≠ other) →
        (q.table id).taintOf (some other) = (p.table id).taintOf (some other)) ∧
      ∀ piece ∈ pieces, ((q.table id).taintOf (some piece.ref.id)).ranges =
        if piece.ref.value = [] then ((p.table id).taintOf (some piece.ref.id)).ranges
        else (((p.table id).taintOf (some source.id)).reshaped piece.ref.value.length).ranges := by
  obtain ⟨h, hruns, hworking, hother, hpieces⟩ :=
    runs_track_pieces ((p.table id).taintOf (some source.id)) pieces p.heap hroom hvalues
  have hbody : Prog.Runs (propagateTaint (some (.string source)) (some id) fun id taint ↦
      trackPieces id taint (pieces.map fun piece ↦ some (.string piece.ref))) p.heap .unit h :=
    hw.propagates (o := .string source) htainted hruns
  refine ⟨{ p with heap := h }, hw.guarded_hook hbody, hworking p hw, hother, fun piece hpiece ↦ ?_⟩
  split
  · next hempty =>
      refine congrArg TaintedValue.ranges (hother piece.ref.id fun a ha hnonempty hid ↦ ?_)
      exact hnonempty ((hvalues a ha piece hpiece hid).trans hempty)
  · next hnonempty => exact hpieces piece hpiece hnonempty

end Hooks

/-! ## When a transform is right -/

/-- When what a transform records is right. The methods that place the taint by the result always
are, but a split does not touch its empty pieces, which share one object. The others hand on the
offsets of the source, which have to fit the result. -/
def Transform.Fitting (t : TaintTracker) (v : TaintedValue) : Transform → Prop
  | preserving result => Fits v result.origins []
  | substring _ _ | urlDecode _ => True
  | split pieces => ∀ piece ∈ pieces, piece.ref.value = [] →
      (t.taintOf (some piece.ref.id)).isTainted = false
  | urlEncode result => Fits v result.origins (urlEncode result).sanitizes
  | htmlEscape result => Fits v result.origins (htmlEscape result).sanitizes
  | queryEncode result => Fits v result.origins (queryEncode result).sanitizes

/-- An empty string is right when nothing is recorded of it. -/
theorem right_empty_iff {v recorded : TaintedValue} :
    Right v recorded [] [] ↔ recorded.isTainted = false := by
  constructor
  · rintro ⟨hwithin, -⟩
    cases hranges : recorded.ranges with
    | nil => simp [isTainted, hranges]
    | cons r ranges =>
        have hend := hwithin r (by rw [hranges]; exact List.mem_cons_self ..)
        have hpositive := r.length_pos
        simp only [TaintRange.end_exclusive_eq, List.length_nil] at hend
        omega
  · intro huntainted
    have hranges : recorded.ranges = [] := by simpa [isTainted] using huntainted
    constructor
    · rw [hranges]
      exact List.forall_mem_nil _
    · exact fun i hi ↦ absurd hi (Nat.not_lt_zero i)

/-- A hook at work on a tainted string in canonical form records what is right of every result just
when the transform fits. -/
theorem transform_right_iff {p : Process} {id : Nat} (hw : Working p id) (source : StringRef)
    (transform : Transform)
    (htainted : ((p.table id).taintOf (some source.id)).isTainted = true)
    (hcanonical : ∃ n, ((p.table id).taintOf (some source.id)).Canonical n)
    (hvalues : ∀ a ∈ transform.results, ∀ b ∈ transform.results, a.ref.id = b.ref.id →
      a.ref.value = b.ref.value)
    (hroom : (p.table id).table.length + transform.results.length ≤ (p.table id).capacity) :
    (∀ result ∈ transform.results,
      Right ((p.table id).taintOf (some source.id))
        (((transform.exit source p []).state.table id).taintOf (some result.ref.id))
        result.origins transform.sanitizes) ↔
      transform.Fitting (p.table id) ((p.table id).taintOf (some source.id)) := by
  obtain ⟨n, hcanonical⟩ := hcanonical
  have hone : ∀ result, transform.results = [result] → (∀ pieces, transform ≠ .split pieces) →
      ((∀ result ∈ transform.results,
        Right ((p.table id).taintOf (some source.id))
          (((transform.exit source p []).state.table id).taintOf (some result.ref.id))
          result.origins transform.sanitizes) ↔
        Right ((p.table id).taintOf (some source.id))
          (transform.recorded ((p.table id).taintOf (some source.id))) result.origins
          transform.sanitizes) := by
    intro result hresult hsplit
    rw [hresult] at hroom
    rw [hresult, List.forall_mem_singleton, hw.exit_one htainted hresult hsplit]
    refine right_congr ?_
    rw [table_recording]
    rw [List.length_singleton] at hroom
    exact TaintTracker.ranges_taintOf_track (.inl (by omega))
  cases transform with
  | preserving result =>
      rw [hone result rfl fun _ h ↦ nomatch h]
      exact right_sanitized_iff hcanonical [] result.origins
  | substring lower ref =>
      rw [hone (.slice ref lower) rfl fun _ h ↦ nomatch h]
      exact iff_of_true (right_substring hcanonical ref lower) trivial
  | split pieces =>
      obtain ⟨q, hruns, -, -, hrecorded⟩ := hw.exit_split htainted pieces hroom hvalues
      rw [hruns]
      refine forall₂_congr fun piece hpiece ↦ ?_
      have hranges := hrecorded piece hpiece
      by_cases hempty : piece.ref.value = []
      · rw [if_pos hempty] at hranges
        have horigins : piece.origins = [] := by
          rw [← List.length_eq_zero_iff, piece.length_eq, hempty, List.length_nil]
        rw [right_congr hranges, horigins]
        exact right_empty_iff.trans ⟨fun h _ ↦ h, fun h ↦ h hempty⟩
      · rw [if_neg hempty, ← piece.length_eq] at hranges
        rw [right_congr hranges]
        exact iff_of_true (right_reshaped htainted piece.origins) fun h ↦ absurd h hempty
  | urlDecode result =>
      rw [hone result rfl fun _ h ↦ nomatch h]
      refine iff_of_true ?_ trivial
      have hright := right_reshaped htainted result.origins
      rwa [result.length_eq] at hright
  | urlEncode result =>
      rw [hone result rfl fun _ h ↦ nomatch h]
      exact right_sanitized_iff hcanonical _ result.origins
  | htmlEscape result =>
      rw [hone result rfl fun _ h ↦ nomatch h]
      exact right_sanitized_iff hcanonical _ result.origins
  | queryEncode result =>
      rw [hone result rfl fun _ h ↦ nomatch h]
      exact right_sanitized_iff hcanonical _ result.origins

/-! ## Blanks and entities -/

/-- `String.trim()`, as a new object: the characters up to the blank go at both ends. -/
def trim (source : StringRef) (id : Nat) : Rewritten where
  ref := ⟨id, (source.value.dropWhile (· ≤ jchar ' ')).rdropWhile (· ≤ jchar ' ')⟩
  origins := (List.range
      ((source.value.dropWhile (· ≤ jchar ' ')).rdropWhile (· ≤ jchar ' ')).length).map
    fun i ↦ [(source.value.takeWhile (· ≤ jchar ' ')).length + i]
  length_eq := by simp

/-- A string that is tainted end to end fits its trimmed form just when nothing is trimmed. -/
theorem trim_fits_iff (source : StringRef) (hnonempty : source.value ≠ []) (id : Nat)
    (kind : SourceKind) (name : Option JString) :
    Fits (fullyTainted source.value.length kind name) (trim source id).origins [] ↔
      (trim source id).ref.value = source.value := by
  have hdrop : (source.value.dropWhile (· ≤ jchar ' ')).length ≤ source.value.length :=
    (List.dropWhile_suffix _).length_le
  have hprefix := List.rdropWhile_prefix (· ≤ jchar ' ') (source.value.dropWhile (· ≤ jchar ' '))
  have hlength : (trim source id).ref.value.length ≤
      (source.value.dropWhile (· ≤ jchar ' ')).length := hprefix.length_le
  have hpositive := List.length_pos_iff.mpr hnonempty
  have hranges : ∃ r, (fullyTainted source.value.length kind name).ranges = [r] ∧
      r.start = 0 ∧ r.length = source.value.length := by
    unfold fullyTainted
    rw [dif_neg (by omega)]
    exact ⟨_, rfl, rfl, rfl⟩
  obtain ⟨r, hr, hstart, hend⟩ := hranges
  constructor
  · rintro ⟨hwithin, -⟩
    have hfits := hwithin r (by rw [hr]; exact List.mem_singleton_self r)
    rw [(trim source id).length_eq, TaintRange.end_exclusive_eq] at hfits
    have hleads : source.value.dropWhile (· ≤ jchar ' ') = source.value :=
      (List.dropWhile_suffix _).eq_of_length (by omega)
    have hends := hprefix.eq_of_length (by
      show (trim source id).ref.value.length = _
      omega)
    exact hends.trans hleads
  · intro hsame
    have hlead : (source.value.takeWhile (· ≤ jchar ' ')).length = 0 := by
      have hsplit := congrArg List.length
        (List.takeWhile_append_dropWhile (p := fun c ↦ decide (c ≤ jchar ' ')) (l := source.value))
      rw [List.length_append] at hsplit
      rw [hsame] at hlength
      omega
    refine ⟨fun s hs ↦ ?_, fun i hi j hj rule _ hsource ↦ ?_⟩
    · rw [hr] at hs
      obtain rfl := List.mem_singleton.mp hs
      rw [(trim source id).length_eq, hsame, TaintRange.end_exclusive_eq]
      omega
    · have hj : j = i := by simpa [trim, hlead] using hj
      exact hj ▸ hsource

/-- A thread that holds a blank followed by a parameter, of which only the parameter is tainted, and
a parameter that is a markup character. -/
def blankAndMarkup : Process :=
  (servingProcess.recording 0 1
    ((TaintedValue.empty.concat 1 (fullyTainted 1 .PARAMETER (some (java "q")))).getD .empty)).recording
    0 3 (fullyTainted 1 .PARAMETER (some (java "q")))

/-- A string that keeps its length keeps its taint: the upper case of the markup character. -/
theorem transform_right_iff_upper_case :
    Right (fullyTainted 1 .PARAMETER (some (java "q")))
      (((Transform.exit ⟨3, java "<"⟩ (.preserving ⟨⟨4, java "<"⟩, [[0]], rfl⟩) blankAndMarkup
        []).state.table 0).taintOf (some 4)) [[0]] [] := by
  have hw : Working blankAndMarkup 0 := (working_serving.recording _ _).recording _ _
  have htaint : (blankAndMarkup.table 0).taintOf (some 3) =
      fullyTainted 1 .PARAMETER (some (java "q")) := by decide
  have hcanonical : ∃ n, ((blankAndMarkup.table 0).taintOf (some 3)).Canonical n := by
    rw [htaint]
    exact ⟨1, canonical_singleton false (le_refl _)⟩
  have hright := (transform_right_iff hw ⟨3, java "<"⟩
    (.preserving ⟨⟨4, java "<"⟩, [[0]], rfl⟩) (by decide) hcanonical
    (by simp [Transform.results]) (by decide)).mpr
    ⟨by decide, fun i hi j hj rule _ hsource ↦ by
      obtain rfl : i = 0 := by simpa using hi
      obtain rfl := List.mem_singleton.mp hj
      exact hsource⟩ _ (List.mem_singleton_self _)
  exact htaint ▸ hright

/-- When the blank is trimmed, the parameter's character stands at the start and is no longer
dangerous, and a range lies past the result. When the markup character is escaped for HTML, only
the first character of its entity stays dangerous in a query. -/
theorem trimmed_parameter_is_lost :
    let blank : StringRef := ⟨1, java " a"⟩
    let markup : StringRef := ⟨3, java "<"⟩
    let escaped : Rewritten := ⟨⟨4, java "&lt;"⟩, [[0], [0], [0], [0]], rfl⟩
    let trimmed := ((((Transform.preserving (trim blank 2)).exit blank blankAndMarkup
      []).state.table 0).taintOf (some 2))
    let encoded := ((((Transform.htmlEscape escaped).exit markup blankAndMarkup
      []).state.table 0).taintOf (some 4))
    ((trim blank 2).ref.value = java "a" ∧ (trim blank 2).origins = [[1]] ∧
      ((blankAndMarkup.table 0).taintOf (some 1)).isDangerousAt 1 .SQL_INJECTION = true ∧
      trimmed.isDangerousAt 0 .SQL_INJECTION = false ∧
      trimmed.ranges.map TaintRange.endExclusive = [2]) ∧
    (((blankAndMarkup.table 0).taintOf (some 3)).isDangerousAt 0 .SQL_INJECTION = true ∧
      (List.range 4).map (encoded.isDangerousAt · .SQL_INJECTION) = [true, false, false, false]) := by
  decide +kernel

end Aegis.Agent
