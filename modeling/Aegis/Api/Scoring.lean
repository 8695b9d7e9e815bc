import Mathlib.Data.Int.ConditionallyCompleteOrder
import Mathlib.Tactic.GCongr
import Mathlib.Tactic.Linarith
import Mathlib.Tactic.Positivity
import Mathlib.Data.Nat.Log
import Aegis.Api.RuntimeEvents

/-!
# The order of the scores

A score lies between 0 and 10 and grows with each of its factors. The number of occurrences adds at
most a half, before the score is capped and rounded, so a finding is never scored below one of a
lesser severity just when their bases are a half apart under the common weights, or the greater is
at the cap (`scores_in_order_iff`).
-/

namespace Aegis.Api

open Server

/-! ## Rounding -/

/-- Rounding keeps the order. -/
theorem round_half_even_mono : Monotone roundHalfEven := by
  intro a b hab
  have hfloor : ⌊a⌋ ≤ ⌊b⌋ := Int.floor_le_floor hab
  unfold roundHalfEven
  dsimp only
  rcases hfloor.lt_or_eq with hlt | heq
  · have hstep : ⌊a⌋ + 1 ≤ ⌊b⌋ := hlt
    split_ifs <;> omega
  · rw [heq]
    have hrest : a - ⌊b⌋ ≤ b - ⌊b⌋ := sub_le_sub_right hab _
    split_ifs <;> first | omega | (exfalso; linarith)

/-- So it does to some digits. -/
theorem round_to_mono (digits : Nat) : Monotone (roundTo digits) := by
  intro a b hab
  unfold roundTo
  have hscaled : a * 10 ^ digits ≤ b * 10 ^ digits := by gcongr
  have hrounded : ((roundHalfEven (a * 10 ^ digits) : Int) : ℚ) ≤
      roundHalfEven (b * 10 ^ digits) := Int.cast_le.mpr (round_half_even_mono hscaled)
  gcongr

/-- A number has at least as many bits as a smaller one. -/
theorem bit_length_mono : Monotone bitLength := by
  intro a b hab
  unfold bitLength
  split
  · exact Nat.zero_le _
  · rw [if_neg (by omega), Nat.log2_eq_log_two, Nat.log2_eq_log_two]
    exact Nat.succ_le_succ (Nat.log_mono_right hab)

/-! ## The factors -/

namespace Severity

/-- The place of a severity among the others. -/
def order : Severity → Nat
  | INFO => 0
  | LOW => 1
  | MEDIUM => 2
  | HIGH => 3
  | CRITICAL => 4

/-- A graver finding starts from a higher score. -/
theorem base_score_mono {lower higher : Severity} (h : lower.order ≤ higher.order) :
    lower.baseScore ≤ higher.baseScore := by
  cases lower <;> cases higher <;> first | exact absurd h (by decide) | norm_num [baseScore]

theorem base_score_pos (severity : Severity) : 0 < severity.baseScore := by
  cases severity <;> norm_num [baseScore]

end Severity

namespace Confidence

/-- A surer finding has a greater factor. -/
theorem multiplier_mono {lower higher : Confidence} (h : lower.order ≤ higher.order) :
    lower.multiplier ≤ higher.multiplier := by
  cases lower <;> cases higher <;> first | exact absurd h (by decide) | norm_num [multiplier]

theorem multiplier_pos (confidence : Confidence) : 0 < confidence.multiplier := by
  cases confidence <;> norm_num [multiplier]

end Confidence

/-- What the number of occurrences adds. -/
def volume (count : Nat) : ℚ :=
  if count > 1 then min (5 / 10 : ℚ) (1 / 10 * ((bitLength count - 1 : Nat) : ℚ)) else 0

/-- More occurrences add more. -/
theorem volume_mono : Monotone volume := by
  intro a b hab
  unfold volume
  split_ifs with ha hb
  · have hbits : bitLength a - 1 ≤ bitLength b - 1 := Nat.sub_le_sub_right (bit_length_mono hab) 1
    have hcast : ((bitLength a - 1 : Nat) : ℚ) ≤ (bitLength b - 1 : Nat) := Nat.cast_le.mpr hbits
    exact min_le_min_left _ (by gcongr)
  · omega
  · positivity
  · exact le_rfl

theorem volume_nonneg (count : Nat) : 0 ≤ volume count :=
  volume_mono (Nat.zero_le count)

/-- They add a half at most. -/
theorem volume_le (count : Nat) : volume count ≤ 1 / 2 := by
  unfold volume
  split
  · exact (min_le_left _ _).trans (by norm_num)
  · norm_num

/-- The score before the cap and the rounding, without the occurrences. -/
def weighed (severity : Severity) (confidence : Confidence) (exposureWeight criticalityWeight : ℚ)
    (attackObserved : Bool) : ℚ :=
  severity.baseScore * confidence.multiplier * exposureWeight * criticalityWeight +
    if attackObserved then 1 else 0

/-- The score is capped and rounded. -/
def capped (score : ℚ) : ℚ :=
  roundTo 2 (min score 10)

theorem capped_mono : Monotone capped :=
  fun _ _ h ↦ round_to_mono 2 (min_le_min_right _ h)

theorem capped_zero : capped 0 = 0 := by
  norm_num [capped, roundTo, roundHalfEven]

/-- What a score is made of. -/
theorem value_score_finding (severity : Severity) (confidence : Confidence)
    (exposureWeight criticalityWeight : ℚ) (attackObserved : Bool) (count : Nat) :
    (scoreFinding severity confidence exposureWeight criticalityWeight attackObserved count).value =
      capped (weighed severity confidence exposureWeight criticalityWeight attackObserved +
        volume count) := by
  unfold scoreFinding capped weighed volume
  dsimp only
  by_cases hcount : count > 1 <;> cases attackObserved <;> simp [hcount]

/-- The weights of environments and applications are positive. -/
theorem AgentContext.exposure_weight_pos (context : AgentContext) : 0 < context.exposureWeight := by
  unfold exposureWeight
  cases context.environmentKind <;> cases context.internetFacing <;> norm_num

theorem Criticality.weight_pos (criticality : Criticality) : 0 < criticality.weight := by
  cases criticality <;> norm_num [weight]

/-! ## The score of a finding -/

/-- The score of a finding of an application in an environment. -/
def scoreOf (severity : Severity) (confidence : Confidence) (context : AgentContext)
    (attackObserved : Bool) (count : Nat) : ℚ :=
  (scoreFinding severity confidence context.exposureWeight context.criticality.weight attackObserved
    count).value

/-- The score lies between 0 and 10. -/
theorem score_of_bounded (severity : Severity) (confidence : Confidence) (context : AgentContext)
    (attackObserved : Bool) (count : Nat) :
    0 ≤ scoreOf severity confidence context attackObserved count ∧
      scoreOf severity confidence context attackObserved count ≤ 10 := by
  have hseverity := severity.base_score_pos
  have hconfidence := confidence.multiplier_pos
  have hexposure := context.exposure_weight_pos
  have hcriticality := context.criticality.weight_pos
  have hvolume := volume_nonneg count
  unfold scoreOf
  rw [value_score_finding]
  constructor
  · have hpositive : 0 ≤ weighed severity confidence context.exposureWeight
        context.criticality.weight attackObserved + volume count := by
      unfold weighed
      positivity
    exact capped_zero.symm.le.trans (capped_mono hpositive)
  · refine le_trans (round_to_mono 2 (min_le_right _ 10)) ?_
    exact (show roundTo 2 10 = 10 by norm_num [roundTo, roundHalfEven]).le

/-- The score grows with each factor. -/
theorem score_of_mono {severity severity' : Severity} {confidence confidence' : Confidence}
    {context context' : AgentContext} {attackObserved attackObserved' : Bool} {count count' : Nat}
    (hseverity : severity.order ≤ severity'.order)
    (hconfidence : confidence.order ≤ confidence'.order)
    (hexposure : context.exposureWeight ≤ context'.exposureWeight)
    (hcriticality : context.criticality.weight ≤ context'.criticality.weight)
    (hattack : attackObserved ≤ attackObserved') (hcount : count ≤ count') :
    scoreOf severity confidence context attackObserved count ≤
      scoreOf severity' confidence' context' attackObserved' count' := by
  have hbase := Severity.base_score_mono hseverity
  have hmultiplier := Confidence.multiplier_mono hconfidence
  have hvolume := volume_mono hcount
  have hattacked : (if attackObserved = true then (1 : ℚ) else 0) ≤
      if attackObserved' = true then 1 else 0 := by
    revert hattack
    cases attackObserved <;> cases attackObserved' <;> simp
  have hpositive := severity.base_score_pos
  have hpositive' := severity'.base_score_pos
  have hfactor := confidence.multiplier_pos
  have hfactor' := confidence'.multiplier_pos
  have hweight := context.exposure_weight_pos
  have hweight' := context'.exposure_weight_pos
  have hweight'' := context.criticality.weight_pos
  unfold scoreOf
  rw [value_score_finding, value_score_finding]
  refine capped_mono (add_le_add (add_le_add ?_ hattacked) hvolume)
  gcongr

/-! ## Severity and volume -/

/-- The score lies between 0 and 10 and grows with each factor, and a finding of the greater severity
is not scored below one of the lesser that is equal in everything else but the occurrences. -/
structure ScoresInOrder (lesser greater : Severity) (confidence : Confidence)
    (context : AgentContext) (attackObserved : Bool) : Prop where
  bounded : ∀ severity confidence context attackObserved count,
    0 ≤ scoreOf severity confidence context attackObserved count ∧
      scoreOf severity confidence context attackObserved count ≤ 10
  monotone : ∀ severity severity' confidence confidence' context context' attackObserved
    attackObserved' count count', severity.order ≤ severity'.order →
      confidence.order ≤ confidence'.order → context.exposureWeight ≤ context'.exposureWeight →
        context.criticality.weight ≤ context'.criticality.weight →
          attackObserved ≤ attackObserved' → count ≤ count' →
            scoreOf severity confidence context attackObserved count ≤
              scoreOf severity' confidence' context' attackObserved' count'
  dominates : ∀ count count', scoreOf lesser confidence context attackObserved count ≤
    scoreOf greater confidence context attackObserved count'

/-- The severities are a half apart under the weights, or the greater is at the cap. -/
def FarApart (lesser greater : Severity) (confidence : Confidence) (context : AgentContext)
    (attackObserved : Bool) : Prop :=
  1 / 2 ≤ (greater.baseScore - lesser.baseScore) *
      (confidence.multiplier * context.exposureWeight * context.criticality.weight) ∨
    10 ≤ weighed greater confidence context.exposureWeight context.criticality.weight attackObserved

instance (lesser greater : Severity) (confidence : Confidence) (context : AgentContext)
    (attackObserved : Bool) :
    Decidable (FarApart lesser greater confidence context attackObserved) :=
  inferInstanceAs (Decidable (_ ∨ _))

/-- Two severities stay in order under all occurrences when they do under as many of the lesser as
count and one of the greater. -/
theorem dominates_iff (lesser greater : Severity) (confidence : Confidence)
    (context : AgentContext) (attackObserved : Bool) :
    (∀ count count', scoreOf lesser confidence context attackObserved count ≤
        scoreOf greater confidence context attackObserved count') ↔
      scoreOf lesser confidence context attackObserved 32 ≤
        scoreOf greater confidence context attackObserved 1 := by
  refine ⟨fun h ↦ h 32 1, fun h count count' ↦ ?_⟩
  have hmost : volume count ≤ volume 32 :=
    (volume_le count).trans (show (1 / 2 : ℚ) ≤ volume 32 by decide +kernel)
  have hleast : volume 1 ≤ volume count' :=
    (show volume 1 ≤ 0 by decide +kernel).trans (volume_nonneg count')
  unfold scoreOf at h ⊢
  rw [value_score_finding, value_score_finding] at h ⊢
  exact (capped_mono (add_le_add_right hmost _)).trans
    (h.trans (capped_mono (add_le_add_right hleast _)))

/-- The contexts that differ in their weights. -/
def contexts : List AgentContext :=
  [EnvironmentKind.DEVELOPMENT, .QA, .STAGING, .PRODUCTION].flatMap fun kind ↦
    [false, true].flatMap fun internetFacing ↦
      [Criticality.LOW, .MEDIUM, .HIGH, .CRITICAL].map fun criticality ↦
        ⟨0, kind, internetFacing, criticality, .MONITOR⟩

/-- Under each of the weights there are, the cap and the rounding do not change the order. -/
theorem dominates_iff_far_apart : ∀ lesser ∈ Severity.values, ∀ greater ∈ Severity.values,
    lesser.order < greater.order → ∀ confidence ∈ Confidence.values, ∀ context ∈ contexts,
      ∀ attackObserved ∈ [false, true],
        (scoreOf lesser confidence context attackObserved 32 ≤
            scoreOf greater confidence context attackObserved 1 ↔
          FarApart lesser greater confidence context attackObserved) := by
  decide +kernel

/-- Every context has the weights of one of them. -/
theorem exists_mem_contexts (context : AgentContext) :
    ∃ listed ∈ contexts, listed.exposureWeight = context.exposureWeight ∧
      listed.criticality = context.criticality := by
  refine ⟨⟨0, context.environmentKind, context.internetFacing, context.criticality, .MONITOR⟩, ?_,
    rfl, rfl⟩
  cases context.environmentKind <;> cases context.internetFacing <;>
    cases context.criticality <;> simp [contexts]

/-- For all severities, confidences, weights and attack flags, the scores are in order just when the
severities are far apart under the weights. -/
theorem scores_in_order_iff {lesser greater : Severity} (h : lesser.order < greater.order)
    (confidence : Confidence) (context : AgentContext) (attackObserved : Bool) :
    ScoresInOrder lesser greater confidence context attackObserved ↔
      FarApart lesser greater confidence context attackObserved := by
  have hsevere : ∀ severity, severity ∈ Severity.values := fun severity ↦ by
    cases severity <;> decide
  have hconfident : confidence ∈ Confidence.values := by
    cases confidence <;> decide
  have hflag : attackObserved ∈ [false, true] := by
    cases attackObserved <;> decide
  obtain ⟨listed, hlisted, hexposure, hcriticality⟩ := exists_mem_contexts context
  have hscores : ∀ severity count, scoreOf severity confidence listed attackObserved count =
      scoreOf severity confidence context attackObserved count := by
    intro severity count
    unfold scoreOf
    rw [hexposure, hcriticality]
  have happart : FarApart lesser greater confidence listed attackObserved ↔
      FarApart lesser greater confidence context attackObserved := by
    unfold FarApart
    rw [hexposure, hcriticality]
  have hfinite := dominates_iff_far_apart lesser (hsevere lesser) greater (hsevere greater) h
    confidence hconfident listed hlisted attackObserved hflag
  rw [hscores, hscores, happart, ← dominates_iff] at hfinite
  constructor
  · exact fun hordered ↦ hfinite.mp hordered.dominates
  · exact fun hfar ↦ ⟨score_of_bounded, fun _ _ _ _ _ _ _ _ _ _ ↦ score_of_mono, hfinite.mpr hfar⟩

/-- A development environment of an application that matters little. -/
def sandbox : AgentContext :=
  ⟨0, .DEVELOPMENT, false, .LOW, .MONITOR⟩

/-- In production, a critical finding is scored above every high one. -/
theorem scores_in_order_production :
    ScoresInOrder .HIGH .CRITICAL .CONFIRMED ⟨0, .PRODUCTION, true, .HIGH, .MONITOR⟩ false :=
  (scores_in_order_iff (by decide) .CONFIRMED _ false).mpr (by decide +kernel)

/-- In a sandbox, a critical finding that was seen once is scored below a high one that is seen all
the time. -/
theorem scores_out_of_order :
    Severity.HIGH.order < Severity.CRITICAL.order ∧
      ¬ ScoresInOrder .HIGH .CRITICAL .CONFIRMED sandbox false :=
  ⟨by decide, fun h ↦ absurd (h.dominates 32 1) (by decide +kernel)⟩

end Aegis.Api
