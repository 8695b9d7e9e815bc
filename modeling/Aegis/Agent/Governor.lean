import Mathlib.Tactic.Linarith
import Aegis.Agent.Reporter
import Aegis.Lib.Machine

/-!
# The degradation ladder

What the two counters of `ResourceGovernor` stand for: the samples since the level last changed.
`ladder` gives the level after one more sample of any run from these samples alone.
-/

namespace Aegis.Agent

/-! ## Ranks -/

/-- The place of the level on the ladder. -/
def Level.rank : Level → Nat
  | FULL => 0
  | SAMPLED => 1
  | CONFIG_ONLY => 2
  | HEARTBEAT => 3
  | UNINSTALLED => 4

namespace ResourceGovernor

/-! ## Samples -/

/-- A sample that breaches the budget. -/
def isBreach (budgetPct sample : ℚ) : Bool :=
  budgetPct < sample

/-- A sample far enough below the budget. -/
def isCalm (budgetPct sample : ℚ) : Bool :=
  sample < budgetPct * RECOVERY_FRACTION

/-- A sample at which the agent is harming the application. -/
def isSevere (budgetPct sample : ℚ) : Bool :=
  budgetPct * 3 < sample

/-- How many samples of a kind there are in a row, the last one first. -/
def streak (kind : ℚ → Bool) (samples : List ℚ) : Nat :=
  (samples.takeWhile kind).length

theorem streak_cons (kind : ℚ → Bool) (sample : ℚ) (samples : List ℚ) :
    streak kind (sample :: samples) = if kind sample then streak kind samples + 1 else 0 := by
  unfold streak
  rw [List.takeWhile_cons]
  split <;> rfl

/-- The last sample of a streak is of its kind. -/
theorem kind_of_streak {kind : ℚ → Bool} {sample : ℚ} {samples : List ℚ} {n : Nat}
    (h : streak kind (sample :: samples) = n + 1) : kind sample = true := by
  rw [streak_cons] at h
  split at h
  · assumption
  · omega

/-- What happens to a governor. -/
inductive Event where
  | sample (observedPct : ℚ)
  | disable
  | reset

/-- A governor, with the samples since its level last changed, the last one first. -/
structure Watched where
  governor : ResourceGovernor
  recent : List ℚ

/-- One event. A change of the level forgets the samples, and so does a reset. -/
def watch (w : Watched) (event : Event) : Unit × Watched :=
  let kept (g : ResourceGovernor) (samples : List ℚ) : Watched :=
    ⟨g, if g.level = w.governor.level then samples else []⟩
  match event with
  | .sample observedPct => ((), kept (w.governor.observe observedPct) (observedPct :: w.recent))
  | .disable => ((), kept w.governor.disable w.recent)
  | .reset => ((), ⟨w.governor.reset, []⟩)

/-! ## What the counters stand for -/

/-- The counters are the streaks of the samples since the level last changed. A full level cannot be
raised, and its counter starts again. -/
structure Counts (budgetPct : ℚ) (w : Watched) : Prop where
  budget : w.governor.budgetPct = budgetPct
  breaches : w.governor.level ≠ .UNINSTALLED →
    w.governor.consecutiveBreaches = streak (isBreach budgetPct) w.recent ∧
      w.governor.consecutiveBreaches < 3
  calm : w.governor.level ≠ .UNINSTALLED →
    w.governor.consecutiveCalm = streak (isCalm budgetPct) w.recent % 5 ∧
      (w.governor.level ≠ .FULL → streak (isCalm budgetPct) w.recent < 5)

/-- The level after one more sample, from the samples since it last changed. -/
def nextLevel (budgetPct : ℚ) (level : Level) (recent : List ℚ) (sample : ℚ) : Level :=
  if level = .UNINSTALLED then .UNINSTALLED
  else if isSevere budgetPct sample then .UNINSTALLED
  else if streak (isBreach budgetPct) (sample :: recent) = 3 then level.next
  else if streak (isCalm budgetPct) (sample :: recent) = 5 then level.previous
  else level

variable {budgetPct : ℚ} {w : Watched}

/-- A level is lowered to another one, up to the last. -/
theorem next_ne {level : Level} (h : level ≠ .UNINSTALLED) : level.next ≠ level := by
  cases level <;> first | exact (h rfl).elim | decide

/-- No level is raised to the last one. -/
theorem previous_ne_uninstalled {level : Level} (h : level ≠ .UNINSTALLED) :
    level.previous ≠ .UNINSTALLED := by
  cases level <;> first | exact (h rfl).elim | decide

/-- A level below full is raised to another one. -/
theorem previous_ne {level : Level} (h : level ≠ .UNINSTALLED) (hfull : level ≠ .FULL) :
    level.previous ≠ level := by
  cases level <;> first | exact (h rfl).elim | exact (hfull rfl).elim | decide

/-- A sample is not both a breach and calm. -/
theorem not_calm_of_breaches (hpositive : 0 < budgetPct) {sample : ℚ}
    (h : isBreach budgetPct sample = true) : isCalm budgetPct sample = false := by
  unfold isBreach at h
  unfold isCalm RECOVERY_FRACTION
  rw [decide_eq_true_eq] at h
  rw [decide_eq_false_iff_not, not_lt]
  linarith

/-- A governor that has removed itself counts nothing. -/
theorem counts_of_uninstalled (hbudget : w.governor.budgetPct = budgetPct)
    (h : w.governor.level = .UNINSTALLED) : Counts budgetPct w :=
  ⟨hbudget, fun hne ↦ absurd h hne, fun hne ↦ absurd h hne⟩

/-- After a change of the level there are no samples to count. -/
theorem counts_of_changed {g : ResourceGovernor} (hbudget : g.budgetPct = budgetPct)
    (hbreaches : g.consecutiveBreaches = 0) (hcalm : g.consecutiveCalm = 0) :
    Counts budgetPct ⟨g, []⟩ := by
  refine ⟨hbudget, fun _ ↦ ?_, fun _ ↦ ?_⟩
  · rw [hbreaches]
    exact ⟨rfl, by omega⟩
  · rw [hcalm]
    exact ⟨rfl, fun _ ↦ Nat.zero_lt_succ 4⟩

/-- After one more sample, the level is the one the streaks give, and the counters are the streaks
again. -/
def Follows (budgetPct : ℚ) (w : Watched) (sample : ℚ) : Prop :=
  (w.governor.observe sample).level = nextLevel budgetPct w.governor.level w.recent sample ∧
    Counts budgetPct (watch w (.sample sample)).2

section
variable {sample : ℚ}

/-- The third breach in a row lowers the level. -/
theorem Counts.follows_breach (hpositive : 0 < budgetPct) (h : Counts budgetPct w)
    (hlevel : w.governor.level ≠ .UNINSTALLED) (hmild : ¬isSevere budgetPct sample = true)
    (hbreach : isBreach budgetPct sample = true) : Follows budgetPct w sample := by
  obtain ⟨⟨budget, level, breachCount, calmCount⟩, recent⟩ := w
  obtain ⟨hbudget, hbreaches, -⟩ := h
  dsimp only at hbudget hbreaches hlevel
  subst hbudget
  obtain ⟨hbreaches, hfew⟩ := hbreaches hlevel
  have hle : ¬sample > budget * 3 := fun hgt ↦ hmild (decide_eq_true hgt)
  have hgt : sample > budget := of_decide_eq_true hbreach
  have hnot := not_calm_of_breaches hpositive hbreach
  simp only [Follows, nextLevel, watch, streak_cons, observe, hlevel, if_false, if_neg hle,
    if_pos hgt, if_neg hmild, if_pos hbreach, hnot, Bool.false_eq_true]
  by_cases hthird : breachCount + 1 ≥ BREACH_SAMPLES_TO_DEGRADE
  · simp only [if_pos hthird, if_neg (next_ne hlevel)]
    have hthree : breachCount + 1 ≥ 3 := hthird
    rw [if_pos (show streak (isBreach budget) recent + 1 = 3 by omega)]
    exact ⟨rfl, counts_of_changed rfl rfl rfl⟩
  · simp only [if_neg hthird, if_true]
    have htwo : ¬breachCount + 1 ≥ 3 := hthird
    refine ⟨?_, rfl, fun _ ↦ ?_, fun _ ↦ ?_⟩
    · rw [if_neg (show ¬streak (isBreach budget) recent + 1 = 3 by omega),
        if_neg (show ¬0 = 5 by omega)]
    · show breachCount + 1 = streak (isBreach budget) (sample :: recent) ∧ breachCount + 1 < 3
      rw [streak_cons, if_pos hbreach]
      omega
    · show 0 = streak (isCalm budget) (sample :: recent) % 5 ∧ _
      rw [streak_cons, hnot, if_neg Bool.false_ne_true]
      exact ⟨rfl, fun _ ↦ Nat.zero_lt_succ 4⟩

/-- The fifth calm sample in a row raises the level, unless it is full. -/
theorem Counts.follows_calm (h : Counts budgetPct w) (hlevel : w.governor.level ≠ .UNINSTALLED)
    (hmild : ¬isSevere budgetPct sample = true) (hbreach : ¬isBreach budgetPct sample = true)
    (hcalm : isCalm budgetPct sample = true) : Follows budgetPct w sample := by
  obtain ⟨⟨budget, level, breachCount, calmCount⟩, recent⟩ := w
  obtain ⟨hbudget, -, hcounter⟩ := h
  dsimp only at hbudget hcounter hlevel
  subst hbudget
  obtain ⟨hcounter, hfew⟩ := hcounter hlevel
  have hle : ¬sample > budget * 3 := fun hgt ↦ hmild (decide_eq_true hgt)
  have hwithin : ¬sample > budget := fun hgt ↦ hbreach (decide_eq_true hgt)
  have hlt : sample < budget * RECOVERY_FRACTION := of_decide_eq_true hcalm
  -- A calm sample ends a streak of breaches.
  have hzero : ∀ n, 0 = streak (isBreach budget) (sample :: recent) ∧ 0 < n + 1 := by
    intro n
    rw [streak_cons, if_neg hbreach]
    exact ⟨rfl, Nat.zero_lt_succ n⟩
  simp only [Follows, nextLevel, watch, streak_cons, observe, hlevel, if_false, if_neg hle,
    if_neg hwithin, if_neg hmild, if_neg hbreach, if_pos hlt, if_pos hcalm,
    if_neg (show ¬0 = 3 by omega)]
  by_cases hfifth : calmCount + 1 ≥ CALM_SAMPLES_TO_RECOVER
  · simp only [if_pos hfifth]
    have hfive : calmCount + 1 ≥ 5 := hfifth
    by_cases hfull : level = .FULL
    · subst hfull
      refine ⟨by split <;> rfl, rfl, fun _ ↦ hzero 2, fun _ ↦ ?_⟩
      show 0 = streak (isCalm budget) (sample :: recent) % 5 ∧ _
      rw [streak_cons, if_pos hcalm]
      exact ⟨by omega, fun hfull ↦ absurd rfl hfull⟩
    · have := hfew hfull
      rw [if_pos (show streak (isCalm budget) recent + 1 = 5 by omega)]
      refine ⟨rfl, ?_⟩
      rw [if_neg (previous_ne hlevel hfull)]
      exact counts_of_changed rfl rfl rfl
  · simp only [if_neg hfifth, if_true]
    have hfour : ¬calmCount + 1 ≥ 5 := hfifth
    refine ⟨?_, rfl, fun _ ↦ hzero 2, fun _ ↦ ?_⟩
    · rw [if_neg (show ¬streak (isCalm budget) recent + 1 = 5 by omega)]
    · show calmCount + 1 = streak (isCalm budget) (sample :: recent) % 5 ∧ _
      rw [streak_cons, if_pos hcalm]
      refine ⟨by omega, fun hfull ↦ ?_⟩
      have := hfew hfull
      omega

/-- A sample in the band between calm and breach ends both streaks. -/
theorem Counts.follows_band (h : Counts budgetPct w) (hlevel : w.governor.level ≠ .UNINSTALLED)
    (hmild : ¬isSevere budgetPct sample = true) (hbreach : ¬isBreach budgetPct sample = true)
    (hcalm : ¬isCalm budgetPct sample = true) : Follows budgetPct w sample := by
  obtain ⟨⟨budget, level, breachCount, calmCount⟩, recent⟩ := w
  obtain ⟨hbudget, -, -⟩ := h
  dsimp only at hbudget hlevel
  subst hbudget
  have hle : ¬sample > budget * 3 := fun hgt ↦ hmild (decide_eq_true hgt)
  have hwithin : ¬sample > budget := fun hgt ↦ hbreach (decide_eq_true hgt)
  have hband : ¬sample < budget * RECOVERY_FRACTION := fun hlt ↦ hcalm (decide_eq_true hlt)
  simp only [Follows, nextLevel, watch, streak_cons, observe, hlevel, if_false, if_neg hle,
    if_neg hwithin, if_neg hmild, if_neg hbreach, if_neg hband, if_neg hcalm, if_true,
    if_neg (show ¬0 = 3 by omega), if_neg (show ¬0 = 5 by omega)]
  refine ⟨trivial, rfl, fun _ ↦ ?_, fun _ ↦ ?_⟩
  · show 0 = streak (isBreach budget) (sample :: recent) ∧ 0 < 3
    rw [streak_cons, if_neg hbreach]
    exact ⟨rfl, Nat.zero_lt_succ 2⟩
  · show 0 = streak (isCalm budget) (sample :: recent) % 5 ∧ _
    rw [streak_cons, if_neg hcalm]
    exact ⟨rfl, fun _ ↦ Nat.zero_lt_succ 4⟩

/-- Whatever the sample, the level follows from the streaks. -/
theorem Counts.follows (hpositive : 0 < budgetPct) (h : Counts budgetPct w) (sample : ℚ) :
    Follows budgetPct w sample := by
  by_cases hlevel : w.governor.level = .UNINSTALLED
  · simp only [Follows, nextLevel, watch, observe, hlevel, if_true]
    exact ⟨trivial, counts_of_uninstalled h.budget hlevel⟩
  by_cases hsevere : isSevere budgetPct sample = true
  · have hgt : sample > w.governor.budgetPct * 3 := h.budget ▸ of_decide_eq_true hsevere
    simp only [Follows, nextLevel, watch, observe, hlevel, if_false, if_pos hgt, if_pos hsevere]
    exact ⟨trivial, counts_of_uninstalled h.budget rfl⟩
  by_cases hbreach : isBreach budgetPct sample = true
  · exact h.follows_breach hpositive hlevel hsevere hbreach
  by_cases hcalm : isCalm budgetPct sample = true
  · exact h.follows_calm hlevel hsevere hbreach hcalm
  · exact h.follows_band hlevel hsevere hbreach hcalm

end

/-- The counters are the streaks after every event. -/
theorem Counts.watch (hpositive : 0 < budgetPct) (h : Counts budgetPct w) (event : Event) :
    Counts budgetPct (watch w event).2 := by
  cases event with
  | sample observedPct => exact (h.follows hpositive observedPct).2
  | disable => exact counts_of_uninstalled h.budget rfl
  | reset => exact counts_of_changed h.budget rfl rfl

/-- So they are in every run. -/
theorem Counts.run (hpositive : 0 < budgetPct) (h : Counts budgetPct w) (events : List Event) :
    Counts budgetPct (Machine.final ResourceGovernor.watch w events) := by
  induction events generalizing w with
  | nil => exact h
  | cons event events ih => exact ih (h.watch hpositive event)

/-- A governor that has removed itself stays out until it is reset. -/
theorem uninstalled_run (h : w.governor.level = .UNINSTALLED) {events : List Event}
    (hreset : .reset ∉ events) :
    (Machine.final watch w events).governor.level = .UNINSTALLED := by
  induction events generalizing w with
  | nil => exact h
  | cons event events ih =>
      rw [List.mem_cons, not_or] at hreset
      refine ih ?_ hreset.2
      cases event with
      | sample observedPct => simp only [watch, observe, h, if_true]
      | disable => rfl
      | reset => exact absurd rfl hreset.1

/-! ## The law -/

/-- A level is lowered by one rank. -/
theorem rank_next {level : Level} (h : level ≠ .UNINSTALLED) :
    level.next.rank = level.rank + 1 := by
  cases level <;> first | exact (h rfl).elim | rfl

/-- A level below full is raised by one rank. -/
theorem rank_previous {level : Level} (h : level ≠ .UNINSTALLED) (hfull : level ≠ .FULL) :
    level.previous.rank + 1 = level.rank := by
  cases level <;> first | exact (h rfl).elim | exact (hfull rfl).elim | rfl

/-- In every run, a sample that is not severe lowers the level by one rank exactly when it is the
third breach in a row since the level last changed, raises it by one rank exactly when it is the
fifth calm one in a row and the level is not full, and otherwise leaves it. A severe sample removes
the agent, and no sample brings it back before a reset. -/
theorem ladder (hpositive : 0 < budgetPct) (events : List Event) (sample : ℚ) :
    let w := Machine.final watch ⟨create budgetPct, []⟩ events
    let level := w.governor.level
    let next := (w.governor.observe sample).level
    (level = .UNINSTALLED → ∀ later, .reset ∉ later →
        (Machine.final watch w later).governor.level = .UNINSTALLED) ∧
      (level ≠ .UNINSTALLED → budgetPct * 3 < sample → next = .UNINSTALLED) ∧
      (level ≠ .UNINSTALLED → sample ≤ budgetPct * 3 →
        (next.rank = level.rank + 1 ↔ streak (isBreach budgetPct) (sample :: w.recent) = 3) ∧
          (next.rank + 1 = level.rank ↔
            streak (isCalm budgetPct) (sample :: w.recent) = 5 ∧ level ≠ .FULL) ∧
          (next.rank = level.rank + 1 ∨ next.rank + 1 = level.rank ∨ next = level) ∧
          (budgetPct * RECOVERY_FRACTION ≤ sample → sample ≤ budgetPct → next = level)) := by
  intro w level next
  have hstart : Counts budgetPct ⟨create budgetPct, []⟩ := counts_of_changed rfl rfl rfl
  have hcounts : Counts budgetPct w := hstart.run hpositive events
  have hnext : next = nextLevel budgetPct level w.recent sample :=
    (hcounts.follows hpositive sample).1
  refine ⟨fun h later hreset ↦ uninstalled_run h hreset, fun hlevel hsevere ↦ ?_,
    fun hlevel hmild ↦ ?_⟩
  · have hdecided : isSevere budgetPct sample = true := decide_eq_true hsevere
    rw [hnext, nextLevel, if_neg hlevel, if_pos hdecided]
  have hdecided : ¬isSevere budgetPct sample = true := fun h ↦
    not_lt.mpr hmild (of_decide_eq_true h)
  rw [nextLevel, if_neg hlevel, if_neg hdecided] at hnext
  by_cases hthird : streak (isBreach budgetPct) (sample :: w.recent) = 3
  · have hbreach := kind_of_streak hthird
    have hnone : streak (isCalm budgetPct) (sample :: w.recent) = 0 := by
      rw [streak_cons, not_calm_of_breaches hpositive hbreach, if_neg Bool.false_ne_true]
    rw [if_pos hthird] at hnext
    have hrank := rank_next hlevel
    rw [hnext]
    refine ⟨iff_of_true hrank hthird, iff_of_false (by omega) (by omega), .inl hrank,
      fun _ hwithin ↦ ?_⟩
    exact absurd (of_decide_eq_true hbreach) (not_lt.mpr hwithin)
  rw [if_neg hthird] at hnext
  by_cases hfifth : streak (isCalm budgetPct) (sample :: w.recent) = 5
  · have hcalm := kind_of_streak hfifth
    rw [if_pos hfifth] at hnext
    have hband : budgetPct * RECOVERY_FRACTION ≤ sample → sample ≤ budgetPct → next = level :=
      fun hge _ ↦ absurd (of_decide_eq_true hcalm) (not_lt.mpr hge)
    by_cases hfull : level = .FULL
    · have hsame : next = level := by
        rw [hnext, hfull]
        rfl
      rw [hsame]
      exact ⟨iff_of_false (by omega) hthird, iff_of_false (by omega) fun h ↦ h.2 hfull,
        .inr (.inr rfl), fun _ _ ↦ rfl⟩
    · have hrank := rank_previous hlevel hfull
      rw [hnext]
      rw [hnext] at hband
      exact ⟨iff_of_false (by omega) hthird, iff_of_true hrank ⟨hfifth, hfull⟩,
        .inr (.inl hrank), hband⟩
  · rw [if_neg hfifth] at hnext
    rw [hnext]
    exact ⟨iff_of_false (by omega) hthird, iff_of_false (by omega) fun h ↦ hfifth h.1,
      .inr (.inr rfl), fun _ _ ↦ rfl⟩

/-- Under a budget of five, two samples of nine do not lower the level yet. -/
theorem ladder_after_two_breaches :
    let w := Machine.final watch ⟨create 5, []⟩ [.sample 9, .sample 9]
    let level := w.governor.level
    let next := (w.governor.observe 9).level
    (level = .UNINSTALLED → ∀ later, .reset ∉ later →
        (Machine.final watch w later).governor.level = .UNINSTALLED) ∧
      (level ≠ .UNINSTALLED → 5 * 3 < (9 : ℚ) → next = .UNINSTALLED) ∧
      (level ≠ .UNINSTALLED → (9 : ℚ) ≤ 5 * 3 →
        (next.rank = level.rank + 1 ↔ streak (isBreach 5) (9 :: w.recent) = 3) ∧
          (next.rank + 1 = level.rank ↔
            streak (isCalm 5) (9 :: w.recent) = 5 ∧ level ≠ .FULL) ∧
          (next.rank = level.rank + 1 ∨ next.rank + 1 = level.rank ∨ next = level) ∧
          (5 * RECOVERY_FRACTION ≤ 9 → (9 : ℚ) ≤ 5 → next = level)) :=
  ladder (by decide) _ _

end ResourceGovernor

end Aegis.Agent
