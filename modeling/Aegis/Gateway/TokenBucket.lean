import Aegis.Gateway.Ingest
import Aegis.Lib.Potential
import Mathlib.Tactic.Linarith

/-!
# The token bucket

`domain/quota.py`: the allowance of one tenant, which is refilled continuously and not at the edge
of a window. Times and amounts are exact fractions.
-/

namespace Aegis.Gateway

open Server

/-- `TokenBucket`. -/
structure TokenBucket where
  capacity : ℚ
  refillPerSecond : ℚ
  tokens : ℚ
  updatedAt : ℚ

namespace TokenBucket

/-- `TokenBucket.create`. -/
def create (capacity refillPerSecond now : ℚ) : TokenBucket :=
  ⟨capacity, refillPerSecond, capacity, now⟩

/-- `_refill`. -/
def refill (bucket : TokenBucket) (now : ℚ) : TokenBucket :=
  let elapsed := max 0 (now - bucket.updatedAt)
  if 0 < elapsed then
    { bucket with
      tokens := min bucket.capacity (bucket.tokens + elapsed * bucket.refillPerSecond)
      updatedAt := now }
  else bucket

/-- `try_consume`. -/
def tryConsume (bucket : TokenBucket) (amount now : ℚ) : Bool × TokenBucket :=
  let bucket := bucket.refill now
  if amount ≤ bucket.tokens then (true, { bucket with tokens := bucket.tokens - amount })
  else (false, bucket)

/-- `retry_after_seconds`. A bucket that is never refilled asks for an hour. -/
def retryAfterSeconds (bucket : TokenBucket) (amount now : ℚ) : Int × TokenBucket :=
  let bucket := bucket.refill now
  if amount ≤ bucket.tokens then (0, bucket)
  else if bucket.refillPerSecond ≤ 0 then (3600, bucket)
  else (max 1 (⌊(amount - bucket.tokens) / bucket.refillPerSecond⌋ + 1), bucket)

/-! ## Refills -/

/-- A bucket holds no less than nothing and no more than its capacity, and time does not drain
it. -/
structure Sound (bucket : TokenBucket) : Prop where
  tokens_nonneg : 0 ≤ bucket.tokens
  tokens_le_capacity : bucket.tokens ≤ bucket.capacity
  refill_nonneg : 0 ≤ bucket.refillPerSecond

theorem sound_create {capacity refillPerSecond : ℚ} (hcapacity : 0 ≤ capacity)
    (hrefill : 0 ≤ refillPerSecond) (now : ℚ) : (create capacity refillPerSecond now).Sound :=
  ⟨hcapacity, le_rfl, hrefill⟩

variable {bucket : TokenBucket} {amount now later : ℚ}

/-- What a refill does when the clock has not gone back. -/
theorem Sound.refill_eq (h : bucket.Sound) (hnow : bucket.updatedAt ≤ now) :
    bucket.refill now =
      { bucket with
        tokens := min bucket.capacity
          (bucket.tokens + (now - bucket.updatedAt) * bucket.refillPerSecond)
        updatedAt := now } := by
  unfold TokenBucket.refill
  rcases hnow.eq_or_lt with rfl | hlt
  · simp [min_eq_right h.tokens_le_capacity]
  · simp [max_eq_right (sub_nonneg.mpr hnow), hlt]

/-- A refill leaves what is fixed about a bucket, and sets its time. -/
theorem Sound.refill_fields (h : bucket.Sound) (hnow : bucket.updatedAt ≤ now) :
    (bucket.refill now).capacity = bucket.capacity ∧
      (bucket.refill now).refillPerSecond = bucket.refillPerSecond ∧
      (bucket.refill now).updatedAt = now := by
  rw [h.refill_eq hnow]
  exact ⟨rfl, rfl, rfl⟩

theorem Sound.refilled (h : bucket.Sound) (hnow : bucket.updatedAt ≤ now) :
    (bucket.refill now).Sound := by
  have hearned := mul_nonneg (sub_nonneg.mpr hnow) h.refill_nonneg
  rw [h.refill_eq hnow]
  exact ⟨le_min (h.tokens_nonneg.trans h.tokens_le_capacity) (add_nonneg h.tokens_nonneg hearned),
    min_le_left _ _, h.refill_nonneg⟩

/-- A refill on the way to another makes no difference to it. -/
theorem Sound.refill_refill (h : bucket.Sound) (hnow : bucket.updatedAt ≤ now)
    (hlater : now ≤ later) : (bucket.refill now).refill later = bucket.refill later := by
  obtain ⟨-, -, htime⟩ := h.refill_fields hnow
  have hearned := mul_nonneg (sub_nonneg.mpr hlater) h.refill_nonneg
  rw [(h.refilled hnow).refill_eq (htime.le.trans hlater), h.refill_eq (hnow.trans hlater),
    h.refill_eq hnow]
  simp only [mk.injEq, true_and, and_true]
  -- the clamp at the first refill is undone by the clamp at the second
  rcases le_total bucket.capacity
      (bucket.tokens + (now - bucket.updatedAt) * bucket.refillPerSecond) with hfull | hpart
  · rw [min_eq_left hfull, min_eq_left (by linarith), min_eq_left (by linarith)]
  · rw [min_eq_right hpart]
    congr 1
    ring

/-! ## Calls -/

/-- A call of `try_consume`. -/
structure ConsumeCall where
  amount : ℚ
  now : ℚ

/-- The machine of a bucket that is called. -/
def step (bucket : TokenBucket) (call : ConsumeCall) : Bool × TokenBucket :=
  bucket.tryConsume call.amount call.now

/-- The call takes what it can, and the clock has not gone back. -/
def Timely (bucket : TokenBucket) (call : ConsumeCall) : Prop :=
  0 ≤ call.amount ∧ bucket.updatedAt ≤ call.now

/-- The times of the calls do not go back from a time on, and the amounts are not negative. -/
def InOrder : ℚ → List ConsumeCall → Prop
  | _, [] => True
  | since, call :: calls => (0 ≤ call.amount ∧ since ≤ call.now) ∧ InOrder call.now calls

/-- Either the tokens suffice and are taken, or the call leaves a refilled bucket. -/
theorem try_consume_cases (bucket : TokenBucket) (amount now : ℚ) :
    amount ≤ (bucket.refill now).tokens ∧
        bucket.tryConsume amount now =
          (true, { bucket.refill now with tokens := (bucket.refill now).tokens - amount }) ∨
      (bucket.refill now).tokens < amount ∧
        bucket.tryConsume amount now = (false, bucket.refill now) := by
  unfold tryConsume
  rcases le_or_gt amount (bucket.refill now).tokens with h | h
  · exact .inl ⟨h, if_pos h⟩
  · exact .inr ⟨h, if_neg h.not_ge⟩

variable {call : ConsumeCall} {calls : List ConsumeCall}

/-- A call leaves what is fixed about a bucket, and sets its time. -/
theorem Sound.step_fields (h : bucket.Sound) (hcall : Timely bucket call) :
    (step bucket call).2.capacity = bucket.capacity ∧
      (step bucket call).2.refillPerSecond = bucket.refillPerSecond ∧
      (step bucket call).2.updatedAt = call.now := by
  have hfields := h.refill_fields hcall.2
  unfold step
  rcases bucket.try_consume_cases call.amount call.now with ⟨-, heq⟩ | ⟨-, heq⟩ <;> rw [heq] <;>
    exact hfields

theorem Sound.stepped (h : bucket.Sound) (hcall : Timely bucket call) :
    (step bucket call).2.Sound := by
  obtain ⟨hnonneg, hle, hrefill⟩ := h.refilled hcall.2
  unfold TokenBucket.step
  rcases bucket.try_consume_cases call.amount call.now with ⟨henough, heq⟩ | ⟨-, heq⟩ <;> rw [heq]
  · exact ⟨sub_nonneg.mpr henough, (sub_le_self _ hcall.1).trans hle, hrefill⟩
  · exact ⟨hnonneg, hle, hrefill⟩

/-- Calls in order are timely, each where it is made. -/
theorem Sound.meets (h : bucket.Sound) (hcalls : InOrder bucket.updatedAt calls) :
    Machine.Meets step Timely bucket calls := by
  induction calls generalizing bucket with
  | nil => trivial
  | cons call calls ih =>
      refine ⟨hcalls.1, ih (h.stepped hcalls.1) ?_⟩
      rw [(h.step_fields hcalls.1).2.2]
      exact hcalls.2

/-! ## What is consumed -/

/-- What a call consumes. -/
def granted (bucket : TokenBucket) (call : ConsumeCall) : ℚ :=
  if (bucket.step call).1 then call.amount else 0

/-- What a call consumes between two times. -/
def grantedWithin (start stop : ℚ) (bucket : TokenBucket) (call : ConsumeCall) : ℚ :=
  if start ≤ call.now ∧ call.now ≤ stop then bucket.granted call else 0

/-- What calls consume between two times. -/
def consumed (bucket : TokenBucket) (calls : List ConsumeCall) (start stop : ℚ) : ℚ :=
  Machine.total step (grantedWithin start stop) bucket calls

/-- What a bucket can still give between two times: all it can hold and be refilled with before
they have begun, and afterwards what it holds and is refilled with until they end. -/
def allowance (start stop : ℚ) (bucket : TokenBucket) : ℚ :=
  if bucket.updatedAt < start then bucket.capacity + bucket.refillPerSecond * (stop - start)
  else if bucket.updatedAt ≤ stop then
    bucket.tokens + bucket.refillPerSecond * (stop - bucket.updatedAt)
  else 0

variable {start stop : ℚ}

theorem granted_nonneg (hcall : Timely bucket call) : 0 ≤ bucket.granted call := by
  unfold granted
  split
  · exact hcall.1
  · exact le_rfl

/-- What a call leaves is what the refill gave but for what it consumed. -/
theorem tokens_step (bucket : TokenBucket) (call : ConsumeCall) :
    bucket.granted call + (bucket.step call).2.tokens = (bucket.refill call.now).tokens := by
  unfold granted step
  rcases bucket.try_consume_cases call.amount call.now with ⟨-, heq⟩ | ⟨-, heq⟩ <;> rw [heq]
  · exact add_sub_cancel _ _
  · exact zero_add _

theorem Sound.allowance_nonneg (hspan : start ≤ stop) (h : bucket.Sound) :
    0 ≤ bucket.allowance start stop := by
  obtain ⟨hnonneg, hle, hrefill⟩ := h
  unfold allowance
  split_ifs with hbefore hwithin
  · exact add_nonneg (hnonneg.trans hle) (mul_nonneg hrefill (sub_nonneg.mpr hspan))
  · exact add_nonneg hnonneg (mul_nonneg hrefill (sub_nonneg.mpr hwithin))
  · exact le_rfl

/-- A bucket can give no more than it can hold and is refilled with. -/
theorem Sound.allowance_le (hspan : start ≤ stop) (h : bucket.Sound) :
    bucket.allowance start stop ≤ bucket.capacity + bucket.refillPerSecond * (stop - start) := by
  obtain ⟨hnonneg, hle, hrefill⟩ := h
  have hspanned := mul_nonneg hrefill (sub_nonneg.mpr hspan)
  unfold allowance
  split_ifs with hbefore hwithin
  · exact le_rfl
  · have hlater := mul_le_mul_of_nonneg_left (sub_le_sub_left (not_lt.mp hbefore) stop) hrefill
    exact add_le_add hle hlater
  · exact add_nonneg (hnonneg.trans hle) hspanned

/-- What a call consumes between two times is taken from what the bucket can still give. -/
theorem Sound.granted_add_allowance_le (hspan : start ≤ stop) (h : bucket.Sound)
    (hcall : Timely bucket call) :
    bucket.grantedWithin start stop call + (bucket.step call).2.allowance start stop ≤
      bucket.allowance start stop := by
  obtain ⟨hcapacity, hrefill, htime⟩ := h.step_fields hcall
  have hleft := tokens_step bucket call
  have hrefilled := h.refilled hcall.2
  have hnonneg := h.allowance_nonneg hspan
  rcases lt_or_ge call.now start with hbefore | hstarted
  · -- before the two times begin, a call changes nothing about what can be given
    have hupdated : bucket.updatedAt < start := hcall.2.trans_lt hbefore
    rw [grantedWithin, if_neg fun hwithin ↦ hbefore.not_ge hwithin.1, allowance, htime,
      if_pos hbefore, hcapacity, hrefill, allowance, if_pos hupdated, zero_add]
  rcases lt_or_ge stop call.now with hafter | hwithin
  · rw [grantedWithin, if_neg fun hwithin ↦ hafter.not_ge hwithin.2, allowance, htime,
      if_neg hstarted.not_gt, if_neg hafter.not_ge, zero_add]
    exact hnonneg
  rw [grantedWithin, if_pos ⟨hstarted, hwithin⟩, allowance, htime, if_neg hstarted.not_gt,
    if_pos hwithin, hrefill, ← add_assoc, hleft]
  have hfull : (bucket.refill call.now).tokens ≤ bucket.capacity :=
    hrefilled.tokens_le_capacity.trans_eq (h.refill_fields hcall.2).1
  unfold allowance
  split_ifs with hupdated hlater
  · have hshorter := mul_le_mul_of_nonneg_left (sub_le_sub_left hstarted stop) h.refill_nonneg
    exact add_le_add hfull hshorter
  · have hearned : (bucket.refill call.now).tokens ≤
        bucket.tokens + (call.now - bucket.updatedAt) * bucket.refillPerSecond := by
      rw [h.refill_eq hcall.2]
      exact min_le_right _ _
    linarith
  · exact absurd (hcall.2.trans hwithin) hlater

/-- Between two times no more is consumed than a bucket can hold and is refilled with. -/
theorem Sound.consumed_le (hspan : start ≤ stop) (h : bucket.Sound)
    (hcalls : InOrder bucket.updatedAt calls) :
    bucket.consumed calls start stop ≤
      bucket.capacity + bucket.refillPerSecond * (stop - start) :=
  (Machine.total_le_potential (fun _ _ hs hl ↦ Sound.stepped hs hl)
    (fun _ _ hs hl ↦ hs.granted_add_allowance_le hspan hl)
    (fun _ hs ↦ hs.allowance_nonneg hspan) h (h.meets hcalls)).trans (h.allowance_le hspan)

/-! ## Calls that consume nothing -/

/-- What calls are answered. -/
def answers (bucket : TokenBucket) (calls : List ConsumeCall) : List Bool :=
  (Machine.visited step bucket calls).map (·.1)

/-- A call that consumes nothing leaves the bucket refilled. -/
theorem step_of_granted_eq_zero (hfree : bucket.granted call = 0) :
    (bucket.step call).2 = bucket.refill call.now := by
  unfold granted at hfree
  unfold step at hfree ⊢
  rcases bucket.try_consume_cases call.amount call.now with ⟨-, heq⟩ | ⟨-, heq⟩
  · rw [heq] at hfree ⊢
    have hnothing : call.amount = 0 := hfree
    rw [hnothing, sub_zero]
  · rw [heq]

/-- A call on a bucket that was refilled on the way is one on the bucket itself. -/
theorem Sound.step_refill (h : bucket.Sound) (hnow : bucket.updatedAt ≤ now)
    (hcall : now ≤ call.now) : (bucket.refill now).step call = bucket.step call := by
  unfold TokenBucket.step tryConsume
  rw [h.refill_refill hnow hcall]

/-- So a refill on the way changes no later answer. -/
theorem Sound.answers_refill (h : bucket.Sound) (hnow : bucket.updatedAt ≤ now)
    (hcalls : InOrder now calls) : (bucket.refill now).answers calls = bucket.answers calls := by
  cases calls with
  | nil => rfl
  | cons call calls =>
      unfold answers Machine.visited
      rw [h.step_refill hnow hcalls.1.2]

/-- The last of calls in order comes after the time they start from. -/
theorem InOrder.le_last {since : ℚ} (h : InOrder since (calls ++ [call])) : since ≤ call.now := by
  induction calls generalizing since with
  | nil => exact h.1.2
  | cons first calls ih => exact h.1.2.trans (ih h.2)

/-- After calls that consumed nothing, a bucket is refilled as if there had been none. -/
theorem Sound.refill_final (h : bucket.Sound)
    (hcalls : InOrder bucket.updatedAt (calls ++ [call]))
    (hfree : Machine.Meets step (fun bucket call ↦ Timely bucket call ∧ bucket.granted call = 0)
      bucket calls) :
    (Machine.final step bucket calls).refill call.now = bucket.refill call.now := by
  induction calls generalizing bucket with
  | nil => rfl
  | cons first calls ih =>
      obtain ⟨⟨htimely, hnothing⟩, hrest⟩ := hfree
      have hrefilled := step_of_granted_eq_zero hnothing
      have htime := (h.refill_fields htimely.2).2.2
      have hafter : InOrder (bucket.refill first.now).updatedAt (calls ++ [call]) := by
        rw [htime]
        exact hcalls.2
      rw [hrefilled] at hrest
      rw [Machine.final_cons, hrefilled, ih (h.refilled htimely.2) hafter hrest,
        h.refill_refill htimely.2 (InOrder.le_last hcalls.2)]

/-- Asking when to come back refills the bucket. -/
theorem retry_after_seconds_snd (bucket : TokenBucket) (amount now : ℚ) :
    (bucket.retryAfterSeconds amount now).2 = bucket.refill now := by
  unfold retryAfterSeconds
  dsimp only
  split_ifs <;> rfl

/-- A bucket that is refilled holds the amount by the time it said. -/
theorem Sound.le_tokens_refill (h : bucket.Sound) (hrefill : 0 < bucket.refillPerSecond)
    (hamount : amount ≤ bucket.capacity) (hnow : bucket.updatedAt ≤ now)
    (hlater : now ≤ later) (hwaited : now + (bucket.retryAfterSeconds amount now).1 ≤ later) :
    amount ≤ (bucket.refill later).tokens := by
  obtain ⟨hcapacity, hrate, htime⟩ := h.refill_fields hnow
  have hsound := h.refilled hnow
  have hearned := mul_nonneg (sub_nonneg.mpr hlater) hrefill.le
  rw [← h.refill_refill hnow hlater, hsound.refill_eq (htime.le.trans hlater)]
  rw [hcapacity, hrate, htime]
  refine le_min hamount ?_
  rcases le_or_gt amount (bucket.refill now).tokens with henough | hshort
  · exact henough.trans (le_add_of_nonneg_right hearned)
  have hseconds : (bucket.retryAfterSeconds amount now).1 =
      max 1 (⌊(amount - (bucket.refill now).tokens) / bucket.refillPerSecond⌋ + 1) := by
    unfold retryAfterSeconds
    dsimp only
    rw [if_neg hshort.not_ge, hrate, if_neg hrefill.not_ge]
  have hfloor :=
    Int.lt_floor_add_one ((amount - (bucket.refill now).tokens) / bucket.refillPerSecond)
  have hrounded :
      ((⌊(amount - (bucket.refill now).tokens) / bucket.refillPerSecond⌋ : Int) : ℚ) + 1 ≤
        (bucket.retryAfterSeconds amount now).1 := by
    rw [hseconds]
    exact_mod_cast le_max_right 1 _
  have hwait : (amount - (bucket.refill now).tokens) / bucket.refillPerSecond < later - now := by
    linarith
  have hdeficit := (div_lt_iff₀ hrefill).mp hwait
  linarith

/-! ## The law of the bucket -/

/-- What a bucket that is called over and over keeps to. -/
structure Lawful (capacity refillPerSecond start : ℚ) (calls : List ConsumeCall) : Prop where
  within_capacity : ∀ before after, calls = before ++ after →
    let reached := Machine.final step (create capacity refillPerSecond start) before
    0 ≤ reached.tokens ∧ reached.tokens ≤ capacity
  consumed_le : ∀ s t, s ≤ t →
    (create capacity refillPerSecond start).consumed calls s t ≤
      capacity + refillPerSecond * (t - s)
  refused_consumes_nothing : ∀ before call after, calls = before ++ call :: after →
    let reached := Machine.final step (create capacity refillPerSecond start) before
    (reached.step call).1 = false → (reached.step call).2 = reached.refill call.now ∧
      (reached.step call).2.answers after = reached.answers after
  retry_succeeds : ∀ before call after, calls = before ++ call :: after →
    let reached := Machine.final step (create capacity refillPerSecond start) before
    (reached.step call).1 = false → call.amount ≤ capacity → 0 < refillPerSecond →
      ∀ asked waiting later, call.now ≤ asked → InOrder asked (waiting ++ [⟨call.amount, later⟩]) →
        let retry := (reached.step call).2.retryAfterSeconds call.amount asked
        Machine.total step granted retry.2 waiting = 0 → asked + retry.1 ≤ later →
          ((Machine.final step retry.2 waiting).tryConsume call.amount later).1 = true

theorem InOrder.left {since : ℚ} {before after : List ConsumeCall}
    (h : InOrder since (before ++ after)) : InOrder since before := by
  induction before generalizing since with
  | nil => trivial
  | cons call before ih => exact ⟨h.1, ih h.2⟩

/-- Calls in order lead to a sound bucket, from which the rest of them are in order. -/
theorem Sound.reached {since : ℚ} {before after : List ConsumeCall} {bucket : TokenBucket}
    (h : bucket.Sound) (hsince : bucket.updatedAt = since)
    (hcalls : InOrder since (before ++ after)) :
    let reached := Machine.final step bucket before
    reached.Sound ∧ reached.capacity = bucket.capacity ∧
      reached.refillPerSecond = bucket.refillPerSecond ∧ InOrder reached.updatedAt after := by
  induction before generalizing bucket since with
  | nil => exact ⟨h, rfl, rfl, hsince ▸ hcalls⟩
  | cons call before ih =>
      have htimely : Timely bucket call := ⟨hcalls.1.1, hsince ▸ hcalls.1.2⟩
      obtain ⟨hcapacity, hrefill, htime⟩ := h.step_fields htimely
      obtain ⟨hsound, hsame, hsame', hafter⟩ := ih (h.stepped htimely) htime hcalls.2
      exact ⟨hsound, hsame.trans hcapacity, hsame'.trans hrefill, hafter⟩

/-- A bucket of any capacity and rate keeps to its law under all calls in order. -/
theorem bucket_lawful {capacity refillPerSecond start : ℚ} (hcapacity : 0 ≤ capacity)
    (hrefill : 0 ≤ refillPerSecond) {calls : List ConsumeCall} (hcalls : InOrder start calls) :
    Lawful capacity refillPerSecond start calls := by
  have hsound := sound_create hcapacity hrefill start
  refine ⟨?_, ?_, ?_, ?_⟩
  · rintro before after rfl
    obtain ⟨hreached, hsame, -⟩ := hsound.reached rfl hcalls
    exact ⟨hreached.tokens_nonneg, hreached.tokens_le_capacity.trans_eq hsame⟩
  · exact fun s t hspan ↦ hsound.consumed_le hspan hcalls
  · rintro before call after rfl reached hrefused
    obtain ⟨hreached, -, -, htimely, hafter⟩ := hsound.reached rfl hcalls
    have hleft : (reached.step call).2 = reached.refill call.now :=
      step_of_granted_eq_zero (by rw [granted, hrefused, if_neg Bool.false_ne_true])
    refine ⟨hleft, ?_⟩
    rw [hleft]
    exact hreached.answers_refill htimely.2 hafter
  · rintro before call after rfl reached hrefused hamount hpositive asked waiting later hasked
      hwaiting retry hfree hwaited
    obtain ⟨hreached, hsame, hsame', htimely, -⟩ := hsound.reached rfl hcalls
    have hleft : (reached.step call).2 = reached.refill call.now :=
      step_of_granted_eq_zero (by rw [granted, hrefused, if_neg Bool.false_ne_true])
    obtain ⟨hcap, hrate, htime⟩ := hreached.refill_fields htimely.2
    have hrefilled := hreached.refilled htimely.2
    have hasked' : (reached.refill call.now).updatedAt ≤ asked := htime.le.trans hasked
    have hretry : retry.2 = (reached.refill call.now).refill asked :=
      (retry_after_seconds_snd _ _ _).trans (congrArg (fun bucket ↦ bucket.refill asked) hleft)
    have hsaid : retry.1 = ((reached.refill call.now).retryAfterSeconds call.amount asked).1 :=
      congrArg (fun bucket : TokenBucket ↦ (bucket.retryAfterSeconds call.amount asked).1) hleft
    have hready := (hrefilled.refill_fields hasked').2.2
    rw [hretry] at hfree ⊢
    have hidle := Machine.meets_free (fun _ _ ↦ granted_nonneg)
      ((hrefilled.refilled hasked').meets (hready.symm ▸ hwaiting.left)) hfree
    have hlater : asked ≤ later := hwaiting.le_last
    -- nothing was consumed since the caller asked, so the bucket is as full as it said
    have hfull : call.amount ≤ ((reached.refill call.now).refill later).tokens :=
      hrefilled.le_tokens_refill (hrate.trans hsame' ▸ hpositive)
        (hamount.trans_eq (hcap.trans hsame).symm) hasked' hlater (hsaid ▸ hwaited)
    have hsame₂ := (hrefilled.refilled hasked').refill_final (hready.symm ▸ hwaiting) hidle
    rw [hrefilled.refill_refill hasked' hlater] at hsame₂
    rw [tryConsume, hsame₂]
    exact congrArg Prod.fst (if_pos hfull)

/-- Of a full bucket of ten, ten are taken, four are refused, and four are there when it said. -/
theorem bucket_lawful_of_ten : Lawful 10 2 0 [⟨10, 0⟩, ⟨4, 0⟩, ⟨4, 3⟩] :=
  bucket_lawful (by norm_num) (by norm_num)
    ⟨⟨by norm_num, le_rfl⟩, ⟨by norm_num, le_rfl⟩, ⟨by norm_num, by norm_num⟩, trivial⟩

end TokenBucket

/-! ## The limiter -/

/-- `InMemoryQuotaLimiter`, with its buckets from the least recently used on. The settings check
the rate and the factor. -/
structure InMemoryQuotaLimiter where
  eventsPerSecond : ℚ
  burstMultiplier : ℚ
  maxTenants : Nat
  rate_pos : 0 < eventsPerSecond
  one_le_burst : 1 ≤ burstMultiplier
  buckets : List (PyStr × TokenBucket)

namespace InMemoryQuotaLimiter

/-- `_capacity`. -/
def capacity (limiter : InMemoryQuotaLimiter) : ℚ :=
  limiter.eventsPerSecond * limiter.burstMultiplier

/-- `_bucket`, where `now` is what the clock reads when a bucket is made. -/
def bucket (limiter : InMemoryQuotaLimiter) (organizationId : PyStr) (now : ℚ) :
    TokenBucket × InMemoryQuotaLimiter :=
  match limiter.buckets.lookup organizationId with
  | none =>
      let bucket := TokenBucket.create limiter.capacity limiter.eventsPerSecond now
      let buckets := limiter.buckets ++ [(organizationId, bucket)]
      (bucket, { limiter with
        buckets := if limiter.maxTenants < buckets.length then buckets.tail else buckets })
  | some bucket =>
      let others := limiter.buckets.filter fun entry ↦ entry.1 != organizationId
      (bucket, { limiter with buckets := others ++ [(organizationId, bucket)] })

/-- What was done to a bucket is done to the limiter's, unless the limiter dropped it. -/
def put (limiter : InMemoryQuotaLimiter) (organizationId : PyStr) (bucket : TokenBucket) :
    InMemoryQuotaLimiter :=
  { limiter with
    buckets := limiter.buckets.map fun entry ↦
      if entry.1 = organizationId then (entry.1, bucket) else entry }

/-- `check`. The clock is read once to make a bucket and once to use it. -/
def check (limiter : InMemoryQuotaLimiter) (organizationId : PyStr) (cost made now : ℚ) :
    Bool × InMemoryQuotaLimiter :=
  let (bucket, limiter) := limiter.bucket organizationId made
  let (granted, bucket) := bucket.tryConsume cost now
  (granted, limiter.put organizationId bucket)

/-- `remaining_fraction`. -/
def remainingFraction (limiter : InMemoryQuotaLimiter) (organizationId : PyStr) (made now : ℚ) :
    ℚ × InMemoryQuotaLimiter :=
  let (bucket, limiter) := limiter.bucket organizationId made
  let bucket := (bucket.tryConsume 0 now).2
  (if bucket.capacity ≤ 0 then 0 else max 0 (min 1 (bucket.tokens / bucket.capacity)),
    limiter.put organizationId bucket)

/-- `retry_after_seconds`. -/
def retryAfterSeconds (limiter : InMemoryQuotaLimiter) (organizationId : PyStr)
    (cost made now : ℚ) : Int × InMemoryQuotaLimiter :=
  let (bucket, limiter) := limiter.bucket organizationId made
  let (seconds, bucket) := bucket.retryAfterSeconds cost now
  (seconds, limiter.put organizationId bucket)

/-- The limiter as it stands at one moment, as the ingest path sees it. -/
def port (limiter : InMemoryQuotaLimiter) (now : ℚ) : QuotaLimiter where
  check organizationId cost := (limiter.check organizationId cost now now).1
  remainingFraction organizationId := (limiter.remainingFraction organizationId now now).1
  retryAfterSeconds organizationId cost :=
    (limiter.retryAfterSeconds organizationId cost now now).1

/-- The bucket is one of the limiter's, sound and not of a later time. -/
structure Holds (limiter : InMemoryQuotaLimiter) (bucket : TokenBucket) (now : ℚ) : Prop where
  sound : bucket.Sound
  capacity_eq : bucket.capacity = limiter.capacity
  refill_eq : bucket.refillPerSecond = limiter.eventsPerSecond
  updated_le : bucket.updatedAt ≤ now

/-- All buckets of the limiter are such. -/
def SoundAt (limiter : InMemoryQuotaLimiter) (now : ℚ) : Prop :=
  ∀ entry ∈ limiter.buckets, limiter.Holds entry.2 now

variable {limiter : InMemoryQuotaLimiter} {bucket : TokenBucket} {now later cost : ℚ}

theorem Holds.mono (h : limiter.Holds bucket now) (hlater : now ≤ later) :
    limiter.Holds bucket later :=
  ⟨h.sound, h.capacity_eq, h.refill_eq, h.updated_le.trans hlater⟩

theorem Holds.refill (h : limiter.Holds bucket now) (hlater : now ≤ later) :
    limiter.Holds (bucket.refill later) later := by
  obtain ⟨hcapacity, hrefill, htime⟩ := h.sound.refill_fields (h.updated_le.trans hlater)
  exact ⟨h.sound.refilled (h.updated_le.trans hlater), hcapacity.trans h.capacity_eq,
    hrefill.trans h.refill_eq, htime.le⟩

theorem Holds.try_consume (h : limiter.Holds bucket now) (hlater : now ≤ later)
    (hcost : 0 ≤ cost) : limiter.Holds (bucket.tryConsume cost later).2 later := by
  have htimely : TokenBucket.Timely bucket ⟨cost, later⟩ := ⟨hcost, h.updated_le.trans hlater⟩
  change limiter.Holds (bucket.step ⟨cost, later⟩).2 later
  obtain ⟨hcapacity, hrefill, htime⟩ := h.sound.step_fields htimely
  exact ⟨h.sound.stepped htimely, hcapacity.trans h.capacity_eq, hrefill.trans h.refill_eq,
    htime.le⟩

/-- A new bucket is sound: the capacity is that of a rate and a factor that were checked. -/
theorem holds_create (limiter : InMemoryQuotaLimiter) (now : ℚ) :
    limiter.Holds (.create limiter.capacity limiter.eventsPerSecond now) now :=
  ⟨TokenBucket.sound_create
      (mul_nonneg limiter.rate_pos.le (zero_le_one.trans limiter.one_le_burst))
      limiter.rate_pos.le now,
    rfl, rfl, le_rfl⟩

/-- Finding or making a bucket keeps the limiter sound. -/
theorem SoundAt.found (h : limiter.SoundAt now) (organizationId : PyStr) (hlater : now ≤ later) :
    limiter.Holds (limiter.bucket organizationId later).1 later ∧
      ∀ entry ∈ (limiter.bucket organizationId later).2.buckets, limiter.Holds entry.2 later := by
  have hkept : ∀ entry ∈ limiter.buckets, limiter.Holds entry.2 later :=
    fun entry hmem ↦ (h entry hmem).mono hlater
  unfold InMemoryQuotaLimiter.bucket
  cases hfound : limiter.buckets.lookup organizationId with
  | none =>
      have hmade := limiter.holds_create later
      have hadded : ∀ entry ∈ limiter.buckets ++ [(organizationId,
          TokenBucket.create limiter.capacity limiter.eventsPerSecond later)],
          limiter.Holds entry.2 later := by
        intro entry hmem
        rcases List.mem_append.mp hmem with hmem | hmem
        · exact hkept entry hmem
        · exact List.mem_singleton.mp hmem ▸ hmade
      refine ⟨hmade, fun entry hmem ↦ hadded entry ?_⟩
      dsimp only at hmem
      split at hmem
      · exact List.mem_of_mem_tail hmem
      · exact hmem
  | some bucket =>
      obtain ⟨before, after, hsplit, -⟩ := List.lookup_eq_some_iff.mp hfound
      have hbucket : limiter.Holds bucket later :=
        hkept (organizationId, bucket) (hsplit ▸ List.mem_append_right _ List.mem_cons_self)
      refine ⟨hbucket, fun entry hmem ↦ ?_⟩
      rcases List.mem_append.mp hmem with hmem | hmem
      · exact hkept entry (List.mem_of_mem_filter hmem)
      · exact List.mem_singleton.mp hmem ▸ hbucket

/-- So does using it. -/
theorem SoundAt.put (h : limiter.SoundAt now) (hbucket : limiter.Holds bucket now)
    (organizationId : PyStr) : (limiter.put organizationId bucket).SoundAt now := by
  intro entry hmem
  obtain ⟨kept, hkept, rfl⟩ := List.mem_map.mp hmem
  split
  · exact ⟨hbucket.sound, hbucket.capacity_eq, hbucket.refill_eq, hbucket.updated_le⟩
  · have hsame := h kept hkept
    exact ⟨hsame.sound, hsame.capacity_eq, hsame.refill_eq, hsame.updated_le⟩

/-- Finding a bucket leaves the settings. -/
theorem settings_bucket (limiter : InMemoryQuotaLimiter) (organizationId : PyStr) (now : ℚ) :
    (limiter.bucket organizationId now).2.capacity = limiter.capacity ∧
      (limiter.bucket organizationId now).2.eventsPerSecond = limiter.eventsPerSecond := by
  unfold InMemoryQuotaLimiter.bucket
  cases limiter.buckets.lookup organizationId <;> exact ⟨rfl, rfl⟩

/-- A call of the limiter: whose bucket is used, when it was looked up and when it is used. -/
inductive LimiterCall where
  | check (organizationId : PyStr) (cost made now : ℚ)
  | remainingFraction (organizationId : PyStr) (made now : ℚ)
  | retryAfterSeconds (organizationId : PyStr) (cost made now : ℚ)

/-- The limiter after a call. -/
def after (limiter : InMemoryQuotaLimiter) : LimiterCall → InMemoryQuotaLimiter
  | .check organizationId cost made now => (limiter.check organizationId cost made now).2
  | .remainingFraction organizationId made now =>
      (limiter.remainingFraction organizationId made now).2
  | .retryAfterSeconds organizationId cost made now =>
      (limiter.retryAfterSeconds organizationId cost made now).2

/-- The cost of the call is not negative, and the clock has not gone back. -/
def LimiterCall.Timely (since : ℚ) : LimiterCall → Prop
  | .check _ cost made now => 0 ≤ cost ∧ since ≤ made ∧ made ≤ now
  | .remainingFraction _ made now => since ≤ made ∧ made ≤ now
  | .retryAfterSeconds _ _ made now => since ≤ made ∧ made ≤ now

/-- When a bucket was last used. -/
def LimiterCall.usedAt : LimiterCall → ℚ
  | .check _ _ _ now => now
  | .remainingFraction _ _ now => now
  | .retryAfterSeconds _ _ _ now => now

/-- Putting back what became of a bucket that was found keeps the limiter sound. -/
theorem SoundAt.put_found {made : ℚ} {use : TokenBucket → TokenBucket}
    (h : limiter.SoundAt now) (organizationId : PyStr)
    (hmade : now ≤ made) (hlater : made ≤ later)
    (hused : ∀ {bucket}, limiter.Holds bucket made → limiter.Holds (use bucket) later) :
    ((limiter.bucket organizationId made).2.put organizationId
      (use (limiter.bucket organizationId made).1)).SoundAt later := by
  obtain ⟨hfound, hkept⟩ := h.found organizationId hmade
  obtain ⟨hcapacity, hrefill⟩ := limiter.settings_bucket organizationId made
  have hsame : ∀ {bucket}, limiter.Holds bucket later →
      (limiter.bucket organizationId made).2.Holds bucket later := fun hbucket ↦
    ⟨hbucket.sound, hbucket.capacity_eq.trans hcapacity.symm, hbucket.refill_eq.trans hrefill.symm,
      hbucket.updated_le⟩
  exact SoundAt.put (fun entry hmem ↦ hsame ((hkept entry hmem).mono hlater)) (hsame (hused hfound))
    organizationId

/-- A call keeps the limiter sound. -/
theorem SoundAt.after (h : limiter.SoundAt now) (call : LimiterCall) (hcall : call.Timely now) :
    (limiter.after call).SoundAt call.usedAt := by
  cases call with
  | check organizationId cost made later =>
      exact h.put_found organizationId hcall.2.1 hcall.2.2 fun hbucket ↦
        hbucket.try_consume hcall.2.2 hcall.1
  | remainingFraction organizationId made later =>
      exact h.put_found organizationId hcall.1 hcall.2 fun hbucket ↦
        hbucket.try_consume hcall.2 le_rfl
  | retryAfterSeconds organizationId cost made later =>
      have hsound := h.put_found organizationId hcall.1 hcall.2 fun hbucket ↦
        hbucket.refill hcall.2
      rw [← TokenBucket.retry_after_seconds_snd _ cost] at hsound
      exact hsound

/-- The times of the calls do not go back from a time on. -/
def InOrder : ℚ → List LimiterCall → Prop
  | _, [] => True
  | since, call :: calls => call.Timely since ∧ InOrder call.usedAt calls

/-- Whatever calls are made of a limiter, each of its buckets is a sound one of its capacity and
rate, so that the law of the bucket holds of it. -/
theorem sound_after_calls {calls : List LimiterCall} (h : limiter.SoundAt now)
    (hcalls : InOrder now calls) : ∃ later, (calls.foldl after limiter).SoundAt later := by
  induction calls generalizing limiter now with
  | nil => exact ⟨now, h⟩
  | cons call calls ih => exact ih (h.after call hcalls.1) hcalls.2

end InMemoryQuotaLimiter

end Aegis.Gateway
