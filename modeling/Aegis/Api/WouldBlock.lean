import Aegis.Api.FindingRuns
import Aegis.Worker.Loop

/-!
# What the would-block counter counts

The counter is meant to say how many attacks blocking would have stopped. It goes up with every
sighting of a finding that was exploited once, so it tells the number of attacks just when no
sighting outside of the blocking mode is less sure than one before it that was exploited
(`would_block_counts_iff`).
-/

namespace Aegis.Api

open Server

/-! ## Attacks and what is counted of them -/

/-- What a hit tells of an attack: how sure the agent is, and how the environment is protected. -/
structure Attack where
  confidence : Confidence
  mode : ProtectionMode
  deriving DecidableEq

/-- Blocking would have stopped the attack. -/
def Attack.wouldBlock (attack : Attack) : Bool :=
  attack.confidence = .EXPLOITED && attack.mode ≠ .BLOCK

/-- No hit is less sure than one that was exploited, unless the environment blocks. -/
def Attack.NoneWeaker (attacks : List Attack) : Prop :=
  attacks.Pairwise fun earlier later ↦
    earlier.confidence = .EXPLOITED → later.mode ≠ .BLOCK → later.confidence = .EXPLOITED

instance (attacks : List Attack) : Decidable (Attack.NoneWeaker attacks) :=
  inferInstanceAs (Decidable (List.Pairwise _ _))

/-- How sure a finding is, and its counter. -/
structure Tally where
  confidence : Confidence
  wouldBlockCount : Nat

attribute [ext] Tally

namespace Tally

/-- The tally of a finding that was not seen. -/
def blank : Tally :=
  ⟨.SUSPECTED, 0⟩

/-- One more hit. -/
def add (tally : Tally) (attack : Attack) : Tally :=
  let confidence :=
    if attack.confidence.order > tally.confidence.order then attack.confidence
    else tally.confidence
  ⟨confidence,
    if confidence = .EXPLOITED ∧ attack.mode ≠ .BLOCK then tally.wouldBlockCount + 1
    else tally.wouldBlockCount⟩

/-- A hit is counted: the finding is exploited with it, and the environment does not block. -/
def counts (tally : Tally) (attack : Attack) : Bool :=
  (tally.confidence = .EXPLOITED || attack.confidence = .EXPLOITED) && attack.mode ≠ .BLOCK

/-- The counter after a hit is decided by the confidence after it. -/
theorem add_eq {tally : Tally} {attack : Attack} {confidence : Confidence}
    (h : (tally.add attack).confidence = confidence) :
    tally.add attack = ⟨confidence,
      if confidence = .EXPLOITED ∧ attack.mode ≠ .BLOCK then tally.wouldBlockCount + 1
      else tally.wouldBlockCount⟩ := by
  subst h
  rfl

/-- What was exploited stays so. -/
theorem exploited_add (tally : Tally) (attack : Attack) :
    (tally.add attack).confidence = .EXPLOITED ↔
      tally.confidence = .EXPLOITED ∨ attack.confidence = .EXPLOITED := by
  unfold add
  cases tally.confidence <;> cases attack.confidence <;> simp [Confidence.order]

/-- The counter goes up with each hit that is counted. -/
theorem count_add (tally : Tally) (attack : Attack) :
    (tally.add attack).wouldBlockCount =
      tally.wouldBlockCount + if tally.counts attack = true then 1 else 0 := by
  have hexploited := tally.exploited_add attack
  unfold add at hexploited ⊢
  dsimp only at hexploited ⊢
  simp only [hexploited, counts, Bool.and_eq_true, Bool.or_eq_true, decide_eq_true_eq]
  split <;> rfl

/-- A hit that blocking would have stopped is counted. -/
theorem counts_of_would_block (tally : Tally) {attack : Attack} (h : attack.wouldBlock = true) :
    tally.counts attack = true := by
  unfold Attack.wouldBlock at h
  unfold counts
  rw [Bool.and_eq_true] at h ⊢
  exact ⟨by rw [h.1, Bool.or_true], h.2⟩

/-- No attack that blocking would have stopped is missed. -/
theorem count_le_foldl (tally : Tally) (attacks : List Attack) :
    tally.wouldBlockCount + attacks.countP Attack.wouldBlock ≤
      (attacks.foldl add tally).wouldBlockCount := by
  induction attacks generalizing tally with
  | nil => exact le_rfl
  | cons attack attacks ih =>
      have hrest := ih (tally.add attack)
      rw [count_add] at hrest
      rw [List.foldl_cons, List.countP_cons]
      refine le_trans ?_ hrest
      by_cases hblock : attack.wouldBlock = true
      · rw [if_pos hblock, if_pos (tally.counts_of_would_block hblock)]
        omega
      · rw [if_neg hblock]
        omega

/-- Only they are counted just when no hit is weaker than one before it that was exploited. -/
theorem count_foldl_iff (tally : Tally) (attacks : List Attack) :
    (attacks.foldl add tally).wouldBlockCount =
        tally.wouldBlockCount + attacks.countP Attack.wouldBlock ↔
      (tally.confidence = .EXPLOITED → ∀ attack ∈ attacks, attack.mode ≠ .BLOCK →
        attack.confidence = .EXPLOITED) ∧ Attack.NoneWeaker attacks := by
  induction attacks generalizing tally with
  | nil => exact iff_of_true rfl ⟨fun _ _ hmem ↦ (nomatch hmem), .nil⟩
  | cons attack attacks ih =>
      have hrest := ih (tally.add attack)
      have hle := count_le_foldl (tally.add attack) attacks
      rw [count_add] at hrest hle
      rw [exploited_add] at hrest
      unfold Attack.NoneWeaker at hrest ⊢
      rw [List.foldl_cons, List.countP_cons, List.pairwise_cons, List.forall_mem_cons]
      cases hcounts : tally.counts attack with
      | false =>
          have hblock : attack.wouldBlock = false :=
            Bool.eq_false_iff.mpr fun h ↦ nomatch hcounts.symm.trans (tally.counts_of_would_block h)
          rw [hcounts, if_neg nofun, Nat.add_zero] at hrest
          rw [hblock, if_neg nofun, Nat.add_zero, hrest]
          unfold counts at hcounts
          simp only [Bool.and_eq_false_iff, Bool.or_eq_false_iff, decide_eq_false_iff_not] at hcounts
          tauto
      | true =>
          rw [hcounts, if_pos rfl] at hrest hle
          cases hblock : attack.wouldBlock with
          | false =>
              -- a hit that blocking would not have stopped is counted
              rw [if_neg nofun]
              unfold counts at hcounts
              unfold Attack.wouldBlock at hblock
              simp only [Bool.and_eq_true, Bool.or_eq_true, decide_eq_true_eq] at hcounts
              simp only [Bool.and_eq_false_iff, decide_eq_false_iff_not] at hblock
              have hconfidence := hblock.resolve_right (not_not_intro hcounts.2)
              refine iff_of_false (by omega) fun h ↦ hconfidence ?_
              exact (h.1 (hcounts.1.resolve_right hconfidence)).1 hcounts.2
          | true =>
              rw [if_pos rfl, ← Nat.add_assoc, Nat.add_right_comm, hrest]
              unfold Attack.wouldBlock at hblock
              simp only [Bool.and_eq_true, decide_eq_true_eq] at hblock
              tauto

/-- From the first hit on. -/
theorem count_blank_iff (attacks : List Attack) :
    (attacks.foldl add blank).wouldBlockCount = attacks.countP Attack.wouldBlock ↔
      Attack.NoneWeaker attacks := by
  have h := count_foldl_iff blank attacks
  rw [show blank.wouldBlockCount = 0 from rfl, Nat.zero_add] at h
  exact h.trans (and_iff_right nofun)

end Tally

/-! ## The counter of a finding -/

/-- How sure a row is, and its counter. -/
def tallyOf (tenant : Tenant) (identity : PyStr) : Tally :=
  match tenant.rowOf identity with
  | none => .blank
  | some row => ⟨row.val.confidence, row.val.wouldBlockCount⟩

/-- What an event tells of an attack on the defect of an identity, if it is folded into it. -/
def attackFor (pipeline : ProcessRuntimeEvents) (organizationId : Uuid) (tenant : Tenant)
    (identity : PyStr) (record : JsonObject) : Option Attack :=
  (admitted pipeline.library tenant record).bind fun hit ↦
    if (pipeline.identify organizationId hit).toOption.map Prod.fst = some identity then
      some ⟨confidenceOf pipeline.library (dictGet hit.payload (py "confidence")),
        hit.context.protectionMode⟩
    else none

/-- The attacks on a defect that something tells of: those of a transaction that is committed. -/
def attacksAt (pipeline : ProcessRuntimeEvents) (organizationId : Uuid) (identity : PyStr)
    (worker : WorkerState) : Happening → List Attack
  | .fold group faults =>
      if organizationId = group.1 ∧ (pipeline.transaction group worker faults).outcome.toBool then
        group.2.filterMap
          (attackFor pipeline organizationId (worker.database organizationId) identity)
      else []
  | .batch _ | .configure .. | .triage .. => []

/-- The attacks on a defect that a run tells of. -/
def attacksOf (pipeline : ProcessRuntimeEvents) (organizationId : Uuid) (identity : PyStr) :
    WorkerState → List Happening → List Attack
  | _, [] => []
  | worker, happening :: happenings =>
      attacksAt pipeline organizationId identity worker happening ++
        attacksOf pipeline organizationId identity (worker.step pipeline happening).2 happenings

variable {pipeline : ProcessRuntimeEvents} {organizationId : Uuid} {b : Batch}

/-- The confidence that is raised is the greater. -/
theorem Finding.confidence_raise (finding : Finding) (confidence : Confidence) :
    (finding.raiseConfidence confidence).confidence =
      if confidence.order > finding.confidence.order then confidence else finding.confidence := by
  unfold raiseConfidence
  split <;> rfl

/-- A sighting leaves the confidence as it is. -/
theorem Finding.confidence_see (finding : Finding) (context : AgentContext) (route : PyStr)
    (observedAt : Instant) :
    (finding.see context route observedAt).1.confidence = finding.confidence := by
  rw [see, counts_record_occurrence, count_attack_eq]
  rfl

/-- The tally of a finding goes on with a hit that is folded into it. -/
theorem tally_of_fold {record : JsonObject} {hit : Hit} {fold : Fold} {after : Batch}
    (h : fold.Of pipeline hit organizationId record b after) :
    tallyOf after.tenant fold.identity = (tallyOf b.tenant fold.identity).add
      ⟨confidenceOf pipeline.library (dictGet hit.payload (py "confidence")),
        hit.context.protectionMode⟩ := by
  obtain ⟨row, hheld, hrows⟩ := h.rows
  have hcontinues := h.continues
  have hfinding : fold.finding.wouldBlockCount =
        (tallyOf b.tenant fold.identity).wouldBlockCount ∧
      ((tallyOf b.tenant fold.identity).add
        ⟨confidenceOf pipeline.library (dictGet hit.payload (py "confidence")),
          hit.context.protectionMode⟩).confidence = fold.finding.confidence := by
    unfold Fold.Continues at hcontinues
    unfold tallyOf
    cases hrow : b.tenant.rowOf fold.identity with
    | none =>
        rw [hrow] at hcontinues
        obtain ⟨title, hfresh⟩ := hcontinues
        rw [hfresh]
        refine ⟨rfl, ?_⟩
        show (if (confidenceOf _ _).order > 0 then confidenceOf _ _ else _) = confidenceOf _ _
        cases confidenceOf pipeline.library (dictGet hit.payload (py "confidence")) <;> rfl
    | some old =>
        rw [hrow] at hcontinues
        rw [hcontinues]
        refine ⟨?_, Eq.symm ?_⟩
        · rw [Finding.raise_confidence_eq]
        · exact Finding.confidence_raise _ _
  rw [Tally.add_eq hfinding.2, ← hfinding.1]
  unfold tallyOf
  rw [hrows, if_pos rfl]
  exact Tally.ext (hheld.confidence.trans (Finding.confidence_see _ _ _ _))
    (hheld.wouldBlockCount.trans (Finding.would_block_count_see _ _ _ _))

/-- The tallies after an event that is folded, ignored or rejected. -/
theorem ends_fold_record_tally {record : JsonObject} (h : b.Coherent pipeline.library) :
    Prog.Ends (pipeline.foldRecord organizationId record) b
      (fun _ after ↦ ∀ identity, tallyOf after.tenant identity =
        (attackFor pipeline organizationId b.tenant identity record).toList.foldl Tally.add
          (tallyOf b.tenant identity))
      fun _ _ ↦ True := by
  refine (ends_fold_record_cases h).mono (fun _ after ⟨_, hcases⟩ identity ↦ ?_) fun _ _ _ ↦ trivial
  unfold attackFor
  rcases hcases with ⟨hadmitted, hsame⟩ | ⟨hit, fold, hadmitted, hof, -⟩
  · rw [hadmitted, hsame.tenant]
    rfl
  · rw [hadmitted, Option.bind_some, hof.identity]
    show _ = List.foldl _ _ (Option.toList (if some fold.identity = some identity then _ else _))
    by_cases hsame : fold.identity = identity
    · subst hsame
      rw [if_pos rfl, tally_of_fold hof]
      rfl
    · rw [if_neg fun heq ↦ hsame (Option.some.inj heq)]
      obtain ⟨row, -, hrows⟩ := hof.rows
      unfold tallyOf
      rw [hrows, if_neg (Ne.symm hsame)]
      rfl

/-- The agents of an organization decide what its events tell. -/
theorem attack_for_congr {tenant tenant' : Tenant} (h : tenant'.agents = tenant.agents)
    (identity : PyStr) :
    attackFor pipeline organizationId tenant' identity =
      attackFor pipeline organizationId tenant identity := by
  funext record
  unfold attackFor
  rw [admitted_congr h]

/-- The tallies after the loop over the events of an organization. -/
theorem ends_fold_records_tally {records : List JsonObject} (h : b.Coherent pipeline.library) :
    Prog.Ends (pipeline.foldRecords organizationId records) b
      (fun _ after ↦ ∀ identity, tallyOf after.tenant identity =
        (records.filterMap (attackFor pipeline organizationId b.tenant identity)).foldl Tally.add
          (tallyOf b.tenant identity))
      fun _ _ ↦ True := by
  induction records generalizing b with
  | nil => exact Prog.ends_pure fun _ ↦ rfl
  | cons record records ih =>
      refine Prog.ends_bind (((ends_fold_record h).and (ends_fold_record_tally h)).mono
        (fun _ next ⟨htook, htally⟩ ↦ ?_) fun _ _ _ ↦ trivial)
      refine (ih htook.coherent).mono (fun _ after hrest identity ↦ ?_) fun _ _ h ↦ h
      rw [hrest, htally, attack_for_congr htook.agents, ← List.foldl_append]
      cases hattack : attackFor pipeline organizationId b.tenant identity record with
      | none => rw [List.filterMap_cons_none hattack]; rfl
      | some attack => rw [List.filterMap_cons_some hattack]; rfl

/-- The tally of a finding goes on with the attacks that something tells of. -/
theorem tally_step (worker : WorkerState) (happening : Happening) (identity : PyStr) :
    tallyOf ((worker.step pipeline happening).2.database organizationId) identity =
      (attacksAt pipeline organizationId identity worker happening).foldl Tally.add
        (tallyOf (worker.database organizationId) identity) := by
  cases happening with
  | batch result => rfl
  | fold group faults =>
      show tallyOf ((pipeline.transaction group worker faults).state.database _) _ =
        (if organizationId = group.1 ∧ (pipeline.transaction group worker faults).outcome.toBool =
          true then _ else []).foldl _ _
      rcases transaction_cases pipeline group worker faults with
        ⟨after, rest, hfolded, hok, hstate⟩ | ⟨failure, after, herror, hstate, -⟩
      · rw [hok, hstate, worker.database_commit]
        by_cases hgroup : organizationId = group.1
        · subst hgroup
          have hcoherent : (worker.begin group.1).Coherent pipeline.library := by
            intro _ _ h
            cases h
          rw [if_pos rfl, if_pos ⟨rfl, rfl⟩]
          exact (ends_fold_records_tally hcoherent).of_ok hfolded identity
        · rw [if_neg hgroup, if_neg fun h ↦ hgroup h.1]
          rfl
      · rw [herror, hstate, if_neg fun h ↦ nomatch h.2]
        rfl
  | configure other agents =>
      show tallyOf ((worker.set other _).database organizationId) identity = _
      rw [worker.database_set]
      split
      · next hother =>
          rw [hother]
          rfl
      · rfl
  | triage other named triage =>
      show tallyOf ((worker.set other _).database organizationId) identity = _
      rw [worker.database_set]
      split
      · next hother =>
          subst hother
          show _ = tallyOf (worker.database organizationId) identity
          unfold tallyOf
          rcases (worker.database organizationId).row_of_triage named triage identity with
            ⟨hnone, hbefore⟩ | ⟨row, old, hrow, hold, hsame⟩
          · rw [hnone, hbefore]
          · rw [hrow, hold]
            exact Tally.ext hsame.confidence hsame.wouldBlockCount
      · rfl

/-- In a run it goes on with the attacks that the run tells of. -/
theorem tally_final (worker : WorkerState) (run : List Happening) (identity : PyStr) :
    tallyOf ((Machine.final (WorkerState.step pipeline) worker run).database organizationId)
        identity =
      (attacksOf pipeline organizationId identity worker run).foldl Tally.add
        (tallyOf (worker.database organizationId) identity) := by
  induction run generalizing worker with
  | nil => rfl
  | cons happening run ih =>
      rw [Machine.final_cons, ih, tally_step, attacksOf, List.foldl_append]

/-- In every run from before a finding was made, its counter tells the number of attacks that
blocking would have stopped just when no hit outside of the blocking mode is weaker than one before
it that was exploited. -/
theorem would_block_counts_iff (pipeline : ProcessRuntimeEvents) {worker : WorkerState}
    {organizationId : Uuid} {identity : PyStr}
    (h : (worker.database organizationId).rowOf identity = none) (run : List Happening) :
    (tallyOf ((Machine.final (WorkerState.step pipeline) worker run).database organizationId)
        identity).wouldBlockCount =
      (attacksOf pipeline organizationId identity worker run).countP Attack.wouldBlock ↔
    Attack.NoneWeaker (attacksOf pipeline organizationId identity worker run) := by
  have hblank : tallyOf (worker.database organizationId) identity = .blank := by
    unfold tallyOf
    rw [h]
  rw [tally_final, hblank]
  exact Tally.count_blank_iff _

/-- A hit of the example, as sure as this. -/
def hitOf (confidence : PyStr) : JsonObject :=
  [(py "organization_id", .str (py "00000000-0000-0000-0000-000000000001")),
    (py "agent_id", .str (py "00000000-0000-0000-0000-000000000002")),
    (py "type", .str (py "EVENT_TYPE_TAINT_HIT")), (py "occurred_at_ms", .int 1),
    (py "payload", .object (Worker.exampleHit ++ [(py "confidence", .str confidence)]))]

/-- Hits of the organization of the example, in transactions of their own. -/
def hitsOf (confidences : List PyStr) : List Happening :=
  confidences.map fun confidence ↦ .fold (1, [hitOf confidence]) []

/-- An exploited sighting in the monitoring mode, and one that is suspected after the environment
blocks. -/
theorem would_block_counts_attack :
    (tallyOf ((Machine.final (WorkerState.step Worker.examplePipeline) Worker.exampleWorker
        (hitsOf [py "EXPLOITED"] ++
          .configure 1 [(2, ⟨3, .PRODUCTION, true, .HIGH, .BLOCK⟩)] ::
            hitsOf [py "SUSPECTED"])).database 1) (PyStr.hex 64 0)).wouldBlockCount =
      (attacksOf Worker.examplePipeline 1 (PyStr.hex 64 0) Worker.exampleWorker
        (hitsOf [py "EXPLOITED"] ++
          .configure 1 [(2, ⟨3, .PRODUCTION, true, .HIGH, .BLOCK⟩)] ::
            hitsOf [py "SUSPECTED"])).countP Attack.wouldBlock :=
  (would_block_counts_iff Worker.examplePipeline (by decide +kernel) _).mpr (by decide +kernel)

/-- A suspected sighting of a finding that was exploited once is counted: two are counted, and one
was an attack. -/
theorem would_block_counts_suspected :
    (Worker.exampleWorker.database 1).rowOf (PyStr.hex 64 0) = none ∧
      ¬ ∀ run, (tallyOf ((Machine.final (WorkerState.step Worker.examplePipeline)
          Worker.exampleWorker run).database 1) (PyStr.hex 64 0)).wouldBlockCount =
        (attacksOf Worker.examplePipeline 1 (PyStr.hex 64 0) Worker.exampleWorker run).countP
          Attack.wouldBlock := by
  refine ⟨by decide +kernel, fun h ↦ ?_⟩
  exact absurd (h (hitsOf [py "EXPLOITED", py "SUSPECTED"])) (by decide +kernel)

end Aegis.Api
