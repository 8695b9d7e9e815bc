import Aegis.Gateway.Accounting

/-!
# Containment of an invalid line

In the lenient mode a line that is not a valid event should cost nothing but itself. The loop
catches what `json.loads` raises as a `JSONDecodeError` and nothing else, so a line that is no
UTF-8, or nested too deeply, takes the whole batch down. `contained_iff` says exactly when an
invalid line is contained.
-/

namespace Aegis.Gateway

open Server

variable (config : IngestConfig) (loads : Loads) (principal : AgentPrincipal)
  (quota : Nat → QuotaLimiter)

/-- The line is not blank and not a valid event. -/
def Invalid (rawLine : PyBytes) : Prop :=
  rawLine.strip.isEmpty = false ∧ ∀ event, ¬ Reads loads rawLine event

/-- An error `execute` declares: of the batch size, of the quota, of the sink. -/
def IngestError.Declared : IngestError → Prop
  | batchTooLarge _ | quotaExceeded _ | sinkUnavailable => True
  | invalidEvent _ _ | uncaught => False

/-- What a call published and counted. -/
def tally (outcome : IngestResult × List RuntimeEvent) : List RuntimeEvent × Nat × Nat × Nat × Nat :=
  (outcome.2, outcome.1.accepted, outcome.1.duplicates, outcome.1.shed, outcome.1.rejected)

/-- Whenever the call returns, the line counts as a rejection, one of those that are counted. -/
def Rejects (cache : DeduplicationCache) (body : PyBytes) (i : Nat) : Prop :=
  ∀ publish result published,
    execute config loads principal quota publish cache body = .ok (result, published) →
    let outcomes := (beginExecute config loads principal quota cache body).2.outcomes
    (∃ outcome, outcomes[i]? = some outcome ∧ outcome.isRejected = true) ∧
      result.rejected = outcomes.countP LineOutcome.isRejected

/-- The line `i`, which is invalid in both bodies, is contained: the other lines come to the same,
what is published and counted is the same, the line counts once as rejected, and nothing is raised
but the declared errors. -/
structure Contained (cache : DeduplicationCache) (body body' : PyBytes) (i : Nat) : Prop where
  others : ∀ j ≠ i, (beginExecute config loads principal quota cache body).2.outcomes[j]? =
    (beginExecute config loads principal quota cache body').2.outcomes[j]?
  alike : ∀ publish, (execute config loads principal quota publish cache body).map tally =
    (execute config loads principal quota publish cache body').map tally
  counted : Rejects config loads principal quota cache body i
  counted' : Rejects config loads principal quota cache body' i
  declared : ∀ publish error,
    execute config loads principal quota publish cache body = .error error → error.Declared
  declared' : ∀ publish error,
    execute config loads principal quota publish cache body' = .error error → error.Declared

/-- No line that the loop comes to, in the state it comes to it in, makes `json.loads` raise
anything but a `JSONDecodeError`. -/
def Caught : Nat → List PyBytes → Progress → Prop
  | _, [], _ => True
  | n, rawLine :: lines, p =>
      let outcome := examineLine config loads principal (quota n) p.cache p.seen rawLine
      match outcome with
      | .overLimit | .refused _ => True
      | .uncaught => False
      | _ => Caught (n + 1) lines (p.record n outcome)

/-- The loop comes to a finding that the quota, as it then stands, refuses. -/
def Refuses : Nat → List PyBytes → Progress → Prop
  | _, [], _ => False
  | n, rawLine :: lines, p =>
      let outcome := examineLine config loads principal (quota n) p.cache p.seen rawLine
      match outcome with
      | .overLimit | .uncaught => False
      | .refused _ => True
      | _ => Refuses (n + 1) lines (p.record n outcome)

/-! ## The loop -/

variable {config loads principal quota}

/-- Something was raised that is none of the gateway's own errors. -/
def isUncaught : Option IngestError → Bool
  | some .uncaught => true
  | _ => false

theorem is_uncaught_eq_false_iff (error : Option IngestError) :
    isUncaught error = false ↔ error ≠ some .uncaught := by
  rcases error with _ | _ | _ | _ | _ | _ <;> simp [isUncaught]

/-- The loop raises when it comes to a line that is not caught, or to one that is refused. -/
theorem ingest_lines_error (lines : List PyBytes) (n : Nat) (p : Progress) :
    ((Caught config loads principal quota n lines p ↔
      (ingestLines config loads principal quota n lines p).2 ≠ some .uncaught)) ∧
    ((Refuses config loads principal quota n lines p ↔
      ∃ retryAfter, (ingestLines config loads principal quota n lines p).2 =
        some (.quotaExceeded retryAfter))) ∧
    ∀ error, (ingestLines config loads principal quota n lines p).2 = some error →
      error = .uncaught ∨ ∃ retryAfter, error = .quotaExceeded retryAfter := by
  induction lines generalizing n p with
  | nil => simp [Caught, Refuses, ingestLines]
  | cons rawLine lines ih =>
      rw [Caught, Refuses, ingestLines]
      cases examineLine config loads principal (quota n) p.cache p.seen rawLine with
      | overLimit => simp
      | uncaught => simp
      | refused retryAfter => simp
      | _ => exact ih (n + 1) _

/-- Whether every line is caught is decided by running the loop. -/
instance (n : Nat) (lines : List PyBytes) (p : Progress) :
    Decidable (Caught config loads principal quota n lines p) :=
  decidable_of_iff' _ ((ingest_lines_error lines n p).1.trans
    (is_uncaught_eq_false_iff (ingestLines config loads principal quota n lines p).2).symm)

/-- An invalid line is past the limit, or it is rejected, or it is not caught. -/
theorem examine_line_invalid {rawLine : PyBytes} (h : Invalid loads rawLine) (quota : QuotaLimiter)
    (cache : DeduplicationCache) (seen : Nat) :
    (config.maxBatchEvents ≤ seen →
      examineLine config loads principal quota cache seen rawLine = .overLimit) ∧
    (seen < config.maxBatchEvents →
      (∃ message, examineLine config loads principal quota cache seen rawLine =
        .malformed message) ∨
      (∃ reason, examineLine config loads principal quota cache seen rawLine = .invalid reason) ∨
      examineLine config loads principal quota cache seen rawLine = .uncaught) := by
  obtain ⟨hblank, hinvalid⟩ := h
  unfold examineLine readLine
  simp only [hblank, Bool.false_eq_true, if_false]
  refine ⟨fun hlimit ↦ by rw [if_pos hlimit], fun hlimit ↦ ?_⟩
  rw [if_neg (Nat.not_le.mpr hlimit)]
  cases hloads : loads rawLine.strip with
  | error error =>
      cases error with
      | decode message => exact .inl ⟨message, rfl⟩
      | other => exact .inr (.inr rfl)
  | ok decoded =>
      dsimp only
      cases hparse : parseEvent decoded with
      | error reason => exact .inr (.inl ⟨reason, rfl⟩)
      | ok event => exact absurd ⟨hblank, decoded, hloads, hparse⟩ (hinvalid event)

/-- A line within the limit that is invalid and caught is rejected. -/
theorem examine_line_caught {rawLine : PyBytes} (h : Invalid loads rawLine) {lines : List PyBytes}
    {n : Nat} {p : Progress}
    (hcaught : Caught config loads principal quota n (rawLine :: lines) p)
    (hlimit : p.seen < config.maxBatchEvents) :
    (∃ message, examineLine config loads principal (quota n) p.cache p.seen rawLine =
      .malformed message) ∨
    ∃ reason, examineLine config loads principal (quota n) p.cache p.seen rawLine =
      .invalid reason := by
  rcases (examine_line_invalid h (quota n) p.cache p.seen).2 hlimit with hcase | hcase | hcase
  · exact .inl hcase
  · exact .inr hcase
  · rw [Caught, hcase] at hcaught
    exact hcaught.elim

/-- Two loops agree on everything but what became of the line `i` and the list of rejections. -/
structure SameBut (i : Nat) (p q : Progress) : Prop where
  cache : p.cache = q.cache
  seen : p.seen = q.seen
  publishable : p.publishable = q.publishable
  length : p.outcomes.length = q.outcomes.length
  others : ∀ j ≠ i, p.outcomes[j]? = q.outcomes[j]?
  accepted : p.result.accepted = q.result.accepted
  duplicates : p.result.duplicates = q.result.duplicates
  shed : p.result.shed = q.result.shed
  rejected : p.result.rejected = q.result.rejected

/-- A loop agrees with itself. -/
theorem SameBut.refl (i : Nat) (p : Progress) : SameBut i p p :=
  ⟨rfl, rfl, rfl, rfl, fun _ _ ↦ rfl, rfl, rfl, rfl, rfl⟩

/-- The same outcome keeps two loops in agreement. -/
theorem SameBut.record {i : Nat} {p q : Progress} (h : SameBut i p q) (n : Nat)
    (outcome : LineOutcome) : SameBut i (p.record n outcome) (q.record n outcome) := by
  have hothers : ∀ j ≠ i, (p.outcomes ++ [outcome])[j]? = (q.outcomes ++ [outcome])[j]? := by
    intro j hj
    rw [List.getElem?_append, List.getElem?_append, h.others j hj, h.length]
  obtain ⟨hcache, hseen, hpublishable, hlength, -, haccepted, hduplicates, hshed, hrejected⟩ := h
  cases outcome <;>
    exact ⟨by simp [Progress.record, hcache], by simp [Progress.record, hseen],
      by simp [Progress.record, hpublishable], by simp [Progress.record, hlength],
      hothers, by simp [Progress.record, IngestResult.recordRejection, haccepted],
      by simp [Progress.record, IngestResult.recordRejection, hduplicates],
      by simp [Progress.record, IngestResult.recordRejection, hshed],
      by simp [Progress.record, IngestResult.recordRejection, hrejected]⟩

/-- Two loops that agree keep agreeing over the same lines. -/
theorem same_but_ingest_lines (lines : List PyBytes) (n : Nat) {i : Nat} {p q : Progress}
    (h : SameBut i p q) :
    (ingestLines config loads principal quota n lines p).2 =
        (ingestLines config loads principal quota n lines q).2 ∧
      SameBut i (ingestLines config loads principal quota n lines p).1
        (ingestLines config loads principal quota n lines q).1 := by
  induction lines generalizing n p q with
  | nil => exact ⟨rfl, h⟩
  | cons rawLine lines ih =>
      rw [ingestLines, ingestLines, h.cache, h.seen]
      have hrecord := h.record n
        (examineLine config loads principal (quota n) q.cache q.seen rawLine)
      revert hrecord
      cases examineLine config loads principal (quota n) q.cache q.seen rawLine with
      | overLimit => exact fun hrecord ↦ ⟨rfl, hrecord⟩
      | uncaught => exact fun hrecord ↦ ⟨rfl, hrecord⟩
      | refused _ => exact fun hrecord ↦ ⟨rfl, hrecord⟩
      | _ => exact fun hrecord ↦ ih (n + 1) hrecord

/-- Two ways to reject a line leave the loop in agreement on all other lines. -/
theorem same_but_rejections {p : Progress} {outcome outcome' : LineOutcome} (n : Nat)
    (h : (∃ message, outcome = .malformed message) ∨ ∃ reason, outcome = .invalid reason)
    (h' : (∃ message, outcome' = .malformed message) ∨ ∃ reason, outcome' = .invalid reason) :
    SameBut p.outcomes.length (p.record n outcome) (p.record n outcome') := by
  have hothers : ∀ j ≠ p.outcomes.length, (p.outcomes ++ [outcome])[j]? =
      (p.outcomes ++ [outcome'])[j]? := by
    intro j hj
    rw [List.getElem?_append, List.getElem?_append]
    split
    · rfl
    · rw [List.getElem?_eq_none (by simp; omega), List.getElem?_eq_none (by simp; omega)]
  rcases h with ⟨_, rfl⟩ | ⟨_, rfl⟩ <;> rcases h' with ⟨_, rfl⟩ | ⟨_, rfl⟩ <;>
    exact ⟨rfl, rfl, rfl, by simp [Progress.record], hothers, rfl, rfl, rfl, rfl⟩

/-- Replacing one invalid line by another leaves everything else in agreement. -/
theorem same_but_replaced {rawLine rawLine' : PyBytes} (hinvalid : Invalid loads rawLine)
    (hinvalid' : Invalid loads rawLine') (lines : List PyBytes) (i n : Nat) {p : Progress}
    (hline : lines[i]? = some rawLine) (hcaught : Caught config loads principal quota n lines p)
    (hcaught' : Caught config loads principal quota n (lines.set i rawLine') p) :
    (ingestLines config loads principal quota n lines p).2 =
        (ingestLines config loads principal quota n (lines.set i rawLine') p).2 ∧
      SameBut (p.outcomes.length + i) (ingestLines config loads principal quota n lines p).1
        (ingestLines config loads principal quota n (lines.set i rawLine') p).1 := by
  induction lines generalizing i n p with
  | nil => simp at hline
  | cons first lines ih =>
      cases i with
      | zero =>
          cases hline
          rw [List.set_cons_zero] at hcaught' ⊢
          by_cases hlimit : p.seen < config.maxBatchEvents
          · have hcase := examine_line_caught hinvalid hcaught hlimit
            have hcase' := examine_line_caught hinvalid' hcaught' hlimit
            have hsame := same_but_rejections (p := p) n hcase hcase'
            rw [ingestLines, ingestLines]
            rcases hcase with ⟨_, h⟩ | ⟨_, h⟩ <;> rcases hcase' with ⟨_, h'⟩ | ⟨_, h'⟩ <;>
              rw [h, h'] at hsame ⊢ <;> exact same_but_ingest_lines lines (n + 1) hsame
          · have hpast := (@examine_line_invalid config loads principal _ hinvalid (quota n)
              p.cache p.seen).1 (Nat.not_lt.mp hlimit)
            have hpast' := (@examine_line_invalid config loads principal _ hinvalid' (quota n)
              p.cache p.seen).1 (Nat.not_lt.mp hlimit)
            rw [ingestLines, ingestLines, hpast, hpast']
            exact ⟨rfl, .refl _ _⟩
      | succ i =>
          rw [List.set_cons_succ] at hcaught' ⊢
          rw [Caught] at hcaught hcaught'
          rw [ingestLines, ingestLines]
          have hlength (outcome : LineOutcome) :
              (p.record n outcome).outcomes.length + i = p.outcomes.length + (i + 1) := by
            cases outcome <;> simp [Progress.record] <;> omega
          revert hcaught hcaught'
          cases examineLine config loads principal (quota n) p.cache p.seen first with
          | overLimit => exact fun _ _ ↦ ⟨rfl, .refl _ _⟩
          | uncaught => exact fun _ _ ↦ ⟨rfl, .refl _ _⟩
          | refused _ => exact fun _ _ ↦ ⟨rfl, .refl _ _⟩
          | _ =>
              intro hcaught hcaught'
              rw [← hlength]
              exact ih i (n + 1) hline hcaught hcaught'

/-! ## The call -/

/-- What a call shows of a loop that raised nothing. -/
def tallied (p : Progress) (publish : Option QuotaLimiter) :
    Except IngestError (List RuntimeEvent × Nat × Nat × Nat × Nat) :=
  match p.publishable, publish with
  | [], _ => .ok ([], p.result.accepted, p.result.duplicates, p.result.shed, p.result.rejected)
  | _ :: _, none => .error .sinkUnavailable
  | event :: events, some _ =>
      .ok (event :: events, events.length + 1, p.result.duplicates, p.result.shed,
        p.result.rejected)

/-- Only the sink can fail then. -/
theorem of_tallied_eq_error {p : Progress} {publish : Option QuotaLimiter} {error : IngestError}
    (h : tallied p publish = .error error) : publish = none ∧ error = .sinkUnavailable := by
  unfold tallied at h
  split at h <;> cases h
  exact ⟨rfl, rfl⟩

/-- Loops that agree show the same. -/
theorem SameBut.tallied {i : Nat} {p q : Progress} (h : SameBut i p q)
    (publish : Option QuotaLimiter) : tallied p publish = Gateway.tallied q publish := by
  unfold Gateway.tallied
  rw [h.publishable, h.accepted, h.duplicates, h.shed, h.rejected]

/-- A call in the lenient mode whose body is not too large comes to what its loop comes to. -/
theorem execute_of_ingest_lines (hlenient : config.rejectBatchOnInvalid = false) {body : PyBytes}
    (hsize : body.length ≤ config.maxBatchBytes) (cache : DeduplicationCache) {p : Progress}
    {error : Option IngestError}
    (hloop : ingestLines config loads principal quota 1 body.splitlines (.initial cache) =
      (p, error)) :
    (beginExecute config loads principal quota cache body).2 = p ∧
      ∀ publish, (execute config loads principal quota publish cache body).map tally =
        error.elim (tallied p publish) .error := by
  unfold execute beginExecute
  rw [if_neg (Nat.not_lt.mpr hsize)]
  dsimp only
  rw [hloop]
  refine ⟨rfl, fun publish ↦ ?_⟩
  cases error with
  | some error => rfl
  | none =>
      unfold tallied
      rcases @after_lines_cases config principal (quota (body.splitlines.length + 1)) p with
        ⟨hstrict, -⟩ | ⟨hempty, hafter⟩ | ⟨hevents, hafter⟩
      · rw [hlenient] at hstrict
        cases hstrict
      · rw [hafter, hempty]
        rfl
      · rw [hafter]
        cases hpublishable : p.publishable with
        | nil => exact absurd hpublishable hevents
        | cons event events => cases publish <;> rfl

/-- A call in the lenient mode raises nothing but the declared errors when it comes to no line that
is not caught. -/
theorem declared_iff (hlenient : config.rejectBatchOnInvalid = false) {body : PyBytes}
    (hsize : body.length ≤ config.maxBatchBytes) (cache : DeduplicationCache) :
    (∀ publish error,
      execute config loads principal quota publish cache body = .error error → error.Declared) ↔
      Caught config loads principal quota 1 body.splitlines (.initial cache) := by
  obtain ⟨hcaught, -, herrors⟩ := @ingest_lines_error config loads principal quota
    body.splitlines 1 (.initial cache)
  rcases hloop : ingestLines config loads principal quota 1 body.splitlines (.initial cache) with
    ⟨p, raised⟩
  obtain ⟨-, hexecute⟩ := execute_of_ingest_lines hlenient hsize cache hloop
  rw [hloop] at hcaught herrors
  rw [hcaught]
  constructor
  · rintro h rfl
    have herror := hexecute none
    cases houtcome : execute config loads principal quota none cache body with
    | ok outcome =>
        rw [houtcome] at herror
        cases herror
    | error error =>
        rw [houtcome] at herror
        cases herror
        exact h none .uncaught houtcome
  · intro huncaught publish error herror
    have htally := hexecute publish
    rw [herror] at htally
    cases raised with
    | some raised =>
        cases htally
        rcases herrors error rfl with rfl | ⟨retryAfter, rfl⟩
        · exact absurd rfl huncaught
        · trivial
    | none =>
        obtain ⟨-, rfl⟩ := of_tallied_eq_error htally.symm
        trivial

/-- An invalid line counts as a rejection when it is not past the first line over the limit. -/
theorem rejects_iff (hlenient : config.rejectBatchOnInvalid = false) {body : PyBytes}
    (hsize : body.length ≤ config.maxBatchBytes) (cache : DeduplicationCache)
    (hcaught : Caught config loads principal quota 1 body.splitlines (.initial cache)) {i : Nat}
    {rawLine : PyBytes} (hline : body.splitlines[i]? = some rawLine)
    (hinvalid : Invalid loads rawLine) :
    Rejects config loads principal quota cache body i ↔
      nonBlank (body.splitlines.take i) ≤ config.maxBatchEvents ∨
        Refuses config loads principal quota 1 body.splitlines (.initial cache) := by
  obtain ⟨hcaughtIff, hrefuses, herrors⟩ := @ingest_lines_error config loads principal quota
    body.splitlines 1 (.initial cache)
  rcases hloop : ingestLines config loads principal quota 1 body.splitlines (.initial cache) with
    ⟨p, raised⟩
  obtain ⟨hbegun, hexecute⟩ := execute_of_ingest_lines hlenient hsize cache hloop
  rw [hloop] at hcaughtIff hrefuses herrors
  constructor
  · intro h
    cases raised with
    | some error =>
        rcases herrors error rfl with rfl | hrefused
        · exact absurd rfl (hcaughtIff.mp hcaught)
        · exact .inr (hrefuses.mpr (hrefused.imp fun _ heq ↦ congrArg some heq))
    | none =>
        refine .inl ?_
        have htally := hexecute (some (quota 0))
        cases houtcome : execute config loads principal quota (some (quota 0)) cache body with
        | error error =>
            rw [houtcome] at htally
            cases (of_tallied_eq_error htally.symm).1
        | ok outcome =>
            obtain ⟨⟨exit, hexit, -⟩, -⟩ := h _ outcome.1 outcome.2 houtcome
            obtain ⟨q, hq, hended, -⟩ := ended_of_execute houtcome
            rw [hq] at hexit
            exact hended.reached i (List.getElem?_eq_some_iff.mp hexit).1
  · intro h publish result published hreturns
    obtain ⟨q, hq, hended, -, -, -, -, hrejected⟩ := ended_of_execute hreturns
    rw [hq]
    have hwithin : nonBlank (body.splitlines.take i) ≤ config.maxBatchEvents := by
      refine h.resolve_right fun hrefused ↦ ?_
      obtain ⟨retryAfter, hraised⟩ := hrefuses.mp hrefused
      have htally := hexecute publish
      rw [hreturns, show raised = _ from hraised] at htally
      cases htally
    obtain ⟨quota', cache', hexit⟩ := hended.exits i rawLine hline hwithin
    refine ⟨⟨_, hexit, ?_⟩, hrejected.trans hended.tallies.rejected⟩
    obtain ⟨hpast, hbefore⟩ := @examine_line_invalid config loads principal _ hinvalid quota'
      cache' (nonBlank (body.splitlines.take i))
    rcases Nat.lt_or_ge (nonBlank (body.splitlines.take i)) config.maxBatchEvents with hlt | hge
    · rcases hbefore hlt with ⟨_, hcase⟩ | ⟨_, hcase⟩ | hcase
      · rw [hcase]
        rfl
      · rw [hcase]
        rfl
      · have hraises := hended.raises _ (List.mem_of_getElem? hexit)
        rw [hcase] at hraises
        cases hraises
    · rw [hpast hge]
      rfl

/-- An attack and one more line. -/
def bodyWith (line : PyBytes) : PyBytes :=
  attackLine ++ [10] ++ line

/-- `json.loads` on the attack; the byte 255 is no UTF-8, and any other line is malformed. -/
def decodingLoads : Loads := fun line ↦
  if line = [255] then .error .other else attackLoads line

/-- A line without a JSON value is invalid. -/
theorem invalid_of_loads {loads : Loads} {rawLine : PyBytes}
    (h : (!rawLine.strip.isEmpty && !(loads rawLine.strip).toOption.isSome) = true) :
    Invalid loads rawLine := by
  rw [Bool.and_eq_true, Bool.not_eq_true', Bool.not_eq_true'] at h
  refine ⟨h.1, fun event ⟨_, decoded, hloads, _⟩ ↦ ?_⟩
  rw [hloads] at h
  cases h.2

end Aegis.Gateway
