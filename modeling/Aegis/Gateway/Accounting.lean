import Aegis.Gateway.Acknowledgement

/-!
# The accounting of a batch

Every line the loop examines leaves it through one exit, and each exit has a counter. The loop
examines the lines up to the first one past the batch limit, so `accounted_of_execute` says what
the counters add up to and what becomes of a finding among the lines within the limit.
-/

namespace Aegis.Gateway

open Server

/-! ## One call -/

/-- `IngestResult.processed`. -/
def IngestResult.processed (result : IngestResult) : Nat :=
  result.accepted + result.duplicates + result.shed + result.rejected

/-- `execute` as one call, with what it publishes. The sink answers with the limiter met afterwards,
or with `none` when `publish` raises. -/
def execute (config : IngestConfig) (loads : Loads) (principal : AgentPrincipal)
    (quota : Nat → QuotaLimiter) (publish : Option QuotaLimiter) (cache : DeduplicationCache)
    (body : PyBytes) : Except IngestError (IngestResult × List RuntimeEvent) :=
  match (beginExecute config loads principal quota cache body).1 with
  | .raised error => .error error
  | .returned result => .ok (result, [])
  | .publishing events result =>
      match publish with
      | none => .error .sinkUnavailable
      | some quota => .ok (finishExecute config principal quota events result, events)

/-- The number of lines that are not blank. -/
def nonBlank (lines : List PyBytes) : Nat :=
  lines.countP fun line ↦ !line.strip.isEmpty

/-! ## Exits -/

namespace LineOutcome

/-- The line was not blank. -/
def isExamined : LineOutcome → Bool
  | .blank => false
  | _ => true

/-- The line counts as a duplicate. -/
def isDuplicate : LineOutcome → Bool
  | .duplicate _ => true
  | _ => false

/-- The line counts as shed. -/
def isShed : LineOutcome → Bool
  | .shed _ => true
  | _ => false

/-- The line counts as rejected. -/
def isRejected : LineOutcome → Bool
  | .overLimit | .malformed _ | .invalid _ => true
  | _ => false

/-- The event of a line that is published if the sink takes it. -/
def admitted? : LineOutcome → Option RuntimeEvent
  | .admitted event => some event
  | _ => none

/-- The line ends the call with an exception. -/
def raises : LineOutcome → Bool
  | .uncaught | .refused _ => true
  | _ => false

/-- An examined line that does not end the call has one of four counters. -/
theorem exits (outcome : LineOutcome) (h : outcome.raises = false) :
    (if outcome.isExamined then 1 else 0) =
      (if outcome.isDuplicate then 1 else 0) + (if outcome.isShed then 1 else 0) +
        (if outcome.isRejected then 1 else 0) + outcome.admitted?.toList.length := by
  cases outcome <;> first | rfl | cases h

end LineOutcome

/-- The counters say what the outcomes are. -/
structure Tallies (p : Progress) : Prop where
  accepted : p.result.accepted = 0
  duplicates : p.result.duplicates = p.outcomes.countP LineOutcome.isDuplicate
  shed : p.result.shed = p.outcomes.countP LineOutcome.isShed
  rejected : p.result.rejected = p.outcomes.countP LineOutcome.isRejected
  publishable : p.publishable = p.outcomes.filterMap LineOutcome.admitted?

/-- Before the first line nothing is counted. -/
theorem tallies_initial (cache : DeduplicationCache) : Tallies (.initial cache) :=
  ⟨rfl, rfl, rfl, rfl, rfl⟩

/-- Recording an outcome counts it. -/
theorem Tallies.record {p : Progress} (h : Tallies p) (n : Nat) (outcome : LineOutcome) :
    Tallies (p.record n outcome) := by
  obtain ⟨haccepted, hduplicates, hshed, hrejected, hpublishable⟩ := h
  cases outcome <;> constructor <;>
    simp [Progress.record, IngestResult.recordRejection, haccepted, hduplicates, hshed, hrejected,
      hpublishable, LineOutcome.isDuplicate, LineOutcome.isShed, LineOutcome.isRejected,
      LineOutcome.admitted?, List.countP_append]

/-! ## The loop -/

variable {config : IngestConfig} {loads : Loads} {principal : AgentPrincipal}
  {quota : Nat → QuotaLimiter}

/-- How the loop stands after the lines `done`, none of which ended it. -/
structure Ahead (config : IngestConfig) (done : List PyBytes) (p : Progress) : Prop where
  tallies : Tallies p
  length : p.outcomes.length = done.length
  seen : p.seen = nonBlank done
  examined : p.outcomes.countP LineOutcome.isExamined = nonBlank done
  limit : nonBlank done ≤ config.maxBatchEvents
  raises : ∀ outcome ∈ p.outcomes, outcome.raises = false

/-- Nothing is ahead of the first line. -/
theorem ahead_initial (cache : DeduplicationCache) : Ahead config [] (.initial cache) :=
  ⟨tallies_initial cache, rfl, rfl, rfl, Nat.zero_le _, by simp [Progress.initial]⟩

/-- What the exit of a line says of the line. -/
structure ExitOf (config : IngestConfig) (seen : Nat) (rawLine : PyBytes)
    (outcome : LineOutcome) : Prop where
  blank : outcome.isExamined = !rawLine.strip.isEmpty
  overLimit : outcome = .overLimit → config.maxBatchEvents ≤ seen
  within : outcome ≠ .overLimit → rawLine.strip.isEmpty = false → seen < config.maxBatchEvents

/-- A line leaves the loop through the exit its bytes and the number of lines before it allow. -/
theorem exit_of_examine_line (quota : QuotaLimiter) (cache : DeduplicationCache) (seen : Nat)
    (rawLine : PyBytes) :
    ExitOf config seen rawLine
      (examineLine config loads principal quota cache seen rawLine) := by
  unfold examineLine readLine
  dsimp only
  cases hblank : rawLine.strip.isEmpty with
  | true => exact ⟨by rw [hblank]; rfl, nofun, fun _ h ↦ by rw [hblank] at h; cases h⟩
  | false =>
      simp only [Bool.false_eq_true, if_false]
      by_cases hlimit : seen ≥ config.maxBatchEvents
      · rw [if_pos hlimit]
        exact ⟨by rw [hblank]; rfl, fun _ ↦ hlimit, fun h ↦ absurd rfl h⟩
      · rw [if_neg hlimit]
        have hwithin : seen < config.maxBatchEvents := by omega
        cases loads rawLine.strip with
        | error error =>
            cases error <;> exact ⟨by rw [hblank]; rfl, nofun, fun _ _ ↦ hwithin⟩
        | ok decoded =>
            dsimp only
            cases parseEvent decoded with
            | error reason => exact ⟨by rw [hblank]; rfl, nofun, fun _ _ ↦ hwithin⟩
            | ok event =>
                have hjudge := @judge_cases config principal quota cache event
                dsimp only
                rcases hjudge with ⟨-, h⟩ | ⟨-, h | ⟨_, h⟩ | h⟩ <;> rw [h] <;>
                  exact ⟨by rw [hblank]; rfl, nofun, fun _ _ ↦ hwithin⟩

/-- A line that does not end the loop leaves it ahead by one. -/
theorem Ahead.record {done : List PyBytes} {p : Progress} (h : Ahead config done p) (n : Nat)
    {rawLine : PyBytes} {outcome : LineOutcome} (hexit : ExitOf config p.seen rawLine outcome)
    (hraises : outcome.raises = false) (hlimit : outcome ≠ .overLimit) :
    Ahead config (done ++ [rawLine]) (p.record n outcome) := by
  have houtcomes : (p.record n outcome).outcomes = p.outcomes ++ [outcome] := by
    cases outcome <;> rfl
  have hseen : (p.record n outcome).seen = p.seen + if outcome.isExamined then 1 else 0 := by
    cases outcome <;> first | rfl | exact absurd rfl hlimit
  have hcount : nonBlank (done ++ [rawLine]) =
      nonBlank done + if outcome.isExamined then 1 else 0 := by
    rw [nonBlank, List.countP_append, List.countP_singleton, hexit.blank]
    rfl
  refine ⟨h.tallies.record n outcome, ?_, ?_, ?_, ?_, ?_⟩
  · rw [houtcomes, List.length_append, List.length_append, h.length]
    rfl
  · rw [hseen, hcount, h.seen]
  · rw [houtcomes, List.countP_append, List.countP_singleton, hcount, h.examined]
  · rw [hcount]
    cases hblank : rawLine.strip.isEmpty with
    | true =>
        rw [hexit.blank, hblank]
        exact h.limit
    | false =>
        have hwithin := hexit.within hlimit hblank
        rw [h.seen] at hwithin
        split <;> omega
  · rw [houtcomes]
    intro other hother
    rcases List.mem_append.mp hother with hother | hother
    · exact h.raises other hother
    · rw [List.mem_singleton.mp hother]
      exact hraises

variable (config loads principal) in
/-- Each of the lines left the loop through the exit that its bytes and the lines before it allow. -/
def Exits (lines : List PyBytes) (outcomes : List LineOutcome) : Prop :=
  ∀ i rawLine, lines[i]? = some rawLine → nonBlank (lines.take i) ≤ config.maxBatchEvents →
    ∃ quota cache, outcomes[i]? =
      some (examineLine config loads principal quota cache (nonBlank (lines.take i)) rawLine)

/-- One more line has left. -/
theorem Exits.append {done : List PyBytes} {outcomes : List LineOutcome}
    (h : Exits config loads principal done outcomes) (hlength : outcomes.length = done.length)
    (rawLine : PyBytes) (quota : QuotaLimiter) (cache : DeduplicationCache) :
    Exits config loads principal (done ++ [rawLine])
      (outcomes ++ [examineLine config loads principal quota cache (nonBlank done) rawLine]) := by
  intro i line hline hlimit
  by_cases hlast : i < done.length
  · rw [List.getElem?_append_left hlast] at hline
    rw [List.take_append_of_le_length hlast.le] at hlimit ⊢
    rw [List.getElem?_append_left (hlength ▸ hlast)]
    exact h i line hline hlimit
  · have hbound := (List.getElem?_eq_some_iff.mp hline).1
    rw [List.length_append, List.length_singleton] at hbound
    obtain rfl : i = done.length := by omega
    rw [List.getElem?_concat_length] at hline
    cases hline
    refine ⟨quota, cache, ?_⟩
    rw [List.take_left, ← hlength, List.getElem?_concat_length]

/-- How the loop ends when nothing raised: it has examined the lines within the limit and, when
there is one, the first line past it. -/
structure Ended (config : IngestConfig) (loads : Loads) (principal : AgentPrincipal)
    (lines : List PyBytes) (p : Progress) : Prop where
  tallies : Tallies p
  examined : p.outcomes.countP LineOutcome.isExamined =
    min (nonBlank lines) (config.maxBatchEvents + 1)
  raises : ∀ outcome ∈ p.outcomes, outcome.raises = false
  exits : Exits config loads principal lines p.outcomes
  reached : ∀ i < p.outcomes.length, nonBlank (lines.take i) ≤ config.maxBatchEvents

/-- A line past the limit ends the loop. -/
theorem Ahead.ended {done : List PyBytes} {p : Progress} (h : Ahead config done p)
    (hexits : Exits config loads principal done p.outcomes) (n : Nat) {rawLine : PyBytes}
    (lines : List PyBytes) {quota : QuotaLimiter}
    (hover : examineLine config loads principal quota p.cache p.seen rawLine = .overLimit) :
    Ended config loads principal (done ++ rawLine :: lines) (p.record n .overLimit) := by
  have hexit : ExitOf config p.seen rawLine .overLimit :=
    hover ▸ exit_of_examine_line quota p.cache p.seen rawLine
  have hseen := hexit.overLimit rfl
  have hfull : nonBlank done = config.maxBatchEvents := by
    have := h.limit
    have := h.seen
    omega
  have hpast : nonBlank (done ++ [rawLine]) = config.maxBatchEvents + 1 := by
    rw [nonBlank, List.countP_append, List.countP_singleton, ← hexit.blank, ← hfull]
    rfl
  have hsplit : done ++ rawLine :: lines = (done ++ [rawLine]) ++ lines := by simp
  refine ⟨h.tallies.record n .overLimit, ?_, ?_, ?_, ?_⟩
  · rw [hsplit, nonBlank, List.countP_append]
    show (p.outcomes ++ [LineOutcome.overLimit]).countP _ = min (nonBlank _ + _) _
    rw [hpast, List.countP_append, h.examined, hfull, Nat.min_eq_right (Nat.le_add_right _ _)]
    rfl
  · intro outcome houtcome
    rcases List.mem_append.mp houtcome with houtcome | houtcome
    · exact h.raises outcome houtcome
    · rw [List.mem_singleton.mp houtcome]
      rfl
  · intro i line hline hlimit
    rw [hsplit] at hline hlimit ⊢
    by_cases hreached : i < (done ++ [rawLine]).length
    · rw [List.getElem?_append_left hreached] at hline
      rw [List.take_append_of_le_length hreached.le] at hlimit ⊢
      have hexits := hexits.append h.length rawLine quota p.cache
      rw [← h.seen, hover] at hexits
      exact hexits i line hline hlimit
    · have hmore : nonBlank (done ++ [rawLine]) ≤ nonBlank ((done ++ [rawLine] ++ lines).take i) := by
        rw [List.take_append, List.take_of_length_le (by omega)]
        exact (List.sublist_append_left _ _).countP_le
      omega
  · intro i hi
    have hlength : (p.record n .overLimit).outcomes.length = done.length + 1 := by
      show (p.outcomes ++ [LineOutcome.overLimit]).length = _
      rw [List.length_append, h.length]
      rfl
    rw [hlength] at hi
    rw [List.take_append_of_le_length (by omega)]
    exact ((List.take_sublist i done).countP_le).trans h.limit

/-- A loop that raises nothing examines the lines within the limit and the first one past it. -/
theorem ended_ingest_lines (lines : List PyBytes) (n : Nat) {done : List PyBytes} {p : Progress}
    (h : Ahead config done p) (hexits : Exits config loads principal done p.outcomes)
    (hreturns : (ingestLines config loads principal quota n lines p).2 = none) :
    Ended config loads principal (done ++ lines)
      (ingestLines config loads principal quota n lines p).1 := by
  induction lines generalizing n done p with
  | nil =>
      rw [List.append_nil]
      refine ⟨h.tallies, ?_, h.raises, hexits, fun i _ ↦ ?_⟩
      · rw [ingestLines, h.examined, Nat.min_eq_left (Nat.le_succ_of_le h.limit)]
      · exact ((List.take_sublist i done).countP_le).trans h.limit
  | cons rawLine lines ih =>
      have hexit := @exit_of_examine_line config loads principal (quota n) p.cache p.seen rawLine
      have hnext := hexits.append h.length rawLine (quota n) p.cache
      have hsplit : done ++ rawLine :: lines = (done ++ [rawLine]) ++ lines := by simp
      rw [ingestLines] at hreturns ⊢
      cases houtcome : examineLine config loads principal (quota n) p.cache p.seen rawLine with
      | overLimit => exact h.ended hexits n lines houtcome
      | uncaught | refused _ =>
          rw [houtcome] at hreturns
          cases hreturns
      | _ =>
          rw [houtcome] at hreturns hexit
          rw [← h.seen, houtcome] at hnext
          rw [hsplit]
          exact ih (n + 1) (h.record n hexit rfl fun hlimit ↦ (by cases hlimit)) hnext hreturns

/-! ## The result -/

/-- The line is a well-formed event. -/
def Reads (loads : Loads) (rawLine : PyBytes) (event : RuntimeEvent) : Prop :=
  rawLine.strip.isEmpty = false ∧
    ∃ decoded, loads rawLine.strip = .ok decoded ∧ parseEvent decoded = .ok event

/-- A well-formed event within the limit is read as one. -/
theorem read_line_of_reads {rawLine : PyBytes} {event : RuntimeEvent}
    (h : Reads loads rawLine event) {seen : Nat} (hseen : seen < config.maxBatchEvents) :
    readLine config loads seen rawLine = .event event := by
  obtain ⟨hblank, decoded, hloads, hparse⟩ := h
  unfold readLine
  simp [hblank, Nat.not_le.mpr hseen, hloads, hparse]

/-- A finding is never shed. -/
theorem judge_security_signal {event : RuntimeEvent} (h : event.type.isSecuritySignal = true)
    (quota : QuotaLimiter) (cache : DeduplicationCache)
    (hraises : (judge config principal quota cache event).raises = false) :
    judge config principal quota cache event = .duplicate event ∨
      judge config principal quota cache event = .admitted event := by
  unfold judge at hraises ⊢
  dsimp only at hraises ⊢
  simp only [SheddingPolicy.shouldAccept, h, Bool.true_or, Bool.not_true, Bool.false_eq_true,
    if_false, if_true] at hraises ⊢
  split
  · exact .inl rfl
  · next hunseen =>
      rw [if_neg hunseen] at hraises
      split
      · next hcheck =>
          rw [if_pos hcheck] at hraises
          cases hraises
      · exact .inr rfl

/-- What an ended loop says of a finding among the lines within the limit. -/
theorem Ended.security_signal {lines : List PyBytes} {p : Progress}
    (h : Ended config loads principal lines p) {i : Nat} {rawLine : PyBytes} {event : RuntimeEvent}
    (hline : lines[i]? = some rawLine) (hwithin : nonBlank (lines.take i) < config.maxBatchEvents)
    (hreads : Reads loads rawLine event) (hsignal : event.type.isSecuritySignal = true) :
    p.outcomes[i]? = some (.duplicate event) ∨
      p.outcomes[i]? = some (.admitted event) ∧ event ∈ p.publishable := by
  obtain ⟨quota, cache, hexit⟩ := h.exits i rawLine hline hwithin.le
  rw [examine_line_event (read_line_of_reads hreads hwithin)] at hexit
  have hmem := List.mem_of_getElem? hexit
  rw [hexit]
  rcases judge_security_signal hsignal quota cache (h.raises _ hmem) with hjudge | hjudge
  · rw [hjudge]
    exact .inl rfl
  · rw [hjudge] at hmem ⊢
    refine .inr ⟨rfl, ?_⟩
    rw [h.tallies.publishable]
    exact List.mem_filterMap.mpr ⟨_, hmem, rfl⟩

/-- Each examined line has one counter. -/
theorem count_exits {outcomes : List LineOutcome} (h : ∀ outcome ∈ outcomes, outcome.raises = false) :
    outcomes.countP LineOutcome.isDuplicate + outcomes.countP LineOutcome.isShed +
        outcomes.countP LineOutcome.isRejected +
        (outcomes.filterMap LineOutcome.admitted?).length =
      outcomes.countP LineOutcome.isExamined := by
  induction outcomes with
  | nil => rfl
  | cons outcome outcomes ih =>
      obtain ⟨hfirst, hrest⟩ := List.forall_mem_cons.mp h
      have hone := outcome.exits hfirst
      have hrest := ih hrest
      simp only [List.countP_cons, List.filterMap_cons]
      cases hadmitted : outcome.admitted? <;> rw [hadmitted] at hone <;>
        simp only [Option.toList, List.length_cons, List.length_nil] at hone ⊢ <;> omega

/-- The counters of an ended loop and the events it admitted add up to the lines it examined. -/
theorem Ended.total {lines : List PyBytes} {p : Progress}
    (h : Ended config loads principal lines p) :
    p.publishable.length + p.result.duplicates + p.result.shed + p.result.rejected =
      min (nonBlank lines) (config.maxBatchEvents + 1) := by
  rw [← h.examined, ← count_exits h.raises, h.tallies.duplicates, h.tallies.shed,
    h.tallies.rejected, h.tallies.publishable]
  omega

/-- After a loop that raised nothing, `execute` refuses the batch in strict mode, returns, or
publishes what the loop admitted. -/
theorem after_lines_cases (quota : QuotaLimiter) (p : Progress) :
    (config.rejectBatchOnInvalid = true ∧ ∃ reason line,
      afterLines config principal quota (p, none) = .raised (.invalidEvent reason line)) ∨
    (p.publishable = [] ∧ afterLines config principal quota (p, none) =
      .returned { p.result with credit := creditFor config principal quota }) ∨
    (p.publishable ≠ [] ∧
      afterLines config principal quota (p, none) = .publishing p.publishable p.result) := by
  unfold afterLines
  split
  · cases ‹(p, none) = _›
  · next hpair =>
      cases hpair
      split
      · next hstrict _ => exact .inl ⟨hstrict, _, _, rfl⟩
      · split
        · next hempty => exact .inr (.inl ⟨hempty, rfl⟩)
        · next hevents => exact .inr (.inr ⟨hevents, rfl⟩)

/-- A call that returns comes from a loop that ended. -/
theorem ended_of_execute {publish : Option QuotaLimiter} {cache : DeduplicationCache}
    {body : PyBytes} {result : IngestResult} {published : List RuntimeEvent}
    (h : execute config loads principal quota publish cache body = .ok (result, published)) :
    ∃ p, (beginExecute config loads principal quota cache body).2 = p ∧
      Ended config loads principal body.splitlines p ∧ p.publishable = published ∧
      result.accepted = published.length ∧ result.duplicates = p.result.duplicates ∧
      result.shed = p.result.shed ∧ result.rejected = p.result.rejected := by
  refine ⟨_, rfl, ?_⟩
  unfold execute at h
  unfold beginExecute at h ⊢
  by_cases hsize : body.length > config.maxBatchBytes
  · rw [if_pos hsize] at h
    cases h
  · rw [if_neg hsize] at h ⊢
    have hended := @ended_ingest_lines config loads principal quota body.splitlines 1 []
      (.initial cache) (ahead_initial cache) (fun i rawLine hline ↦ by simp at hline)
    rw [List.nil_append] at hended
    dsimp only at h ⊢
    rcases hloop : ingestLines config loads principal quota 1 body.splitlines (.initial cache)
      with ⟨p, _ | error⟩
    · rw [hloop] at h hended
      have hended := hended rfl
      refine ⟨hended, ?_⟩
      have haccepted := hended.tallies.accepted
      rcases @after_lines_cases config principal
        (quota (body.splitlines.length + 1)) p with ⟨-, reason, line, hafter⟩ |
          ⟨hempty, hafter⟩ | ⟨-, hafter⟩ <;> rw [hafter] at h
      · cases h
      · cases h
        exact ⟨hempty, haccepted, rfl, rfl, rfl⟩
      · cases publish with
        | none => cases h
        | some quota =>
            cases h
            exact ⟨rfl, rfl, rfl, rfl, rfl⟩
    · rw [hloop] at h
      cases h

/-- A line that carries another attack. -/
def secondLine : PyBytes :=
  ascii ("\x7b\"event_id\":\"e2\",\"type\":\"EVENT_TYPE_ATTACK\"," ++
    "\"occurred_at_ms\":1,\"attack\":\x7b\x7d\x7d")

/-- `json.loads` on the two lines; any other line is malformed. -/
def twoLoads : Loads := fun line ↦
  if line = secondLine then
    .ok (.object [(py "event_id", .str (py "e2")), (py "type", .str (py "EVENT_TYPE_ATTACK")),
      (py "occurred_at_ms", .int 1), (py "attack", .object [])])
  else attackLoads line

/-- The second attack on the second and on the third line of a batch. -/
def longBody : PyBytes :=
  attackLine ++ [10] ++ secondLine ++ [10] ++ secondLine

end Aegis.Gateway
