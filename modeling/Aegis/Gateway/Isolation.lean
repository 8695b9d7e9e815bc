import Mathlib.Tactic.NormNum
import Aegis.Gateway.Service

/-!
# Isolation of tenants in the deduplication cache

All agents of all organisations share one cache of bare event ids. `isolated_iff` says exactly
when an agent notices: while the quota binds nobody, what becomes of an agent's lines and which of
its events are published are what they would be without everybody else, if and only if at each of
its lines the id is as recently used among all agents' ids as among the agent's own.
-/

namespace Aegis.Gateway

open Server Lru

/-- An agent of an organisation. -/
abbrev Owner := PyStr × PyStr

/-- The organisation and the agent a call comes from. -/
def Call.owner (call : Call) : Owner :=
  (call.principal.organizationId, call.principal.agentId)

/-- The limiter neither sheds nor refuses any event of the principal. -/
def OpenFor (config : IngestConfig) (principal : AgentPrincipal) (quota : QuotaLimiter) : Prop :=
  ∀ type, config.shedding.shouldAccept type
      (quota.remainingFraction principal.organizationId) = true ∧
    quota.check principal.organizationId (config.shedding.cost type) = true

/-- The quota does not bind in the step. -/
def NotBinding (config : IngestConfig) : Label → Prop
  | .start call _ quota => ∀ n, OpenFor config call.principal (quota n)
  | .finish _ _ => True

variable (config : IngestConfig) (loads : Loads)

/-- What the calls of one agent show along a run: what became of their lines, and what the sink
has taken. -/
def observations (who : Owner) :
    Service → List Label → List (List LineOutcome × List (StreamOrigin × RuntimeEvent))
  | _, [] => []
  | s, label :: labels =>
      let (reply, s) := step config loads s label
      if label.call.owner = who then
        (reply.outcomes, reply.published) :: observations who s labels
      else observations who s labels

/-- The ids a step asks the cache about, with the agent that carries them. -/
def uses : Label → List (Owner × PyStr)
  | .start call body _ => (windowIds config loads body).map fun id ↦ (call.owner, id)
  | .finish _ _ => []

/-- At every use of an id by the agent, the id is as recently used by anyone as by the agent
itself. The uses before are listed most recent first. -/
def Undisturbed (capacity : Nat) (who : Owner) :
    List (Owner × PyStr) → List (Owner × PyStr) → Prop
  | _, [] => True
  | before, (owner, id) :: later =>
      (owner = who →
        (RecentlyUsed capacity id (before.map (·.2)) ↔
          RecentlyUsed capacity id ((before.filter (·.1 = who)).map (·.2)))) ∧
        Undisturbed capacity who ((owner, id) :: before) later

/-- Whether an agent is undisturbed is decided use by use. -/
instance Undisturbed.decidable (capacity : Nat) (who : Owner) :
    (before later : List (Owner × PyStr)) → Decidable (Undisturbed capacity who before later)
  | _, [] => inferInstanceAs (Decidable True)
  | before, (owner, id) :: later =>
      have := decidable capacity who ((owner, id) :: before) later
      inferInstanceAs (Decidable ((_ → (_ ↔ _)) ∧ _))

/-! ## The cache after a batch -/

/-- The cache holds what a history of uses, most recent first, has left in it. -/
structure Holds (capacity : Nat) (history : List PyStr) (cache : DeduplicationCache) : Prop where
  capacity_eq : cache.capacity = capacity
  entries_eq : cache.entries = past capacity history

/-- A new cache holds no uses. -/
theorem holds_empty (capacity : Nat) : Holds capacity [] (.empty capacity) :=
  ⟨rfl, rfl⟩

/-- An id is seen when it was recently used. -/
theorem Holds.mem_iff {capacity : Nat} {history : List PyStr} {cache : DeduplicationCache}
    (h : Holds capacity history cache) (id : PyStr) :
    id ∈ cache.entries ↔ RecentlyUsed capacity id history := by
  rw [h.entries_eq, mem_past_iff]

variable {config loads}

/-- What becomes of an event when only the cache decides. -/
def deduplicated (cache : DeduplicationCache) (event : RuntimeEvent) : LineOutcome :=
  if event.eventId ∈ cache.entries then .duplicate event else .admitted event

/-- While the quota is open, only the cache decides about an event. -/
theorem judge_open {principal : AgentPrincipal} {quota : QuotaLimiter}
    (hopen : OpenFor config principal quota) (cache : DeduplicationCache) (event : RuntimeEvent) :
    judge config principal quota cache event = deduplicated cache event := by
  obtain ⟨haccept, hcheck⟩ := hopen event.type
  simp [judge, deduplicated, DeduplicationCache.seen, haccept, hcheck]

/-- While the quota is open, the loop goes on after every event. -/
theorem ingest_lines_event {principal : AgentPrincipal} {quota : Nat → QuotaLimiter} {n : Nat}
    (hopen : OpenFor config principal (quota n)) {p : Progress} {rawLine : PyBytes}
    {event : RuntimeEvent} (hread : readLine config loads p.seen rawLine = .event event)
    (lines : List PyBytes) :
    ingestLines config loads principal quota n (rawLine :: lines) p =
      ingestLines config loads principal quota (n + 1) lines
        (p.record n (deduplicated p.cache event)) := by
  rw [ingestLines, examineLine, hread]
  dsimp only
  rw [judge_open hopen, deduplicated]
  by_cases hseen : event.eventId ∈ p.cache.entries
  · rw [if_pos hseen]
  · rw [if_neg hseen]

/-- Either way the line counts. -/
theorem seen_record_deduplicated (p : Progress) (n : Nat) (event : RuntimeEvent) :
    (p.record n (deduplicated p.cache event)).seen = p.seen + 1 := by
  unfold deduplicated
  split <;> rfl

/-- Either way the event uses its id. -/
theorem holds_record {capacity : Nat} {history : List PyStr} {p : Progress}
    (h : Holds capacity history p.cache) (n : Nat) (event : RuntimeEvent) :
    Holds capacity (event.eventId :: history)
      (p.record n (deduplicated p.cache event)).cache := by
  have hcache : (p.record n (deduplicated p.cache event)).cache =
      p.cache.remember event.eventId := by
    unfold deduplicated
    by_cases hseen : event.eventId ∈ p.cache.entries
    · rw [if_pos hseen]
      simp only [Progress.record, DeduplicationCache.moveToEnd, dif_pos hseen,
        DeduplicationCache.remember, use_of_mem hseen p.cache.bounded]
    · rw [if_neg hseen]
      rfl
  rw [hcache]
  refine ⟨h.capacity_eq, ?_⟩
  rw [past, ← h.entries_eq, ← h.capacity_eq]
  rfl

/-- A batch uses the ids it carries, in their order. -/
theorem holds_ingest_lines {capacity : Nat} {principal : AgentPrincipal}
    {quota : Nat → QuotaLimiter} (hopen : ∀ n, OpenFor config principal (quota n))
    (lines : List PyBytes) (n : Nat) {history : List PyStr} {p : Progress}
    (h : Holds capacity history p.cache) :
    Holds capacity
      (((window config loads p.seen lines).map (·.eventId)).reverse ++ history)
      (ingestLines config loads principal quota n lines p).1.cache := by
  induction lines generalizing n history p with
  | nil => exact h
  | cons rawLine lines ih =>
      rw [window]
      cases hread : readLine config loads p.seen rawLine with
      | blank =>
          rw [ingestLines, examineLine, hread]
          exact ih (n + 1) (show Holds capacity history (p.record n .blank).cache from h)
      | malformed message =>
          rw [ingestLines, examineLine, hread]
          exact ih (n + 1) (show Holds capacity history (p.record n (.malformed message)).cache from h)
      | invalid reason =>
          rw [ingestLines, examineLine, hread]
          exact ih (n + 1) (show Holds capacity history (p.record n (.invalid reason)).cache from h)
      | overLimit | uncaught =>
          rw [ingestLines, examineLine, hread]
          exact h
      | event event =>
          have hnext := ih (n + 1) (holds_record h n event)
          rw [seen_record_deduplicated] at hnext
          rw [ingest_lines_event (hopen n) hread, List.map_cons, List.reverse_cons,
            List.append_assoc, List.singleton_append]
          exact hnext

/-! ## One batch against two caches -/

/-- At every use of an id of the list, it is as recently used after the one history as after the
other. -/
def SeenAlike (capacity : Nat) : List PyStr → List PyStr → List PyStr → Prop
  | _, _, [] => True
  | history, history', id :: ids =>
      (RecentlyUsed capacity id history ↔ RecentlyUsed capacity id history') ∧
        SeenAlike capacity (id :: history) (id :: history') ids

/-- Two loops agree on everything but the cache. -/
structure Alike (p q : Progress) : Prop where
  result : p.result = q.result
  publishable : p.publishable = q.publishable
  seen : p.seen = q.seen
  outcomes : p.outcomes = q.outcomes

/-- The same outcome keeps two loops in agreement. -/
theorem Alike.record {p q : Progress} (h : Alike p q) (n : Nat) (outcome : LineOutcome) :
    Alike (p.record n outcome) (q.record n outcome) := by
  obtain ⟨hresult, hpublishable, hseen, houtcomes⟩ := h
  cases outcome <;> constructor <;> simp [Progress.record, hresult, hpublishable, hseen, houtcomes]

variable (config loads) in
/-- The loop only appends to the outcomes. -/
theorem outcomes_prefix (principal : AgentPrincipal) (quota : Nat → QuotaLimiter)
    (lines : List PyBytes) (n : Nat) (p : Progress) :
    p.outcomes <+: (ingestLines config loads principal quota n lines p).1.outcomes := by
  have hrecord : ∀ (p : Progress) n outcome,
      (p.record n outcome).outcomes = p.outcomes ++ [outcome] := by
    intro p n outcome
    cases outcome <;> rfl
  induction lines generalizing n p with
  | nil => exact List.prefix_rfl
  | cons rawLine lines ih =>
      rw [ingestLines]
      generalize examineLine config loads principal (quota n) p.cache p.seen rawLine = outcome
      have happend : p.outcomes <+: (p.record n outcome).outcomes :=
        ⟨[outcome], (hrecord p n outcome).symm⟩
      cases outcome <;> first | exact happend | exact happend.trans (ih (n + 1) _)

variable (config loads) in
/-- An id seen by one of two loops that agree but not by the other shows in the outcomes. -/
theorem outcomes_ne (principal : AgentPrincipal) (quota : Nat → QuotaLimiter) {p q : Progress}
    (h : Alike p q) (lines : List PyBytes) (n : Nat) {event : RuntimeEvent}
    (hseen : ¬ (event.eventId ∈ p.cache.entries ↔ event.eventId ∈ q.cache.entries)) :
    (ingestLines config loads principal quota (n + 1) lines
      (p.record n (deduplicated p.cache event))).1.outcomes ≠
    (ingestLines config loads principal quota (n + 1) lines
      (q.record n (deduplicated q.cache event))).1.outcomes := by
  intro heq
  have hp := outcomes_prefix config loads principal quota lines (n + 1)
    (p.record n (deduplicated p.cache event))
  have hq := outcomes_prefix config loads principal quota lines (n + 1)
    (q.record n (deduplicated q.cache event))
  have hrecord : ∀ (p : Progress) cache, (p.record n (deduplicated cache event)).outcomes =
      p.outcomes ++ [deduplicated cache event] := by
    intro p cache
    unfold deduplicated
    split <;> rfl
  rw [hrecord, heq] at hp
  rw [hrecord, ← h.outcomes] at hq
  have hlast := List.append_cancel_left
    ((List.prefix_of_prefix_length_le hp hq (by simp)).eq_of_length (by simp))
  have houtcome := (List.singleton_inj.mp hlast)
  unfold deduplicated at houtcome
  split at houtcome <;> split at houtcome <;> simp_all

variable (loads) in
/-- Two loops that agree over caches with different histories show the same outcomes exactly when
every id they use is seen alike, and then they agree to the end. -/
theorem ingest_lines_alike {capacity : Nat} {principal : AgentPrincipal}
    {quota : Nat → QuotaLimiter} (hopen : ∀ n, OpenFor config principal (quota n))
    (lines : List PyBytes) (n : Nat) {history history' : List PyStr} {p q : Progress}
    (hp : Holds capacity history p.cache) (hq : Holds capacity history' q.cache)
    (h : Alike p q) :
    ((ingestLines config loads principal quota n lines p).1.outcomes =
        (ingestLines config loads principal quota n lines q).1.outcomes ↔
      SeenAlike capacity history history'
        ((window config loads p.seen lines).map (·.eventId))) ∧
    (SeenAlike capacity history history'
        ((window config loads p.seen lines).map (·.eventId)) →
      Alike (ingestLines config loads principal quota n lines p).1
          (ingestLines config loads principal quota n lines q).1 ∧
        (ingestLines config loads principal quota n lines p).2 =
          (ingestLines config loads principal quota n lines q).2) := by
  induction lines generalizing n history history' p q with
  | nil => exact ⟨by simp [ingestLines, window, SeenAlike, h.outcomes], fun _ ↦ ⟨h, rfl⟩⟩
  | cons rawLine lines ih =>
      rw [window]
      cases hread : readLine config loads p.seen rawLine with
      | blank =>
          rw [ingestLines, ingestLines, examineLine, examineLine, ← h.seen, hread]
          exact ih (n + 1) (show Holds capacity history (p.record n .blank).cache from hp) hq
            (h.record n .blank)
      | malformed message =>
          rw [ingestLines, ingestLines, examineLine, examineLine, ← h.seen, hread]
          exact ih (n + 1)
            (show Holds capacity history (p.record n (.malformed message)).cache from hp) hq
            (h.record n (.malformed message))
      | invalid reason =>
          rw [ingestLines, ingestLines, examineLine, examineLine, ← h.seen, hread]
          exact ih (n + 1)
            (show Holds capacity history (p.record n (.invalid reason)).cache from hp) hq
            (h.record n (.invalid reason))
      | overLimit =>
          rw [ingestLines, ingestLines, examineLine, examineLine, ← h.seen, hread]
          have hnext := h.record n .overLimit
          exact ⟨⟨fun _ ↦ trivial, fun _ ↦ hnext.outcomes⟩, fun _ ↦ ⟨hnext, rfl⟩⟩
      | uncaught =>
          rw [ingestLines, ingestLines, examineLine, examineLine, ← h.seen, hread]
          have hnext := h.record n .uncaught
          exact ⟨⟨fun _ ↦ trivial, fun _ ↦ hnext.outcomes⟩, fun _ ↦ ⟨hnext, rfl⟩⟩
      | event event =>
          rw [ingest_lines_event (hopen n) hread,
            ingest_lines_event (hopen n) (by rw [← h.seen]; exact hread)]
          simp only [List.map_cons, SeenAlike]
          by_cases hseen : event.eventId ∈ p.cache.entries ↔ event.eventId ∈ q.cache.entries
          · have hsame : deduplicated q.cache event = deduplicated p.cache event := by
              simp [deduplicated, hseen]
            have hnext := ih (n + 1) (holds_record hp n event) (holds_record hq n event)
              (by rw [hsame]; exact h.record n _)
            rw [seen_record_deduplicated] at hnext
            rw [hp.mem_iff, hq.mem_iff] at hseen
            simpa [hseen] using hnext
          · have hne := outcomes_ne config loads principal quota h lines n hseen
            rw [hp.mem_iff, hq.mem_iff] at hseen
            exact ⟨⟨fun heq ↦ absurd heq hne, fun hall ↦ absurd hall.1 hseen⟩,
              fun hall ↦ absurd hall.1 hseen⟩

/-- A batch uses the ids it carries. -/
theorem holds_begin_execute {capacity : Nat} {principal : AgentPrincipal}
    {quota : Nat → QuotaLimiter} (hopen : ∀ n, OpenFor config principal (quota n))
    {history : List PyStr} {cache : DeduplicationCache} (h : Holds capacity history cache)
    (body : PyBytes) :
    Holds capacity ((windowIds config loads body).reverse ++ history)
      (beginExecute config loads principal quota cache body).2.cache := by
  unfold beginExecute windowIds
  split
  · exact h
  · exact holds_ingest_lines hopen body.splitlines 1
      (show Holds capacity history (Progress.initial cache).cache from h)

/-- Loops that agree come to the same. -/
theorem after_lines_alike {loop loop' : Progress × Option IngestError}
    (h : Alike loop.1 loop'.1) (herror : loop.2 = loop'.2) (principal : AgentPrincipal)
    (quota : QuotaLimiter) :
    afterLines config principal quota loop = afterLines config principal quota loop' := by
  obtain ⟨p, error⟩ := loop
  obtain ⟨q, error'⟩ := loop'
  obtain rfl : error = error' := herror
  cases error with
  | some error => rfl
  | none =>
      have hresult : p.result = q.result := h.result
      have hpublishable : p.publishable = q.publishable := h.publishable
      simp only [afterLines, hresult, hpublishable]

variable (loads) in
/-- A batch shows the same outcomes over two caches exactly when every id it carries is seen
alike, and then it comes to the same. -/
theorem begin_execute_alike {capacity : Nat} {principal : AgentPrincipal}
    {quota : Nat → QuotaLimiter} (hopen : ∀ n, OpenFor config principal (quota n))
    {history history' : List PyStr} {cache cache' : DeduplicationCache}
    (h : Holds capacity history cache) (h' : Holds capacity history' cache') (body : PyBytes) :
    ((beginExecute config loads principal quota cache body).2.outcomes =
        (beginExecute config loads principal quota cache' body).2.outcomes ↔
      SeenAlike capacity history history' (windowIds config loads body)) ∧
    (SeenAlike capacity history history' (windowIds config loads body) →
      (beginExecute config loads principal quota cache body).1 =
        (beginExecute config loads principal quota cache' body).1) := by
  unfold beginExecute windowIds
  split
  · exact ⟨by simp [SeenAlike, Progress.initial], fun _ ↦ rfl⟩
  · obtain ⟨houtcomes, halike⟩ := ingest_lines_alike loads hopen body.splitlines 1
      (show Holds capacity history (Progress.initial cache).cache from h)
      (show Holds capacity history' (Progress.initial cache').cache from h')
      ⟨rfl, rfl, rfl, rfl⟩
    refine ⟨houtcomes, fun hseen ↦ ?_⟩
    obtain ⟨hloop, herror⟩ := halike hseen
    exact after_lines_alike hloop herror principal _

/-! ## Runs with and without the other agents -/

/-- The run without the other agents, next to the run with them: its cache holds the agent's own
uses, and the calls that wait in it are the agent's own. -/
structure Shadows (capacity : Nat) (who : Owner) (before : List (Owner × PyStr))
    (s t : Service) : Prop where
  shared : Holds capacity (before.map (·.2)) s.cache
  own : Holds capacity ((before.filter (·.1 = who)).map (·.2)) t.cache
  suspended : t.suspended = s.suspended.filter fun waiting ↦ waiting.call.owner = who

/-- Uses of another agent are none of the agent's business. -/
theorem undisturbed_other {capacity : Nat} {who owner : Owner} (h : owner ≠ who)
    (ids : List PyStr) (before later : List (Owner × PyStr)) :
    Undisturbed capacity who before (ids.map (fun id ↦ (owner, id)) ++ later) ↔
      Undisturbed capacity who ((ids.map fun id ↦ (owner, id)).reverse ++ before) later := by
  induction ids generalizing before with
  | nil => rfl
  | cons id ids ih =>
      rw [List.map_cons, List.cons_append, Undisturbed, List.reverse_cons, List.append_assoc,
        List.singleton_append, ← ih]
      simp [h]

/-- Uses of the agent itself are undisturbed when they are seen alike. -/
theorem undisturbed_own {capacity : Nat} {who : Owner} (ids : List PyStr)
    (before later : List (Owner × PyStr)) :
    Undisturbed capacity who before (ids.map (fun id ↦ (who, id)) ++ later) ↔
      SeenAlike capacity (before.map (·.2)) ((before.filter (·.1 = who)).map (·.2)) ids ∧
        Undisturbed capacity who ((ids.map fun id ↦ (who, id)).reverse ++ before) later := by
  induction ids generalizing before with
  | nil => simp [SeenAlike]
  | cons id ids ih =>
      rw [List.map_cons, List.cons_append, Undisturbed, List.reverse_cons, List.append_assoc,
        List.singleton_append, ih, SeenAlike]
      simp [and_assoc]

/-- What the uses of a label add to the history of all agents. -/
theorem map_snd_uses (owner : Owner) (ids : List PyStr) (before : List (Owner × PyStr)) :
    ((ids.map fun id ↦ (owner, id)).reverse ++ before).map (·.2) =
      ids.reverse ++ before.map (·.2) := by
  simp [Function.comp_def]

/-- What the uses of a label add to the history of one agent: all of it, or nothing. -/
theorem map_snd_filter_uses (who owner : Owner) (ids : List PyStr)
    (before : List (Owner × PyStr)) :
    ((((ids.map fun id ↦ (owner, id)).reverse ++ before).filter (·.1 = who)).map (·.2)) =
      (if owner = who then ids.reverse else []) ++ (before.filter (·.1 = who)).map (·.2) := by
  rw [List.filter_append, List.map_append, ← List.map_reverse, List.filter_map, List.map_map]
  by_cases h : owner = who <;> simp [h, Function.comp_def]

/-- The calls of one agent that go on waiting when another agent's call is answered. -/
theorem filter_resume_other {s : Service} {who : Owner} {call : Call} (h : call.owner ≠ who) :
    ((s.resume call).suspended.filter fun waiting ↦ waiting.call.owner = who) =
      s.suspended.filter fun waiting ↦ waiting.call.owner = who := by
  unfold Service.resume
  dsimp only
  induction s.suspended with
  | nil => rfl
  | cons waiting rest ih =>
      rw [List.eraseP_cons]
      by_cases hcall : waiting.call = call
      · simp [hcall, h]
      · simp [hcall, List.filter_cons, ih]

/-- The calls of one agent that go on waiting when one of them is answered. -/
theorem filter_resume_own {s : Service} {who : Owner} {call : Call} (h : call.owner = who) :
    ((s.resume call).suspended.filter fun waiting ↦ waiting.call.owner = who) =
      (s.suspended.filter fun waiting ↦ waiting.call.owner = who).eraseP
        fun waiting ↦ waiting.call = call := by
  unfold Service.resume
  dsimp only
  induction s.suspended with
  | nil => rfl
  | cons waiting rest ih =>
      rw [List.eraseP_cons]
      by_cases hcall : waiting.call = call
      · simp [hcall, h]
      · by_cases howner : waiting.call.owner = who <;> simp [hcall, howner, ih]

/-- What a step keeps of a waiting call's outcomes and of the sink depends on the call alone. -/
theorem step_finish_own {s t : Service} {who : Owner} {call : Call} (h : call.owner = who)
    (hsuspended : t.suspended = s.suspended.filter fun waiting ↦ waiting.call.owner = who)
    (publish : Option QuotaLimiter) :
    (step config loads s (.finish call publish)).1 =
      (step config loads t (.finish call publish)).1 := by
  have hfind : t.suspended.find? (fun waiting ↦ waiting.call = call) =
      s.suspended.find? fun waiting ↦ waiting.call = call := by
    rw [hsuspended, List.find?_filter]
    congr 1
    funext waiting
    by_cases hcall : waiting.call = call <;> simp [hcall, h]
  unfold step
  dsimp only
  rw [hfind]
  cases s.suspended.find? fun waiting ↦ waiting.call = call with
  | none => rfl
  | some waiting => cases publish <;> rfl

variable (loads) in
/-- Another agent's step leaves the run without it where it was. -/
theorem Shadows.step_other {capacity : Nat} {who : Owner} {before : List (Owner × PyStr)}
    {s t : Service} (h : Shadows capacity who before s t) {label : Label}
    (hother : label.call.owner ≠ who) (hopen : NotBinding config label) :
    Shadows capacity who ((uses config loads label).reverse ++ before)
      (step config loads s label).2 t := by
  cases label with
  | start call body quota =>
      have hother : call.owner ≠ who := hother
      refine ⟨?_, ?_, ?_⟩
      · rw [uses, map_snd_uses, step, Service.began_cache]
        exact holds_begin_execute hopen h.shared body
      · rw [uses, map_snd_filter_uses, if_neg hother]
        exact h.own
      · rw [h.suspended, step, Service.began_suspended, List.filter_append]
        split <;> simp [hother]
  | finish call publish =>
      have hother : call.owner ≠ who := hother
      obtain ⟨hcache, hsuspended⟩ := step_finish config loads s call publish
      refine ⟨?_, h.own, ?_⟩
      · rw [hcache]
        exact h.shared
      · rw [hsuspended, filter_resume_other hother]
        exact h.suspended

variable (loads) in
/-- The agent's own step shows the same in both runs exactly when the ids it uses are seen alike,
and then the one run goes on shadowing the other. -/
theorem Shadows.step_own {capacity : Nat} {who : Owner} {before : List (Owner × PyStr)}
    {s t : Service} (h : Shadows capacity who before s t) {label : Label}
    (hown : label.call.owner = who) (hopen : NotBinding config label)
    (later : List (Owner × PyStr)) :
    ∃ alike : Prop,
      (((step config loads s label).1.outcomes, (step config loads s label).1.published) =
        ((step config loads t label).1.outcomes, (step config loads t label).1.published) ↔
          alike) ∧
      (Undisturbed capacity who before (uses config loads label ++ later) ↔
        alike ∧ Undisturbed capacity who ((uses config loads label).reverse ++ before) later) ∧
      (alike → Shadows capacity who ((uses config loads label).reverse ++ before)
        (step config loads s label).2 (step config loads t label).2) := by
  cases label with
  | start call body quota =>
      obtain rfl : call.owner = who := hown
      obtain ⟨houtcomes, hbegun⟩ :=
        begin_execute_alike loads hopen h.shared h.own body
      refine ⟨SeenAlike capacity (before.map (·.2)) ((before.filter (·.1 = call.owner)).map (·.2))
        (windowIds config loads body), ?_, undisturbed_own _ _ _, fun hseen ↦ ⟨?_, ?_, ?_⟩⟩
      · simp only [step, Service.began_reply, Prod.mk.injEq, and_true]
        exact houtcomes
      · rw [uses, map_snd_uses, step, Service.began_cache]
        exact holds_begin_execute hopen h.shared body
      · rw [uses, map_snd_filter_uses, if_pos rfl, step, Service.began_cache]
        exact holds_begin_execute hopen h.own body
      · rw [step, step, Service.began_suspended, Service.began_suspended, h.suspended,
          List.filter_append, ← hbegun hseen, ← houtcomes.mpr hseen]
        split <;> simp
  | finish call publish =>
      have hown : call.owner = who := hown
      obtain ⟨hcache, hsuspended⟩ := step_finish config loads s call publish
      obtain ⟨hcache', hsuspended'⟩ :=
        step_finish config loads t call publish
      refine ⟨True, ?_, by simp [uses], fun _ ↦ ⟨?_, ?_, ?_⟩⟩
      · simp [step_finish_own hown h.suspended publish]
      · rw [hcache]
        exact h.shared
      · rw [hcache']
        exact h.own
      · rw [hsuspended, hsuspended', filter_resume_own hown, ← h.suspended]
        rfl

variable (config loads) in
/-- Along shadowing runs, the agent observes the same exactly when it is undisturbed. -/
theorem observations_filter_iff {capacity : Nat} {who : Owner} (labels : List Label)
    {before : List (Owner × PyStr)} {s t : Service} (h : Shadows capacity who before s t)
    (hopen : ∀ label ∈ labels, NotBinding config label) :
    observations config loads who s labels =
        observations config loads who t (labels.filter fun label ↦ label.call.owner = who) ↔
      Undisturbed capacity who before (labels.flatMap (uses config loads)) := by
  induction labels generalizing before s t with
  | nil => simp [observations, Undisturbed]
  | cons label labels ih =>
      obtain ⟨hlabel, hlabels⟩ := List.forall_mem_cons.mp hopen
      rw [List.flatMap_cons, observations]
      by_cases hown : label.call.owner = who
      · obtain ⟨alike, hshown, hundisturbed, hnext⟩ := h.step_own loads hown hlabel
          (labels.flatMap (uses config loads))
        rw [List.filter_cons_of_pos (by simpa using hown), observations, hundisturbed]
        simp only [if_pos hown, List.cons.injEq, hshown]
        exact and_congr_right fun halike ↦ ih (hnext halike) hlabels
      · rw [List.filter_cons_of_neg (by simpa using hown)]
        simp only [if_neg hown]
        rw [ih (h.step_other loads hown hlabel) hlabels]
        cases label with
        | start call body quota => exact (undisturbed_other hown _ _ _).symm
        | finish call publish => rfl

variable (config loads) in
/-- While the quota binds nobody, an agent observes what it would observe alone exactly when it is
undisturbed. -/
theorem isolated_iff (capacity : Nat) (who : Owner) (labels : List Label)
    (hopen : ∀ label ∈ labels, NotBinding config label) :
    observations config loads who (.initial capacity) labels =
        observations config loads who (.initial capacity)
          (labels.filter fun label ↦ label.call.owner = who) ↔
      Undisturbed capacity who [] (labels.flatMap (uses config loads)) :=
  observations_filter_iff config loads labels
    ⟨holds_empty capacity, holds_empty capacity, rfl⟩ hopen

/-- The open limiter binds nobody. -/
theorem open_for_open_quota (principal : AgentPrincipal) :
    OpenFor defaultConfig principal openQuota := by
  intro type
  refine ⟨?_, rfl⟩
  simp only [SheddingPolicy.shouldAccept, defaultConfig, openQuota]
  norm_num

/-- An agent alone with the cache observes its own retries only. -/
theorem isolated_iff_retry :
    observations defaultConfig attackLoads (py "org", py "agent") (.initial 100000)
        [.start (agentCall 0) attackLine fun _ ↦ openQuota,
          .start ⟨⟨py "intruder", py "other", []⟩, 1⟩ attackLine fun _ ↦ openQuota] =
      observations defaultConfig attackLoads (py "org", py "agent") (.initial 100000)
        [.start (agentCall 0) attackLine fun _ ↦ openQuota] :=
  (isolated_iff defaultConfig attackLoads 100000 (py "org", py "agent")
    [.start (agentCall 0) attackLine fun _ ↦ openQuota,
      .start ⟨⟨py "intruder", py "other", []⟩, 1⟩ attackLine fun _ ↦ openQuota]
    (by simp [NotBinding, open_for_open_quota])).mpr (by decide)

/-- The line was seen before. -/
def LineOutcome.isRepeated : LineOutcome → Bool
  | duplicate _ => true
  | _ => false

/-- An agent of another organisation that has used the id first turns the agent's event into a
duplicate. -/
theorem foreign_id_dropped :
    ¬ ∀ (config : IngestConfig) (loads : Loads) (capacity : Nat) (who : Owner)
      (labels : List Label), (∀ label ∈ labels, NotBinding config label) →
        observations config loads who (.initial capacity) labels =
          observations config loads who (.initial capacity)
            (labels.filter fun label ↦ label.call.owner = who) := by
  intro h
  have hsame := h defaultConfig attackLoads 100000 (py "org", py "agent")
    [.start ⟨⟨py "intruder", py "other", []⟩, 0⟩ attackLine fun _ ↦ openQuota,
      .start (agentCall 1) attackLine fun _ ↦ openQuota]
    (by simp [NotBinding, open_for_open_quota])
  have hduplicates := congrArg (List.map fun shown ↦ shown.1.map LineOutcome.isRepeated) hsame
  exact absurd hduplicates (by decide)

end Aegis.Gateway
