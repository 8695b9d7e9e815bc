import Aegis.Gateway.Service

/-!
# Acknowledgement and publication

A call that returns has counted each of its events as accepted or as a duplicate, and the agent
drops what was counted. `execute` remembers an event before the sink has taken it, so a failed
publish or a refused batch leaves ids in the cache that no publish has carried, and the retry is
answered with duplicates. `acknowledged_of_meets` says that nothing else goes wrong: in every run
in which no step does one of these, what is counted has been published.
-/

namespace Aegis.Gateway

open Server Machine

/-- The id a line's outcome counts as accepted or duplicate. -/
def LineOutcome.counted : LineOutcome → List PyStr
  | .duplicate event | .admitted event => [event.eventId]
  | _ => []

/-- The ids a reply acknowledges: those counted by a call that returns. -/
def Reply.counted (reply : Reply) : List PyStr :=
  match reply.status with
  | .returned _ => reply.outcomes.flatMap LineOutcome.counted
  | _ => []

/-- After a step, every id its reply acknowledges has been carried by a publish that succeeded;
and while no call awaits the sink, so has every id in the cache. -/
def Acknowledged (reply : Reply) (s : Service) : Prop :=
  (∀ id ∈ reply.counted, id ∈ s.publishedIds) ∧
    (s.suspended = [] → ∀ id ∈ s.cache.entries, id ∈ s.publishedIds)

variable (config : IngestConfig) (loads : Loads)

/-- A batch that is refused was so before it admitted a new event, and a batch that is not
refused carries no id that the cache holds for a call that still awaits the sink. -/
def RetainedStart (s : Service) (body : PyBytes) : Begun × Progress → Prop
  | (.raised _, p) => ∀ event ∈ p.publishable, event.eventId ∈ s.publishedIds
  | _ => ∀ id ∈ windowIds config loads body, id ∈ s.cache.entries → id ∈ s.publishedIds

/-- The step leaves no id in the cache that no publish has carried: it starts a batch that does
not, or the sink refuses only events it has already taken. -/
def Retained (s : Service) : Label → Prop
  | .start call body quota =>
      RetainedStart config loads s body
        (beginExecute config loads call.principal quota s.cache body)
  | .finish call publish =>
      publish = none → ∀ waiting ∈ s.suspended, waiting.call = call →
        ∀ event ∈ waiting.events, event.eventId ∈ s.publishedIds

/-- Whether a started batch retains nothing unpublished is decided by list lookups. -/
instance (s : Service) (body : PyBytes) :
    (begun : Begun × Progress) → Decidable (RetainedStart config loads s body begun)
  | (.raised _, p) => inferInstanceAs (Decidable (∀ event ∈ p.publishable, _))
  | (.returned _, _) | (.publishing _ _, _) =>
      inferInstanceAs (Decidable (∀ id ∈ windowIds config loads body, _ → _))

/-- Whether a step retains nothing unpublished is decided by list lookups. -/
instance (s : Service) : (label : Label) → Decidable (Retained config loads s label)
  | .start call body quota =>
      inferInstanceAs (Decidable (RetainedStart config loads s body
        (beginExecute config loads call.principal quota s.cache body)))
  | .finish _ publish =>
      inferInstanceAs (Decidable (publish = none → ∀ waiting ∈ s.suspended, _ → _))

/-! ## The loop over the lines -/

/-- What the loop has done to a cache that held `cached` with a body that carries `carried`: the
cache holds nothing but those and the admitted ids, and every counted id was admitted or was
there before. -/
structure Tracks (cached carried : List PyStr) (p : Progress) : Prop where
  entries : ∀ id ∈ p.cache.entries, id ∈ cached ∨ id ∈ p.publishable.map (·.eventId)
  counted : ∀ outcome ∈ p.outcomes, ∀ id ∈ outcome.counted,
    id ∈ p.publishable.map (·.eventId) ∨ (id ∈ cached ∧ id ∈ carried)

variable {config loads}

/-- Reading a line leaves what it says about the cache to `judge`. -/
theorem examine_line_event {principal : AgentPrincipal} {quota : QuotaLimiter}
    {cache : DeduplicationCache} {seen : Nat} {rawLine : PyBytes} {event : RuntimeEvent}
    (h : readLine config loads seen rawLine = .event event) :
    examineLine config loads principal quota cache seen rawLine =
      judge config principal quota cache event := by
  rw [examineLine, h]

/-- A duplicate is in the cache and an admitted event is the one asked about. -/
theorem judge_cases (principal : AgentPrincipal) (quota : QuotaLimiter)
    (cache : DeduplicationCache) (event : RuntimeEvent) :
    (event.eventId ∈ cache.entries ∧ judge config principal quota cache event = .duplicate event) ∨
      (event.eventId ∉ cache.entries ∧
        (judge config principal quota cache event = .shed event ∨
          (∃ retryAfter, judge config principal quota cache event = .refused retryAfter) ∨
          judge config principal quota cache event = .admitted event)) := by
  unfold judge
  by_cases h : event.eventId ∈ cache.entries
  · exact .inl ⟨h, if_pos (by simpa [DeduplicationCache.seen] using h)⟩
  · refine .inr ⟨h, ?_⟩
    rw [if_neg (by simpa [DeduplicationCache.seen] using h)]
    dsimp only
    split
    · exact .inl rfl
    · split
      · split
        · exact .inr (.inl ⟨_, rfl⟩)
        · exact .inl rfl
      · exact .inr (.inr rfl)

/-- Remembering an id adds at most that id. -/
theorem mem_remember {cache : DeduplicationCache} {eventId id : PyStr}
    (h : id ∈ (cache.remember eventId).entries) : id = eventId ∨ id ∈ cache.entries :=
  Lru.mem_touch.mp (List.mem_of_mem_take h)

/-- Looking an id up adds nothing. -/
theorem mem_move_to_end {cache : DeduplicationCache} {eventId id : PyStr}
    (h : id ∈ (cache.moveToEnd eventId).entries) : id ∈ cache.entries := by
  unfold DeduplicationCache.moveToEnd at h
  split at h
  · next hmem =>
      rcases Lru.mem_touch.mp h with rfl | h
      · exact hmem
      · exact h
  · exact h

/-- Recording an outcome that counts nothing tracks what was tracked. -/
theorem Tracks.record_uncounted {cached carried : List PyStr} {p : Progress}
    (h : Tracks cached carried p) (n : Nat) (outcome : LineOutcome)
    (hcounted : outcome.counted = []) : Tracks cached carried (p.record n outcome) := by
  have houtcomes : ∀ o ∈ p.outcomes ++ [outcome], ∀ id ∈ o.counted,
      id ∈ p.publishable.map (·.eventId) ∨ (id ∈ cached ∧ id ∈ carried) := by
    intro o ho id hid
    rcases List.mem_append.mp ho with ho | ho
    · exact h.counted o ho id hid
    · rw [List.mem_singleton.mp ho, hcounted] at hid
      simp at hid
  cases outcome <;> first | exact ⟨h.entries, houtcomes⟩ | simp [LineOutcome.counted] at hcounted

/-- Recording a duplicate tracks what was tracked, when the body carries its id. -/
theorem Tracks.record_duplicate {cached carried : List PyStr} {p : Progress}
    (h : Tracks cached carried p) (n : Nat) {event : RuntimeEvent}
    (hcarried : event.eventId ∈ carried) (hseen : event.eventId ∈ p.cache.entries) :
    Tracks cached carried (p.record n (.duplicate event)) where
  entries id hid := h.entries id (mem_move_to_end hid)
  counted o ho id hid := by
    rcases List.mem_append.mp ho with ho | ho
    · exact h.counted o ho id hid
    · rw [List.mem_singleton.mp ho] at hid
      obtain rfl := List.mem_singleton.mp hid
      exact (h.entries _ hseen).symm.imp_right fun hcached ↦ ⟨hcached, hcarried⟩

/-- Recording an admitted event tracks it. -/
theorem Tracks.record_admitted {cached carried : List PyStr} {p : Progress}
    (h : Tracks cached carried p) (n : Nat) (event : RuntimeEvent) :
    Tracks cached carried (p.record n (.admitted event)) where
  entries id hid := by
    simp only [Progress.record, List.map_append, List.mem_append]
    rcases mem_remember hid with rfl | hid
    · exact .inr (.inr (by simp))
    · exact (h.entries id hid).imp_right .inl
  counted o ho id hid := by
    simp only [Progress.record, List.map_append, List.mem_append]
    rcases List.mem_append.mp ho with ho | ho
    · exact (h.counted o ho id hid).imp_left .inl
    · rw [List.mem_singleton.mp ho] at hid
      obtain rfl := List.mem_singleton.mp hid
      exact .inl (.inr (by simp))

/-- Every line keeps the loop tracked. -/
theorem tracks_ingest_lines {cached carried : List PyStr} {principal : AgentPrincipal}
    {quota : Nat → QuotaLimiter} (lines : List PyBytes) (n : Nat) {p : Progress}
    (h : Tracks cached carried p)
    (hcarried : ∀ event ∈ window config loads p.seen lines, event.eventId ∈ carried) :
    Tracks cached carried (ingestLines config loads principal quota n lines p).1 := by
  induction lines generalizing n p with
  | nil => exact h
  | cons rawLine lines ih =>
      rw [window] at hcarried
      rw [ingestLines]
      cases hread : readLine config loads p.seen rawLine with
      | blank =>
          rw [hread] at hcarried
          rw [examineLine, hread]
          exact ih (n + 1) (h.record_uncounted n .blank rfl) hcarried
      | malformed message =>
          rw [hread] at hcarried
          rw [examineLine, hread]
          exact ih (n + 1) (h.record_uncounted n (.malformed message) rfl) hcarried
      | invalid reason =>
          rw [hread] at hcarried
          rw [examineLine, hread]
          exact ih (n + 1) (h.record_uncounted n (.invalid reason) rfl) hcarried
      | overLimit =>
          rw [examineLine, hread]
          exact h.record_uncounted n .overLimit rfl
      | uncaught =>
          rw [examineLine, hread]
          exact h.record_uncounted n .uncaught rfl
      | event event =>
          rw [hread, List.forall_mem_cons] at hcarried
          rw [examine_line_event hread]
          obtain ⟨hseen, hjudge⟩ | ⟨-, hjudge | ⟨retryAfter, hjudge⟩ | hjudge⟩ :=
            judge_cases principal (quota n) p.cache event
          · rw [hjudge]
            exact ih (n + 1) (h.record_duplicate n hcarried.1 hseen) hcarried.2
          · rw [hjudge]
            exact ih (n + 1) (h.record_uncounted n (.shed event) rfl) hcarried.2
          · rw [hjudge]
            exact h.record_uncounted n (.refused retryAfter) rfl
          · rw [hjudge]
            exact ih (n + 1) (h.record_admitted n event) hcarried.2

/-- A batch is tracked from its start to its `await`. -/
theorem tracks_begin_execute (principal : AgentPrincipal) (quota : Nat → QuotaLimiter)
    (cache : DeduplicationCache) (body : PyBytes) :
    Tracks cache.entries (windowIds config loads body)
      (beginExecute config loads principal quota cache body).2 := by
  have hinitial : Tracks cache.entries (windowIds config loads body) (.initial cache) :=
    ⟨fun id hid ↦ .inl hid, by simp [Progress.initial]⟩
  unfold beginExecute
  split
  · exact hinitial
  · next hsize =>
      refine tracks_ingest_lines body.splitlines 1 hinitial fun event hevent ↦ ?_
      rw [windowIds, if_neg hsize]
      exact List.mem_map_of_mem hevent

/-- A batch that returns at once admitted nothing, and one that awaits the sink awaits it with the
events it admitted. -/
def Begun.carries : Begun × Progress → Prop
  | (.raised _, _) => True
  | (.returned _, p) => p.publishable = []
  | (.publishing events _, p) => events = p.publishable

theorem begin_execute_carries (principal : AgentPrincipal) (quota : Nat → QuotaLimiter)
    (cache : DeduplicationCache) (body : PyBytes) :
    Begun.carries (beginExecute config loads principal quota cache body) := by
  unfold beginExecute
  split
  · trivial
  · dsimp only
    generalize ingestLines config loads principal quota 1 body.splitlines (.initial cache) = loop
    obtain ⟨p, error⟩ := loop
    unfold afterLines
    cases error with
    | some error => trivial
    | none =>
        dsimp only
        split
        · trivial
        · cases hevents : p.publishable with
          | nil => exact hevents
          | cons event events => exact hevents.symm

/-! ## Runs of the process -/

/-- Every id in the cache, and every id a waiting call has counted, has been published or is
carried by a waiting call. -/
structure Accounted (s : Service) : Prop where
  entries : ∀ id ∈ s.cache.entries, id ∈ s.publishedIds ∨ id ∈ s.pendingIds
  waiting : ∀ waiting ∈ s.suspended, ∀ outcome ∈ waiting.outcomes, ∀ id ∈ outcome.counted,
    id ∈ s.publishedIds ∨ id ∈ waiting.events.map (·.eventId)

/-- What a step establishes: the ids stay accounted for, and its reply acknowledges only
published ones. -/
def Sound (outcome : Reply × Service) : Prop :=
  Accounted outcome.2 ∧ ∀ id ∈ outcome.1.counted, id ∈ outcome.2.publishedIds

/-- Nothing is counted before the first call. -/
theorem accounted_initial (capacity : Nat) : Accounted (.initial capacity) :=
  ⟨by simp [Service.initial, DeduplicationCache.empty], by simp [Service.initial]⟩

/-- While no call awaits the sink, the accounted ids are the published ones. -/
theorem Accounted.idle {s : Service} (h : Accounted s) (hidle : s.suspended = []) :
    ∀ id ∈ s.cache.entries, id ∈ s.publishedIds := by
  intro id hid
  refine (h.entries id hid).resolve_right ?_
  simp [Service.pendingIds, hidle]

/-- A call that starts is sound. -/
theorem sound_began {s : Service} (h : Accounted s) (call : Call) (body : PyBytes)
    {begun : Begun × Progress}
    (htracks : Tracks s.cache.entries (windowIds config loads body) begun.2)
    (hcarries : Begun.carries begun) (hretained : RetainedStart config loads s body begun) :
    Sound (s.began call begun) := by
  obtain ⟨begun, p⟩ := begun
  cases begun with
  | raised error =>
      refine ⟨⟨fun id hid ↦ ?_, h.waiting⟩, by simp [Service.began, Reply.counted]⟩
      rcases htracks.entries id hid with hcached | hadmitted
      · exact h.entries id hcached
      · obtain ⟨event, hevent, rfl⟩ := List.mem_map.mp hadmitted
        exact .inl (hretained event hevent)
  | returned result =>
      have hnone : p.publishable = [] := hcarries
      refine ⟨⟨fun id hid ↦ ?_, h.waiting⟩, fun id hid ↦ ?_⟩
      · rcases htracks.entries id hid with hcached | hadmitted
        · exact h.entries id hcached
        · simp [hnone] at hadmitted
      · obtain ⟨outcome, houtcome, hid⟩ := List.mem_flatMap.mp hid
        rcases htracks.counted outcome houtcome id hid with hadmitted | ⟨hcached, hcarried⟩
        · simp [hnone] at hadmitted
        · exact hretained id hcarried hcached
  | publishing events result =>
      obtain rfl : events = p.publishable := hcarries
      refine ⟨⟨fun id hid ↦ ?_, fun waiting hwaiting ↦ ?_⟩, by simp [Service.began, Reply.counted]⟩
      · simp only [Service.began, Service.pendingIds, List.flatMap_append, List.mem_append]
        rcases htracks.entries id hid with hcached | hadmitted
        · exact (h.entries id hcached).imp_right .inl
        · exact .inr (.inr (by simpa using hadmitted))
      · rcases List.mem_append.mp hwaiting with hwaiting | hwaiting
        · exact h.waiting waiting hwaiting
        · obtain rfl := List.mem_singleton.mp hwaiting
          intro outcome houtcome id hid
          rcases htracks.counted outcome houtcome id hid with hadmitted | ⟨hcached, hcarried⟩
          · exact .inr hadmitted
          · exact .inl (hretained id hcarried hcached)

/-- A waiting call and the calls that go on waiting once it is answered. -/
theorem mem_suspended {s : Service} {call : Call} {waiting : Suspended}
    (h : s.suspended.find? (fun waiting ↦ waiting.call = call) = some waiting)
    (other : Suspended) :
    other ∈ s.suspended ↔ other = waiting ∨ other ∈ (s.resume call).suspended := by
  obtain ⟨hcall, before, after, hsplit, hbefore⟩ := List.find?_eq_some_iff_append.mp h
  have hnone : ∀ a ∈ before, ¬ (decide (a.call = call) = true) := by
    intro a ha
    simpa using hbefore a ha
  have herase : (s.resume call).suspended = before ++ after := by
    rw [Service.resume, hsplit]
    dsimp only
    rw [List.eraseP_append_right _ hnone, List.eraseP_cons_of_pos (by simpa using hcall)]
  rw [hsplit, herase]
  simp only [List.mem_append, List.mem_cons]
  tauto

/-- A waiting call the sink answers is sound. -/
theorem sound_answered {s : Service} (h : Accounted s) {waiting : Suspended}
    (hmem : ∀ other, other ∈ s.suspended ↔
      other = waiting ∨ other ∈ (s.resume waiting.call).suspended)
    (publish : Option QuotaLimiter)
    (hretained : publish = none → ∀ event ∈ waiting.events, event.eventId ∈ s.publishedIds) :
    Sound (s.answered config waiting publish) := by
  have hwaiting : waiting ∈ s.suspended := (hmem waiting).mpr (.inl rfl)
  -- what was pending is still pending or is carried by the answered call
  have hpending : ∀ id ∈ s.pendingIds, id ∈ waiting.events.map (·.eventId) ∨
      id ∈ (s.resume waiting.call).pendingIds := by
    intro id hid
    obtain ⟨other, hother, hid⟩ := List.mem_flatMap.mp hid
    rcases (hmem other).mp hother with rfl | hother
    · exact .inl hid
    · exact .inr (List.mem_flatMap.mpr ⟨other, hother, hid⟩)
  cases publish with
  | none =>
      refine ⟨⟨fun id hid ↦ ?_, fun other hother ↦ h.waiting other ((hmem other).mpr (.inr hother))⟩,
        by simp [Service.answered, Reply.counted]⟩
      rcases h.entries id hid with hpublished | hid
      · exact .inl hpublished
      · rcases hpending id hid with hid | hid
        · obtain ⟨event, hevent, rfl⟩ := List.mem_map.mp hid
          exact .inl (hretained rfl event hevent)
        · exact .inr hid
  | some quota =>
      have hpublished : ∀ id, id ∈ s.publishedIds ∨ id ∈ waiting.events.map (·.eventId) →
          id ∈ (s.answered config waiting (some quota)).2.publishedIds := by
        intro id hid
        simpa [Service.publishedIds, Service.answered] using hid
      refine ⟨⟨fun id hid ↦ ?_, fun other hother outcome houtcome id hid ↦ ?_⟩, fun id hid ↦ ?_⟩
      · rcases h.entries id hid with hid | hid
        · exact .inl (hpublished id (.inl hid))
        · exact (hpending id hid).imp_left fun hid ↦ hpublished id (.inr hid)
      · exact (h.waiting other ((hmem other).mpr (.inr hother)) outcome houtcome id hid).imp_left
          fun hid ↦ hpublished id (.inl hid)
      · obtain ⟨outcome, houtcome, hid⟩ := List.mem_flatMap.mp hid
        exact hpublished id (h.waiting waiting hwaiting outcome houtcome id hid)

/-- Every step under the condition is sound. -/
theorem sound_step {s : Service} (h : Accounted s) (label : Label)
    (hretained : Retained config loads s label) : Sound (step config loads s label) := by
  cases label with
  | start call body quota =>
      exact sound_began h call body (tracks_begin_execute call.principal quota s.cache body)
        (begin_execute_carries call.principal quota s.cache body) hretained
  | finish call publish =>
      unfold step
      dsimp only
      split
      · exact ⟨h, by simp [Reply.counted]⟩
      · next waiting hfind =>
          obtain rfl : waiting.call = call := by simpa using List.find?_some hfind
          have hmem := mem_suspended hfind
          exact sound_answered h hmem publish fun hnone ↦
            hretained hnone waiting ((hmem waiting).mpr (.inl rfl)) rfl

variable (config loads) in
/-- In every interleaving no step of which leaves an id in the cache that no publish has carried,
what a call acknowledges has been published, and so has the whole cache between publishes. -/
theorem acknowledged_of_meets (capacity : Nat) (labels : List Label)
    (hmeets : Meets (step config loads) (Retained config loads) (.initial capacity) labels) :
    ∀ p ∈ visited (step config loads) (.initial capacity) labels, Acknowledged p.1 p.2 := by
  intro p hp
  refine (forall_visited ?_ (accounted_initial capacity) hmeets p hp).2
  intro s label haccounted hretained
  obtain ⟨hnext, hcounted⟩ := sound_step haccounted label hretained
  exact ⟨hnext, hcounted, hnext.idle⟩

/-! ## A batch retried after a 503 -/

/-- The agent sends the line, the sink answers, and the agent sends the line again. -/
def retry (publish : Option QuotaLimiter) : List Label :=
  [.start (agentCall 0) attackLine fun _ ↦ openQuota, .finish (agentCall 0) publish,
    .start (agentCall 1) attackLine fun _ ↦ openQuota]

/-- When the sink takes the first batch, the retry is rightly answered with a duplicate. -/
theorem acknowledged_of_meets_retry :
    Meets (step defaultConfig attackLoads) (Retained defaultConfig attackLoads) (.initial 100000)
        (retry (some openQuota)) ∧
      ∀ p ∈ visited (step defaultConfig attackLoads) (.initial 100000) (retry (some openQuota)),
        Acknowledged p.1 p.2 :=
  have hmeets := by decide
  ⟨hmeets, acknowledged_of_meets defaultConfig attackLoads 100000 _ hmeets⟩

/-- When the sink fails, the retry is acknowledged as a duplicate although nothing was ever
published. -/
theorem retry_acknowledged_unpublished :
    ¬ ∀ (config : IngestConfig) (loads : Loads) (capacity : Nat) (labels : List Label),
      ∀ p ∈ visited (step config loads) (.initial capacity) labels, Acknowledged p.1 p.2 := by
  intro h
  have hall : (visited (step defaultConfig attackLoads) (.initial 100000) (retry none)).all
      (fun p ↦ p.1.counted.all fun id ↦ decide (id ∈ p.2.publishedIds)) = true := by
    simp only [List.all_eq_true, decide_eq_true_eq]
    exact fun p hp ↦ (h defaultConfig attackLoads 100000 (retry none) p hp).1
  exact absurd hall (by decide)

end Aegis.Gateway
