import Aegis.Lib.Machine
import Aegis.Api.Grouping
import Aegis.Api.Lifecycle

/-!
# Runs of the findings

What happens to the findings of the organizations, one thing after another: transactions of the
worker, which may fail, changes of the agents and of the modes their environments are protected in,
and triage. `ends_fold_hit_cases` says all that folding a hit does to the rows, the evidence and the
announcements.
-/

namespace Aegis.Api

open Server

/-! ## Folding a hit -/

/-- What finds a finding, how sure it is, what is counted of it and when it was seen last are the
same. -/
structure Finding.SameSightings (other finding : Finding) : Prop where
  id : other.id = finding.id
  identityHash : other.identityHash = finding.identityHash
  confidence : other.confidence = finding.confidence
  occurrenceCount : other.occurrenceCount = finding.occurrenceCount
  wouldBlockCount : other.wouldBlockCount = finding.wouldBlockCount
  lastSeenAt : other.lastSeenAt = finding.lastSeenAt

theorem Finding.SameSightings.trans {a b c : Finding} (h : a.SameSightings b)
    (h' : b.SameSightings c) : a.SameSightings c :=
  ⟨h.id.trans h'.id, h.identityHash.trans h'.identityHash, h.confidence.trans h'.confidence,
    h.occurrenceCount.trans h'.occurrenceCount, h.wouldBlockCount.trans h'.wouldBlockCount,
    h.lastSeenAt.trans h'.lastSeenAt⟩

/-- A row holds a finding: they have the same sightings and status. -/
structure Finding.Held (row finding : Finding) : Prop extends row.SameSightings finding where
  status : row.status = finding.status

/-- A finding that is stored is held by the row of its identity. -/
theorem Tenant.held_of_upsert {tenant tenant' : Tenant} {finding : Finding}
    (h : tenant.upsert finding = .ok tenant')
    (hid : ∀ row, tenant.rowOf finding.identityHash = some row → row.val.id = finding.id) :
    ∃ row : FindingRow, tenant' = tenant.put row ∧ row.val.Held finding := by
  unfold upsert at h
  cases hold : tenant.rowOf finding.identityHash with
  | none =>
      rw [hold] at h
      obtain ⟨row, hrow, hput⟩ := Checked.bind_eq_ok.mp h
      cases hput
      unfold insertRow at hrow
      split at hrow
      · cases hrow
        exact ⟨_, rfl, ⟨rfl, rfl, rfl, rfl, rfl, rfl⟩, rfl⟩
      · cases hrow
  | some old =>
      rw [hold] at h
      obtain ⟨row, hrow, hput⟩ := Checked.bind_eq_ok.mp h
      cases hput
      unfold updateRow at hrow
      split at hrow
      · cases hrow
        have hidentity : old.val.identityHash = finding.identityHash := identity_of_row_of hold
        exact ⟨_, rfl, ⟨hid old hold, hidentity, rfl, rfl, rfl, rfl⟩, rfl⟩
      · cases hrow

/-- The time an event is folded at. -/
def ProcessRuntimeEvents.timeOf (pipeline : ProcessRuntimeEvents) (record : JsonObject)
    (draws : Nat) : Instant :=
  match readMillis pipeline.library record with
  | .ok millis => if millis ≤ 0 then pipeline.now draws else millis * 1000
  | .error _ => 0

/-- What a hit is folded into, and when. -/
structure Fold where
  identity : PyStr
  stackHash : PyStr
  observedAt : Instant
  draw : Nat
  /-- The finding before it is seen. -/
  finding : Finding

namespace Fold

variable (fold : Fold) (pipeline : ProcessRuntimeEvents) (hit : Hit)

/-- The finding after it is seen. -/
def seen : Finding :=
  (fold.finding.see hit.context (routeTemplate pipeline.library hit.payload) fold.observedAt).1

/-- What is announced. -/
def announcement (organizationId : Uuid) (created : Bool) : Announcement :=
  ⟨organizationId, created, (fold.seen pipeline hit).id, (fold.seen pipeline hit).ruleKey,
    (fold.seen pipeline hit).severity, (fold.seen pipeline hit).confidence,
    (fold.seen pipeline hit).sinkSignature, hit.context.applicationId,
    (fold.seen pipeline hit).occurrenceCount, fold.observedAt⟩

/-- The finding is the one that is stored, as sure as the hit says, or a new one. -/
def Continues (organizationId : Uuid) (stored : Option FindingRow) : Prop :=
  match stored with
  | none => ∃ title, fold.finding = pipeline.freshFinding organizationId hit fold.identity
      fold.stackHash (pipeline.newId fold.draw) title
  | some row => fold.finding = Finding.raiseConfidence
      { row.val with title := row.val.title.reload }
      (confidenceOf pipeline.library (dictGet hit.payload (py "confidence")))

/-- The hit is folded: its finding is seen, stored and announced. The evidence is left out. -/
structure Of (organizationId : Uuid) (record : JsonObject) (before after : Batch) : Prop where
  identity : pipeline.identify organizationId hit = .ok (fold.identity, fold.stackHash)
  observedAt : fold.observedAt = pipeline.timeOf record before.draws
  continues : fold.Continues pipeline hit organizationId (before.tenant.rowOf fold.identity)
  drawn : before.tenant.rowOf fold.identity = none →
    before.draws ≤ fold.draw ∧ fold.draw < after.draws
  draws : before.draws ≤ after.draws
  agents : after.tenant.agents = before.tenant.agents
  rows : ∃ row : FindingRow, row.val.Held (fold.seen pipeline hit) ∧ ∀ identity,
    after.tenant.rowOf identity =
      if identity = fold.identity then some row else before.tenant.rowOf identity
  announcements : after.announcements = before.announcements ++
    [fold.announcement pipeline hit organizationId (before.tenant.rowOf fold.identity).isNone]

/-- The evidence of a hit is due: the first sighting of a finding that is not suppressed always is,
and one the interval after the last sample. -/
def Due (before : Batch) : Prop :=
  (fold.seen pipeline hit).occurrenceCount ≤ 1 ∨
    (before.tenant.latestOccurrenceAt (fold.seen pipeline hit).id).all
      (fun latest ↦ fold.observedAt - latest ≥ pipeline.evidenceInterval) = true

/-- A sample is kept when it is due. -/
def Samples (before after : Batch) : Prop :=
  (fold.Due pipeline hit before ∧ ∃ occurrence : Occurrence,
    occurrence.findingId = (fold.seen pipeline hit).id ∧ occurrence.observedAt = fold.observedAt ∧
      after.tenant.occurrences = before.tenant.occurrences ++ [occurrence]) ∨
    (¬ fold.Due pipeline hit before ∧ after.tenant.occurrences = before.tenant.occurrences)

end Fold

/-- Nothing was written or announced. -/
structure Batch.Untouched (before after : Batch) : Prop where
  tenant : after.tenant = before.tenant
  announcements : after.announcements = before.announcements
  draws : before.draws ≤ after.draws

variable {pipeline : ProcessRuntimeEvents} {organizationId : Uuid} {record : JsonObject} {hit : Hit}
  {b : Batch}

/-- Reading the time of an event writes nothing. -/
theorem ends_observed_at_time :
    Prog.Ends (pipeline.observedAt record) b
      (fun observedAt after ↦ observedAt = pipeline.timeOf record b.draws ∧ b.Untouched after)
      fun failure after ↦ failure.Raised ∧ b.Untouched after := by
  have hsame : b.Untouched b := ⟨rfl, rfl, le_rfl⟩
  unfold ProcessRuntimeEvents.observedAt
  refine Prog.ends_bind (ends_compute (fun millis hread ↦ ?_) fun e ↦ ⟨⟨e, rfl⟩, hsame⟩)
  have htime : pipeline.timeOf record b.draws =
      if millis ≤ 0 then pipeline.now b.draws else millis * 1000 := by
    rw [ProcessRuntimeEvents.timeOf, hread]
  rw [htime]
  split
  · exact Prog.ends_bind (Prog.ends_read (Prog.ends_bind (Prog.ends_modify
      (Prog.ends_pure ⟨rfl, rfl, rfl, Nat.le_succ _⟩))))
  · refine ends_compute (fun observedAt hfits ↦ ?_) fun e ↦ ⟨⟨e, rfl⟩, hsame⟩
    unfold fromTimestamp at hfits
    split at hfits
    · cases hfits
      exact ⟨rfl, hsame⟩
    · cases hfits

/-- The finding of an identity is found, or made. -/
theorem ends_find_or_create_continues (identity stackHash : PyStr) (observedAt : Instant) :
    Prog.Ends (pipeline.findOrCreate organizationId hit identity stackHash
        (b.tenant.getByIdentity identity)) b
      (fun finding after ↦ b.Untouched after ∧ ∃ draw,
        (⟨identity, stackHash, observedAt, draw, finding⟩ : Fold).Continues pipeline hit
            organizationId (b.tenant.rowOf identity) ∧
          (b.tenant.rowOf identity = none → b.draws ≤ draw ∧ draw < after.draws))
      fun failure after ↦ failure.Raised ∧ b.Untouched after := by
  cases hrow : b.tenant.rowOf identity with
  | none =>
      rw [show b.tenant.getByIdentity identity = none by rw [Tenant.getByIdentity, hrow]; rfl]
      unfold ProcessRuntimeEvents.findOrCreate ProcessRuntimeEvents.drawId
      refine Prog.ends_bind (Prog.ends_bind (Prog.ends_read (Prog.ends_bind (Prog.ends_modify
        (Prog.ends_pure (ends_compute (fun finding hnew ↦ ?_)
          fun e ↦ ⟨⟨e, rfl⟩, rfl, rfl, Nat.le_succ _⟩))))))
      refine ⟨⟨rfl, rfl, Nat.le_succ _⟩, b.draws, ?_, fun _ ↦ ⟨le_rfl, Nat.lt_succ_self _⟩⟩
      obtain ⟨title, -, hfresh⟩ := Checked.bind_eq_ok.mp hnew
      split at hfresh
      · cases hfresh
      · cases hfresh
        exact ⟨title, rfl⟩
  | some row =>
      rw [show b.tenant.getByIdentity identity =
          some { row.val with title := row.val.title.reload } by rw [Tenant.getByIdentity, hrow]; rfl]
      exact Prog.ends_pure ⟨⟨rfl, rfl, le_rfl⟩, 0, rfl, nofun⟩

/-- The finding has its identity, and the id of its row when there is one. -/
theorem Fold.Continues.same {fold : Fold} {stored : Option FindingRow}
    (h : fold.Continues pipeline hit organizationId stored)
    (hstored : ∀ row, stored = some row → row.val.identityHash = fold.identity) :
    fold.finding.identityHash = fold.identity ∧
      ∀ row, stored = some row → row.val.id = fold.finding.id := by
  unfold Continues at h
  cases stored with
  | none =>
      obtain ⟨title, hfresh⟩ := h
      rw [hfresh]
      refine ⟨rfl, fun row hrow ↦ ?_⟩
      cases hrow
  | some row =>
      have hfields : fold.finding.identityHash = row.val.identityHash ∧
          fold.finding.id = row.val.id := by
        rw [h, Finding.raise_confidence_eq]
        exact ⟨rfl, rfl⟩
      refine ⟨hfields.1.trans (hstored row rfl), ?_⟩
      rintro _ ⟨⟩
      exact hfields.2.symm

/-- The id of what is seen is that of the row, or a new one. -/
theorem Fold.Continues.seen_id {fold : Fold} {stored : Option FindingRow}
    (h : fold.Continues pipeline hit organizationId stored) :
    (∀ row, stored = some row → (fold.seen pipeline hit).id = row.val.id) ∧
      (stored = none → (fold.seen pipeline hit).id = pipeline.newId fold.draw) := by
  have hsame := (fold.finding.same_defect_see hit.context
    (routeTemplate pipeline.library hit.payload) fold.observedAt).id
  unfold Continues at h
  cases stored with
  | none =>
      obtain ⟨title, hfresh⟩ := h
      refine ⟨fun row hrow ↦ (by cases hrow), fun _ ↦ hsame.trans ?_⟩
      rw [hfresh]
      rfl
  | some row =>
      refine ⟨fun row' hrow ↦ hsame.trans ?_, fun hnone ↦ (by cases hnone)⟩
      cases hrow
      rw [h, Finding.raise_confidence_eq]

/-- The evidence of a hit is kept when it is due. Nothing else is written. -/
theorem ends_keep_evidence_samples (fold : Fold) {seen : Finding} (before : Batch)
    (hseen : fold.seen pipeline hit = seen)
    (hoccurrences : b.tenant.occurrences = before.tenant.occurrences) :
    Prog.Ends (pipeline.keepEvidence organizationId record hit seen fold.observedAt) b
      (fun _ after ↦ b.Alike after ∧ after.announcements = b.announcements ∧
        b.draws ≤ after.draws ∧ fold.Samples pipeline hit before after)
      fun failure after ↦ failure.Raised ∧ after.tenant = b.tenant ∧
        after.announcements = b.announcements ∧ b.draws ≤ after.draws := by
  subst hseen
  have hlatest : b.tenant.latestOccurrenceAt = before.tenant.latestOccurrenceAt := by
    unfold Tenant.latestOccurrenceAt
    rw [hoccurrences]
  have hshould : Prog.Ends (pipeline.shouldKeepEvidence (fold.seen pipeline hit) fold.observedAt) b
      (fun keeps after ↦ after = b ∧ (keeps = true ↔ fold.Due pipeline hit before))
      fun failure after ↦ failure.Raised ∧ after = b := by
    unfold ProcessRuntimeEvents.shouldKeepEvidence
    split
    · next hfirst => exact Prog.ends_pure ⟨rfl, iff_of_true rfl (.inl hfirst)⟩
    · next hfirst =>
        refine Prog.ends_bind (ends_query (Prog.ends_pure ⟨rfl, ?_⟩) fun e ↦ ⟨⟨e, rfl⟩, rfl⟩)
        rw [hlatest]
        exact ⟨.inr, fun hdue ↦ hdue.resolve_left hfirst⟩
  unfold ProcessRuntimeEvents.keepEvidence ProcessRuntimeEvents.drawId
  refine Prog.ends_bind (hshould.mono (fun keeps after ⟨heq, hdue⟩ ↦ ?_) ?_)
  · subst heq
    cases keeps with
    | false =>
        have hnot : ¬ fold.Due pipeline hit before := fun h ↦ nomatch hdue.mpr h
        exact Prog.ends_pure ⟨⟨rfl, rfl, rfl, rfl⟩, rfl, le_rfl, .inr ⟨hnot, hoccurrences⟩⟩
    | true =>
        refine Prog.ends_bind (Prog.ends_bind (Prog.ends_read (Prog.ends_bind (Prog.ends_modify
          (Prog.ends_pure ?_)))))
        refine Prog.ends_bind (ends_compute (fun occurrence hoccurrence ↦ ?_)
          fun e ↦ ⟨⟨e, rfl⟩, rfl, rfl, Nat.le_succ _⟩)
        refine Prog.ends_bind (ends_write (fun tenant htenant ↦ ?_)
          fun e ↦ ⟨⟨e, rfl⟩, rfl, rfl, Nat.le_succ _⟩)
        unfold Tenant.addOccurrence at htenant
        split at htenant
        · cases htenant
          obtain ⟨hid, htime⟩ : occurrence.findingId = (fold.seen pipeline hit).id ∧
              occurrence.observedAt = fold.observedAt := by
            unfold ProcessRuntimeEvents.evidence at hoccurrence
            obtain ⟨_, -, hoccurrence⟩ := Checked.bind_eq_ok.mp hoccurrence
            obtain ⟨_, -, hoccurrence⟩ := Checked.bind_eq_ok.mp hoccurrence
            obtain ⟨_, -, hoccurrence⟩ := Checked.bind_eq_ok.mp hoccurrence
            obtain ⟨_, -, hoccurrence⟩ := Checked.bind_eq_ok.mp hoccurrence
            obtain ⟨_, -, hoccurrence⟩ := Checked.bind_eq_ok.mp hoccurrence
            cases hoccurrence
            exact ⟨rfl, rfl⟩
          refine Prog.ends_modify ⟨⟨rfl, rfl, rfl, rfl⟩, rfl, Nat.le_succ _,
            .inl ⟨hdue.mp rfl, occurrence, hid, htime, ?_⟩⟩
          exact congrArg (· ++ [occurrence]) hoccurrences
        · cases htenant
  · rintro failure _ ⟨hraised, rfl⟩
    exact ⟨hraised, rfl, rfl, le_rfl⟩

/-- All that folding a hit does. When it raises, either nothing was written and announced or all but
the evidence was. -/
theorem ends_fold_hit_cases :
    Prog.Ends (pipeline.foldHit organizationId record hit) b
      (fun _ after ↦ after.contexts = b.contexts ∧ ∃ fold : Fold,
        fold.Of pipeline hit organizationId record b after ∧ fold.Samples pipeline hit b after)
      fun failure after ↦ failure.Raised ∧ (b.Untouched after ∨
        ∃ fold : Fold, fold.Of pipeline hit organizationId record b after) := by
  unfold ProcessRuntimeEvents.foldHit
  refine Prog.ends_bind (ends_compute (fun ⟨identity, stackHash⟩ hidentity ↦ ?_)
    fun e ↦ ⟨⟨e, rfl⟩, .inl ⟨rfl, rfl, le_rfl⟩⟩)
  refine Prog.ends_bind (((ends_observed_at_time.and ends_observed_at).mono
    (fun observedAt timed ⟨⟨hobserved, htimed⟩, halike⟩ ↦ ?_)
    fun _ _ ⟨⟨hraised, hsame⟩, _⟩ ↦ ⟨hraised, .inl hsame⟩))
  refine Prog.ends_bind (ends_query ?_ fun e ↦ ⟨⟨e, rfl⟩, .inl htimed⟩)
  refine Prog.ends_bind (((ends_find_or_create_continues identity stackHash observedAt).and
    (ends_find_or_create identity stackHash)).mono
    (fun finding found ⟨⟨hfound, draw, hcontinues, hdraw⟩, hfoundAlike, _, _⟩ ↦ ?_)
    fun _ _ ⟨⟨hraised, hsame⟩, _⟩ ↦ ⟨hraised, .inl
      ⟨hsame.tenant.trans htimed.tenant, hsame.announcements.trans htimed.announcements,
        htimed.draws.trans hsame.draws⟩⟩)
  rw [htimed.tenant] at hcontinues hdraw
  have htenant : found.tenant = b.tenant := hfound.tenant.trans htimed.tenant
  have hagents : found.tenant.agents = b.tenant.agents := congrArg Tenant.agents htenant
  have hoccurrences : found.tenant.occurrences = b.tenant.occurrences :=
    congrArg Tenant.occurrences htenant
  have hdraws : b.draws ≤ found.draws := htimed.draws.trans hfound.draws
  obtain ⟨hhash, hid⟩ := hcontinues.same fun row hrow ↦ Tenant.identity_of_row_of hrow
  rw [htimed.tenant]
  rcases hsee : finding.see hit.context (routeTemplate pipeline.library hit.payload) observedAt
    with ⟨seen, regressed⟩
  let fold : Fold := ⟨identity, stackHash, observedAt, draw, finding⟩
  have hseen : fold.seen pipeline hit = seen := congrArg Prod.fst hsee
  have hsame := finding.same_defect_see hit.context (routeTemplate pipeline.library hit.payload)
    observedAt
  rw [hsee] at hsame
  refine Prog.ends_bind (Prog.ends_modify (Prog.ends_bind (ends_write (fun tenant hupsert ↦ ?_)
    fun e ↦ ⟨⟨e, rfl⟩, .inl ⟨htenant, ?_, hdraws⟩⟩)))
  · refine Prog.ends_bind (Prog.ends_modify (Prog.ends_bind (Prog.ends_modify ?_)))
    have hseenHash : seen.identityHash = identity := hsame.identityHash.trans hhash
    obtain ⟨row, rfl, hheld⟩ := Tenant.held_of_upsert hupsert fun row hrow ↦ by
      rw [hseenHash] at hrow
      have hrow : b.tenant.rowOf identity = some row := by
        rw [← htenant]
        exact hrow
      exact (hid row hrow).trans hsame.id.symm
    have hrows : ∀ other, (found.tenant.put row).rowOf other =
        if other = identity then some row else b.tenant.rowOf other := by
      intro other
      rw [Tenant.row_of_put, hheld.identityHash, hseenHash, htenant]
    have hexisting : (b.tenant.getByIdentity identity).isNone =
        (b.tenant.rowOf identity).isNone := Option.isNone_map
    have hof : ∀ after : Batch, found.draws ≤ after.draws →
        after.tenant.agents = found.tenant.agents →
        (∀ other, after.tenant.rowOf other = (found.tenant.put row).rowOf other) →
        after.announcements = found.announcements ++
          [⟨organizationId, (b.tenant.getByIdentity identity).isNone, seen.id, seen.ruleKey,
            seen.severity, seen.confidence, seen.sinkSignature, hit.context.applicationId,
            seen.occurrenceCount, observedAt⟩] →
        fold.Of pipeline hit organizationId record b after := by
      intro after hdrawn hsameAgents hsameRows hannounced
      refine ⟨hidentity, hobserved, hcontinues, fun hnone ↦ ?_, hdraws.trans hdrawn,
        hsameAgents.trans hagents, ⟨row, ?_, fun other ↦ (hsameRows other).trans (hrows other)⟩, ?_⟩
      · exact ⟨htimed.draws.trans (hdraw hnone).1, (hdraw hnone).2.trans_le hdrawn⟩
      · rw [hseen]
        exact hheld
      · rw [hannounced, hfound.announcements, htimed.announcements, hexisting,
          Fold.announcement, hseen]
    refine (ends_keep_evidence_samples fold b hseen ?_).mono ?_ ?_
    · exact hoccurrences
    · rintro _ after ⟨halike', hkept, hdrawn, hsamples⟩
      refine ⟨(halike'.contexts.trans hfoundAlike.contexts).trans halike.contexts, fold,
        hof after hdrawn halike'.agents (fun other ↦ ?_) hkept, hsamples⟩
      rw [Tenant.rowOf, halike'.findings]
      rfl
    · rintro failure after ⟨hraised, hrest, hkept, hdrawn⟩
      refine ⟨hraised, .inr ⟨fold, hof after hdrawn ?_ (fun other ↦ by rw [hrest]) hkept⟩⟩
      rw [hrest]
      rfl
  · exact hfound.announcements.trans htimed.announcements

/-- What a transaction remembers of the agents is not of the fold. -/
theorem Fold.Of.of_contexts {fold : Fold} {contexts : List (PyStr × Option AgentContext)}
    {after : Batch}
    (h : fold.Of pipeline hit organizationId record { b with contexts := contexts } after) :
    fold.Of pipeline hit organizationId record b after :=
  ⟨h.identity, h.observedAt, h.continues, h.drawn, h.draws, h.agents, h.rows, h.announcements⟩

/-- All that an event does: it is folded, ignored or rejected, or it raises, and then it may have
been folded without its evidence. -/
theorem ends_fold_record_cases (h : b.Coherent pipeline.library) :
    Prog.Ends (pipeline.foldRecord organizationId record) b
      (fun _ after ↦ after.Coherent pipeline.library ∧
        ((admitted pipeline.library b.tenant record = none ∧ b.Untouched after) ∨
          ∃ (hit : Hit) (fold : Fold), admitted pipeline.library b.tenant record = some hit ∧
            fold.Of pipeline hit organizationId record b after ∧
            fold.Samples pipeline hit b after))
      fun _ after ↦ b.Untouched after ∨
        ∃ (hit : Hit) (fold : Fold), fold.Of pipeline hit organizationId record b after := by
  unfold ProcessRuntimeEvents.foldRecord ProcessRuntimeEvents.apply
  refine Prog.ends_handle ?_
  split
  · next htype =>
    refine Prog.ends_bind fun faults ↦ ?_
    rcases admit_hit_cases h htype faults with
      ⟨contexts, rest, -, hcoherent, ⟨hit, hadmitted, hends⟩ | ⟨rejection, hadmitted, hends⟩⟩ |
        ⟨-, rest, hends⟩
    · rw [hends]
      refine ⟨fun _ heq ↦ ?_, fun _ heq ↦ (nomatch heq)⟩
      cases heq
      refine ends_fold_hit_cases.mono (fun _ after ⟨hcontexts, fold, hof, hsamples⟩ ↦ ?_)
        fun failure after ⟨⟨exception, hraised⟩, hcases⟩ ↦ ?_
      · exact ⟨hcoherent.congr hcontexts hof.agents,
          .inr ⟨hit, fold, hadmitted, hof.of_contexts, hsamples⟩⟩
      · subst hraised
        refine Prog.ends_raise ?_
        rcases hcases with hsame | ⟨fold, hof⟩
        · exact .inl ⟨hsame.tenant, hsame.announcements, hsame.draws⟩
        · exact .inr ⟨hit, fold, hof.of_contexts⟩
    · rw [hends]
      refine ⟨fun _ heq ↦ (nomatch heq), fun _ heq ↦ ?_⟩
      cases heq
      exact Prog.ends_modify ⟨hcoherent, .inl ⟨hadmitted, rfl, rfl, le_rfl⟩⟩
    · rw [hends]
      refine ⟨fun _ heq ↦ (nomatch heq), fun _ heq ↦ ?_⟩
      cases heq
      exact Prog.ends_raise (.inl ⟨rfl, rfl, le_rfl⟩)
  · next htype =>
      have hadmitted : admitted pipeline.library b.tenant record = none :=
        if_neg fun hboth ↦ htype hboth.1
      exact Prog.ends_modify ⟨h, .inl ⟨hadmitted, rfl, rfl, le_rfl⟩⟩

/-! ## A transaction, event by event -/

/-- Every event meets a condition in the state it is folded in, as far as the loop gets. -/
def EachRecord (pipeline : ProcessRuntimeEvents) (organizationId : Uuid)
    (condition : Batch → JsonObject → Prop) : List JsonObject → Batch → List Bool → Prop
  | [], _, _ => True
  | record :: records, b, faults =>
      let ending := pipeline.foldRecord organizationId record b faults
      condition b record ∧ (ending.outcome.toBool = true →
        EachRecord pipeline organizationId condition records ending.state ending.faults)

instance EachRecord.decidable (pipeline : ProcessRuntimeEvents) (organizationId : Uuid)
    (condition : Batch → JsonObject → Prop) [∀ b record, Decidable (condition b record)] :
    (records : List JsonObject) → (b : Batch) → (faults : List Bool) →
      Decidable (EachRecord pipeline organizationId condition records b faults)
  | [], _, _ => inferInstanceAs (Decidable True)
  | record :: records, b, faults =>
      have := decidable pipeline organizationId condition records
        (pipeline.foldRecord organizationId record b faults).state
        (pipeline.foldRecord organizationId record b faults).faults
      inferInstanceAs (Decidable (_ ∧ (_ → _)))

/-- Every event meets the condition that is always true. -/
theorem each_record_true (records : List JsonObject) (b : Batch) (faults : List Bool) :
    EachRecord pipeline organizationId (fun _ _ ↦ True) records b faults := by
  induction records generalizing b faults with
  | nil => trivial
  | cons record records ih => exact ⟨trivial, fun _ ↦ ih _ _⟩

/-- Conditions that every event meets are met together. -/
theorem EachRecord.and {condition condition' : Batch → JsonObject → Prop}
    {records : List JsonObject} {b : Batch} {faults : List Bool}
    (h : EachRecord pipeline organizationId condition records b faults)
    (h' : EachRecord pipeline organizationId condition' records b faults) :
    EachRecord pipeline organizationId (fun b record ↦ condition b record ∧ condition' b record)
      records b faults := by
  induction records generalizing b faults with
  | nil => trivial
  | cons record records ih => exact ⟨⟨h.1, h'.1⟩, fun hok ↦ ih (h.2 hok) (h'.2 hok)⟩

/-- What every event under the condition preserves, the loop over the events does. -/
theorem fold_records_preserves {condition : Batch → JsonObject → Prop} {inv raised : Batch → Prop}
    (hstep : ∀ b record, inv b → condition b record →
      Prog.Ends (pipeline.foldRecord organizationId record) b (fun _ after ↦ inv after)
        fun _ after ↦ raised after)
    {records : List JsonObject} {b after : Batch} {faults rest : List Bool}
    {outcome : Except Failure PUnit} (hinv : inv b)
    (hmeets : EachRecord pipeline organizationId condition records b faults)
    (hrun : pipeline.foldRecords organizationId records b faults = ⟨outcome, after, rest⟩) :
    (∀ a, outcome = .ok a → inv after) ∧ ∀ e, outcome = .error e → raised after := by
  induction records generalizing b faults with
  | nil =>
      cases hrun
      exact ⟨fun _ _ ↦ hinv, nofun⟩
  | cons record records ih =>
      obtain ⟨hcondition, hrest⟩ := hmeets
      have hends := hstep b record hinv hcondition
      unfold ProcessRuntimeEvents.foldRecords at hrun
      rcases heq : pipeline.foldRecord organizationId record b faults with
        ⟨failure | _, next, rest'⟩
      · rw [Prog.bind_of_error heq] at hrun
        cases hrun
        exact ⟨nofun, fun _ _ ↦ hends.of_error heq⟩
      · rw [Prog.bind_of_ok heq] at hrun
        rw [heq] at hrest
        exact ih (hends.of_ok heq) (hrest rfl) hrun

/-- A transaction commits what its loop leaves, or fails before the loop, in it or after it. -/
theorem transaction_cases (pipeline : ProcessRuntimeEvents) (group : Uuid × List JsonObject)
    (worker : WorkerState) (faults : List Bool) :
    (∃ b rest, pipeline.foldRecords group.1 group.2 (worker.begin group.1) faults.tail =
        ⟨.ok .unit, b, rest⟩ ∧
      (pipeline.transaction group worker faults).outcome = .ok .unit ∧
      (pipeline.transaction group worker faults).state = worker.commit group.1 b) ∨
    ∃ failure b, (pipeline.transaction group worker faults).outcome = .error failure ∧
      (pipeline.transaction group worker faults).state = worker.rollback b ∧
      (b = worker.begin group.1 ∨ ∃ outcome rest,
        pipeline.foldRecords group.1 group.2 (worker.begin group.1) faults.tail =
          ⟨outcome, b, rest⟩) := by
  unfold ProcessRuntimeEvents.transaction
  dsimp only
  rcases Prog.attempt_bind_cases (.raised .OperationalError) (fun _ ↦
      pipeline.foldRecords group.1 group.2 >>= fun _ ↦ Prog.attempt (.raised .OperationalError))
    (worker.begin group.1) faults with hbegun | hfailed
  · rw [hbegun]
    rcases hfolded : pipeline.foldRecords group.1 group.2 (worker.begin group.1) faults.tail with
      ⟨failure | _, b, rest⟩
    · rw [Prog.bind_of_error hfolded]
      exact .inr ⟨failure, b, rfl, rfl, .inr ⟨_, _, rfl⟩⟩
    · rw [Prog.bind_of_ok hfolded]
      rcases rest with _ | ⟨_ | _, rest⟩
      · exact .inl ⟨b, _, rfl, rfl, rfl⟩
      · exact .inl ⟨b, _, rfl, rfl, rfl⟩
      · exact .inr ⟨_, b, rfl, rfl, .inr ⟨_, _, rfl⟩⟩
  · rw [hfailed]
    exact .inr ⟨_, _, rfl, rfl, .inl rfl⟩

/-! ## What happens to findings -/

/-- What is decided about a finding, by someone or by the end of an acceptance. -/
inductive Triage where
  | transition (target : FindingStatus) (actorId : Uuid) (now : Instant) (note : PyStr)
      (acceptedFor : Option Int)
  | expireAcceptance (now : Instant)

/-- The finding as it is stored after a triage, unless that is refused. -/
def Finding.triaged (finding : Finding) : Triage → Option Finding
  | .transition target actorId now note acceptedFor =>
      match finding.transition target actorId now note acceptedFor with
      | (none, moved) => some moved
      | (some _, _) => none
  | .expireAcceptance now => some (finding.expireAcceptance now).2

/-- The part of `TriageFinding` and of `ExpireAcceptedRisks` that writes a finding. What is refused
is rolled back. -/
def Tenant.triage (tenant : Tenant) (identity : PyStr) (triage : Triage) : Tenant :=
  (((tenant.getByIdentity identity).bind fun finding ↦ finding.triaged triage).bind fun finding ↦
    (tenant.upsert finding).toOption).getD tenant

/-- What happens to the findings of an organization. -/
inductive Happening where
  /-- The worker begins a batch, and counts its results anew. -/
  | batch (result : ProcessingResult)
  /-- A transaction of the worker, with the steps of it that fail. -/
  | fold (group : Uuid × List JsonObject) (faults : List Bool)
  /-- Agents are registered or moved, or the mode of an environment is changed. -/
  | configure (organizationId : Uuid) (agents : List (Uuid × AgentContext))
  | triage (organizationId : Uuid) (identity : PyStr) (triage : Triage)

namespace WorkerState

/-- The state with other rows for an organization. -/
def set (worker : WorkerState) (organizationId : Uuid) (tenant : Tenant) : WorkerState :=
  { worker with database := Function.update worker.database organizationId tenant }

/-- The state after one thing has happened, and whether it was committed. -/
def step (pipeline : ProcessRuntimeEvents) (worker : WorkerState) :
    Happening → Bool × WorkerState
  | .batch result => (true, { worker with result := result })
  | .fold group faults =>
      let ending := pipeline.transaction group worker faults
      (ending.outcome.toBool, ending.state)
  | .configure organizationId agents =>
      (true, worker.set organizationId { worker.database organizationId with agents := agents })
  | .triage organizationId identity triage =>
      (true, worker.set organizationId ((worker.database organizationId).triage identity triage))

end WorkerState

/-- A triage changes nothing of the sightings. -/
theorem Finding.same_sightings_of_triaged {finding triaged : Finding} {triage : Triage}
    (h : finding.triaged triage = some triaged) : triaged.SameSightings finding := by
  cases triage with
  | transition target actorId now note acceptedFor =>
      have hcases := finding.transition_cases target actorId now note acceptedFor
      unfold Finding.triaged at h
      dsimp only at h hcases
      split at h
      · next moved hmoved =>
          cases h
          rw [hmoved] at hcases
          obtain ⟨-, rfl⟩ | ⟨-, -, hresult⟩ | ⟨-, -, hresult⟩ | ⟨-, -, hresult⟩ := hcases
          · exact ⟨rfl, rfl, rfl, rfl, rfl, rfl⟩
          · cases hresult
            exact ⟨rfl, rfl, rfl, rfl, rfl, rfl⟩
          · cases hresult
            exact ⟨rfl, rfl, rfl, rfl, rfl, rfl⟩
          · cases hresult
      · cases h
  | expireAcceptance now =>
      cases h
      unfold Finding.expireAcceptance
      split <;> exact ⟨rfl, rfl, rfl, rfl, rfl, rfl⟩

/-- What a triage does to the rows: nothing, or it changes the row of a finding, of which the
sightings stay as they are. -/
theorem Tenant.triage_cases (tenant : Tenant) (identity : PyStr) (triage : Triage) :
    tenant.triage identity triage = tenant ∨
      ∃ old row : FindingRow, tenant.rowOf identity = some old ∧
        tenant.triage identity triage = tenant.put row ∧ row.val.SameSightings old.val := by
  unfold Tenant.triage getByIdentity
  cases hrow : tenant.rowOf identity with
  | none => exact .inl rfl
  | some old =>
      rw [Option.map_some, Option.bind_some]
      cases htriaged : Finding.triaged { old.val with title := old.val.title.reload } triage with
      | none => exact .inl rfl
      | some finding =>
          rw [Option.bind_some]
          have hsame := Finding.same_sightings_of_triaged htriaged
          have hidentity : finding.identityHash = identity :=
            hsame.identityHash.trans (identity_of_row_of hrow)
          cases hupsert : tenant.upsert finding with
          | error exception => exact .inl rfl
          | ok after =>
              obtain ⟨row, rfl, hheld⟩ := held_of_upsert hupsert fun row hstored ↦ by
                rw [hidentity, hrow] at hstored
                cases hstored
                exact hsame.id.symm
              exact .inr ⟨old, row, rfl, rfl, hheld.toSameSightings.trans
                (hsame.trans ⟨rfl, rfl, rfl, rfl, rfl, rfl⟩)⟩

/-- A triage keeps which identities have a row, and the sightings of the rows. -/
theorem Tenant.row_of_triage (tenant : Tenant) (named : PyStr) (triage : Triage)
    (identity : PyStr) :
    ((tenant.triage named triage).rowOf identity = none ∧ tenant.rowOf identity = none) ∨
      ∃ row old : FindingRow, (tenant.triage named triage).rowOf identity = some row ∧
        tenant.rowOf identity = some old ∧ row.val.SameSightings old.val := by
  have hkept : (tenant.rowOf identity = none ∧ tenant.rowOf identity = none) ∨
      ∃ row old : FindingRow, tenant.rowOf identity = some row ∧
        tenant.rowOf identity = some old ∧ row.val.SameSightings old.val := by
    cases hrow : tenant.rowOf identity with
    | none => exact .inl ⟨rfl, rfl⟩
    | some row => exact .inr ⟨row, row, rfl, rfl, rfl, rfl, rfl, rfl, rfl, rfl⟩
  rcases tenant.triage_cases named triage with hsame | ⟨old, row, hold, hput, hrow⟩
  · rw [hsame]
    exact hkept
  · have hnamed : row.val.identityHash = named :=
      hrow.identityHash.trans (identity_of_row_of hold)
    rw [hput, row_of_put, hnamed]
    split
    · next hidentity =>
        rw [hidentity]
        exact .inr ⟨row, old, rfl, hold, hrow⟩
    · exact hkept

/-- The agents and the evidence are not triaged. -/
theorem Tenant.kept_triage (tenant : Tenant) (identity : PyStr) (triage : Triage) :
    (tenant.triage identity triage).agents = tenant.agents ∧
      (tenant.triage identity triage).occurrences = tenant.occurrences := by
  rcases tenant.triage_cases identity triage with hsame | ⟨-, row, -, hput, -⟩
  · rw [hsame]
    exact ⟨rfl, rfl⟩
  · rw [hput]
    exact ⟨rfl, rfl⟩

namespace WorkerState

variable (worker : WorkerState) (organizationId other : Uuid)

/-- What a commit leaves in the database. -/
theorem database_commit (batch : Batch) :
    (worker.commit organizationId batch).database other =
      if other = organizationId then batch.tenant else worker.database other := by
  unfold commit
  dsimp only
  split
  · next h => rw [h, Function.update_self]
  · next h => rw [Function.update_of_ne h]

/-- The rows that are set, and those of the other organizations. -/
theorem database_set (tenant : Tenant) :
    (worker.set organizationId tenant).database other =
      if other = organizationId then tenant else worker.database other := by
  unfold set
  dsimp only
  split
  · next h => rw [h, Function.update_self]
  · next h => rw [Function.update_of_ne h]

end WorkerState

/-- The draws go on, whether an event is taken or raises. -/
theorem ends_fold_record_draws (h : b.Coherent pipeline.library) :
    Prog.Ends (pipeline.foldRecord organizationId record) b
      (fun _ after ↦ after.Coherent pipeline.library ∧ b.draws ≤ after.draws)
      fun _ after ↦ b.draws ≤ after.draws := by
  refine (ends_fold_record_cases h).mono (fun _ after ⟨hafter, hcases⟩ ↦ ⟨hafter, ?_⟩)
    fun _ after hcases ↦ ?_
  · rcases hcases with ⟨-, hsame⟩ | ⟨hit, fold, -, hof, -⟩
    · exact hsame.draws
    · exact hof.draws
  · rcases hcases with hsame | ⟨hit, fold, hof⟩
    · exact hsame.draws
    · exact hof.draws

/-- No id is drawn twice before this draw. -/
def FreshIds (pipeline : ProcessRuntimeEvents) (draws : Nat) : Prop :=
  ∀ j < draws, ∀ i < j, pipeline.newId i ≠ pipeline.newId j

instance (pipeline : ProcessRuntimeEvents) (draws : Nat) :
    Decidable (FreshIds pipeline draws) :=
  inferInstanceAs (Decidable (∀ j < draws, ∀ i < j, _))

namespace WorkerState

/-- What is drawn is not drawn again, whatever happens. -/
theorem draws_le_step (pipeline : ProcessRuntimeEvents) (worker : WorkerState)
    (happening : Happening) : worker.draws ≤ (worker.step pipeline happening).2.draws := by
  cases happening with
  | batch result => exact le_rfl
  | fold group faults =>
      show worker.draws ≤ (pipeline.transaction group worker faults).state.draws
      have hloop : ∀ {outcome after rest}, pipeline.foldRecords group.1 group.2
          (worker.begin group.1) faults.tail = ⟨outcome, after, rest⟩ →
          worker.draws ≤ after.draws := by
        intro outcome after rest hfolded
        have hpreserved := fold_records_preserves
          (fun b record (hinv : b.Coherent pipeline.library ∧ worker.draws ≤ b.draws) _ ↦
            (ends_fold_record_draws hinv.1).mono
              (fun _ next hnext ↦ ⟨hnext.1, hinv.2.trans hnext.2⟩)
              fun _ next hnext ↦ (hinv.2.trans hnext : worker.draws ≤ next.draws))
          ⟨fun _ _ hnone ↦ (by cases hnone), le_rfl⟩ (each_record_true _ _ _) hfolded
        cases outcome with
        | ok a => exact (hpreserved.1 a rfl).2
        | error e => exact hpreserved.2 e rfl
      rcases transaction_cases pipeline group worker faults with
        ⟨after, rest, hfolded, -, hstate⟩ | ⟨failure, after, -, hstate, rfl | ⟨outcome, rest, hfolded⟩⟩
      · rw [hstate]
        exact hloop hfolded
      · rw [hstate]
        exact le_rfl
      · rw [hstate]
        exact hloop hfolded
  | configure organizationId agents => exact le_rfl
  | triage organizationId identity triage => exact le_rfl

/-- Nor in a run. -/
theorem draws_le_final (pipeline : ProcessRuntimeEvents) (worker : WorkerState)
    (run : List Happening) :
    worker.draws ≤ (Machine.final (step pipeline) worker run).draws := by
  induction run generalizing worker with
  | nil => exact le_rfl
  | cons happening run ih => exact (worker.draws_le_step pipeline happening).trans (ih _)

end WorkerState

end Aegis.Api
