import Aegis.Api.FindingRuns
import Aegis.Worker.Loop

/-!
# How often evidence is kept

A sample is kept when the last one is old enough, and always while a finding has been seen once and
not suppressed. Sightings of a suppressed finding are not counted for that, so the samples of a
finding are an interval apart in every run in which no finding is sighted again too soon that was
suppressed after its first sighting (`evidence_spaced`).
-/

namespace Aegis.Api

open Server

/-- Any two samples of one finding are the interval apart. -/
def Spaced (interval : Int) (occurrences : List Occurrence) : Prop :=
  occurrences.Pairwise fun earlier later ↦
    earlier.findingId = later.findingId → interval ≤ later.observedAt - earlier.observedAt

instance (interval : Int) (occurrences : List Occurrence) :
    Decidable (Spaced interval occurrences) :=
  inferInstanceAs (Decidable (List.Pairwise _ _))

/-! ## What is demanded of an event -/

/-- The row that an event is folded into, if there is one. -/
def rowFor (pipeline : ProcessRuntimeEvents) (organizationId : Uuid) (tenant : Tenant)
    (record : JsonObject) : Option FindingRow :=
  (admitted pipeline.library tenant record).bind fun hit ↦
    (pipeline.identify organizationId hit).toOption.bind fun identity ↦ tenant.rowOf identity.1

/-- A condition on the row that an event is folded into, and on the time of the event. -/
def OfRow (pipeline : ProcessRuntimeEvents) (organizationId : Uuid)
    (condition : Tenant → Finding → Instant → Prop) (b : Batch) (record : JsonObject) : Prop :=
  ∀ row ∈ rowFor pipeline organizationId b.tenant record,
    condition b.tenant row.val (pipeline.timeOf record b.draws)

instance (pipeline : ProcessRuntimeEvents) (organizationId : Uuid)
    (condition : Tenant → Finding → Instant → Prop)
    [∀ tenant finding time, Decidable (condition tenant finding time)] (b : Batch)
    (record : JsonObject) : Decidable (OfRow pipeline organizationId condition b record) :=
  inferInstanceAs (Decidable (∀ row ∈ rowFor _ _ _ _, _))

/-- The times of the sightings of a finding do not decrease. -/
def InOrder (_ : Tenant) (finding : Finding) (observedAt : Instant) : Prop :=
  ∀ last ∈ finding.lastSeenAt, last ≤ observedAt

instance (tenant : Tenant) (finding : Finding) (observedAt : Instant) :
    Decidable (InOrder tenant finding observedAt) :=
  inferInstanceAs (Decidable (∀ last ∈ finding.lastSeenAt, _))

/-- A finding that was suppressed after its first sighting is not sighted within the interval of a
sample. -/
def Spared (interval : Int) (tenant : Tenant) (finding : Finding) (observedAt : Instant) : Prop :=
  finding.status.isSuppressed = true → finding.occurrenceCount ≤ 1 →
    ∀ sample ∈ tenant.occurrences, sample.findingId = finding.id →
      interval ≤ observedAt - sample.observedAt

instance (interval : Int) (tenant : Tenant) (finding : Finding) (observedAt : Instant) :
    Decidable (Spared interval tenant finding observedAt) :=
  inferInstanceAs (Decidable (_ → _ → ∀ sample ∈ tenant.occurrences, _ → _))

/-- A condition holds of every event of a transaction that is committed. -/
def Happening.Each (condition : Tenant → Finding → Instant → Prop)
    (pipeline : ProcessRuntimeEvents) (worker : WorkerState) : Happening → Prop
  | .fold group faults =>
      (pipeline.transaction group worker faults).outcome.toBool = true →
        EachRecord pipeline group.1 (OfRow pipeline group.1 condition) group.2
          (worker.begin group.1) faults.tail
  | .batch _ | .configure .. | .triage .. => True

instance (condition : Tenant → Finding → Instant → Prop)
    [∀ tenant finding time, Decidable (condition tenant finding time)]
    (pipeline : ProcessRuntimeEvents) (worker : WorkerState) (happening : Happening) :
    Decidable (happening.Each condition pipeline worker) :=
  match happening with
  | .fold _ _ => inferInstanceAs (Decidable (_ → EachRecord _ _ _ _ _ _))
  | .batch _ | .configure .. | .triage .. => inferInstanceAs (Decidable True)

/-! ## The invariant -/

/-- The ids of the rows and of the findings of the samples are drawn, those of the rows differ, no
sample is later than the last sighting, every finding was sighted once before it was suppressed,
and the samples are spaced. -/
structure Sampled (pipeline : ProcessRuntimeEvents) (draws : Nat) (tenant : Tenant) : Prop where
  drawn : ∀ identity row, tenant.rowOf identity = some row →
    ∃ k < draws, row.val.id = pipeline.newId k
  distinct : ∀ identity identity' row row', tenant.rowOf identity = some row →
    tenant.rowOf identity' = some row' → row.val.id = row'.val.id → identity = identity'
  owned : ∀ sample ∈ tenant.occurrences, ∃ k < draws, sample.findingId = pipeline.newId k
  sighted : ∀ identity row, tenant.rowOf identity = some row → 1 ≤ row.val.occurrenceCount
  earlier : ∀ identity row, tenant.rowOf identity = some row → ∀ sample ∈ tenant.occurrences,
    sample.findingId = row.val.id → ∃ last ∈ row.val.lastSeenAt, sample.observedAt ≤ last
  spaced : Spaced pipeline.evidenceInterval tenant.occurrences

variable {pipeline : ProcessRuntimeEvents} {organizationId : Uuid} {record : JsonObject} {hit : Hit}
  {fold : Fold} {b after : Batch}

/-- More may have been drawn. -/
theorem Sampled.mono {draws draws' : Nat} {tenant : Tenant} (h : Sampled pipeline draws tenant)
    (hle : draws ≤ draws') : Sampled pipeline draws' tenant where
  drawn identity row hrow := by
    obtain ⟨k, hk, hid⟩ := h.drawn identity row hrow
    exact ⟨k, hk.trans_le hle, hid⟩
  distinct := h.distinct
  owned sample hsample := by
    obtain ⟨k, hk, hid⟩ := h.owned sample hsample
    exact ⟨k, hk.trans_le hle, hid⟩
  sighted := h.sighted
  earlier := h.earlier
  spaced := h.spaced

/-- A sighting is the last one. -/
theorem Finding.last_seen_see (finding : Finding) (context : AgentContext) (route : PyStr)
    (observedAt : Instant) :
    (finding.see context route observedAt).1.lastSeenAt = some observedAt := by
  rw [see, counts_record_occurrence, count_attack_eq]
  rfl

/-- How often what is seen has been seen and not suppressed. -/
theorem Fold.Continues.seen_count {stored : Option FindingRow}
    (h : fold.Continues pipeline hit organizationId stored) :
    (∀ row, stored = some row → (fold.seen pipeline hit).occurrenceCount =
        if row.val.status.isSuppressed then row.val.occurrenceCount
        else row.val.occurrenceCount + 1) ∧
      (stored = none → (fold.seen pipeline hit).occurrenceCount = 1) := by
  have hcount := fold.finding.occurrence_count_see hit.context
    (routeTemplate pipeline.library hit.payload) fold.observedAt
  unfold Continues at h
  cases stored with
  | none =>
      obtain ⟨title, hfresh⟩ := h
      refine ⟨fun row hrow ↦ (by cases hrow), fun _ ↦ hcount.trans ?_⟩
      rw [hfresh]
      rfl
  | some row =>
      refine ⟨fun row' hrow ↦ hcount.trans ?_, fun hnone ↦ (by cases hnone)⟩
      cases hrow
      rw [h, Finding.raise_confidence_eq]

/-- Every sample is at most as late as the latest. -/
theorem Tenant.le_latest {tenant : Tenant} {sample : Occurrence}
    (h : sample ∈ tenant.occurrences) :
    ∃ latest ∈ tenant.latestOccurrenceAt sample.findingId, sample.observedAt ≤ latest := by
  have hmem : sample.observedAt ∈ (tenant.occurrences.filter fun occurrence ↦
      occurrence.findingId = sample.findingId).map Occurrence.observedAt :=
    List.mem_map_of_mem (List.mem_filter.mpr ⟨h, decide_eq_true rfl⟩)
  unfold latestOccurrenceAt
  cases hlatest : List.max? ((tenant.occurrences.filter fun occurrence ↦
      occurrence.findingId = sample.findingId).map Occurrence.observedAt) with
  | none =>
      rw [List.max?_eq_none_iff.mp hlatest] at hmem
      cases hmem
  | some latest => exact ⟨latest, rfl, (List.max?_eq_some_iff.mp hlatest).2 _ hmem⟩

/-- What a fold adds to the samples. -/
theorem Fold.Samples.mem {sample : Occurrence} (h : fold.Samples pipeline hit b after)
    (hmem : sample ∈ after.tenant.occurrences) :
    sample ∈ b.tenant.occurrences ∨
      (sample.findingId = (fold.seen pipeline hit).id ∧ sample.observedAt = fold.observedAt) := by
  rcases h with ⟨-, occurrence, hid, htime, hoccurrences⟩ | ⟨-, hoccurrences⟩
  · rw [hoccurrences, List.mem_append, List.mem_singleton] at hmem
    rcases hmem with hold | rfl
    · exact .inl hold
    · exact .inr ⟨hid, htime⟩
  · exact .inl (hoccurrences ▸ hmem)

/-- The row a hit is folded into. -/
theorem Fold.Of.row_for {row : FindingRow}
    (h : fold.Of pipeline hit organizationId record b after)
    (hadmitted : admitted pipeline.library b.tenant record = some hit)
    (hrow : b.tenant.rowOf fold.identity = some row) :
    rowFor pipeline organizationId b.tenant record = some row := by
  rw [rowFor, hadmitted, Option.bind_some, h.identity]
  exact hrow

/-- Folding a hit that meets the conditions keeps the invariant. -/
theorem Sampled.after_fold {n : Nat} (h : Sampled pipeline b.draws b.tenant)
    (hids : FreshIds pipeline n) (hn : after.draws ≤ n)
    (hof : fold.Of pipeline hit organizationId record b after)
    (hsamples : fold.Samples pipeline hit b after)
    (hadmitted : admitted pipeline.library b.tenant record = some hit)
    (horder : OfRow pipeline organizationId InOrder b record)
    (hspared : OfRow pipeline organizationId (Spared pipeline.evidenceInterval) b record) :
    Sampled pipeline after.draws after.tenant := by
  obtain ⟨row, hheld, hrows⟩ := hof.rows
  obtain ⟨hstoredId, hnewId⟩ := hof.continues.seen_id
  obtain ⟨hstoredCount, hnewCount⟩ := hof.continues.seen_count
  have hlast : row.val.lastSeenAt = some fold.observedAt :=
    hheld.lastSeenAt.trans (Finding.last_seen_see _ _ _ _)
  -- a new finding has an id that nothing had before
  have hfresh : ∀ k < b.draws, b.tenant.rowOf fold.identity = none →
      pipeline.newId k ≠ (fold.seen pipeline hit).id := by
    intro k hk hnone
    obtain ⟨hle, hlt⟩ := hof.drawn hnone
    rw [hnewId hnone]
    exact hids fold.draw (hlt.trans_le hn) k (hk.trans_le hle)
  have hstored : ∀ sample ∈ b.tenant.occurrences,
      sample.findingId = (fold.seen pipeline hit).id →
        ∃ old, b.tenant.rowOf fold.identity = some old ∧ old.val.id = sample.findingId := by
    intro sample hsample hid
    cases hold : b.tenant.rowOf fold.identity with
    | none =>
        obtain ⟨k, hk, hdrawn⟩ := h.owned sample hsample
        exact absurd (hdrawn.symm.trans hid) (hfresh k hk hold)
    | some old => exact ⟨old, rfl, (hstoredId old hold).symm.trans hid.symm⟩
  have hsole : ∀ identity other, b.tenant.rowOf identity = some other →
      other.val.id = (fold.seen pipeline hit).id → identity = fold.identity := by
    intro identity other hother hid
    cases hold : b.tenant.rowOf fold.identity with
    | none =>
        obtain ⟨k, hk, hdrawn⟩ := h.drawn identity other hother
        exact absurd (hdrawn.symm.trans hid) (hfresh k hk hold)
    | some old =>
        exact h.distinct identity fold.identity other old hother hold
          (hid.trans (hstoredId old hold))
  have hdrawn : ∃ k < after.draws, (fold.seen pipeline hit).id = pipeline.newId k := by
    cases hold : b.tenant.rowOf fold.identity with
    | none => exact ⟨fold.draw, (hof.drawn hold).2, hnewId hold⟩
    | some old =>
        obtain ⟨k, hk, hid⟩ := h.drawn _ old hold
        exact ⟨k, hk.trans_le hof.draws, (hstoredId old hold).trans hid⟩
  refine ⟨fun identity other hother ↦ ?_, fun identity identity' other other' hother hother' hid ↦ ?_,
    fun sample hsample ↦ ?_, fun identity other hother ↦ ?_,
    fun identity other hother sample hsample hid ↦ ?_, ?_⟩
  · rw [hrows] at hother
    split at hother
    · cases hother
      obtain ⟨k, hk, hid⟩ := hdrawn
      exact ⟨k, hk, hheld.id.trans hid⟩
    · obtain ⟨k, hk, hid⟩ := h.drawn identity other hother
      exact ⟨k, hk.trans_le hof.draws, hid⟩
  · rw [hrows] at hother hother'
    split at hother <;> split at hother'
    · next hidentity hidentity' => exact hidentity.trans hidentity'.symm
    · next hidentity _ =>
        cases hother
        exact hidentity.trans (hsole identity' other' hother' (hid.symm.trans hheld.id)).symm
    · next _ hidentity' =>
        cases hother'
        exact (hsole identity other hother (hid.trans hheld.id)).trans hidentity'.symm
    · exact h.distinct identity identity' other other' hother hother' hid
  · rcases hsamples.mem hsample with hold | ⟨hid, -⟩
    · obtain ⟨k, hk, hid⟩ := h.owned sample hold
      exact ⟨k, hk.trans_le hof.draws, hid⟩
    · obtain ⟨k, hk, hseen⟩ := hdrawn
      exact ⟨k, hk, hid.trans hseen⟩
  · rw [hrows] at hother
    split at hother
    · cases hother
      rw [hheld.occurrenceCount]
      cases hold : b.tenant.rowOf fold.identity with
      | none => exact (hnewCount hold).ge
      | some old =>
          have hsighted := h.sighted _ old hold
          rw [hstoredCount old hold]
          split <;> omega
    · exact h.sighted identity other hother
  · rw [hrows] at hother
    split at hother
    · cases hother
      refine ⟨fold.observedAt, hlast, ?_⟩
      rcases hsamples.mem hsample with hold | ⟨-, htime⟩
      · obtain ⟨old, hrow, hold'⟩ := hstored sample hold (hid.trans hheld.id)
        obtain ⟨last, hlast', hle⟩ := h.earlier _ old hrow sample hold hold'.symm
        rw [hof.observedAt]
        exact hle.trans (horder old (hof.row_for hadmitted hrow) last hlast')
      · exact htime.le
    · next hne =>
        rcases hsamples.mem hsample with hold | ⟨hid', -⟩
        · exact h.earlier identity other hother sample hold hid
        · exact absurd (hsole identity other hother (hid.symm.trans hid')) hne
  · rcases hsamples with ⟨hdue, occurrence, hid, htime, hoccurrences⟩ | ⟨-, hoccurrences⟩
    · rw [hoccurrences]
      refine List.pairwise_append.mpr ⟨h.spaced, List.pairwise_singleton _ _, ?_⟩
      intro sample hsample new hnew hsame
      obtain rfl := List.mem_singleton.mp hnew
      have hsampleId := hsame.trans hid
      obtain ⟨old, hrow, hold⟩ := hstored sample hsample hsampleId
      rw [htime]
      rcases hdue with hfirst | hlate
      · rw [hstoredCount old hrow] at hfirst
        have hsighted := h.sighted _ old hrow
        rw [hof.observedAt]
        refine hspared old (hof.row_for hadmitted hrow) ?_ ?_ sample hsample hold.symm
        · by_contra hopen
          rw [if_neg hopen] at hfirst
          omega
        · split at hfirst <;> omega
      · obtain ⟨latest, hlatest, hle⟩ := Tenant.le_latest hsample
        rw [hsampleId, Option.mem_def] at hlatest
        rw [hlatest, Option.all_some, decide_eq_true_iff] at hlate
        exact le_trans hlate (Int.sub_le_sub_left hle _)
    · rw [hoccurrences]
      exact h.spaced

/-- So does a triage. -/
theorem Sampled.after_triage {draws : Nat} {tenant : Tenant} (h : Sampled pipeline draws tenant)
    (named : PyStr) (triage : Triage) : Sampled pipeline draws (tenant.triage named triage) := by
  have hrows : ∀ identity row, (tenant.triage named triage).rowOf identity = some row →
      ∃ old, tenant.rowOf identity = some old ∧ row.val.SameSightings old.val := by
    intro identity row hrow
    rcases tenant.row_of_triage named triage identity with ⟨hnone, -⟩ | ⟨row', old, hrow', hold, hsame⟩
    · rw [hnone] at hrow
      cases hrow
    · rw [hrow'] at hrow
      cases hrow
      exact ⟨old, hold, hsame⟩
  obtain ⟨-, hoccurrences⟩ := tenant.kept_triage named triage
  refine ⟨fun identity row hrow ↦ ?_, fun identity identity' row row' hrow hrow' hid ↦ ?_, ?_,
    fun identity row hrow ↦ ?_, fun identity row hrow sample hsample hid ↦ ?_, ?_⟩
  · obtain ⟨old, hold, hsame⟩ := hrows identity row hrow
    rw [hsame.id]
    exact h.drawn identity old hold
  · obtain ⟨old, hold, hsame⟩ := hrows identity row hrow
    obtain ⟨old', hold', hsame'⟩ := hrows identity' row' hrow'
    rw [hsame.id, hsame'.id] at hid
    exact h.distinct identity identity' old old' hold hold' hid
  · rw [hoccurrences]
    exact h.owned
  · obtain ⟨old, hold, hsame⟩ := hrows identity row hrow
    rw [hsame.occurrenceCount]
    exact h.sighted identity old hold
  · obtain ⟨old, hold, hsame⟩ := hrows identity row hrow
    rw [hoccurrences] at hsample
    rw [hsame.lastSeenAt]
    exact h.earlier identity old hold sample hsample (hid.trans hsame.id)
  · rw [hoccurrences]
    exact h.spaced

/-! ## Runs -/

/-- An event that meets the conditions keeps the invariant, as far as no id is drawn twice. -/
theorem ends_fold_record_sampled {n : Nat} (hids : FreshIds pipeline n)
    (hcoherent : b.Coherent pipeline.library)
    (h : b.draws ≤ n → Sampled pipeline b.draws b.tenant)
    (horder : OfRow pipeline organizationId InOrder b record)
    (hspared : OfRow pipeline organizationId (Spared pipeline.evidenceInterval) b record) :
    Prog.Ends (pipeline.foldRecord organizationId record) b
      (fun _ after ↦ after.Coherent pipeline.library ∧
        (after.draws ≤ n → Sampled pipeline after.draws after.tenant))
      fun _ _ ↦ True := by
  refine (ends_fold_record_cases hcoherent).mono (fun _ after ⟨hafter, hcases⟩ ↦ ?_)
    fun _ _ _ ↦ trivial
  rcases hcases with ⟨-, hsame⟩ | ⟨hit, fold, hadmitted, hof, hsamples⟩
  · refine ⟨hafter, fun hn ↦ ?_⟩
    rw [hsame.tenant]
    exact (h (hsame.draws.trans hn)).mono hsame.draws
  · exact ⟨hafter, fun hn ↦ (h (hof.draws.trans hn)).after_fold hids hn hof hsamples hadmitted
      horder hspared⟩

/-- Whatever happens in its way keeps the invariant of every organization. -/
theorem sampled_step {worker : WorkerState} {happening : Happening}
    (hids : FreshIds pipeline (worker.step pipeline happening).2.draws)
    (hordered : happening.Each InOrder pipeline worker)
    (hspared : happening.Each (Spared pipeline.evidenceInterval) pipeline worker)
    (h : ∀ id, Sampled pipeline worker.draws (worker.database id)) (id : Uuid) :
    Sampled pipeline (worker.step pipeline happening).2.draws
      ((worker.step pipeline happening).2.database id) := by
  have hdraws := worker.draws_le_step pipeline happening
  cases happening with
  | batch result => exact h id
  | fold group faults =>
      show Sampled pipeline (pipeline.transaction group worker faults).state.draws
        ((pipeline.transaction group worker faults).state.database id)
      change FreshIds pipeline (pipeline.transaction group worker faults).state.draws at hids
      change worker.draws ≤ (pipeline.transaction group worker faults).state.draws at hdraws
      rcases transaction_cases pipeline group worker faults with
        ⟨after, rest, hfolded, hok, hstate⟩ | ⟨failure, after, herror, hstate, -⟩
      · rw [hstate] at hids hdraws ⊢
        rw [worker.database_commit]
        split
        · have hstart : (worker.begin group.1).Coherent pipeline.library ∧
              ((worker.begin group.1).draws ≤ after.draws →
                Sampled pipeline (worker.begin group.1).draws (worker.begin group.1).tenant) :=
            ⟨fun _ _ hnone ↦ (by cases hnone), fun _ ↦ h group.1⟩
          have hloop := fold_records_preserves
            (fun b record (hinv : b.Coherent pipeline.library ∧
                (b.draws ≤ after.draws → Sampled pipeline b.draws b.tenant)) hconditions ↦
              ends_fold_record_sampled hids hinv.1 hinv.2 hconditions.1 hconditions.2)
            hstart ((hordered (by rw [hok]; rfl)).and (hspared (by rw [hok]; rfl))) hfolded
          exact (hloop.1 _ rfl).2 le_rfl
        · exact (h id).mono hdraws
      · rw [hstate] at hdraws ⊢
        exact (h id).mono hdraws
  | configure other agents =>
      show Sampled pipeline worker.draws ((worker.set other _).database id)
      rw [worker.database_set]
      split
      · exact ⟨(h other).drawn, (h other).distinct, (h other).owned, (h other).sighted,
          (h other).earlier, (h other).spaced⟩
      · exact h id
  | triage other named triage =>
      show Sampled pipeline worker.draws ((worker.set other _).database id)
      rw [worker.database_set]
      split
      · exact (h other).after_triage named triage
      · exact h id

/-- From an empty database, in every run in which no id is drawn twice, the times of the sightings of
a finding do not decrease, and no finding that was suppressed after its first sighting is sighted
within the interval of a sample, any two samples of a finding are the interval apart. -/
theorem evidence_spaced (pipeline : ProcessRuntimeEvents) {worker : WorkerState}
    (hempty : ∀ id, (worker.database id).findings = [] ∧ (worker.database id).occurrences = [])
    (run : List Happening)
    (hids : FreshIds pipeline (Machine.final (WorkerState.step pipeline) worker run).draws)
    (hordered : Machine.Meets (WorkerState.step pipeline)
      (fun worker happening ↦ happening.Each InOrder pipeline worker) worker run)
    (hspared : Machine.Meets (WorkerState.step pipeline) (fun worker happening ↦
      happening.Each (Spared pipeline.evidenceInterval) pipeline worker) worker run)
    (id : Uuid) :
    Spaced pipeline.evidenceInterval
      ((Machine.final (WorkerState.step pipeline) worker run).database id).occurrences := by
  have hstart : ∀ id, Sampled pipeline worker.draws (worker.database id) := by
    intro id
    obtain ⟨hfindings, hoccurrences⟩ := hempty id
    have hrow : ∀ identity, (worker.database id).rowOf identity = none := by
      intro identity
      rw [Tenant.rowOf, hfindings]
      rfl
    refine ⟨fun identity row h ↦ ?_, fun identity _ row _ h ↦ ?_, ?_, fun identity row h ↦ ?_,
      fun identity row h ↦ ?_, ?_⟩
    · rw [hrow] at h
      cases h
    · rw [hrow] at h
      cases h
    · rw [hoccurrences]
      exact fun _ hmem ↦ nomatch hmem
    · rw [hrow] at h
      cases h
    · rw [hrow] at h
      cases h
    · rw [hoccurrences]
      exact .nil
  have hrun : ∀ (worker : WorkerState) (run : List Happening),
      FreshIds pipeline (Machine.final (WorkerState.step pipeline) worker run).draws →
        Machine.Meets (WorkerState.step pipeline)
          (fun worker happening ↦ happening.Each InOrder pipeline worker) worker run →
        Machine.Meets (WorkerState.step pipeline) (fun worker happening ↦
          happening.Each (Spared pipeline.evidenceInterval) pipeline worker) worker run →
        (∀ id, Sampled pipeline worker.draws (worker.database id)) →
          ∀ id, Sampled pipeline (Machine.final (WorkerState.step pipeline) worker run).draws
            ((Machine.final (WorkerState.step pipeline) worker run).database id) := by
    intro worker run hids hordered hspared h
    induction run generalizing worker with
    | nil => exact h
    | cons happening run ih =>
        refine ih _ hids hordered.2 hspared.2 fun id ↦
          sampled_step (fun j hj ↦ hids j ?_) hordered.1 hspared.1 h id
        exact hj.trans_le (WorkerState.draws_le_final pipeline _ run)
  exact (hrun worker run hids hordered hspared hstart id).spaced

/-- The example with an hour between its hits, the second of which is of a suppressed finding. -/
def suppressedRun (millis : Int) : List Happening :=
  [.fold (1, [Worker.hitAt 1000]) [],
    .triage 1 (PyStr.hex 64 0) (.transition .FALSE_POSITIVE 7 0 (py "test data") none),
    .fold (1, [Worker.hitAt millis]) []]

/-- A suppressed finding that is sighted again after the interval. -/
theorem evidence_spaced_suppressed :
    Spaced Worker.examplePipeline.evidenceInterval
      ((Machine.final (WorkerState.step Worker.examplePipeline) Worker.exampleWorker
        (suppressedRun 3601000)).database 1).occurrences :=
  evidence_spaced Worker.examplePipeline (fun _ ↦ ⟨rfl, rfl⟩) (suppressedRun 3601000)
    (by decide +kernel) (by decide +kernel) (by decide +kernel) 1

/-- One that is sighted again a second later is sampled again. -/
theorem evidence_crowded :
    Machine.Meets (WorkerState.step Worker.examplePipeline)
        (fun worker happening ↦ happening.Each InOrder Worker.examplePipeline worker)
        Worker.exampleWorker (suppressedRun 2000) ∧
    FreshIds Worker.examplePipeline (Machine.final (WorkerState.step Worker.examplePipeline)
        Worker.exampleWorker (suppressedRun 2000)).draws ∧
      ¬ Spaced Worker.examplePipeline.evidenceInterval
        ((Machine.final (WorkerState.step Worker.examplePipeline) Worker.exampleWorker
          (suppressedRun 2000)).database 1).occurrences := by
  decide +kernel

end Aegis.Api
