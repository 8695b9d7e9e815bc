import Aegis.Api.Folding

/-!
# What folding an event counts

Whatever the database does, an event that is folded adds one sighting to the finding of its
identity and nothing to any other, an event that is not folded adds none, and the result accounts
for it once.
-/

namespace Aegis.Api

open Server

/-! ## Steps -/

section Steps

variable {α : Type} {b : Batch} {returns : α → Batch → Prop} {raises : Failure → Batch → Prop}

theorem ends_compute {x : Except PyException α} (h : ∀ a, x = .ok a → returns a b)
    (hraises : ∀ e, raises (.raised e) b) : Prog.Ends (Step.compute x) b returns raises := by
  refine Prog.ends_lift (fun a heq ↦ h a (Checked.map_error_eq_ok.mp heq)) fun e heq ↦ ?_
  cases x with
  | error exception =>
      cases heq
      exact hraises exception
  | ok a => cases heq

theorem ends_query {read : Tenant → α} (h : returns (read b.tenant) b)
    (hraises : ∀ e, raises (.raised e) b) : Prog.Ends (Step.query read) b returns raises :=
  Prog.ends_bind (Prog.ends_attempt (Prog.ends_read h) (hraises _))

theorem ends_write {change : Tenant → Except PyException Tenant} {returns : PUnit → Batch → Prop}
    (h : ∀ tenant, change b.tenant = .ok tenant → returns .unit { b with tenant := tenant })
    (hraises : ∀ e, raises (.raised e) b) : Prog.Ends (Step.write change) b returns raises :=
  Prog.ends_bind (ends_query (Prog.ends_bind
    (ends_compute (fun tenant heq ↦ Prog.ends_modify (h tenant heq)) hraises)) hraises)

end Steps

/-! ## Folding a hit -/

namespace ProcessingResult

/-- An event that became part of a finding is accounted for. -/
theorem accounted_fold (result : ProcessingResult) (created : Bool) :
    (result.fold created).accounted = result.accounted + 1 := by
  unfold accounted processed fold
  split <;> dsimp only <;> omega

/-- So is one that was ignored. -/
theorem accounted_ignore (result : ProcessingResult) :
    result.ignore.accounted = result.accounted + 1 := by
  unfold accounted processed ignore
  dsimp only
  omega

/-- And one that was rejected. -/
theorem accounted_reject (result : ProcessingResult) (rejection : PyStr) :
    (result.reject rejection).accounted = result.accounted + 1 :=
  rfl

end ProcessingResult

/-- A failure that is not a rejection. -/
def Failure.Raised (failure : Failure) : Prop :=
  ∃ exception, failure = .raised exception

/-- The two states have the same rows of agents and findings, remember the same, and account for
as many events. -/
structure Batch.Alike (before after : Batch) : Prop where
  contexts : after.contexts = before.contexts
  agents : after.tenant.agents = before.tenant.agents
  findings : after.tenant.findings = before.tenant.findings
  accounted : after.result.accounted = before.result.accounted

/-- How often a defect was seen is in the rows of findings. -/
theorem Batch.Alike.sightings {before after : Batch} (h : before.Alike after) (identity : PyStr) :
    after.tenant.sightings identity = before.tenant.sightings identity := by
  unfold Tenant.sightings Tenant.rowOf
  rw [h.findings]

/-- One event was folded into the finding of this identity. -/
structure Batch.Folded (identity : PyStr) (before after : Batch) : Prop where
  contexts : after.contexts = before.contexts
  agents : after.tenant.agents = before.tenant.agents
  accounted : after.result.accounted = before.result.accounted + 1
  sightings : ∀ other, after.tenant.sightings other =
    before.tenant.sightings other + if other = identity then 1 else 0

/-- What is alike to a state an event was folded in is one, too. -/
theorem Batch.Folded.alike {identity : PyStr} {before middle after : Batch}
    (h : Batch.Folded identity before middle) (halike : middle.Alike after) :
    Batch.Folded identity before after where
  contexts := halike.contexts.trans h.contexts
  agents := halike.agents.trans h.agents
  accounted := halike.accounted.trans h.accounted
  sightings other := (halike.sightings other).trans (h.sightings other)

variable {pipeline : ProcessRuntimeEvents} {organizationId : Uuid} {record : JsonObject} {hit : Hit}
  {b : Batch}

/-- Reading the time of an event changes no rows. -/
theorem ends_observed_at :
    Prog.Ends (pipeline.observedAt record) b (fun _ after ↦ b.Alike after)
      fun failure _ ↦ failure.Raised := by
  unfold ProcessRuntimeEvents.observedAt
  refine Prog.ends_bind (ends_compute (fun millis _ ↦ ?_) fun e ↦ ⟨e, rfl⟩)
  split
  · exact Prog.ends_bind (Prog.ends_read (Prog.ends_bind (Prog.ends_modify
      (Prog.ends_pure ⟨rfl, rfl, rfl, rfl⟩))))
  · exact ends_compute (fun _ _ ↦ ⟨rfl, rfl, rfl, rfl⟩) fun e ↦ ⟨e, rfl⟩

/-- A new finding has the identity it is made for, and has not been seen. -/
theorem new_finding_eq_ok {identity stackHash : PyStr} {id : Uuid} {finding : Finding}
    (h : pipeline.newFinding organizationId hit identity stackHash id = .ok finding) :
    finding.identityHash = identity ∧ finding.sightings = 0 := by
  obtain ⟨title, -, hfresh⟩ := Checked.bind_eq_ok.mp h
  split at hfresh
  · cases hfresh
  · cases hfresh
    exact ⟨rfl, rfl⟩

/-- The finding that is found has the identity it was looked for with. -/
theorem identity_of_get_by_identity {tenant : Tenant} {identity : PyStr} {finding : Finding}
    (h : tenant.getByIdentity identity = some finding) : finding.identityHash = identity := by
  obtain ⟨row, hrow, rfl⟩ := Option.map_eq_some_iff.mp h
  exact Tenant.identity_of_row_of hrow

/-- The finding a hit is folded into has its identity, and the sightings of its row. -/
theorem ends_find_or_create (identity stackHash : PyStr) :
    Prog.Ends (pipeline.findOrCreate organizationId hit identity stackHash
        (b.tenant.getByIdentity identity)) b
      (fun finding after ↦ b.Alike after ∧ finding.identityHash = identity ∧
        finding.sightings = b.tenant.sightings identity)
      fun failure _ ↦ failure.Raised := by
  rw [Tenant.sightings_get_by_identity]
  cases hexisting : b.tenant.getByIdentity identity with
  | none =>
      unfold ProcessRuntimeEvents.findOrCreate ProcessRuntimeEvents.drawId
      refine Prog.ends_bind (Prog.ends_bind (Prog.ends_read (Prog.ends_bind (Prog.ends_modify
        (Prog.ends_pure (ends_compute (fun finding hnew ↦ ?_) fun e ↦ ⟨e, rfl⟩))))))
      exact ⟨⟨rfl, rfl, rfl, rfl⟩, new_finding_eq_ok hnew⟩
  | some finding =>
      refine Prog.ends_pure ⟨⟨rfl, rfl, rfl, rfl⟩, ?_⟩
      rw [Finding.raise_confidence_eq]
      have hidentity := identity_of_get_by_identity hexisting
      exact ⟨hidentity, rfl⟩

/-- Evidence is no row of a finding. -/
theorem ends_keep_evidence (finding : Finding) (observedAt : Instant) :
    Prog.Ends (pipeline.keepEvidence organizationId record hit finding observedAt) b
      (fun _ after ↦ b.Alike after) fun failure _ ↦ failure.Raised := by
  have hshould : Prog.Ends (pipeline.shouldKeepEvidence finding observedAt) b
      (fun _ after ↦ after = b) fun failure _ ↦ failure.Raised := by
    unfold ProcessRuntimeEvents.shouldKeepEvidence
    split
    · exact Prog.ends_pure rfl
    · exact Prog.ends_bind (ends_query (Prog.ends_pure rfl) fun e ↦ ⟨e, rfl⟩)
  unfold ProcessRuntimeEvents.keepEvidence ProcessRuntimeEvents.drawId
  refine Prog.ends_bind (hshould.mono (fun keeps after heq ↦ ?_) fun _ _ h ↦ h)
  subst heq
  cases keeps with
  | false => exact Prog.ends_pure ⟨rfl, rfl, rfl, rfl⟩
  | true =>
      refine Prog.ends_bind (Prog.ends_bind (Prog.ends_read (Prog.ends_bind (Prog.ends_modify
        (Prog.ends_pure ?_)))))
      refine Prog.ends_bind (ends_compute (fun occurrence _ ↦ ?_) fun e ↦ ⟨e, rfl⟩)
      refine Prog.ends_bind (ends_write (fun tenant htenant ↦ ?_) fun e ↦ ⟨e, rfl⟩)
      unfold Tenant.addOccurrence at htenant
      split at htenant
      · cases htenant
        exact Prog.ends_modify ⟨rfl, rfl, rfl, rfl⟩
      · cases htenant

/-- A hit that is folded adds one sighting to the finding of its identity. It is never rejected. -/
theorem ends_fold_hit :
    Prog.Ends (pipeline.foldHit organizationId record hit) b
      (fun _ after ↦ ∃ identity stackHash,
        pipeline.identify organizationId hit = .ok (identity, stackHash) ∧
          b.Folded identity after)
      fun failure _ ↦ failure.Raised := by
  unfold ProcessRuntimeEvents.foldHit
  refine Prog.ends_bind (ends_compute (fun ⟨identity, stackHash⟩ hidentity ↦ ?_) fun e ↦ ⟨e, rfl⟩)
  refine Prog.ends_bind (ends_observed_at.mono (fun observedAt timed htimed ↦ ?_) fun _ _ h ↦ h)
  refine Prog.ends_bind (ends_query ?_ fun e ↦ ⟨e, rfl⟩)
  refine Prog.ends_bind ((ends_find_or_create identity stackHash).mono
    (fun finding found ⟨hfound, hhash, hcount⟩ ↦ ?_) fun _ _ h ↦ h)
  have hsame := finding.same_defect_see hit.context (routeTemplate pipeline.library hit.payload)
    observedAt
  have hsightings := finding.sightings_see hit.context (routeTemplate pipeline.library hit.payload)
    observedAt
  rcases hsee : finding.see hit.context (routeTemplate pipeline.library hit.payload) observedAt
    with ⟨seen, regressed⟩
  rw [hsee] at hsame hsightings
  refine Prog.ends_bind (Prog.ends_modify (Prog.ends_bind (ends_write (fun tenant hupsert ↦ ?_)
    fun e ↦ ⟨e, rfl⟩)))
  refine Prog.ends_bind (Prog.ends_modify (Prog.ends_bind (Prog.ends_modify ?_)))
  refine (ends_keep_evidence seen observedAt).mono (fun _ after hafter ↦ ?_) fun _ _ h ↦ h
  refine ⟨identity, stackHash, hidentity, Batch.Folded.alike ⟨?_, ?_, ?_, fun other ↦ ?_⟩ hafter⟩
  · exact hfound.contexts.trans htimed.contexts
  · obtain ⟨row, rfl, -⟩ := Tenant.exists_put_of_upsert hupsert
    exact hfound.agents.trans htimed.agents
  · have haccounted := hfound.accounted.trans htimed.accounted
    refine (ProcessingResult.accounted_fold _ _).trans (congrArg (· + 1) ?_)
    cases regressed <;> exact haccounted
  · have hrows := (hfound.sightings other).trans (htimed.sightings other)
    rw [Tenant.sightings_upsert hupsert other, hsame.identityHash, hhash, hsightings, hcount,
      htimed.sightings identity]
    by_cases hother : other = identity
    · rw [if_pos hother, if_pos hother, hother]
    · rw [if_neg hother, if_neg hother]
      exact hrows

/-! ## Folding an event -/

/-- The identity of the finding an event becomes part of, if it does. -/
def foldedIdentity (pipeline : ProcessRuntimeEvents) (organizationId : Uuid) (tenant : Tenant)
    (record : JsonObject) : Option PyStr :=
  (admitted pipeline.library tenant record).bind fun hit ↦
    (pipeline.identify organizationId hit).toOption.map Prod.fst

/-- The agents of an organization decide which of its events become part of a finding. -/
theorem admitted_congr {lib : Library} {tenant tenant' : Tenant}
    (h : tenant'.agents = tenant.agents) (record : JsonObject) :
    admitted lib tenant' record = admitted lib tenant record := by
  unfold admitted contextFor Tenant.resolveAgentContext
  rw [h]

/-- One event was folded, ignored or rejected. -/
structure Batch.Took (pipeline : ProcessRuntimeEvents) (organizationId : Uuid)
    (record : JsonObject) (before after : Batch) : Prop where
  coherent : after.Coherent pipeline.library
  agents : after.tenant.agents = before.tenant.agents
  accounted : after.result.accounted = before.result.accounted + 1
  sightings : ∀ identity, after.tenant.sightings identity = before.tenant.sightings identity +
    if foldedIdentity pipeline organizationId before.tenant record = some identity then 1 else 0

/-- What a transaction remembers stays true while the agents stay. -/
theorem Batch.Coherent.congr {lib : Library} {before after : Batch} (h : before.Coherent lib)
    (hcontexts : after.contexts = before.contexts)
    (hagents : after.tenant.agents = before.tenant.agents) : after.Coherent lib := by
  intro agentId context hlookup
  rw [hcontexts] at hlookup
  rw [h agentId context hlookup]
  unfold contextFor Tenant.resolveAgentContext
  rw [hagents]

/-- Every event that does not fail the transaction is taken. -/
theorem ends_fold_record (h : b.Coherent pipeline.library) :
    Prog.Ends (pipeline.foldRecord organizationId record) b
      (fun _ after ↦ b.Took pipeline organizationId record after)
      fun failure _ ↦ failure.Raised := by
  unfold ProcessRuntimeEvents.foldRecord ProcessRuntimeEvents.apply
  refine Prog.ends_handle ?_
  split
  · next htype =>
    refine Prog.ends_bind fun faults ↦ ?_
    rcases admit_hit_cases h htype faults with
      ⟨contexts, rest, -, hcoherent, ⟨hit, hadmitted, hends⟩ | ⟨rejection, hadmitted, hends⟩⟩ |
        ⟨-, rest, hends⟩
    · rw [hends]
      refine ⟨fun _ heq ↦ ?_, fun _ heq ↦ (nomatch heq)⟩
      cases heq
      refine ends_fold_hit.mono
        (fun _ after ⟨identity, stackHash, hidentity, hfolded⟩ ↦ ?_) fun failure _ hraised ↦ ?_
      · refine ⟨hcoherent.congr hfolded.contexts hfolded.agents, hfolded.agents,
          hfolded.accounted, fun other ↦ ?_⟩
        rw [hfolded.sightings other, foldedIdentity, hadmitted, Option.bind_some, hidentity]
        simp only [Except.toOption, Option.map_some, Option.some.injEq, eq_comm (a := other)]
      · obtain ⟨exception, rfl⟩ := hraised
        exact Prog.ends_raise ⟨exception, rfl⟩
    · rw [hends]
      refine ⟨fun _ heq ↦ (nomatch heq), fun _ heq ↦ ?_⟩
      cases heq
      refine Prog.ends_modify ⟨hcoherent, rfl, ProcessingResult.accounted_reject _ _,
        fun other ↦ ?_⟩
      rw [foldedIdentity, hadmitted]
      rfl
    · rw [hends]
      refine ⟨fun _ heq ↦ (nomatch heq), fun _ heq ↦ ?_⟩
      cases heq
      exact Prog.ends_raise ⟨_, rfl⟩
  · next htype =>
    refine Prog.ends_modify ⟨h, rfl, ProcessingResult.accounted_ignore _, fun other ↦ ?_⟩
    have hadmitted : admitted pipeline.library b.tenant record = none :=
      if_neg fun hboth ↦ htype hboth.1
    rw [foldedIdentity, hadmitted]
    rfl

end Aegis.Api
