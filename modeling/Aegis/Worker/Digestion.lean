import Aegis.Api.Accounting
import Aegis.Worker.Poison

/-!
# Folding one event

With the database available, an event the gateway accepted is folded, ignored or rejected exactly
when it is digestible in the state it is folded in, and then the result counts it once.
-/

namespace Aegis.Worker

open Server Api Gateway

variable {pipeline : ProcessRuntimeEvents} {organizationId : Uuid} {hit : Hit}
  {record payload : JsonObject} {b : Batch}

/-! ## What the gateway has checked -/

/-- What the worker relies on in a record: a positive time, and a hit whose ranges are objects with
an integer start and length. -/
structure Vouched (record : JsonObject) : Prop where
  time : ∃ millis, dictGet record (py "occurred_at_ms") = .int millis ∧ 0 < millis
  ranges : isTaintHit record = true → ∀ payload, dictGet record (py "payload") = .object payload →
    ∀ range ∈ objectsOf (dictGetD payload (py "ranges") (.list [])),
      ∃ start length, dictGet range (py "start") = .int start ∧
        dictGet range (py "length") = .int length

/-- The record of a published event has been checked. -/
theorem vouched_record (published : PublishedEvent) : Vouched published.record := by
  obtain ⟨raw, hraw⟩ := published.accepted
  obtain ⟨htime, hvalid⟩ := accepted_of_parse_event hraw
  refine ⟨⟨published.event.occurredAtMs, rfl, htime⟩, fun htype payload hpayload range hrange ↦ ?_⟩
  have htype : published.event.type = .TAINT_HIT := by
    generalize hkind : published.event.type = type
    have hname : isTaintHit published.record = (type.value == py "EVENT_TYPE_TAINT_HIT") := by
      rw [← hkind]
      rfl
    rw [hname] at htype
    revert htype
    cases type <;> decide
  have hpayload : published.event.payload = payload := by
    have hobject : dictGet published.record (py "payload") = .object published.event.payload := rfl
    rw [hobject] at hpayload
    exact Json.object.inj hpayload
  obtain ⟨-, ranges, hranges, hchecked⟩ := checked_of_validate_taint_hit (hvalid htype)
  rw [hpayload] at hranges
  rw [hranges] at hrange
  obtain ⟨entry, hentry, hobject⟩ := List.mem_filterMap.mp hrange
  obtain ⟨fields, start, length, rfl, hstart, hlength⟩ := hchecked entry hentry
  cases hobject
  exact ⟨start, length, hstart, hlength⟩

/-! ## The time -/

/-- A time that is a positive integer has to be one a `datetime` can hold. -/
theorem returns_observed_at_bind {α : Type} {f : Instant → Step α} {millis : Int}
    (htime : dictGet record (py "occurred_at_ms") = .int millis) (hpositive : 0 < millis) :
    Prog.Returns (pipeline.observedAt record >>= f) b ↔
      millis < 253402300800000 ∧ Prog.Returns (f (millis * 1000)) b := by
  have hread : readMillis pipeline.library record = .ok millis := by
    rw [readMillis, htime, Json.int_or_int]
  have hobserved : pipeline.observedAt record b [] =
      Step.compute (fromTimestamp millis) b [] := by
    unfold ProcessRuntimeEvents.observedAt
    rw [hread, Prog.bind_of_ok (x := Step.compute (.ok millis)) rfl, if_neg (by omega)]
  by_cases hfits : millis < 253402300800000
  · have hruns : Prog.Runs (pipeline.observedAt record) b (millis * 1000) b := by
      rw [Prog.Runs, hobserved, fromTimestamp, if_pos hfits]
      rfl
    rw [Prog.returns_bind_of_runs hruns]
    simp [hfits]
  · have hraises : pipeline.observedAt record b [] =
        ⟨.error (.raised .ValueError), b, []⟩ := by
      rw [hobserved, fromTimestamp, if_neg hfits]
      rfl
    simp [hfits, Prog.not_returns_bind_of_error hraises]

/-! ## The evidence -/

/-- The name of an environment fits its column. -/
theorem stores_environment_kind (kind : EnvironmentKind) : StoresVarchar 20 kind.value := by
  cases kind <;> decide

/-- A route is cut to its column. -/
theorem length_route_template (lib : Library) (payload : JsonObject) :
    (routeTemplate lib payload).length ≤ 500 := by
  unfold routeTemplate
  split
  · exact List.length_take_le _ _
  · exact Nat.zero_le _

/-- A field of the request is read when the request is an object. -/
theorem request_field_eq_ok_iff {lib : Library} {key value : PyStr} :
    requestField lib payload key = .ok value ↔
      ∃ request, dictGetD payload (py "request") (.object []) = .object request ∧
        (dictGet request key).strOr lib = value := by
  unfold requestField
  cases dictGetD payload (py "request") (.object []) <;> simp

/-- The frames that are converted have the texts of the payload. -/
theorem stores_stack_frames_iff {lib : Library} {stack : Json}
    {frames : List (PyStr × PyStr × Int × Bool)} (h : stackFrames lib stack = .ok frames) :
    (∀ frame ∈ frames, StoresJson frame.1 ∧ StoresJson frame.2.1) ↔
      ∀ frame ∈ objectsOf stack, StoresJson ((dictGet frame (py "declaring_class")).strOr lib) ∧
        StoresJson ((dictGet frame (py "method_name")).strOr lib) := by
  refine Checked.forall_map_m_iff (fun frame converted hconverted ↦ ?_) h
  obtain ⟨line, -, hframe⟩ := Checked.bind_eq_ok.mp hconverted
  cases hframe
  exact Iff.rfl

/-- The frames are converted when their line numbers are. -/
theorem exists_stack_frames_iff {lib : Library} {stack : Json} :
    (∃ frames, stackFrames lib stack = .ok frames) ↔
      ∀ frame ∈ objectsOf stack, ∃ n, (dictGet frame (py "line_number")).intOr lib = .ok n := by
  constructor
  · rintro ⟨frames, h⟩ frame hframe
    obtain ⟨converted, hconverted⟩ := Checked.exists_of_map_m_eq_ok h frame hframe
    obtain ⟨line, hline, -⟩ := Checked.bind_eq_ok.mp hconverted
    exact ⟨line, hline⟩
  · intro h
    refine Checked.exists_map_m_eq_ok fun frame hframe ↦ ?_
    obtain ⟨line, hline⟩ := h frame hframe
    exact ⟨_, Checked.bind_eq_ok.mpr ⟨line, hline, rfl⟩⟩

/-- The ranges that are converted have the texts of the payload. -/
theorem stores_ranges_iff {lib : Library} {json : Json}
    {ranges : List (Int × Int × PyStr × PyStr)} (h : rangesOf lib json = .ok ranges) :
    (∀ range ∈ ranges, StoresJson range.2.2.1 ∧ StoresJson range.2.2.2) ↔
      ∀ range ∈ objectsOf json, StoresJson ((dictGet range (py "source")).strOr lib) ∧
        StoresJson ((dictGet range (py "source_name")).strOr lib) := by
  refine Checked.forall_map_m_iff (fun range converted hconverted ↦ ?_) h
  obtain ⟨start, -, hrest⟩ := Checked.bind_eq_ok.mp hconverted
  obtain ⟨length, -, hrange⟩ := Checked.bind_eq_ok.mp hrest
  cases hrange
  exact Iff.rfl

variable (pipeline organizationId record) in
/-- Evidence is kept when the request is an object, the line numbers convert and the columns take
the texts. -/
theorem exists_evidence_iff
    (hranges : ∀ range ∈ objectsOf (dictGetD hit.payload (py "ranges") (.list [])),
      ∃ start length, dictGet range (py "start") = .int start ∧
        dictGet range (py "length") = .int length)
    (findingId : Uuid) (observedAt : Instant) (id : Uuid) :
    (∃ occurrence, pipeline.evidence organizationId record hit findingId observedAt id =
        .ok occurrence ∧ StoresOccurrence pipeline.library occurrence) ↔
      EvidenceFits pipeline.library record hit.payload := by
  constructor
  · rintro ⟨occurrence, hevidence, hstores⟩
    obtain ⟨method, hmethod, hevidence⟩ := Checked.bind_eq_ok.mp hevidence
    obtain ⟨path, hpath, hevidence⟩ := Checked.bind_eq_ok.mp hevidence
    obtain ⟨ranges, htainted, hevidence⟩ := Checked.bind_eq_ok.mp hevidence
    obtain ⟨frames, hframes, hevidence⟩ := Checked.bind_eq_ok.mp hevidence
    obtain ⟨address, haddress, hevidence⟩ := Checked.bind_eq_ok.mp hevidence
    cases hevidence
    obtain ⟨request, hrequest, rfl⟩ := request_field_eq_ok_iff.mp hmethod
    obtain ⟨_, hsame, rfl⟩ := request_field_eq_ok_iff.mp hpath
    cases hrequest.symm.trans hsame
    obtain ⟨_, hsame, rfl⟩ := request_field_eq_ok_iff.mp haddress
    cases hrequest.symm.trans hsame
    exact
      { request := ⟨request, hrequest, hstores.requestMethod.1, hstores.requestPath.1,
          hstores.remoteAddress⟩
        lineNumbers := exists_stack_frames_iff.mp ⟨frames, hframes⟩
        frames := (stores_stack_frames_iff hframes).mp hstores.stackFrames
        ranges := (stores_ranges_iff htainted).mp hstores.taintedRanges
        traceId := hstores.traceId.1
        route := hstores.routeTemplate.1
        sinkArgument := hstores.sinkArgument }
  · rintro ⟨⟨request, hrequest, hfits⟩, hlines, hframeTexts, hrangeTexts, htrace, hroute,
      hargument⟩
    obtain ⟨ranges, htainted⟩ : ∃ ranges, rangesOf pipeline.library
        (dictGetD hit.payload (py "ranges") (.list [])) = .ok ranges := by
      refine Checked.exists_map_m_eq_ok fun range hrange ↦ ?_
      obtain ⟨start, length, hstart, hlength⟩ := hranges range hrange
      exact ⟨_, by rw [hstart, hlength, Json.int_or_int, Json.int_or_int]; rfl⟩
    obtain ⟨frames, hframes⟩ := exists_stack_frames_iff.mpr hlines
    have hfield (key : PyStr) : requestField pipeline.library hit.payload key =
        .ok ((dictGet request key).strOr pipeline.library) :=
      request_field_eq_ok_iff.mpr ⟨request, hrequest, rfl⟩
    refine ⟨_, by rw [ProcessRuntimeEvents.evidence, hfield, hfield, hfield, htainted, hframes]; rfl,
      ?_⟩
    exact
      { environment := stores_environment_kind hit.context.environmentKind
        traceId := (stores_varchar_iff (List.length_take_le _ _)).mpr htrace
        requestMethod := (stores_varchar_iff (List.length_take_le _ _)).mpr hfits.method
        requestPath := (stores_varchar_iff (List.length_take_le _ _)).mpr hfits.path
        routeTemplate := (stores_varchar_iff (length_route_template _ _)).mpr hroute
        sinkArgument := hargument
        taintedRanges := (stores_ranges_iff htainted).mpr hrangeTexts
        stackFrames := (stores_stack_frames_iff hframes).mpr hframeTexts
        remoteAddress := hfits.remoteAddress }

/-- Evidence is due for a finding that was just seen. -/
def KeepsEvidence (pipeline : ProcessRuntimeEvents) (tenant : Tenant) (finding : Finding)
    (observedAt : Instant) : Prop :=
  finding.occurrenceCount ≤ 1 ∨
    ∀ latest, tenant.latestOccurrenceAt finding.id = some latest →
      pipeline.evidenceInterval ≤ observedAt - latest

variable (pipeline b) in
/-- Whether evidence is kept is read off the rows. -/
theorem runs_should_keep_evidence (finding : Finding) (observedAt : Instant) :
    ∃ keeps : Bool, (keeps = true ↔ KeepsEvidence pipeline b.tenant finding observedAt) ∧
      Prog.Runs (pipeline.shouldKeepEvidence finding observedAt) b keeps b := by
  unfold ProcessRuntimeEvents.shouldKeepEvidence KeepsEvidence
  split
  · next hfirst => exact ⟨true, by simp [hfirst], rfl⟩
  · next hlater =>
      refine ⟨_, ?_, rfl⟩
      cases hlatest : b.tenant.latestOccurrenceAt finding.id <;> simp [hlater, hlatest]

/-- Evidence that is due has to be such that it can be kept. -/
theorem returns_keep_evidence_iff
    (hranges : ∀ range ∈ objectsOf (dictGetD hit.payload (py "ranges") (.list [])),
      ∃ start length, dictGet range (py "start") = .int start ∧
        dictGet range (py "length") = .int length)
    (finding : Finding) (observedAt : Instant) :
    Prog.Returns (pipeline.keepEvidence organizationId record hit finding observedAt) b ↔
      (KeepsEvidence pipeline b.tenant finding observedAt →
        EvidenceFits pipeline.library record hit.payload) := by
  obtain ⟨keeps, hkeeps, hruns⟩ :=
    runs_should_keep_evidence pipeline b finding observedAt
  unfold ProcessRuntimeEvents.keepEvidence
  rw [Prog.returns_bind_of_runs hruns, ← hkeeps]
  cases keeps with
  | false => simp [Prog.returns_pure]
  | true =>
      have hdraw : Prog.Runs pipeline.drawId b (pipeline.newId b.draws)
        { b with draws := b.draws + 1 } := rfl
      rw [← exists_evidence_iff pipeline organizationId record hranges finding.id observedAt (pipeline.newId b.draws)]
      simp only [if_true, forall_const]
      rw [Prog.returns_bind_of_runs hdraw, returns_compute_bind]
      refine exists_congr fun occurrence ↦ and_congr_right fun _ ↦ ?_
      rw [returns_write_bind]
      constructor
      · rintro ⟨tenant, htenant, -⟩
        unfold Tenant.addOccurrence at htenant
        split at htenant
        · assumption
        · cases htenant
      · exact fun hstores ↦ ⟨_, if_pos hstores, Prog.returns_modify _ _⟩

/-! ## The hit -/

/-- The steps after the finding is there: count, store, announce, keep evidence. -/
theorem returns_fold_finding_iff
    (hranges : ∀ range ∈ objectsOf (dictGetD hit.payload (py "ranges") (.list [])),
      ∃ start length, dictGet range (py "start") = .int start ∧
        dictGet range (py "length") = .int length)
    {finding : Finding} {observedAt : Instant} {created : Bool}
    (change : ProcessingResult → ProcessingResult) :
    Prog.Returns (do
        Step.count change
        Step.write fun tenant ↦ tenant.upsert finding
        Step.count fun result ↦ result.fold created
        ProcessRuntimeEvents.announce organizationId hit finding created observedAt
        pipeline.keepEvidence organizationId record hit finding observedAt) b ↔
      (∃ tenant', b.tenant.upsert finding = .ok tenant') ∧
        (KeepsEvidence pipeline b.tenant finding observedAt →
          EvidenceFits pipeline.library record hit.payload) := by
  unfold Step.count ProcessRuntimeEvents.announce
  simp only [returns_modify_bind, returns_write_bind, returns_keep_evidence_iff hranges]
  constructor
  · rintro ⟨tenant, hupsert, hevidence⟩
    obtain ⟨row, rfl, -⟩ := Tenant.exists_put_of_upsert hupsert
    exact ⟨⟨_, hupsert⟩, hevidence⟩
  · rintro ⟨⟨tenant, hupsert⟩, hevidence⟩
    refine ⟨tenant, hupsert, ?_⟩
    obtain ⟨row, rfl, -⟩ := Tenant.exists_put_of_upsert hupsert
    exact hevidence

/-- A hit of a defect that is new is folded when the finding and its evidence are stored: the first
evidence is always due. -/
theorem returns_fold_fresh_iff (hrule : (TITLE_BY_RULE.lookup hit.ruleKey).isSome = true)
    (hranges : ∀ range ∈ objectsOf (dictGetD hit.payload (py "ranges") (.list [])),
      ∃ start length, dictGet range (py "start") = .int start ∧
        dictGet range (py "length") = .int length)
    {identity stackHash : PyStr}
    (hidentity : pipeline.identify organizationId hit = .ok (identity, stackHash))
    (hrow : b.tenant.rowOf identity = none) (observedAt : Instant) :
    Prog.Returns (do
        let finding ← pipeline.findOrCreate organizationId hit identity stackHash none
        let (finding, regressed) :=
          finding.see hit.context (routeTemplate pipeline.library hit.payload) observedAt
        Step.count fun result ↦
          if regressed then { result with regressions := result.regressions + 1 } else result
        Step.write fun tenant ↦ tenant.upsert finding
        Step.count fun result ↦ result.fold true
        ProcessRuntimeEvents.announce organizationId hit finding true observedAt
        pipeline.keepEvidence organizationId record hit finding observedAt) b ↔
      FreshFits pipeline hit ∧ EvidenceFits pipeline.library record hit.payload := by
  obtain ⟨title, htitle, hnew⟩ := exists_new_finding hrule hidentity (pipeline.newId b.draws)
  have hruns : Prog.Runs (pipeline.findOrCreate organizationId hit identity stackHash none) b
      (pipeline.freshFinding organizationId hit identity stackHash (pipeline.newId b.draws) title)
      { b with draws := b.draws + 1 } := by
    unfold Prog.Runs ProcessRuntimeEvents.findOrCreate
    dsimp only
    rw [Prog.bind_of_ok (x := pipeline.drawId) rfl, hnew]
    rfl
  have hupsert := exists_upsert_fresh_iff hrule hidentity (pipeline.newId b.draws) htitle hrow
    observedAt
  rw [Prog.returns_bind_of_runs hruns]
  beta_reduce
  generalize hfresh : pipeline.freshFinding organizationId hit identity stackHash
    (pipeline.newId b.draws) title = fresh at hupsert ⊢
  have hcount := fresh.occurrence_count_see hit.context
    (routeTemplate pipeline.library hit.payload) observedAt
  rcases hsee : fresh.see hit.context (routeTemplate pipeline.library hit.payload) observedAt
    with ⟨seen, regressed⟩
  rw [hsee] at hupsert hcount
  have hdue : KeepsEvidence pipeline b.tenant seen observedAt := by
    refine .inl ?_
    rw [hcount, ← hfresh]
    exact Nat.le_refl 1
  rw [returns_fold_finding_iff hranges, hupsert]
  simp only [hdue, forall_const]

/-- A hit of a defect that is known is folded when the finding is stored, and its evidence is when
it is due. -/
theorem returns_fold_known_iff
    (hranges : ∀ range ∈ objectsOf (dictGetD hit.payload (py "ranges") (.list [])),
      ∃ start length, dictGet range (py "start") = .int start ∧
        dictGet range (py "length") = .int length)
    {identity stackHash : PyStr} {row : FindingRow} (hrow : b.tenant.rowOf identity = some row)
    (observedAt : Instant) :
    Prog.Returns (do
        let finding ← pipeline.findOrCreate organizationId hit identity stackHash
          (b.tenant.getByIdentity identity)
        let (finding, regressed) :=
          finding.see hit.context (routeTemplate pipeline.library hit.payload) observedAt
        Step.count fun result ↦
          if regressed then { result with regressions := result.regressions + 1 } else result
        Step.write fun tenant ↦ tenant.upsert finding
        Step.count fun result ↦ result.fold (b.tenant.getByIdentity identity).isNone
        ProcessRuntimeEvents.announce organizationId hit finding
          (b.tenant.getByIdentity identity).isNone observedAt
        pipeline.keepEvidence organizationId record hit finding observedAt) b ↔
      KnownFits pipeline hit row.val ∧
        (EvidenceDue pipeline b.tenant identity observedAt →
          EvidenceFits pipeline.library record hit.payload) := by
  obtain ⟨stored, hstored, hread, hconfidence⟩ := read_from_get_by_identity hrow
    (confidenceOf pipeline.library (dictGet hit.payload (py "confidence")))
  rw [hstored]
  unfold ProcessRuntimeEvents.findOrCreate
  rw [Prog.returns_bind_of_runs (show Prog.Runs (pure _) b _ b from rfl)]
  beta_reduce
  generalize stored.raiseConfidence _ = finding at hread hconfidence ⊢
  have hupsert := exists_upsert_read_iff hrow hread hconfidence observedAt
  have hsame := finding.same_defect_see hit.context (routeTemplate pipeline.library hit.payload)
    observedAt
  have hcount := finding.occurrence_count_see hit.context
    (routeTemplate pipeline.library hit.payload) observedAt
  rcases hsee : finding.see hit.context (routeTemplate pipeline.library hit.payload) observedAt
    with ⟨seen, regressed⟩
  rw [hsee] at hupsert hcount hsame
  have hdue : KeepsEvidence pipeline b.tenant seen observedAt ↔
      EvidenceDue pipeline b.tenant identity observedAt := by
    unfold KeepsEvidence EvidenceDue
    rw [hcount, hsame.id, hread.id, hread.status, hread.occurrenceCount, hrow]
    simp
  rw [returns_fold_finding_iff hranges, hupsert, hdue]

/-- A hit is folded exactly when it fits. -/
theorem returns_fold_hit_iff (hrule : (TITLE_BY_RULE.lookup hit.ruleKey).isSome = true)
    {millis : Int} (htime : dictGet record (py "occurred_at_ms") = .int millis)
    (hpositive : 0 < millis)
    (hranges : ∀ range ∈ objectsOf (dictGetD hit.payload (py "ranges") (.list [])),
      ∃ start length, dictGet range (py "start") = .int start ∧
        dictGet range (py "length") = .int length) :
    Prog.Returns (pipeline.foldHit organizationId record hit) b ↔
      HitFits pipeline organizationId b.tenant record hit := by
  have hexists := exists_identify_iff pipeline organizationId hrule
  unfold ProcessRuntimeEvents.foldHit
  rw [returns_compute_bind]
  -- Both sides ask for an identity; the rest is compared at that identity.
  constructor
  · rintro ⟨⟨identity, stackHash⟩, hidentity, hrest⟩
    obtain ⟨hframe, hsignature, hsource⟩ := hexists.mp ⟨_, hidentity⟩
    rw [returns_observed_at_bind htime hpositive, returns_query_bind] at hrest
    obtain ⟨hbound, hrest⟩ := hrest
    have hfits : ((b.tenant.rowOf identity = none → FreshFits pipeline hit) ∧
        ∀ row, b.tenant.rowOf identity = some row → KnownFits pipeline hit row.val) ∧
        (EvidenceDue pipeline b.tenant identity (millis * 1000) →
          EvidenceFits pipeline.library record hit.payload) := by
      cases hrow : b.tenant.rowOf identity with
      | none =>
          rw [show b.tenant.getByIdentity identity = none by
            rw [Tenant.getByIdentity, hrow]; rfl] at hrest
          have hboth := (returns_fold_fresh_iff hrule hranges hidentity hrow _).mp hrest
          exact ⟨⟨fun _ ↦ hboth.1, fun _ h ↦ (by cases h)⟩, fun _ ↦ hboth.2⟩
      | some row =>
          have hboth := (returns_fold_known_iff hranges hrow _).mp hrest
          exact ⟨⟨fun h ↦ (by cases h), fun _ h ↦ Option.some.inj h ▸ hboth.1⟩, hboth.2⟩
    refine ⟨hframe, hsignature, hsource, fun other h ↦ ?_, fun other hash h ↦ ?_,
      fun other hash time h hread ↦ ?_⟩
    · cases htime.symm.trans h
      exact hbound
    · cases hidentity.symm.trans h
      exact hfits.1
    · cases hidentity.symm.trans h
      cases htime.symm.trans hread
      exact hfits.2
  · intro hfits
    obtain ⟨⟨identity, stackHash⟩, hidentity⟩ :=
      hexists.mpr ⟨hfits.frame, hfits.signature, hfits.source⟩
    refine ⟨_, hidentity, ?_⟩
    rw [returns_observed_at_bind htime hpositive, returns_query_bind]
    refine ⟨hfits.time millis htime, ?_⟩
    have hfinding := hfits.finding identity stackHash hidentity
    have hevidence := hfits.evidence identity stackHash millis hidentity htime
    cases hrow : b.tenant.rowOf identity with
    | none =>
        rw [show b.tenant.getByIdentity identity = none by rw [Tenant.getByIdentity, hrow]; rfl]
        refine (returns_fold_fresh_iff hrule hranges hidentity hrow _).mpr
          ⟨hfinding.1 hrow, hevidence fun row h ↦ ?_⟩
        cases hrow.symm.trans h
    | some row =>
        exact (returns_fold_known_iff hranges hrow _).mpr ⟨hfinding.2 row hrow, hevidence⟩

/-! ## The event -/

/-- A query settles. -/
theorem settles_query {α : Type} (read : Tenant → α) : Prog.Settles (Step.query read) :=
  Prog.settles_bind (Prog.settles_attempt _) fun _ ↦ Prog.settles_read _

/-- So does a change of the database. -/
theorem settles_write (change : Tenant → Except PyException Tenant) :
    Prog.Settles (Step.write change) :=
  Prog.settles_bind (settles_query change) fun _ ↦
    Prog.settles_bind (Prog.settles_lift _) fun _ ↦ Prog.settles_modify _

/-- Looking up the context of an agent settles. -/
theorem settles_context_of (agentId : PyStr) : Prog.Settles (pipeline.contextOf agentId) := by
  unfold ProcessRuntimeEvents.contextOf
  refine Prog.settles_bind (Prog.settles_read _) fun remembered ↦ ?_
  cases remembered with
  | some context => exact Prog.settles_pure _
  | none =>
      dsimp only
      split
      · exact Prog.settles_bind (Prog.settles_pure _) fun _ ↦
          Prog.settles_bind (Prog.settles_modify _) fun _ ↦ Prog.settles_pure _
      · exact Prog.settles_bind (settles_query _) fun _ ↦
          Prog.settles_bind (Prog.settles_modify _) fun _ ↦ Prog.settles_pure _

/-- Admitting a hit settles. -/
theorem settles_admit_hit (record : JsonObject) : Prog.Settles (pipeline.admitHit record) := by
  unfold ProcessRuntimeEvents.admitHit
  dsimp only
  split
  · exact Prog.settles_raise _
  · refine Prog.settles_bind (settles_context_of _) fun context ↦ ?_
    cases context with
    | none => exact Prog.settles_raise _
    | some context =>
        dsimp only
        repeat' split
        all_goals first | exact Prog.settles_raise _ | exact Prog.settles_pure _

/-- Reading the time settles. -/
theorem settles_observed_at (record : JsonObject) : Prog.Settles (pipeline.observedAt record) := by
  unfold ProcessRuntimeEvents.observedAt
  refine Prog.settles_bind (Prog.settles_lift _) fun millis ↦ ?_
  split
  · exact Prog.settles_bind (Prog.settles_read _) fun _ ↦
      Prog.settles_bind (Prog.settles_modify _) fun _ ↦ Prog.settles_pure _
  · exact Prog.settles_lift _

/-- Drawing an id settles. -/
theorem settles_draw_id : Prog.Settles pipeline.drawId :=
  Prog.settles_bind (Prog.settles_read _) fun _ ↦
    Prog.settles_bind (Prog.settles_modify _) fun _ ↦ Prog.settles_pure _

/-- Keeping evidence settles. -/
theorem settles_keep_evidence (finding : Finding) (observedAt : Instant) :
    Prog.Settles (pipeline.keepEvidence organizationId record hit finding observedAt) := by
  unfold ProcessRuntimeEvents.keepEvidence ProcessRuntimeEvents.shouldKeepEvidence
  refine Prog.settles_bind ?_ fun keeps ↦ ?_
  · split
    · exact Prog.settles_pure _
    · exact Prog.settles_bind (settles_query _) fun _ ↦ Prog.settles_pure _
  · split
    · exact Prog.settles_bind settles_draw_id fun _ ↦ Prog.settles_bind (Prog.settles_lift _)
        fun _ ↦ Prog.settles_bind (settles_write _) fun _ ↦ Prog.settles_modify _
    · exact Prog.settles_pure _

/-- Folding a hit settles. -/
theorem settles_fold_hit : Prog.Settles (pipeline.foldHit organizationId record hit) := by
  unfold ProcessRuntimeEvents.foldHit
  refine Prog.settles_bind (Prog.settles_lift _) fun ⟨identity, stackHash⟩ ↦ ?_
  refine Prog.settles_bind (settles_observed_at record) fun observedAt ↦ ?_
  refine Prog.settles_bind (settles_query _) fun existing ↦ Prog.settles_bind ?_ fun finding ↦ ?_
  · unfold ProcessRuntimeEvents.findOrCreate
    cases existing with
    | none => exact Prog.settles_bind settles_draw_id fun _ ↦ Prog.settles_lift _
    | some finding => exact Prog.settles_pure _
  · exact Prog.settles_bind (Prog.settles_modify _) fun _ ↦
      Prog.settles_bind (settles_write _) fun _ ↦
        Prog.settles_bind (Prog.settles_modify _) fun _ ↦
          Prog.settles_bind (Prog.settles_modify _) fun _ ↦ settles_keep_evidence _ _

/-- Folding an event settles. -/
theorem settles_fold_record : Prog.Settles (pipeline.foldRecord organizationId record) := by
  unfold ProcessRuntimeEvents.foldRecord ProcessRuntimeEvents.apply
  refine Prog.settles_handle ?_ fun failure ↦ ?_
  · split
    · exact Prog.settles_bind (settles_admit_hit record) fun hit ↦ settles_fold_hit
    · exact Prog.settles_modify _
  · cases failure with
    | rejected rejection => exact Prog.settles_modify _
    | raised exception => exact Prog.settles_raise _

variable (organizationId) in
/-- An event is folded, ignored or rejected exactly when it is digestible. -/
theorem returns_fold_record_iff (hcoherent : b.Coherent pipeline.library)
    (hvouched : Vouched record) :
    Prog.Returns (pipeline.foldRecord organizationId record) b ↔
      Digestible pipeline organizationId b record := by
  unfold ProcessRuntimeEvents.foldRecord ProcessRuntimeEvents.apply Digestible
  split
  · next htype =>
    obtain ⟨contexts, rest, hrest, -, hcases⟩ :=
      (admit_hit_cases hcoherent htype []).resolve_right fun h ↦ h.1 rfl
    cases hrest rfl
    rcases hcases with ⟨hit, hadmitted, hends⟩ | ⟨rejection, hadmitted, hends⟩
    · obtain ⟨millis, htime, hpositive⟩ := hvouched.time
      obtain ⟨hpayload, hrule⟩ := of_admitted hadmitted
      rw [Prog.returns_handle_iff, Prog.returns_bind_of_runs hends,
        returns_fold_hit_iff hrule htime hpositive (hvouched.ranges htype _ hpayload), hadmitted]
      · simp
      · exact Prog.settles_bind (settles_admit_hit record) fun hit ↦ settles_fold_hit
      · intro failure after herror
        rw [Prog.bind_of_ok hends] at herror
        obtain ⟨exception, rfl⟩ := ends_fold_hit.of_error herror
        exact fun ⟨_, _, hok⟩ ↦ nomatch congrArg Ending.outcome hok
    · have hbind := Prog.bind_of_error (f := pipeline.foldHit organizationId record) hends
      refine iff_of_true ⟨_, _, Prog.handle_of_error hbind⟩ ?_
      simp [hadmitted]
  · next htype =>
    have hnone : admitted pipeline.library b.tenant record = none :=
      if_neg fun hboth ↦ htype hboth.1
    simp only [hnone]
    exact iff_of_true ⟨_, _, rfl⟩ nofun

end Aegis.Worker
