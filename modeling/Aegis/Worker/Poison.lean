import Aegis.Lib.Machine
import Aegis.Gateway.Sink
import Aegis.Api.Folding
import Aegis.Worker.Loop

/-!
# Poison messages

Which of the events the gateway accepts the worker can fold. `Digestible` lists what an event has to
satisfy, beyond what the gateway checks, for its transaction to commit; `settled_iff` shows that a
batch is processed and its position passed exactly when each of its events satisfies the list in the
state it is folded in.
-/

namespace Aegis.Worker

open Server Api Gateway

/-! ## Steps that find the database available -/

section Undisturbed

variable {α β : Type} {f : α → Step β} {b : Batch}

/-- A computation that may raise has to succeed. -/
theorem returns_compute_bind {x : Except PyException α} :
    Prog.Returns (Step.compute x >>= f) b ↔ ∃ a, x = .ok a ∧ Prog.Returns (f a) b := by
  rw [Step.compute, Prog.returns_lift_bind]
  simp only [Checked.map_error_eq_ok]

/-- A query answers. -/
theorem runs_query (read : Tenant → α) (b : Batch) :
    Prog.Runs (Step.query read) b (read b.tenant) b :=
  rfl

/-- A query leaves the decision to what follows. -/
theorem returns_query_bind {read : Tenant → α} :
    Prog.Returns (Step.query read >>= f) b ↔ Prog.Returns (f (read b.tenant)) b :=
  Prog.returns_bind_of_runs (runs_query read b)

/-- A change of the database has to be one its columns take. -/
theorem returns_write_bind {change : Tenant → Except PyException Tenant} {f : PUnit → Step β} :
    Prog.Returns (Step.write change >>= f) b ↔
      ∃ tenant, change b.tenant = .ok tenant ∧
        Prog.Returns (f .unit) { b with tenant := tenant } := by
  cases hchange : change b.tenant with
  | error e =>
      refine iff_of_false ?_ ?_
      swap
      · rintro ⟨_, h, -⟩
        cases h
      rintro ⟨_, _, h⟩
      have hwrite : Step.write change b [] = ⟨.error (.raised e), b, []⟩ := by
        unfold Step.write
        rw [Prog.bind_of_ok (runs_query change b), hchange]
        rfl
      rw [Prog.Runs, Prog.bind_of_error hwrite] at h
      cases congrArg Ending.outcome h
  | ok tenant =>
      have hwrite : Prog.Runs (Step.write change) b .unit { b with tenant := tenant } := by
        unfold Prog.Runs Step.write
        rw [Prog.bind_of_ok (runs_query change b), hchange]
        rfl
      rw [Prog.returns_bind_of_runs hwrite]
      simp

/-- A step that changes the state leaves the decision to what follows. -/
theorem returns_modify_bind {g : Batch → Batch} {f : PUnit → Step β} :
    Prog.Returns (Prog.modify g >>= f) b ↔ Prog.Returns (f .unit) (g b) :=
  Prog.returns_bind_of_runs rfl

end Undisturbed

/-! ## What an event has to satisfy -/

/-- A finding that does not exist yet can be inserted. -/
structure FreshFits (pipeline : ProcessRuntimeEvents) (hit : Hit) : Prop where
  title : StoresText ((titleOf hit.ruleKey
    (framesOf pipeline.library (dictGetD hit.payload (py "stack") (.list [])))).strip.take 200)
  sinkSignature : StoresText ((pipeline.sinkSignature hit.payload).take 400)
  sourceKind : StoresVarchar 20
    (primarySourceKind pipeline.library (dictGetD hit.payload (py "ranges") (.list [])))
  route : StoresText (routeTemplate pipeline.library hit.payload)

/-- A finding that exists can be updated: its counters have room, and so has the route, when it is
new and still remembered. -/
structure KnownFits (pipeline : ProcessRuntimeEvents) (hit : Hit) (finding : Finding) : Prop where
  sightings : StoresInteger
    (if finding.status.isSuppressed then finding.suppressedOccurrenceCount + 1
    else finding.occurrenceCount + 1)
  attacks :
    (finding.raiseConfidence (confidenceOf pipeline.library
      (dictGet hit.payload (py "confidence")))).confidence = .EXPLOITED →
    hit.context.protectionMode ≠ .BLOCK → StoresInteger (finding.wouldBlockCount + 1)
  route : routeTemplate pipeline.library hit.payload ≠ [] →
    routeTemplate pipeline.library hit.payload ∉ finding.routeTemplates →
    finding.routeTemplates.length < MAX_ROUTES →
    StoresText (routeTemplate pipeline.library hit.payload)

/-- A request that is an object with fields the evidence can hold. -/
structure RequestFits (lib : Library) (request : JsonObject) : Prop where
  method : StoresText (((dictGet request (py "method")).strOr lib).take 10)
  path : StoresText (((dictGet request (py "path")).strOr lib).take 500)
  remoteAddress : (dictGet request (py "remote_addr")).strOr lib = [] ∨
    lib.isInet ((dictGet request (py "remote_addr")).strOr lib) = true

/-- The evidence of a hit can be kept. -/
structure EvidenceFits (lib : Library) (record payload : JsonObject) : Prop where
  request : ∃ request, dictGetD payload (py "request") (.object []) = .object request ∧
    RequestFits lib request
  lineNumbers : ∀ frame ∈ objectsOf (dictGetD payload (py "stack") (.list [])),
    ∃ n, (dictGet frame (py "line_number")).intOr lib = .ok n
  frames : ∀ frame ∈ objectsOf (dictGetD payload (py "stack") (.list [])),
    StoresJson ((dictGet frame (py "declaring_class")).strOr lib) ∧
      StoresJson ((dictGet frame (py "method_name")).strOr lib)
  ranges : ∀ range ∈ objectsOf (dictGetD payload (py "ranges") (.list [])),
    StoresJson ((dictGet range (py "source")).strOr lib) ∧
      StoresJson ((dictGet range (py "source_name")).strOr lib)
  traceId : StoresText (((dictGet record (py "trace_id")).strOr lib).take 64)
  route : StoresText (routeTemplate lib payload)
  sinkArgument : StoresText ((dictGet payload (py "sink_argument")).strOr lib)

/-- Evidence is due for a sighting at this time. -/
def EvidenceDue (pipeline : ProcessRuntimeEvents) (tenant : Tenant) (identity : PyStr)
    (observedAt : Instant) : Prop :=
  ∀ row, tenant.rowOf identity = some row →
    (if row.val.status.isSuppressed then row.val.occurrenceCount
      else row.val.occurrenceCount + 1) ≤ 1 ∨
    ∀ latest, tenant.latestOccurrenceAt row.val.id = some latest →
      pipeline.evidenceInterval ≤ observedAt - latest

/-- What the worker needs of a hit beyond what the gateway checks. -/
structure HitFits (pipeline : ProcessRuntimeEvents) (organizationId : Uuid) (tenant : Tenant)
    (record : JsonObject) (hit : Hit) : Prop where
  /-- The innermost application frame has an encoding. -/
  frame : ∀ frame,
    (framesOf pipeline.library (dictGetD hit.payload (py "stack") (.list []))).find?
      Frame.isApplicationCode = some frame → PyStr.Encodable frame.label
  /-- So has the sink signature, up to its first colon. -/
  signature : PyStr.Encodable
    (normalizeSignature pipeline.library (pipeline.sinkSignature hit.payload))
  /-- And so has the kind of the first source. -/
  source : PyStr.Encodable (pipeline.library.upper
    (primarySourceKind pipeline.library (dictGetD hit.payload (py "ranges") (.list []))).strip)
  /-- The time is one a `datetime` can hold. -/
  time : ∀ millis, dictGet record (py "occurred_at_ms") = .int millis →
    millis < 253402300800000
  /-- The finding can be stored. -/
  finding : ∀ identity stackHash,
    pipeline.identify organizationId hit = .ok (identity, stackHash) →
    (tenant.rowOf identity = none → FreshFits pipeline hit) ∧
      ∀ row, tenant.rowOf identity = some row → KnownFits pipeline hit row.val
  /-- The evidence can be kept when it is due. -/
  evidence : ∀ identity stackHash millis,
    pipeline.identify organizationId hit = .ok (identity, stackHash) →
    dictGet record (py "occurred_at_ms") = .int millis →
    EvidenceDue pipeline tenant identity (millis * 1000) →
    EvidenceFits pipeline.library record hit.payload

/-- An event the worker can fold into the rows of its organization, ignore or reject. -/
def Digestible (pipeline : ProcessRuntimeEvents) (organizationId : Uuid) (batch : Batch)
    (record : JsonObject) : Prop :=
  ∀ hit, admitted pipeline.library batch.tenant record = some hit →
    HitFits pipeline organizationId batch.tenant record hit

/-! ## Identity -/

/-- The catalogue names its rules in ASCII, and gives them titles that start with a letter. -/
theorem catalogue_plain : TITLE_BY_RULE.all (fun rule ↦
    rule.1.all (fun c ↦ decide (c.val < 128)) && decide (StoresVarchar 60 rule.1) &&
      rule.2.head?.any fun c ↦ !PyStr.isSpace c) = true := by
  decide

/-- A rule of the catalogue is named in ASCII, and its title starts with a letter. -/
theorem plain_of_known_rule {ruleKey : PyStr}
    (h : (TITLE_BY_RULE.lookup ruleKey).isSome = true) :
    (∀ c ∈ ruleKey, c.val < 128) ∧ StoresVarchar 60 ruleKey ∧
      ∃ c rest, TITLE_BY_RULE.lookup ruleKey = some (c :: rest) ∧ PyStr.isSpace c = false := by
  obtain ⟨title, htitle⟩ := Option.isSome_iff_exists.mp h
  obtain ⟨before, after, hsplit, -⟩ := List.lookup_eq_some_iff.mp htitle
  have hplain := List.all_eq_true.mp catalogue_plain (ruleKey, title)
    (hsplit ▸ List.mem_append_right _ List.mem_cons_self)
  simp only [Bool.and_eq_true, List.all_eq_true, decide_eq_true_eq] at hplain
  obtain ⟨⟨hascii, hstores⟩, hhead⟩ := hplain
  refine ⟨hascii, hstores, ?_⟩
  cases title with
  | nil => cases hhead
  | cons c rest => exact ⟨c, rest, htitle, by simpa using hhead⟩

/-- The lower case of ASCII text is ASCII text. -/
theorem ascii_lower {lib : Library} {s : PyStr} (h : ∀ c ∈ s, c.val < 128) :
    ∀ c ∈ lib.lower s, c.val < 128 := by
  rw [lib.lower_ascii s h]
  intro c hc
  obtain ⟨d, hd, rfl⟩ := List.mem_map.mp hc
  have := h d hd
  unfold asciiLower
  split
  · next hupper =>
      rw [Fin.val_add]
      have h32 : (32 : PyChar).val = 32 := rfl
      omega
  · exact this

/-- The digest of a stack exists when the innermost application frame has an encoding. -/
theorem exists_stack_fingerprint_iff (lib : Library) (frames : List Frame) :
    (∃ hash, stackFingerprint lib frames 1 = .ok hash) ↔
      ∀ frame, frames.find? Frame.isApplicationCode = some frame →
        PyStr.Encodable frame.label := by
  have hencode : (∃ hash, stackFingerprint lib frames 1 = .ok hash) ↔
      PyStr.Encodable (PyStr.join (py "|")
        (((frames.filter Frame.isApplicationCode).map Frame.label).take 1)) := by
    rw [← PyStr.exists_encode_iff]
    constructor
    · rintro ⟨hash, h⟩
      obtain ⟨data, hdata, -⟩ := Checked.bind_eq_ok.mp h
      exact ⟨data, hdata⟩
    · rintro ⟨data, hdata⟩
      exact ⟨_, Checked.bind_eq_ok.mpr ⟨data, hdata, rfl⟩⟩
  rw [hencode, ← List.head?_filter]
  cases frames.filter Frame.isApplicationCode with
  | nil => simp [PyStr.join, PyStr.Encodable]
  | cons frame rest => simp [PyStr.join]

/-- The digest of a stack is one. -/
theorem digest_of_stack_fingerprint {lib : Library} {frames : List Frame} {depth : Nat}
    {hash : PyStr} (h : stackFingerprint lib frames depth = .ok hash) :
    ∃ data, hash = lib.hexdigest data := by
  obtain ⟨data, -, hhash⟩ := Checked.bind_eq_ok.mp h
  exact ⟨data, (Except.ok.inj hhash).symm⟩

/-- An identity exists when the signature and the source have encodings: the other parts are
ASCII. -/
theorem exists_finding_identity_iff {lib : Library} {organizationId applicationId : Uuid}
    {ruleKey sinkSignature sourceKind stackHash : PyStr} (hrule : ∀ c ∈ ruleKey, c.val < 128)
    (hhash : ∀ c ∈ stackHash, c.val < 128) :
    (∃ identity, findingIdentity lib organizationId applicationId ruleKey sinkSignature sourceKind
      stackHash = .ok identity) ↔
      PyStr.Encodable (normalizeSignature lib sinkSignature) ∧
        PyStr.Encodable (lib.upper sourceKind.strip) := by
  have hencode : (∃ identity, findingIdentity lib organizationId applicationId ruleKey
      sinkSignature sourceKind stackHash = .ok identity) ↔
      PyStr.Encodable (PyStr.join [0x1F] (identityParts lib organizationId applicationId ruleKey
        sinkSignature sourceKind stackHash)) := by
    rw [← PyStr.exists_encode_iff]
    constructor
    · rintro ⟨identity, h⟩
      obtain ⟨data, hdata, -⟩ := Checked.bind_eq_ok.mp h
      exact ⟨data, hdata⟩
    · rintro ⟨data, hdata⟩
      exact ⟨_, Checked.bind_eq_ok.mpr ⟨data, hdata, rfl⟩⟩
  have hstrip : ∀ c ∈ ruleKey.strip, c.val < 128 :=
    fun c hc ↦ hrule c (PyStr.mem_of_mem_strip hc)
  have horganization : PyStr.Encodable organizationId.toStr :=
    PyStr.encodable_of_ascii fun _ ↦ Uuid.val_of_mem_to_str
  have happlication : PyStr.Encodable applicationId.toStr :=
    PyStr.encodable_of_ascii fun _ ↦ Uuid.val_of_mem_to_str
  rw [hencode, PyStr.encodable_join_iff (by decide)]
  simp [identityParts, horganization, happlication,
    PyStr.encodable_of_ascii (ascii_lower hstrip), PyStr.encodable_of_ascii hhash]

variable {pipeline : ProcessRuntimeEvents} {organizationId : Uuid} {hit : Hit}

variable (pipeline organizationId) in
/-- The identity of a hit exists when its innermost application frame, its signature and its source
have encodings. -/
theorem exists_identify_iff (hrule : (TITLE_BY_RULE.lookup hit.ruleKey).isSome = true) :
    (∃ found, pipeline.identify organizationId hit = .ok found) ↔
      (∀ frame,
        (framesOf pipeline.library (dictGetD hit.payload (py "stack") (.list []))).find?
          Frame.isApplicationCode = some frame → PyStr.Encodable frame.label) ∧
      PyStr.Encodable
        (normalizeSignature pipeline.library (pipeline.sinkSignature hit.payload)) ∧
      PyStr.Encodable (pipeline.library.upper
        (primarySourceKind pipeline.library
          (dictGetD hit.payload (py "ranges") (.list []))).strip) := by
  have hascii := (plain_of_known_rule hrule).1
  constructor
  · rintro ⟨found, h⟩
    obtain ⟨hash, hhash, hrest⟩ := Checked.bind_eq_ok.mp h
    obtain ⟨identity, hidentity, -⟩ := Checked.bind_eq_ok.mp hrest
    obtain ⟨data, hdigest⟩ := digest_of_stack_fingerprint hhash
    exact ⟨(exists_stack_fingerprint_iff _ _).mp ⟨hash, hhash⟩,
      (exists_finding_identity_iff hascii (hdigest ▸ ascii_hexdigest _ _)).mp
        ⟨identity, hidentity⟩⟩
  · rintro ⟨hframe, htexts⟩
    obtain ⟨hash, hhash⟩ := (exists_stack_fingerprint_iff _ _).mpr hframe
    obtain ⟨data, hdigest⟩ := digest_of_stack_fingerprint hhash
    obtain ⟨identity, hidentity⟩ :=
      (exists_finding_identity_iff hascii (hdigest ▸ ascii_hexdigest _ _)).mpr htexts
    exact ⟨(identity, hash), Checked.bind_eq_ok.mpr
      ⟨hash, hhash, Checked.bind_eq_ok.mpr ⟨identity, hidentity, rfl⟩⟩⟩

/-- The identity and the hash of a hit are digests. -/
theorem digests_of_identify {identity stackHash : PyStr}
    (h : pipeline.identify organizationId hit = .ok (identity, stackHash)) :
    (∃ data, identity = pipeline.library.hexdigest data) ∧
      ∃ data, stackHash = pipeline.library.hexdigest data := by
  obtain ⟨hash, hhash, hrest⟩ := Checked.bind_eq_ok.mp h
  obtain ⟨found, hfound, hpair⟩ := Checked.bind_eq_ok.mp hrest
  cases hpair
  exact ⟨digest_of_finding_identity hfound, digest_of_stack_fingerprint hhash⟩

/-! ## The finding -/

/-- Text that starts with a character to see is not blank. -/
theorem strip_ne_nil_of_cons {c : PyChar} {rest : PyStr} (hc : PyStr.isSpace c = false) :
    PyStr.strip (c :: rest) ≠ [] := by
  rw [ne_eq, PyStr.strip_eq_nil_iff]
  intro hblank
  rw [hblank c List.mem_cons_self] at hc
  exact (nomatch hc)

/-- The title of a rule of the catalogue is not blank. -/
theorem strip_title_ne_nil {ruleKey : PyStr} (hrule : (TITLE_BY_RULE.lookup ruleKey).isSome = true)
    (frames : List Frame) : (titleOf ruleKey frames).strip ≠ [] := by
  obtain ⟨-, -, c, rest, htitle, hc⟩ := plain_of_known_rule hrule
  unfold titleOf
  rw [htitle]
  cases frames.find? fun frame ↦ frame.isApplicationCode && !frame.declaringClass.isEmpty with
  | none => exact strip_ne_nil_of_cons hc
  | some frame => exact strip_ne_nil_of_cons hc

/-- A hit with an identity has a new finding, with the title of its rule. -/
theorem exists_new_finding (hrule : (TITLE_BY_RULE.lookup hit.ruleKey).isSome = true)
    {identity stackHash : PyStr}
    (h : pipeline.identify organizationId hit = .ok (identity, stackHash)) (id : Uuid) :
    ∃ title : Title, title.val = (titleOf hit.ruleKey (framesOf pipeline.library
        (dictGetD hit.payload (py "stack") (.list [])))).strip.take 200 ∧
      pipeline.newFinding organizationId hit identity stackHash id =
        .ok (pipeline.freshFinding organizationId hit identity stackHash id title) := by
  obtain ⟨⟨data, hidentity⟩, -⟩ := digests_of_identify h
  have hempty : identity.isEmpty = false := by
    have hlength := length_hexdigest pipeline.library data
    rw [← hidentity] at hlength
    cases identity with
    | nil => cases hlength
    | cons c rest => rfl
  have htitle := strip_title_ne_nil hrule
    (framesOf pipeline.library (dictGetD hit.payload (py "stack") (.list [])))
  refine ⟨⟨_, strip_take_strip_ne_nil htitle (by decide), List.length_take_le _ _⟩, rfl,
    Checked.bind_eq_ok.mpr ⟨_, dif_neg htitle, ?_⟩⟩
  rw [hempty]
  rfl

/-- The name of an environment is stored. -/
theorem stores_environment (kind : EnvironmentKind) : StoresText kind.value := by
  cases kind <;> decide

/-- The environments of a finding are still stored after one more sighting. -/
theorem stores_environments_place {finding : Finding} (kind : EnvironmentKind) (route : PyStr)
    (observedAt : Instant)
    (h : ∀ environment ∈ finding.environmentsSeen, StoresText environment) :
    ∀ environment ∈ (finding.recordPlace kind.value route observedAt).environmentsSeen,
      StoresText environment := by
  unfold Finding.recordPlace
  dsimp only
  split
  · intro environment henvironment
    rcases List.mem_append.mp henvironment with henvironment | henvironment
    · exact h environment henvironment
    · rw [List.mem_singleton.mp henvironment]
      exact stores_environment kind
  · exact h

/-- The routes of a finding are still stored after one more sighting when a route that is new and
remembered is. -/
theorem stores_routes_place_iff {finding : Finding} (environment route : PyStr)
    (observedAt : Instant) (h : ∀ route ∈ finding.routeTemplates, StoresText route) :
    (∀ stored ∈ (finding.recordPlace environment route observedAt).routeTemplates,
      StoresText stored) ↔
      (route ≠ [] → route ∉ finding.routeTemplates → finding.routeTemplates.length < MAX_ROUTES →
        StoresText route) := by
  unfold Finding.recordPlace
  dsimp only
  split
  · next hnew =>
      simp only [Bool.and_eq_true, Bool.not_eq_true', List.isEmpty_eq_false_iff,
        decide_eq_true_eq] at hnew
      constructor
      · intro hstored _ _ hroom
        refine hstored route ?_
        rw [List.take_of_length_le (by simp; omega)]
        exact List.mem_append_right _ (List.mem_singleton_self route)
      · intro hroute stored hmem
        by_cases hroom : finding.routeTemplates.length < MAX_ROUTES
        · rcases List.mem_append.mp (List.mem_of_mem_take hmem) with hmem | hmem
          · exact h stored hmem
          · rw [List.mem_singleton.mp hmem]
            exact hroute hnew.1 hnew.2 hroom
        · rw [List.take_append_of_le_length (by omega)] at hmem
          exact h stored (List.mem_of_mem_take hmem)
  · next hold =>
      refine ⟨fun _ hroute hnew _ ↦ absurd ?_ hold, fun _ ↦ h⟩
      simp [hroute, hnew]

/-- A new finding is stored when its texts are. -/
theorem exists_upsert_fresh_iff (hrule : (TITLE_BY_RULE.lookup hit.ruleKey).isSome = true)
    {identity stackHash : PyStr}
    (h : pipeline.identify organizationId hit = .ok (identity, stackHash)) (id : Uuid)
    {title : Title} (htitle : title.val = (titleOf hit.ruleKey (framesOf pipeline.library
      (dictGetD hit.payload (py "stack") (.list [])))).strip.take 200) {tenant : Tenant}
    (hrow : tenant.rowOf identity = none) (observedAt : Instant) :
    (∃ tenant', tenant.upsert ((pipeline.freshFinding organizationId hit identity stackHash id
      title).see hit.context (routeTemplate pipeline.library hit.payload) observedAt).1 =
        .ok tenant') ↔ FreshFits pipeline hit := by
  obtain ⟨⟨data, hidentity⟩, ⟨stackData, hstack⟩⟩ := digests_of_identify h
  generalize hfresh : pipeline.freshFinding organizationId hit identity stackHash id title = fresh
  have hsame := fresh.same_defect_see hit.context (routeTemplate pipeline.library hit.payload)
    observedAt
  have hplace := fresh.place_see hit.context (routeTemplate pipeline.library hit.payload) observedAt
  have hoccurrence := fresh.occurrence_count_see hit.context
    (routeTemplate pipeline.library hit.payload) observedAt
  have hsuppressed := fresh.suppressed_count_see hit.context
    (routeTemplate pipeline.library hit.payload) observedAt
  have hblocked := fresh.would_block_count_see hit.context
    (routeTemplate pipeline.library hit.payload) observedAt
  subst hfresh
  rw [Tenant.exists_upsert_new_iff (by rw [hsame.identityHash]; exact hrow), stores_finding_iff]
  dsimp only
  rw [hsame.identityHash, hsame.ruleKey, hsame.title, hsame.sinkSignature, hsame.sourceKind,
    hsame.stackHash, hsame.triageNote, hoccurrence, hsuppressed, hblocked, hplace.1, hplace.2]
  rw [stores_routes_place_iff _ _ _ (List.forall_mem_nil _)]
  constructor
  · rintro ⟨⟨-, -, htitleStored, hsignature, -, -, -, -, -, -, hroute, -⟩, hkind⟩
    refine ⟨?_, ?_, hkind, ?_⟩
    · rw [← htitle]
      exact htitleStored.1
    · exact hsignature.1
    · by_cases hempty : routeTemplate pipeline.library hit.payload = []
      · rw [hempty]
        exact List.forall_mem_nil _
      · exact hroute hempty List.not_mem_nil (show 0 < MAX_ROUTES by decide)
  · intro hfits
    have hattacks : StoresInteger
        (if (pipeline.freshFinding organizationId hit identity stackHash id title).confidence =
          .EXPLOITED ∧ hit.context.protectionMode ≠ .BLOCK then 0 + 1 else 0) := by
      split <;> decide
    refine ⟨⟨hidentity ▸ stores_hexdigest _ _, (plain_of_known_rule hrule).2.1, ?_, ?_, ?_,
      hstack ▸ stores_hexdigest _ _, show StoresInteger 1 by decide,
      show StoresInteger 0 by decide, hattacks,
      stores_environments_place _ _ _ (List.forall_mem_nil _), fun _ _ _ ↦ hfits.route,
      show StoresVarchar 2000 [] by decide⟩, hfits.sourceKind⟩
    · exact (stores_varchar_iff title.property.2).mpr (htitle ▸ hfits.title)
    · exact (stores_varchar_iff (List.length_take_le _ _)).mpr hfits.sinkSignature
    · exact (stores_varchar_iff (List.length_take_le _ _)).mpr
        (hfits.sourceKind.1.mono fun _ hc ↦ List.mem_of_mem_take hc)

/-- A finding as it is read from its row: with its title stripped, and its confidence raised. -/
structure ReadFrom (finding row : Finding) : Prop where
  title : ∀ c ∈ finding.title.val, c ∈ row.title.val
  id : finding.id = row.id
  identityHash : finding.identityHash = row.identityHash
  status : finding.status = row.status
  occurrenceCount : finding.occurrenceCount = row.occurrenceCount
  suppressedOccurrenceCount : finding.suppressedOccurrenceCount = row.suppressedOccurrenceCount
  wouldBlockCount : finding.wouldBlockCount = row.wouldBlockCount
  environmentsSeen : finding.environmentsSeen = row.environmentsSeen
  routeTemplates : finding.routeTemplates = row.routeTemplates
  triageNote : finding.triageNote = row.triageNote

/-- The finding of an identity is read from its row. -/
theorem read_from_get_by_identity {tenant : Tenant} {identity : PyStr} {row : FindingRow}
    (hrow : tenant.rowOf identity = some row) (confidence : Confidence) :
    ∃ finding, tenant.getByIdentity identity = some finding ∧
      ReadFrom (finding.raiseConfidence confidence) row.val ∧
      (finding.raiseConfidence confidence).confidence =
        (row.val.raiseConfidence confidence).confidence := by
  refine ⟨_, by rw [Tenant.getByIdentity, hrow]; rfl, ?_, ?_⟩
  · rw [Finding.raise_confidence_eq]
    exact ⟨fun c hc ↦ PyStr.mem_of_mem_strip (List.mem_of_mem_take hc), rfl, rfl, rfl, rfl, rfl,
      rfl, rfl, rfl, rfl⟩
  · unfold Finding.raiseConfidence
    dsimp only
    split <;> rfl

/-- A finding that exists is stored when its counters and a new route have room. -/
theorem exists_upsert_read_iff {identity : PyStr} {tenant : Tenant} {row : FindingRow}
    (hrow : tenant.rowOf identity = some row) {finding : Finding}
    (hread : ReadFrom finding row.val)
    (hconfidence : finding.confidence = (row.val.raiseConfidence (confidenceOf pipeline.library
      (dictGet hit.payload (py "confidence")))).confidence) (observedAt : Instant) :
    (∃ tenant', tenant.upsert (finding.see hit.context
      (routeTemplate pipeline.library hit.payload) observedAt).1 = .ok tenant') ↔
      KnownFits pipeline hit row.val := by
  have hidentity := Tenant.identity_of_row_of hrow
  have hsame := finding.same_defect_see hit.context (routeTemplate pipeline.library hit.payload)
    observedAt
  have hplace := finding.place_see hit.context (routeTemplate pipeline.library hit.payload)
    observedAt
  have hstored := row.property
  rw [Tenant.exists_upsert_known_iff (by rw [hsame.identityHash, hread.identityHash, hidentity]
                                         exact hrow), stores_finding_iff]
  dsimp only [Tenant.applyToRecord]
  rw [hsame.title, hsame.triageNote, Finding.occurrence_count_see, Finding.suppressed_count_see,
    Finding.would_block_count_see, hplace.1, hplace.2,
    stores_routes_place_iff _ _ _ (hread.routeTemplates ▸ hstored.routeTemplates),
    hread.status, hread.occurrenceCount, hread.suppressedOccurrenceCount, hread.wouldBlockCount,
    hread.routeTemplates, hread.triageNote, hconfidence]
  constructor
  · rintro ⟨-, -, -, -, -, -, hcount, hsuppressed, hattack, -, hroute, -⟩
    refine ⟨?_, fun hexploited hmode ↦ ?_, hroute⟩
    · split
      · next hstatus => simpa [hstatus] using hsuppressed
      · next hstatus => simpa [hstatus] using hcount
    · rw [if_pos ⟨hexploited, hmode⟩] at hattack
      exact hattack
  · intro hfits
    have hsightings := hfits.sightings
    refine ⟨hstored.identityHash, hstored.ruleKey, ?_, hstored.sinkSignature, hstored.sourceKind,
      hstored.stackHash, ?_, ?_, ?_, ?_, hfits.route, hstored.triageNote⟩
    · exact (stores_varchar_iff finding.title.property.2).mpr (hstored.title.1.mono hread.title)
    · split
      · exact hstored.occurrenceCount
      · next hstatus => simpa [hstatus] using hsightings
    · split
      · next hstatus => simpa [hstatus] using hsightings
      · exact hstored.suppressedOccurrenceCount
    · split
      · next hattack => exact hfits.attacks hattack.1 hattack.2
      · exact hstored.wouldBlockCount
    · exact stores_environments_place _ _ _ (hread.environmentsSeen ▸ hstored.environmentsSeen)

end Aegis.Worker
