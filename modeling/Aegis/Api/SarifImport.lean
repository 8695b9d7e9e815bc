import Mathlib.Tactic.Linarith
import Aegis.Api.Identity
import Aegis.Api.Sarif

/-!
# Importing a report twice

An import treats every row that carries the identity of a result as corroborated, also a row of its
own. What becomes of a score is then a matter of how often a report names an identity, and an
identity keeps of a result its rule class and the start of its URI.
-/

namespace Aegis.Api

open Server

/-! ## What findings come to -/

/-- A finding, its confidence and its score. -/
structure Standing where
  id : Uuid
  confidence : Confidence
  riskScore : ℚ
  deriving DecidableEq

/-- The standing of the finding under an identity. -/
def Tenant.standing (tenant : Tenant) (identity : PyStr) : Option Standing :=
  (tenant.rowOf identity).map fun row ↦ ⟨row.val.id, row.val.confidence, row.val.riskScore⟩

/-- The findings are the same, and so are their confidences and scores. -/
def SameStandings (tenant other : Tenant) : Prop :=
  ∀ identity, tenant.standing identity = other.standing identity

/-- The standing behind a number of correlations. -/
def Standing.correlated (standing : Standing) : Nat → Standing
  | 0 => standing
  | n + 1 => ⟨standing.id, .EXPLOITED, min 10 (standing.riskScore + 2 * (n + 1))⟩

/-- One correlation more. -/
theorem Standing.correlated_succ (standing : Standing) (n : Nat) :
    (standing.correlated n).correlated 1 = standing.correlated (n + 1) := by
  cases n with
  | zero => rfl
  | succ n =>
      simp only [correlated, Standing.mk.injEq, true_and]
      push_cast
      rcases le_total (standing.riskScore + 2 * (n + 1)) 10 with h | h
      · rw [min_eq_right h]
        congr 1
        ring
      · rw [min_eq_left h, min_eq_left (by norm_num), min_eq_left (by linarith)]

/-- Correlations add up. -/
theorem Standing.correlated_add (standing : Standing) (n m : Nat) :
    (standing.correlated n).correlated m = standing.correlated (n + m) := by
  induction m with
  | zero => rfl
  | succ m ih => rw [← correlated_succ, ih, correlated_succ, Nat.add_assoc]

/-! ## Results and their identities -/

section Import

variable (lib : Library) (organizationId applicationId : Uuid) (newId : Nat → Uuid)

/-- A result as it is read, and the identity under which it becomes a finding. -/
def locate (toolName : PyStr) (item : Json) : Except PyException (PyStr × SarifResult) := do
  let result ← readResult lib toolName item
  let identity ← result.identity lib toolName organizationId applicationId
  .ok (identity, result)

/-- The columns take a finding that is made of the result. -/
def SarifResult.Storable (toolName : PyStr) (result : SarifResult) : Prop :=
  result.title.strip ≠ [] ∧ StoresText (result.title.strip.take 200) ∧
    StoresVarchar 400 (result.sinkSignature lib toolName) ∧ StoresText result.stackHash

/-- The scores that the results of one identity would have, in their order. -/
def scoresOf (toolName : PyStr) (items : List Json) (identity : PyStr) : List ℚ :=
  items.filterMap fun item ↦
    match locate lib organizationId applicationId toolName item with
    | .ok (other, result) => if other = identity then some result.riskScore else none
    | .error _ => none

/-- Every result can be read and has an identity, and the first of an identity that is not known is
stored. -/
def Acceptable (toolName : PyStr) (known : PyStr → Bool) : List Json → Prop
  | [] => True
  | item :: items =>
      ∃ identity result, locate lib organizationId applicationId toolName item =
          .ok (identity, result) ∧
        (known identity = false → result.Storable lib toolName) ∧
          Acceptable toolName (fun other ↦ known other || identity = other) items

end Import

/-! ## What a result is stored as -/

/-- A row that is put has its standing, and other identities keep theirs. -/
theorem standing_put (tenant : Tenant) (row : FindingRow) (identity : PyStr) :
    (tenant.put row).standing identity = if identity = row.val.identityHash then
      some ⟨row.val.id, row.val.confidence, row.val.riskScore⟩ else tenant.standing identity := by
  rw [Tenant.standing, Tenant.row_of_put]
  split <;> rfl

/-- The rule keys there are. -/
def RULE_KEYS : List PyStr :=
  [py "sql-injection", py "command-injection", py "path-traversal", py "reflected-xss",
    py "open-redirect", py "ssrf"]

/-- A rule key is one of six. -/
theorem normalize_rule_key_mem (ruleId : PyStr) : normalizeRuleKey ruleId ∈ RULE_KEYS := by
  unfold normalizeRuleKey RULE_KEYS
  split_ifs <;> simp only [List.mem_cons, true_or, or_true]

/-- A rule key fits its column, is in lower case and holds no separator. -/
theorem rule_key_spec (ruleId : PyStr) :
    StoresVarchar 60 (normalizeRuleKey ruleId) ∧
      ((normalizeRuleKey ruleId).strip.all (fun c ↦ c.val < 128) = true ∧
        (normalizeRuleKey ruleId).strip.map asciiLower = normalizeRuleKey ruleId) ∧
      (normalizeRuleKey ruleId).count SEPARATOR = 0 := by
  have hall : ∀ key ∈ RULE_KEYS, StoresVarchar 60 key ∧
      ((PyStr.strip key).all (fun c ↦ c.val < 128) = true ∧
        (PyStr.strip key).map asciiLower = key) ∧ key.count SEPARATOR = 0 := by
    decide +kernel
  exact hall _ (normalize_rule_key_mem ruleId)

/-- The kind of an external source fits its column and is in upper case. -/
theorem external_scanner_spec :
    StoresVarchar 20 EXTERNAL_SCANNER ∧
      (PyStr.strip EXTERNAL_SCANNER).all (fun c ↦ c.val < 128) = true ∧
        (PyStr.strip EXTERNAL_SCANNER).map asciiUpper = EXTERNAL_SCANNER := by
  decide +kernel

/-- The start of a URI fits its column. -/
theorem length_stack_hash_le (result : SarifResult) : result.stackHash.length ≤ 64 := by
  rw [SarifResult.stackHash]
  split
  · rw [List.length_replicate]
  · exact List.length_take_le _ _

section Import

variable {lib : Library} {organizationId applicationId : Uuid} {newId : Nat → Uuid}
  {toolName identity : PyStr} {result : SarifResult} {tenant : Tenant}

/-- Inserting a finding puts its row. -/
theorem upsert_eq_ok_of_new {finding : Finding} (hnew : tenant.rowOf finding.identityHash = none)
    {next : Tenant} : tenant.upsert finding = .ok next ↔
      ∃ row, Tenant.insertRow finding = .ok row ∧ tenant.put row = next := by
  rw [Tenant.upsert, hnew, Checked.bind_eq_ok]
  simp only [Except.ok.injEq]

/-- A finding is inserted as it is, but for its source kind, when the columns take it. -/
theorem insert_row_eq_ok_iff {finding : Finding} (hkind : finding.sourceKind = EXTERNAL_SCANNER)
    {row : FindingRow} :
    Tenant.insertRow finding = .ok row ↔ StoresFinding finding ∧ row.val = finding := by
  have hcut : { finding with sourceKind := finding.sourceKind.take 20 } = finding := by
    rw [hkind, List.take_of_length_le (by decide), ← hkind]
  rw [Tenant.insertRow]
  simp only [hcut]
  simp only [hkind, external_scanner_spec.1, and_true]
  split
  · next h =>
      rw [Except.ok.injEq, Subtype.ext_iff]
      exact ⟨fun heq ↦ ⟨h, heq.symm⟩, fun heq ↦ heq.2.symm⟩
  · next h => exact iff_of_false nofun fun heq ↦ h heq.1

/-- The finding of a result, where it has a title. -/
theorem finding_eq_ok_iff {id : Uuid} {finding : Finding} :
    result.finding lib toolName organizationId applicationId id identity = .ok finding ↔
      ∃ title : Title, result.title.strip ≠ [] ∧ title.val = result.title.strip.take 200 ∧
        finding = result.titled lib toolName organizationId applicationId id identity title := by
  rw [SarifResult.finding, Title.make]
  by_cases htitle : result.title.strip = []
  · rw [dif_pos htitle]
    exact iff_of_false nofun fun ⟨_, h, _⟩ ↦ h htitle
  · rw [dif_neg htitle]
    constructor
    · intro h
      exact ⟨_, htitle, rfl, (Except.ok.inj h).symm⟩
    · rintro ⟨⟨title, hproperty⟩, -, hval, rfl⟩
      obtain rfl : title = result.title.strip.take 200 := hval
      rfl

/-- The columns take a new finding when they take what is read of its result. -/
theorem stores_titled_iff {id : Uuid} {title : Title}
    (hdigest : ∃ data, identity = lib.hexdigest data) :
    StoresFinding (result.titled lib toolName organizationId applicationId id identity title) ↔
      StoresText title.val ∧ StoresVarchar 400 (result.sinkSignature lib toolName) ∧
        StoresText result.stackHash := by
  obtain ⟨data, hidentity⟩ := hdigest
  rw [← stores_varchar_iff title.property.2, ← stores_varchar_iff (length_stack_hash_le result)]
  constructor
  · exact fun h ↦ ⟨h.title, h.sinkSignature, h.stackHash⟩
  · rintro ⟨htitle, hsignature, hstack⟩
    exact {
      identityHash := hidentity ▸ stores_hexdigest lib data
      ruleKey := (rule_key_spec _).1
      title := htitle
      sinkSignature := hsignature
      sourceKind := external_scanner_spec.1
      stackHash := hstack
      occurrenceCount := show StoresInteger 0 by decide
      suppressedOccurrenceCount := show StoresInteger 0 by decide
      wouldBlockCount := show StoresInteger 0 by decide
      environmentsSeen := List.forall_mem_nil _
      routeTemplates := List.forall_mem_nil _
      triageNote := show StoresVarchar 2000 [] by decide }

/-- A result becomes a new finding with its score when the columns take it, and not else. -/
theorem insert_result {id : Uuid} (hdigest : ∃ data, identity = lib.hexdigest data)
    (hnew : tenant.rowOf identity = none) :
    (∀ next, (result.finding lib toolName organizationId applicationId id identity >>=
        tenant.upsert) = .ok next → ∃ row : FindingRow, row.val.identityHash = identity ∧
          row.val.confidence = .CONFIRMED ∧ row.val.riskScore = result.riskScore ∧
            next = tenant.put row) ∧
      ((∃ next, (result.finding lib toolName organizationId applicationId id identity >>=
        tenant.upsert) = .ok next) ↔ result.Storable lib toolName) := by
  have hinsert : ∀ finding next, result.finding lib toolName organizationId applicationId id
      identity = .ok finding → (tenant.upsert finding = .ok next ↔
        ∃ row : FindingRow, (StoresFinding finding ∧ row.val = finding) ∧ tenant.put row = next) := by
    intro finding next hfinding
    obtain ⟨title, -, -, rfl⟩ := finding_eq_ok_iff.mp hfinding
    rw [upsert_eq_ok_of_new hnew]
    exact exists_congr fun row ↦ and_congr_left' (insert_row_eq_ok_iff rfl)
  constructor
  · intro next hnext
    obtain ⟨finding, hfinding, hupsert⟩ := Checked.bind_eq_ok.mp hnext
    obtain ⟨row, ⟨-, hrow⟩, rfl⟩ := (hinsert finding next hfinding).mp hupsert
    obtain ⟨title, -, -, rfl⟩ := finding_eq_ok_iff.mp hfinding
    exact ⟨row, by rw [hrow]; rfl, by rw [hrow]; rfl, by rw [hrow]; rfl, rfl⟩
  · constructor
    · rintro ⟨next, hnext⟩
      obtain ⟨finding, hfinding, hupsert⟩ := Checked.bind_eq_ok.mp hnext
      obtain ⟨row, ⟨hstores, -⟩, -⟩ := (hinsert finding next hfinding).mp hupsert
      obtain ⟨title, hblank, htitle, rfl⟩ := finding_eq_ok_iff.mp hfinding
      obtain ⟨htext, hrest⟩ := (stores_titled_iff hdigest).mp hstores
      exact ⟨hblank, htitle ▸ htext, hrest⟩
    · rintro ⟨hblank, htext, hrest⟩
      obtain ⟨title, htitle⟩ : ∃ title : Title, title.val = result.title.strip.take 200 :=
        ⟨⟨_, strip_take_strip_ne_nil hblank (by decide), List.length_take_le _ _⟩, rfl⟩
      have hfinding : result.finding lib toolName organizationId applicationId id identity = .ok _ :=
        finding_eq_ok_iff.mpr ⟨title, hblank, htitle, rfl⟩
      have hstores : StoresFinding
          (result.titled lib toolName organizationId applicationId id identity title) :=
        (stores_titled_iff hdigest).mpr ⟨htitle ▸ htext, hrest⟩
      exact ⟨_, Checked.bind_eq_ok.mpr ⟨_, hfinding,
        (hinsert _ _ hfinding).mpr ⟨⟨_, hstores⟩, ⟨hstores, rfl⟩, rfl⟩⟩⟩

/-- A row that is read, correlated and written back fits its columns as before. -/
theorem stores_correlated (row : FindingRow) : StoresFinding (Tenant.applyToRecord
    (Finding.correlate { row.val with title := row.val.title.reload }) row.val) := by
  obtain ⟨finding, h⟩ := row
  have htitle : StoresText finding.title.reload.val :=
    ((stores_varchar_iff finding.title.property.2).mp h.title).mono fun c hc ↦
      PyStr.mem_of_mem_strip (List.mem_of_mem_take hc)
  exact { h with title := (stores_varchar_iff finding.title.reload.property.2).mpr htitle }

/-- A finding that exists is correlated whatever it is. -/
theorem correlate_existing {row : FindingRow} (hrow : tenant.rowOf identity = some row) :
    ∃ existing next, tenant.getByIdentity identity = some existing ∧
      tenant.upsert existing.correlate = .ok next ∧ ∃ written : FindingRow,
        written.val.identityHash = identity ∧ written.val.id = row.val.id ∧
          written.val.confidence = .EXPLOITED ∧
            written.val.riskScore = min 10 (row.val.riskScore + 2) ∧ next = tenant.put written := by
  have hidentity := Tenant.identity_of_row_of hrow
  refine ⟨_, tenant.put ⟨_, stores_correlated row⟩, by rw [Tenant.getByIdentity, hrow]; rfl, ?_,
    ⟨_, stores_correlated row⟩, hidentity, rfl, rfl, rfl, rfl⟩
  have hupsert : tenant.rowOf
      (Finding.correlate { row.val with title := row.val.title.reload }).identityHash = some row :=
    (congrArg tenant.rowOf hidentity).trans hrow
  rw [Tenant.upsert, hupsert]
  simp only [Tenant.updateRow, dif_pos (stores_correlated row)]
  rfl

/-! ## One result -/

/-- What the results of an identity make of its finding: the first may be the finding itself, and
every other one correlates. -/
def Advances (before : Option Standing) (scores : List ℚ) (after : Option Standing) : Prop :=
  match before, scores with
  | some standing, scores => after = some (standing.correlated scores.length)
  | none, [] => after = none
  | none, score :: more =>
      ∃ id, after = some ((⟨id, .CONFIRMED, score⟩ : Standing).correlated more.length)

/-- Results that come one after another. -/
theorem Advances.trans {before between after : Option Standing} {scores more : List ℚ}
    (h : Advances before scores between) (hmore : Advances between more after) :
    Advances before (scores ++ more) after := by
  cases before with
  | some standing =>
      obtain rfl : between = _ := h
      obtain rfl : after = _ := hmore
      show some _ = some _
      rw [Standing.correlated_add, List.length_append]
  | none =>
      cases scores with
      | nil =>
          obtain rfl : between = none := h
          exact hmore
      | cons score scores =>
          obtain ⟨id, rfl⟩ := h
          obtain rfl : after = _ := hmore
          refine ⟨id, ?_⟩
          rw [Standing.correlated_add, ← List.length_append]
          rfl

/-- There is a finding behind a result, and only there or where it was. -/
theorem Advances.is_some {before after : Option Standing} {scores : List ℚ}
    (h : Advances before scores after) : after.isSome = (before.isSome || !scores.isEmpty) := by
  cases before with
  | some standing =>
      obtain rfl : after = _ := h
      rfl
  | none =>
      cases scores with
      | nil =>
          obtain rfl : after = none := h
          rfl
      | cons score scores =>
          obtain ⟨id, rfl⟩ := h
          rfl

/-- The identities of the findings there are. -/
def Tenant.knows (tenant : Tenant) (identity : PyStr) : Bool :=
  (tenant.standing identity).isSome

theorem knows_eq_false_iff : tenant.knows identity = false ↔ tenant.rowOf identity = none := by
  rw [Tenant.knows, Tenant.standing, Option.isSome_map, Option.isSome_eq_false_iff,
    Option.isNone_iff_eq_none]

/-- The scores of one result. -/
theorem scores_of_singleton {item : Json}
    (h : locate lib organizationId applicationId toolName item = .ok (identity, result))
    (other : PyStr) : scoresOf lib organizationId applicationId toolName [item] other =
      if identity = other then [result.riskScore] else [] := by
  rw [scoresOf, List.filterMap_cons, h, List.filterMap_nil]
  by_cases hsame : identity = other <;> simp [hsame]

/-- Reading a result and identifying it. -/
theorem locate_eq_ok_iff {item : Json} :
    locate lib organizationId applicationId toolName item = .ok (identity, result) ↔
      readResult lib toolName item = .ok result ∧
        result.identity lib toolName organizationId applicationId = .ok identity := by
  rw [locate, Checked.bind_eq_ok]
  constructor
  · rintro ⟨_, hread, h⟩
    obtain ⟨_, hidentity, h⟩ := Checked.bind_eq_ok.mp h
    cases h
    exact ⟨hread, hidentity⟩
  · rintro ⟨hread, hidentity⟩
    exact ⟨_, hread, Checked.bind_eq_ok.mpr ⟨_, hidentity, rfl⟩⟩

/-- What a row that is put makes of the standings. -/
theorem advances_put {row : FindingRow} {item : Json}
    (hlocate : locate lib organizationId applicationId toolName item = .ok (identity, result))
    (hidentity : row.val.identityHash = identity)
    (hadvance : Advances (tenant.standing identity) [result.riskScore]
      (some ⟨row.val.id, row.val.confidence, row.val.riskScore⟩)) (other : PyStr) :
    Advances (tenant.standing other) (scoresOf lib organizationId applicationId toolName [item] other)
      ((tenant.put row).standing other) := by
  rw [scores_of_singleton hlocate, standing_put, hidentity]
  by_cases hsame : identity = other
  · rw [if_pos hsame, if_pos hsame.symm, ← hsame]
    exact hadvance
  · rw [if_neg hsame, if_neg (Ne.symm hsame)]
    cases tenant.standing other with
    | none => rfl
    | some standing => rfl

/-- One turn of the loop goes on when the result can be read and has an identity, and is stored if
it is new. What it changes is the finding of its identity. -/
theorem ingest_result_spec (state : SarifImport) (item : Json) :
    (∀ next, ingestResult lib organizationId applicationId newId toolName state item = .ok next →
      ∀ identity, Advances (state.tenant.standing identity)
        (scoresOf lib organizationId applicationId toolName [item] identity)
        (next.tenant.standing identity)) ∧
      ((∃ next, ingestResult lib organizationId applicationId newId toolName state item = .ok next) ↔
        ∃ identity result, locate lib organizationId applicationId toolName item =
            .ok (identity, result) ∧
          (state.tenant.knows identity = false → result.Storable lib toolName)) := by
  have hturn : ∀ next, ingestResult lib organizationId applicationId newId toolName state item =
      .ok next ↔ ∃ identity result, locate lib organizationId applicationId toolName item =
          .ok (identity, result) ∧
        (state.tenant.getByIdentity identity).elim
          ((result.finding lib toolName organizationId applicationId
            (newId state.findingsImported) identity >>= state.tenant.upsert) >>= fun tenant ↦ .ok
              { state with tenant := tenant, findingsImported := state.findingsImported + 1 })
          (fun existing ↦ state.tenant.upsert existing.correlate >>= fun tenant ↦ .ok
            { state with tenant := tenant, findingsCorrelated := state.findingsCorrelated + 1 }) =
          .ok next := by
    intro next
    rw [ingestResult, Checked.bind_eq_ok]
    simp only [Checked.bind_eq_ok, locate_eq_ok_iff, bind_assoc]
    constructor
    · rintro ⟨result, hread, identity, hidentity, h⟩
      refine ⟨identity, result, ⟨hread, hidentity⟩, ?_⟩
      cases hget : state.tenant.getByIdentity identity <;> rw [hget] at h <;> exact h
    · rintro ⟨identity, result, ⟨hread, hidentity⟩, h⟩
      refine ⟨result, hread, identity, hidentity, ?_⟩
      cases hget : state.tenant.getByIdentity identity <;> rw [hget] at h <;> exact h
  have hknown : ∀ identity, (state.tenant.getByIdentity identity = none ↔
      state.tenant.rowOf identity = none) := fun identity ↦ Option.map_eq_none_iff
  constructor
  · intro next hnext
    obtain ⟨identity, result, hlocate, h⟩ := (hturn next).mp hnext
    have hdigest := digest_of_finding_identity (locate_eq_ok_iff.mp hlocate).2
    cases hrow : state.tenant.rowOf identity with
    | none =>
        rw [(hknown identity).mpr hrow] at h
        obtain ⟨tenant, htenant, hok⟩ := Checked.bind_eq_ok.mp h
        obtain ⟨row, hidentity, hconfidence, hscore, rfl⟩ :=
          (insert_result hdigest hrow).1 tenant htenant
        cases hok
        refine advances_put hlocate hidentity ?_
        rw [Tenant.standing, hrow, hconfidence, hscore]
        exact ⟨row.val.id, rfl⟩
    | some row =>
        obtain ⟨existing, tenant, hexisting, hupsert, written, hidentity, hid, hconfidence, hscore,
          rfl⟩ := correlate_existing hrow
        rw [hexisting] at h
        obtain ⟨_, htenant, hok⟩ := Checked.bind_eq_ok.mp h
        cases hupsert.symm.trans htenant
        cases hok
        refine advances_put hlocate hidentity ?_
        rw [Tenant.standing, hrow, hconfidence, hscore, hid]
        show some _ = some _
        simp [Standing.correlated]
  · constructor
    · rintro ⟨next, hnext⟩
      obtain ⟨identity, result, hlocate, h⟩ := (hturn next).mp hnext
      refine ⟨identity, result, hlocate, fun hnew ↦ ?_⟩
      have hrow := knows_eq_false_iff.mp hnew
      rw [(hknown identity).mpr hrow] at h
      obtain ⟨tenant, htenant, -⟩ := Checked.bind_eq_ok.mp h
      exact (insert_result (digest_of_finding_identity (locate_eq_ok_iff.mp hlocate).2) hrow).2.mp
        ⟨tenant, htenant⟩
    · rintro ⟨identity, result, hlocate, hstorable⟩
      cases hrow : state.tenant.rowOf identity with
      | none =>
          obtain ⟨tenant, htenant⟩ := (insert_result
            (digest_of_finding_identity (locate_eq_ok_iff.mp hlocate).2) hrow).2.mpr
              (hstorable (knows_eq_false_iff.mpr hrow))
          refine ⟨{ state with
            tenant := tenant
            findingsImported := state.findingsImported + 1 },
            (hturn _).mpr ⟨identity, result, hlocate, ?_⟩⟩
          rw [(hknown identity).mpr hrow]
          exact Checked.bind_eq_ok.mpr ⟨tenant, htenant, rfl⟩
      | some row =>
          obtain ⟨existing, tenant, hexisting, hupsert, -⟩ := correlate_existing hrow
          refine ⟨{ state with
            tenant := tenant
            findingsCorrelated := state.findingsCorrelated + 1 },
            (hturn _).mpr ⟨identity, result, hlocate, ?_⟩⟩
          rw [hexisting]
          exact Checked.bind_eq_ok.mpr ⟨tenant, hupsert, rfl⟩

/-! ## A report -/

/-- The scores of a report are those of its results, in their order. -/
theorem scores_of_cons (item : Json) (items : List Json) (identity : PyStr) :
    scoresOf lib organizationId applicationId toolName (item :: items) identity =
      scoresOf lib organizationId applicationId toolName [item] identity ++
        scoresOf lib organizationId applicationId toolName items identity :=
  List.filterMap_append (l := [item])

/-- What the loop makes of the findings. -/
theorem advances_of_fold {items : List Json} {state next : SarifImport}
    (h : items.foldlM (ingestResult lib organizationId applicationId newId toolName) state =
      .ok next) (identity : PyStr) : Advances (state.tenant.standing identity)
        (scoresOf lib organizationId applicationId toolName items identity)
        (next.tenant.standing identity) := by
  induction items generalizing state with
  | nil =>
      cases h
      cases next.tenant.standing identity with
      | none => rfl
      | some standing => rfl
  | cons item items ih =>
      rw [List.foldlM_cons] at h
      obtain ⟨between, hitem, hrest⟩ := Checked.bind_eq_ok.mp h
      rw [scores_of_cons]
      exact ((ingest_result_spec state item).1 between hitem identity).trans (ih hrest)

/-- The loop ends when the report is acceptable. -/
theorem exists_fold_iff {items : List Json} {state : SarifImport} :
    (∃ next, items.foldlM (ingestResult lib organizationId applicationId newId toolName) state =
      .ok next) ↔
      Acceptable lib organizationId applicationId toolName state.tenant.knows items := by
  induction items generalizing state with
  | nil => exact iff_of_true ⟨state, rfl⟩ trivial
  | cons item items ih =>
      have hknows : ∀ between, ingestResult lib organizationId applicationId newId toolName state
          item = .ok between → ∀ identity result, locate lib organizationId applicationId toolName
            item = .ok (identity, result) →
              between.tenant.knows = fun other ↦ state.tenant.knows other || identity = other := by
        intro between hbetween identity result hlocate
        funext other
        have hadvances := (ingest_result_spec state item).1 between hbetween other
        rw [scores_of_singleton hlocate] at hadvances
        rw [Tenant.knows, hadvances.is_some]
        by_cases hsame : identity = other <;> simp [hsame, Tenant.knows]
      rw [List.foldlM_cons, Acceptable]
      constructor
      · rintro ⟨next, hnext⟩
        obtain ⟨between, hitem, hrest⟩ := Checked.bind_eq_ok.mp hnext
        obtain ⟨identity, result, hlocate, hstorable⟩ :=
          (ingest_result_spec state item).2.mp ⟨between, hitem⟩
        refine ⟨identity, result, hlocate, hstorable, ?_⟩
        rw [← hknows between hitem identity result hlocate]
        exact ih.mp ⟨next, hrest⟩
      · rintro ⟨identity, result, hlocate, hstorable, hrest⟩
        obtain ⟨between, hitem⟩ :=
          (ingest_result_spec state item).2.mpr ⟨identity, result, hlocate, hstorable⟩
        rw [← hknows between hitem identity result hlocate] at hrest
        obtain ⟨next, hnext⟩ := ih.mpr hrest
        exact ⟨next, Checked.bind_eq_ok.mpr ⟨between, hitem, hnext⟩⟩

/-- The report can be read, and its results are acceptable to the tenant. -/
def Imports (lib : Library) (organizationId applicationId : Uuid) (tenant : Tenant)
    (report : SarifJson) (toolName : PyStr) (items : List Json) : Prop :=
  readReport lib report = .ok (toolName, items) ∧
    Acceptable lib organizationId applicationId toolName tenant.knows items

/-- A report that is not acceptable changes nothing. -/
theorem import_sarif_refused {report : SarifJson}
    (h : ¬ ∃ toolName items, Imports lib organizationId applicationId tenant report toolName items) :
    importSarif lib organizationId applicationId newId tenant report = tenant := by
  rw [importSarif]
  split
  · next next hnext =>
      obtain ⟨⟨toolName, items⟩, hread, hrest⟩ := Checked.bind_eq_ok.mp hnext
      obtain ⟨state, hstate, -⟩ := Checked.bind_eq_ok.mp hrest
      have hfold := exists_fold_iff.mp ⟨state, Checked.map_error_eq_ok.mp hstate⟩
      exact absurd ⟨toolName, items, hread, hfold⟩ h
  · rfl

/-- What an import makes of the findings. -/
theorem advances_import_sarif {report : SarifJson} {items : List Json}
    (h : Imports lib organizationId applicationId tenant report toolName items) (identity : PyStr) :
    Advances (tenant.standing identity)
      (scoresOf lib organizationId applicationId toolName items identity)
      ((importSarif lib organizationId applicationId newId tenant report).standing identity) := by
  obtain ⟨hread, hacceptable⟩ := h
  obtain ⟨state, hstate⟩ := (@exists_fold_iff lib organizationId applicationId newId toolName items
    ⟨tenant, 0, 0⟩).mpr hacceptable
  have hingest : ingestSarif lib organizationId applicationId newId tenant report =
      .ok (⟨toolName, items.length, state.findingsImported, state.findingsCorrelated, []⟩,
        state.tenant) :=
    Checked.bind_eq_ok.mpr ⟨_, hread, Checked.bind_eq_ok.mpr
      ⟨state, Checked.map_error_eq_ok.mpr hstate, rfl⟩⟩
  rw [importSarif, hingest]
  exact advances_of_fold hstate identity

/-- What is acceptable stays so where more is known. -/
theorem Acceptable.mono {items : List Json} {known more : PyStr → Bool}
    (hmore : ∀ identity, known identity = true → more identity = true)
    (h : Acceptable lib organizationId applicationId toolName known items) :
    Acceptable lib organizationId applicationId toolName more items := by
  induction items generalizing known more with
  | nil => trivial
  | cons item items ih =>
      obtain ⟨identity, result, hlocate, hstorable, hrest⟩ := h
      refine ⟨identity, result, hlocate, fun hnew ↦ hstorable ?_, ih (fun other ↦ ?_) hrest⟩
      · by_contra hknown
        rw [hmore identity (Bool.eq_true_of_not_eq_false hknown)] at hnew
        cases hnew
      · simp only [Bool.or_eq_true, decide_eq_true_eq]
        exact Or.imp_left (hmore other)

/-- A report that was imported can be imported once more. -/
theorem Imports.again {report : SarifJson} {items : List Json}
    (h : Imports lib organizationId applicationId tenant report toolName items)
    (first : Nat → Uuid) : Imports lib organizationId applicationId
      (importSarif lib organizationId applicationId first tenant report) report toolName items := by
  refine ⟨h.1, h.2.mono fun identity hknown ↦ ?_⟩
  rw [Tenant.knows, (advances_import_sarif h identity).is_some]
  exact Bool.or_eq_true_iff.mpr (.inl hknown)

/-! ## Once and again -/

/-- The score of the finding is as high as it can be once the results have come. -/
def Saturated : Option Standing → List ℚ → Prop
  | _, [] => True
  | some standing, _ :: more => 10 ≤ standing.riskScore + 2 * (more.length + 1)
  | none, score :: more => 10 ≤ score + 2 * more.length

/-- A new finding has a score below the highest. -/
theorem lt_of_mem_scores_of {items : List Json} {score : ℚ}
    (h : score ∈ scoresOf lib organizationId applicationId toolName items identity) :
    score < 10 := by
  obtain ⟨item, -, hscore⟩ := List.mem_filterMap.mp h
  split at hscore
  · next result _ =>
      split at hscore
      · obtain rfl := Option.some.inj hscore
        rw [SarifResult.riskScore]
        split <;> norm_num
      · cases hscore
  · cases hscore

/-- A correlation changes nothing when the score is the highest already. -/
theorem correlated_eq_self_iff {standing : Standing} {n : Nat} (hscore : standing.riskScore ≤ 10)
    (hconfidence : standing.riskScore = 10 → standing.confidence = .EXPLOITED) :
    standing.correlated (n + 1) = standing ↔ 10 ≤ standing.riskScore := by
  obtain ⟨id, confidence, score⟩ := standing
  simp only [Standing.correlated, Standing.mk.injEq, true_and] at hscore hconfidence ⊢
  constructor
  · rintro ⟨-, hsame⟩
    by_contra hlt
    have hpositive : (0 : ℚ) < 2 * (n + 1) := by positivity
    have := lt_min (not_le.mp hlt) (lt_add_of_pos_right score hpositive)
    exact absurd hsame this.ne'
  · intro hle
    obtain rfl : score = 10 := le_antisymm hscore hle
    exact ⟨(hconfidence rfl).symm, min_eq_left (le_add_of_nonneg_right (by positivity))⟩

/-- A second import leaves the finding when its score is as high as it can be. -/
theorem Advances.again_iff {before between after : Option Standing} {scores : List ℚ}
    (h : Advances before scores between) (hagain : Advances between scores after)
    (hscores : ∀ score ∈ scores, score < 10) : after = between ↔ Saturated before scores := by
  cases scores with
  | nil =>
      refine iff_of_true ?_ (by cases before <;> trivial)
      cases between with
      | none => exact hagain
      | some standing => exact hagain
  | cons score more =>
      cases before with
      | some standing =>
          obtain rfl : between = _ := h
          obtain rfl : after = _ := hagain
          rw [Option.some.injEq]
          refine (correlated_eq_self_iff (min_le_left _ _) fun _ ↦ rfl).trans ?_
          show 10 ≤ min 10 (standing.riskScore + 2 * ((more.length : ℚ) + 1)) ↔ _
          rw [le_min_iff, and_iff_right (le_refl (10 : ℚ))]
          rfl
      | none =>
          obtain ⟨id, rfl⟩ := h
          obtain rfl : after = _ := hagain
          have hscore := hscores score List.mem_cons_self
          rw [Option.some.injEq]
          cases more with
          | nil =>
              refine (correlated_eq_self_iff hscore.le fun heq ↦ absurd heq hscore.ne).trans ?_
              show 10 ≤ score ↔ 10 ≤ score + 2 * ((0 : Nat) : ℚ)
              rw [Nat.cast_zero, mul_zero, add_zero]
          | cons other more =>
              refine (correlated_eq_self_iff (min_le_left _ _) fun _ ↦ rfl).trans ?_
              show 10 ≤ min 10 (score + 2 * ((more.length : ℚ) + 1)) ↔
                10 ≤ score + 2 * ((more.length + 1 : Nat) : ℚ)
              rw [le_min_iff, and_iff_right (le_refl (10 : ℚ)), Nat.cast_add_one]

/-- A second import changes nothing when every finding of the report is as high as it can be. -/
theorem same_standings_iff (again : Nat → Uuid) (report : SarifJson) :
    SameStandings (importSarif lib organizationId applicationId again
        (importSarif lib organizationId applicationId newId tenant report) report)
      (importSarif lib organizationId applicationId newId tenant report) ↔
      ∀ toolName items, Imports lib organizationId applicationId tenant report toolName items →
        ∀ identity, Saturated (tenant.standing identity)
          (scoresOf lib organizationId applicationId toolName items identity) := by
  by_cases h : ∃ toolName items, Imports lib organizationId applicationId tenant report toolName items
  · obtain ⟨toolName, items, himports⟩ := h
    have hone : ∀ identity, _ ↔ Saturated (tenant.standing identity)
        (scoresOf lib organizationId applicationId toolName items identity) := fun identity ↦
      (advances_import_sarif himports identity).again_iff
        (@advances_import_sarif lib organizationId applicationId again toolName _ report items
          (himports.again newId) identity) fun _ ↦ lt_of_mem_scores_of
    rw [SameStandings, forall_congr' hone]
    constructor
    · intro hall toolName' items' himports'
      cases himports.1.symm.trans himports'.1
      exact hall
    · exact fun hall ↦ hall toolName items himports
  · rw [import_sarif_refused h, import_sarif_refused h]
    exact iff_of_true (fun _ ↦ rfl) fun toolName items himports ↦ absurd ⟨_, _, himports⟩ h

/-! ## What counts as exploited -/

/-- The finding came from another kind of source than the scanner of a report. -/
def OtherKind (lib : Library) (finding : Finding) : Prop :=
  lib.upper finding.sourceKind.strip ≠ EXTERNAL_SCANNER

/-- A finding that is exploited was so before, or came from another kind of source. -/
def Corroborated (lib : Library) (tenant next : Tenant) : Prop :=
  ∀ identity standing, next.standing identity = some standing → standing.confidence = .EXPLOITED →
    ∃ row, tenant.rowOf identity = some row ∧
      (row.val.confidence = .EXPLOITED ∨ OtherKind lib row.val)

/-- The results name no finding of a scanner that is not exploited, and a new one once. -/
def Unrepeated (lib : Library) : Option FindingRow → List ℚ → Prop
  | _, [] => True
  | some row, _ :: _ => row.val.confidence = .EXPLOITED ∨ OtherKind lib row.val
  | none, _ :: more => more = []

/-- What becomes exploited is what a result names beside its own finding. -/
theorem exploited_iff_unrepeated {before : Option FindingRow} {scores : List ℚ}
    {after : Option Standing}
    (h : Advances (before.map fun row ↦ ⟨row.val.id, row.val.confidence, row.val.riskScore⟩) scores
      after) :
    (∀ standing, after = some standing → standing.confidence = .EXPLOITED →
      ∃ row, before = some row ∧ (row.val.confidence = .EXPLOITED ∨ OtherKind lib row.val)) ↔
      Unrepeated lib before scores := by
  cases before with
  | some row =>
      obtain rfl : after = _ := h
      cases scores with
      | nil =>
          refine iff_of_true (fun standing hstanding hexploited ↦ ⟨row, rfl, .inl ?_⟩) trivial
          cases hstanding
          exact hexploited
      | cons score more =>
          constructor
          · intro hall
            obtain ⟨_, hrow, hkind⟩ := hall _ rfl rfl
            cases hrow
            exact hkind
          · exact fun hkind _ _ _ ↦ ⟨row, rfl, hkind⟩
  | none =>
      cases scores with
      | nil =>
          obtain rfl : after = none := h
          exact iff_of_true (fun _ hnone ↦ nomatch hnone) trivial
      | cons score more =>
          obtain ⟨id, rfl⟩ := h
          cases more with
          | nil =>
              refine iff_of_true (fun standing hstanding hexploited ↦ ?_) rfl
              cases hstanding
              cases hexploited
          | cons other more =>
              refine iff_of_false (fun hall ↦ ?_) nofun
              obtain ⟨_, hnone, -⟩ := hall _ rfl rfl
              cases hnone

/-- Nothing becomes exploited by the report alone when it names no finding twice. -/
theorem corroborated_iff (report : SarifJson) :
    Corroborated lib tenant (importSarif lib organizationId applicationId newId tenant report) ↔
      ∀ toolName items, Imports lib organizationId applicationId tenant report toolName items →
        ∀ identity, Unrepeated lib (tenant.rowOf identity)
          (scoresOf lib organizationId applicationId toolName items identity) := by
  by_cases h : ∃ toolName items, Imports lib organizationId applicationId tenant report toolName items
  · obtain ⟨toolName, items, himports⟩ := h
    rw [Corroborated, forall_congr' fun identity ↦
      exploited_iff_unrepeated (advances_import_sarif himports identity)]
    constructor
    · intro hall toolName' items' himports'
      cases himports.1.symm.trans himports'.1
      exact hall
    · exact fun hall ↦ hall toolName items himports
  · rw [import_sarif_refused h]
    refine iff_of_true (fun identity standing hstanding hexploited ↦ ?_)
      fun toolName items himports ↦ absurd ⟨_, _, himports⟩ h
    obtain ⟨row, hrow, rfl⟩ := Option.map_eq_some_iff.mp hstanding
    exact ⟨row, hrow, .inl hexploited⟩

/-! ## What an identity keeps of a result -/

/-- Words behind the start of one. -/
theorem exists_join_split_from {word : PyStr} (hword : word ≠ []) (s : PyStr) :
    ∃ more, PyStr.join (py " ") (PyStr.splitFrom word s) = word ++ more := by
  induction s generalizing word with
  | nil => exact ⟨[], by rw [PyStr.splitFrom, if_neg (by simpa using hword), List.append_nil]; rfl⟩
  | cons c rest ih =>
      rw [PyStr.splitFrom, if_neg (show ¬ word.isEmpty = true by simpa using hword)]
      split
      · cases PyStr.splitFrom [] rest with
        | nil => exact ⟨[], (List.append_nil _).symm⟩
        | cons next parts =>
            exact ⟨py " " ++ PyStr.join (py " ") (next :: parts), List.append_assoc _ _ _⟩
      · obtain ⟨more, hmore⟩ := ih (List.append_ne_nil_of_left_ne_nil hword [c])
        exact ⟨c :: more, hmore.trans (List.append_assoc _ _ _)⟩

/-- Characters that are no white space belong to one word. -/
theorem split_from_append {start : PyStr} (hstart : ∀ c ∈ start, PyStr.isSpace c = false)
    (word s : PyStr) : PyStr.splitFrom word (start ++ s) = PyStr.splitFrom (word ++ start) s := by
  induction start generalizing word with
  | nil => rw [List.nil_append, List.append_nil]
  | cons c rest ih =>
      obtain ⟨hc, hrest⟩ := List.forall_mem_cons.mp hstart
      rw [List.cons_append, PyStr.splitFrom, if_neg (by rw [hc]; exact Bool.false_ne_true), ih hrest,
        List.append_assoc, List.singleton_append]

/-- Of the signature of a result only its scheme is left. -/
theorem normalize_signature_sarif (lib : Library) (rest : PyStr) :
    normalizeSignature lib (py "sarif:" ++ rest) = py "sarif" := by
  obtain ⟨more, hmore⟩ := exists_join_split_from (show py "sarif:" ≠ [] by decide) rest
  obtain ⟨hspaces, hscheme, hascii, hplain⟩ :
      (py "sarif:").all (fun c ↦ PyStr.isSpace c == false) = true ∧
        (py "sarif").all (fun c ↦ c != 58) = true ∧ (py "sarif").all (fun c ↦ c.val < 128) = true ∧
          PyStr.strip (py "sarif") = py "sarif" ∧ (py "sarif").map asciiLower = py "sarif" := by
    decide +kernel
  have hword : ∀ c ∈ py "sarif:", PyStr.isSpace c = false :=
    fun c hc ↦ eq_of_beq (List.all_eq_true.mp hspaces c hc)
  have hjoin : PyStr.join (py " ") (py "sarif:" ++ rest).split = py "sarif" ++ 58 :: more := by
    rw [PyStr.split, split_from_append hword, List.nil_append, hmore]
    rfl
  have hbefore : PyStr.before 58 (py "sarif" ++ 58 :: more) = py "sarif" := by
    rw [PyStr.before, List.takeWhile_append_of_pos (List.all_eq_true.mp hscheme),
      List.takeWhile_cons_of_neg (by decide), List.append_nil]
  show lib.lower (PyStr.before 58 (PyStr.join (py " ") (py "sarif:" ++ rest).split)).strip = _
  rw [hjoin, hbefore, hplain.1,
    lib.lower_ascii _ fun c hc ↦ of_decide_eq_true (List.all_eq_true.mp hascii c hc), hplain.2]

/-- A rule key is as it should be. -/
theorem lower_rule_key (lib : Library) (ruleId : PyStr) :
    lib.lower (normalizeRuleKey ruleId).strip = normalizeRuleKey ruleId := by
  obtain ⟨-, ⟨hascii, hlower⟩, -⟩ := rule_key_spec ruleId
  rw [lib.lower_ascii _ fun c hc ↦ of_decide_eq_true (List.all_eq_true.mp hascii c hc), hlower]

/-- So is the kind of an external source. -/
theorem upper_external_scanner (lib : Library) :
    lib.upper (PyStr.strip EXTERNAL_SCANNER) = EXTERNAL_SCANNER := by
  obtain ⟨-, hascii, hupper⟩ := external_scanner_spec
  rw [lib.upper_ascii _ fun c hc ↦ of_decide_eq_true (List.all_eq_true.mp hascii c hc), hupper]

/-- The text whose digest is the identity of a result. -/
def SarifResult.text (lib : Library) (organizationId applicationId : Uuid) (toolName : PyStr)
    (result : SarifResult) : PyStr :=
  PyStr.join [SEPARATOR] (identityParts lib organizationId applicationId (result.ruleKey lib)
    (result.sinkSignature lib toolName) EXTERNAL_SCANNER result.stackHash)

/-- SHA-256 tells the texts of two results apart. -/
def SarifResult.NoCollision (lib : Library) (organizationId applicationId : Uuid)
    (toolName toolName' : PyStr) (result result' : SarifResult) : Prop :=
  Set.InjOn lib.sha256
    {data | (result.text lib organizationId applicationId toolName).encode = .ok data ∨
      (result'.text lib organizationId applicationId toolName').encode = .ok data}

/-- The text of a result has its rule key and the start of its URI, and nothing else of it. -/
theorem text_result (toolName : PyStr) (result : SarifResult) :
    result.text lib organizationId applicationId toolName =
      organizationId.toStr ++ SEPARATOR :: (applicationId.toStr ++ SEPARATOR ::
        (result.ruleKey lib ++ SEPARATOR :: (py "sarif" ++ SEPARATOR ::
          (EXTERNAL_SCANNER ++ SEPARATOR :: result.stackHash)))) := by
  have hsignature : normalizeSignature lib (result.sinkSignature lib toolName) = py "sarif" := by
    rw [SarifResult.sinkSignature, List.append_assoc, List.append_assoc]
    exact normalize_signature_sarif lib _
  have hrule : lib.lower (result.ruleKey lib).strip = result.ruleKey lib := lower_rule_key lib _
  simp only [SarifResult.text, identityParts, hsignature, hrule, upper_external_scanner, PyStr.join,
    List.append_assoc, List.cons_append, List.nil_append]

/-- The texts of two results differ in their rule keys or the starts of their URIs. -/
theorem text_result_eq_iff {toolName toolName' : PyStr} {result result' : SarifResult} :
    result.text lib organizationId applicationId toolName =
      result'.text lib organizationId applicationId toolName' ↔
        result.ruleKey lib = result'.ruleKey lib ∧ result.stackHash = result'.stackHash := by
  have hrule : (result.ruleKey lib).count SEPARATOR = (result'.ruleKey lib).count SEPARATOR :=
    (rule_key_spec _).2.2.trans (rule_key_spec _).2.2.symm
  rw [text_result, text_result, append_separator_inj rfl, append_separator_inj rfl,
    append_separator_inj hrule, append_separator_inj rfl, append_separator_inj rfl]
  simp only [true_and]

/-- A result has an identity when the start of its URI can be encoded. -/
theorem identity_result_eq_ok_iff {toolName identity : PyStr} {result : SarifResult} :
    result.identity lib toolName organizationId applicationId = .ok identity ↔
      ∃ data, (result.text lib organizationId applicationId toolName).encode = .ok data ∧
        lib.hexdigest data = identity := by
  constructor
  · intro h
    obtain ⟨data, hdata, hidentity⟩ := Checked.bind_eq_ok.mp h
    exact ⟨data, hdata, Except.ok.inj hidentity⟩
  · rintro ⟨data, hdata, rfl⟩
    exact Checked.bind_eq_ok.mpr ⟨data, hdata, rfl⟩

/-- Two results that differ become two findings. -/
def Separated (lib : Library) (organizationId applicationId : Uuid) (toolName toolName' : PyStr)
    (result result' : SarifResult) : Prop :=
  (toolName, result.ruleId, result.uri) ≠ (toolName', result'.ruleId, result'.uri) →
    ∀ identity, ¬ (result.identity lib toolName organizationId applicationId = .ok identity ∧
      result'.identity lib toolName' organizationId applicationId = .ok identity)

/-- They do when their rule keys or the starts of their URIs differ. -/
theorem separated_iff {toolName toolName' : PyStr} {result result' : SarifResult}
    (hsha : result.NoCollision lib organizationId applicationId toolName toolName' result') :
    Separated lib organizationId applicationId toolName toolName' result result' ↔
      (toolName, result.ruleId, result.uri) ≠ (toolName', result'.ruleId, result'.uri) →
        result.ruleKey lib ≠ result'.ruleKey lib ∨ result.stackHash ≠ result'.stackHash ∨
          ¬ PyStr.Encodable (result.text lib organizationId applicationId toolName) := by
  refine imp_congr_right fun _ ↦ ?_
  rw [← or_assoc, ← not_and_or, ← text_result_eq_iff, ← PyStr.exists_encode_iff]
  constructor
  · intro hapart
    by_contra hsame
    rw [not_or, not_not, not_not] at hsame
    obtain ⟨htext, data, hdata⟩ := hsame
    exact hapart _ ⟨identity_result_eq_ok_iff.mpr ⟨data, hdata, rfl⟩,
      identity_result_eq_ok_iff.mpr ⟨data, htext ▸ hdata, rfl⟩⟩
  · rintro hdiffer identity ⟨hidentity, hidentity'⟩
    obtain ⟨data, hdata, rfl⟩ := identity_result_eq_ok_iff.mp hidentity
    obtain ⟨data', hdata', hdigest⟩ := identity_result_eq_ok_iff.mp hidentity'
    have hsame := hsha (.inl hdata) (.inr hdata') (Library.hexdigest_inj.mp hdigest.symm)
    rw [← hsame] at hdata'
    rcases hdiffer with htext | hencode
    · exact htext (Utf8.encode_injective hdata hdata')
    · exact hencode ⟨data, hdata⟩

end Import

/-! ## Imports in every state -/

/-- Importing a report a second time changes nothing exactly when it was refused, or the scores of
its findings are the highest; a finding becomes exploited by it alone unless it names no finding of
a scanner and none twice; and two results become two findings exactly when their rule keys or the
starts of their URIs differ. -/
theorem sarif_import_exact (lib : Library) (organizationId applicationId : Uuid)
    (newId again : Nat → Uuid) (tenant : Tenant) (report : SarifJson) (toolName toolName' : PyStr)
    (result result' : SarifResult)
    (hsha : result.NoCollision lib organizationId applicationId toolName toolName' result') :
    (SameStandings (importSarif lib organizationId applicationId again
          (importSarif lib organizationId applicationId newId tenant report) report)
        (importSarif lib organizationId applicationId newId tenant report) ↔
      ∀ toolName items, Imports lib organizationId applicationId tenant report toolName items →
        ∀ identity, Saturated (tenant.standing identity)
          (scoresOf lib organizationId applicationId toolName items identity)) ∧
      (Corroborated lib tenant (importSarif lib organizationId applicationId newId tenant report) ↔
        ∀ toolName items, Imports lib organizationId applicationId tenant report toolName items →
          ∀ identity, Unrepeated lib (tenant.rowOf identity)
            (scoresOf lib organizationId applicationId toolName items identity)) ∧
      (Separated lib organizationId applicationId toolName toolName' result result' ↔
        (toolName, result.ruleId, result.uri) ≠ (toolName', result'.ruleId, result'.uri) →
          result.ruleKey lib ≠ result'.ruleKey lib ∨ result.stackHash ≠ result'.stackHash ∨
            ¬ PyStr.Encodable (result.text lib organizationId applicationId toolName)) :=
  ⟨same_standings_iff again report, corroborated_iff report, separated_iff hsha⟩

/-- A result of a rule in a file, as a scanner reports it. -/
def sarifItem (ruleId uri : String) : Json :=
  .object [(py "ruleId", .str (py ruleId)),
    (py "message", .object [(py "text", .str (py "found"))]),
    (py "locations", .list [.object [(py "physicalLocation", .object
      [(py "artifactLocation", .object [(py "uri", .str (py uri))])])]])]

/-- A report of these results. -/
def sarifReport (items : List Json) : SarifJson :=
  .data (.object [(py "version", .str (py "2.1.0")),
    (py "runs", .list [.object
      [(py "tool", .object [(py "driver", .object [(py "name", .str (py "scanner"))])]),
        (py "results", .list items)]])])

/-- What is read of a result of a rule in a file. -/
def sarifResult (ruleId uri : String) : SarifResult :=
  ⟨py ruleId, py "warning", py "found", py uri⟩

/-- Two results of one text have one digest to take. -/
theorem no_collision_of_text_result_eq {lib : Library} {organizationId applicationId : Uuid}
    {toolName toolName' : PyStr} {result result' : SarifResult}
    (h : result.text lib organizationId applicationId toolName =
      result'.text lib organizationId applicationId toolName') :
    result.NoCollision lib organizationId applicationId toolName toolName' result' := by
  intro data hdata data' hdata' _
  rw [Set.mem_ofPred_eq, ← h, or_self] at hdata hdata'
  exact Except.ok.inj (hdata.symm.trans hdata')

/-- Two rules that say `sql`, in one file: one identity, one text, and a score that two imports of
both raise twice. -/
theorem two_rules_spec :
    ((sarifResult "sqli" "a.py").identity plainLibrary (py "scanner") 1 2 =
          .ok (plainLibrary.hexdigest []) ∧
        (sarifResult "sql" "a.py").identity plainLibrary (py "scanner") 1 2 =
          .ok (plainLibrary.hexdigest [])) ∧
      (sarifResult "sqli" "a.py").text plainLibrary 1 2 (py "scanner") =
        (sarifResult "sql" "a.py").text plainLibrary 1 2 (py "scanner") ∧
      (sarifResult "sqli" "a.py").text plainLibrary 1 2 (py "scanner") =
        (sarifResult "sql" "a.py").text plainLibrary 1 2 (py "linter") ∧
      (py "scanner", (sarifResult "sqli" "a.py").ruleId, (sarifResult "sqli" "a.py").uri) ≠
        (py "scanner", (sarifResult "sql" "a.py").ruleId, (sarifResult "sql" "a.py").uri) ∧
      (importSarif plainLibrary 1 2 (fun _ ↦ 4)
        (importSarif plainLibrary 1 2 (fun _ ↦ 3) (.fresh [])
          (sarifReport [sarifItem "sqli" "a.py", sarifItem "sql" "a.py"]))
        (sarifReport [sarifItem "sqli" "a.py", sarifItem "sql" "a.py"])).standing
          (plainLibrary.hexdigest []) = some ⟨3, .EXPLOITED, 10⟩ ∧
      (importSarif plainLibrary 1 2 (fun _ ↦ 3) (.fresh [])
        (sarifReport [sarifItem "sqli" "a.py", sarifItem "sql" "a.py"])).standing
          (plainLibrary.hexdigest []) = some ⟨3, .EXPLOITED, 7⟩ := by
  decide +kernel

/-- A report of one result, imported by an organization without findings. -/
theorem sarif_import_exact_single :
    (SameStandings (importSarif plainLibrary 1 2 (fun _ ↦ 4)
          (importSarif plainLibrary 1 2 (fun _ ↦ 3) (.fresh []) (sarifReport [sarifItem "sqli" "a.py"]))
          (sarifReport [sarifItem "sqli" "a.py"]))
        (importSarif plainLibrary 1 2 (fun _ ↦ 3) (.fresh []) (sarifReport [sarifItem "sqli" "a.py"])) ↔
      ∀ toolName items, Imports plainLibrary 1 2 (.fresh []) (sarifReport [sarifItem "sqli" "a.py"])
          toolName items → ∀ identity, Saturated (Tenant.standing (.fresh []) identity)
            (scoresOf plainLibrary 1 2 toolName items identity)) ∧
      (Corroborated plainLibrary (.fresh []) (importSarif plainLibrary 1 2 (fun _ ↦ 3) (.fresh [])
          (sarifReport [sarifItem "sqli" "a.py"])) ↔
        ∀ toolName items, Imports plainLibrary 1 2 (.fresh [])
          (sarifReport [sarifItem "sqli" "a.py"]) toolName items → ∀ identity,
            Unrepeated plainLibrary (Tenant.rowOf (.fresh []) identity)
              (scoresOf plainLibrary 1 2 toolName items identity)) ∧
      (Separated plainLibrary 1 2 (py "scanner") (py "linter") (sarifResult "sqli" "a.py")
          (sarifResult "sql" "a.py") ↔
        (py "scanner", py "sqli", py "a.py") ≠ (py "linter", py "sql", py "a.py") →
          (sarifResult "sqli" "a.py").ruleKey plainLibrary ≠
              (sarifResult "sql" "a.py").ruleKey plainLibrary ∨
            (sarifResult "sqli" "a.py").stackHash ≠ (sarifResult "sql" "a.py").stackHash ∨
              ¬ PyStr.Encodable ((sarifResult "sqli" "a.py").text plainLibrary 1 2 (py "scanner"))) :=
  sarif_import_exact plainLibrary 1 2 (fun _ ↦ 3) (fun _ ↦ 4) (.fresh [])
    (sarifReport [sarifItem "sqli" "a.py"]) (py "scanner") (py "linter") (sarifResult "sqli" "a.py")
    (sarifResult "sql" "a.py") (no_collision_of_text_result_eq two_rules_spec.2.2.1)

/-- A report with two results of two rules in one file: they become one finding, which is exploited
at once, and a second import raises its score. -/
theorem sarif_import_repeats :
    ¬ SameStandings (importSarif plainLibrary 1 2 (fun _ ↦ 4)
          (importSarif plainLibrary 1 2 (fun _ ↦ 3) (.fresh [])
            (sarifReport [sarifItem "sqli" "a.py", sarifItem "sql" "a.py"]))
          (sarifReport [sarifItem "sqli" "a.py", sarifItem "sql" "a.py"]))
        (importSarif plainLibrary 1 2 (fun _ ↦ 3) (.fresh [])
          (sarifReport [sarifItem "sqli" "a.py", sarifItem "sql" "a.py"])) ∧
      ¬ Corroborated plainLibrary (.fresh []) (importSarif plainLibrary 1 2 (fun _ ↦ 3) (.fresh [])
          (sarifReport [sarifItem "sqli" "a.py", sarifItem "sql" "a.py"])) ∧
      ¬ (∀ result result' : SarifResult,
          result.NoCollision plainLibrary 1 2 (py "scanner") (py "scanner") result' →
            Separated plainLibrary 1 2 (py "scanner") (py "scanner") result result') := by
  obtain ⟨⟨hidentity, hsame⟩, htext, -, hdiffer, hraised, hexploited⟩ := two_rules_spec
  refine ⟨fun h ↦ ?_, fun h ↦ ?_, fun h ↦ ?_⟩
  · have hstanding := h (plainLibrary.hexdigest [])
    rw [hraised, hexploited, Option.some.injEq, Standing.mk.injEq] at hstanding
    exact absurd hstanding.2.2 (by norm_num)
  · obtain ⟨row, hrow, -⟩ := h _ _ hexploited rfl
    cases hrow
  · exact h _ _ (no_collision_of_text_result_eq htext) hdiffer _ ⟨hidentity, hsame⟩

end Aegis.Api
