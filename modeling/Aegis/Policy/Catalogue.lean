import Aegis.Api.Accounting
import Aegis.Lib.Checked
import Aegis.Inventory.Configuration
import Aegis.Policy.Rules
import Aegis.Worker.Loop

/-!
# One rule catalogue

Three components decide which rules are live: the list of rules reads the installed bundle and the
opt-outs of the organization, the configuration of an agent the settings of the organization, and
the worker a table of its own.
-/

namespace Aegis.Policy

open Server Access Api Inventory Transaction Keyset Worker

variable {lib : Library}

/-! ## What each component takes for live -/

/-- The rules an organization is shown as enabled. -/
def enabledKeys (views : List (RuleView lib)) : Set PyStr :=
  {key | ∃ view ∈ views, view.enabled = true ∧ view.rule.key = key}

/-- The rules a configuration enables. -/
def deliveredKeys (configuration : AgentConfiguration) : Set PyStr :=
  {key | .str key ∈ configuration.enabledRules}

/-- The rule key of an event. -/
def ruleKeyOf (lib : Library) (record : JsonObject) : PyStr :=
  match dictGet record (py "payload") with
  | .object payload => lib.lower ((dictGet payload (py "rule_key")).strOr lib).strip
  | _ => []

/-- One finding has one more sighting. -/
def Sighted (before after : Batch) : Prop :=
  ∃ identity, ∀ other, after.tenant.sightings other =
    before.tenant.sightings other + if other = identity then 1 else 0

/-- The rules of which the worker turns a hit into a finding: it adds a sighting to one, or the
transaction fails, and it neither rejects the hit nor ignores it. -/
def foldedKeys (pipeline : ProcessRuntimeEvents) (organizationId : Uuid) (tenant : Tenant) :
    Set PyStr :=
  {key | ∃ record, ruleKeyOf pipeline.library record = key ∧
    ∀ b : Batch, b.Coherent pipeline.library → b.tenant = tenant →
      Prog.Ends (pipeline.apply organizationId record) b (fun _ after ↦ Sighted b after)
        fun failure _ ↦ failure.Raised}

/-! ## What they are -/

/-- The list of rules shows the rules of the catalogue that are not switched off. -/
theorem enabled_keys_list {store : PolicyStore lib} {principal : Principal}
    {views : List (RuleView lib)} (h : ListRules.execute store principal = .ok views) :
    enabledKeys views = {key | key ∈ store.catalogue.keys ∧
      (store.settingsOf principal.organizationId).isEnabled key = true} := by
  obtain ⟨_, -, h⟩ := Checked.bind_eq_ok.mp h
  obtain rfl := Except.ok.inj h
  ext key
  simp only [enabledKeys, List.mem_map, (ordered_perm _ _).mem_iff, RuleBundle.keys,
    PolicyStore.view, Set.mem_ofPred_eq]
  constructor
  · rintro ⟨view, ⟨rule, hrule, rfl⟩, henabled, rfl⟩
    exact ⟨⟨rule, hrule, rfl⟩, henabled⟩
  · rintro ⟨⟨rule, hrule, rfl⟩, henabled⟩
    exact ⟨_, ⟨rule, hrule, rfl⟩, henabled, rfl⟩

/-- A hit of a rule of the table is folded. -/
theorem folded_of_known {pipeline : ProcessRuntimeEvents} {organizationId : Uuid} {tenant : Tenant}
    {record : JsonObject} {hit : Hit} (h : admitted pipeline.library tenant record = some hit)
    {b : Batch} (hcoherent : b.Coherent pipeline.library) (htenant : b.tenant = tenant) :
    Prog.Ends (pipeline.apply organizationId record) b (fun _ after ↦ Sighted b after)
      fun failure _ ↦ failure.Raised := by
  subst htenant
  have htype : isTaintHit record = true := by
    by_contra htype
    rw [admitted, if_neg fun hboth ↦ htype hboth.1] at h
    cases h
  unfold ProcessRuntimeEvents.apply
  rw [if_pos htype]
  refine Prog.ends_bind fun faults ↦ ?_
  rcases admit_hit_cases hcoherent htype faults with
    ⟨contexts, rest, -, -, ⟨hit', hadmitted, hends⟩ | ⟨rejection, hadmitted, hends⟩⟩ |
      ⟨-, rest, hends⟩
  · rw [hends]
    refine ⟨fun _ heq ↦ ?_, fun _ heq ↦ (nomatch heq)⟩
    cases heq
    refine ends_fold_hit.mono (fun _ after hfolded ↦ ?_) fun _ _ hraised ↦ hraised
    obtain ⟨identity, _, -, hfolded⟩ := hfolded
    exact ⟨identity, hfolded.sightings⟩
  · cases h.symm.trans hadmitted
  · rw [hends]
    refine ⟨fun _ heq ↦ (nomatch heq), fun _ heq ↦ ?_⟩
    cases heq
    exact ⟨_, rfl⟩

/-- A hit of any other rule is rejected, or what has its key is no hit. -/
theorem not_sighted_of_unknown {pipeline : ProcessRuntimeEvents} {organizationId : Uuid}
    {record : JsonObject} {b : Batch} (hcoherent : b.Coherent pipeline.library)
    (h : admitted pipeline.library b.tenant record = none) :
    ¬ Prog.Ends (pipeline.apply organizationId record) b (fun _ after ↦ Sighted b after)
      fun failure _ ↦ failure.Raised := by
  intro hends
  obtain ⟨hreturns, hraises⟩ := hends []
  unfold ProcessRuntimeEvents.apply at hreturns hraises
  split_ifs at hreturns hraises with htype
  · rcases admit_hit_cases hcoherent htype [] with
      ⟨contexts, rest, -, -, ⟨hit, hadmitted, -⟩ | ⟨rejection, -, hrejected⟩⟩ | ⟨hfaults, -⟩
    · cases h.symm.trans hadmitted
    · obtain ⟨_, hraised⟩ := hraises (.rejected rejection) (by
        rw [Prog.bind_of_error hrejected])
      cases hraised
    · exact hfaults rfl
  · obtain ⟨identity, hsighted⟩ := hreturns .unit rfl
    have hone := hsighted identity
    rw [if_pos rfl] at hone
    exact absurd hone (Nat.ne_of_lt (Nat.lt_succ_self _))

/-- A hit of a rule, by an agent. -/
def hitOf (agentId ruleKey : PyStr) : JsonObject :=
  [(py "type", .str (py "EVENT_TYPE_TAINT_HIT")), (py "agent_id", .str agentId),
    (py "payload", .object [(py "sink_signature", .str []), (py "rule_key", .str ruleKey)])]

/-- The key of the rule is read as it is when it is plain. -/
theorem rule_key_of_hit (agentId : PyStr) {ruleKey : PyStr} (h : PlainKey ruleKey) :
    ruleKeyOf lib (hitOf agentId ruleKey) = ruleKey := by
  have hread : (Json.str ruleKey).strOr lib = ruleKey := by
    rw [Json.strOr, Json.truthy, List.isEmpty_eq_false_iff.mpr h.1.1]
    rfl
  show lib.lower (PyStr.strip ((Json.str ruleKey).strOr lib)) = ruleKey
  rw [hread, h.lower]

/-- A hit that is admitted is of a rule of the table. -/
theorem rule_key_of_admitted {tenant : Tenant} {record : JsonObject} {hit : Hit}
    (h : admitted lib tenant record = some hit) :
    ruleKeyOf lib record ∈ TITLE_BY_RULE.map Prod.fst := by
  unfold admitted at h
  dsimp only at h
  split at h
  · obtain ⟨context, -, hhit⟩ := Option.bind_eq_some_iff.mp h
    unfold ruleKeyOf
    cases hpayload : dictGet record (py "payload") with
    | object payload =>
        rw [hpayload] at hhit
        by_contra hunknown
        unfold hitIn at hhit
        dsimp only at hhit
        rw [if_pos (lookup_is_none_iff.mpr hunknown), ite_self] at hhit
        cases hhit
    | _ =>
        rw [hpayload] at hhit
        cases hhit
  · cases h

/-- A hit of a rule of the table, by a registered agent, is admitted. -/
theorem admitted_hit_of {tenant : Tenant} {agentId ruleKey : PyStr} {context : AgentContext}
    (hagent : agentId ≠ []) (hcontext : contextFor lib tenant agentId = some context)
    (hplain : PlainKey ruleKey) (hknown : ruleKey ∈ TITLE_BY_RULE.map Prod.fst) :
    ∃ hit, admitted lib tenant (hitOf agentId ruleKey) = some hit := by
  have hread : (Json.str agentId).strOr lib = agentId := by
    rw [Json.strOr, Json.truthy, List.isEmpty_eq_false_iff.mpr hagent]
    rfl
  have hlookup : (TITLE_BY_RULE.lookup ruleKey).isNone = false :=
    Bool.eq_false_iff.mpr fun hnone ↦ lookup_is_none_iff.mp hnone hknown
  let payload : JsonObject := [(py "sink_signature", .str []), (py "rule_key", .str ruleKey)]
  have hagentId : (dictGet (hitOf agentId ruleKey) (py "agent_id")).strOr lib = agentId := hread
  have hkey : lib.lower ((dictGet payload (py "rule_key")).strOr lib).strip = ruleKey :=
    rule_key_of_hit agentId hplain
  have hsink : (payload.lookup (py "sink_signature")).isNone = false := rfl
  refine ⟨⟨context, payload, ruleKey⟩, ?_⟩
  unfold admitted
  dsimp only
  rw [hagentId, if_pos ⟨rfl, List.isEmpty_eq_false_iff.mpr hagent⟩, hcontext]
  show hitIn lib context (.object payload) = some _
  unfold hitIn
  dsimp only
  rw [hsink, hkey, hlookup]
  rfl

/-- The rules of the table are plain. -/
theorem plain_title_keys : ∀ ruleKey ∈ TITLE_BY_RULE.map Prod.fst, PlainKey ruleKey := by
  decide +kernel

/-- The worker folds the hits of the rules of its table. -/
theorem folded_keys_eq {pipeline : ProcessRuntimeEvents} (organizationId : Uuid) {tenant : Tenant}
    (h : ∃ agentId ≠ [], (contextFor pipeline.library tenant agentId).isSome = true) :
    foldedKeys pipeline organizationId tenant = {key | key ∈ TITLE_BY_RULE.map Prod.fst} := by
  obtain ⟨agentId, hagent, hregistered⟩ := h
  obtain ⟨context, hcontext⟩ := Option.isSome_iff_exists.mp hregistered
  ext key
  simp only [foldedKeys, Set.mem_ofPred_eq]
  constructor
  · rintro ⟨record, rfl, hends⟩
    have hcoherent : Batch.Coherent pipeline.library ⟨tenant, [], .initial, [], 0⟩ :=
      fun _ _ hlookup ↦ nomatch hlookup
    by_contra hunknown
    refine not_sighted_of_unknown hcoherent ?_ (hends _ hcoherent rfl)
    exact Option.eq_none_iff_forall_ne_some.mpr fun hit hhit ↦
      hunknown (rule_key_of_admitted hhit)
  · intro hknown
    have hplain := plain_title_keys key hknown
    obtain ⟨hit, hadmitted⟩ := admitted_hit_of hagent hcontext hplain hknown
    exact ⟨hitOf agentId key, rule_key_of_hit agentId hplain,
      fun b hcoherent htenant ↦ folded_of_known hadmitted hcoherent htenant⟩

/-! ## Agreement -/

/-- The list of rules, the configuration and the worker take the same rules for live. -/
structure OneCatalogue (views : List (RuleView lib)) (delivered : AgentConfiguration)
    (folded : Set PyStr) : Prop where
  shown : enabledKeys views = deliveredKeys delivered
  reported : deliveredKeys delivered = folded

/-- The catalogue has all rules of the worker's table, the organization has none of them switched
off, and it has every other rule switched off. -/
structure KeepsTable (store : PolicyStore lib) (organizationId : Uuid) : Prop where
  live : ∀ key ∈ TITLE_BY_RULE.map Prod.fst, key ∈ store.catalogue.keys ∧
    (store.settingsOf organizationId).isEnabled key = true
  other : ∀ key ∈ store.catalogue.keys, (store.settingsOf organizationId).isEnabled key = true →
    key ∈ TITLE_BY_RULE.map Prod.fst

/-- The settings name the rules of the worker's table themselves, and no others. -/
def NamesTable (settings : JsonObject) : Prop :=
  ∃ value items, settings.lookup (py "enabled_rules") = some value ∧ toList value = .ok items ∧
    ∀ key, .str key ∈ items ↔ key ∈ TITLE_BY_RULE.map Prod.fst

/-- The default of the settings names a rule that the worker has no title for. -/
theorem names_table_iff {settings : JsonObject} {rules : List Json}
    (h : enabledRules settings = .ok rules) :
    NamesTable settings ↔ ∀ key, .str key ∈ rules ↔ key ∈ TITLE_BY_RULE.map Prod.fst := by
  unfold enabledRules dictGetD at h
  unfold NamesTable
  cases hlookup : settings.lookup (py "enabled_rules") with
  | none =>
      rw [hlookup] at h
      obtain rfl := Except.ok.inj h
      refine iff_of_false (fun ⟨_, _, hsome, _⟩ ↦ nomatch hsome) fun hsame ↦ ?_
      have hweak : Json.str (py "weak-cryptography") ∈ DEFAULT_ENABLED_RULES.map Json.str :=
        List.mem_map_of_mem (by decide +kernel)
      exact absurd ((hsame _).mp hweak) (by decide +kernel)
  | some value =>
      rw [hlookup] at h
      constructor
      · rintro ⟨_, items, hvalue, hitems, hsame⟩
        obtain rfl := Option.some.inj hvalue
        obtain rfl := Except.ok.inj (h.symm.trans hitems)
        exact hsame
      · exact fun hsame ↦ ⟨value, rules, rfl, h, hsame⟩

/-- The three components agree exactly when the installed rules that are not switched off, and those
the settings of the organization name, are those of the worker's table. -/
theorem one_catalogue_iff {pipeline : ProcessRuntimeEvents} {floats : Floats}
    {store : PolicyStore pipeline.library} {principal agentPrincipal : Principal}
    {views : List (RuleView pipeline.library)} {db : Database} {agent : Agent}
    {environment : ApplicationEnvironment} {delivered : AgentConfiguration} {tenant : Tenant}
    (hlist : ListRules.execute store principal = .ok views)
    (hserves : GetAgentConfiguration.Serves agentPrincipal db agent environment)
    (hdelivered : (run (GetAgentConfiguration.execute pipeline.library floats agentPrincipal) []
      db).1.2 = .ok delivered)
    (hagent : ∃ agentId ≠ [], (contextFor pipeline.library tenant agentId).isSome = true) :
    OneCatalogue views delivered (foldedKeys pipeline principal.organizationId tenant) ↔
      KeepsTable store principal.organizationId ∧
        NamesTable (GetAgentConfiguration.settingsOf agentPrincipal db) := by
  rw [GetAgentConfiguration.run_eq_ok_iff hserves] at hdelivered
  have hrules : enabledRules (GetAgentConfiguration.settingsOf agentPrincipal db) =
      .ok delivered.enabledRules := by
    obtain ⟨extra, length, budget, rules, -, -, -, hrules, rfl⟩ :=
      GetAgentConfiguration.configuration_eq_ok hdelivered
    exact hrules
  rw [names_table_iff hrules]
  have hfold : foldedKeys pipeline principal.organizationId tenant = _ := folded_keys_eq _ hagent
  constructor
  · rintro ⟨hshown, hreported⟩
    rw [hfold] at hreported
    have hkeys := hshown.trans hreported
    rw [enabled_keys_list hlist] at hkeys
    have hlive : ∀ key, key ∈ store.catalogue.keys ∧
        (store.settingsOf principal.organizationId).isEnabled key = true ↔
          key ∈ TITLE_BY_RULE.map Prod.fst := Set.ext_iff.mp hkeys
    exact ⟨⟨fun key hkey ↦ (hlive key).mpr hkey, fun key hkey hon ↦ (hlive key).mp ⟨hkey, hon⟩⟩,
      fun key ↦ Set.ext_iff.mp hreported key⟩
  · rintro ⟨hkeeps, hnames⟩
    have hreported : deliveredKeys delivered = {key | key ∈ TITLE_BY_RULE.map Prod.fst} :=
      Set.ext hnames
    refine ⟨?_, hreported.trans hfold.symm⟩
    rw [enabled_keys_list hlist, hreported]
    ext key
    exact ⟨fun h ↦ hkeeps.other key h.1 h.2, fun h ↦ hkeeps.live key h⟩

/-! ## A rule that is switched off -/

open GetAgentConfiguration (withSettings agentPrincipal plainFloats run_eq_ok_iff
  serves_with_settings)

/-- No bundle is installed, and organization 1 has some rules switched off. -/
def optedOut (disabled : List (PyStr × PyStr)) : PolicyStore plainLibrary :=
  ⟨[], fun id ↦ if id = 1 then some ⟨1, disabled⟩ else none, []⟩

/-- The organization names the rules of the table in its settings. -/
def namingTable : JsonObject :=
  [(py "enabled_rules", .list (TITLE_BY_RULE.map fun entry ↦ .str entry.1))]

/-- The tenant of the worker has an agent. -/
theorem registered_example :
    ∃ agentId ≠ [], (contextFor plainLibrary (.fresh [(2, exampleContext)]) agentId).isSome = true :=
  ⟨py "00000000000000000000000000000002", by decide, by decide +kernel⟩

/-- The organization has switched SQL injection off, and is shown it so; its agents are to detect
it, and the worker makes findings of its hits. -/
theorem opted_out_rule_is_live :
    ∃ views delivered,
      ListRules.execute (optedOut [(py "sql-injection", py "not used")]) ownerPrincipal =
        .ok views ∧
      (run (GetAgentConfiguration.execute plainLibrary plainFloats agentPrincipal) []
        (withSettings [])).1.2 = .ok delivered ∧
      py "sql-injection" ∉ enabledKeys views ∧ py "sql-injection" ∈ deliveredKeys delivered ∧
      py "sql-injection" ∈ foldedKeys examplePipeline 1 (.fresh [(2, exampleContext)]) ∧
      ¬ OneCatalogue views delivered
        (foldedKeys examplePipeline 1 (.fresh [(2, exampleContext)])) := by
  obtain ⟨views, hviews⟩ : ∃ views, ListRules.execute
      (optedOut [(py "sql-injection", py "not used")]) ownerPrincipal = .ok views := ⟨_, rfl⟩
  have hdelivered : (run (GetAgentConfiguration.execute plainLibrary plainFloats agentPrincipal) []
      (withSettings [])).1.2 = .ok _ := (run_eq_ok_iff (serves_with_settings [])).mpr rfl
  have hoff : py "sql-injection" ∉ enabledKeys views := by
    rw [enabled_keys_list hviews]
    exact fun h ↦ absurd h.2 (by decide +kernel)
  have hon : py "sql-injection" ∈ DEFAULT_ENABLED_RULES := by decide +kernel
  have hfolded : py "sql-injection" ∈ foldedKeys examplePipeline 1
      (.fresh [(2, exampleContext)]) := by
    rw [folded_keys_eq 1 registered_example]
    show py "sql-injection" ∈ TITLE_BY_RULE.map Prod.fst
    decide +kernel
  refine ⟨views, _, hviews, hdelivered, hoff, List.mem_map_of_mem hon, hfolded, fun h ↦ hoff ?_⟩
  rw [h.shown]
  exact List.mem_map_of_mem hon

/-- An organization with the rules of the build, all of them on, that names them in its settings. -/
theorem one_catalogue_of_named_table :
    ∃ views delivered,
      ListRules.execute (optedOut []) ownerPrincipal = .ok views ∧
      (run (GetAgentConfiguration.execute plainLibrary plainFloats agentPrincipal) []
        (withSettings namingTable)).1.2 = .ok delivered ∧
      (OneCatalogue views delivered
          (foldedKeys examplePipeline 1 (.fresh [(2, exampleContext)])) ↔
        KeepsTable (optedOut []) 1 ∧ NamesTable namingTable) := by
  obtain ⟨views, hviews⟩ : ∃ views, ListRules.execute (optedOut []) ownerPrincipal = .ok views :=
    ⟨_, rfl⟩
  have hserves := serves_with_settings namingTable
  have hdelivered : (run (GetAgentConfiguration.execute plainLibrary plainFloats agentPrincipal) []
      (withSettings namingTable)).1.2 = .ok _ := (run_eq_ok_iff hserves).mpr rfl
  have hagree := @one_catalogue_iff examplePipeline _ _ _ _ _ _ _ _ _ _ hviews hserves hdelivered
    registered_example
  exact ⟨views, _, hviews, hdelivered, hagree⟩

end Aegis.Policy
