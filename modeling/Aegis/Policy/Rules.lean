import Mathlib.Data.List.Lex
import Mathlib.Data.List.MinMax
import Mathlib.Data.Prod.Lex
import Mathlib.Order.Fin.Basic
import Aegis.Access.Entities
import Aegis.Api.FindingStore
import Aegis.Lib.Keyset

/-!
# Detection rules

`domain/entities/rules.py` and `application/rules.py`: the rules of a bundle, the rules compiled
into the build, and which of them an organization has switched off.
-/

namespace Aegis.Policy

open Server Access Api Keyset

variable (lib : Library)

/-! ## Rules and bundles -/

/-- One detection rule. Its key is not blank, in lower case and trimmed. -/
structure Rule where
  key : PyStr
  title : PyStr
  severity : Severity
  cweId : Option Int
  description : PyStr
  remediation : PyStr
  named : key.strip ≠ []
  trimmed : key = lib.lower key.strip

/-- A published set of rules, no two of which have one key. -/
structure RuleBundle where
  version : Nat
  rules : List (Rule lib)
  publishedAt : Instant
  distinct : (rules.map Rule.key).Nodup

variable {lib}

/-- `bundle.rule(key)`. -/
def RuleBundle.rule (bundle : RuleBundle lib) (key : PyStr) : Option (Rule lib) :=
  bundle.rules.find? fun rule ↦ rule.key = key

/-- The keys of a bundle. -/
def RuleBundle.keys (bundle : RuleBundle lib) : List PyStr :=
  bundle.rules.map Rule.key

variable (lib)

/-! ## The rules of the build -/

/-- `_BUILTIN_RULES`. -/
def BUILTIN_RULES : List (PyStr × PyStr × Severity × Nat × PyStr) :=
  [(py "sql-injection", py "SQL injection", .CRITICAL, 89,
      py "Untrusted input reaches a SQL statement without being bound as a parameter."),
    (py "command-injection", py "OS command injection", .CRITICAL, 78,
      py "Untrusted input reaches an operating-system command."),
    (py "unsafe-deserialization", py "Unsafe deserialization", .CRITICAL, 502,
      py "An attacker-controlled stream reaches a native deserializer."),
    (py "xxe", py "XML External Entity (XXE) injection", .CRITICAL, 611,
      py "Untrusted XML reaches a parser without external entity or DTD processing disabled."),
    (py "path-traversal", py "Path traversal", .HIGH, 22,
      py "Untrusted input reaches a filesystem path without being confined to a base directory."),
    (py "reflected-xss", py "Reflected cross-site scripting", .HIGH, 79,
      py "Untrusted input reaches the response body without contextual escaping."),
    (py "ssrf", py "Server-side request forgery", .HIGH, 918,
      py "Untrusted input decides the destination of an outbound request."),
    (py "ldap-injection", py "LDAP injection", .HIGH, 90,
      py "Untrusted input reaches an LDAP search filter."),
    (py "xpath-injection", py "XPath injection", .HIGH, 643,
      py "Untrusted input reaches an XPath expression."),
    (py "open-redirect", py "Open redirect", .MEDIUM, 601,
      py "Untrusted input decides a redirect destination."),
    (py "header-injection", py "HTTP header injection", .MEDIUM, 113,
      py "Untrusted input reaches a response header name or value."),
    (py "log-injection", py "Log injection", .MEDIUM, 117,
      py "Untrusted input reaches a log record without newline neutralization.")]

/-- A key of ASCII letters in lower case, or other ASCII characters, with nothing to trim. -/
def PlainKey (key : PyStr) : Prop :=
  (key ≠ [] ∧ key.strip = key) ∧ ∀ c ∈ key, c.val < 128 ∧ asciiLower c = c

instance (key : PyStr) : Decidable (PlainKey key) :=
  @instDecidableAnd _ _ _ (List.decidableBAll _ key)

variable {lib} in
/-- Such a key is its own lower case. -/
theorem PlainKey.lower {key : PyStr} (h : PlainKey key) : lib.lower key.strip = key := by
  rw [h.1.2, lib.lower_ascii key fun c hc ↦ (h.2 c hc).1]
  exact List.map_congr_left (fun c hc ↦ (h.2 c hc).2) |>.trans (List.map_id key)

/-- A rule of the build. -/
def builtinRule (entry : PyStr × PyStr × Severity × Nat × PyStr) (h : PlainKey entry.1) :
    Rule lib where
  key := entry.1
  title := entry.2.1
  severity := entry.2.2.1
  cweId := some entry.2.2.2.1
  description := entry.2.2.2.2
  remediation := []
  named := by rw [h.1.2]; exact h.1.1
  trimmed := h.lower.symm

/-- The keys of the build are plain. -/
theorem plain_builtin_keys : ∀ entry ∈ BUILTIN_RULES, PlainKey entry.1 := by
  decide +kernel

/-- The keys of the rules of the build. -/
theorem map_key_builtin_rules :
    (BUILTIN_RULES.pmap (builtinRule lib) plain_builtin_keys).map Rule.key =
      BUILTIN_RULES.map Prod.fst := by
  rw [List.map_pmap]
  exact List.pmap_eq_map _

/-- `BUILTIN_BUNDLE_VERSION`. -/
def BUILTIN_BUNDLE_VERSION : Nat := 0

/-- `_CATALOGUE_PUBLISHED_AT`: July 29, 2026. -/
def CATALOGUE_PUBLISHED_AT : Instant := 1785283200000000

/-- `builtin_catalogue(published_at)`. -/
def builtinCatalogue (publishedAt : Instant) : RuleBundle lib where
  version := BUILTIN_BUNDLE_VERSION
  rules := BUILTIN_RULES.pmap (builtinRule lib) plain_builtin_keys
  publishedAt := publishedAt
  distinct := by rw [map_key_builtin_rules]; decide +kernel

variable {lib}

/-! ## Opt-outs -/

/-- Which rules one organization has switched off, and why. -/
structure TenantRuleSettings where
  organizationId : Uuid
  disabled : List (PyStr × PyStr)

namespace TenantRuleSettings

/-- `MAX_DISABLED`. -/
def MAX_DISABLED : Nat := 64

/-- `settings.is_enabled(rule_key)`: a rule is on unless it was switched off. -/
def isEnabled (settings : TenantRuleSettings) (ruleKey : PyStr) : Bool :=
  (settings.disabled.lookup ruleKey).isNone

/-- `settings.enable(rule_key)`. -/
def enable (settings : TenantRuleSettings) (ruleKey : PyStr) : TenantRuleSettings :=
  { settings with disabled := settings.disabled.filter fun entry ↦ entry.1 ≠ ruleKey }

/-- The reason as it is kept. -/
def keptReason (reason : PyStr) : PyStr :=
  reason.strip.take 500

/-- `settings.disable(rule_key, reason=reason)`. -/
def disable (settings : TenantRuleSettings) (ruleKey reason : PyStr) :
    Except DomainError TenantRuleSettings :=
  if reason.strip = [] then
    .error (.InvalidStateError (py "Disabling a rule requires a reason."))
  else if settings.isEnabled ruleKey ∧ MAX_DISABLED ≤ settings.disabled.length then
    .error (.InvalidStateError (py "At most " ++ PyStr.decimal MAX_DISABLED ++
      py " rules may be disabled for one organization."))
  else
    .ok { settings with
      disabled :=
        if settings.isEnabled ruleKey then settings.disabled ++ [(ruleKey, keptReason reason)]
        else settings.disabled.map fun entry ↦
          if entry.1 = ruleKey then (ruleKey, keptReason reason) else entry }

end TenantRuleSettings

/-- A key is not found when no entry has it. -/
theorem lookup_is_none_iff {β : Type*} {entries : List (PyStr × β)} {key : PyStr} :
    (entries.lookup key).isNone = true ↔ key ∉ entries.map Prod.fst := by
  rw [Option.isNone_iff_eq_none, List.lookup_eq_none_iff]
  simp only [List.mem_map, Prod.exists, exists_and_right, exists_eq_right, not_exists, bne_iff_ne,
    ne_eq, Prod.forall]
  constructor
  · intro h value hmem
    exact h _ _ hmem rfl
  · rintro h key value hmem rfl
    exact h value hmem

namespace TenantRuleSettings

variable {settings settings' : TenantRuleSettings} {ruleKey reason : PyStr}

/-- A rule is off when it has an entry. -/
theorem is_enabled_iff : settings.isEnabled ruleKey = true ↔
    ruleKey ∉ settings.disabled.map Prod.fst :=
  lookup_is_none_iff

/-- Switching a rule on leaves the others as they are. -/
theorem is_enabled_enable (key : PyStr) : (settings.enable ruleKey).isEnabled key = true ↔
    key = ruleKey ∨ settings.isEnabled key = true := by
  rw [is_enabled_iff, is_enabled_iff]
  simp only [enable, List.mem_map, List.mem_filter, decide_eq_true_eq]
  constructor
  · intro h
    by_cases hkey : key = ruleKey
    · exact .inl hkey
    · refine .inr ?_
      rintro ⟨entry, hmem, rfl⟩
      exact h ⟨entry, ⟨hmem, hkey⟩, rfl⟩
  · rintro (rfl | h) ⟨entry, ⟨hmem, hne⟩, heq⟩
    · exact hne heq
    · exact h ⟨entry, hmem, heq⟩

/-- So does switching one off. -/
theorem is_enabled_disable (h : settings.disable ruleKey reason = .ok settings') (key : PyStr) :
    settings'.isEnabled key = true ↔ key ≠ ruleKey ∧ settings.isEnabled key = true := by
  have hkeys : ∀ entry ∈ settings.disabled, (Prod.fst ∘ fun entry : PyStr × PyStr ↦
      if entry.1 = ruleKey then (ruleKey, keptReason reason) else entry) entry = entry.1 := by
    intro entry _
    rw [Function.comp_apply]
    split_ifs with heq
    · exact heq.symm
    · rfl
  unfold disable at h
  split_ifs at h with hblank hfull hnew
  · obtain rfl := Except.ok.inj h
    rw [is_enabled_iff, is_enabled_iff]
    simp only [List.map_append, List.mem_append, List.map_cons, List.map_nil, List.mem_singleton,
      not_or, and_comm, ne_eq]
  · obtain rfl := Except.ok.inj h
    have hoff : ¬ settings.isEnabled ruleKey = true := hnew
    rw [is_enabled_iff, List.map_map, List.map_congr_left hkeys, ← is_enabled_iff]
    constructor
    · intro hkey
      refine ⟨?_, hkey⟩
      rintro rfl
      exact hoff hkey
    · exact And.right

end TenantRuleSettings

/-! ## The use cases -/

/-- A rule as an organization sees it. -/
structure RuleView (lib : Library) where
  rule : Rule lib
  enabled : Bool
  disabledReason : PyStr

/-- The record of a rule that was switched on or off. -/
structure RuleToggled where
  organizationId : Uuid
  actor : Principal
  resourceId : PyStr
  enabled : Bool
  reason : PyStr
  severity : PyStr

/-- The installed bundles, the opt-outs of every organization that ever changed any, and the
records of the changes. -/
structure PolicyStore (lib : Library) where
  bundles : List (RuleBundle lib)
  settings : Uuid → Option TenantRuleSettings
  audit : List RuleToggled

namespace PolicyStore

variable (store : PolicyStore lib)

/-- The bundle of the highest version, or the rules of the build. -/
def catalogue : RuleBundle lib :=
  (store.bundles.argmax RuleBundle.version).getD (builtinCatalogue lib CATALOGUE_PUBLISHED_AT)

/-- The opt-outs of an organization: none where it has no row. -/
def settingsOf (organizationId : Uuid) : TenantRuleSettings :=
  (store.settings organizationId).getD ⟨organizationId, []⟩

/-- A rule, and what the organization decided about it. -/
def view (settings : TenantRuleSettings) (rule : Rule lib) : RuleView lib :=
  ⟨rule, settings.isEnabled rule.key, (settings.disabled.lookup rule.key).getD []⟩

end PolicyStore

/-- The worst rules come first, and those of one severity in the order of their keys. -/
def Rule.order (rule : Rule lib) : ℚ ×ₗ PyStr :=
  toLex (-rule.severity.baseScore, rule.key)

/-- `ListRules.execute`. -/
def ListRules.execute (store : PolicyStore lib) (principal : Principal) :
    Except DomainError (List (RuleView lib)) := do
  principal.require .POLICY_READ
  .ok ((ordered Rule.order store.catalogue.rules).map
    (PolicyStore.view (store.settingsOf principal.organizationId)))

namespace SetRuleEnabled

/-- Switch a rule on or off. -/
def switch (settings : TenantRuleSettings) (ruleKey : PyStr) (enabled : Bool) (reason : PyStr) :
    Except DomainError TenantRuleSettings :=
  if enabled then .ok (settings.enable ruleKey) else settings.disable ruleKey reason

/-- `SetRuleEnabled.execute`. -/
def execute (store : PolicyStore lib) (principal : Principal) (ruleKey : PyStr) (enabled : Bool)
    (reason : PyStr) : Except DomainError (PolicyStore lib × RuleView lib) := do
  principal.require .POLICY_WRITE
  let some rule := store.catalogue.rule (lib.lower ruleKey.strip)
    | .error (.NotFoundError (py "No rule named " ++ lib.repr (.str ruleKey) ++ py "."))
  let organizationId := principal.organizationId
  let settings ← switch (store.settingsOf organizationId) rule.key enabled reason
  if ∀ entry ∈ settings.disabled, StoresJson entry.1 ∧ StoresJson entry.2 then
    .ok ({ store with
        settings := Function.update store.settings organizationId (some settings)
        audit := store.audit ++ [⟨organizationId, principal, rule.key, enabled,
          TenantRuleSettings.keptReason reason, rule.severity.value⟩] },
      PolicyStore.view settings rule)
  else .error (.BuiltinError .DataError)

end SetRuleEnabled

/-! ## What they do -/

variable {store store' : PolicyStore lib} {principal : Principal}

/-- The rule is on or off, and the others are as they were. -/
theorem SetRuleEnabled.is_enabled_switch {settings settings' : TenantRuleSettings}
    {ruleKey reason : PyStr} {enabled : Bool}
    (h : SetRuleEnabled.switch settings ruleKey enabled reason = .ok settings') (key : PyStr) :
    settings'.isEnabled key = if key = ruleKey then enabled else settings.isEnabled key := by
  rw [Bool.eq_iff_iff]
  cases enabled with
  | true =>
      obtain rfl := Except.ok.inj h
      rw [TenantRuleSettings.is_enabled_enable]
      split_ifs with hkey
      · exact iff_of_true (.inl hkey) rfl
      · exact or_iff_right hkey
  | false =>
      rw [TenantRuleSettings.is_enabled_disable h]
      split_ifs with hkey
      · exact iff_of_false (fun h ↦ h.1 hkey) not_false
      · exact and_iff_right hkey

/-- A rule that is switched on or off is so for one organization, and no other rule is. -/
theorem is_enabled_of_set {ruleKey : PyStr} {enabled : Bool} {reason : PyStr}
    {shown : RuleView lib}
    (h : SetRuleEnabled.execute store principal ruleKey enabled reason = .ok (store', shown)) :
    store'.bundles = store.bundles ∧
      (∀ id ≠ principal.organizationId, store'.settingsOf id = store.settingsOf id) ∧
      ∀ key, (store'.settingsOf principal.organizationId).isEnabled key =
        if key = shown.rule.key then enabled
        else (store.settingsOf principal.organizationId).isEnabled key := by
  unfold SetRuleEnabled.execute at h
  obtain ⟨_, -, h⟩ := Checked.bind_eq_ok.mp h
  cases hrule : store.catalogue.rule (lib.lower ruleKey.strip) with
  | none =>
      rw [hrule] at h
      cases h
  | some rule =>
      rw [hrule] at h
      obtain ⟨settings, hswitch, h⟩ := Checked.bind_eq_ok.mp h
      split_ifs at h
      obtain ⟨rfl, rfl⟩ := Prod.mk.inj (Except.ok.inj h)
      refine ⟨rfl, fun id hid ↦ ?_, fun key ↦ ?_⟩
      · show (Function.update store.settings _ _ id).getD _ = _
        rw [Function.update_of_ne hid]
        rfl
      · show ((Function.update store.settings _ _ _).getD _).isEnabled key = _
        rw [Function.update_self]
        exact SetRuleEnabled.is_enabled_switch hswitch key

end Aegis.Policy
