import Mathlib.Data.Fintype.Basic
import Aegis.Server.Builtins

/-!
# The permission catalogue

`domain/permissions.py` and `domain/errors.py`: the permissions, the system roles that bundle them,
and the errors the access and authentication use cases raise. The database stores permissions as
sorted lists of their texts; what it holds beyond the catalogue is discarded when it is read.
-/

namespace Aegis.Access

open Aegis.Server

/-- What the platform can authorize. -/
inductive Permission where
  | ORG_READ
  | ORG_WRITE
  | ORG_DELETE
  | USER_INVITE
  | USER_REMOVE
  | ROLE_WRITE
  | APP_READ
  | APP_WRITE
  | APP_DELETE
  | AGENT_READ
  | AGENT_WRITE
  | FINDING_READ
  | FINDING_TRIAGE
  | FINDING_SUPPRESS
  | POLICY_READ
  | POLICY_WRITE
  | REPORT_READ
  | REPORT_WRITE
  | AUDIT_READ
  | SETTINGS_WRITE
  | AI_RUN
  | AI_APPROVE
  deriving DecidableEq, Repr

namespace Permission

/-- The text of a permission, `resource:verb`. -/
def value : Permission → PyStr
  | ORG_READ => py "org:read"
  | ORG_WRITE => py "org:write"
  | ORG_DELETE => py "org:delete"
  | USER_INVITE => py "user:invite"
  | USER_REMOVE => py "user:remove"
  | ROLE_WRITE => py "role:write"
  | APP_READ => py "app:read"
  | APP_WRITE => py "app:write"
  | APP_DELETE => py "app:delete"
  | AGENT_READ => py "agent:read"
  | AGENT_WRITE => py "agent:write"
  | FINDING_READ => py "finding:read"
  | FINDING_TRIAGE => py "finding:triage"
  | FINDING_SUPPRESS => py "finding:suppress"
  | POLICY_READ => py "policy:read"
  | POLICY_WRITE => py "policy:write"
  | REPORT_READ => py "report:read"
  | REPORT_WRITE => py "report:write"
  | AUDIT_READ => py "audit:read"
  | SETTINGS_WRITE => py "settings:write"
  | AI_RUN => py "ai:run"
  | AI_APPROVE => py "ai:approve"

/-- The catalogue in the order of the texts. -/
def byValue : List Permission :=
  [AGENT_READ, AGENT_WRITE, AI_APPROVE, AI_RUN, APP_DELETE, APP_READ, APP_WRITE, AUDIT_READ,
    FINDING_READ, FINDING_SUPPRESS, FINDING_TRIAGE, ORG_DELETE, ORG_READ, ORG_WRITE, POLICY_READ,
    POLICY_WRITE, REPORT_READ, REPORT_WRITE, ROLE_WRITE, SETTINGS_WRITE, USER_INVITE, USER_REMOVE]

theorem mem_by_value (p : Permission) : p ∈ byValue := by
  cases p <;> decide

instance : Fintype Permission :=
  ⟨⟨byValue, by decide +kernel⟩, mem_by_value⟩

/-- The order is the order of the texts. -/
theorem pairwise_by_value : byValue.Pairwise fun p q ↦ p.value < q.value := by
  decide +kernel

/-- Two permissions have two texts. -/
theorem value_injective : Function.Injective value := by
  intro p q h
  revert p q
  decide +kernel

/-- `Permission(raw)`, or `none` for the `ValueError`. -/
def parse (raw : PyStr) : Option Permission :=
  byValue.find? fun p ↦ p.value == raw

/-- A text is parsed to the permission whose text it is. -/
theorem parse_eq_some_iff {raw : PyStr} {p : Permission} : parse raw = some p ↔ p.value = raw := by
  constructor
  · intro h
    simpa using List.find?_some h
  · intro h
    obtain ⟨q, hq⟩ : ∃ q, parse raw = some q := by
      rw [← Option.isSome_iff_exists, parse, List.find?_isSome]
      exact ⟨p, mem_by_value p, by simpa using h⟩
    have hvalue : q.value = raw := by simpa using List.find?_some hq
    rw [hq, value_injective (hvalue.trans h.symm)]

/-- `sorted(p.value for p in permissions)`. -/
def sortedValues (permissions : Finset Permission) : List PyStr :=
  (byValue.filter (· ∈ permissions)).map value

/-- `_permissions(raw)`: the stored permissions, without the texts that are not in the
catalogue. -/
def ofStored (raw : List PyStr) : Finset Permission :=
  (raw.filterMap parse).toFinset

/-- What is stored is read back. -/
@[simp] theorem of_stored_sorted_values (permissions : Finset Permission) :
    ofStored (sortedValues permissions) = permissions := by
  ext p
  simp only [ofStored, sortedValues, List.mem_toFinset, List.mem_filterMap, List.mem_map,
    List.mem_filter, decide_eq_true_eq]
  constructor
  · rintro ⟨_, ⟨q, ⟨-, hq⟩, rfl⟩, hp⟩
    rwa [← value_injective (parse_eq_some_iff.mp hp)] at hq
  · intro hp
    exact ⟨p.value, ⟨p, ⟨mem_by_value p, hp⟩, rfl⟩, parse_eq_some_iff.mpr rfl⟩

end Permission

open Permission

/-- The permissions that must never be granted through a custom role. -/
def OWNER_ONLY_PERMISSIONS : Finset Permission :=
  {ORG_DELETE}

/-- The permissions whose holders can change who holds permissions. -/
def PRIVILEGED_PERMISSIONS : Finset Permission :=
  {ROLE_WRITE, USER_INVITE, USER_REMOVE, ORG_DELETE, SETTINGS_WRITE}

/-- The roles seeded into every new organization. -/
inductive SystemRole where
  | OWNER
  | ADMIN
  | SECURITY_ANALYST
  | DEVELOPER
  | VIEWER
  deriving DecidableEq, Repr

namespace SystemRole

/-- The name of a system role. -/
def value : SystemRole → PyStr
  | OWNER => py "Owner"
  | ADMIN => py "Admin"
  | SECURITY_ANALYST => py "Security Analyst"
  | DEVELOPER => py "Developer"
  | VIEWER => py "Viewer"

/-- `_READ_ONLY`. -/
def readOnly : Finset Permission :=
  {ORG_READ, APP_READ, AGENT_READ, FINDING_READ, POLICY_READ, REPORT_READ}

/-- `SYSTEM_ROLE_PERMISSIONS`. -/
def permissions : SystemRole → Finset Permission
  | OWNER => Finset.univ
  | ADMIN => Finset.univ \ OWNER_ONLY_PERMISSIONS
  | SECURITY_ANALYST =>
      readOnly ∪ {FINDING_TRIAGE, FINDING_SUPPRESS, POLICY_WRITE, AGENT_WRITE, REPORT_WRITE,
        AUDIT_READ, AI_RUN, AI_APPROVE}
  | DEVELOPER => readOnly ∪ {APP_WRITE, FINDING_TRIAGE, AI_RUN}
  | VIEWER => readOnly

/-- `SYSTEM_ROLE_DESCRIPTIONS`. -/
def description : SystemRole → PyStr
  | OWNER => py "Full control, including deleting the organization. Assigned to the creator."
  | ADMIN => py "Full control except deleting the organization."
  | SECURITY_ANALYST =>
      py "Triages findings, tunes protection policy, manages agents and reads the audit log."
  | DEVELOPER => py "Manages their applications and triages findings against them."
  | VIEWER => py "Read-only access to inventory, findings and reports."

/-- Every role but the owner's is without the permissions of the owner. -/
theorem disjoint_owner_only {role : SystemRole} (h : role ≠ OWNER) :
    Disjoint role.permissions OWNER_ONLY_PERMISSIONS := by
  cases role <;> first | exact absurd rfl h | decide +kernel

end SystemRole

/-- `is_privileged(permissions)`. -/
def isPrivileged (permissions : Finset Permission) : Bool :=
  (permissions ∩ PRIVILEGED_PERMISSIONS).Nonempty

/-! ## Errors -/

/-- What a use case raises: a domain error, or an error of the database layer. -/
inductive DomainError where
  | ValidationError (message field : PyStr) (organizations : List PyStr)
  | InvalidEmailError
  | InvalidSlugError
  | NotFoundError (resource : PyStr)
  | ConflictError (message : PyStr)
  | InvalidStateError (message : PyStr)
  | AuthenticationError (message : PyStr)
  | AccountLockedError (retryAfterSeconds : Int)
  | AccountDisabledError
  | InvalidMfaCodeError
  | TokenError (message : PyStr)
  | TokenReuseError
  | SecretDecryptionError
  | PermissionDeniedError (required : PyStr)
  | PrivilegeEscalationError (permissions : List PyStr)
  | LicenseLimitExceededError (limitName : PyStr) (limit : Int)
  | FeatureNotLicensedError (feature : PyStr)
  /-- A constraint of the database forbids a row. -/
  | IntegrityError
  /-- A row to be updated is gone. -/
  | StaleDataError
  | LookupError
  /-- An error of Python's own. -/
  | BuiltinError (error : PyException)
  deriving DecidableEq, Repr

namespace DomainError

/-- `AuthenticationError` with its own message. -/
def invalidCredentials : DomainError :=
  .AuthenticationError (py "Invalid credentials.")

/-- `TokenError` with its own message. -/
def invalidToken : DomainError :=
  .TokenError (py "The token is missing, malformed or expired.")

end DomainError

end Aegis.Access
