import Aegis.Access.Requests
import Aegis.Access.SessionHistory
import Aegis.Lib.Guarantee
import Aegis.Lib.Later

/-!
# What becomes of an API key

API keys are inserted, marked as revoked and marked as used, and nothing else. So a key that was
revoked stays revoked and one that expires keeps its expiry, however the requests of tenants
interleave, and neither names a caller again.
-/

namespace Aegis.Access

open Aegis.Server Database Transaction

/-! ## What a key stays -/

/-- A later state of an API key: the same key, still revoked if it was revoked. -/
structure ApiKeyRecord.Later (old new : ApiKeyRecord) : Prop where
  id : new.id = old.id
  organizationId : new.organizationId = old.organizationId
  keyPrefix : new.keyPrefix = old.keyPrefix
  secretHash : new.secretHash = old.secretHash
  createdBy : new.createdBy = old.createdBy
  createdAt : new.createdAt = old.createdAt
  expiresAt : new.expiresAt = old.expiresAt
  revoked : old.revokedAt.isSome → new.revokedAt.isSome

theorem ApiKeyRecord.Later.refl (record : ApiKeyRecord) : record.Later record :=
  ⟨rfl, rfl, rfl, rfl, rfl, rfl, rfl, fun h ↦ h⟩

theorem ApiKeyRecord.Later.trans {a b c : ApiKeyRecord} (hab : a.Later b) (hbc : b.Later c) :
    a.Later c where
  id := hbc.id.trans hab.id
  organizationId := hbc.organizationId.trans hab.organizationId
  keyPrefix := hbc.keyPrefix.trans hab.keyPrefix
  secretHash := hbc.secretHash.trans hab.secretHash
  createdBy := hbc.createdBy.trans hab.createdBy
  createdAt := hbc.createdAt.trans hab.createdAt
  expiresAt := hbc.expiresAt.trans hab.expiresAt
  revoked h := hbc.revoked (hab.revoked h)

/-- The key names no caller at the time. -/
def ApiKeyRecord.DeadAt (record : ApiKeyRecord) (now : Instant) : Prop :=
  record.revokedAt.isSome ∨ ∃ expiry, record.expiresAt = some expiry ∧ expiry ≤ now

theorem ApiKeyRecord.Later.dead_at {old new : ApiKeyRecord} (h : old.Later new) {now : Instant}
    (hdead : old.DeadAt now) : new.DeadAt now := by
  refine hdead.imp h.revoked ?_
  rw [h.expiresAt]
  exact fun hexpired ↦ hexpired

/-- A key is revoked and expires when its row says so. -/
theorem api_key_to_domain_eq_ok {record : ApiKeyRecord} {key : ApiKey}
    (h : apiKeyToDomain record = .ok key) :
    key.revokedAt = record.revokedAt ∧ key.expiresAt = record.expiresAt := by
  unfold apiKeyToDomain ApiKey.make at h
  split at h
  · cases h
  · cases h
    exact ⟨rfl, rfl⟩

/-- A row of a dead key is read as a key that is not active. -/
theorem not_active_of_dead {record : ApiKeyRecord} {key : ApiKey}
    (hkey : apiKeyToDomain record = .ok key) {now : Instant} (hdead : record.DeadAt now) :
    key.isActive now = false := by
  obtain ⟨hrevoked, hexpires⟩ := api_key_to_domain_eq_ok hkey
  unfold ApiKey.isActive
  rw [hrevoked, hexpires]
  rcases hdead with hdead | ⟨expiry, hexpiry, hle⟩
  · obtain ⟨time, htime⟩ := Option.isSome_iff_exists.mp hdead
    rw [htime]
    rfl
  · rw [hexpiry, Option.all_some, decide_eq_false (not_lt.mpr hle), Bool.and_false]

/-- The keys of a later state. -/
def KeysLater (db db' : Database) : Prop :=
  Table.Later ApiKeyRecord.Later db.apiKeys db'.apiKeys

theorem keys_later_refl (db : Database) : KeysLater db db :=
  Table.later_refl .refl db.apiKeys

theorem KeysLater.trans {a b c : Database} (hab : KeysLater a b) (hbc : KeysLater b c) :
    KeysLater a c :=
  Table.Later.trans .trans hab hbc

/-- Others leave the keys what they were. -/
theorem interference_keys {Q R : Type} : Interference fun w w' : World Database Q R ↦
    KeysLater w.db w'.db :=
  ⟨fun _ ↦ keys_later_refl _, .trans⟩

/-- The write leaves the keys what they were. -/
def KeepsKeys (u : Write) : Prop :=
  ∀ db : Database, KeysLater db (Store.apply db u)

/-- A write of another table does. -/
theorem keeps_keys_of_other {u : Write}
    (h : ∀ db : Database, (Store.apply db u).apiKeys = db.apiKeys) : KeepsKeys u := by
  intro db
  unfold KeysLater
  rw [h]
  exact keys_later_refl db

theorem keeps_keys_modify {apiKeyId : Uuid} {edit : Edit ApiKeyRecord}
    (h : ∀ record : ApiKeyRecord, record.Later (edit.run record)) :
    KeepsKeys (.apiKeys (.modify apiKeyId edit)) :=
  fun db ↦ Table.later_modify .refl h db.apiKeys apiKeyId

/-- Revoking a key sets one column, and rewrites its name and its permissions at most. -/
theorem later_revoked {record : ApiKeyRecord} {key : ApiKey}
    (hkey : apiKeyToDomain record = .ok key) (now : Instant) (row : ApiKeyRecord) :
    row.Later ((applyApiKey record (key.revoke now)).run row) := by
  have hexpires : (key.revoke now).expiresAt = record.expiresAt := by
    refine Eq.trans ?_ (api_key_to_domain_eq_ok hkey).2
    unfold ApiKey.revoke
    split <;> rfl
  have hrevoked : (key.revoke now).revokedAt.isSome := by
    unfold ApiKey.revoke
    split
    · rfl
    · next hset =>
        cases htime : key.revokedAt with
        | none => exact absurd (by rw [htime]; rfl) hset
        | some time => rfl
  refine ⟨rfl, rfl, rfl, rfl, rfl, rfl, ?_, is_some_changed fun _ ↦ hrevoked⟩
  show changed record.expiresAt (key.revoke now).expiresAt row.expiresAt = row.expiresAt
  rw [hexpires, changed, if_pos rfl]

/-- What the requests of a tenant write leaves the keys what they were. -/
theorem allows_access_keys : AllowsAccess KeepsKeys where
  issued key db := Table.later_insert .refl db.apiKeys (apiKeyToRecord key)
  revoked _ _ now hkey := keeps_keys_modify (later_revoked hkey now)
  touched _ _ := keeps_keys_modify fun _ ↦ ⟨rfl, rfl, rfl, rfl, rfl, rfl, rfl, fun h ↦ h⟩
  user _ := keeps_keys_of_other fun _ ↦ rfl
  session _ := keeps_keys_of_other fun _ ↦ rfl
  factor _ := keeps_keys_of_other fun _ ↦ rfl
  membership u := keeps_keys_of_other fun _ ↦ by cases u <;> rfl
  link _ := keeps_keys_of_other fun _ ↦ rfl

theorem keeps_keys_audit (u : Write) (hu : u.IsAudit) : KeepsKeys u :=
  keeps_keys_of_other fun db ↦ by rw [apply_of_is_audit hu db]

theorem keys_view {us : List Write} (hus : ∀ u ∈ us, KeepsKeys u) (db : Database) :
    KeysLater db (view us db) :=
  view_kept KeysLater keys_later_refl .trans (fun _ hu ↦ hu) hus db

variable {ports : AccessPorts}

theorem only_keys (request : AccessRequest) : (request.program ports).Only KeepsKeys :=
  composed_access (composes_only keeps_keys_audit) allows_access_keys
    fun _ _ ↦ keeps_keys_of_other fun _ ↦ rfl

/-! ## Dead keys -/

/-- The key that the prefix finds is a later state of the key. -/
def FindsKey (record : ApiKeyRecord) (db : Database) : Prop :=
  ∃ found, (db.apiKeys.rows.find? fun row ↦ row.keyPrefix == record.keyPrefix) = some found ∧
    record.Later found

theorem FindsKey.later {record : ApiKeyRecord} {db db' : Database} (h : FindsKey record db)
    (hlater : KeysLater db db') : FindsKey record db' := by
  obtain ⟨found, hfound, hkept⟩ := h
  obtain ⟨found', hfound', hkept'⟩ := Table.Later.find hlater
    (fun row row' hrow ↦ by rw [hrow.keyPrefix]) hfound
  exact ⟨found', hfound', hkept.trans hkept'⟩

/-- A request that presents the prefix of the key when it is dead is answered with an error. -/
def Refused (record : ApiKeyRecord) (request : AccessRequest)
    (outcome : Except DomainError AccessAnswer) : Prop :=
  ∀ secret now context, request = .resolveApiKey record.keyPrefix secret now context →
    record.DeadAt now → ∃ error, outcome = .error error

/-- What a request leaves, and what it answers when it presents the key. -/
def KeepsDeadKey (record : ApiKeyRecord) (request : AccessRequest) (_ : Bool)
    (outcome : Except DomainError AccessAnswer)
    (w : World Database AccessRequest (Except DomainError AccessAnswer)) (db : Database) : Prop :=
  KeysLater w.db db ∧ Refused record request outcome

/-- Presenting a dead key ends with an error. -/
theorem wp_resolve_dead {record : ApiKeyRecord} {secret : PyStr} {now : Instant}
    {context : RequestContext} (hdead : record.DeadAt now)
    {w : World Database AccessRequest (Except DomainError AccessAnswer)}
    (hfinds : FindsKey record w.db) :
    Wp (fun w w' ↦ KeysLater w.db w'.db)
      (KeepsDeadKey record (.resolveApiKey record.keyPrefix secret now context))
      ((AccessRequest.resolveApiKey record.keyPrefix secret now context).program ports)
      (fun e _ _ ↦ e.elim) [] w := by
  have hrefuses : ∀ w : World Database AccessRequest (Except DomainError AccessAnswer),
      Refuses (fun w w' ↦ KeysLater w.db w'.db) (fun committed (outcome : Except DomainError
        Principal) ↦ KeepsDeadKey record (.resolveApiKey record.keyPrefix secret now context)
          committed (outcome.map .caller)) w :=
    fun _ error w' _ ↦ ⟨keys_later_refl w'.db, fun _ _ _ _ _ ↦ ⟨error, rfl⟩⟩
  rw [AccessRequest.program, wp_map_outcome, ResolveApiKeyPrincipal.execute, wp_bind,
    ApiKeys.getByPrefix, wp_bind, TableAt.wp_select_one]
  intro w₁ hw₁
  obtain ⟨found, hfound, hlater⟩ := hfinds.later hw₁
  have hread : (apiKeysTable.read (view [] w₁.db)).rows.find? (fun row ↦
      row.keyPrefix == record.keyPrefix) = some found := hfound
  rw [hread]
  dsimp only
  rw [wp_bind]
  refine wp_check (hrefuses w₁) fun key hkey ↦ ?_
  show Wp _ _ (refuseIf (!key.isActive now) .invalidCredentials >>= _) _ _ _
  rw [wp_bind, not_active_of_dead hkey (hlater.dead_at hdead)]
  exact wp_refuse_if (hrefuses w₁) fun h ↦ absurd h (by decide)

/-- A request among others keeps the keys, and does not resolve one that is dead. -/
theorem safe_dead_key {record : ApiKeyRecord}
    {w : World Database AccessRequest (Except DomainError AccessAnswer)}
    (hfinds : FindsKey record w.db) (request : AccessRequest) :
    Wp (fun w w' ↦ KeysLater w.db w'.db) (KeepsDeadKey record request) (request.program ports)
      (fun e _ _ ↦ e.elim) [] w := by
  by_cases hpresents : ∃ secret now context,
      request = .resolveApiKey record.keyPrefix secret now context ∧ record.DeadAt now
  · obtain ⟨secret, now, context, rfl, hdead⟩ := hpresents
    exact wp_resolve_dead hdead hfinds
  · have hother : ∀ outcome, Refused record request outcome :=
      fun outcome secret now context hrequest hdead ↦
        absurd ⟨secret, now, context, hrequest, hdead⟩ hpresents
    refine wp_of_only interference_keys (only_keys request) (by simp) ?_ ?_
    · exact fun outcome w' _ ↦ ⟨keys_later_refl w'.db, hother outcome⟩
    · exact fun outcome us w' _ hus ↦ ⟨keys_view hus w'.db, hother outcome⟩

/-- Whoever presents an API key that has been revoked, or when it has expired, is refused, whatever
secret comes with it: in every interleaving of the requests of tenants, and whichever of them are
lost. -/
theorem dead_key_never_resolved (ports : AccessPorts) (db : Database) {record : ApiKeyRecord}
    (hfound : (db.apiKeys.rows.find? fun row ↦ row.keyPrefix == record.keyPrefix) = some record)
    (labels : List (Label AccessRequest)) :
    ∀ reached ∈ Machine.visited (Transaction.step (AccessRequest.program ports))
        ⟨⟨db, []⟩, []⟩ labels,
      ∀ entry ∈ reached.2.world.log, Refused record entry.request entry.outcome := by
  have hrun := guaranteed_run (AccessRequest.program ports) labels interference_keys
    (fun _ _ ↦ FindsKey.later) (fun _ _ _ _ _ hends ↦ hends)
    (fun request _ _ hfinds ↦ safe_dead_key hfinds request)
    (⟨record, hfound, .refl record⟩ : FindsKey record db)
  exact fun reached hreached ↦ (hrun reached hreached).2.2

/-- A key that has been revoked. -/
def revokedKey : ApiKeyRecord :=
  ⟨3, 1, py "ci", py "k1", py "secret", [py "org:read"], some 7, none, some 10, none, some 0⟩

/-- The only key. -/
def revokedKeys : Database :=
  { Database.empty with apiKeys := ⟨[revokedKey], List.nodup_singleton _⟩ }

/-- It is presented with its secret while the owner revokes it once more. -/
def presentedKey : List (Label AccessRequest) :=
  [.start (.revokeApiKey ownerPrincipal 3 20),
    .start (.resolveApiKey (py "k1") (py "secret") 20 ⟨[], none, []⟩), .advance 0, .advance 0]

theorem dead_key_never_resolved_revoked :
    revokedKey.DeadAt 20 ∧
      ∀ reached ∈ Machine.visited (Transaction.step (AccessRequest.program plainPorts))
          ⟨⟨revokedKeys, []⟩, []⟩ presentedKey,
        ∀ entry ∈ reached.2.world.log, Refused revokedKey entry.request entry.outcome :=
  ⟨.inl rfl, dead_key_never_resolved plainPorts revokedKeys
    (List.find?_cons_of_pos (beq_self_eq_true _)) presentedKey⟩

end Aegis.Access
