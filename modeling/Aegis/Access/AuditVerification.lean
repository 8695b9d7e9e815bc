import Aegis.Access.AuditChain
import Aegis.Api.Cursor
import Aegis.Server.Strings

/-!
# What the audit chain proves

An accepted chain is fixed by its last hash in everything that is hashed, as far as SHA-256 tells
the texts apart. The labels, the user agents and the request ids are not hashed, and the newest
entries may be missing. A chain that was appended as it should be is accepted up to the first
event that the database does not give back as it was sealed.
-/

namespace Aegis.Access.AuditChain

open Aegis.Server Json

variable {lib : Library}

/-! ## What is hashed -/

/-- An event whose texts have an encoding and whose times a `datetime` can hold. -/
structure AuditEvent.Storable (event : AuditEvent) : Prop where
  action : PyStr.Encodable event.action
  resourceType : PyStr.Encodable event.resourceType
  resourceId : PyStr.Encodable event.resourceId
  ipAddress : ∀ text ∈ event.ipAddress, PyStr.Encodable text
  metadata : (Json.object event.metadata).Encodable
  previousHash : PyStr.Encodable event.previousHash
  occurredAt : ∀ t ∈ event.occurredAt, DateTime.InRange t

/-- The event without what is not hashed, its metadata in order. -/
def AuditEvent.hashed (event : AuditEvent) : AuditEvent :=
  { event with
    actorLabel := []
    userAgent := []
    requestId := []
    entryHash := []
    metadata := sortedObject event.metadata }

theorem uuid_to_str_inj {a b : Uuid} : a.toStr = b.toStr ↔ a = b := by
  refine ⟨fun h ↦ ?_, congrArg _⟩
  have hparse := Uuid.parse_to_str a
  rw [h, Uuid.parse_to_str] at hparse
  exact (Option.some.inj hparse).symm

theorem actor_type_value_inj {a b : ActorType} : a.value = b.value ↔ a = b := by
  refine ⟨fun h ↦ ?_, congrArg _⟩
  cases a <;> cases b <;> first | rfl | exact absurd h (by decide)

theorem outcome_value_inj {a b : AuditOutcome} : a.value = b.value ↔ a = b := by
  refine ⟨fun h ↦ ?_, congrArg _⟩
  cases a <;> cases b <;> first | rfl | exact absurd h (by decide)

theorem isoformat_inj {a b : Instant} (ha : DateTime.InRange a) (hb : DateTime.InRange b) :
    DateTime.isoformat a = DateTime.isoformat b ↔ a = b := by
  refine ⟨fun h ↦ ?_, congrArg _⟩
  have hread := DateTime.fromisoformat_isoformat ha
  rw [h, DateTime.fromisoformat_isoformat hb] at hread
  simpa using hread.symm

theorem optional_inj {a b : Option PyStr} :
    AuditEvent.optional a = AuditEvent.optional b ↔ a = b := by
  cases a <;> cases b <;> simp [AuditEvent.optional]

@[simp] theorem sorted_optional (value : Option PyStr) :
    (AuditEvent.optional value).sorted = AuditEvent.optional value := by
  cases value <;> rfl

theorem encodable_optional {value : Option PyStr} (h : ∀ text ∈ value, PyStr.Encodable text) :
    (AuditEvent.optional value).Encodable := by
  cases value with
  | none => exact .null
  | some text => exact .str (h text rfl)

/-- ASCII text has an encoding. -/
theorem encodable_of_printable {text : PyStr} (h : text.all fun c ↦ c.val < 128) :
    PyStr.Encodable text :=
  PyStr.encodable_of_ascii fun c hc ↦ by simpa using List.all_eq_true.mp h c hc

/-- The names of what is hashed. -/
theorem payload_names (event : AuditEvent) :
    event.payload.map Prod.fst =
      [py "id", py "organization_id", py "sequence", py "action", py "actor_type",
        py "actor_user_id", py "resource_type", py "resource_id", py "outcome", py "ip_address",
        py "metadata", py "occurred_at", py "previous_hash"] := rfl

/-- No name is there twice. -/
theorem nodup_payload_names (event : AuditEvent) : (event.payload.map Prod.fst).Nodup := by
  rw [payload_names]
  decide

/-- What is hashed has an encoding. -/
theorem encodable_payload {event : AuditEvent} (h : event.Storable) :
    (Json.object event.payload).Encodable := by
  have huuid : ∀ id : Uuid, PyStr.Encodable id.toStr := fun id ↦
    PyStr.encodable_of_ascii fun _ hc ↦ Uuid.val_of_mem_to_str hc
  have hactor : ∀ actor : ActorType, PyStr.Encodable actor.value := by
    intro actor
    cases actor <;> exact encodable_of_printable (by decide)
  have houtcome : ∀ outcome : AuditOutcome, PyStr.Encodable outcome.value := by
    intro outcome
    cases outcome <;> exact encodable_of_printable (by decide)
  have huser : ∀ text ∈ event.actorUserId.map Uuid.toStr, PyStr.Encodable text := by
    intro text htext
    obtain ⟨id, -, rfl⟩ := Option.mem_map.mp htext
    exact huuid id
  have htime : ∀ text ∈ event.occurredAt.map DateTime.isoformat, PyStr.Encodable text := by
    intro text htext
    obtain ⟨t, -, rfl⟩ := Option.mem_map.mp htext
    exact (Api.printable_isoformat t).encodable
  have hnames : ∀ name ∈ event.payload.map Prod.fst, PyStr.Encodable name := by
    rw [payload_names]
    decide
  refine .object (nodup_payload_names event)
    (fun field hfield ↦ hnames field.1 (List.mem_map_of_mem hfield)) ?_
  simp only [AuditEvent.payload, List.forall_mem_cons]
  exact ⟨.str (huuid _), .str (huuid _), .int _, .str h.action, .str (hactor _),
    encodable_optional huser, .str h.resourceType, .str h.resourceId, .str (houtcome _),
    encodable_optional h.ipAddress, h.metadata, encodable_optional htime, .str h.previousHash,
    by simp⟩

/-- Two events are hashed from one text just when they agree in all that is hashed. -/
theorem sorted_payload_inj {event other : AuditEvent}
    (htime : ∀ t ∈ event.occurredAt, DateTime.InRange t)
    (htime' : ∀ t ∈ other.occurredAt, DateTime.InRange t) :
    (Json.object event.payload).sorted = (Json.object other.payload).sorted ↔
      event.hashed = other.hashed := by
  have hoccurred : event.occurredAt.map DateTime.isoformat =
      other.occurredAt.map DateTime.isoformat ↔ event.occurredAt = other.occurredAt := by
    cases hevent : event.occurredAt with
    | none => cases other.occurredAt <;> simp
    | some t =>
        cases hother : other.occurredAt with
        | none => simp
        | some t' => simpa using isoformat_inj (htime t hevent) (htime' t' hother)
  have huser : event.actorUserId.map Uuid.toStr = other.actorUserId.map Uuid.toStr ↔
      event.actorUserId = other.actorUserId :=
    (Option.map_injective fun _ _ ↦ uuid_to_str_inj.mp).eq_iff
  rw [sorted_object_inj (nodup_payload_names event) (by rw [payload_names, payload_names])]
  simp only [AuditEvent.payload, List.map_cons, List.map_nil, sorted_optional, sorted_object,
    List.cons.injEq, optional_inj, hoccurred, huser, AuditEvent.hashed, AuditEvent.mk.injEq]
  simp only [sorted, str.injEq, int.injEq, object.injEq, uuid_to_str_inj, actor_type_value_inj,
    outcome_value_inj, Nat.cast_inj]
  tauto

/-- Two events are hashed from the same bytes just when they agree in all that is hashed. -/
theorem canonical_bytes_inj {event other : AuditEvent} (h : event.Storable)
    (h' : other.Storable) :
    event.canonicalBytes = other.canonicalBytes ↔ event.hashed = other.hashed := by
  have hbytes : ∀ {event : AuditEvent}, event.Storable →
      event.canonicalBytes = asciiBytes (canonical (.object event.payload)) ∧
        PyBytes.decodeUtf8 event.canonicalBytes = some (canonical (.object event.payload)) := by
    intro event h
    have hprintable := printable_canonical (encodable_payload h)
    have hencode := encode_printable hprintable
    rw [PyStr.encode, if_pos hprintable.encodable] at hencode
    have heq : event.canonicalBytes = asciiBytes (canonical (.object event.payload)) :=
      Except.ok.inj hencode
    exact ⟨heq, heq ▸ decode_utf8_printable hprintable⟩
  have htext : event.canonicalBytes = other.canonicalBytes ↔
      canonical (.object event.payload) = canonical (.object other.payload) := by
    constructor
    · intro heq
      have hread := (hbytes h).2
      rw [heq, (hbytes h').2] at hread
      exact (Option.some.inj hread).symm
    · intro heq
      rw [(hbytes h).1, (hbytes h').1, heq]
  rw [htext, canonical_inj (encodable_payload h) (encodable_payload h'),
    sorted_payload_inj h.occurredAt h'.occurredAt]

/-- Numbers of one width have different digits. -/
theorem hex_inj {width n m : Nat} (hn : n < 16 ^ width) (hm : m < 16 ^ width) :
    PyStr.hex width n = PyStr.hex width m ↔ n = m := by
  refine ⟨fun h ↦ ?_, congrArg _⟩
  obtain ⟨digits, hdigits, hvalue⟩ := PyStr.map_hex_value_hex hn
  obtain ⟨digits', hdigits', hvalue'⟩ := PyStr.map_hex_value_hex hm
  rw [h, hdigits'] at hdigits
  rw [← hvalue, ← hvalue', Option.some.inj hdigits]

/-- Texts have one hash just when they have one digest. -/
theorem hexdigest_inj {data other : PyBytes} :
    lib.hexdigest data = lib.hexdigest other ↔ lib.sha256 data = lib.sha256 other := by
  rw [Library.hexdigest, Library.hexdigest, hex_inj (BitVec.isLt _) (BitVec.isLt _),
    BitVec.toNat_inj]

/-- The genesis is the hash of a text whose digest is zero. -/
theorem hexdigest_eq_genesis {data : PyBytes} :
    lib.hexdigest data = GENESIS_HASH ↔ lib.sha256 data = 0 := by
  have hgenesis : GENESIS_HASH = PyStr.hex 64 (0 : BitVec 256).toNat := by decide
  rw [hgenesis, Library.hexdigest, hex_inj (BitVec.isLt _) (BitVec.isLt _), BitVec.toNat_inj]

/-! ## The walk along the chain -/

/-- The hashes that the rows of a tenant state, and those that are computed of them. -/
def hashes (lib : Library) : HashChain AuditEventRecord PyStr where
  previous := AuditEventRecord.previousHash
  stated := AuditEventRecord.entryHash
  computed record := (auditToDomain record).computeHash lib

/-- A row is verified when it fits. -/
theorem verify_iff {expected : PyStr} {record : AuditEventRecord} :
    (auditToDomain record).verify lib expected = true ↔ (hashes lib).Fits expected record := by
  simp [AuditEvent.verify, HashChain.Fits, hashes, auditToDomain]

/-- The entries are verified one after another. -/
theorem verify_from_eq_walk (expected : PyStr) (checked : Nat) (records : List AuditEventRecord) :
    verifyFrom lib expected checked records =
      (((hashes lib).walk expected records).2.isNone,
        checked + ((hashes lib).walk expected records).1,
        ((hashes lib).walk expected records).2.map AuditEventRecord.sequence) := by
  induction records generalizing expected checked with
  | nil => rfl
  | cons record records ih =>
      rw [verifyFrom, HashChain.walk]
      by_cases h : (hashes lib).Fits expected record
      · have hentry : (auditToDomain record).entryHash = (hashes lib).stated record := rfl
        simp only [verify_iff, h, if_true, ih, hentry]
        rw [Nat.add_assoc, Nat.add_comm 1]
      · simp only [verify_iff, h, if_false]
        rfl

/-- As many of some entries as the walk is to take. -/
def upTo {α : Type} (limit : Option Nat) (entries : List α) : List α :=
  if limit.getD 0 = 0 then entries else entries.take (limit.getD 0)

/-- The walk takes the first entries. -/
theorem exists_up_to {α : Type} (limit : Option Nat) (entries : List α) :
    ∃ n, upTo limit entries = entries.take n := by
  unfold upTo
  split
  · exact ⟨entries.length, List.take_length.symm⟩
  · exact ⟨_, rfl⟩

theorem verify_chain_eq_walk (organizationId : Uuid) (limit : Option Nat)
    (rows : List AuditEventRecord) :
    verifyChain lib organizationId limit rows =
      (((hashes lib).walk GENESIS_HASH (upTo limit (chainOf organizationId rows))).2.isNone,
        ((hashes lib).walk GENESIS_HASH (upTo limit (chainOf organizationId rows))).1,
        ((hashes lib).walk GENESIS_HASH (upTo limit (chainOf organizationId rows))).2.map
          AuditEventRecord.sequence) := by
  rw [verifyChain, verify_from_eq_walk, Nat.zero_add]
  rfl

/-- The chain is intact just when every entry that is walked along fits. -/
theorem verify_chain_intact_iff {organizationId : Uuid} {limit : Option Nat}
    {rows : List AuditEventRecord} :
    (verifyChain lib organizationId limit rows).1 = true ↔
      (hashes lib).Linked GENESIS_HASH (upTo limit (chainOf organizationId rows)) := by
  rw [verify_chain_eq_walk, Option.isNone_iff_eq_none]
  refine ⟨HashChain.linked_of_walk, fun h ↦ ?_⟩
  rw [HashChain.walk_of_linked h]

/-- The rows of a tenant are rows. -/
theorem mem_of_mem_chain {organizationId : Uuid} {rows : List AuditEventRecord}
    {row : AuditEventRecord} (h : row ∈ chainOf organizationId rows) : row ∈ rows :=
  List.mem_of_mem_filter ((Keyset.ordered_perm _ _).subset h)

/-! ## Tampering -/

/-- A row of a tenant, of an event of the first second there is. -/
def exampleRow (actorLabel previousHash entryHash : PyStr) (sequence : Nat) :
    AuditEventRecord where
  id := 7
  organizationId := 1
  sequence := sequence
  action := py "member.removed"
  actorType := .USER
  actorUserId := some 10
  actorLabel := actorLabel
  resourceType := py "membership"
  resourceId := []
  outcome := .SUCCESS
  ipAddress := some (py "192.0.2.1")
  userAgent := []
  requestId := []
  eventMetadata := []
  previousHash := previousHash
  entryHash := entryHash
  occurredAt := 0

/-- A digest that tells nothing apart, but is not zero. -/
def constantLibrary : Library :=
  { plainLibrary with sha256 := fun _ ↦ 1 }

/-- The hash of everything. -/
def constantHash : PyStr :=
  PyStr.hex 64 1

theorem storable_example (actorLabel : PyStr) {previousHash : PyStr} (entryHash : PyStr)
    (sequence : Nat) (h : PyStr.Encodable previousHash) :
    (auditToDomain (exampleRow actorLabel previousHash entryHash sequence)).Storable := by
  have hmetadata : (Json.object []).Encodable :=
    .object (by decide) (by simp) (by simp)
  refine ⟨?_, ?_, ?_, fun text htext ↦ ?_, hmetadata, h, fun t ht ↦ ?_⟩
  · exact (by decide : PyStr.Encodable (py "member.removed"))
  · exact (by decide : PyStr.Encodable (py "membership"))
  · exact (by decide : PyStr.Encodable [])
  · obtain rfl := Option.some.inj htext
    exact (by decide : PyStr.Encodable (py "192.0.2.1"))
  · obtain rfl := Option.some.inj ht
    exact (by decide : DateTime.InRange 0)

/-- A log of one row is its own chain. -/
theorem chain_singleton (row : AuditEventRecord) : chainOf row.organizationId [row] = [row] := by
  rw [chainOf, List.filter_cons_of_pos (by simp), List.filter_nil, Keyset.ordered,
    List.mergeSort_singleton]

/-- A log that is, in all that is hashed, the beginning of an accepted log is accepted as well:
the walk sees neither what is not hashed nor that the newest entries are missing. -/
theorem accepted_of_beginning {organizationId : Uuid} {rows others : List AuditEventRecord}
    (hstorable : ∀ row ∈ rows ++ others, (auditToDomain row).Storable)
    (hrows : (verifyChain lib organizationId none rows).1 = true)
    (hbeginning : (chainOf organizationId others).map
        (fun row ↦ ((auditToDomain row).hashed, row.entryHash)) <+:
      (chainOf organizationId rows).map fun row ↦ ((auditToDomain row).hashed, row.entryHash))
    (limit : Option Nat) : (verifyChain lib organizationId limit others).1 = true := by
  obtain ⟨m, hm⟩ := exists_up_to limit (chainOf organizationId others)
  obtain ⟨n, hn⟩ : ∃ n, (chainOf organizationId others).map
        (fun row ↦ ((auditToDomain row).hashed, row.entryHash)) =
      ((chainOf organizationId rows).take n).map
        fun row ↦ ((auditToDomain row).hashed, row.entryHash) := by
    rw [List.prefix_iff_eq_take] at hbeginning
    exact ⟨_, hbeginning.trans (List.map_take ..).symm⟩
  have hlinked := ((verify_chain_intact_iff.mp hrows : (hashes lib).Linked GENESIS_HASH
    (chainOf organizationId rows)).take n)
  rw [verify_chain_intact_iff, hm]
  refine HashChain.Linked.take (hlinked.of_contents hn fun e he f hf heq ↦ ?_) m
  obtain ⟨hhashed, hentry⟩ := Prod.mk.inj heq
  have he' := mem_of_mem_chain (List.mem_of_mem_take he)
  have hbytes := (canonical_bytes_inj (hstorable f (List.mem_append_right _ (mem_of_mem_chain hf)))
    (hstorable e (List.mem_append_left _ he'))).mpr hhashed
  exact ⟨congrArg AuditEvent.previousHash hhashed, hentry, congrArg lib.hexdigest hbytes⟩

/-- The newest entry is missing, and the label of the actor of the other one is another one. -/
theorem accepted_of_beginning_relabelled :
    (verifyChain constantLibrary 1 none
      [exampleRow (py "mallory") GENESIS_HASH constantHash 1]).1 = true := by
  have hrows : chainOf 1 [exampleRow (py "alice") GENESIS_HASH constantHash 1,
        exampleRow (py "alice") constantHash constantHash 2] =
      [exampleRow (py "alice") GENESIS_HASH constantHash 1,
        exampleRow (py "alice") constantHash constantHash 2] :=
    List.mergeSort_of_pairwise (by decide)
  have hothers : chainOf 1 [exampleRow (py "mallory") GENESIS_HASH constantHash 1] =
      [exampleRow (py "mallory") GENESIS_HASH constantHash 1] :=
    chain_singleton (exampleRow (py "mallory") GENESIS_HASH constantHash 1)
  have haccepted : (verifyChain constantLibrary 1 none
      [exampleRow (py "alice") GENESIS_HASH constantHash 1,
        exampleRow (py "alice") constantHash constantHash 2]).1 = true := by
    rw [verify_chain_intact_iff]
    show (hashes constantLibrary).Linked GENESIS_HASH (chainOf 1 _)
    rw [hrows]
    exact ⟨⟨rfl, rfl⟩, ⟨rfl, rfl⟩, trivial⟩
  have hgenesis : PyStr.Encodable GENESIS_HASH := encodable_of_printable (by decide)
  have hconstant : PyStr.Encodable constantHash := encodable_of_printable (by decide)
  refine accepted_of_beginning (fun row hrow ↦ ?_) haccepted ?_ none
  · rcases List.mem_cons.mp hrow with rfl | hrow
    · exact storable_example _ _ _ hgenesis
    · rcases List.mem_pair.mp hrow with rfl | rfl
      · exact storable_example _ _ _ hconstant
      · exact storable_example _ _ _ hgenesis
  · rw [hrows, hothers]
    exact ⟨_, rfl⟩

end Aegis.Access.AuditChain
