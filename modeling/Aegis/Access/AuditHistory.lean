import Aegis.Access.AuditVerification

/-!
# Verifying what was appended

Events of many tenants are appended one after another, and some of them are refused. The events
of a tenant are numbered from one without a gap, whatever is refused, and `verify_chain` finds the
chain intact up to the first event whose address or metadata the database gives back changed.
-/

namespace Aegis.Access.AuditChain

open Aegis.Server Json

variable {lib : Library} {columns : Columns}

/-- The sealed events and their rows after more events, each appended at a time, unless it is
refused. -/
def appendAll (lib : Library) (columns : Columns) (entries : List (AuditEvent × AuditEventRecord)) :
    List (Instant × AuditEvent) → List (AuditEvent × AuditEventRecord)
  | [] => entries
  | (utcnow, event) :: events =>
      let appended := append lib columns utcnow (entries.map Prod.snd) event
      appendAll lib columns (entries ++ appended.toOption.toList) events

/-- The sealed events and their rows, when there was none before. -/
def history (lib : Library) (columns : Columns) (events : List (Instant × AuditEvent)) :
    List (AuditEvent × AuditEventRecord) :=
  appendAll lib columns [] events

/-- The entries of a tenant. -/
def entriesOf (organizationId : Uuid) (entries : List (AuditEvent × AuditEventRecord)) :
    List (AuditEvent × AuditEventRecord) :=
  entries.filter fun entry ↦ entry.1.organizationId == organizationId

/-- The database gives the event back as it was sealed, in all that is hashed. -/
def Unaltered (entry : AuditEvent × AuditEventRecord) : Prop :=
  entry.2.ipAddress = entry.1.ipAddress ∧
    sortedObject entry.2.eventMetadata = sortedObject entry.1.metadata

/-- What columns keep has an encoding. -/
structure Columns.Sound (columns : Columns) : Prop where
  inet : ∀ text kept, columns.inet text = some kept → PyStr.Encodable kept
  jsonb : ∀ fields kept, columns.jsonb fields = some kept → (Json.object kept).Encodable

/-- An event that was sealed, and the row of it. -/
structure Sealed (lib : Library) (entry : AuditEvent × AuditEventRecord) : Prop where
  hash : entry.1.entryHash = entry.1.computeHash lib
  row : auditToDomain entry.2 =
    { entry.1 with ipAddress := entry.2.ipAddress, metadata := entry.2.eventMetadata }
  storable : entry.1.Storable
  stored : (auditToDomain entry.2).Storable

/-- The entries of every tenant are sealed, each with its place in the chain. -/
structure Appended (lib : Library) (entries : List (AuditEvent × AuditEventRecord)) : Prop where
  entry_sealed : ∀ entry ∈ entries, Sealed lib entry
  placed : ∀ organizationId before entry after,
    entriesOf organizationId entries = before ++ entry :: after →
      entry.1.sequence = before.length + 1 ∧
        entry.1.previousHash = (hashes lib).lastDigest GENESIS_HASH (before.map Prod.snd)

/-- A row has the tenant and the number of its event. -/
theorem Sealed.place {entry : AuditEvent × AuditEventRecord} (h : Sealed lib entry) :
    entry.2.organizationId = entry.1.organizationId ∧ entry.2.sequence = entry.1.sequence ∧
      entry.2.previousHash = entry.1.previousHash ∧ entry.2.entryHash = entry.1.entryHash :=
  ⟨congrArg AuditEvent.organizationId h.row, congrArg AuditEvent.sequence h.row,
    congrArg AuditEvent.previousHash h.row, congrArg AuditEvent.entryHash h.row⟩

/-- The events of a tenant are numbered in the order in which they were appended. -/
theorem Appended.sequence_lt {entries : List (AuditEvent × AuditEventRecord)}
    (h : Appended lib entries) (organizationId : Uuid) :
    (entriesOf organizationId entries).Pairwise fun a b ↦ a.1.sequence < b.1.sequence := by
  rw [List.pairwise_iff_getElem]
  intro i j hi hj hij
  have hplace : ∀ k (hk : k < (entriesOf organizationId entries).length),
      (entriesOf organizationId entries)[k].1.sequence = k + 1 := by
    intro k hk
    have hsplit := h.placed organizationId ((entriesOf organizationId entries).take k) _
      ((entriesOf organizationId entries).drop (k + 1)) (by
        rw [List.getElem_cons_drop hk, List.take_append_drop])
    rw [hsplit.1, List.length_take, min_eq_left hk.le]
  rw [hplace i hi, hplace j hj]
  omega

/-- The chain of a tenant is its entries. -/
theorem Appended.chain_eq {entries : List (AuditEvent × AuditEventRecord)}
    (h : Appended lib entries) (organizationId : Uuid) :
    chainOf organizationId (entries.map Prod.snd) =
      (entriesOf organizationId entries).map Prod.snd := by
  have hrows : (entries.map Prod.snd).filter (fun row ↦ row.organizationId == organizationId) =
      (entriesOf organizationId entries).map Prod.snd := by
    rw [List.filter_map, entriesOf]
    refine congrArg (List.map Prod.snd) (List.filter_congr fun entry hentry ↦ ?_)
    rw [← (h.entry_sealed entry hentry).place.1]
    rfl
  rw [chainOf, hrows, Keyset.ordered]
  refine List.mergeSort_of_pairwise ?_
  rw [List.pairwise_map]
  refine (h.sequence_lt organizationId).imp_of_mem fun {a b} ha hb hlt ↦ ?_
  rw [decide_eq_true_eq, (h.entry_sealed a (List.mem_of_mem_filter ha)).place.2.1,
    (h.entry_sealed b (List.mem_of_mem_filter hb)).place.2.1]
  exact hlt.le

/-! ## What one append does -/

/-- A row that is there differs from the one that was inserted in its address and its metadata at
most. -/
theorem stored_eq_ok {record row : AuditEventRecord} (h : columns.stored record = .ok row) :
    row = { record with ipAddress := row.ipAddress, eventMetadata := row.eventMetadata } ∧
      (∀ kept ∈ row.ipAddress, ∃ text, columns.inet text = some kept) ∧
      columns.jsonb record.eventMetadata = some row.eventMetadata := by
  obtain ⟨ipAddress, hip, h⟩ := Checked.bind_eq_ok.mp h
  obtain ⟨eventMetadata, hmetadata, h⟩ := Checked.bind_eq_ok.mp h
  obtain rfl := Except.ok.inj h
  refine ⟨rfl, fun kept hkept ↦ ?_, ?_⟩
  · obtain rfl : ipAddress = some kept := hkept
    cases hrecord : record.ipAddress with
    | none =>
        rw [hrecord] at hip
        cases hip
    | some text =>
        rw [hrecord, Columns.storedAddress] at hip
        cases hinet : columns.inet text with
        | none =>
            rw [hinet] at hip
            cases hip
        | some found =>
            rw [hinet] at hip
            exact ⟨text, hinet.trans (Except.ok.inj hip)⟩
  · cases hjsonb : columns.jsonb record.eventMetadata with
    | none =>
        rw [hjsonb] at hmetadata
        cases hmetadata
    | some kept =>
        rw [hjsonb] at hmetadata
        exact congrArg some (Except.ok.inj hmetadata)

/-- An event that is appended is sealed behind the last one of its tenant. -/
theorem append_eq_ok {utcnow : Instant} {rows : List AuditEventRecord} {event : AuditEvent}
    {entry : AuditEvent × AuditEventRecord}
    (h : append lib columns utcnow rows event = .ok entry) :
    entry.1 = event.sealed lib
        ((hashes lib).lastDigest GENESIS_HASH (chainOf event.organizationId rows))
        (event.occurredAt.getD utcnow)
        ((chainOf event.organizationId rows).getLast?.elim 1 fun tail ↦ tail.sequence + 1) ∧
      auditToDomain entry.2 =
        { entry.1 with ipAddress := entry.2.ipAddress, metadata := entry.2.eventMetadata } ∧
      (∀ kept ∈ entry.2.ipAddress, ∃ text, columns.inet text = some kept) ∧
      columns.jsonb entry.1.metadata = some entry.2.eventMetadata := by
  obtain ⟨record, hrecord, h⟩ := Checked.bind_eq_ok.mp h
  obtain ⟨row, hrow, h⟩ := Checked.bind_eq_ok.mp h
  obtain ⟨hsame, hinet, hjsonb⟩ := stored_eq_ok hrow
  split at h
  · cases h
  · obtain rfl := Except.ok.inj h
    obtain rfl := Except.ok.inj hrecord
    refine ⟨?_, ?_, hinet, hjsonb⟩
    · rw [HashChain.lastDigest]
      cases (chainOf event.organizationId rows).getLast? <;> rfl
    · rw [hsame]
      rfl

/-- The next number is one more than there are entries. -/
theorem Appended.next_sequence {entries : List (AuditEvent × AuditEventRecord)}
    (h : Appended lib entries) (organizationId : Uuid) :
    ((chainOf organizationId (entries.map Prod.snd)).getLast?.elim 1 fun tail ↦
      tail.sequence + 1) = (entriesOf organizationId entries).length + 1 := by
  rw [h.chain_eq]
  obtain hnil | ⟨before, last, hconcat⟩ := (entriesOf organizationId entries).eq_nil_or_concat'
  · rw [hnil]
    rfl
  · have hmem : last ∈ entries :=
      List.mem_of_mem_filter (hconcat ▸ List.mem_append_right before List.mem_cons_self)
    rw [hconcat]
    simp [(h.entry_sealed last hmem).place.2.1, (h.placed _ before last [] hconcat).1]

/-- The hash that the next event of a tenant is sealed behind has an encoding. -/
theorem Appended.encodable_last_digest {entries : List (AuditEvent × AuditEventRecord)}
    (h : Appended lib entries) (organizationId : Uuid) :
    PyStr.Encodable ((hashes lib).lastDigest GENESIS_HASH
      (chainOf organizationId (entries.map Prod.snd))) := by
  rw [h.chain_eq]
  obtain hnil | ⟨before, last, hconcat⟩ := (entriesOf organizationId entries).eq_nil_or_concat'
  · rw [hnil]
    show PyStr.Encodable GENESIS_HASH
    exact encodable_of_printable (by decide)
  · have hmem : last ∈ entries :=
      List.mem_of_mem_filter (hconcat ▸ List.mem_append_right before List.mem_cons_self)
    have hsealed := h.entry_sealed last hmem
    rw [hconcat, List.map_append, List.map_singleton, HashChain.last_digest_concat]
    show PyStr.Encodable last.2.entryHash
    rw [hsealed.place.2.2.2, hsealed.hash]
    refine PyStr.encodable_of_ascii fun c hc ↦ ?_
    have := PyStr.val_of_mem_hex hc
    omega

/-- The hash is not hashed. -/
theorem compute_hash_with_entry_hash (event : AuditEvent) (hash : PyStr) :
    ({ event with entryHash := hash } : AuditEvent).computeHash lib = event.computeHash lib := rfl

/-- An event that is appended is sealed, and so is its row. -/
theorem Appended.sealed_append {entries : List (AuditEvent × AuditEventRecord)}
    (h : Appended lib entries) (hcolumns : columns.Sound) {utcnow : Instant} {event : AuditEvent}
    (hevent : event.Storable) (hnow : DateTime.InRange utcnow)
    {entry : AuditEvent × AuditEventRecord}
    (hok : append lib columns utcnow (entries.map Prod.snd) event = .ok entry) :
    Sealed lib entry := by
  obtain ⟨hsealed, hrow, hinet, hjsonb⟩ := append_eq_ok hok
  have htime : DateTime.InRange (event.occurredAt.getD utcnow) := by
    cases htime : event.occurredAt with
    | none => exact hnow
    | some t => exact hevent.occurredAt t htime
  have hstorable : entry.1.Storable := by
    rw [hsealed]
    exact ⟨hevent.action, hevent.resourceType, hevent.resourceId, hevent.ipAddress,
      hevent.metadata, h.encodable_last_digest _, fun t ht ↦ Option.some.inj ht ▸ htime⟩
  refine ⟨?_, hrow, hstorable, ?_⟩
  · rw [hsealed]
    exact (compute_hash_with_entry_hash _ _).symm
  · rw [hrow]
    refine ⟨hstorable.action, hstorable.resourceType, hstorable.resourceId, fun kept hkept ↦ ?_,
      hcolumns.jsonb _ _ hjsonb, hstorable.previousHash, hstorable.occurredAt⟩
    obtain ⟨text, htext⟩ := hinet kept hkept
    exact hcolumns.inet text kept htext

/-- Appending an event keeps every entry in its place. -/
theorem Appended.append {entries : List (AuditEvent × AuditEventRecord)}
    (h : Appended lib entries) (hcolumns : columns.Sound) {utcnow : Instant} {event : AuditEvent}
    (hevent : event.Storable) (hnow : DateTime.InRange utcnow)
    {entry : AuditEvent × AuditEventRecord}
    (hok : append lib columns utcnow (entries.map Prod.snd) event = .ok entry) :
    Appended lib (entries ++ [entry]) := by
  have hsealed := h.sealed_append hcolumns hevent hnow hok
  obtain ⟨hplaced, -⟩ := append_eq_ok hok
  refine ⟨fun e he ↦ ?_, fun organizationId before e after hsplit ↦ ?_⟩
  · rcases List.mem_append.mp he with he | he
    · exact h.entry_sealed e he
    · exact List.mem_singleton.mp he ▸ hsealed
  · have htenant : entry.1.organizationId = event.organizationId := by rw [hplaced]; rfl
    rw [entriesOf, List.filter_append, ← entriesOf] at hsplit
    by_cases hown : entry.1.organizationId = organizationId
    · rw [List.filter_cons_of_pos (by simpa using hown), List.filter_nil] at hsplit
      obtain rfl | ⟨after, last, rfl⟩ := after.eq_nil_or_concat'
      · -- The entry is the new one.
        obtain ⟨rfl, hlast⟩ := List.append_inj' hsplit rfl
        obtain rfl := List.singleton_inj.mp hlast
        rw [hplaced, ← hown, htenant]
        refine ⟨h.next_sequence _, ?_⟩
        rw [← h.chain_eq]
        rfl
      · rw [← List.cons_append, ← List.append_assoc] at hsplit
        exact h.placed organizationId before e after (List.append_inj_left' hsplit rfl)
    · rw [List.filter_cons_of_neg (by simpa using hown), List.filter_nil, List.append_nil] at hsplit
      exact h.placed organizationId before e after hsplit

/-- Events that are appended one after another, unless they are refused, are in their places. -/
theorem appended_all (hcolumns : columns.Sound) {entries : List (AuditEvent × AuditEventRecord)}
    (h : Appended lib entries) {events : List (Instant × AuditEvent)}
    (hevents : ∀ p ∈ events, DateTime.InRange p.1 ∧ p.2.Storable) :
    Appended lib (appendAll lib columns entries events) := by
  induction events generalizing entries with
  | nil => exact h
  | cons p events ih =>
      obtain ⟨utcnow, event⟩ := p
      obtain ⟨⟨hnow, hevent⟩, hrest⟩ := List.forall_mem_cons.mp hevents
      refine ih ?_ hrest
      cases hok : AuditChain.append lib columns utcnow (entries.map Prod.snd) event with
      | error e => simpa [Except.toOption] using h
      | ok entry => exact h.append hcolumns hevent hnow hok

/-- Nothing is in a wrong place in an empty history. -/
theorem appended_nil : Appended lib [] :=
  ⟨fun _ h ↦ absurd h List.not_mem_nil, fun _ before _ _ h ↦ by
    rw [entriesOf, List.filter_nil] at h
    exact absurd h.symm (List.append_ne_nil_of_right_ne_nil before (List.cons_ne_nil _ _))⟩

/-! ## What the walk finds -/

/-- An entry fits just when the database gives it back unaltered. -/
theorem Appended.fits_iff {entries : List (AuditEvent × AuditEventRecord)}
    (h : Appended lib entries) {organizationId : Uuid}
    {before after : List (AuditEvent × AuditEventRecord)} {entry : AuditEvent × AuditEventRecord}
    (hsplit : entriesOf organizationId entries = before ++ entry :: after)
    (hcollision : lib.sha256 entry.1.canonicalBytes =
        lib.sha256 (auditToDomain entry.2).canonicalBytes →
      entry.1.canonicalBytes = (auditToDomain entry.2).canonicalBytes) :
    (hashes lib).Fits ((hashes lib).lastDigest GENESIS_HASH (before.map Prod.snd)) entry.2 ↔
      Unaltered entry := by
  have hsealed := h.entry_sealed entry (List.mem_of_mem_filter
    (hsplit ▸ List.mem_append_right before List.mem_cons_self))
  obtain ⟨-, hprevious⟩ := h.placed organizationId before entry after hsplit
  have hhashed : entry.1.hashed = (auditToDomain entry.2).hashed ↔ Unaltered entry := by
    rw [hsealed.row]
    simp only [AuditEvent.hashed, AuditEvent.mk.injEq, Unaltered, true_and, and_true]
    exact and_congr eq_comm eq_comm
  rw [← hhashed, ← canonical_bytes_inj hsealed.storable hsealed.stored]
  have hhash : (hashes lib).stated entry.2 = (hashes lib).computed entry.2 ↔
      lib.sha256 entry.1.canonicalBytes = lib.sha256 (auditToDomain entry.2).canonicalBytes := by
    rw [← hexdigest_inj]
    show entry.2.entryHash = _ ↔ _
    rw [hsealed.place.2.2.2, hsealed.hash]
    rfl
  rw [HashChain.Fits, hhash]
  refine ⟨fun hfits ↦ hcollision hfits.2, fun hbytes ↦ ⟨?_, congrArg _ hbytes⟩⟩
  exact hsealed.place.2.2.1.trans hprevious

/-- The walk takes as many rows as entries. -/
theorem up_to_map {α β : Type} (limit : Option Nat) (f : α → β) (entries : List α) :
    upTo limit (entries.map f) = (upTo limit entries).map f := by
  unfold upTo
  split
  · rfl
  · exact (List.map_take ..).symm

/-- Whatever events of whatever tenants are appended, and whichever of them are refused:
`verify_chain` finds the chain of a tenant intact when the database gives all of its events back
unaltered, and broken at the first one that it does not. -/
theorem verify_chain_appended (hcolumns : columns.Sound) {events : List (Instant × AuditEvent)}
    (hevents : ∀ p ∈ events, DateTime.InRange p.1 ∧ p.2.Storable)
    (hcollision : ∀ entry ∈ history lib columns events,
      lib.sha256 entry.1.canonicalBytes = lib.sha256 (auditToDomain entry.2).canonicalBytes →
      entry.1.canonicalBytes = (auditToDomain entry.2).canonicalBytes)
    (organizationId : Uuid) (limit : Option Nat) :
    ((∀ entry ∈ upTo limit (entriesOf organizationId (history lib columns events)),
        Unaltered entry) →
      verifyChain lib organizationId limit ((history lib columns events).map Prod.snd) =
        (true, (upTo limit (entriesOf organizationId (history lib columns events))).length,
          none)) ∧
    ∀ before entry after,
      upTo limit (entriesOf organizationId (history lib columns events)) =
        before ++ entry :: after →
      (∀ earlier ∈ before, Unaltered earlier) → ¬Unaltered entry →
      verifyChain lib organizationId limit ((history lib columns events).map Prod.snd) =
        (false, before.length + 1, some (before.length + 1)) := by
  have happended : Appended lib (history lib columns events) :=
    appended_all hcolumns appended_nil hevents
  obtain ⟨n, hn⟩ := exists_up_to limit (entriesOf organizationId (history lib columns events))
  -- An entry that the walk takes stands in the same place in the whole chain.
  have hfits : ∀ before entry after,
      upTo limit (entriesOf organizationId (history lib columns events)) =
        before ++ entry :: after →
      ((hashes lib).Fits ((hashes lib).lastDigest GENESIS_HASH (before.map Prod.snd)) entry.2 ↔
        Unaltered entry) ∧ entry.2.sequence = before.length + 1 := by
    intro before entry after hsplit
    have hwhole : entriesOf organizationId (history lib columns events) = before ++ entry ::
        (after ++ (entriesOf organizationId (history lib columns events)).drop n) := by
      rw [← List.cons_append, ← List.append_assoc, ← hsplit, hn, List.take_append_drop]
    have hmem : entry ∈ history lib columns events := List.mem_of_mem_filter
      (hwhole ▸ List.mem_append_right before List.mem_cons_self)
    refine ⟨happended.fits_iff hwhole (hcollision entry hmem), ?_⟩
    rw [(happended.entry_sealed entry hmem).place.2.1, (happended.placed _ _ _ _ hwhole).1]
  -- Entries that are all unaltered are linked.
  have hlinked : ∀ before after,
      upTo limit (entriesOf organizationId (history lib columns events)) = before ++ after →
      (∀ entry ∈ before, Unaltered entry) →
      (hashes lib).Linked GENESIS_HASH (before.map Prod.snd) := by
    intro before after hsplit hbefore
    rw [HashChain.linked_iff_forall]
    intro earlier row later hrows
    obtain ⟨first, rest, rfl, rfl, hrest⟩ := List.map_eq_append_iff.mp hrows
    obtain ⟨entry, last, rfl, rfl, -⟩ := List.map_eq_cons_iff.mp hrest
    refine (hfits first entry (last ++ after) (by rw [hsplit]; simp)).1.mpr (hbefore entry ?_)
    exact List.mem_append_right first List.mem_cons_self
  rw [verify_chain_eq_walk, happended.chain_eq, up_to_map]
  constructor
  · intro hall
    rw [HashChain.walk_of_linked (hlinked _ [] (List.append_nil _).symm hall), List.length_map]
    rfl
  · intro before entry after hsplit hbefore hentry
    obtain ⟨hiff, hsequence⟩ := hfits before entry after hsplit
    rw [hsplit, List.map_append, List.map_cons, HashChain.walk_of_not_fits
      (hlinked before (entry :: after) hsplit hbefore) (fun h ↦ hentry (hiff.mp h)),
      List.length_map]
    simp [hsequence]

/-- An event of an address that is written in capitals. -/
def capitalEvent : AuditEvent :=
  { auditToDomain (exampleRow [] GENESIS_HASH [] 0) with ipAddress := some (py "2001:DB8::1") }

/-- A digest that tells the event, as it is sealed, from everything else. -/
def capitalLibrary : Library :=
  { plainLibrary with
    sha256 := fun data ↦
      if data = (capitalEvent.linked GENESIS_HASH 0 1).canonicalBytes then 1 else 2 }

/-- The address is given back in small letters. -/
def smallColumns : Columns :=
  ⟨fun text ↦ if text = py "2001:DB8::1" then some (py "2001:db8::1") else none,
    fun fields ↦ if fields.isEmpty then some [] else none⟩

theorem sound_small_columns : smallColumns.Sound := by
  refine ⟨fun text kept hkept ↦ ?_, fun fields kept hkept ↦ ?_⟩
  · obtain ⟨-, hkept⟩ := Option.ite_none_right_eq_some.mp hkept
    rw [← Option.some.inj hkept]
    decide
  · obtain ⟨-, hkept⟩ := Option.ite_none_right_eq_some.mp hkept
    rw [← Option.some.inj hkept]
    exact .object (by decide) (by simp) (by simp)

theorem storable_capital : capitalEvent.Storable := by
  have hexample := storable_example [] [] 0
    (encodable_of_printable (by decide) : PyStr.Encodable GENESIS_HASH)
  refine ⟨hexample.action, hexample.resourceType, hexample.resourceId, fun text htext ↦ ?_,
    hexample.metadata, hexample.previousHash, hexample.occurredAt⟩
  obtain rfl := Option.some.inj htext
  exact (by decide : PyStr.Encodable (py "2001:DB8::1"))

/-- The event is the first one of its tenant. -/
theorem history_capital :
    ∃ row, history capitalLibrary smallColumns [(0, capitalEvent)] =
        [(capitalEvent.sealed capitalLibrary GENESIS_HASH 0 1, row)] ∧
      row.ipAddress = some (py "2001:db8::1") := by
  have hchain : chainOf capitalEvent.organizationId [] = [] := by
    rw [chainOf, List.filter_nil, Keyset.ordered, List.mergeSort_nil]
  rw [history, appendAll, appendAll, List.map_nil, append, hchain]
  exact ⟨_, rfl, rfl⟩

/-- The event breaks the chain of its tenant. -/
theorem verify_chain_appended_capital :
    verifyChain capitalLibrary 1 none
        ((history capitalLibrary smallColumns [(0, capitalEvent)]).map Prod.snd) =
      (false, 1, some 1) := by
  obtain ⟨row, hhistory, haddress⟩ := history_capital
  refine (verify_chain_appended sound_small_columns (fun p hp ↦ ?_) (fun e he heq ↦ ?_) 1
    none).2 [] (capitalEvent.sealed capitalLibrary GENESIS_HASH 0 1, row) [] ?_
    (fun _ h ↦ absurd h List.not_mem_nil) fun h ↦ ?_
  · rw [List.mem_singleton.mp hp]
    exact ⟨by decide, storable_capital⟩
  · rw [hhistory] at he
    rw [List.mem_singleton.mp he] at heq ⊢
    by_contra hne
    have hother : (auditToDomain row).canonicalBytes ≠
        (capitalEvent.linked GENESIS_HASH 0 1).canonicalBytes := fun h ↦ hne h.symm
    have hdigest : capitalLibrary.sha256 (auditToDomain row).canonicalBytes = 2 := if_neg hother
    rw [hdigest] at heq
    exact absurd (heq.symm.trans (if_pos rfl)) (by decide)
  · rw [hhistory]
    rfl
  · have hsame : some (py "2001:db8::1") = some (py "2001:DB8::1") := haddress.symm.trans h.1
    exact absurd hsame (by decide)

end Aegis.Access.AuditChain
