import Aegis.Access.Members
import Aegis.Inventory.Applications
import Aegis.Inventory.Registration
import Aegis.Lib.Notes

/-!
# Licence limits under concurrent creation

`CreateApplication`, `RegisterAgent` and `InviteMember` count what the licence limits, and insert in
a later statement. Nothing keeps another transaction from inserting in between:
`last_place_taken_twice` has two transactions that are both admitted to the last place.
`limits_held` says that the limits hold in every run in which no transaction takes the last place
while another one that has been admitted is under way.
-/

namespace Aegis.Inventory

open Aegis.Server Aegis.Access Aegis.Api Database Transaction

/-! ## What a licence limits -/

/-- What a licence limits. -/
inductive Kind where
  | applications
  | agents
  | memberships
  deriving DecidableEq, Repr

/-- One limit of one organization. -/
structure Slot where
  organizationId : Uuid
  kind : Kind
  deriving DecidableEq, Repr

/-- How many there are. -/
def numberOf (slot : Slot) (db : Database) : Nat :=
  match slot.kind with
  | .applications => db.applications.rows.countP fun row ↦ row.organizationId == slot.organizationId
  | .agents => db.agents.rows.countP fun row ↦ row.organizationId == slot.organizationId
  | .memberships => db.memberships.rows.countP fun row ↦ row.organizationId == slot.organizationId

/-- The maximum of a licence, where it is not negative. -/
def maximumOf (license : License) (kind : Kind) : Option Nat :=
  let maximum := match kind with
    | .applications => license.maxApplications
    | .agents => license.maxAgents
    | .memberships => license.maxUsers
  if 0 ≤ maximum then some maximum.toNat else none

/-- The limit an organization has. -/
def limitOf (slot : Slot) (db : Database) : Option Nat :=
  (db.licenses.rows.find? fun license ↦ license.organizationId == slot.organizationId).bind
    fun license ↦ maximumOf license slot.kind

/-- The check of the licence against a limit. -/
def Kind.room : Kind → License → Nat → Except DomainError Unit
  | applications => License.checkApplications
  | agents => License.checkAgents
  | memberships => License.checkUsers

/-- There is room for one more below the maximum only. -/
theorem lt_of_room {kind : Kind} {license : License} {n m : Nat}
    (hroom : kind.room license n = .ok ()) (hmaximum : maximumOf license kind = some m) :
    n < m := by
  have hlimit : ∀ (name : PyStr) (limit : Int), License.checkLimit name limit n = .ok () →
      (if 0 ≤ limit then some limit.toNat else none) = some m → n < m := by
    intro name limit hcheck hsome
    rw [License.checkLimit] at hcheck
    split at hcheck
    · cases hcheck
    · split at hsome
      · cases hsome
        omega
      · cases hsome
  cases kind with
  | applications => exact hlimit _ _ hroom hmaximum
  | agents => exact hlimit _ _ hroom hmaximum
  | memberships => exact hlimit _ _ hroom hmaximum

/-! ## What is created -/

/-- Whether a write adds to what a limit counts. -/
def adds (slot : Slot) : Write → Bool
  | .applications (.insert row) =>
      slot.kind == .applications && row.organizationId == slot.organizationId
  | .agents (.insert row) => slot.kind == .agents && row.organizationId == slot.organizationId
  | .memberships (.insert row) =>
      slot.kind == .memberships && row.organizationId == slot.organizationId
  | _ => false

/-- A write that adds to no limit and takes from none. -/
def Plain : Write → Prop
  | .agents (.modify _ edit) => ∀ agent, (edit.run agent).organizationId = agent.organizationId
  | .applications _ | .agents _ | .memberships _ => False
  | _ => True

/-- A write that takes from no limit. -/
def Creates : Write → Prop
  | .applications (.insert _) | .agents (.insert _) | .memberships (.insert _) => True
  | u => Plain u

theorem Plain.creates {u : Write} (hu : Plain u) : Creates u := by
  unfold Creates
  split
  · trivial
  · trivial
  · trivial
  · exact hu

theorem Plain.not_adds {u : Write} (hu : Plain u) (slot : Slot) : adds slot u = false := by
  unfold adds
  split
  · exact hu.elim
  · exact hu.elim
  · exact hu.elim
  · rfl

/-- No write changes a licence. -/
theorem licenses_apply (u : Write) (db : Database) : (Store.apply db u).licenses = db.licenses := by
  cases u with
  | memberships u => cases u <;> rfl
  | _ => rfl

/-- An insertion adds the row at most. -/
theorem count_insert {V K : Type} [Keyed K V] [DecidableEq K] (t : Table V) (row : V)
    (p : V → Bool) : t.rows.countP p ≤ (t.insert row).rows.countP p ∧
      (t.insert row).rows.countP p ≤ t.rows.countP p + if p row then 1 else 0 := by
  unfold Table.insert
  split
  · exact ⟨le_rfl, Nat.le_add_right _ _⟩
  · rw [List.countP_append, List.countP_singleton]
    exact ⟨Nat.le_add_right _ _, le_rfl⟩

/-- A write of a creation adds what it says to each limit, at most, and takes nothing. -/
theorem number_apply {u : Write} (hu : Creates u) (slot : Slot) (db : Database) :
    numberOf slot db ≤ numberOf slot (Store.apply db u) ∧
      numberOf slot (Store.apply db u) ≤ numberOf slot db + if adds slot u then 1 else 0 := by
  obtain ⟨organizationId, kind⟩ := slot
  have hsame : ∀ {u : Write}, numberOf ⟨organizationId, kind⟩ (Store.apply db u) =
      numberOf ⟨organizationId, kind⟩ db →
      numberOf ⟨organizationId, kind⟩ db ≤ numberOf ⟨organizationId, kind⟩ (Store.apply db u) ∧
        numberOf ⟨organizationId, kind⟩ (Store.apply db u) ≤
          numberOf ⟨organizationId, kind⟩ db + if adds ⟨organizationId, kind⟩ u then 1 else 0 :=
    fun h ↦ ⟨h.ge, h.le.trans (Nat.le_add_right _ _)⟩
  cases u with
  | applications u =>
      cases u with
      | insert row =>
          cases kind with
          | applications => exact count_insert _ row fun row ↦ row.organizationId == organizationId
          | _ => exact hsame rfl
      | _ => exact hu.elim
  | memberships u =>
      cases u with
      | insert row =>
          cases kind with
          | memberships => exact count_insert _ row fun row ↦ row.organizationId == organizationId
          | _ => exact hsame rfl
      | _ => exact hu.elim
  | agents u =>
      cases u with
      | insert row =>
          cases kind with
          | agents => exact count_insert _ row fun row ↦ row.organizationId == organizationId
          | _ => exact hsame rfl
      | modify k edit =>
          refine hsame ?_
          cases kind with
          | agents =>
              show (db.agents.rows.map (Table.editAt k edit)).countP _ = db.agents.rows.countP _
              rw [List.countP_map]
              refine congrArg (List.countP · _) (funext fun agent ↦ ?_)
              show ((Table.editAt k edit agent).organizationId == organizationId) = _
              unfold Table.editAt
              split
              · rw [hu agent]
              · rfl
          | _ => rfl
      | delete k => exact hu.elim
  | _ => exact hsame (by cases kind <;> rfl)

/-- A plain write leaves every number as it is. -/
theorem Plain.number_apply {u : Write} (hu : Plain u) (slot : Slot) (db : Database) :
    numberOf slot (Store.apply db u) = numberOf slot db := by
  obtain ⟨hle, hge⟩ := Inventory.number_apply hu.creates slot db
  rw [hu.not_adds, if_neg Bool.false_ne_true] at hge
  omega

/-! ## The creations with their notes -/

/-- A transaction that notes which limits it has counted for. -/
abbrev NotedTx (R : Type) (α : Type) :=
  Txn (Noting Slot Database) (Noted Write Slot) (Except DomainError R) α

/-- A transaction without notes. -/
def plainly {R α : Type} (p : Tx R α) : NotedTx R α :=
  p.lift

/-- The check of the licence, which notes that it has counted. -/
def checkNoted {R : Type} (slot : Slot) : NotedTx R Unit := do
  match ← plainly (Licenses.getForOrganization slot.organizationId) with
  | none => pure ()
  | some license => do
      let n ← Txn.noting slot (Txn.read (numberOf slot) : Tx R Nat)
      plainly (check (slot.kind.room license n))

namespace CreateApplication

variable (request : CreateApplication)

/-- `CreateApplication.execute(…)` with its note. -/
def noted (unicode : Unicode) : NotedTx ApplicationSummary Empty := do
  plainly (check (request.principal.require .APP_WRITE))
  let tags ← plainly (check (InventoryPolicy.checkTags unicode.library request.tags))
  checkNoted ⟨request.principal.organizationId, .applications⟩
  plainly (request.create unicode tags)

end CreateApplication

namespace RegisterAgent

variable (request : RegisterAgent)

/-- A new application, from its entity to its event. -/
def addApplication (slug : PyStr) : Tx AgentRegistration Application := do
  let application ← check (Application.make request.applicationId request.principal.organizationId
    request.applicationName slug request.language)
  Applications.add application
  Audit.record request.principal (py "application.created") (py "application")
    (some application.id)
  pure application

/-- A new agent, from its entity to its event. -/
def addAgent (environment : ApplicationEnvironment) : Tx AgentRegistration Agent := do
  let agent ← check (Agent.make request.agentId request.principal.organizationId environment.id
    request.fingerprint.strip request.hostname request.agentVersion request.runtimeVersion
    request.language (configVersion environment request.now) request.now)
  Agents.add agent request.databaseNow
  Audit.record request.principal (py "agent.registered") (py "agent") (some agent.id)
  pure agent

/-- `RegisterAgent._ensure_application(…)` with its note. -/
def ensureApplicationNoted (unicode : Unicode) : NotedTx AgentRegistration Application := do
  let organizationId := request.principal.organizationId
  let slug ← plainly (check (Slug.fromName unicode request.applicationName))
  match ← plainly (Applications.getBySlug organizationId slug) with
  | some application => pure application
  | none => do
      checkNoted ⟨organizationId, .applications⟩
      plainly (request.addApplication slug)

/-- The agent is registered with a note, or registered again. -/
def registerNoted (environment : ApplicationEnvironment) : NotedTx AgentRegistration Agent := do
  let organizationId := request.principal.organizationId
  match ← plainly (Agents.getByFingerprint organizationId request.fingerprint.strip) with
  | none => do
      checkNoted ⟨organizationId, .agents⟩
      plainly (request.addAgent environment)
  | some loaded => plainly (request.reenrol environment loaded)

/-- Where the agent runs, with the note of its application. -/
def placeNoted (unicode : Unicode) : NotedTx AgentRegistration ApplicationEnvironment := do
  plainly (check (request.principal.require .AGENT_WRITE))
  plainly (refuseIf request.fingerprint.strip.isEmpty
    (.ValidationError (py "A fingerprint is required.") (py "fingerprint") []))
  let application ← request.ensureApplicationNoted unicode
  plainly (request.ensureEnvironment application)

/-- `RegisterAgent.execute(…)` with its notes. -/
def noted (unicode : Unicode) : NotedTx AgentRegistration Empty := do
  let environment ← request.placeNoted unicode
  let agent ← request.registerNoted environment
  plainly (.commit (.ok (request.reply agent)))

end RegisterAgent

/-- `InviteMember.execute(…)` with its note. -/
def InviteMember.noted (unicode : Unicode) (principal : Principal) (email fullName : PyStr)
    (roleIds : List Uuid) (userId membershipId : Uuid) : NotedTx MemberSummary Empty := do
  plainly (check (principal.require .USER_INVITE))
  let address ← plainly (check (EmailAddress.make unicode email))
  let roles ← plainly (resolveRoles principal roleIds)
  checkNoted ⟨principal.organizationId, .memberships⟩
  let user ← plainly (Access.InviteMember.invitee address fullName userId)
  plainly (Access.InviteMember.invite principal roles membershipId user)

section
variable {R : Type}

@[simp] theorem erase_plainly {α : Type} (p : Tx R α) : (plainly p).erase = p :=
  Txn.erase_lift p

/-- Without its note, the check of the licence is that of the use cases. -/
theorem erase_check_noted (slot : Slot) : (checkNoted slot : NotedTx R Unit).erase =
    RegisterAgent.checkLicense slot.organizationId slot.kind.room (Txn.read (numberOf slot)) := by
  refine Txn.erase_bind (erase_plainly _) fun license ↦ ?_
  cases license with
  | none => rfl
  | some license => exact Txn.erase_bind (Txn.erase_noting _ _) fun n ↦ erase_plainly _

end

theorem CreateApplication.erase_noted (request : CreateApplication) (unicode : Unicode) :
    (request.noted unicode).erase = request.execute unicode :=
  Txn.erase_bind (erase_plainly _) fun _ ↦ Txn.erase_bind (erase_plainly _) fun _ ↦
    Txn.erase_bind (erase_check_noted _) fun _ ↦ erase_plainly _

namespace RegisterAgent

variable (request : RegisterAgent)

theorem erase_ensure_application_noted (unicode : Unicode) :
    (request.ensureApplicationNoted unicode).erase = request.ensureApplication unicode := by
  refine Txn.erase_bind (erase_plainly _) fun slug ↦
    Txn.erase_bind (erase_plainly _) fun existing ↦ ?_
  cases existing with
  | some application => rfl
  | none => exact Txn.erase_bind (erase_check_noted _) fun _ ↦ erase_plainly _

theorem erase_register_noted (environment : ApplicationEnvironment) :
    (request.registerNoted environment).erase = request.register environment := by
  refine Txn.erase_bind (erase_plainly _) fun existing ↦ ?_
  cases existing with
  | none => exact Txn.erase_bind (erase_check_noted _) fun _ ↦ erase_plainly _
  | some loaded => exact erase_plainly _

theorem erase_place_noted (unicode : Unicode) :
    (request.placeNoted unicode).erase = request.place unicode :=
  Txn.erase_bind (erase_plainly _) fun _ ↦ Txn.erase_bind (erase_plainly _) fun _ ↦
    Txn.erase_bind (request.erase_ensure_application_noted unicode) fun _ ↦ erase_plainly _

theorem erase_noted (unicode : Unicode) :
    (request.noted unicode).erase = request.execute unicode :=
  Txn.erase_bind (request.erase_place_noted unicode) fun environment ↦
    Txn.erase_bind (request.erase_register_noted environment) fun _ ↦ erase_plainly _

end RegisterAgent

theorem InviteMember.erase_noted (unicode : Unicode) (principal : Principal)
    (email fullName : PyStr) (roleIds : List Uuid) (userId membershipId : Uuid) :
    (noted unicode principal email fullName roleIds userId membershipId).erase =
      Access.InviteMember.execute unicode principal email fullName roleIds userId membershipId :=
  Txn.erase_bind (erase_plainly _) fun _ ↦ Txn.erase_bind (erase_plainly _) fun _ ↦
    Txn.erase_bind (erase_plainly _) fun _ ↦ Txn.erase_bind (erase_check_noted _) fun _ ↦
      Txn.erase_bind (erase_plainly _) fun _ ↦ erase_plainly _

/-! ## The server -/

/-- A request that creates something a licence limits. -/
inductive Creation where
  | application (request : CreateApplication)
  | agent (request : RegisterAgent)
  | member (principal : Principal) (email fullName : PyStr) (roleIds : List Uuid)
      (userId membershipId : Uuid)

/-- What was created. -/
inductive Created where
  | application (summary : ApplicationSummary)
  | agent (registration : AgentRegistration)
  | member (summary : MemberSummary)
  deriving DecidableEq

namespace Creation

/-- The transaction of a request. -/
def execute (unicode : Unicode) : Creation → Tx Created Empty
  | application request => (request.execute unicode).mapOutcome (Except.map .application)
  | agent request => (request.execute unicode).mapOutcome (Except.map .agent)
  | member principal email fullName roleIds userId membershipId =>
      (Access.InviteMember.execute unicode principal email fullName roleIds userId
        membershipId).mapOutcome (Except.map .member)

/-- The transaction of a request with its notes. -/
def noted (unicode : Unicode) : Creation → NotedTx Created Empty
  | application request => (request.noted unicode).mapOutcome (Except.map .application)
  | agent request => (request.noted unicode).mapOutcome (Except.map .agent)
  | member principal email fullName roleIds userId membershipId =>
      (InviteMember.noted unicode principal email fullName roleIds userId
        membershipId).mapOutcome (Except.map .member)

theorem erase_noted (unicode : Unicode) (request : Creation) :
    (request.noted unicode).erase = request.execute unicode := by
  cases request with
  | application request =>
      rw [noted, Txn.erase_map_outcome, CreateApplication.erase_noted]
      rfl
  | agent request =>
      rw [noted, Txn.erase_map_outcome, RegisterAgent.erase_noted]
      rfl
  | member =>
      rw [noted, Txn.erase_map_outcome, InviteMember.erase_noted]
      rfl

end Creation

/-- No step takes the last place under a limit while another transaction that has counted for this
limit is under way. -/
def PlacesLeft (s : Server (Noting Slot Database) (Noted Write Slot) Creation
    (Except DomainError Created)) (l : Label Creation) : Prop :=
  ∀ f ∈ others s l, ∀ slot ∈ f.pending.filterMap Noted.note?, ∀ m ∈ limitOf slot s.world.db,
    numberOf slot (view (D := Noting Slot Database) (committing s l) s.world.db) < m

instance (s : Server (Noting Slot Database) (Noted Write Slot) Creation
    (Except DomainError Created)) (l : Label Creation) : Decidable (PlacesLeft s l) :=
  List.decidableBAll _ (others s l)

/-! ## What a creation holds and relies on -/

/-- What others commit leaves the licences as they are, and room where the transaction has
counted. -/
structure Keeps (ws : List (Noted Write Slot)) (db db' : Database) : Prop where
  limits : ∀ slot, limitOf slot db' = limitOf slot db
  room : ∀ slot, .note slot ∈ ws → ∀ m, limitOf slot db = some m → numberOf slot db < m →
    numberOf slot db' < m

theorem Keeps.refl (ws : List (Noted Write Slot)) (db : Database) : Keeps ws db db :=
  ⟨fun _ ↦ rfl, fun _ _ _ _ h ↦ h⟩

theorem Keeps.trans {ws : List (Noted Write Slot)} {db₁ db₂ db₃ : Database}
    (h₁ : Keeps ws db₁ db₂) (h₂ : Keeps ws db₂ db₃) : Keeps ws db₁ db₃ := by
  refine ⟨fun slot ↦ (h₂.limits slot).trans (h₁.limits slot), fun slot hnote m hm hroom ↦ ?_⟩
  exact h₂.room slot hnote m ((h₁.limits slot).trans hm) (h₁.room slot hnote m hm hroom)

/-- What was not noted does not matter. -/
theorem keeps_append_write (ws : List (Noted Write Slot)) (us : List Write) :
    Keeps (ws ++ us.map .write) = Keeps ws := by
  have hnote : ∀ slot, Noted.note slot ∈ ws ++ us.map Noted.write ↔ Noted.note slot ∈ ws := by
    simp
  funext db db'
  refine propext ⟨fun h ↦ ⟨h.limits, fun slot hs ↦ ?_⟩, fun h ↦ ⟨h.limits, fun slot hs ↦ ?_⟩⟩
  · exact h.room slot ((hnote slot).mpr hs)
  · exact h.room slot ((hnote slot).mp hs)

/-- How much the writes of a transaction add to what a limit counts. -/
def added (slot : Slot) (ws : List (Noted Write Slot)) : Nat :=
  (ws.filterMap Noted.write?).countP (adds slot)

/-- The transaction has been admitted to one more under a limit. -/
def Admitted (slot : Slot) (ws : List (Noted Write Slot)) (db : Database) : Prop :=
  ∀ m, limitOf slot db = some m → .note slot ∈ ws ∧ numberOf slot db < m

/-- A transaction adds one under each limit at most, and where it does it has been admitted. -/
structure Holding (ws : List (Noted Write Slot)) (db : Database) : Prop where
  creates : ∀ u ∈ ws.filterMap Noted.write?, Creates u
  admitted : ∀ slot, added slot ws = 0 ∨ (added slot ws = 1 ∧ Admitted slot ws db)

theorem Admitted.keeps {slot : Slot} {ws : List (Noted Write Slot)} {db db' : Database}
    (h : Admitted slot ws db) (hkeeps : Keeps ws db db') : Admitted slot ws db' := by
  intro m hm
  rw [hkeeps.limits] at hm
  obtain ⟨hnote, hroom⟩ := h m hm
  exact ⟨hnote, hkeeps.room slot hnote m hm hroom⟩

theorem Holding.keeps {ws : List (Noted Write Slot)} {db db' : Database} (h : Holding ws db)
    (hkeeps : Keeps ws db db') : Holding ws db' :=
  ⟨h.creates, fun slot ↦ (h.admitted slot).imp_right fun ⟨hadded, hadmitted⟩ ↦
    ⟨hadded, hadmitted.keeps hkeeps⟩⟩

/-- What a transaction that creates sees is what is committed, and what it adds. -/
theorem number_view {us : List Write} (hus : ∀ u ∈ us, Creates u) (slot : Slot) (db : Database) :
    numberOf slot db ≤ numberOf slot (view us db) ∧
      numberOf slot (view us db) ≤ numberOf slot db + us.countP (adds slot) := by
  induction us generalizing db with
  | nil => exact ⟨le_rfl, le_rfl⟩
  | cons u us ih =>
      obtain ⟨hu, hus⟩ := List.forall_mem_cons.mp hus
      obtain ⟨hle, hge⟩ := number_apply hu slot db
      obtain ⟨hle', hge'⟩ := ih hus (Store.apply db u)
      rw [List.countP_cons]
      show _ ≤ numberOf slot (view us (Store.apply db u)) ∧
        numberOf slot (view us (Store.apply db u)) ≤ _
      omega

/-- A transaction changes no licence, and so no limit. -/
theorem licenses_view (us : List Write) (db : Database) :
    (view us db).licenses = db.licenses :=
  view_congr (fun u _ db ↦ licenses_apply u db) db

theorem limit_view (slot : Slot) (us : List Write) (db : Database) :
    limitOf slot (view us db) = limitOf slot db := by
  rw [limitOf, licenses_view, limitOf]

/-- How far a transaction is: it adds nothing yet under the limits `untouched`, and it has been
admitted to one more under the limits `admitted`. -/
structure At (untouched admitted : List Slot) (ws : List (Noted Write Slot)) (db : Database) :
    Prop where
  holding : Holding ws db
  untouched : ∀ slot ∈ untouched, added slot ws = 0
  admitted : ∀ slot ∈ admitted, Admitted slot ws db

section
variable {untouched admitted : List Slot} {ws : List (Noted Write Slot)} {db db' : Database}

theorem At.keeps (h : At untouched admitted ws db) (hkeeps : Keeps ws db db') :
    At untouched admitted ws db' :=
  ⟨h.holding.keeps hkeeps, h.untouched, fun slot hslot ↦ (h.admitted slot hslot).keeps hkeeps⟩

/-- The writes after more writes. -/
theorem writes_append (ws : List (Noted Write Slot)) (us : List Write) :
    (ws ++ us.map Noted.write).filterMap Noted.write? = ws.filterMap Noted.write? ++ us := by
  rw [List.filterMap_append, List.filterMap_map]
  exact congrArg _ List.filterMap_some

theorem added_append (slot : Slot) (ws : List (Noted Write Slot)) (us : List Write) :
    added slot (ws ++ us.map .write) = added slot ws + us.countP (adds slot) := by
  rw [added, writes_append, List.countP_append, added]

/-- More writes leave a transaction admitted. -/
theorem Admitted.append {slot : Slot} (h : Admitted slot ws db) (us : List (Noted Write Slot)) :
    Admitted slot (ws ++ us) db :=
  fun m hm ↦ ⟨List.mem_append_left us (h m hm).1, (h m hm).2⟩

/-- Plain writes do not change how far it is. -/
theorem At.append_plain (h : At untouched admitted ws db) {us : List Write}
    (hus : ∀ u ∈ us, Plain u) : At untouched admitted (ws ++ us.map .write) db := by
  have hadded : ∀ slot, added slot (ws ++ us.map .write) = added slot ws := by
    intro slot
    have hnone : us.countP (adds slot) = 0 := by
      rw [List.countP_eq_zero]
      exact fun u hu ↦ by simp [(hus u hu).not_adds]
    rw [added_append, hnone, Nat.add_zero]
  refine ⟨⟨fun u hu ↦ ?_, fun slot ↦ ?_⟩, fun slot hslot ↦ ?_, fun slot hslot ↦ ?_⟩
  · rw [writes_append] at hu
    exact (List.mem_append.mp hu).elim (h.holding.creates u) fun hu ↦ (hus u hu).creates
  · rw [hadded]
    exact (h.holding.admitted slot).imp_right fun ⟨hone, hadmitted⟩ ↦ ⟨hone, hadmitted.append _⟩
  · exact (hadded slot).trans (h.untouched slot hslot)
  · exact (h.admitted slot hslot).append _

/-- Nor does a note. -/
theorem At.append_note (h : At untouched admitted ws db) (slot : Slot) :
    At untouched admitted (ws ++ [.note slot]) db := by
  have hwrites : (ws ++ [Noted.note slot]).filterMap Noted.write? = ws.filterMap Noted.write? := by
    rw [List.filterMap_append]
    exact List.append_nil _
  have hadded : ∀ other, added other (ws ++ [.note slot]) = added other ws := by
    intro other
    rw [added, hwrites, added]
  refine ⟨⟨fun u hu ↦ h.holding.creates u (hwrites ▸ hu), fun other ↦ ?_⟩, fun other hother ↦ ?_,
    fun other hother ↦ (h.admitted other hother).append _⟩
  · rw [hadded]
    exact (h.holding.admitted other).imp_right fun ⟨hone, hadmitted⟩ ↦ ⟨hone, hadmitted.append _⟩
  · exact (hadded other).trans (h.untouched other hother)

/-- A transaction that has been admitted adds one. -/
theorem At.append_insert {slot : Slot} (h : At (slot :: untouched) admitted ws db) {u : Write}
    (hcreates : Creates u) (hadds : ∀ other, adds other u = true ↔ other = slot)
    (hadmitted : slot ∈ admitted) (hslot : slot ∉ untouched) :
    At untouched admitted (ws ++ [.write u]) db := by
  have hadded : ∀ other, added other (ws ++ [.write u]) =
      added other ws + if other = slot then 1 else 0 := by
    intro other
    refine (added_append other ws [u]).trans ?_
    rw [List.countP_singleton]
    exact congrArg _ (if_congr (hadds other) rfl rfl)
  refine ⟨⟨fun v hv ↦ ?_, fun other ↦ ?_⟩, fun other hother ↦ ?_, fun other hother ↦ ?_⟩
  · have hwrites := writes_append ws [u]
    rw [List.map_singleton] at hwrites
    rw [hwrites] at hv
    refine (List.mem_append.mp hv).elim (h.holding.creates v) fun hv ↦ ?_
    rwa [List.mem_singleton.mp hv]
  · rw [hadded]
    by_cases heq : other = slot
    · subst heq
      rw [if_pos rfl, h.untouched other List.mem_cons_self]
      exact .inr ⟨rfl, (h.admitted other hadmitted).append _⟩
    · rw [if_neg heq, Nat.add_zero]
      exact (h.holding.admitted other).imp_right fun ⟨hone, hadm⟩ ↦ ⟨hone, hadm.append _⟩
  · have hne : other ≠ slot := fun heq ↦ hslot (heq ▸ hother)
    rw [hadded, if_neg hne, Nat.add_zero]
    exact h.untouched other (List.mem_cons_of_mem slot hother)
  · exact (h.admitted other hother).append _

end

/-! ## Rules -/

/-- What is committed. -/
abbrev CreationWorld := World Database Creation (Except DomainError Created)

/-- What a transaction leaves is within the limits, or no more than there was. -/
def EndsWithin {R : Type} (_ : Bool) (_ : Except DomainError R)
    (w : CreationWorld) (db : Database) : Prop :=
  ∀ slot, limitOf slot db = limitOf slot w.db ∧
    ∀ m, limitOf slot w.db = some m → numberOf slot db ≤ max m (numberOf slot w.db)

/-- What it relies on. -/
def Relies (ws : List (Noted Write Slot)) (w w' : CreationWorld) : Prop :=
  Keeps ws w.db w'.db

theorem interference_relies (ws : List (Noted Write Slot)) : Interference (Relies ws) :=
  ⟨fun w ↦ Keeps.refl ws w.db, fun h₁ h₂ ↦ Keeps.trans h₁ h₂⟩

section
variable {R α : Type} {untouched admitted : List Slot} {ws : List (Noted Write Slot)}
variable {w : CreationWorld}

/-- A transaction that leaves everything as it is. -/
theorem ends_within_self {committed : Bool} {o : Except DomainError R}
    (w : CreationWorld) :
    EndsWithin committed o w w.db :=
  fun _ ↦ ⟨rfl, fun _ _ ↦ le_max_right _ _⟩

/-- What notes nothing meets the rule for transactions without notes. -/
theorem wp_plainly {p : Tx R α}
    {post : α → List (Noted Write Slot) → CreationWorld → Prop}
    (h : Wp (Relies ws) EndsWithin p
      (fun a vs v ↦ ∀ us, vs = ws.filterMap Noted.write? ++ us → post a (ws ++ us.map .write) v)
      (ws.filterMap Noted.write?) w) :
    WpNoted (D := Noting Slot Database) Relies EndsWithin (plainly p) post ws w := by
  refine wp_noted_lift (fun us ↦ ?_) h
  funext w w'
  exact congrFun (congrFun (keeps_append_write ws us) w.db) w'.db

/-- A part that writes nothing a limit counts does not change how far the transaction is. -/
theorem wp_plain {p : Tx R α}
    {post : α → List (Noted Write Slot) → CreationWorld → Prop}
    (hp : p.Within Plain) (hat : At untouched admitted ws w.db)
    (h : ∀ a ws' w', At untouched admitted ws' w'.db → post a ws' w') :
    WpNoted (D := Noting Slot Database) Relies EndsWithin (plainly p) post ws w := by
  refine wp_plainly (wp_of_within (interference_relies ws) hp
    (fun o w' _ ↦ ends_within_self w') fun a us w' hw hus vs hvs ↦ ?_)
  obtain rfl := List.append_cancel_left hvs
  exact h a _ w' ((hat.keeps hw).append_plain hus)

/-- A row is inserted by a transaction that has been admitted to one more. -/
theorem wp_add {V K : Type} [Keyed K V] [DecidableEq K] {t : TableAt Database Write V} {row : V}
    {refused : Except DomainError R} {slot : Slot}
    {post : Unit → List (Noted Write Slot) → CreationWorld → Prop}
    (hcreates : Creates (t.write (.insert row)))
    (hadds : ∀ other, adds other (t.write (.insert row)) = true ↔ other = slot)
    (hadmitted : slot ∈ admitted) (hslot : slot ∉ untouched)
    (hat : At (slot :: untouched) admitted ws w.db)
    (h : ∀ ws' w', At untouched admitted ws' w'.db → post () ws' w') :
    WpNoted (D := Noting Slot Database) Relies EndsWithin (plainly (t.insert row refused)) post
      ws w := by
  refine wp_plainly (TableAt.wp_insert (interference_relies ws) (fun w' _ ↦ ends_within_self w')
    fun w' hw _ us hus ↦ ?_)
  obtain rfl := List.append_cancel_left hus
  exact h _ w' ((hat.keeps hw).append_insert hcreates hadds hadmitted hslot)

/-- When it commits, it leaves no more than the limits allow. -/
theorem At.ends (hat : At untouched admitted ws w.db) {o : Except DomainError R} :
    EndsWithin true o w (view (D := Noting Slot Database) ws w.db) := by
  intro slot
  have hseen := view_filter_map_write ws w.db
  rw [← hseen]
  refine ⟨limit_view slot _ _, fun m hm ↦ ?_⟩
  have hview := (number_view hat.holding.creates slot w.db).2
  change _ ≤ _ + added slot ws at hview
  obtain hnone | ⟨hone, hadmitted⟩ := hat.holding.admitted slot
  · omega
  · have hroom := (hadmitted m hm).2
    omega

theorem wp_commits {o : Except DomainError R}
    {post : Empty → List (Noted Write Slot) → CreationWorld → Prop}
    (hat : At untouched admitted ws w.db) :
    WpNoted (D := Noting Slot Database) Relies EndsWithin (plainly (.commit o)) post ws w :=
  fun _ hw ↦ (hat.keeps hw).ends

/-- The licence admits the transaction to one more, or ends it. -/
theorem wp_check_noted {slot : Slot}
    {post : Unit → List (Noted Write Slot) → CreationWorld → Prop}
    (hat : At untouched admitted ws w.db)
    (h : ∀ ws' w', At untouched (slot :: admitted) ws' w'.db → post () ws' w') :
    WpNoted (D := Noting Slot Database) Relies EndsWithin (checkNoted slot : NotedTx R Unit) post
      ws w := by
  have hadmission : ∀ {ws db}, At untouched admitted ws db → Admitted slot ws db →
      At untouched (slot :: admitted) ws db :=
    fun hat hadmitted ↦ ⟨hat.holding, hat.untouched, List.forall_mem_cons.mpr
      ⟨hadmitted, hat.admitted⟩⟩
  refine wp_noted_bind.mpr (wp_noted_read.mpr fun w₁ hw₁ ↦ ?_)
  have hat₁ := hat.keeps hw₁
  have hlicenses : (view (D := Noting Slot Database) ws w₁.db : Database).licenses =
      (w₁.db : Database).licenses :=
    (congrArg Database.licenses (view_filter_map_write (D := Database) ws w₁.db)).symm.trans
      (licenses_view (ws.filterMap Noted.write?) w₁.db)
  rw [hlicenses]
  cases hlicense : (w₁.db : Database).licenses.rows.find? fun license ↦
      license.organizationId == slot.organizationId with
  | none =>
      have hnone : limitOf slot (w₁.db : Database) = none := by
        unfold limitOf
        rw [hlicense, Option.bind_none]
      exact h ws w₁ (hadmission hat₁ fun m hm ↦ nomatch hnone.symm.trans hm)
  | some license =>
      have hlimit : limitOf slot (w₁.db : Database) = maximumOf license slot.kind := by
        unfold limitOf
        rw [hlicense, Option.bind_some]
      refine wp_noted_bind.mpr fun w₂ hw₂ ↦ ?_
      have hat₂ := (hat₁.keeps hw₂).append_note slot
      -- What the statement counts is at least what is committed: the transaction takes nothing.
      have hcount := (number_view hat₁.holding.creates slot w₂.db).1
      have hseen := view_filter_map_write (D := Database) ws w₂.db
      rw [hseen] at hcount
      show WpNoted (D := Noting Slot Database) Relies EndsWithin (plainly (check
        (slot.kind.room license (numberOf slot (view (D := Noting Slot Database) ws w₂.db))))) _ _ _
      cases hroom : slot.kind.room license
          (numberOf slot (view (D := Noting Slot Database) ws w₂.db)) with
      | error e => exact fun w₃ _ ↦ ends_within_self w₃
      | ok _ =>
          refine h _ w₂ (hadmission hat₂ fun m hm ↦ ⟨List.mem_append_right ws (by simp), ?_⟩)
          rw [hw₂.limits, hlimit] at hm
          exact hcount.trans_lt (lt_of_room hroom hm)

/-- One part after another. -/
theorem wp_plainly_bind {β : Type} {p : Tx R α} {k : α → Tx R β}
    {post : β → List (Noted Write Slot) → CreationWorld → Prop}
    (h : WpNoted (D := Noting Slot Database) Relies EndsWithin (plainly p)
      (fun a ws w ↦ WpNoted (D := Noting Slot Database) Relies EndsWithin (plainly (k a)) post ws w)
      ws w) :
    WpNoted (D := Noting Slot Database) Relies EndsWithin (plainly (p >>= k)) post ws w := by
  unfold plainly
  rw [Txn.lift_bind]
  exact wp_noted_bind.mpr h

/-- A transaction has added nothing when it begins. -/
theorem at_start (untouched : List Slot) (db : Database) : At untouched [] [] db := by
  have hnone : ∀ slot, added slot [] = 0 := fun _ ↦ rfl
  refine ⟨⟨?_, fun slot ↦ .inl (hnone slot)⟩, fun slot _ ↦ hnone slot, ?_⟩
  · simp
  · simp

/-- A check is passed, or ends the transaction. -/
theorem wp_checks {x : Except DomainError α}
    {post : α → List (Noted Write Slot) → CreationWorld → Prop}
    (h : ∀ a, x = .ok a → post a ws w) :
    WpNoted (D := Noting Slot Database) Relies EndsWithin (plainly (check x : Tx R α)) post
      ws w := by
  cases x with
  | error e => exact fun w' _ ↦ ends_within_self w'
  | ok a => exact h a rfl

/-- An event of the audit chain adds to no limit. -/
theorem within_record {principal : Principal} {action resourceType : PyStr}
    {resourceId : Option Uuid} :
    (Audit.record principal action resourceType resourceId : Tx R Unit).Within Plain :=
  within_append (fun _ ↦ trivial) fun _ ↦ trivial

end

/-! ## The three creations -/

/-- A row is one more under one limit. -/
theorem slot_eq_iff {organizationId : Uuid} {kind : Kind} {slot : Slot} :
    (slot.kind == kind && organizationId == slot.organizationId) = true ↔
      slot = ⟨organizationId, kind⟩ := by
  obtain ⟨otherId, otherKind⟩ := slot
  rw [Bool.and_eq_true, beq_iff_eq, beq_iff_eq, Slot.mk.injEq, eq_comm (a := organizationId)]
  exact and_comm

/-- An application is one more of its organization. -/
theorem adds_application {id organizationId : Uuid} {name slug : PyStr} {language : Language}
    {criticality : Criticality} {tags : List PyStr} {repositoryUrl : Option PyStr}
    {description : PyStr} {application : Application}
    (h : Application.make id organizationId name slug language criticality tags repositoryUrl
      description = .ok application) (other : Slot) :
    adds other (applicationsTable.write (.insert application)) = true ↔
      other = ⟨organizationId, .applications⟩ := by
  have horganization : application.organizationId = organizationId := by
    unfold Application.make at h
    split at h
    · cases h
    · split at h
      · cases h
      · cases h
        rfl
  exact horganization ▸ slot_eq_iff

/-- So is an agent. -/
theorem adds_agent {id organizationId environmentId : Uuid}
    {fingerprint hostname agentVersion runtimeVersion configVersion : PyStr} {language : Language}
    {created databaseNow : Instant} {agent : Agent}
    (h : Agent.make id organizationId environmentId fingerprint hostname agentVersion
      runtimeVersion language configVersion created = .ok agent) (other : Slot) :
    adds other (agentsTable.write (.insert (agentToRecord agent databaseNow))) = true ↔
      other = ⟨organizationId, .agents⟩ := by
  have horganization : agent.organizationId = organizationId := by
    unfold Agent.make at h
    split at h
    · cases h
    · cases h
      rfl
  exact horganization ▸ slot_eq_iff

/-- And a membership. -/
theorem adds_membership (record : MembershipRecord) (other : Slot) :
    adds other (membershipsTable.write (.insert record)) = true ↔
      other = ⟨record.organizationId, .memberships⟩ :=
  slot_eq_iff

/-! ### Parts that add nothing -/

section
variable {R : Type}

/-- Reading the roles of a membership writes nothing. -/
theorem within_load {organizationId : Uuid} {record : MembershipRecord} :
    (Memberships.load organizationId record : Tx R Membership).Within Plain :=
  (Txn.within_read _).bind fun _ ↦ within_check

/-- Neither does reading a membership. -/
theorem within_find {organizationId : Uuid} {p : MembershipRecord → Bool} :
    (Memberships.find organizationId p : Tx R (Option Membership)).Within Plain := by
  refine (Txn.within_read _).bind fun record ↦ ?_
  cases record with
  | none => trivial
  | some record =>
      exact within_load.bind fun _ ↦ Txn.within_pure _

/-- Neither does reading the roles a request names. -/
theorem within_resolve_roles {principal : Principal} {roleIds : List Uuid} :
    (resolveRoles principal roleIds : Tx R (List Role)).Within Plain := by
  refine within_refuse_if.bind fun _ ↦ ?_
  refine ((Txn.within_read _).bind fun _ ↦ within_check).bind fun roles ↦ ?_
  exact within_refuse_if.bind fun _ ↦ within_check.bind fun _ ↦ Txn.within_pure _

/-- A link is under no limit. -/
theorem within_add_role {membershipId : Uuid} {role : Role} :
    (Memberships.addRole membershipId role : Tx R Unit).Within Plain := by
  intro db
  dsimp only
  split
  · exact ⟨fun u hu ↦ absurd hu List.not_mem_nil, True.intro⟩
  · refine ⟨fun u hu ↦ ?_, True.intro⟩
    obtain rfl := List.mem_singleton.mp hu
    exact True.intro

/-- The user of an invitation is of no organization. -/
theorem within_invitee {address fullName : PyStr} {userId : Uuid} :
    (Access.InviteMember.invitee address fullName userId : Tx R User).Within Plain := by
  refine (Txn.within_read _).bind fun existing ↦ ?_
  cases existing with
  | some user => exact Txn.within_pure _
  | none => exact (TableAt.within_insert trivial).bind fun _ ↦ Txn.within_pure _

/-- An environment is under no limit. -/
theorem within_ensure_environment {request : RegisterAgent} {application : Application} :
    (request.ensureEnvironment application).Within Plain := by
  refine (Txn.within_read _).bind fun existing ↦ ?_
  cases existing with
  | some environment => exact Txn.within_pure _
  | none => exact (TableAt.within_insert trivial).bind fun _ ↦ Txn.within_pure _

/-- An agent that registers again stays in its organization. -/
theorem within_reenrol {request : RegisterAgent} {environment : ApplicationEnvironment}
    {loaded : Agent} : (request.reenrol environment loaded).Within Plain := by
  refine Txn.Within.bind ?_ fun _ ↦ Txn.within_pure _
  refine (Txn.within_read _).bind fun existing ↦ ?_
  cases existing with
  | none => trivial
  | some _ =>
      dsimp only
      split
      · exact Txn.within_pure _
      · exact TableAt.within_update fun _ ↦ rfl

end

/-! ### The use cases -/

section
variable {untouched admitted : List Slot} {ws : List (Noted Write Slot)} {w : CreationWorld}

/-- An application is created within the limits. -/
theorem CreateApplication.wp_noted (request : CreateApplication) (unicode : Unicode)
    {post : Empty → List (Noted Write Slot) → CreationWorld → Prop} :
    WpNoted (D := Noting Slot Database) Relies EndsWithin (request.noted unicode) post [] w := by
  let slot : Slot := ⟨request.principal.organizationId, .applications⟩
  have hstart := at_start [slot] w.db
  refine wp_noted_bind.mpr (wp_checks fun _ _ ↦ ?_)
  refine wp_noted_bind.mpr (wp_checks fun tags _ ↦ ?_)
  refine wp_noted_bind.mpr (wp_check_noted hstart fun ws₁ w₁ hat₁ ↦ ?_)
  -- The licence has admitted one more application. What follows inserts one.
  refine wp_plainly_bind (wp_checks fun name _ ↦ ?_)
  refine wp_plainly_bind (wp_plain (Txn.within_read _) hat₁ fun existing ws₂ w₂ hat₂ ↦ ?_)
  refine wp_plainly_bind (wp_checks fun _ _ ↦ ?_)
  refine wp_plainly_bind (wp_checks fun application hmake ↦ ?_)
  have hadds := adds_application hmake
  refine wp_plainly_bind (wp_add trivial hadds (by simp) (by simp) hat₂ fun ws₃ w₃ hat₃ ↦ ?_)
  refine wp_plainly_bind (wp_plain ?_ hat₃ fun _ ws₄ w₄ hat₄ ↦ ?_)
  · exact Txn.within_each fun _ ↦ TableAt.within_insert trivial
  refine wp_plainly_bind (wp_plain within_record hat₄ fun _ ws₅ w₅ hat₅ ↦ ?_)
  exact wp_commits hat₅

/-- A member is invited within the limits. -/
theorem InviteMember.wp_noted {unicode : Unicode} {principal : Principal}
    {email fullName : PyStr} {roleIds : List Uuid} {userId membershipId : Uuid}
    {post : Empty → List (Noted Write Slot) → CreationWorld → Prop} :
    WpNoted (D := Noting Slot Database) Relies EndsWithin
      (noted unicode principal email fullName roleIds userId membershipId) post [] w := by
  let slot : Slot := ⟨principal.organizationId, .memberships⟩
  have hstart := at_start [slot] w.db
  refine wp_noted_bind.mpr (wp_checks fun _ _ ↦ ?_)
  refine wp_noted_bind.mpr (wp_checks fun address _ ↦ ?_)
  refine wp_noted_bind.mpr (wp_plain within_resolve_roles hstart fun roles ws₁ w₁ hat₁ ↦ ?_)
  refine wp_noted_bind.mpr (wp_check_noted hat₁ fun ws₂ w₂ hat₂ ↦ ?_)
  refine wp_noted_bind.mpr (wp_plain within_invitee hat₂ fun user ws₃ w₃ hat₃ ↦ ?_)
  -- The licence has admitted one more membership. What follows inserts one.
  refine wp_plainly_bind (wp_plain within_find hat₃ fun existing ws₄ w₄ hat₄ ↦ ?_)
  refine wp_plainly_bind (wp_checks fun _ _ ↦ ?_)
  refine wp_plainly_bind (wp_checks fun membership hmake ↦ ?_)
  obtain rfl := Membership.make_eq_ok hmake
  refine wp_plainly_bind (wp_plainly_bind (wp_add trivial (adds_membership _)
    (List.mem_singleton.mpr rfl) List.not_mem_nil hat₄ fun ws₅ w₅ hat₅ ↦ ?_))
  refine wp_plainly_bind (wp_plain (Txn.within_each fun _ ↦ within_add_role) hat₅
    fun _ ws₆ w₆ hat₆ ↦ ?_)
  refine wp_plainly_bind (wp_plain within_load hat₆ fun _ ws₇ w₇ hat₇ ↦ ?_)
  refine wp_plainly_bind (wp_plain within_record hat₇ fun _ ws₈ w₈ hat₈ ↦ ?_)
  exact wp_commits hat₈

namespace RegisterAgent

variable (request : RegisterAgent)

/-- The application of an agent is created within the limits, and the agents are as they were. -/
theorem wp_ensure_application_noted (unicode : Unicode)
    (hat : At [⟨request.principal.organizationId, .applications⟩,
      ⟨request.principal.organizationId, .agents⟩] [] ws w.db) :
    WpNoted (D := Noting Slot Database) Relies EndsWithin (request.ensureApplicationNoted unicode)
      (fun _ ws w ↦ ∃ admitted, At [⟨request.principal.organizationId, .agents⟩] admitted ws
        (World.db w)) ws w := by
  refine wp_noted_bind.mpr (wp_checks fun slug _ ↦ ?_)
  refine wp_noted_bind.mpr (wp_plain (Txn.within_read _) hat fun existing ws₁ w₁ hat₁ ↦ ?_)
  cases existing with
  | some application =>
      exact ⟨[], hat₁.holding, fun slot hslot ↦ hat₁.untouched slot (List.mem_cons_of_mem _ hslot),
        hat₁.admitted⟩
  | none =>
      refine wp_noted_bind.mpr (wp_check_noted hat₁ fun ws₂ w₂ hat₂ ↦ ?_)
      refine wp_plainly_bind (wp_checks fun application hmake ↦ ?_)
      refine wp_plainly_bind (wp_add trivial (adds_application hmake) (by simp) (by simp) hat₂
        fun ws₃ w₃ hat₃ ↦ ?_)
      refine wp_plainly_bind (wp_plain within_record hat₃ fun _ ws₄ w₄ hat₄ ↦ ?_)
      exact ⟨_, hat₄⟩

/-- So are the application and the environment. -/
theorem wp_place_noted (unicode : Unicode)
    (hat : At [⟨request.principal.organizationId, .applications⟩,
      ⟨request.principal.organizationId, .agents⟩] [] ws w.db) :
    WpNoted (D := Noting Slot Database) Relies EndsWithin (request.placeNoted unicode)
      (fun _ ws w ↦ ∃ admitted, At [⟨request.principal.organizationId, .agents⟩] admitted ws
        (World.db w)) ws w := by
  refine wp_noted_bind.mpr (wp_checks fun _ _ ↦ ?_)
  refine wp_noted_bind.mpr (wp_checks fun _ _ ↦ ?_)
  refine wp_noted_bind.mpr (WpNoted.mono (request.wp_ensure_application_noted unicode hat) ?_)
  rintro application ws₁ w₁ ⟨admitted, hat₁⟩
  exact wp_plain within_ensure_environment hat₁ fun _ ws₂ w₂ hat₂ ↦ ⟨_, hat₂⟩

/-- The agent is created within the limits. -/
theorem wp_register_noted (environment : ApplicationEnvironment)
    (hat : At [⟨request.principal.organizationId, .agents⟩] admitted ws w.db) :
    WpNoted (D := Noting Slot Database) Relies EndsWithin (request.registerNoted environment)
      (fun _ ws w ↦ ∃ untouched admitted, At untouched admitted ws (World.db w)) ws w := by
  refine wp_noted_bind.mpr (wp_plain (Txn.within_read _) hat fun existing ws₁ w₁ hat₁ ↦ ?_)
  cases existing with
  | some loaded =>
      exact wp_plain within_reenrol hat₁ fun _ ws₂ w₂ hat₂ ↦ ⟨_, _, hat₂⟩
  | none =>
      refine wp_noted_bind.mpr (wp_check_noted hat₁ fun ws₂ w₂ hat₂ ↦ ?_)
      refine wp_plainly_bind (wp_checks fun agent hmake ↦ ?_)
      refine wp_plainly_bind (wp_add trivial (adds_agent hmake) (by simp) (by simp) hat₂
        fun ws₃ w₃ hat₃ ↦ ?_)
      refine wp_plainly_bind (wp_plain within_record hat₃ fun _ ws₄ w₄ hat₄ ↦ ?_)
      exact ⟨_, _, hat₄⟩

end RegisterAgent

/-- An agent is registered within the limits, and its application is created within them. -/
theorem RegisterAgent.wp_noted (request : RegisterAgent) (unicode : Unicode)
    {post : Empty → List (Noted Write Slot) → CreationWorld → Prop} :
    WpNoted (D := Noting Slot Database) Relies EndsWithin (request.noted unicode) post [] w := by
  let application : Slot := ⟨request.principal.organizationId, .applications⟩
  let agent : Slot := ⟨request.principal.organizationId, .agents⟩
  have hstart := at_start [application, agent] w.db
  refine wp_noted_bind.mpr (WpNoted.mono (request.wp_place_noted unicode hstart) ?_)
  intro environment ws w ⟨admitted, hat⟩
  refine wp_noted_bind.mpr (WpNoted.mono (request.wp_register_noted environment hat) ?_)
  intro agent ws w ⟨untouched, admitted, hat⟩
  exact wp_commits hat

end

/-- Whatever is created, it is created within the limits. -/
theorem Creation.wp_noted (unicode : Unicode) (request : Creation) (w : CreationWorld)
    {post : Empty → List (Noted Write Slot) → CreationWorld → Prop} :
    WpNoted (D := Noting Slot Database) Relies EndsWithin (request.noted unicode) post [] w := by
  cases request with
  | application request => exact wp_noted_map_outcome.mpr (request.wp_noted unicode)
  | agent request => exact wp_noted_map_outcome.mpr (request.wp_noted unicode)
  | member => exact wp_noted_map_outcome.mpr InviteMember.wp_noted

/-! ## All runs -/

/-- In every run in which no step takes the last place under a limit while another transaction that
has counted for it is under way, there are never more applications, agents or memberships of an
organization than its licence allows, or than there were at the start. -/
theorem limits_held {unicode : Unicode} {db : Database}
    {log : List (Entry Creation (Except DomainError Created))} {ls : List (Label Creation)}
    (hplaces : Machine.Meets (step (Creation.noted unicode)) PlacesLeft ⟨⟨db, log⟩, []⟩ ls) :
    ∀ p ∈ Machine.visited (step (Creation.execute unicode)) ⟨⟨db, log⟩, []⟩ ls,
      ∀ slot m, limitOf slot db = some m →
        numberOf slot p.2.world.db ≤ max m (numberOf slot db) := by
  let inv : World (Noting Slot Database) Creation (Except DomainError Created) → Prop := fun w ↦
    ∀ slot, limitOf slot w.db = limitOf slot db ∧
      ∀ m, limitOf slot db = some m → numberOf slot w.db ≤ max m (numberOf slot db)
  let rely : Creation → List (Noted Write Slot) →
      World (Noting Slot Database) Creation (Except DomainError Created) →
      World (Noting Slot Database) Creation (Except DomainError Created) → Prop := fun _ ↦ Relies
  let ends : Creation → Bool → Except DomainError Created →
      World (Noting Slot Database) Creation (Except DomainError Created) → Noting Slot Database →
      Prop := fun _ ↦ EndsWithin
  have henter : ∀ (s : Server (Noting Slot Database) (Noted Write Slot) Creation _) q,
      inv s.world → PlacesLeft s (.start q) →
      Flight.Safe rely ends ⟨q, [], q.noted unicode⟩ s.world :=
    fun s q _ _ ↦ q.wp_noted unicode s.world
  have hends : ∀ s l, inv s.world → PlacesLeft s l →
      Ended ends s.world (step (Creation.noted unicode) s l).2.world →
      inv (step (Creation.noted unicode) s l).2.world ∧ ∀ f ∈ others s l,
        rely f.request f.pending s.world (step (Creation.noted unicode) s l).2.world := by
    intro s l hinv hcondition hended
    have hdb := db_step (Creation.noted unicode) s l
    obtain ⟨q, committed, outcome, after, hworld, hwithin⟩ := hended
    rw [hworld] at hdb
    rw [hworld]
    have hlimits : ∀ slot, limitOf slot after = limitOf slot s.world.db :=
      fun slot ↦ (hwithin slot).1
    refine ⟨fun slot ↦ ⟨(hlimits slot).trans (hinv slot).1, fun m hm ↦ ?_⟩, fun f hf ↦
      ⟨hlimits, fun slot hnote m hm _ ↦ ?_⟩⟩
    · have hbound := (hinv slot).2 m hm
      have hended := (hwithin slot).2 m ((hinv slot).1.trans hm)
      show numberOf slot after ≤ _
      omega
    · have hmem : slot ∈ f.pending.filterMap Noted.note? :=
        List.mem_filterMap.mpr ⟨_, hnote, rfl⟩
      have hroom := hcondition f hf slot hmem m hm
      rwa [← hdb] at hroom
  have hstart : inv ⟨db, log⟩ := fun slot ↦ ⟨rfl, fun m _ ↦ le_max_right _ _⟩
  have hnoted : ∀ p ∈ Machine.visited (step (Creation.noted unicode)) ⟨⟨db, log⟩, []⟩ ls,
      inv p.2.world :=
    invariant_run (D := Noting Slot Database) (fun _ ↦ interference_relies) henter hends hstart
      hplaces
  have hprogram : (fun q ↦ (Creation.noted unicode q).erase) = Creation.execute unicode :=
    funext (Creation.erase_noted unicode)
  have herase := visited_erase (Creation.noted unicode) ⟨⟨db, log⟩, []⟩ ls
  rw [hprogram] at herase
  intro p hp slot m hm
  obtain ⟨noted, hmem, rfl⟩ := List.mem_map.mp (herase ▸ hp)
  exact (hnoted noted hmem slot).2 m hm

/-! ## Two applications at once -/

/-- An organization without applications, whose licence allows some. -/
def licensedFor (maxApplications : Int) : Database :=
  { Database.empty with
    licenses := ⟨[⟨30, 1, maxApplications, 5, 5, false⟩], by simp⟩ }

/-- A request for an application. -/
def applicationNamed (applicationId : Uuid) (name : PyStr) : Creation :=
  .application
    { principal := ownerPrincipal
      name := name
      language := .JAVA
      criticality := .MEDIUM
      tags := []
      repositoryUrl := none
      description := []
      environments := []
      applicationId := applicationId
      environmentIds := fun _ ↦ applicationId
      databaseNow := 0 }

/-- Two requests that both count before either inserts. -/
def twoAtOnce : List (Label Creation) :=
  [.start (applicationNamed 3 (py "payments")), .start (applicationNamed 4 (py "ledger")),
    .advance 0, .advance 1] ++ List.replicate 14 (.advance 0)

/-- Both are admitted to the only place there is. -/
theorem last_place_taken_twice :
    ¬∀ p ∈ Machine.visited (step (Creation.execute RegisterAgent.plainUnicode))
        ⟨⟨licensedFor 1, []⟩, []⟩ twoAtOnce,
      ∀ m ∈ limitOf ⟨1, .applications⟩ (licensedFor 1),
        numberOf ⟨1, .applications⟩ p.2.world.db ≤
          max m (numberOf ⟨1, .applications⟩ (licensedFor 1)) := by
  decide +kernel

/-- Under a licence for three, neither takes the last place: both are created, and the limits
hold throughout. -/
theorem limits_held_with_places_left :
    (∃ p ∈ Machine.visited (step (Creation.execute RegisterAgent.plainUnicode))
        ⟨⟨licensedFor 3, []⟩, []⟩ twoAtOnce,
      numberOf ⟨1, .applications⟩ p.2.world.db = 2) ∧
    ∀ p ∈ Machine.visited (step (Creation.execute RegisterAgent.plainUnicode))
        ⟨⟨licensedFor 3, []⟩, []⟩ twoAtOnce,
      ∀ slot m, limitOf slot (licensedFor 3) = some m →
        numberOf slot p.2.world.db ≤ max m (numberOf slot (licensedFor 3)) :=
  ⟨by decide +kernel, limits_held (by decide +kernel)⟩

end Aegis.Inventory
