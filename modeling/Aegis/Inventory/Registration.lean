import Aegis.Access.Rules
import Aegis.Inventory.Agents
import Aegis.Lib.Twin

/-!
# Registration and other tenants

An agent is looked up among those of its tenant, but its fingerprint is unique among those of all
tenants. `registration_isolated_iff` says what another tenant's agents can do to a registration: they make it
fail where it adds a new agent, and nothing else.
-/

namespace Aegis.Inventory

open Aegis.Server Aegis.Access Aegis.Api Database Transaction

/-! ## Two databases that one tenant cannot tell apart -/

/-- The two databases differ at most in the agents of other tenants. -/
structure SameFor (organizationId : Uuid) (db db' : Database) : Prop where
  rest : db' = { db with agents := db'.agents }
  agents : db.agents.rows.filter (fun agent ↦ agent.organizationId == organizationId) =
    db'.agents.rows.filter fun agent ↦ agent.organizationId == organizationId

variable {organizationId : Uuid} {db db' : Database} {R α : Type}

theorem SameFor.refl : SameFor organizationId db db :=
  ⟨rfl, rfl⟩

/-- A write of another table than that of the agents. -/
def Write.LeavesAgents : Write → Prop
  | .agents _ => False
  | _ => True

/-- Such a write leaves the agents as they are, and every write leaves the licences. -/
theorem Write.LeavesAgents.apply {u : Write} (hu : Write.LeavesAgents u) (db : Database) :
    (Store.apply db u).agents = db.agents ∧ (Store.apply db u).licenses = db.licenses := by
  cases u with
  | agents u => exact hu.elim
  | memberships u => cases u <;> exact ⟨rfl, rfl⟩
  | _ => exact ⟨rfl, rfl⟩

/-- Such a write keeps what the two have in common. -/
theorem SameFor.apply (h : SameFor organizationId db db') {u : Write}
    (hu : Write.LeavesAgents u) :
    SameFor organizationId (Store.apply db u) (Store.apply db' u) := by
  obtain ⟨t, rfl⟩ : ∃ t, db' = { db with agents := t } := ⟨_, h.rest⟩
  constructor
  · cases u with
    | agents u => exact hu.elim
    | memberships u => cases u <;> rfl
    | _ => rfl
  · rw [(hu.apply _).1, (hu.apply _).1]
    exact h.agents

/-- What one tenant sees of the agents is the same. -/
theorem SameFor.agents_of (h : SameFor organizationId db db') (p : Agent → Bool) :
    (db.agents.rows.filter fun agent ↦ agent.organizationId == organizationId && p agent) =
      db'.agents.rows.filter fun agent ↦ agent.organizationId == organizationId && p agent := by
  simpa only [List.filter_filter, Bool.and_comm] using congrArg (List.filter p) h.agents

/-- So is the one agent that meets a condition. -/
theorem SameFor.find (h : SameFor organizationId db db') (p : Agent → Bool) :
    (db.agents.rows.find? fun agent ↦ agent.organizationId == organizationId && p agent) =
      db'.agents.rows.find? fun agent ↦ agent.organizationId == organizationId && p agent := by
  rw [← List.head?_filter, ← List.head?_filter, h.agents_of p]

/-- So is their number. -/
theorem SameFor.count (h : SameFor organizationId db db') :
    (db.agents.rows.countP fun agent ↦ agent.organizationId == organizationId) =
      db'.agents.rows.countP fun agent ↦ agent.organizationId == organizationId := by
  rw [List.countP_eq_length_filter, List.countP_eq_length_filter, h.agents]

/-- One tenant cannot tell the databases apart after its agent was changed in both. -/
theorem SameFor.modify (h : SameFor organizationId db db') (id : Uuid) {edit : Edit Agent}
    (hedit : ∀ agent : Agent, (edit.run agent).organizationId = agent.organizationId) :
    SameFor organizationId (Store.apply db (.agents (.modify id edit)))
      (Store.apply db' (.agents (.modify id edit))) := by
  obtain ⟨t, rfl⟩ : ∃ t, db' = { db with agents := t } := ⟨_, h.rest⟩
  refine ⟨rfl, ?_⟩
  have hfilter : ∀ rows : List Agent,
      (rows.map (Table.editAt id edit)).filter (fun agent ↦ agent.organizationId == organizationId) =
        (rows.filter fun agent ↦ agent.organizationId == organizationId).map
          (Table.editAt id edit) := by
    intro rows
    rw [List.filter_map]
    refine congrArg _ (List.filter_congr fun agent _ ↦ ?_)
    show ((Table.editAt id edit agent).organizationId == _) = _
    unfold Table.editAt
    split
    · rw [hedit]
    · rfl
  show List.filter _ (db.agents.rows.map _) = List.filter _ (t.rows.map _)
  rw [hfilter, hfilter, h.agents]

/-- Nor after a new agent was added in both. -/
theorem SameFor.insert {agent : Agent} (h : SameFor organizationId db db')
    (hfree : agentsTable.violates agent db = false) (hfree' : agentsTable.violates agent db' = false) :
    SameFor organizationId (Store.apply db (.agents (.insert agent)))
      (Store.apply db' (.agents (.insert agent))) := by
  obtain ⟨t, rfl⟩ : ∃ t, db' = { db with agents := t } := ⟨_, h.rest⟩
  refine ⟨rfl, ?_⟩
  show List.filter _ (db.agents.insert agent).rows = List.filter _ (t.insert agent).rows
  have hnew : ∀ old ∈ db.agents.rows, key old ≠ key agent :=
    fun old hold ↦ (TableAt.key_ne_of_not_violates hfree old hold).1
  have hnew' : ∀ old ∈ t.rows, key old ≠ key agent :=
    fun old hold ↦ (TableAt.key_ne_of_not_violates hfree' old hold).1
  rw [Table.rows_insert_of_new hnew, Table.rows_insert_of_new hnew', List.filter_append,
    List.filter_append]
  exact congrArg (· ++ _) h.agents

/-! ## Statements in two databases -/

section
variable {ends : Database → Database → Prop}

/-- A check is passed in both, or in none. -/
theorem twin_check {x : Except DomainError α} {post : α → Database → Database → Prop}
    (h : ∀ a, x = .ok a → post a db db') : Twin ends (check x : Tx R α) post db db' := by
  cases x with
  | error e => trivial
  | ok a => exact h a rfl

/-- So is a condition. -/
theorem twin_refuse_if {condition : Bool} {e : DomainError}
    {post : Unit → Database → Database → Prop} (h : post () db db') :
    Twin ends (refuseIf condition e : Tx R Unit) post db db' :=
  twin_check fun _ _ ↦ h

/-- What the databases have in common at a place of a transaction: the agents and the licences are
those it began with. -/
structure Alike (organizationId : Uuid) (db db' e e' : Database) : Prop where
  same : SameFor organizationId e e'
  left : e.agents = db.agents
  right : e'.agents = db'.agents
  licenses : e.licenses = db.licenses

variable {e e' : Database}

/-- A write of another table keeps this. -/
theorem Alike.apply (h : Alike organizationId db db' e e') {u : Write}
    (hu : Write.LeavesAgents u) :
    Alike organizationId db db' (Store.apply e u) (Store.apply e' u) :=
  ⟨h.same.apply hu, (hu.apply e).1.trans h.left, (hu.apply e').1.trans h.right,
    (hu.apply e).2.trans h.licenses⟩

/-- What does not look at the agents is the same. -/
theorem SameFor.read (h : SameFor organizationId db db') {f : Database → α}
    (hf : ∀ db agents, f { db with agents := agents } = f db) : f db = f db' := by
  rw [h.rest]
  exact (hf db _).symm

/-- A statement that does not look at the agents reads the same. -/
theorem SameFor.twin_read (h : SameFor organizationId e e') {f : Database → α}
    (hf : ∀ db agents, f { db with agents := agents } = f db)
    {post : α → Database → Database → Prop} (hpost : post (f e) e e') :
    Twin ends (Txn.read f : Tx R α) post e e' :=
  Transaction.twin_read (h.read hf) hpost

/-- An event is appended in both. -/
theorem twin_append {event : AuditEventRecord} {post : Unit → Database → Database → Prop}
    (h : Alike organizationId db db' e e')
    (hpost : ∀ f f', Alike organizationId db db' f f' → post () f f') :
    Twin ends (Audit.append event : Tx R Unit) post e e' := by
  refine Twin.bind (twin_write rfl (Twin.bind ?_))
  have hlocked := h.apply (u := .auditLock event.organizationId) trivial
  refine hlocked.same.twin_read (fun _ _ ↦ rfl) ?_
  refine TableAt.twin_insert (hlocked.same.read fun _ _ ↦ rfl) fun _ ↦ ?_
  exact hpost _ _ (hlocked.apply trivial)

/-- The licence has room in both, or in none. -/
theorem twin_check_license {room : License → Nat → Except DomainError Unit} {p : Database → Nat}
    {post : Unit → Database → Database → Prop} (hsame : SameFor organizationId e e')
    (hcount : p e = p e')
    (hpost : (∀ license, e.licenses.rows.find? (fun license ↦
      license.organizationId == organizationId) = some license → room license (p e) = .ok ()) →
      post () e e') :
    Twin ends (RegisterAgent.checkLicense organizationId room (Txn.read p) : Tx R Unit) post e e' := by
  refine Twin.bind (hsame.twin_read (fun _ _ ↦ rfl) ?_)
  split
  · rename_i hnone
    exact hpost fun license hlicense ↦ nomatch hnone.symm.trans hlicense
  · rename_i license hlicense
    refine Twin.bind (Transaction.twin_read hcount (twin_check fun _ hroom ↦ hpost ?_))
    intro other hother
    obtain rfl : license = other := Option.some.inj (hlicense.symm.trans hother)
    exact hroom

end

namespace RegisterAgent

variable {request : RegisterAgent} {unicode : Unicode} {ends : Database → Database → Prop}
variable {e e' : Database}

/-- The application and the environment are found or made in both. -/
theorem twin_place (h : SameFor request.principal.organizationId db db') :
    Twin ends (request.place unicode)
      (fun _ e e' ↦ Alike request.principal.organizationId db db' e e') db db' := by
  have hstart : Alike request.principal.organizationId db db' db db' := ⟨h, rfl, rfl, rfl⟩
  refine Twin.bind (twin_check fun _ _ ↦ Twin.bind (twin_refuse_if (Twin.bind ?_)))
  -- The application, and what is left for the environment.
  suffices happlication : Twin ends (request.ensureApplication unicode)
      (fun _ e e' ↦ Alike request.principal.organizationId db db' e e') db db' by
    refine happlication.mono fun application e e' halike ↦ ?_
    refine Twin.bind (halike.same.twin_read (fun _ _ ↦ rfl) ?_)
    split
    · exact halike
    · refine Twin.bind (TableAt.twin_insert (halike.same.read fun _ _ ↦ rfl) fun _ ↦ ?_)
      exact halike.apply trivial
  refine Twin.bind (twin_check fun slug _ ↦ Twin.bind (h.twin_read (fun _ _ ↦ rfl) ?_))
  split
  · exact hstart
  · refine Twin.bind (twin_check_license h ?_ ?_)
    · exact h.read (f := fun db ↦ db.applications.rows.countP fun row ↦
        row.organizationId == request.principal.organizationId) fun _ _ ↦ rfl
    intro _
    refine Twin.bind (twin_check fun application _ ↦ ?_)
    refine Twin.bind (TableAt.twin_insert (h.read fun _ _ ↦ rfl) fun _ ↦ ?_)
    exact Twin.bind (twin_append (hstart.apply trivial) fun f f' hf ↦ hf)

/-- The two runs place the agent in the same way. -/
theorem eval_place (h : SameFor request.principal.organizationId db db') :
    eval (request.place unicode) [] db = eval (request.place unicode) [] db' ∧
      (∀ environment ws, eval (request.place unicode) [] db = .ok (environment, ws) →
        Alike request.principal.organizationId db db' (view ws db) (view ws db')) ∧
      ∀ e, eval (request.place unicode) [] db = .error e → e.committed = true →
        SameFor request.principal.organizationId (view e.writes db) (view e.writes db') := by
  have htwin : Twin (SameFor request.principal.organizationId) (request.place unicode)
      (fun _ e e' ↦ Alike request.principal.organizationId db db' e e') (view [] db)
      (view [] db') := twin_place h
  exact htwin.eval

/-! ## Adding a new agent -/

variable (request unicode)

/-- The request gets to adding a new agent: its agent has a place, is new to its tenant, and the
licence has room for it. -/
structure Enrols (db : Database) : Prop where
  placed : ∃ environment ws, eval (request.place unicode) [] db = .ok (environment, ws)
  fresh : ∀ agent ∈ db.agents.rows, agent.organizationId = request.principal.organizationId →
    agent.fingerprint ≠ request.fingerprint.strip ∧ agent.id ≠ request.agentId
  licensed : ∀ license, db.licenses.rows.find? (fun license ↦
      license.organizationId == request.principal.organizationId) = some license →
    license.checkAgents (db.agents.rows.countP fun agent ↦
      agent.organizationId == request.principal.organizationId) = .ok ()

/-- An agent of another tenant has the fingerprint, or the identifier that was drawn. -/
def Taken (db : Database) : Prop :=
  ∃ agent ∈ db.agents.rows, agent.organizationId ≠ request.principal.organizationId ∧
    (agent.fingerprint = request.fingerprint.strip ∨ agent.id = request.agentId)

instance (db : Database) : Decidable (request.Taken db) :=
  List.decidableBEx _ db.agents.rows

variable {request unicode} {agent : Agent} {environment : ApplicationEnvironment}

/-- A new agent has the identifier that was drawn and the fingerprint without white space. -/
theorem make_eq_ok {hostname agentVersion runtimeVersion version : PyStr} {language : Language}
    {created : Instant}
    (h : Agent.make request.agentId request.principal.organizationId environment.id
      request.fingerprint.strip hostname agentVersion runtimeVersion language version created =
        .ok agent) :
    agent.id = request.agentId ∧ agent.organizationId = request.principal.organizationId ∧
      agent.fingerprint = request.fingerprint.strip := by
  unfold Agent.make at h
  split at h
  · cases h
  · cases h
    exact ⟨rfl, rfl, PyStr.strip_strip _⟩

/-- It cannot be added when an agent of its tenant has one of these, or one of another tenant. -/
theorem violates_iff (hid : agent.id = request.agentId)
    (hfingerprint : agent.fingerprint = request.fingerprint.strip) :
    agentsTable.violates (agentToRecord agent request.databaseNow) db = true ↔
      (∃ old ∈ db.agents.rows.filter (fun old ↦
          old.organizationId == request.principal.organizationId),
        old.fingerprint = request.fingerprint.strip ∨ old.id = request.agentId) ∨
      request.Taken db := by
  have hclash : ∀ old : Agent, (key old == key (agentToRecord agent request.databaseNow) ||
      agentsTable.collide old (agentToRecord agent request.databaseNow)) = true ↔
      old.fingerprint = request.fingerprint.strip ∨ old.id = request.agentId := by
    intro old
    rw [Bool.or_eq_true, ← hid, ← hfingerprint, or_comm]
    exact or_congr beq_iff_eq beq_iff_eq
  rw [TableAt.violates, List.any_eq_true]
  constructor
  · rintro ⟨old, hold, h⟩
    rw [hclash] at h
    by_cases htenant : old.organizationId = request.principal.organizationId
    · exact .inl ⟨old, List.mem_filter.mpr ⟨hold, beq_iff_eq.mpr htenant⟩, h⟩
    · exact .inr ⟨old, hold, htenant, h⟩
  · rintro (⟨old, hold, h⟩ | ⟨old, hold, -, h⟩)
    · exact ⟨old, (List.mem_filter.mp hold).1, (hclash old).mpr h⟩
    · exact ⟨old, hold, (hclash old).mpr h⟩

/-- Only a fingerprint that is not blank is placed. -/
theorem not_blank_of_placed {ws : List Write}
    (h : eval (request.place unicode) [] db = .ok (environment, ws)) :
    request.fingerprint.strip ≠ [] := by
  intro hblank
  rw [place, eval_bind] at h
  obtain ⟨⟨_, us⟩, -, h⟩ := Checked.bind_eq_ok.mp h
  rw [eval_bind] at h
  obtain ⟨_, h, -⟩ := Checked.bind_eq_ok.mp h
  rw [refuseIf, hblank] at h
  cases h

/-- Alone, a licence with room for one more lets it pass. -/
theorem wp_check_license_alone {S Q : Type} {room : License → Nat → Except DomainError Unit}
    {p : Database → Nat} {ends : Bool → Except DomainError R → World Database Q S → Database → Prop}
    {post : Unit → List Write → World Database Q S → Prop} {ws : List Write}
    {w : World Database Q S}
    (hroom : ∀ license, (view ws w.db).licenses.rows.find? (fun license ↦
      license.organizationId == organizationId) = some license →
      room license (p (view ws w.db)) = .ok ()) (hpost : post () ws w) :
    Wp (fun w w' ↦ w' = w) ends (checkLicense organizationId room (Txn.read p) : Tx R Unit)
      post ws w := by
  rw [checkLicense, wp_bind, Licenses.getForOrganization, wp_read]
  rintro _ rfl
  split
  · exact hpost
  · rename_i license hlicense
    rw [wp_bind, wp_read]
    rintro _ rfl
    rw [hroom license hlicense]
    exact hpost

/-- A request that gets to adding a new agent is granted unless another tenant's agent is in the
way. -/
theorem committed_iff_of_enrols (h : request.Enrols unicode db) :
    (run (request.execute unicode) [] db).1.1 = true ↔ ¬request.Taken db := by
  obtain ⟨environment, ws, hplaced⟩ := h.placed
  have hleft := (eval_place SameFor.refl).2.1 environment ws hplaced
  rw [execute, run_bind_of_eval hplaced]
  let ends : Bool → Except DomainError AgentRegistration → World Database Unit Unit → Database →
      Prop := fun committed _ _ _ ↦ committed = true ↔ ¬request.Taken db
  have hwp : Wp (fun w w' ↦ w' = w) ends
      (request.register environment >>= fun agent ↦ .commit (.ok (request.reply agent)))
      (fun (e : Empty) _ _ ↦ e.elim) ws ⟨db, []⟩ := by
    have hnone : (agentsTable.read (view ws db)).rows.find? (fun row ↦
        row.organizationId == request.principal.organizationId &&
          row.fingerprint == request.fingerprint.strip) = none := by
      show (view ws db).agents.rows.find? _ = none
      rw [hleft.left, List.find?_eq_none]
      intro agent hagent hmeets
      rw [Bool.and_eq_true, beq_iff_eq, beq_iff_eq] at hmeets
      exact (h.fresh agent hagent hmeets.1).1 hmeets.2
    rw [wp_bind, register, wp_bind, Agents.getByFingerprint, TableAt.wp_select_one]
    rintro _ rfl
    rw [hnone]
    dsimp only
    rw [enrol, wp_bind]
    refine wp_check_license_alone (fun license hlicense ↦ ?_) ?_
    · show license.checkAgents ((view ws db).agents.rows.countP _) = _
      rw [hleft.left]
      rw [hleft.licenses] at hlicense
      exact h.licensed license hlicense
    rw [wp_bind, wp_check_alone]
    refine ⟨fun agent hmake ↦ ?_, fun e hmake ↦ ?_⟩
    swap
    · have hblank := not_blank_of_placed hplaced
      rw [Agent.make, PyStr.strip_strip, if_neg (by simpa using hblank)] at hmake
      cases hmake
    obtain ⟨hid, -, hfingerprint⟩ := make_eq_ok hmake
    have hviolates : agentsTable.violates (agentToRecord agent request.databaseNow)
        (view ws db) = true ↔ request.Taken db := by
      rw [violates_iff hid hfingerprint, Taken, hleft.left]
      refine or_iff_right ?_
      rintro ⟨old, hold, hclash⟩
      obtain ⟨hold, htenant⟩ := List.mem_filter.mp hold
      have hfresh := h.fresh old hold (beq_iff_eq.mp htenant)
      exact hclash.elim hfresh.1 hfresh.2
    rw [wp_bind, Agents.add]
    by_cases htaken : request.Taken db
    · rintro _ rfl
      dsimp only
      rw [hviolates.mpr htaken, if_pos rfl, if_pos rfl]
      rintro _ rfl
      exact iff_of_false Bool.false_ne_true (not_not_intro htaken)
    · refine TableAt.wp_insert_alone (Bool.not_eq_true _ ▸ fun h ↦ htaken (hviolates.mp h)) ?_
      rw [wp_bind]
      refine wp_append_alone fun us _ ↦ ?_
      rintro _ rfl
      exact iff_of_true rfl htaken
  exact hwp.run interference_eq

/-- An agent that registers again is changed in both. -/
theorem twin_reenrol {loaded : Agent} (h : SameFor request.principal.organizationId e e')
    (hloaded : loaded ∈ e.agents.rows)
    (htenant : loaded.organizationId = request.principal.organizationId) :
    Twin ends (request.reenrol environment loaded)
      (fun _ f f' ↦ SameFor request.principal.organizationId f f') e e' := by
  have hloaded' : loaded ∈ e'.agents.rows := by
    have hmem : loaded ∈ e.agents.rows.filter fun agent ↦
        agent.organizationId == request.principal.organizationId :=
      List.mem_filter.mpr ⟨hloaded, beq_iff_eq.mpr htenant⟩
    rw [h.agents] at hmem
    exact (List.mem_filter.mp hmem).1
  refine Twin.bind ?_
  generalize hagent : Agent.enable _ = agent
  have hid : agent.id = loaded.id := by
    rw [← hagent, Agent.enable]
    split <;> rfl
  refine Twin.bind (Transaction.twin_read (h.find _) ?_)
  split
  swap
  · trivial
  split
  · exact h
  refine TableAt.twin_update ?_ ?_ ?_
  · exact hid ▸ TableAt.still_of_mem hloaded rfl
  · exact hid ▸ TableAt.still_of_mem hloaded' rfl
  · exact h.modify _ fun _ ↦ rfl

/-- A new agent is added in both, when another tenant's agent is in the way in both or in none. -/
theorem twin_enrol (h : SameFor request.principal.organizationId e e')
    (htaken : (∀ agent ∈ e.agents.rows,
        agent.organizationId = request.principal.organizationId →
          agent.fingerprint ≠ request.fingerprint.strip ∧ agent.id ≠ request.agentId) →
      (∀ license, e.licenses.rows.find? (fun license ↦
          license.organizationId == request.principal.organizationId) = some license →
        license.checkAgents (e.agents.rows.countP fun agent ↦
          agent.organizationId == request.principal.organizationId) = .ok ()) →
      (request.Taken e ↔ request.Taken e')) :
    Twin ends (request.enrol environment)
      (fun _ f f' ↦ SameFor request.principal.organizationId f f') e e' := by
  refine Twin.bind (twin_check_license h h.count fun hroom ↦ ?_)
  refine Twin.bind (twin_check fun agent hmake ↦ ?_)
  obtain ⟨hid, -, hfingerprint⟩ := make_eq_ok hmake
  have hviolates : agentsTable.violates (agentToRecord agent request.databaseNow) e =
      agentsTable.violates (agentToRecord agent request.databaseNow) e' := by
    rw [Bool.eq_iff_iff, violates_iff hid hfingerprint, violates_iff hid hfingerprint, h.agents]
    by_cases hown : ∃ old ∈ e'.agents.rows.filter fun old ↦
        old.organizationId == request.principal.organizationId,
        old.fingerprint = request.fingerprint.strip ∨ old.id = request.agentId
    · exact iff_of_true (.inl hown) (.inl hown)
    · refine or_congr_right (htaken (fun old hold htenant ↦ ?_) hroom)
      rw [← h.agents] at hown
      have hclash := fun hclash ↦
        hown ⟨old, List.mem_filter.mpr ⟨hold, beq_iff_eq.mpr htenant⟩, hclash⟩
      exact ⟨fun h ↦ hclash (.inl h), fun h ↦ hclash (.inr h)⟩
  refine Twin.bind (TableAt.twin_insert hviolates fun hfree ↦ ?_)
  have hinserted := h.insert hfree (hviolates ▸ hfree)
  refine Twin.bind (twin_append ⟨hinserted, rfl, rfl, rfl⟩ fun f f' hf ↦ ?_)
  exact hf.same

/-! ## The registration -/

/-- A request gets to adding a new agent in both databases, or in none. -/
theorem Enrols.of_same (henrols : request.Enrols unicode db)
    (h : SameFor request.principal.organizationId db db') : request.Enrols unicode db' := by
  obtain ⟨environment, ws, hplaced⟩ := henrols.placed
  refine ⟨⟨environment, ws, (eval_place h).1 ▸ hplaced⟩, fun agent hagent htenant ↦ ?_,
    fun license hlicense ↦ ?_⟩
  · have hmem : agent ∈ db'.agents.rows.filter fun agent ↦
        agent.organizationId == request.principal.organizationId :=
      List.mem_filter.mpr ⟨hagent, beq_iff_eq.mpr htenant⟩
    rw [← h.agents] at hmem
    exact henrols.fresh agent (List.mem_filter.mp hmem).1 htenant
  · rw [h.rest] at hlicense
    rw [← h.count]
    exact henrols.licensed license hlicense

/-- Whatever agents other tenants have registered, a request ends in the same way and leaves the
tenant the same rows, if and only if it does not get to adding a new agent, or another tenant's
agent has its fingerprint or its identifier in both databases or in none. -/
theorem registration_isolated_iff (h : SameFor request.principal.organizationId db db') :
    ((run (request.execute unicode) [] db).1 = (run (request.execute unicode) [] db').1 ∧
      SameFor request.principal.organizationId (run (request.execute unicode) [] db).2
        (run (request.execute unicode) [] db').2) ↔
      (request.Enrols unicode db → (request.Taken db ↔ request.Taken db')) := by
  constructor
  · rintro ⟨hsame, -⟩ henrols
    have hcommitted := committed_iff_of_enrols henrols
    rw [hsame, committed_iff_of_enrols (henrols.of_same h)] at hcommitted
    exact (not_iff_not.mp hcommitted).symm
  · intro htaken
    obtain ⟨heval, hplaced, hended⟩ := @eval_place db db' request unicode h
    cases hplace : eval (request.place unicode) [] db with
    | error e =>
        rw [execute, run_bind_of_ended hplace, run_bind_of_ended (heval.symm.trans hplace)]
        refine ⟨rfl, ?_⟩
        show SameFor _ (if e.committed then _ else _) (if e.committed then _ else _)
        split
        · exact hended e hplace ‹_›
        · exact h
    | ok left =>
        obtain ⟨environment, ws⟩ := left
        rw [execute, run_bind_of_eval hplace, run_bind_of_eval (heval.symm.trans hplace)]
        have halike := hplaced environment ws hplace
        refine Twin.run (Twin.bind ?_) h
        -- The agents and the licences are still those the request began with.
        suffices hregister : Twin (SameFor request.principal.organizationId)
            (request.register environment)
            (fun _ f f' ↦ SameFor request.principal.organizationId f f') (view ws db)
            (view ws db') from hregister.mono fun _ _ _ hsame ↦ hsame
        refine Twin.bind (Transaction.twin_read (halike.same.find _) ?_)
        split
        · refine twin_enrol halike.same fun hfresh hroom ↦ ?_
          have hleft : request.Taken (view ws db) ↔ request.Taken db := by
            rw [Taken, halike.left, Taken]
          have hright : request.Taken (view ws db') ↔ request.Taken db' := by
            rw [Taken, halike.right, Taken]
          rw [halike.left] at hfresh hroom
          rw [halike.licenses] at hroom
          rw [hleft, hright]
          exact htaken ⟨⟨environment, ws, hplace⟩, hfresh, hroom⟩
        · rename_i loaded hloaded
          have hmeets := List.find?_some hloaded
          rw [Bool.and_eq_true, beq_iff_eq] at hmeets
          exact twin_reenrol halike.same (List.mem_of_find?_eq_some hloaded) hmeets.1

/-! ## One tenant's agent in another's way -/

/-- Python's normalization of plain text, which leaves it as it is. -/
def plainUnicode : Unicode :=
  ⟨plainLibrary, id, id⟩

/-- An agent of organization 1 registers. -/
def paymentsRequest : RegisterAgent where
  principal := ownerPrincipal
  applicationName := py "payments"
  environment := .PRODUCTION
  language := .JAVA
  fingerprint := py "host-a"
  hostname := py "a"
  agentVersion := py "1"
  runtimeVersion := py "21"
  applicationId := 3
  environmentId := 7
  agentId := 9
  now := 0
  databaseNow := 0

/-- A database with some agents of the fingerprint and no other row. -/
def withAgent (agentId organizationId : Uuid) : Database :=
  { Database.empty with
    agents := ⟨[⟨agentId, organizationId, 70, py "host-a", py "b", py "1", py "21", .JAVA,
      .ONLINE, py "0", none, none, 0, 0, none, none, none⟩], by simp⟩ }

/-- The agent is registered, unless an agent of organization 2 has its fingerprint. -/
theorem registration_fails_for_other_tenant :
    SameFor 1 Database.empty (withAgent 90 2) ∧
      (run (paymentsRequest.execute plainUnicode) [] Database.empty).1.1 = true ∧
      (run (paymentsRequest.execute plainUnicode) [] (withAgent 90 2)).1 =
        (false, .error .IntegrityError) := by
  refine ⟨⟨rfl, by decide⟩, by decide +kernel, by decide +kernel⟩

/-- With another fingerprint, it is registered whether that agent is there or not. -/
theorem registration_isolated_new_fingerprint :
    (run (RegisterAgent.execute { paymentsRequest with fingerprint := py "host-b" } plainUnicode) []
        Database.empty).1 =
      (run (RegisterAgent.execute { paymentsRequest with fingerprint := py "host-b" } plainUnicode)
        [] (withAgent 90 2)).1 ∧
      SameFor 1
        (run (RegisterAgent.execute { paymentsRequest with fingerprint := py "host-b" }
          plainUnicode) [] Database.empty).2
        (run (RegisterAgent.execute { paymentsRequest with fingerprint := py "host-b" }
          plainUnicode) [] (withAgent 90 2)).2 :=
  (registration_isolated_iff ⟨rfl, by decide⟩).mpr fun _ ↦ by decide

end RegisterAgent

end Aegis.Inventory
