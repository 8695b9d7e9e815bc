import Aegis.Lib.Checked
import Aegis.Api.RuntimeEvents

/-!
# Which events become part of a finding

`admitted` says, from the rows of an organization alone, whether a record is a taint hit that the
pipeline folds. The transaction asks the database once for each agent and remembers the answer;
`Coherent` is the invariant that what it remembers is what the rows say.
-/

namespace Aegis.Api

open Server

/-- The context of an agent, from the rows of its organization. -/
def contextFor (lib : Library) (tenant : Tenant) (agentId : PyStr) : Option AgentContext :=
  (lib.parseUuid agentId).bind tenant.resolveAgentContext

/-- The hit a payload is for an agent with this context, unless it is rejected. -/
def hitIn (lib : Library) (context : AgentContext) : Json → Option Hit
  | .object payload =>
      let ruleKey := lib.lower ((dictGet payload (py "rule_key")).strOr lib).strip
      if (payload.lookup (py "sink_signature")).isNone then none
      else if (TITLE_BY_RULE.lookup ruleKey).isNone then none
      else some ⟨context, payload, ruleKey⟩
  | _ => none

/-- The hit a record is, unless it is ignored or rejected. -/
def admitted (lib : Library) (tenant : Tenant) (record : JsonObject) : Option Hit :=
  let agentId := (dictGet record (py "agent_id")).strOr lib
  if isTaintHit record = true ∧ agentId.isEmpty = false then
    (contextFor lib tenant agentId).bind fun context ↦
      hitIn lib context (dictGet record (py "payload"))
  else none

/-- A hit has the payload it was made of, and a rule of the catalogue. -/
theorem of_hit_in_eq_some {lib : Library} {context : AgentContext} {json : Json} {hit : Hit}
    (h : hitIn lib context json = some hit) :
    json = .object hit.payload ∧ (TITLE_BY_RULE.lookup hit.ruleKey).isSome = true := by
  unfold hitIn at h
  dsimp only at h
  repeat' split at h
  all_goals cases h
  next hknown => exact ⟨rfl, by simpa using hknown⟩

/-- So has a record that is admitted. -/
theorem of_admitted {lib : Library} {tenant : Tenant} {record : JsonObject} {hit : Hit}
    (h : admitted lib tenant record = some hit) :
    dictGet record (py "payload") = .object hit.payload ∧
      (TITLE_BY_RULE.lookup hit.ruleKey).isSome = true := by
  unfold admitted at h
  dsimp only at h
  split at h
  · obtain ⟨context, -, hhit⟩ := Option.bind_eq_some_iff.mp h
    exact of_hit_in_eq_some hhit
  · cases h

/-- What a transaction remembers of the agents is what the rows say. -/
def Batch.Coherent (lib : Library) (batch : Batch) : Prop :=
  ∀ agentId context, batch.contexts.lookup agentId = some context →
    context = contextFor lib batch.tenant agentId

variable {pipeline : ProcessRuntimeEvents} {batch : Batch}

/-- One more answer is remembered. -/
theorem Batch.Coherent.remember (h : batch.Coherent pipeline.library) (agentId : PyStr) :
    Batch.Coherent pipeline.library
      { batch with
        contexts := (agentId, contextFor pipeline.library batch.tenant agentId) ::
          batch.contexts } := by
  intro other context hlookup
  rw [List.lookup_cons] at hlookup
  by_cases hother : other == agentId
  · rw [hother] at hlookup
    cases hlookup
    rw [eq_of_beq hother]
  · simp only [Bool.not_eq_true] at hother
    rw [hother] at hlookup
    exact h other context hlookup

/-- The answer for an agent is what the rows say, or the database fails. -/
theorem context_of_cases (h : batch.Coherent pipeline.library) (agentId : PyStr)
    (faults : List Bool) :
    (∃ contexts rest, (faults = [] → rest = []) ∧
      Batch.Coherent pipeline.library { batch with contexts := contexts } ∧
      pipeline.contextOf agentId batch faults =
        ⟨.ok (contextFor pipeline.library batch.tenant agentId),
          { batch with contexts := contexts }, rest⟩) ∨
    (faults ≠ [] ∧ ∃ rest, pipeline.contextOf agentId batch faults =
      ⟨.error (.raised .OperationalError), batch, rest⟩) := by
  unfold ProcessRuntimeEvents.contextOf
  rw [Prog.bind_of_ok (x := Prog.read fun batch : Batch ↦ batch.contexts.lookup agentId) rfl]
  beta_reduce
  cases hlookup : batch.contexts.lookup agentId with
  | some context =>
      rw [← h agentId context hlookup]
      exact .inl ⟨batch.contexts, faults, fun h ↦ h, h, rfl⟩
  | none =>
      have hremember := h.remember agentId
      unfold contextFor at hremember ⊢
      cases huuid : pipeline.library.parseUuid agentId with
      | none =>
          rw [huuid] at hremember
          exact .inl ⟨_, faults, fun h ↦ h, hremember, rfl⟩
      | some id =>
          rw [huuid] at hremember
          rcases faults with _ | ⟨_ | _, faults⟩
          · exact .inl ⟨_, [], fun h ↦ h, hremember, rfl⟩
          · exact .inl ⟨_, faults, nofun, hremember, rfl⟩
          · exact .inr ⟨List.cons_ne_nil _ _, faults, rfl⟩

/-- A taint hit is admitted as the rows say, or the database fails. -/
theorem admit_hit_cases (h : batch.Coherent pipeline.library) {record : JsonObject}
    (htype : isTaintHit record = true) (faults : List Bool) :
    (∃ contexts rest, (faults = [] → rest = []) ∧
      Batch.Coherent pipeline.library { batch with contexts := contexts } ∧
      ((∃ hit, admitted pipeline.library batch.tenant record = some hit ∧
          pipeline.admitHit record batch faults =
            ⟨.ok hit, { batch with contexts := contexts }, rest⟩) ∨
        ∃ rejection, admitted pipeline.library batch.tenant record = none ∧
          pipeline.admitHit record batch faults =
            ⟨.error (.rejected rejection), { batch with contexts := contexts }, rest⟩)) ∨
    (faults ≠ [] ∧ ∃ rest, pipeline.admitHit record batch faults =
      ⟨.error (.raised .OperationalError), batch, rest⟩) := by
  unfold ProcessRuntimeEvents.admitHit admitted
  simp only [htype, true_and]
  generalize (dictGet record (py "agent_id")).strOr pipeline.library = agentId
  cases hempty : agentId.isEmpty with
  | true => exact .inl ⟨_, faults, fun h ↦ h, h, .inr ⟨_, rfl, rfl⟩⟩
  | false =>
      simp only [Bool.false_eq_true, if_false, if_true]
      rcases context_of_cases h agentId faults with
        ⟨contexts, rest, hrest, hcoherent, hcontext⟩ | ⟨hfaults, rest, hcontext⟩
      · refine .inl ⟨contexts, rest, hrest, hcoherent, ?_⟩
        rw [Prog.bind_of_ok hcontext]
        cases contextFor pipeline.library batch.tenant agentId with
        | none => exact .inr ⟨_, rfl, rfl⟩
        | some context =>
            simp only [Option.bind_some, hitIn]
            cases dictGet record (py "payload") with
            | object payload =>
                dsimp only
                split
                · exact .inr ⟨_, rfl, rfl⟩
                · split
                  · exact .inr ⟨_, rfl, rfl⟩
                  · exact .inl ⟨_, rfl, rfl⟩
            | _ => exact .inr ⟨_, rfl, rfl⟩
      · exact .inr ⟨hfaults, rest, by rw [Prog.bind_of_error hcontext]⟩

end Aegis.Api
