import Aegis.Api.Finding
import Aegis.Lib.Machine
import Aegis.Server.DateTime

/-!
# The lifecycle of a finding

The triage of a finding, with what an occurrence and the end of an acceptance make of it. The fields
that depend on the status are set with it, except that the end of an acceptance is computed after
the other fields are written: the lifecycle is kept by just the runs in which every acceptance ends
within the range of a `datetime` (`lifecycle_kept_iff`).
-/

namespace Aegis.Api

open Server

/-- An exception that a transition raises. -/
inductive TransitionError where
  | InvalidStateError (message : PyStr)
  | OverflowError
  deriving DecidableEq

/-- `_ALLOWED_TRANSITIONS`. -/
def allowedTransitions : FindingStatus → List FindingStatus
  | .OPEN => [.CONFIRMED, .REMEDIATED, .FALSE_POSITIVE, .ACCEPTED_RISK]
  | .CONFIRMED => [.REMEDIATED, .FALSE_POSITIVE, .ACCEPTED_RISK]
  | .REMEDIATED => [.OPEN, .CONFIRMED]
  | .FALSE_POSITIVE => [.OPEN]
  | .ACCEPTED_RISK => [.OPEN]

/-- When an acceptance ends: `now + (accepted_for or timedelta(days=90))`. -/
def acceptanceEnd (now : Instant) (acceptedFor : Option Int) : Instant :=
  now + (acceptedFor.filter (· != 0)).getD (90 * DateTime.DAY : Nat)

namespace Finding

/-- The part of `transition` that writes the fields that are known before the acceptance. -/
def move (finding : Finding) (target : FindingStatus) (actorId : Uuid) (now : Instant)
    (note : PyStr) : Finding :=
  { finding with
    status := target
    triagedBy := some actorId
    triageNote := note.strip.take 2000
    remediatedAt := if target = .REMEDIATED then some now else none
    regressed := if target = .REMEDIATED then false else finding.regressed }

/-- `transition`: the exception that is raised, if one is, and the finding as it is left. -/
def transition (finding : Finding) (target : FindingStatus) (actorId : Uuid) (now : Instant)
    (note : PyStr) (acceptedFor : Option Int) : Option TransitionError × Finding :=
  if target = finding.status then (none, finding)
  else if target ∉ allowedTransitions finding.status then
    (some (.InvalidStateError (py "A finding cannot move from " ++ finding.status.value ++
      py " to " ++ target.value ++ py ".")), finding)
  else if target.isSuppressed && note.strip.isEmpty then
    (some (.InvalidStateError (py "Marking a finding " ++ target.value ++
      py " requires a reason.")), finding)
  else
    let moved := finding.move target actorId now note
    if target = .ACCEPTED_RISK then
      if DateTime.InRange (acceptanceEnd now acceptedFor) then
        (none, { moved with acceptedUntil := some (acceptanceEnd now acceptedFor) })
      else (some .OverflowError, moved)
    else (none, { moved with acceptedUntil := none })

/-- `expire_acceptance`: whether the acceptance has ended, and the finding then. -/
def expireAcceptance (finding : Finding) (now : Instant) : Bool × Finding :=
  if finding.status = .ACCEPTED_RISK ∧ finding.acceptedUntil.any (· ≤ now) = true then
    (true, { finding with status := .OPEN, acceptedUntil := none })
  else (false, finding)

end Finding

/-! ## Runs -/

/-- A call of a method of a finding. -/
inductive LifecycleCall where
  | transition (target : FindingStatus) (actorId : Uuid) (now : Instant) (note : PyStr)
      (acceptedFor : Option Int)
  | expireAcceptance (now : Instant)
  | recordOccurrence (environment routeTemplate : PyStr) (observedAt : Instant)
  | recordWouldBlock

/-- What a call raises, if anything, and the finding as it is left. -/
def Finding.call (finding : Finding) : LifecycleCall → Option TransitionError × Finding
  | .transition target actorId now note acceptedFor =>
      finding.transition target actorId now note acceptedFor
  | .expireAcceptance now => (none, (finding.expireAcceptance now).2)
  | .recordOccurrence environment routeTemplate observedAt =>
      (none, (finding.recordOccurrence environment routeTemplate observedAt).1)
  | .recordWouldBlock => (none, finding.recordWouldBlock)

/-- The fields that depend on the status are set as it says. -/
structure Finding.Consistent (finding : Finding) : Prop where
  remediated : finding.remediatedAt.isSome ↔ finding.status = .REMEDIATED
  accepted : finding.acceptedUntil.isSome ↔ finding.status = .ACCEPTED_RISK

/-- A call keeps the lifecycle: the fields are as the status says, what is refused changes nothing,
and an occurrence reopens a finding that is remediated and none that is suppressed. -/
structure Finding.Kept (finding : Finding) (call : LifecycleCall) : Prop where
  consistent : (finding.call call).2.Consistent
  refused : (finding.call call).1.isSome → (finding.call call).2 = finding
  occurrence : ∀ environment routeTemplate observedAt,
    call = .recordOccurrence environment routeTemplate observedAt →
      (finding.status.isSuppressed = true → (finding.call call).2.status = finding.status) ∧
        (finding.status = .REMEDIATED → (finding.call call).2.status = .OPEN)

/-- A transition that accepts the risk of a finding: the finding is open and a reason is given. -/
def Finding.Accepts (finding : Finding) (target : FindingStatus) (note : PyStr) : Prop :=
  target = .ACCEPTED_RISK ∧ (finding.status = .OPEN ∨ finding.status = .CONFIRMED) ∧
    note.strip ≠ []

/-- A call that accepts the risk of a finding does so until a time that a `datetime` can hold. -/
def Finding.InTime (finding : Finding) (call : LifecycleCall) : Prop :=
  ∀ target actorId now note acceptedFor,
    call = .transition target actorId now note acceptedFor → finding.Accepts target note →
      DateTime.InRange (acceptanceEnd now acceptedFor)

namespace Finding

/-- What a transition does: it leaves the finding as it is, or moves it and ends the acceptance, or
accepts its risk and sets the end of the acceptance, or overflows. -/
theorem transition_cases (finding : Finding) (target : FindingStatus) (actorId : Uuid)
    (now : Instant) (note : PyStr) (acceptedFor : Option Int) :
    let result := finding.transition target actorId now note acceptedFor
    let moved := finding.move target actorId now note
    (¬ finding.Accepts target note ∧ result.2 = finding) ∨
      (¬ finding.Accepts target note ∧ target ≠ .ACCEPTED_RISK ∧
        result = (none, { moved with acceptedUntil := none })) ∨
      (finding.Accepts target note ∧ DateTime.InRange (acceptanceEnd now acceptedFor) ∧
        result = (none, { moved with acceptedUntil := some (acceptanceEnd now acceptedFor) })) ∨
      (finding.Accepts target note ∧ ¬ DateTime.InRange (acceptanceEnd now acceptedFor) ∧
        result = (some .OverflowError, moved)) := by
  dsimp only
  unfold transition
  split
  · next hsame =>
      refine .inl ⟨?_, rfl⟩
      rintro ⟨rfl, hstatus, -⟩
      rw [← hsame] at hstatus
      exact hstatus.elim nofun nofun
  split
  · next hforbidden =>
      refine .inl ⟨?_, rfl⟩
      rintro ⟨rfl, hstatus | hstatus, -⟩ <;>
        · rw [hstatus] at hforbidden
          exact hforbidden (by decide)
  next hallowed =>
  split
  · next hnote =>
      refine .inl ⟨?_, rfl⟩
      rintro ⟨rfl, -, hreason⟩
      rw [Bool.and_eq_true, List.isEmpty_iff] at hnote
      exact hreason hnote.2
  · next hnote =>
      right
      by_cases htarget : target = .ACCEPTED_RISK
      · subst htarget
        have haccepts : finding.Accepts .ACCEPTED_RISK note := by
          refine ⟨rfl, ?_, by simpa [FindingStatus.isSuppressed] using hnote⟩
          revert hallowed
          cases finding.status <;> decide
        rw [if_pos rfl]
        split
        · next hrange => exact .inr (.inl ⟨haccepts, hrange, rfl⟩)
        · next hrange => exact .inr (.inr ⟨haccepts, hrange, rfl⟩)
      · rw [if_neg htarget]
        exact .inl ⟨fun haccepts ↦ htarget haccepts.1, htarget, rfl⟩

/-- A finding that is moved is remediated when its status says so. -/
theorem remediated_move (finding : Finding) (target : FindingStatus) (actorId : Uuid)
    (now : Instant) (note : PyStr) :
    (finding.move target actorId now note).remediatedAt.isSome ↔ target = .REMEDIATED := by
  unfold move
  dsimp only
  split
  · next h => exact iff_of_true rfl h
  · next h => exact iff_of_false nofun h

/-- A transition of a finding as its status says keeps the lifecycle, just when an acceptance ends in
time. -/
theorem Consistent.transition_kept_iff {finding : Finding} (h : finding.Consistent)
    (target : FindingStatus) (actorId : Uuid) (now : Instant) (note : PyStr)
    (acceptedFor : Option Int) :
    finding.Kept (.transition target actorId now note acceptedFor) ↔
      (finding.Accepts target note → DateTime.InRange (acceptanceEnd now acceptedFor)) := by
  have hkept : ∀ {error : Option TransitionError} {after : Finding},
      finding.transition target actorId now note acceptedFor = (error, after) →
        (finding.Kept (.transition target actorId now note acceptedFor) ↔
          after.Consistent ∧ (error.isSome → after = finding)) := by
    intro error after hresult
    constructor
    · rintro ⟨hconsistent, hrefused, -⟩
      change (finding.transition target actorId now note acceptedFor).2.Consistent at hconsistent
      change (finding.transition target actorId now note acceptedFor).1.isSome →
        (finding.transition target actorId now note acceptedFor).2 = finding at hrefused
      rw [hresult] at hconsistent hrefused
      exact ⟨hconsistent, hrefused⟩
    · rintro ⟨hconsistent, hrefused⟩
      refine ⟨?_, ?_, nofun⟩
      · show (finding.transition target actorId now note acceptedFor).2.Consistent
        rwa [hresult]
      · show (finding.transition target actorId now note acceptedFor).1.isSome →
          (finding.transition target actorId now note acceptedFor).2 = finding
        rwa [hresult]
  obtain ⟨hnot, hsame⟩ | ⟨hnot, htarget, hresult⟩ | ⟨haccepts, hrange, hresult⟩ |
    ⟨haccepts, hrange, hresult⟩ :=
      finding.transition_cases target actorId now note acceptedFor
  · refine iff_of_true ?_ fun haccepts ↦ absurd haccepts hnot
    have hresult : finding.transition target actorId now note acceptedFor =
        ((finding.transition target actorId now note acceptedFor).1, finding) :=
      Prod.ext rfl hsame
    exact (hkept hresult).mpr ⟨h, fun _ ↦ rfl⟩
  · refine iff_of_true ?_ fun haccepts ↦ absurd haccepts hnot
    refine (hkept hresult).mpr ⟨⟨?_, iff_of_false nofun htarget⟩, nofun⟩
    exact finding.remediated_move target actorId now note
  · refine iff_of_true ?_ fun _ ↦ hrange
    refine (hkept hresult).mpr ⟨⟨?_, iff_of_true rfl haccepts.1⟩, nofun⟩
    exact finding.remediated_move target actorId now note
  · -- the risk is accepted and no end is set
    refine iff_of_false (fun hgood ↦ ?_) fun himp ↦ hrange (himp haccepts)
    have hset := ((hkept hresult).mp hgood).1.accepted.mpr haccepts.1
    have hwas : finding.acceptedUntil.isSome := hset
    rw [h.accepted] at hwas
    rcases haccepts.2.1 with hstatus | hstatus <;>
      · rw [hstatus] at hwas
        cases hwas

/-- So does every call. -/
theorem Consistent.kept_iff {finding : Finding} (h : finding.Consistent) (call : LifecycleCall) :
    finding.Kept call ↔ finding.InTime call := by
  cases call with
  | transition target actorId now note acceptedFor =>
      rw [h.transition_kept_iff]
      constructor
      · rintro himp _ _ _ _ _ ⟨⟩ haccepts
        exact himp haccepts
      · exact fun hin haccepts ↦ hin _ _ _ _ _ rfl haccepts
  | expireAcceptance now =>
      refine iff_of_true ⟨?_, nofun, nofun⟩ nofun
      show (finding.expireAcceptance now).2.Consistent
      unfold expireAcceptance
      split
      · next hexpired =>
          refine ⟨?_, iff_of_false nofun nofun⟩
          refine iff_of_false (fun hsome ↦ ?_) nofun
          have hstatus := h.remediated.mp hsome
          rw [hexpired.1] at hstatus
          cases hstatus
      · exact h
  | recordOccurrence environment routeTemplate observedAt =>
      refine iff_of_true ⟨?_, nofun, ?_⟩ nofun
      · show (finding.recordOccurrence environment routeTemplate observedAt).1.Consistent
        unfold recordOccurrence
        split
        · exact ⟨h.remediated, h.accepted⟩
        · dsimp only
          split
          · next hstatus =>
              refine ⟨iff_of_false nofun nofun, iff_of_false (fun hsome ↦ ?_) nofun⟩
              have haccepted := h.accepted.mp hsome
              rw [hstatus] at haccepted
              cases haccepted
          · exact ⟨h.remediated, h.accepted⟩
      · rintro _ _ _ ⟨⟩
        show (_ → (finding.recordOccurrence environment routeTemplate observedAt).1.status = _) ∧
          (_ → (finding.recordOccurrence environment routeTemplate observedAt).1.status = _)
        unfold recordOccurrence
        constructor
        · intro hsuppressed
          rw [if_pos hsuppressed]
          rfl
        · intro hstatus
          rw [if_neg (by rw [hstatus]; decide), if_pos hstatus]
  | recordWouldBlock => exact iff_of_true ⟨⟨h.remediated, h.accepted⟩, nofun, nofun⟩ nofun

/-- From a finding as its status says, every call of a run keeps the lifecycle just when every
acceptance of the run ends in time. -/
theorem lifecycle_kept_iff {finding : Finding} (h : finding.Consistent)
    (calls : List LifecycleCall) :
    Machine.Meets Finding.call Kept finding calls ↔
      Machine.Meets Finding.call InTime finding calls := by
  induction calls generalizing finding with
  | nil => exact Iff.rfl
  | cons call calls ih =>
      constructor
      · rintro ⟨hkept, hrest⟩
        exact ⟨(h.kept_iff call).mp hkept, (ih hkept.consistent).mp hrest⟩
      · rintro ⟨hin, hrest⟩
        have hkept := (h.kept_iff call).mpr hin
        exact ⟨hkept, (ih hkept.consistent).mpr hrest⟩

/-- A finding that was just made is as its status says. -/
theorem consistent_create (id organizationId applicationId : Uuid) (identityHash ruleKey : PyStr)
    (title : Title) (severity : Severity) (confidence : Confidence)
    (sinkSignature sourceKind stackHash : PyStr) :
    (create id organizationId applicationId identityHash ruleKey title severity confidence
      sinkSignature sourceKind stackHash).Consistent :=
  ⟨iff_of_false nofun nofun, iff_of_false nofun nofun⟩

/-- A finding that was just made. -/
def newFinding : Finding :=
  create 1 2 3 (py "d4") (py "sql-injection") ⟨py "SQL injection", by decide⟩ .CRITICAL .CONFIRMED
    (py "java.sql.Statement#executeQuery") (py "PARAMETER") (py "e5")

/-- A finding is accepted for ninety days, seen, returned to the queue and remediated. -/
theorem lifecycle_kept_new :
    Machine.Meets Finding.call Kept newFinding
      [.transition .ACCEPTED_RISK 7 0 (py "internal tool") none,
        .recordOccurrence (py "PRODUCTION") (py "/users") 5, .expireAcceptance 8000000000000,
        .transition .REMEDIATED 7 9000000000000 [] none] := by
  refine (lifecycle_kept_iff (consistent_create ..) _).mpr ⟨?_, nofun, nofun, ?_, trivial⟩
  · rintro _ _ _ _ _ ⟨⟩ -
    decide
  · rintro _ _ _ _ _ ⟨⟩ haccepts
    exact nomatch haccepts.1

/-- A finding that is accepted for three million days is left accepted without an end. -/
theorem lifecycle_broken :
    newFinding.Consistent ∧
      ¬ Machine.Meets Finding.call Kept newFinding
        [.transition .ACCEPTED_RISK 7 0 (py "legacy") (some (3000000 * DateTime.DAY : Nat))] := by
  refine ⟨consistent_create .., fun h ↦ ?_⟩
  have hset := h.1.consistent.accepted.mpr (by decide +kernel)
  exact absurd hset (by decide +kernel)

end Finding

end Aegis.Api
