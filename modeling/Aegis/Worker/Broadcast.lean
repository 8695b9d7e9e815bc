import Aegis.Api.FindingRuns
import Aegis.Worker.Retry

/-!
# What subscribers are told

A finding is announced inside of the transaction that stores it. When the transaction fails later,
the announcement stays and the finding does not. Every announcement is of a committed finding, and
every finding is announced as new once, in every run in which no transaction fails after it has
announced a new finding (`announcements_committed`).
-/

namespace Aegis.Worker

open Server Api

/-! ## What is promised -/

/-- The announcements are of findings that are committed, and each of these was announced as new
exactly once. -/
structure Honest (worker : WorkerState) : Prop where
  committed : ∀ announcement ∈ worker.announcements, ∃ identity row,
    (worker.database announcement.organizationId).rowOf identity = some row ∧
      row.val.id = announcement.findingId
  once : ∀ organizationId identity row,
    (worker.database organizationId).rowOf identity = some row →
      worker.announcements.countP (fun announcement ↦
        announcement.created && announcement.findingId = row.val.id) = 1

/-- The ids of the findings are drawn. -/
def Drawn (pipeline : ProcessRuntimeEvents) (worker : WorkerState) : Prop :=
  ∀ organizationId identity row, (worker.database organizationId).rowOf identity = some row →
    ∃ k < worker.draws, row.val.id = pipeline.newId k

/-- What something announces. -/
def announced (pipeline : ProcessRuntimeEvents) (worker : WorkerState) (happening : Happening) :
    List Announcement :=
  (worker.step pipeline happening).2.announcements.drop worker.announcements.length

/-- A transaction that fails has announced no new finding. -/
def FailsSilently (pipeline : ProcessRuntimeEvents) (worker : WorkerState)
    (happening : Happening) : Prop :=
  (worker.step pipeline happening).1 = false →
    ∀ announcement ∈ announced pipeline worker happening, announcement.created = false

instance (pipeline : ProcessRuntimeEvents) (worker : WorkerState) (happening : Happening) :
    Decidable (FailsSilently pipeline worker happening) :=
  inferInstanceAs (Decidable (_ → ∀ announcement ∈ announced pipeline worker happening, _))

variable {pipeline : ProcessRuntimeEvents} {organizationId : Uuid} {record : JsonObject} {hit : Hit}
  {fold : Fold} {worker : WorkerState} {b after : Batch}

/-! ## A fold -/

/-- The rows after a fold: one is put. -/
theorem row_of_commit_fold (worker : WorkerState) (organizationId : Uuid) {row : FindingRow}
    (hrows : ∀ identity, after.tenant.rowOf identity =
      if identity = fold.identity then some row else b.tenant.rowOf identity)
    (other : Uuid) (identity : PyStr) :
    ((worker.commit organizationId after).database other).rowOf identity =
      if other = organizationId ∧ identity = fold.identity then some row
      else ((worker.commit organizationId b).database other).rowOf identity := by
  rw [worker.database_commit, worker.database_commit]
  by_cases hother : other = organizationId
  · rw [if_pos hother, if_pos hother, hrows]
    exact if_congr (iff_and_self.mpr fun _ ↦ hother) rfl rfl
  · rw [if_neg hother, if_neg hother, if_neg fun h ↦ hother h.1]

/-- What is folded is announced: when it is new, under an id that nothing had before. -/
theorem honest_commit_fold {n : Nat} (hids : FreshIds pipeline n) (hn : after.draws ≤ n)
    (h : Honest (worker.commit organizationId b))
    (hdrawn : Drawn pipeline (worker.commit organizationId b))
    (hof : fold.Of pipeline hit organizationId record b after) :
    Honest (worker.commit organizationId after) ∧
      Drawn pipeline (worker.commit organizationId after) := by
  obtain ⟨row, hheld, hput⟩ := hof.rows
  obtain ⟨hstoredId, hnewId⟩ := hof.continues.seen_id
  have hrows := row_of_commit_fold worker organizationId hput
  have hbefore : ((worker.commit organizationId b).database organizationId).rowOf fold.identity =
      b.tenant.rowOf fold.identity := by
    rw [worker.database_commit, if_pos rfl]
  -- a new finding has an id that no row had before
  have hfresh : ∀ other identity old,
      ((worker.commit organizationId b).database other).rowOf identity = some old →
        b.tenant.rowOf fold.identity = none → old.val.id ≠ (fold.seen pipeline hit).id := by
    intro other identity old hold hnone
    obtain ⟨k, hk, hid⟩ := hdrawn other identity old hold
    obtain ⟨hle, hlt⟩ := hof.drawn hnone
    rw [hnewId hnone, hid]
    exact hids fold.draw (hlt.trans_le hn) k (lt_of_lt_of_le hk hle)
  have hannouncements : (worker.commit organizationId after).announcements =
      (worker.commit organizationId b).announcements ++
        [fold.announcement pipeline hit organizationId
          (b.tenant.rowOf fold.identity).isNone] := hof.announcements
  refine ⟨⟨fun announcement hannouncement ↦ ?_, fun other identity old hold ↦ ?_⟩,
    fun other identity old hold ↦ ?_⟩
  · rw [hannouncements, List.mem_append, List.mem_singleton] at hannouncement
    rcases hannouncement with hearlier | rfl
    · obtain ⟨identity, old, hold, hid⟩ := h.committed announcement hearlier
      by_cases hsame : announcement.organizationId = organizationId ∧ identity = fold.identity
      · refine ⟨identity, row, by rw [hrows, if_pos hsame], ?_⟩
        rw [hsame.1, hsame.2, hbefore] at hold
        rw [hheld.id, hstoredId old hold, hid]
      · exact ⟨identity, old, by rw [hrows, if_neg hsame, hold], hid⟩
    · exact ⟨fold.identity, row, by rw [hrows, if_pos ⟨rfl, rfl⟩], hheld.id⟩
  · rw [hannouncements, List.countP_append, List.countP_singleton]
    rw [hrows] at hold
    cases hstored : b.tenant.rowOf fold.identity with
    | none =>
        split at hold
        · -- the new finding is announced now, and was not before
          cases hold
          rw [if_pos, List.countP_eq_zero.mpr, Nat.zero_add]
          · intro announcement hannouncement hsame
            obtain ⟨identity', old, hold, hid⟩ := h.committed announcement hannouncement
            rw [Bool.and_eq_true, decide_eq_true_iff] at hsame
            exact hfresh _ identity' old hold hstored ((hid.trans hsame.2).trans hheld.id)
          · exact Bool.and_eq_true_iff.mpr ⟨rfl, decide_eq_true hheld.id.symm⟩
        · have hne := hfresh other identity old hold hstored
          rw [if_neg, Nat.add_zero]
          · exact h.once other identity old hold
          · rw [Bool.and_eq_true, decide_eq_true_iff]
            exact fun hsame ↦ hne hsame.2.symm
    | some stored =>
        rw [if_neg nofun, Nat.add_zero]
        split at hold
        · cases hold
          rw [hheld.id, hstoredId stored hstored]
          exact h.once organizationId fold.identity stored (hbefore.trans hstored)
        · exact h.once other identity old hold
  · rw [hrows] at hold
    split at hold
    · cases hold
      cases hstored : b.tenant.rowOf fold.identity with
      | none => exact ⟨fold.draw, (hof.drawn hstored).2, hheld.id.trans (hnewId hstored)⟩
      | some stored =>
          obtain ⟨k, hk, hid⟩ := hdrawn _ _ stored (hbefore.trans hstored)
          exact ⟨k, lt_of_lt_of_le hk hof.draws,
            (hheld.id.trans (hstoredId stored hstored)).trans hid⟩
    · obtain ⟨k, hk, hid⟩ := hdrawn other identity old hold
      exact ⟨k, lt_of_lt_of_le hk hof.draws, hid⟩

/-- What the transaction has announced so far: of its organization, and of a new finding unless the
rows are those it began with. -/
def Traced (worker : WorkerState) (organizationId : Uuid) (b : Batch) : Prop :=
  ∃ sent, b.announcements = worker.announcements ++ sent ∧
    (∀ announcement ∈ sent, announcement.organizationId = organizationId) ∧
    ((∃ announcement ∈ sent, announcement.created = true) ∨
      ∀ identity row, b.tenant.rowOf identity = some row →
        ∃ old, (worker.database organizationId).rowOf identity = some old ∧
          old.val.id = row.val.id)

/-- A fold is traced. -/
theorem Traced.after_fold (h : Traced worker organizationId b)
    (hof : fold.Of pipeline hit organizationId record b after) :
    Traced worker organizationId after := by
  obtain ⟨sent, hsent, horganization, hcases⟩ := h
  obtain ⟨row, hheld, hrows⟩ := hof.rows
  obtain ⟨hstoredId, -⟩ := hof.continues.seen_id
  refine ⟨_, hof.announcements.trans ((congrArg (· ++ _) hsent).trans (List.append_assoc _ _ _)),
    ?_, ?_⟩
  · intro announcement hannouncement
    rcases List.mem_append.mp hannouncement with hearlier | hnew
    · exact horganization announcement hearlier
    · rw [List.mem_singleton.mp hnew]
      rfl
  · rcases hcases with ⟨announcement, hannouncement, hcreated⟩ | hsame
    · exact .inl ⟨announcement, List.mem_append_left _ hannouncement, hcreated⟩
    · cases hstored : b.tenant.rowOf fold.identity with
      | none => exact .inl ⟨_, List.mem_append_right _ List.mem_cons_self, rfl⟩
      | some stored =>
          refine .inr fun identity other hother ↦ ?_
          rw [hrows] at hother
          split at hother
          · next hidentity =>
              cases hother
              obtain ⟨old, hold, hid⟩ := hsame _ stored hstored
              exact ⟨old, hidentity ▸ hold, by rw [hid, hheld.id, hstoredId stored hstored]⟩
          · exact hsame identity other hother

/-! ## Runs -/

/-- The id of the row of an identity. -/
def rowId (worker : WorkerState) (organizationId : Uuid) (identity : PyStr) : Option Uuid :=
  ((worker.database organizationId).rowOf identity).map fun row ↦ row.val.id

/-- The row that has an id that is kept. -/
theorem exists_row_of_row_id {worker worker' : WorkerState} {other : Uuid} {identity : PyStr}
    {row : FindingRow} (hsame : rowId worker' other identity = rowId worker other identity)
    (hrow : (worker.database other).rowOf identity = some row) :
    ∃ row', (worker'.database other).rowOf identity = some row' ∧ row'.val.id = row.val.id := by
  unfold rowId at hsame
  rw [hrow] at hsame
  obtain ⟨row', hrow', hid⟩ := Option.map_eq_some_iff.mp hsame
  exact ⟨row', hrow', hid⟩

/-- The ids of the rows and the announcements decide. -/
theorem Honest.congr {worker worker' : WorkerState} (h : Honest worker)
    (hsame : ∀ other identity, rowId worker' other identity = rowId worker other identity)
    (hannouncements : worker'.announcements = worker.announcements) : Honest worker' where
  committed announcement hannouncement := by
    rw [hannouncements] at hannouncement
    obtain ⟨identity, row, hrow, hid⟩ := h.committed announcement hannouncement
    obtain ⟨row', hrow', hid'⟩ := exists_row_of_row_id (hsame _ _) hrow
    exact ⟨identity, row', hrow', hid'.trans hid⟩
  once other identity row hrow := by
    obtain ⟨old, hold, hid⟩ := exists_row_of_row_id (hsame other identity).symm hrow
    rw [hannouncements, ← hid]
    exact h.once other identity old hold

theorem Drawn.congr {worker worker' : WorkerState} (h : Drawn pipeline worker)
    (hsame : ∀ other identity, rowId worker' other identity = rowId worker other identity)
    (hdraws : worker.draws ≤ worker'.draws) : Drawn pipeline worker' := by
  intro other identity row hrow
  obtain ⟨old, hold, hid⟩ := exists_row_of_row_id (hsame other identity).symm hrow
  obtain ⟨k, hk, hdrawn⟩ := h other identity old hold
  exact ⟨k, hk.trans_le hdraws, hid.symm.trans hdrawn⟩

/-- A transaction that fails and has announced no new finding leaves the promise kept. -/
theorem honest_rollback (h : Honest worker) (hcommit : Honest (worker.commit organizationId b))
    (htraced : Traced worker organizationId b)
    (hsilent : ∀ announcement ∈ b.announcements.drop worker.announcements.length,
      announcement.created = false) : Honest (worker.rollback b) := by
  obtain ⟨sent, hsent, horganization, hcases⟩ := htraced
  rw [hsent, List.drop_left] at hsilent
  have hsame := hcases.resolve_left fun ⟨announcement, hannouncement, hcreated⟩ ↦
    nomatch (hsilent announcement hannouncement).symm.trans hcreated
  refine ⟨fun announcement hannouncement ↦ ?_, fun other identity row hrow ↦ ?_⟩
  · change announcement ∈ b.announcements at hannouncement
    rcases List.mem_append.mp (hsent ▸ hannouncement) with hearlier | hnew
    · exact h.committed announcement hearlier
    · obtain ⟨identity, row, hrow, hid⟩ := hcommit.committed announcement hannouncement
      rw [horganization announcement hnew, worker.database_commit, if_pos rfl] at hrow
      obtain ⟨old, hold, hold'⟩ := hsame identity row hrow
      refine ⟨identity, old, ?_, hold'.trans hid⟩
      rw [horganization announcement hnew]
      exact hold
  · show b.announcements.countP _ = 1
    rw [hsent, List.countP_append, h.once other identity row hrow, List.countP_eq_zero.mpr]
    intro announcement hannouncement hcreated
    rw [Bool.and_eq_true, hsilent announcement hannouncement] at hcreated
    exact nomatch hcreated.1

/-- An event keeps the promise, for the time that its transaction is committed. -/
theorem ends_fold_record_honest {n : Nat} (hids : FreshIds pipeline n)
    (hcoherent : b.Coherent pipeline.library) (htraced : Traced worker organizationId b)
    (h : b.draws ≤ n → Honest (worker.commit organizationId b) ∧
      Drawn pipeline (worker.commit organizationId b)) :
    Prog.Ends (pipeline.foldRecord organizationId record) b
      (fun _ after ↦ after.Coherent pipeline.library ∧ Traced worker organizationId after ∧
        (after.draws ≤ n → Honest (worker.commit organizationId after) ∧
          Drawn pipeline (worker.commit organizationId after)))
      fun _ after ↦ Traced worker organizationId after ∧
        (after.draws ≤ n → Honest (worker.commit organizationId after) ∧
          Drawn pipeline (worker.commit organizationId after)) := by
  have huntouched : ∀ {after : Batch}, b.Untouched after →
      Traced worker organizationId after ∧
        (after.draws ≤ n → Honest (worker.commit organizationId after) ∧
          Drawn pipeline (worker.commit organizationId after)) := by
    intro after hsame
    have hrows : ∀ other identity, rowId (worker.commit organizationId after) other identity =
        rowId (worker.commit organizationId b) other identity := by
      intro other identity
      unfold rowId
      rw [worker.database_commit, worker.database_commit, hsame.tenant]
    refine ⟨?_, fun hn ↦ ?_⟩
    · unfold Traced
      rw [hsame.tenant, hsame.announcements]
      exact htraced
    · obtain ⟨hhonest, hdrawn⟩ := h (hsame.draws.trans hn)
      exact ⟨hhonest.congr hrows hsame.announcements, hdrawn.congr hrows hsame.draws⟩
  have hfold : ∀ {hit : Hit} {fold : Fold} {after : Batch},
      fold.Of pipeline hit organizationId record b after →
      Traced worker organizationId after ∧
        (after.draws ≤ n → Honest (worker.commit organizationId after) ∧
          Drawn pipeline (worker.commit organizationId after)) := by
    intro hit fold after hof
    refine ⟨htraced.after_fold hof, fun hn ↦ ?_⟩
    obtain ⟨hhonest, hdrawn⟩ := h (hof.draws.trans hn)
    exact honest_commit_fold hids hn hhonest hdrawn hof
  refine (ends_fold_record_cases hcoherent).mono (fun _ after ⟨hafter, hcases⟩ ↦ ⟨hafter, ?_⟩)
    fun _ after hcases ↦ ?_
  · rcases hcases with ⟨-, hsame⟩ | ⟨hit, fold, -, hof, -⟩
    · exact huntouched hsame
    · exact hfold hof
  · rcases hcases with hsame | ⟨hit, fold, hof⟩
    · exact huntouched hsame
    · exact hfold hof

/-- Whatever happens keeps the promise, as long as a transaction that fails has announced no new
finding. -/
theorem honest_step {happening : Happening}
    (hids : FreshIds pipeline (worker.step pipeline happening).2.draws)
    (hsilent : FailsSilently pipeline worker happening) (h : Honest worker)
    (hdrawn : Drawn pipeline worker) :
    Honest (worker.step pipeline happening).2 ∧
      Drawn pipeline (worker.step pipeline happening).2 := by
  have hdraws := worker.draws_le_step pipeline happening
  cases happening with
  | batch result => exact ⟨h.congr (fun _ _ ↦ rfl) rfl, hdrawn.congr (fun _ _ ↦ rfl) le_rfl⟩
  | fold group faults =>
      change FreshIds pipeline (pipeline.transaction group worker faults).state.draws at hids
      change worker.draws ≤ (pipeline.transaction group worker faults).state.draws at hdraws
      change (pipeline.transaction group worker faults).outcome.toBool = false →
        ∀ announcement ∈ (pipeline.transaction group worker faults).state.announcements.drop
          worker.announcements.length, announcement.created = false at hsilent
      show Honest (pipeline.transaction group worker faults).state ∧
        Drawn pipeline (pipeline.transaction group worker faults).state
      have hbegun : ∀ other identity,
          rowId (worker.commit group.1 (worker.begin group.1)) other identity =
            rowId worker other identity := by
        intro other identity
        unfold rowId
        rw [worker.database_commit]
        split
        · next hother => rw [hother]; rfl
        · rfl
      have hstart : (worker.begin group.1).Coherent pipeline.library ∧
          Traced worker group.1 (worker.begin group.1) ∧
          ((worker.begin group.1).draws ≤
              (pipeline.transaction group worker faults).state.draws →
            Honest (worker.commit group.1 (worker.begin group.1)) ∧
              Drawn pipeline (worker.commit group.1 (worker.begin group.1))) :=
        ⟨fun _ _ hnone ↦ (by cases hnone),
          ⟨[], (List.append_nil _).symm, fun _ hmem ↦ (nomatch hmem),
            .inr fun _ row hrow ↦ ⟨row, hrow, rfl⟩⟩,
          fun _ ↦ ⟨h.congr hbegun rfl, hdrawn.congr hbegun le_rfl⟩⟩
      have hloop : ∀ {outcome after rest}, pipeline.foldRecords group.1 group.2
          (worker.begin group.1) faults.tail = ⟨outcome, after, rest⟩ →
          Traced worker group.1 after ∧
            (after.draws ≤ (pipeline.transaction group worker faults).state.draws →
              Honest (worker.commit group.1 after) ∧
                Drawn pipeline (worker.commit group.1 after)) := by
        intro outcome after rest hfolded
        have hpreserved := fold_records_preserves
          (fun b record (hinv : b.Coherent pipeline.library ∧ Traced worker group.1 b ∧
              (b.draws ≤ (pipeline.transaction group worker faults).state.draws →
                Honest (worker.commit group.1 b) ∧ Drawn pipeline (worker.commit group.1 b))) _ ↦
            ends_fold_record_honest hids hinv.1 hinv.2.1 hinv.2.2)
          hstart (each_record_true _ _ _) hfolded
        cases outcome with
        | ok a => exact (hpreserved.1 a rfl).2
        | error e => exact hpreserved.2 e rfl
      have hrolledBack : ∀ {after : Batch}, Traced worker group.1 after →
          Honest (worker.commit group.1 after) →
          (pipeline.transaction group worker faults).outcome.toBool = false →
          (pipeline.transaction group worker faults).state = worker.rollback after →
          Honest (pipeline.transaction group worker faults).state ∧
            Drawn pipeline (pipeline.transaction group worker faults).state := by
        intro after htraced hcommit hfailed hstate
        rw [hstate] at hsilent hdraws ⊢
        exact ⟨honest_rollback h hcommit htraced (hsilent hfailed),
          hdrawn.congr (fun _ _ ↦ rfl) hdraws⟩
      rcases transaction_cases pipeline group worker faults with
        ⟨after, rest, hfolded, -, hstate⟩ |
          ⟨failure, after, herror, hstate, rfl | ⟨outcome, rest, hfolded⟩⟩
      · have hkept := (hloop hfolded).2
        rw [hstate] at hkept ⊢
        exact hkept le_rfl
      · exact hrolledBack hstart.2.1 (hstart.2.2 hdraws).1 (by rw [herror]; rfl) hstate
      · obtain ⟨htraced, hkept⟩ := hloop hfolded
        refine hrolledBack htraced (hkept ?_).1 (by rw [herror]; rfl) hstate
        rw [hstate]
        exact le_rfl
  | configure other agents =>
      have hrows : ∀ organizationId identity,
          rowId (worker.step pipeline (.configure other agents)).2 organizationId identity =
            rowId worker organizationId identity := by
        intro organizationId identity
        show Option.map _ (((worker.set other _).database organizationId).rowOf identity) = _
        rw [worker.database_set]
        split
        · next hother => rw [hother]; rfl
        · rfl
      exact ⟨h.congr hrows rfl, hdrawn.congr hrows le_rfl⟩
  | triage other named triage =>
      have hrows : ∀ organizationId identity,
          rowId (worker.step pipeline (.triage other named triage)).2 organizationId identity =
            rowId worker organizationId identity := by
        intro organizationId identity
        show Option.map _ (((worker.set other _).database organizationId).rowOf identity) = _
        rw [worker.database_set]
        split
        · next hother =>
            unfold rowId
            rw [hother]
            rcases (worker.database other).row_of_triage named triage identity with
              ⟨hnone, hbefore⟩ | ⟨row, old, hrow, hold, hsame⟩
            · rw [hnone, hbefore]
            · rw [hrow, hold, Option.map_some, Option.map_some, hsame.id]
        · rfl
      exact ⟨h.congr hrows rfl, hdrawn.congr hrows le_rfl⟩

/-- The transactions of a batch are a run. -/
theorem exists_run_transactions (pipeline : ProcessRuntimeEvents)
    (groups : List (Uuid × List JsonObject)) (worker : WorkerState) (faults : List Bool) :
    ∃ run, Machine.final (WorkerState.step pipeline) worker run =
      (pipeline.transactions groups worker faults).state := by
  induction groups generalizing worker faults with
  | nil => exact ⟨[], rfl⟩
  | cons group groups ih =>
      unfold ProcessRuntimeEvents.transactions
      rcases heq : pipeline.transaction group worker faults with ⟨failure | _, next, rest⟩
      · rw [Prog.bind_of_error heq]
        refine ⟨[.fold group faults], ?_⟩
        show (pipeline.transaction group worker faults).state = next
        rw [heq]
      · rw [Prog.bind_of_ok heq]
        obtain ⟨run, hrun⟩ := ih next rest
        refine ⟨.fold group faults :: run, ?_⟩
        rw [← hrun]
        show Machine.final _ (pipeline.transaction group worker faults).state run = _
        rw [heq]

/-- So is an attempt at a batch. -/
theorem exists_run_execute (pipeline : ProcessRuntimeEvents) (records : List Json)
    (worker : WorkerState) (faults : List Bool) :
    ∃ run, Machine.final (WorkerState.step pipeline) worker run =
      (pipeline.execute records worker faults).state := by
  unfold ProcessRuntimeEvents.execute
  cases hgroups : groupByTenant pipeline.library records [] .initial with
  | error exception => exact ⟨[], rfl⟩
  | ok grouped =>
      obtain ⟨run, hrun⟩ :=
        exists_run_transactions pipeline grouped.1 { worker with result := grouped.2 } faults
      refine ⟨.batch grouped.2 :: run, ?_⟩
      show _ = ((pipeline.transactions grouped.1 >>= fun _ ↦ Prog.read WorkerState.result)
        { worker with result := grouped.2 } faults).state
      rw [Prog.state_bind_read, ← hrun]
      rfl

/-- And so are all attempts of `_process_with_retry`. -/
theorem exists_run_process_with_retry (pipeline : ProcessRuntimeEvents) (records : List Json)
    (attempts : List Attempt) (worker : WorkerState) :
    ∃ run, Machine.final (WorkerState.step pipeline) worker run =
      (processWithRetry pipeline records attempts worker).2 := by
  induction attempts generalizing worker with
  | nil => exact ⟨[], rfl⟩
  | cons attempt attempts ih =>
      obtain ⟨first, hfirst⟩ := exists_run_execute pipeline records worker attempt.faults
      unfold processWithRetry
      rcases heq : pipeline.execute records worker attempt.faults with ⟨failure | _, next, rest⟩ <;>
        rw [heq] at hfirst
      · dsimp only
        split
        · exact ⟨first, hfirst⟩
        · obtain ⟨run, hrun⟩ := ih next
          refine ⟨first ++ run, ?_⟩
          rw [← hrun]
          exact List.foldl_append.trans (congrArg (Machine.final _ · run) hfirst)
      · exact ⟨first, hfirst⟩

/-- An announcement of a finding that no row holds. -/
def lost (worker : WorkerState) : Bool :=
  worker.announcements.any fun announcement ↦
    (worker.database announcement.organizationId).findings.all fun row ↦
      !(row.val.id == announcement.findingId)

/-- When the promise is kept there is none. -/
theorem Honest.none_lost (h : Honest worker) : lost worker = false := by
  refine Bool.eq_false_iff.mpr fun hlost ↦ ?_
  obtain ⟨announcement, hannouncement, hnone⟩ := List.any_eq_true.mp hlost
  obtain ⟨identity, row, hrow, hid⟩ := h.committed announcement hannouncement
  have hother := List.all_eq_true.mp hnone row (List.mem_of_find?_eq_some hrow)
  rw [hid, beq_self_eq_true] at hother
  cases hother

/-- The hit of the example, in a transaction that fails at these steps, and again. -/
def retriedRun (faults : List Bool) : List Happening :=
  [.fold (1, [hitAt 1]) faults, .fold (1, [hitAt 1]) []]

end Aegis.Worker
