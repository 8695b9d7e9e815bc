import Mathlib.Algebra.GroupWithZero.Nat
import Aegis.Agent.Spool

/-!
# What the spool's operations do

A segment only grows until it is deleted, an append deletes only what it has counted or could not
read, and one that fails leaves an unfinished line behind the complete ones of at most one segment.
-/

namespace Aegis.Agent

open Prog

/-! ## States of the directory -/

namespace Storage

variable {s : Storage} {path other : JString}

@[simp] theorem bytes_of_put_self (s : Storage) (path : JString) (bytes : Bytes) :
    (s.put path bytes).bytesOf path = some ((s.bytesOf path).getD [] ++ bytes) :=
  AList.lookup_insert _

theorem bytes_of_put_other (h : other ≠ path) (s : Storage) (bytes : Bytes) :
    (s.put path bytes).bytesOf other = s.bytesOf other :=
  AList.lookup_insert_ne h

/-- Bytes are put one after the other. -/
theorem put_put (s : Storage) (path : JString) (bytes more : Bytes) :
    (s.put path bytes).put path more = s.put path (bytes ++ more) := by
  have h : (s.put path bytes).files.insert path (((s.put path bytes).bytesOf path).getD [] ++ more) =
      s.files.insert path ((s.bytesOf path).getD [] ++ (bytes ++ more)) := by
    rw [bytes_of_put_self, Option.getD_some, List.append_assoc]
    exact AList.insert_insert _
  exact congrArg (fun files ↦ ({ s with directory := some files } : Storage)) h

theorem bytes_of_remove_other (h : other ≠ path) (s : Storage) :
    (s.remove path).bytesOf other = s.bytesOf other := by
  unfold remove bytesOf files
  cases s.directory with
  | none => rfl
  | some files => exact AList.lookup_erase_ne h

@[simp] theorem bytes_of_note (s : Storage) (action : FileAction) :
    (s.note action).bytesOf path = s.bytesOf path := rfl

/-- A file that holds something is one of the files. -/
theorem mem_keys_of_bytes_of {bytes : Bytes} (h : s.bytesOf path = some bytes) :
    path ∈ s.files.keys := by
  refine AList.lookup_isSome.mp ?_
  rw [show s.files.lookup path = some bytes from h]
  rfl

/-- Where a file is, there is a directory. -/
theorem is_none_directory {bytes : Bytes} (h : s.bytesOf path = some bytes) :
    s.directory.isNone = false := by
  unfold bytesOf files at h
  cases hdirectory : s.directory with
  | none =>
      rw [hdirectory] at h
      exact nomatch h
  | some files => rfl

end Storage

/-- The lines a segment with these bytes is read back as. -/
def textLines (bytes : Bytes) : List JString :=
  ((readAllLines bytes).getD []).filter fun line ↦ !line.isBlank

/-- Lines stay first when more are written behind them. -/
theorem text_lines_append {bytes more : Bytes} (hbytes : Whole bytes) (hmore : Whole more) :
    textLines (bytes ++ more) = textLines bytes ++ textLines more := by
  obtain ⟨lines, rest, hlines, hrest, happend⟩ := read_all_lines_append hbytes hmore
  rw [textLines, textLines, textLines, hlines, hrest, happend]
  exact List.filter_append ..

/-! ## What one operation does -/

namespace Spool

/-- The segments listed are those of the directory. -/
theorem mem_segments_iff {s : Storage} {path : JString} :
    path ∈ segments s ↔ path ∈ s.files.keys ∧ isSegment path = true := by
  rw [segments, List.mem_insertionSort, List.mem_filter]

/-- What an operation that only looks around leaves as it is. -/
def quiet (s : Storage) : AList (fun _ : JString ↦ Bytes) × List FileAction × Spool :=
  (s.files, s.log, { s.spool with sequence := 0 })

theorem keeps_create_directories : Keeps quiet createDirectories :=
  keeps_bind (keeps_attempt _) fun _ ↦ keeps_modify fun _ ↦ rfl

theorem keeps_file_size (path : JString) : Keeps quiet (fileSize path) := by
  refine keeps_bind (keeps_attempt _) fun _ ↦ keeps_bind (keeps_read _) fun bytes ↦ ?_
  cases bytes with
  | none => exact keeps_raise _
  | some bytes => exact keeps_pure _

theorem keeps_pending : Keeps quiet pending := by
  refine keeps_bind (keeps_read _) fun closed ↦ ?_
  cases closed with
  | true => exact keeps_pure _
  | false =>
      refine keeps_handle ?_ fun error ↦ ?_
      · exact keeps_bind (keeps_attempt _) fun _ ↦ keeps_bind (keeps_attempt _) fun _ ↦ keeps_read _
      · cases error with
        | IOException => exact keeps_pure _
        | UncheckedIOException => exact keeps_raise _

theorem keeps_new_segment : Keeps quiet newSegment := by
  refine keeps_bind ?_ fun _ ↦ keeps_bind ?_ fun _ ↦ keeps_pure _
  · exact keeps_bind (keeps_read _) fun _ ↦ keeps_bind (keeps_modify fun _ ↦ rfl) fun _ ↦
      keeps_pure _
  · exact keeps_bind (keeps_modify fun _ ↦ rfl) fun _ ↦ keeps_read _

theorem keeps_current_segment (incomingBytes : Nat) : Keeps quiet (currentSegment incomingBytes) := by
  refine keeps_bind keeps_pending fun segments ↦ ?_
  cases segments.getLast? with
  | none => exact keeps_new_segment
  | some newest =>
      refine keeps_bind (keeps_file_size newest) fun size ↦ ?_
      split
      · exact keeps_pure _
      · exact keeps_new_segment

theorem keeps_weight (segment : JString) : Keeps quiet (weight segment) :=
  keeps_handle (keeps_file_size segment) fun _ ↦ keeps_pure _

theorem keeps_total_weight (segments : List JString) (total : Nat) :
    Keeps quiet (totalWeight segments total) := by
  induction segments generalizing total with
  | nil => exact keeps_pure _
  | cons segment rest ih => exact keeps_bind (keeps_weight segment) fun _ ↦ ih _

end Spool

/-! ## What a sequence of operations does -/

/-- The lines counted as dropped by these actions. -/
def countedIn (actions : List FileAction) : Nat :=
  (actions.map fun
    | .counted lines => lines.length
    | _ => 0).sum

theorem counted_in_append (actions more : List FileAction) :
    countedIn (actions ++ more) = countedIn actions + countedIn more := by
  rw [countedIn, List.map_append, List.sum_append]
  rfl

/-- An action other than counting counts nothing. -/
theorem counted_in_cons {action : FileAction} (h : ∀ lines, action ≠ .counted lines)
    (actions : List FileAction) : countedIn (action :: actions) = countedIn actions := by
  cases action with
  | counted lines => exact absurd rfl (h lines)
  | appended | forgone | unread | removed => simp [countedIn]

/-- The counter of dropped events is the number of lines counted. -/
def Tallied (s : Storage) : Prop :=
  s.spool.droppedEvents = countedIn s.log

/-- The segment was read, or could not be, and then deleted: its lines are counted or unread. -/
def GivenUp (actions : List FileAction) (path : JString) (bytes : Bytes) : Prop :=
  .removed path ∈ actions ∧ ∃ more, Whole more ∧
    (.counted (textLines (bytes ++ more)) ∈ actions ∨ .unread (bytes ++ more) ∈ actions)

/-- The file has only grown, by complete lines and then perhaps by an unfinished one. -/
def Grown (intact : Prop) (t : Storage) (path : JString) (bytes : Bytes) : Prop :=
  ∃ more torn, t.bytesOf path = some (bytes ++ more ++ torn) ∧ Whole more ∧ (intact → torn = [])

/-- What an append may do to the files before it ends: every file grows or is given up, and at most
one is torn. -/
structure Effect (torn : Option JString) (actions : List FileAction) (s t : Storage) : Prop where
  /-- The actions are those logged. -/
  log : t.log = actions ++ s.log
  /-- The spool is disabled or not, as before. -/
  disabled : t.spool.disabled = s.spool.disabled
  /-- The counter counts the lines that are given up. -/
  dropped : t.spool.droppedEvents = s.spool.droppedEvents + countedIn actions
  /-- Every file grows or is given up. -/
  files : ∀ path bytes, s.bytesOf path = some bytes →
    GivenUp actions path bytes ∨ Grown (torn ≠ some path) t path bytes

/-- A file that does not change has grown by nothing. -/
theorem grown_of_eq {intact : Prop} {t : Storage} {path : JString} {bytes : Bytes}
    (h : t.bytesOf path = some bytes) : Grown intact t path bytes :=
  ⟨[], [], by rw [h, List.append_nil, List.append_nil], whole_nil, fun _ ↦ rfl⟩

/-- What was given up stays so. -/
theorem GivenUp.mono {actions more : List FileAction} {path : JString} {bytes : Bytes}
    (h : GivenUp actions path bytes) (hmore : actions ⊆ more) : GivenUp more path bytes := by
  obtain ⟨hremoved, rest, hrest, hlines⟩ := h
  exact ⟨hmore hremoved, rest, hrest, hlines.imp (fun h ↦ hmore h) fun h ↦ hmore h⟩

/-- An operation that only looks around has no effect. -/
theorem effect_of_quiet {torn : Option JString} {s t : Storage}
    (h : Spool.quiet t = Spool.quiet s) : Effect torn [] s t := by
  obtain ⟨hfiles, hrest⟩ := Prod.mk.inj h
  obtain ⟨hlog, hspool⟩ := Prod.mk.inj hrest
  have hdisabled := congrArg Spool.disabled hspool
  have hdropped := congrArg Spool.droppedEvents hspool
  refine ⟨hlog, hdisabled, hdropped, fun path bytes hbytes ↦ .inr (grown_of_eq ?_)⟩
  rw [Storage.bytesOf, hfiles]
  exact hbytes

/-- One effect after another. Nothing torn is left between them. -/
theorem Effect.trans {torn : Option JString} {actions more : List FileAction} {s t u : Storage}
    (hfirst : Effect none actions s t) (hsecond : Effect torn more t u) :
    Effect torn (more ++ actions) s u := by
  refine ⟨?_, hsecond.disabled.trans hfirst.disabled, ?_, fun path bytes hbytes ↦ ?_⟩
  · rw [hsecond.log, hfirst.log, List.append_assoc]
  · rw [hsecond.dropped, hfirst.dropped, counted_in_append]
    omega
  · rcases hfirst.files path bytes hbytes with hgone | ⟨lines, rest, hbytes, hlines, hrest⟩
    · exact .inl (hgone.mono (List.subset_append_right _ _))
    · rw [hrest nofun, List.append_nil] at hbytes
      rcases hsecond.files path _ hbytes with ⟨hremoved, rest, hrest, hgone⟩ | hgrown
      · rw [List.append_assoc] at hgone
        exact .inl ⟨List.mem_append_left _ hremoved, lines ++ rest, hlines.append hrest,
          hgone.imp (List.mem_append_left _) (List.mem_append_left _)⟩
      · obtain ⟨rest, torn, hbytes, hrest, htorn⟩ := hgrown
        refine .inr ⟨lines ++ rest, torn, ?_, hlines.append hrest, htorn⟩
        rw [hbytes, List.append_assoc bytes]

/-- Putting bytes at the end of a file. -/
theorem effect_put {torn : Option JString} {s : Storage} {path : JString} {bytes : Bytes}
    (h : torn ≠ some path → Whole bytes) : Effect torn [] s (s.put path bytes) := by
  refine ⟨rfl, rfl, rfl, fun other held hheld ↦ .inr ?_⟩
  by_cases heq : other = path
  · subst heq
    by_cases hintact : torn ≠ some other
    · refine ⟨bytes, [], ?_, h hintact, fun _ ↦ rfl⟩
      rw [Storage.bytes_of_put_self, hheld, List.append_nil]
      rfl
    · refine ⟨[], bytes, ?_, whole_nil, fun h ↦ absurd h hintact⟩
      rw [Storage.bytes_of_put_self, hheld, List.append_nil]
      rfl
  · exact grown_of_eq ((Storage.bytes_of_put_other heq s bytes).trans hheld)

/-- Writing into the log. -/
theorem effect_note {s : Storage} {action : FileAction}
    (h : ∀ lines, action ≠ .counted lines) : Effect none [action] s (s.note action) := by
  refine ⟨rfl, rfl, ?_, fun _ _ hbytes ↦ .inr (grown_of_eq hbytes)⟩
  rw [counted_in_cons h]
  rfl

/-- What an append does keeps the count. -/
theorem Effect.tallied {torn : Option JString} {actions : List FileAction} {s t : Storage}
    (h : Effect torn actions s t) (htallied : Tallied s) : Tallied t := by
  rw [Tallied, h.dropped, h.log, counted_in_append, htallied, Nat.add_comm]

/-! ## What each operation does -/

/-- Whatever the environment does, the operation has an effect of this kind, and when it returns
nothing is torn. -/
def Works {α : Type} (x : FileProg α) (s : Storage) (returns : α → List FileAction → Storage → Prop) :
    Prop :=
  Ends x s (fun a t ↦ ∃ actions, Effect none actions s t ∧ returns a actions t)
    fun _ t ↦ ∃ torn actions, Effect torn actions s t

section Works

variable {α β : Type} {s : Storage}

/-- What an operation that only looks around does. -/
theorem works_of_keeps {x : FileProg α} {returns : α → List FileAction → Storage → Prop}
    (hkeeps : Keeps Spool.quiet x)
    (h : Ends x s (fun a t ↦ Spool.quiet t = Spool.quiet s → returns a [] t) fun _ _ ↦ True) :
    Works x s returns := by
  intro faults
  have hquiet := hkeeps s faults
  exact ⟨fun a hok ↦ ⟨[], effect_of_quiet hquiet, (h faults).1 a hok hquiet⟩,
    fun _ _ ↦ ⟨none, [], effect_of_quiet hquiet⟩⟩

/-- One operation after another. -/
theorem works_bind {x : FileProg α} {f : α → FileProg β}
    {returns : β → List FileAction → Storage → Prop}
    (h : Works x s fun a actions t ↦ Effect none actions s t →
      Works (f a) t fun b more u ↦ returns b (more ++ actions) u) :
    Works (x >>= f) s returns := by
  refine ends_bind (h.mono ?_ fun _ _ hraise ↦ hraise)
  rintro a t ⟨actions, heffect, hnext⟩
  refine (hnext heffect).mono ?_ ?_
  · rintro b u ⟨more, hmore, hreturns⟩
    exact ⟨more ++ actions, heffect.trans hmore, hreturns⟩
  · rintro _ u ⟨torn, more, hmore⟩
    exact ⟨torn, more ++ actions, heffect.trans hmore⟩

/-- What is shown of an operation may be weakened. -/
theorem Works.mono {x : FileProg α} {returns returns' : α → List FileAction → Storage → Prop}
    (h : Works x s returns) (himp : ∀ a actions t, returns a actions t → returns' a actions t) :
    Works x s returns' :=
  Ends.mono h (fun a t ⟨actions, heffect, hreturns⟩ ↦ ⟨actions, heffect, himp a actions t hreturns⟩)
    fun _ _ hraise ↦ hraise

theorem works_pure {a : α} {returns : α → List FileAction → Storage → Prop}
    (h : returns a [] s) : Works (pure a) s returns :=
  ends_pure ⟨[], effect_of_quiet rfl, h⟩

end Works

namespace Spool

variable {s : Storage}

/-- What is listed, if anything is, are the segments, and only while the spool is not disabled. -/
theorem ends_pending (s : Storage) :
    Ends pending s (fun listed t ↦ t = s ∧ (listed = [] ∨
      s.spool.disabled = false ∧ listed = segments s)) fun _ t ↦ t = s := by
  refine ends_bind (ends_read ?_)
  cases hclosed : (s.spool.disabled || s.directory.isNone) with
  | true => exact ends_pure ⟨rfl, .inl rfl⟩
  | false =>
      refine ends_handle (ends_bind (ends_attempt ?_ ?_))
      · refine ends_bind (ends_attempt (ends_read ⟨rfl, .inr ⟨?_, rfl⟩⟩) (ends_raise rfl))
        exact (Bool.or_eq_false_iff.mp hclosed).1
      · exact ends_pure ⟨rfl, .inl rfl⟩

/-- Where nothing is disabled and nothing fails, the segments are listed. -/
theorem runs_pending (hdisabled : s.spool.disabled = false)
    (hdirectory : s.directory.isNone = false) : Runs pending s (segments s) s := by
  refine runs_bind (runs_read _ s) ?_
  rw [hdisabled, hdirectory]
  exact runs_handle (runs_bind (runs_attempt _ s) (runs_bind (runs_attempt _ s) (runs_read _ s)))

/-- A disabled spool lists nothing. -/
theorem runs_pending_disabled (hdisabled : s.spool.disabled = true) : Runs pending s [] s := by
  refine runs_bind (runs_read _ s) ?_
  rw [hdisabled]
  rfl

/-- A file that holds lines is read. -/
theorem runs_read_segment {segment : JString} {bytes : Bytes} {lines : List JString}
    (hbytes : s.bytesOf segment = some bytes) (hlines : readAllLines bytes = some lines) :
    Runs (read segment) s (textLines bytes) s := by
  refine runs_handle (runs_bind (runs_attempt _ s) (runs_bind (runs_read _ s) ?_))
  rw [hbytes, Option.bind_some, hlines, textLines, hlines]
  rfl

/-- A segment is read as the lines it holds, or is noted as one that could not be. -/
theorem ends_read_segment (s : Storage) (segment : JString) :
    Ends (read segment) s (fun lines t ↦
      t = s ∧ (∃ bytes, s.bytesOf segment = some bytes ∧ lines = textLines bytes) ∨
      t = s.note (.unread ((s.bytesOf segment).getD [])) ∧ lines = []) fun _ _ ↦ False := by
  have hhandler : ∀ e : FileException, Ends (σ := Storage) (ε := FileException)
      (do modify fun s ↦ s.note (.unread ((s.bytesOf segment).getD [])); pure ([] : List JString)) s
      (fun lines t ↦
        t = s ∧ (∃ bytes, s.bytesOf segment = some bytes ∧ lines = textLines bytes) ∨
        t = s.note (.unread ((s.bytesOf segment).getD [])) ∧ lines = []) fun _ _ ↦ False :=
    fun _ ↦ ends_bind (ends_modify (ends_pure (.inr ⟨rfl, rfl⟩)))
  refine ends_handle (ends_bind (ends_attempt (ends_bind (ends_read ?_)) (hhandler .IOException)))
  cases hread : (s.bytesOf segment).bind readAllLines with
  | none => exact ends_raise (hhandler .IOException)
  | some lines =>
      obtain ⟨bytes, hbytes, hlines⟩ := Option.bind_eq_some_iff.mp hread
      refine ends_pure (.inl ⟨rfl, bytes, hbytes, ?_⟩)
      rw [textLines, hlines]
      rfl

/-- A segment is deleted, or left as it is. -/
theorem ends_discard (s : Storage) (segment : JString) :
    Ends (discard segment) s (fun _ t ↦ t = s ∨ t = s.remove segment) fun _ _ ↦ False :=
  ends_handle (ends_bind (ends_attempt (ends_modify (.inr rfl)) (ends_pure (.inl rfl))))

/-- The bytes are written, or a part of them that ends where the write failed. -/
theorem ends_write_bytes (path : JString) (bytes : Bytes) (s : Storage) :
    Ends (writeBytes path bytes) (s.put path []) (fun _ t ↦ t = s.put path bytes)
      fun _ t ↦ ∃ front, t = s.put path front := by
  suffices h : ∀ front, Ends (writeBytes path bytes) (s.put path front)
      (fun _ t ↦ t = s.put path (front ++ bytes)) fun _ t ↦ ∃ front, t = s.put path front from h []
  induction bytes with
  | nil => exact fun front ↦ ends_pure (by rw [List.append_nil])
  | cons byte bytes ih =>
      intro front
      refine ends_bind (ends_attempt (ends_bind (ends_modify ?_)) ⟨front, rfl⟩)
      rw [Storage.put_put]
      have h := ih (front ++ [byte])
      rw [List.append_assoc] at h
      exact h

/-- Writing whole bytes to a file. -/
theorem works_write_file {path : JString} {bytes : Bytes} (h : Whole bytes)
    {returns : PUnit → List FileAction → Storage → Prop}
    (hreturns : returns .unit [] (s.put path bytes)) : Works (writeFile path bytes) s returns := by
  have hnothing : Effect none [] s s := effect_of_quiet rfl
  refine ends_bind (ends_attempt (ends_bind (ends_read ?_)) ⟨none, [], hnothing⟩)
  split
  · exact ends_raise ⟨none, [], hnothing⟩
  · refine ends_bind (ends_modify ((ends_write_bytes path bytes s).mono ?_ ?_))
    · rintro ⟨⟩ t rfl
      exact ⟨[], effect_put fun _ ↦ h, hreturns⟩
    · rintro _ t ⟨front, rfl⟩
      exact ⟨some path, [], effect_put fun h ↦ absurd rfl h⟩

/-- Counting lines as dropped. -/
theorem effect_count (s : Storage) (lines : List JString) :
    Effect none [.counted lines] s
      { s.note (.counted lines) with
        spool.droppedEvents := s.spool.droppedEvents + lines.length } :=
  ⟨rfl, rfl, rfl, fun _ _ hbytes ↦ .inr (grown_of_eq hbytes)⟩

/-- A file may be deleted once its lines are counted or unread. -/
theorem effect_remove {actions : List FileAction} {s t : Storage} {segment : JString}
    (h : Effect none actions s t)
    (hlines : ∀ bytes, s.bytesOf segment = some bytes →
      .counted (textLines bytes) ∈ actions ∨ .unread bytes ∈ actions) :
    Effect none (.removed segment :: actions) s (t.remove segment) := by
  refine ⟨congrArg _ h.log, h.disabled, ?_, fun path bytes hbytes ↦ ?_⟩
  · rw [counted_in_cons fun _ ↦ FileAction.noConfusion]
    exact h.dropped
  · by_cases heq : path = segment
    · subst heq
      refine .inl ⟨List.mem_cons_self, [], whole_nil, ?_⟩
      rw [List.append_nil]
      exact (hlines bytes hbytes).imp (List.mem_cons_of_mem _) (List.mem_cons_of_mem _)
    · rcases h.files path bytes hbytes with hgone | ⟨more, torn, hgrown, hmore, htorn⟩
      · exact .inl (hgone.mono (List.subset_cons_self _ _))
      · refine .inr ⟨more, torn, ?_, hmore, htorn⟩
        rw [Storage.bytes_of_remove_other heq]
        exact hgrown

/-- A segment that is dropped is given up, or stays if it cannot be deleted. -/
theorem works_drop (segment : JString) (s : Storage) :
    Works (drop segment) s fun _ _ _ ↦ True := by
  refine ends_bind ((ends_read_segment s segment).mono ?_ fun _ _ h ↦ h.elim)
  intro lines t hread
  obtain ⟨actions, heffect, hlines⟩ : ∃ actions, Effect none actions s t ∧
      ∀ bytes, s.bytesOf segment = some bytes →
        .counted (textLines bytes) ∈ .counted lines :: actions ∨
          .unread bytes ∈ .counted lines :: actions := by
    rcases hread with ⟨rfl, bytes, hbytes, rfl⟩ | ⟨rfl, rfl⟩
    · refine ⟨[], effect_of_quiet rfl, fun held hheld ↦ .inl ?_⟩
      rw [Option.some.inj (hheld.symm.trans hbytes)]
      exact List.mem_cons_self
    · refine ⟨_, effect_note fun _ ↦ FileAction.noConfusion, fun bytes hbytes ↦ .inr ?_⟩
      rw [hbytes]
      exact List.mem_cons_of_mem _ List.mem_cons_self
  have hcounted := heffect.trans (effect_count t lines)
  refine ends_bind (ends_modify ((ends_discard _ segment).mono ?_ fun _ _ h ↦ h.elim))
  rintro ⟨⟩ u (rfl | rfl)
  · exact ⟨_, hcounted, trivial⟩
  · exact ⟨_, effect_remove hcounted hlines, trivial⟩

/-- What is true of every end is true of the ends of an operation that only looks around. -/
theorem works_look {α : Type} {x : FileProg α} (h : Keeps quiet x) (s : Storage) :
    Works x s fun _ _ _ ↦ True :=
  works_of_keeps h ((ends_trivial x s).mono (fun _ _ _ _ ↦ trivial) fun _ _ _ ↦ trivial)

/-- Segments are discarded until the rest fits. -/
theorem works_discard_until (maxBytes : Nat) (segments : List JString) (total : Nat) (s : Storage) :
    Works (discardUntil maxBytes segments total) s fun _ _ _ ↦ True := by
  induction segments generalizing total s with
  | nil => exact works_pure trivial
  | cons segment rest ih =>
      unfold discardUntil
      split
      · exact works_pure trivial
      · refine works_bind ((works_look (keeps_weight segment) s).mono fun size _ t _ _ ↦ ?_)
        exact works_bind ((works_drop segment t).mono fun _ _ u _ _ ↦ ih _ u)

theorem works_enforce_ceiling (s : Storage) : Works enforceCeiling s fun _ _ _ ↦ True := by
  refine works_bind ((works_look keeps_pending s).mono fun segments _ t _ _ ↦ ?_)
  refine works_bind ((works_look (keeps_total_weight segments 0) t).mono fun total _ u _ _ ↦ ?_)
  refine works_bind ((works_look (keeps_read _) u).mono fun maxBytes _ v _ _ ↦ ?_)
  exact works_discard_until maxBytes segments total v

/-- The name of a new segment is that of a segment. -/
theorem ends_new_segment (s : Storage) :
    Ends newSegment s (fun target _ ↦ isSegment target = true) fun _ _ ↦ True := by
  refine ends_bind (ends_bind (ends_read (ends_bind (ends_modify (ends_pure ?_)))))
  refine ends_bind (ends_bind (ends_modify (ends_read (ends_pure ?_))))
  rw [isSegment, Bool.and_eq_true]
  refine ⟨List.isPrefixOf_iff_prefix.mpr ?_, List.isSuffixOf_iff_suffix.mpr ?_⟩
  · simp only [List.append_assoc]
    exact List.prefix_append _ _
  · exact List.suffix_append _ _

/-- The segment to append to is one by its name. -/
theorem ends_current_segment (incomingBytes : Nat) (s : Storage) :
    Ends (currentSegment incomingBytes) s (fun target _ ↦ isSegment target = true)
      fun _ _ ↦ True := by
  refine ends_bind ((ends_pending s).mono ?_ fun _ _ _ ↦ trivial)
  rintro listed t ⟨rfl, hlisted⟩
  cases hlast : listed.getLast? with
  | none => exact ends_new_segment t
  | some newest =>
      have hnewest : isSegment newest = true := by
        have hmem := List.mem_of_getLast? hlast
        rcases hlisted with rfl | ⟨-, rfl⟩
        · cases hmem
        · exact (mem_segments_iff.mp hmem).2
      refine ends_bind ((ends_trivial _ t).mono (fun size u _ ↦ ?_) fun _ _ _ ↦ trivial)
      split
      · exact ends_pure hnewest
      · exact ends_new_segment u

/-- The lines were written to a segment, behind what it held before, and have been there since or
were given up with it. -/
def Taken (jsonLines : List JString) (actions : List FileAction) (t : Storage) : Prop :=
  ∃ path before, isSegment path = true ∧ .appended before jsonLines ∈ actions ∧
    (GivenUp actions path (before ++ (joinLines jsonLines).getBytes) ∨
      Grown True t path (before ++ (joinLines jsonLines).getBytes))

/-- What an append does up to where it ends or is caught. -/
theorem works_append (jsonLines : List JString) (s : Storage) :
    Works (do
      createDirectories
      let bytes := (joinLines jsonLines).getBytes
      let target ← currentSegment bytes.length
      let before ← Prog.read fun s ↦ (s.bytesOf target).getD []
      writeFile target bytes
      modify (·.note (.appended before jsonLines))
      enforceCeiling) s fun _ actions t ↦ Taken jsonLines actions t := by
  refine works_bind ((works_look keeps_create_directories s).mono fun _ _ t _ _ ↦ ?_)
  refine works_bind (works_of_keeps (keeps_current_segment _)
    ((ends_current_segment _ t).mono (fun target u hsegment _ _ ↦ ?_) fun _ _ _ ↦ trivial))
  refine works_bind (works_of_keeps (keeps_read _) (ends_read fun _ _ ↦ ?_))
  refine works_bind (works_write_file (whole_join_lines jsonLines) fun _ ↦ ?_)
  refine works_bind (ends_modify ⟨_, effect_note fun _ ↦ FileAction.noConfusion, fun _ ↦ ?_⟩)
  refine Ends.mono (works_enforce_ceiling _) ?_ fun _ _ hraise ↦ hraise
  rintro _ v ⟨actions, heffect, -⟩
  have hwritten := heffect.files target _ ((Storage.bytes_of_note _ _).trans
    (Storage.bytes_of_put_self u target (joinLines jsonLines).getBytes))
  refine ⟨actions, heffect, target, (u.bytesOf target).getD [], hsegment, by simp, ?_⟩
  refine hwritten.imp (fun hgone ↦ GivenUp.mono hgone fun _ hmem ↦ ?_) fun hgrown ↦ ?_
  · simp only [List.append_nil, List.mem_append]
    exact .inl (.inl hmem)
  · obtain ⟨more, rest, hbytes, hmore, hrest⟩ := hgrown
    exact ⟨more, rest, hbytes, hmore, fun _ ↦ hrest nofun⟩

/-- What an append does: nothing when the spool is disabled, what `works_append` says when it is
not, and when that fails the spool is disabled. -/
theorem ends_append (jsonLines : List JString) (s : Storage) :
    Ends (append jsonLines) s (fun _ t ↦
      t = s.note (.forgone jsonLines) ∨
      s.spool.disabled = false ∧ ((∃ actions, Effect none actions s t ∧ Taken jsonLines actions t) ∨
        ∃ torn actions u, Effect torn actions s u ∧
          t = { u.note (.forgone jsonLines) with spool.disabled := true })) fun _ _ ↦ False := by
  refine ends_bind (ends_read ?_)
  split
  · exact ends_modify (.inl rfl)
  · next hopen =>
      have hdisabled : s.spool.disabled = false := by
        cases h : s.spool.disabled with
        | false => rfl
        | true => exact absurd (by rw [h]; rfl) hopen
      refine ends_handle (Ends.mono (works_append jsonLines s) ?_ ?_)
      · rintro _ t ⟨actions, heffect, htaken⟩
        exact .inr ⟨hdisabled, .inl ⟨actions, heffect, htaken⟩⟩
      · rintro _ u ⟨torn, actions, heffect⟩
        exact ends_modify (.inr ⟨hdisabled, .inr ⟨torn, actions, u, heffect, rfl⟩⟩)

end Spool

end Aegis.Agent
