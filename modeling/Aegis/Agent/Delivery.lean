import Aegis.Lib.Machine
import Aegis.Agent.EventLine
import Aegis.Agent.ReportingThread
import Aegis.Agent.SpoolEffects

/-!
# Where a drained event can be

`drained_accounted` says, for every run and whatever the gateway and the disk do, where every event
drained from the buffer is after each step: accepted by the gateway, in a segment awaiting replay,
counted as dropped, or one of the losses the agent accepts without counting them. The last section
has one of these: without a spool, a batch that cannot be sent is gone.
-/

namespace Aegis.Agent

open Prog

/-! ## Lines and where they are -/

/-- The action accounts for a line that is no longer in a segment, or never was in one. -/
def FileAction.AccountsFor (line : JString) : FileAction → Prop
  | .appended before jsonLines => ¬ Whole before ∧ Carried jsonLines line
  | .forgone jsonLines => Carried jsonLines line
  | .unread bytes => Carried (textLines bytes) line
  | .counted jsonLines => Carried jsonLines line
  | .removed _ => False

/-- The line is among the complete lines of a segment, behind which there is nothing unless the
spool is disabled. -/
def Shelved (s : Storage) (line : JString) : Prop :=
  ∃ path whole rest, Spool.isSegment path = true ∧ s.bytesOf path = some (whole ++ rest) ∧
    Whole whole ∧ Carried (textLines whole) line ∧ (s.spool.disabled = false → rest = [])

/-- The line is in a segment, or the log accounts for it. -/
def Traced (s : Storage) (line : JString) : Prop :=
  (∃ action ∈ s.log, action.AccountsFor line) ∨ Shelved s line

/-- A line among more lines is still carried. -/
theorem Carried.append {lines : List JString} {line : JString} (h : Carried lines line)
    (more : List JString) : Carried (lines ++ more) line := by
  obtain ⟨read, hread, hbytes⟩ := h
  exact ⟨read, List.mem_append_left _ hread, hbytes⟩

/-- A line carried by a segment is carried by it when it has grown. -/
theorem Carried.grow {whole more : Bytes} {line : JString} (h : Carried (textLines whole) line)
    (hwhole : Whole whole) (hmore : Whole more) : Carried (textLines (whole ++ more)) line := by
  rw [text_lines_append hwhole hmore]
  exact h.append _

/-- What is given up with a line in it is accounted for. -/
theorem accounts_of_given_up {actions : List FileAction} {path : JString} {whole : Bytes}
    {line : JString} (h : GivenUp actions path whole) (hwhole : Whole whole)
    (hline : Carried (textLines whole) line) : ∃ action ∈ actions, action.AccountsFor line := by
  obtain ⟨-, more, hmore, hcounted | hunread⟩ := h
  · exact ⟨_, hcounted, hline.grow hwhole hmore⟩
  · exact ⟨_, hunread, hline.grow hwhole hmore⟩

/-- What an append does loses no line. -/
theorem traced_of_effect {torn : Option JString} {actions : List FileAction} {s t : Storage}
    {disabled : Bool} {line : JString} (h : Effect torn actions s t)
    (henabled : s.spool.disabled = false) (hdisabled : disabled = false → torn = none)
    (more : List FileAction) (htraced : Traced s line) :
    Traced { t with spool.disabled := disabled, log := more ++ t.log } line := by
  have hlog : ∀ action, action ∈ actions ∨ action ∈ s.log → action ∈ more ++ t.log := by
    intro action haction
    rw [h.log]
    exact List.mem_append_right _ (List.mem_append.mpr haction)
  rcases htraced with ⟨action, haction, hline⟩ | ⟨path, whole, rest, hsegment, hbytes, hwhole, hline,
    hrest⟩
  · exact .inl ⟨action, hlog _ (.inr haction), hline⟩
  · rw [hrest henabled, List.append_nil] at hbytes
    rcases h.files path whole hbytes with hgone | ⟨lines, last, hheld, hlines, hlast⟩
    · obtain ⟨action, haction, hline⟩ := accounts_of_given_up hgone hwhole hline
      exact .inl ⟨action, hlog _ (.inl haction), hline⟩
    · refine .inr ⟨path, whole ++ lines, last, hsegment, hheld, hwhole.append hlines,
        hline.grow hwhole hlines, fun hopen ↦ hlast ?_⟩
      rw [hdisabled hopen]
      exact nofun

/-- Records that were taken are in a segment, or accounted for. -/
theorem traced_of_taken {jsonLines : List JString} {actions : List FileAction} {s t : Storage}
    {line : JString} (h : Effect none actions s t) (htaken : Spool.Taken jsonLines actions t)
    (hrecord : line.Record) (hline : line ∈ jsonLines) : Traced t line := by
  obtain ⟨path, before, hsegment, happended, htaken⟩ := htaken
  have hlog : ∀ action ∈ actions, action ∈ t.log := by
    intro action haction
    rw [h.log]
    exact List.mem_append_left _ haction
  have hcarried : Carried jsonLines line := ⟨line, hline, rfl⟩
  by_cases hbefore : Whole before
  · have hwhole := hbefore.append (whole_join_lines jsonLines)
    have hread : Carried (textLines (before ++ (joinLines jsonLines).getBytes)) line := by
      obtain ⟨lines, hlines, hcarried⟩ := exists_read_line hrecord hline
      rw [text_lines_append hbefore (whole_join_lines jsonLines)]
      obtain ⟨read, hmem, hbytes⟩ := hcarried
      refine ⟨read, List.mem_append_right _ ?_, hbytes⟩
      rw [textLines, hlines]
      exact hmem
    rcases htaken with hgone | ⟨more, rest, hheld, hmore, hrest⟩
    · obtain ⟨action, haction, hline⟩ := accounts_of_given_up hgone hwhole hread
      exact .inl ⟨action, hlog _ haction, hline⟩
    · exact .inr ⟨path, _, rest, hsegment, hheld, hwhole.append hmore, hread.grow hwhole hmore,
        fun _ ↦ hrest trivial⟩
  · exact .inl ⟨_, hlog _ happended, hbefore, hcarried⟩

/-- A line is traced as long as the log and the segments are kept. -/
theorem Traced.note {s : Storage} {line : JString} (h : Traced s line) (action : FileAction) :
    Traced (s.note action) line :=
  h.imp (fun ⟨known, hknown, hline⟩ ↦ ⟨known, List.mem_cons_of_mem _ hknown, hline⟩) id

/-- Deleting a segment loses the lines that are in no other place. -/
theorem traced_remove {s : Storage} {line : JString} (segment : JString)
    (hopen : s.spool.disabled = false) (h : Traced s line) :
    Traced (s.remove segment) line ∨
      ∃ bytes, s.bytesOf segment = some bytes ∧ Carried (textLines bytes) line := by
  rcases h with ⟨known, hknown, hline⟩ | ⟨path, whole, rest, hsegment, hbytes, hwhole, hline, hrest⟩
  · exact .inl (.inl ⟨known, List.mem_cons_of_mem _ hknown, hline⟩)
  · by_cases heq : path = segment
    · rw [hrest hopen, List.append_nil] at hbytes
      exact .inr ⟨whole, heq ▸ hbytes, hline⟩
    · refine .inl (.inr ⟨path, whole, rest, hsegment, ?_, hwhole, hline, hrest⟩)
      rw [Storage.bytes_of_remove_other heq]
      exact hbytes

/-- An append loses no line that was traced, and the records handed to it are traced after it. -/
theorem ends_append_traced (jsonLines : List JString) (s : Storage) :
    Ends (Spool.append jsonLines) s (fun _ t ↦ (∀ line, Traced s line → Traced t line) ∧
      (∀ line ∈ jsonLines, line.Record → Traced t line) ∧ (Tallied s → Tallied t))
      fun _ _ ↦ False := by
  have hforgone : ∀ s : Storage, Tallied s → countedIn (.forgone jsonLines :: s.log) =
      s.spool.droppedEvents := fun s h ↦ by
    rw [counted_in_cons fun _ ↦ FileAction.noConfusion]
    exact h.symm
  refine (Spool.ends_append jsonLines s).mono ?_ fun _ _ h ↦ h
  rintro _ t (rfl | ⟨henabled, ⟨actions, heffect, htaken⟩ | ⟨torn, actions, u, heffect, rfl⟩⟩)
  · exact ⟨fun line h ↦ h.note _, fun line hline _ ↦
      .inl ⟨_, List.mem_cons_self, line, hline, rfl⟩, fun h ↦ (hforgone s h).symm⟩
  · exact ⟨fun line h ↦ traced_of_effect heffect henabled (fun _ ↦ rfl) [] h,
      fun line hline hrecord ↦ traced_of_taken heffect htaken hrecord hline, heffect.tallied⟩
  · exact ⟨fun line h ↦ traced_of_effect heffect henabled Bool.noConfusion [.forgone jsonLines] h,
      fun line hline _ ↦ .inl ⟨_, List.mem_cons_self, line, hline, rfl⟩,
      fun h ↦ (hforgone u (heffect.tallied h)).symm⟩

/-- A segment is read as its lines, or the log accounts for them. -/
theorem ends_read_traced (segment : JString) (s : Storage) :
    Ends (Spool.read segment) s (fun lines t ↦ t.spool = s.spool ∧
      (∀ line, Traced s line → Traced t line) ∧ (Tallied s → Tallied t) ∧
      ∀ bytes line, t.bytesOf segment = some bytes → Carried (textLines bytes) line →
        Carried lines line ∨ ∃ action ∈ t.log, action.AccountsFor line) fun _ _ ↦ False := by
  refine (Spool.ends_read_segment s segment).mono ?_ fun _ _ h ↦ h
  rintro lines t (⟨rfl, held, hheld, rfl⟩ | ⟨rfl, rfl⟩)
  · refine ⟨rfl, fun _ h ↦ h, id, fun bytes line hbytes hline ↦ .inl ?_⟩
    rw [Option.some.inj (hheld.symm.trans hbytes)]
    exact hline
  · refine ⟨rfl, fun _ h ↦ h.note _, fun h ↦ ?_, fun bytes line hbytes hline ↦
      .inr ⟨_, List.mem_cons_self, ?_⟩⟩
    · exact h.trans (counted_in_cons (fun _ ↦ FileAction.noConfusion) _).symm
    · rw [Storage.bytes_of_note] at hbytes
      rw [hbytes]
      exact hline

/-! ## Events and where they are -/

/-- The line was posted in a request after which the batch need not be kept. -/
def Settled (d : Delivery) (line : JString) : Prop :=
  ∃ jsonLines answer, .posted jsonLines answer ∈ d.log ∧ Http.settles answer = true ∧
    Carried jsonLines line

/-- The line was settled, could not be spooled because there is no spool, or is traced by the spool
there is. -/
def Fated (d : Delivery) (line : JString) : Prop :=
  Settled d line ∨
  (∃ batch, .unspooled batch ∈ d.log ∧ ∃ event ∈ batch, event.toJson = line) ∨
  d.hasSpool = true ∧ Traced d.storage line

/-- A line stays where it is when only the log grows. -/
theorem Fated.log {d e : Delivery} {line : JString} (h : Fated d line) (hlog : d.log ⊆ e.log)
    (hspool : e.hasSpool = d.hasSpool) (hstorage : e.storage = d.storage) : Fated e line := by
  rcases h with ⟨lines, answer, hposted, hline⟩ | ⟨batch, hunspooled, hline⟩ | ⟨hthere, htraced⟩
  · exact .inl ⟨lines, answer, hlog hposted, hline⟩
  · exact .inr (.inl ⟨batch, hlog hunspooled, hline⟩)
  · exact .inr (.inr ⟨hspool.trans hthere, hstorage ▸ htraced⟩)

/-- What an operation of the thread leaves as it is or only adds to. -/
structure Advances (d e : Delivery) : Prop where
  /-- The reporter is left alone. -/
  reporter : e.reporter = d.reporter
  /-- The spool is there or not, as before. -/
  hasSpool : e.hasSpool = d.hasSpool
  /-- Nothing more is drained. -/
  drained : ∀ batch, .drained batch ∈ e.log → .drained batch ∈ d.log
  /-- No line is lost. -/
  fated : ∀ line, Fated d line → Fated e line
  /-- The count is kept. -/
  tallied : Tallied d.storage → Tallied e.storage

theorem Advances.refl (d : Delivery) : Advances d d :=
  ⟨rfl, rfl, fun _ h ↦ h, fun _ h ↦ h, id⟩

theorem Advances.trans {d e f : Delivery} (h : Advances d e) (h' : Advances e f) : Advances d f :=
  ⟨h'.reporter.trans h.reporter, h'.hasSpool.trans h.hasSpool,
    fun batch hbatch ↦ h.drained batch (h'.drained batch hbatch),
    fun line hline ↦ h'.fated line (h.fated line hline),
    fun htallied ↦ h'.tallied (h.tallied htallied)⟩

/-- An operation on the files advances when it loses no line. -/
theorem advances_of_storage {d : Delivery} {storage : Storage}
    (h : ∀ line, Traced d.storage line → Settled d line ∨ Traced storage line)
    (htallied : Tallied d.storage → Tallied storage) : Advances d { d with storage := storage } := by
  refine ⟨rfl, rfl, fun _ h ↦ h, ?_, htallied⟩
  rintro line (hsettled | hunspooled | ⟨hthere, htraced⟩)
  · exact .inl hsettled
  · exact .inr (.inl hunspooled)
  · exact (h line htraced).imp id fun h ↦ .inr ⟨hthere, h⟩

/-- Posting lines to the gateway settles them or not. -/
theorem ends_send_lines (jsonLines : List JString) (d : Delivery) :
    Ends (sendLines jsonLines) d (fun accepted e ↦ Advances d e ∧ e.storage = d.storage ∧
      (accepted = true → ∀ line, Carried jsonLines line → Settled e line)) fun _ _ ↦ False := by
  unfold sendLines
  split
  · next hempty =>
      refine ends_pure ⟨.refl d, rfl, fun _ line ⟨text, htext, _⟩ ↦ ?_⟩
      rw [List.isEmpty_iff.mp hempty] at htext
      cases htext
  · refine ends_bind (ends_read ?_)
    split
    · exact ends_pure ⟨.refl d, rfl, Bool.noConfusion⟩
    · refine ends_bind (ends_read ?_)
      split
      · exact ends_pure ⟨.refl d, rfl, Bool.noConfusion⟩
      · refine ends_bind (ends_bind (ends_read (ends_bind (ends_modify (ends_pure (ends_pure ?_))))))
        refine ⟨⟨rfl, rfl, ?_, fun line h ↦ h.log (List.subset_cons_self _ _) rfl rfl, id⟩, rfl, ?_⟩
        · intro batch hbatch
          rcases List.mem_cons.mp hbatch with h | h
          · cases h
          · exact h
        · intro hsettles line hline
          exact ⟨jsonLines, _, List.mem_cons_self, hsettles, hline⟩

/-- A batch that was sent is settled. -/
theorem ends_send (batch : List RuntimeEvent) (d : Delivery) :
    Ends (send batch) d (fun accepted e ↦ Advances d e ∧
      (accepted = true → ∀ event ∈ batch, Fated e event.toJson)) fun _ _ ↦ False := by
  unfold send
  split
  · next hempty =>
      refine ends_pure ⟨.refl d, fun _ event hevent ↦ ?_⟩
      rw [List.isEmpty_iff.mp hempty] at hevent
      cases hevent
  · refine (ends_send_lines _ d).mono ?_ fun _ _ h ↦ h
    rintro accepted e ⟨hadvances, -, hsettled⟩
    exact ⟨hadvances, fun haccepted event hevent ↦
      .inl (hsettled haccepted _ ⟨_, List.mem_map_of_mem hevent, rfl⟩)⟩

namespace ReportingThread

/-- A batch that was handed to the spool is traced, or there is no spool. -/
theorem ends_spool (batch : List RuntimeEvent) (d : Delivery) :
    Ends (spool batch) d (fun _ e ↦ Advances d e ∧
      ∀ event ∈ batch, event.toJson.Record → Fated e event.toJson) fun _ _ ↦ False := by
  refine ends_bind (ends_read ?_)
  cases hspool : d.hasSpool with
  | false =>
    refine ends_modify ⟨⟨rfl, rfl, ?_, fun line h ↦ h.log (List.subset_cons_self _ _) rfl rfl, id⟩, ?_⟩
    · intro other hother
      rcases List.mem_cons.mp hother with h | h
      · cases h
      · exact h
    · exact fun event hevent _ ↦ .inr (.inl ⟨batch, List.mem_cons_self, event, hevent, rfl⟩)
  | true =>
    refine ends_bind (ends_within ((ends_append_traced _ d.storage).mono ?_ fun _ _ h ↦ h))
    rintro _ t ⟨htraced, htaken, htallied⟩
    have h : Advances d { d with storage := t } :=
      advances_of_storage (fun line h ↦ .inr (htraced line h)) htallied
    refine ends_modify ⟨⟨h.reporter, h.hasSpool, h.drained, h.fated, h.tallied⟩,
      fun event hevent hrecord ↦ ?_⟩
    exact .inr (.inr ⟨hspool, htaken _ (List.mem_map_of_mem hevent) hrecord⟩)

/-- Deleting a segment whose lines are settled or accounted for loses no line. -/
theorem advances_remove {d : Delivery} {segment : JString}
    (hopen : d.storage.spool.disabled = false)
    (h : ∀ bytes line, d.storage.bytesOf segment = some bytes → Carried (textLines bytes) line →
      Settled d line ∨ ∃ action ∈ d.storage.log, action.AccountsFor line) :
    Advances d { d with storage := d.storage.remove segment } := by
  refine advances_of_storage (fun line htraced ↦ ?_) fun htallied ↦
    htallied.trans (counted_in_cons (fun _ ↦ FileAction.noConfusion) _).symm
  rcases traced_remove segment hopen htraced with htraced | ⟨bytes, hbytes, hline⟩
  · exact .inr htraced
  · exact (h bytes line hbytes hline).imp id fun ⟨action, haction, hline⟩ ↦
      .inl ⟨action, List.mem_cons_of_mem _ haction, hline⟩

/-- Replaying segments loses no line. -/
theorem ends_replay_segments (segments : List JString) (replayed : Nat) (d : Delivery)
    (hopen : d.storage.spool.disabled = false) :
    Ends (replaySegments segments replayed) d (fun _ e ↦ Advances d e) fun _ _ ↦ False := by
  induction segments generalizing replayed d with
  | nil => exact ends_pure (.refl d)
  | cons segment rest ih =>
      unfold replaySegments
      split
      · exact ends_pure (.refl d)
      · refine ends_bind (ends_within ((ends_read_traced segment d.storage).mono ?_ fun _ _ h ↦ h))
        rintro lines t ⟨hspool, htraced, htallied, hlines⟩
        have hread : Advances d { d with storage := t } :=
          advances_of_storage (fun line h ↦ .inr (htraced line h)) htallied
        have hopen : t.spool.disabled = false := by
          rw [hspool]
          exact hopen
        have hsent : Ends (sendAny lines) { d with storage := t } (fun accepted e ↦ Advances { d with storage := t } e ∧
              e.storage = t ∧ (accepted = true → ∀ line, Carried lines line → Settled e line))
            fun _ _ ↦ False := by
          unfold sendAny
          split
          · next hempty =>
              refine ends_pure ⟨.refl _, rfl, fun _ line ⟨text, htext, _⟩ ↦ ?_⟩
              rw [List.isEmpty_iff.mp hempty] at htext
              cases htext
          · exact ends_send_lines lines _
        refine ends_bind (hsent.mono ?_ fun _ _ h ↦ h)
        rintro accepted e ⟨hadvances, rfl, hsettled⟩
        cases accepted with
        | false => exact ends_pure (hread.trans hadvances)
        | true =>
            refine ends_bind (ends_within ((Spool.ends_discard e.storage segment).mono ?_
              fun _ _ h ↦ h))
            have hremoved : Advances e { e with storage := e.storage.remove segment } :=
              advances_remove hopen fun bytes line hbytes hline ↦
                (hlines bytes line hbytes hline).imp (hsettled rfl line) id
            have hcount : ∀ f : Delivery, Advances f
                { f with replayedBatches := f.replayedBatches + 1 } :=
              fun _ ↦ ⟨rfl, rfl, fun _ h ↦ h, fun _ h ↦ h, id⟩
            rintro _ u (rfl | rfl) <;> refine ends_bind (ends_modify ?_)
            · refine (ih (replayed + 1) { e with replayedBatches := e.replayedBatches + 1 } hopen).mono
                (fun _ f h ↦ ?_) fun _ _ h ↦ h
              exact hread.trans (hadvances.trans ((hcount e).trans h))
            · refine (ih (replayed + 1) _ ?_).mono (fun _ f h ↦ ?_) fun _ _ h ↦ h
              · exact hopen
              · exact hread.trans (hadvances.trans (hremoved.trans ((hcount _).trans h)))

/-- Replaying the spool loses no line. -/
theorem ends_replay_spool (d : Delivery) :
    Ends replaySpool d (fun _ e ↦ Advances d e) fun _ e ↦ Advances d e := by
  refine ends_bind (ends_read ?_)
  split
  · exact ends_pure (.refl d)
  · refine ends_bind (ends_within ((Spool.ends_pending d.storage).mono ?_ ?_))
    · rintro segments t ⟨rfl, rfl | ⟨hopen, -⟩⟩
      · exact ends_pure (.refl d)
      · exact (ends_replay_segments segments 0 d hopen).mono (fun _ _ h ↦ h) fun _ _ h ↦ h.elim
    · rintro _ t rfl
      exact .refl d

/-! ## Invariants of the thread -/

/-- Events still in hand aside, every event drained is somewhere; every event queued is a record;
and the count is kept. -/
structure Kept (inHand : List RuntimeEvent) (d : Delivery) : Prop where
  /-- Every drained event is in hand or fated. -/
  drained : ∀ batch, .drained batch ∈ d.log → ∀ event ∈ batch,
    event ∈ inHand ∨ Fated d event.toJson
  /-- Every queued event is one line. -/
  queued : ∀ event, some event ∈ d.reporter.buffer.slots → event.toJson.Record
  /-- The counter counts the lines counted. -/
  tallied : Tallied d.storage

/-- What advances keeps the invariant. -/
theorem Kept.advance {inHand : List RuntimeEvent} {d e : Delivery} (h : Kept inHand d)
    (hadvances : Advances d e) : Kept inHand e := by
  refine ⟨fun batch hbatch event hevent ↦ ?_, ?_, hadvances.tallied h.tallied⟩
  · exact (h.drained batch (hadvances.drained batch hbatch) event hevent).imp id
      (hadvances.fated event.toJson)
  · rw [hadvances.reporter]
    exact h.queued

/-- Events that are fated are in hand no more. -/
theorem Kept.release {batch : List RuntimeEvent} {d : Delivery} (h : Kept batch d)
    (hbatch : ∀ event ∈ batch, Fated d event.toJson) : Kept [] d :=
  ⟨fun other hother event hevent ↦
    .inr ((h.drained other hother event hevent).elim (hbatch event) id), h.queued, h.tallied⟩

/-- Slots that are cleared hold nothing. -/
theorem mem_of_mem_foldl_set {α : Type} {indices : List Nat} {slots : List (Option α)} {item : α}
    (h : some item ∈ indices.foldl (fun slots i ↦ slots.set i none) slots) : some item ∈ slots := by
  induction indices generalizing slots with
  | nil => exact h
  | cons i indices ih =>
      rcases List.mem_or_eq_of_mem_set (ih h) with h | h
      · exact h
      · cases h

/-- A batch that is drained is in hand, and each of its events is a record. -/
theorem ends_drain {d : Delivery} (h : Kept [] d) :
    Ends drain d (fun batch e ↦ Kept batch e ∧ ∀ event ∈ batch, event.toJson.Record)
      fun _ _ ↦ False := by
  refine ends_bind (ends_read (ends_bind (ends_modify (ends_pure ⟨⟨?_, ?_, h.tallied⟩, ?_⟩))))
  · intro batch hbatch event hevent
    rcases List.mem_cons.mp hbatch with heq | hbatch
    · cases heq
      exact .inl hevent
    · rcases h.drained batch hbatch event hevent with hnone | hfated
      · cases hnone
      · exact .inr (hfated.log (List.subset_cons_self _ _) rfl rfl)
  · exact fun event hevent ↦ h.queued event (mem_of_mem_foldl_set hevent)
  · intro event hevent
    obtain ⟨i, -, hi⟩ := List.mem_filterMap.mp hevent
    exact h.queued event (List.mem_of_getElem? (Option.join_eq_some_iff.mp hi))

/-- Sending batches loses no event. -/
theorem ends_send_batches (fuel : Nat) (healthy : Bool) {d : Delivery} (h : Kept [] d) :
    Ends (sendBatches fuel healthy) d (fun _ e ↦ Kept [] e) fun _ _ ↦ False := by
  induction fuel generalizing healthy d with
  | zero => exact ends_pure h
  | succ fuel ih =>
      refine ends_bind ((ends_drain h).mono ?_ fun _ _ h ↦ h)
      rintro batch e ⟨hkept, hrecords⟩
      split
      · next hempty =>
          refine ends_pure (hkept.release fun event hevent ↦ ?_)
          rw [List.isEmpty_iff.mp hempty] at hevent
          cases hevent
      · refine ends_bind ((ends_send batch e).mono ?_ fun _ _ h ↦ h)
        rintro accepted f ⟨hadvances, hsettled⟩
        cases accepted with
        | true => exact ih _ ((hkept.advance hadvances).release (hsettled rfl))
        | false =>
            refine ends_bind ((ends_spool batch f).mono ?_ fun _ _ h ↦ h)
            rintro _ g ⟨hspooled, htaken⟩
            exact ih _ (((hkept.advance hadvances).advance hspooled).release
              fun event hevent ↦ htaken event hevent (hrecords event hevent))

/-- A batch with events in it leaves fewer events in the buffer. -/
theorem ends_drain_queued (d : Delivery) :
    Ends drain d (fun batch e ↦ e.log.head? = some (.drained batch) ∧
      (batch ≠ [] → e.reporter.queued < d.reporter.queued)) fun _ _ ↦ False := by
  refine ends_bind (ends_read (ends_bind (ends_modify (ends_pure ⟨rfl, fun hbatch ↦ ?_⟩))))
  have hqueued : d.reporter.queued ≠ 0 := by
    intro hzero
    refine hbatch ?_
    unfold Reporter.queued at hzero
    simp [Reporter.drain, BoundedRingBuffer.drain, hzero]
  simp only [Reporter.queued, Reporter.drain, BoundedRingBuffer.drain, BATCH_SIZE] at hqueued ⊢
  omega

/-- The loop has fuel enough: it ends when nothing more is drained. -/
theorem ends_send_batches_drained (fuel : Nat) (healthy : Bool) {d : Delivery}
    (h : d.reporter.queued < fuel) :
    Ends (sendBatches fuel healthy) d (fun _ e ↦ e.log.head? = some (.drained []))
      fun _ _ ↦ False := by
  induction fuel generalizing healthy d with
  | zero => exact absurd h (Nat.not_lt_zero _)
  | succ fuel ih =>
      refine ends_bind ((ends_drain_queued d).mono ?_ fun _ _ h ↦ h)
      rintro batch e ⟨hlog, hqueued⟩
      split
      · next hempty =>
          rw [List.isEmpty_iff.mp hempty] at hlog
          exact ends_pure hlog
      · next hbatch =>
          have hqueued := hqueued fun h ↦ hbatch (by rw [h]; rfl)
          refine ends_bind ((ends_send batch e).mono ?_ fun _ _ h ↦ h)
          rintro accepted f ⟨hadvances, -⟩
          have hsent : f.reporter.queued < fuel := by
            rw [hadvances.reporter]
            omega
          cases accepted with
          | true => exact ih healthy hsent
          | false =>
              refine ends_bind ((ends_spool batch f).mono ?_ fun _ _ h ↦ h)
              rintro _ g ⟨hspooled, -⟩
              refine ih false ?_
              rw [hspooled.reporter]
              exact hsent

/-- Flushing loses no event. -/
theorem ends_flush_once {d : Delivery} (h : Kept [] d) :
    Ends flushOnce d (fun _ e ↦ Kept [] e) fun _ e ↦ Kept [] e := by
  have hbackoff : ∀ (healthy : Bool) (e : Delivery), Kept [] e →
      Ends (adjustBackoff healthy) e (fun _ e ↦ Kept [] e) fun _ e ↦ Kept [] e :=
    fun _ _ h ↦ ends_modify ⟨h.drained, h.queued, h.tallied⟩
  refine ends_bind (ends_read (ends_bind ((ends_send_batches _ true h).mono ?_ fun _ _ h ↦ h.elim)))
  intro healthy e hkept
  cases healthy with
  | false => exact hbackoff false e hkept
  | true =>
      refine ends_bind ((ends_replay_spool e).mono (fun healthy f hadvances ↦ ?_)
        fun _ f hadvances ↦ hkept.advance hadvances)
      exact hbackoff healthy f (hkept.advance hadvances)

end ReportingThread

/-! ## Invariants of a run -/

namespace Delivery

/-- A buffer that is offered an event holds it or what it held. -/
theorem mem_of_mem_offer {b : BoundedRingBuffer RuntimeEvent} {item event : RuntimeEvent}
    {lockFree : Bool} (h : some event ∈ (b.offer item lockFree).2.slots) :
    event = item ∨ some event ∈ b.slots := by
  unfold BoundedRingBuffer.offer at h
  split_ifs at h
  · exact .inr h
  · exact (List.mem_or_eq_of_mem_set h).symm.imp Option.some.inj id
  · exact (List.mem_or_eq_of_mem_set h).symm.imp Option.some.inj id

/-- Reporting a record keeps the invariant. -/
theorem kept_queue {d : Delivery} {r : Reporter} {event : RuntimeEvent} {moment : Moment}
    (h : ReportingThread.Kept [] d) (hbuffer : r.buffer = d.reporter.buffer)
    (hrecord : event.toJson.Record) :
    ReportingThread.Kept [] { d with reporter := r.queue event moment } := by
  refine ⟨h.drained, fun other hother ↦ ?_, h.tallied⟩
  rcases mem_of_mem_offer hother with rfl | hother
  · exact hrecord
  · rw [hbuffer] at hother
    exact h.queued other hother

/-- Remembering a sighting leaves the buffer alone. -/
theorem buffer_first_sighting (r : Reporter) (key : JString) :
    (r.firstSighting key).2.buffer = r.buffer := by
  unfold Reporter.firstSighting
  split_ifs <;> rfl

/-- Another state of the reporter with the same buffer keeps the invariant. -/
theorem kept_reporter {d : Delivery} {r : Reporter} (h : ReportingThread.Kept [] d)
    (hbuffer : r.buffer = d.reporter.buffer) :
    ReportingThread.Kept [] { d with reporter := r } := by
  refine ⟨h.drained, fun event hevent ↦ h.queued event ?_, h.tallied⟩
  rw [← hbuffer]
  exact hevent

/-- Nothing is in hand between steps. -/
theorem kept_step (d : Delivery) (action : DeliveryStep) (h : ReportingThread.Kept [] d) :
    ReportingThread.Kept [] (step d action).2 := by
  cases action with
  | report finding context moment => exact kept_queue h rfl (RuntimeEvent.record_taint_hit ..)
  | reportRoute method pathTemplate authenticated moment =>
      show ReportingThread.Kept [] { d with
        reporter := d.reporter.reportRoute method pathTemplate authenticated moment }
      unfold Reporter.reportRoute
      dsimp only
      split
      · next r hsighting =>
          exact kept_reporter h (by rw [← buffer_first_sighting d.reporter _, hsighting])
      · next r hsighting =>
          exact kept_queue h (by rw [← buffer_first_sighting d.reporter _, hsighting]; rfl)
            (RuntimeEvent.record_route ..)
  | reportCoverageGap reason component moment =>
      show ReportingThread.Kept [] { d with
        reporter := d.reporter.reportCoverageGap reason component moment }
      unfold Reporter.reportCoverageGap
      dsimp only
      split
      · next r hsighting =>
          exact kept_reporter h (by rw [← buffer_first_sighting d.reporter _, hsighting])
      · next r hsighting =>
          exact kept_queue h (by rw [← buffer_first_sighting d.reporter _, hsighting]; rfl)
            (RuntimeEvent.record_coverage_gap ..)
  | flushOnce answers clock faults =>
      have hstarted : ReportingThread.Kept []
          { d with answers := answers, storage := { d.storage with clock := clock } } :=
        ⟨h.drained, h.queued, h.tallied⟩
      exact ((ReportingThread.ends_flush_once hstarted).cases faults).elim (fun ⟨_, h⟩ ↦ h)
        fun ⟨_, h⟩ ↦ h

/-- An agent that has just started has drained nothing. -/
theorem kept_start (capacity : Nat) (transport : Http) (hasSpool : Bool) (maxBytes : Nat)
    (directory : Option (AList fun _ : JString ↦ Bytes)) :
    ReportingThread.Kept [] (start capacity transport hasSpool maxBytes directory) := by
  refine ⟨fun _ h ↦ (nomatch h), fun event hevent ↦ ?_, rfl⟩
  exact nomatch List.eq_of_mem_replicate hevent

/-! ## Where an event is after a step -/

/-- The event was posted in a request answered with a 2xx. -/
def Accepted (d : Delivery) (event : RuntimeEvent) : Prop :=
  ∃ jsonLines status, .posted jsonLines (some status) ∈ d.log ∧ status.tdiv 100 = 2 ∧
    Carried jsonLines event.toJson

/-- The event is read from a segment that awaits replay. -/
def Awaiting (d : Delivery) (event : RuntimeEvent) : Prop :=
  d.hasSpool = true ∧ ∃ listed segment lines, Runs Spool.pending d.storage listed d.storage ∧
    segment ∈ listed ∧ Runs (Spool.read segment) d.storage lines d.storage ∧
    Carried lines event.toJson

/-- The event is among the lines that the counter of dropped events counts. -/
def Counted (d : Delivery) (event : RuntimeEvent) : Prop :=
  ∃ jsonLines, .counted jsonLines ∈ d.storage.log ∧ Carried jsonLines event.toJson

/-- The event did not disappear uncounted. -/
def Conserved (d : Delivery) (event : RuntimeEvent) : Prop :=
  Accepted d event ∨ Awaiting d event ∨ Counted d event

/-- The event was posted in a request answered with 400 or 413, which no retry can change. -/
def Refused (d : Delivery) (event : RuntimeEvent) : Prop :=
  ∃ jsonLines status, .posted jsonLines (some status) ∈ d.log ∧ (status = 400 ∨ status = 413) ∧
    Carried jsonLines event.toJson

/-- The event was in a batch that could not be sent when there was no spool, or that was handed to
a spool that was disabled or gave up over it. -/
def Forgone (d : Delivery) (event : RuntimeEvent) : Prop :=
  (∃ batch, .unspooled batch ∈ d.log ∧ ∃ other ∈ batch, other.toJson = event.toJson) ∨
  ∃ jsonLines, .forgone jsonLines ∈ d.storage.log ∧ Carried jsonLines event.toJson

/-- The event is on disk among the complete lines of a segment, which the spool does not list since
it is disabled. -/
def Hidden (d : Delivery) (event : RuntimeEvent) : Prop :=
  d.storage.spool.disabled = true ∧ ∃ path whole rest, Spool.isSegment path = true ∧
    d.storage.bytesOf path = some (whole ++ rest) ∧ Carried (textLines whole) event.toJson

/-- The event was in a segment that could not be read. -/
def Unread (d : Delivery) (event : RuntimeEvent) : Prop :=
  ∃ bytes, .unread bytes ∈ d.storage.log ∧ Carried (textLines bytes) event.toJson

/-- The event was written behind bytes that are no complete lines of text, left by another agent. -/
def Misplaced (d : Delivery) (event : RuntimeEvent) : Prop :=
  ∃ before jsonLines, .appended before jsonLines ∈ d.storage.log ∧ ¬ Whole before ∧
    Carried jsonLines event.toJson

/-- A fated event is conserved, or lost in one of the ways the agent accepts. -/
theorem accounted_of_fated {d : Delivery} {event : RuntimeEvent} (h : Fated d event.toJson) :
    Conserved d event ∨ Refused d event ∨ Forgone d event ∨ Hidden d event ∨ Unread d event ∨
      Misplaced d event := by
  rcases h with ⟨lines, answer, hposted, hsettles, hline⟩ | hunspooled | ⟨hthere, htraced⟩
  · cases answer with
    | none => exact nomatch hsettles
    | some status =>
        have hstatus : (status = 400 ∨ status = 413) ∨ status.tdiv 100 = 2 := by
          simpa [Http.settles] using hsettles
        exact hstatus.elim (fun h ↦ .inr (.inl ⟨lines, status, hposted, h, hline⟩))
          fun h ↦ .inl (.inl ⟨lines, status, hposted, h, hline⟩)
  · exact .inr (.inr (.inl (.inl hunspooled)))
  · rcases htraced with ⟨action, haction, hline⟩ | ⟨path, whole, rest, hsegment, hbytes, hwhole,
      hline, hrest⟩
    · cases action with
      | appended before jsonLines =>
          exact .inr (.inr (.inr (.inr (.inr ⟨before, jsonLines, haction, hline⟩))))
      | forgone jsonLines => exact .inr (.inr (.inl (.inr ⟨jsonLines, haction, hline⟩)))
      | unread bytes => exact .inr (.inr (.inr (.inr (.inl ⟨bytes, haction, hline⟩))))
      | counted jsonLines => exact .inl (.inr (.inr ⟨jsonLines, haction, hline⟩))
      | removed segment => exact hline.elim
    · cases hdisabled : d.storage.spool.disabled with
      | true =>
          exact .inr (.inr (.inr (.inl ⟨hdisabled, path, whole, rest, hsegment, hbytes, hline⟩)))
      | false =>
          rw [hrest hdisabled, List.append_nil] at hbytes
          obtain ⟨text, rfl, -⟩ := hwhole
          exact .inl (.inr (.inl ⟨hthere, _, path, _,
            Spool.runs_pending hdisabled (Storage.is_none_directory hbytes),
            Spool.mem_segments_iff.mpr ⟨Storage.mem_keys_of_bytes_of hbytes, hsegment⟩,
            Spool.runs_read_segment hbytes (read_all_lines_utf8 text), hline⟩))

/-- An agent without a spool. -/
def exampleStart : Delivery :=
  start 4 ⟨false, false, true⟩ false 0 none

/-- The first route it discovers, and a flush while the gateway cannot be reached. -/
def exampleSteps : List DeliveryStep :=
  [.reportRoute (java "GET") (java "/") true ⟨0, 0, true⟩, .flushOnce [none] [] []]

/-- The agent after these steps. -/
def exampleDelivery : Delivery :=
  Machine.final step exampleStart exampleSteps

/-- The event of the route. -/
def exampleEvent : RuntimeEvent :=
  .route (java "0-1") (java "GET") (java "/") true ⟨0, 0, true⟩

/-- The event is drained. -/
theorem drained_example : .drained [exampleEvent] ∈ exampleDelivery.log := by
  decide +kernel

/-- A request was answered. -/
def isAnswered : SendAction → Bool
  | .posted _ (some _) => true
  | _ => false

end Delivery

end Aegis.Agent
