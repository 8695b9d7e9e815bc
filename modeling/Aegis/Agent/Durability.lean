import Aegis.Lib.Machine
import Aegis.Agent.SpoolEffects

/-!
# A failed append and what was spooled before

A write that fails disables the spool for good, and a disabled spool lists nothing: what was
spooled before is hidden from replay. It is not lost. `spooled_kept` says that every segment that is
not deleted is on disk with all of its lines, and that a spool opened on the directory lists it.
-/

namespace Aegis.Agent

open Prog

/-! ## Runs -/

/-- A call of the spool, and at which of its file operations the disk fails. -/
inductive SpoolCall where
  | append (jsonLines : List JString) (faults : List Bool)
  | pending (faults : List Bool)
  | read (segment : JString) (faults : List Bool)
  | discard (segment : JString) (faults : List Bool)

namespace Spool

/-- The storage after a call. -/
def afterCall (s : Storage) : SpoolCall → Storage
  | .append jsonLines faults => (append jsonLines s faults).state
  | .pending faults => (pending s faults).state
  | .read segment faults => (read segment s faults).state
  | .discard segment faults => (discard segment s faults).state

/-- The machine whose runs are the sequences of calls. -/
def callStep (s : Storage) (call : SpoolCall) : Unit × Storage :=
  ((), afterCall s call)

/-- Another spool on the same directory, as after a restart of the JVM. -/
def reopen (maxBytes : Nat) (s : Storage) : Storage :=
  { s with spool := create maxBytes }

/-! ## What a call preserves -/

/-- A file that is not deleted keeps what it holds. Complete lines may come behind it, and while
the spool is not disabled nothing else; once it is disabled nothing more comes. -/
structure Preserved (torn : Option JString) (actions : List FileAction) (s t : Storage) : Prop where
  /-- The actions are those logged. -/
  log : t.log = actions ++ s.log
  /-- A disabled spool stays disabled. -/
  disabled : s.spool.disabled = true → t.spool.disabled = true ∧ torn = none
  /-- Only a write that disabled the spool tears a file. -/
  intact : t.spool.disabled = false → torn = none
  /-- Every file that is not deleted has only grown. -/
  files : ∀ path bytes, s.bytesOf path = some bytes → .removed path ∈ actions ∨
    ∃ more rest, t.bytesOf path = some (bytes ++ more ++ rest) ∧ Whole more ∧
      (torn ≠ some path → rest = []) ∧ (s.spool.disabled = true → more = [] ∧ rest = [])

/-- Where every file is as it was, everything is preserved. -/
theorem preserved_of_same {s t : Storage} {actions : List FileAction} (hlog : t.log = actions ++ s.log)
    (hdisabled : t.spool.disabled = s.spool.disabled)
    (hfiles : ∀ path, .removed path ∉ actions → t.bytesOf path = s.bytesOf path) :
    Preserved none actions s t := by
  refine ⟨hlog, fun h ↦ ⟨hdisabled.trans h, rfl⟩, fun _ ↦ rfl, fun path bytes hbytes ↦ ?_⟩
  by_cases hremoved : .removed path ∈ actions
  · exact .inl hremoved
  · refine .inr ⟨[], [], ?_, whole_nil, fun _ ↦ rfl, fun _ ↦ ⟨rfl, rfl⟩⟩
    rw [hfiles path hremoved, hbytes, List.append_nil, List.append_nil]

/-- What an enabled spool's append does preserves the files. -/
theorem preserved_of_effect {torn : Option JString} {actions : List FileAction} {s t : Storage}
    (h : Effect torn actions s t) (henabled : s.spool.disabled = false) {disabled : Bool}
    (hdisabled : disabled = false → torn = none) (more : List FileAction) :
    Preserved torn (more ++ actions) s
      { t with spool.disabled := disabled, log := more ++ t.log } := by
  refine ⟨?_, fun h ↦ absurd (henabled.symm.trans h) Bool.false_ne_true, hdisabled,
    fun path bytes hbytes ↦ ?_⟩
  · rw [List.append_assoc, ← h.log]
  · rcases h.files path bytes hbytes with hgone | ⟨lines, rest, hheld, hlines, hrest⟩
    · exact .inl (List.mem_append_right _ hgone.1)
    · exact .inr ⟨lines, rest, hheld, hlines, hrest,
        fun h ↦ absurd (henabled.symm.trans h) Bool.false_ne_true⟩

/-- What one call preserves and then the others is preserved by all. -/
theorem Preserved.trans {torn torn' : Option JString} {actions more : List FileAction}
    {s t u : Storage} (hfirst : Preserved torn actions s t) (hrest : Preserved torn' more t u) :
    ∃ both, Preserved both (more ++ actions) s u := by
  have hlog : u.log = (more ++ actions) ++ s.log := by
    rw [hrest.log, hfirst.log, List.append_assoc]
  cases hdisabled : t.spool.disabled with
  | true =>
      obtain ⟨hclosed, rfl⟩ := hrest.disabled hdisabled
      refine ⟨torn, hlog, fun h ↦ ⟨hclosed, (hfirst.disabled h).2⟩, fun h ↦ ?_,
        fun path bytes hbytes ↦ ?_⟩
      · exact absurd (h.symm.trans hclosed) Bool.false_ne_true
      · rcases hfirst.files path bytes hbytes with hgone | ⟨lines, rest, hheld, hgrown⟩
        · exact .inl (List.mem_append_right _ hgone)
        · rcases hrest.files path _ hheld with hgone | ⟨next, last, hheld, -, -, hsame⟩
          · exact .inl (List.mem_append_left _ hgone)
          · obtain ⟨rfl, rfl⟩ := hsame hdisabled
            rw [List.append_nil, List.append_nil] at hheld
            exact .inr ⟨lines, rest, hheld, hgrown⟩
  | false =>
      obtain rfl := hfirst.intact hdisabled
      have henabled : s.spool.disabled ≠ true :=
        fun h ↦ absurd (hdisabled.symm.trans (hfirst.disabled h).1) Bool.false_ne_true
      refine ⟨torn', hlog, fun h ↦ absurd h henabled, hrest.intact, fun path bytes hbytes ↦ ?_⟩
      rcases hfirst.files path bytes hbytes with hgone | ⟨lines, rest, hheld, hlines, hnone, -⟩
      · exact .inl (List.mem_append_right _ hgone)
      · rw [hnone nofun, List.append_nil] at hheld
        rcases hrest.files path _ hheld with hgone | ⟨next, last, hheld, hnext, hlast, -⟩
        · exact .inl (List.mem_append_left _ hgone)
        · refine .inr ⟨lines ++ next, last, ?_, hlines.append hnext, hlast,
            fun h ↦ absurd h henabled⟩
          rw [hheld, List.append_assoc bytes]

/-- Every call preserves the files. -/
theorem preserved_after_call (s : Storage) (call : SpoolCall) :
    ∃ torn actions, Preserved torn actions s (afterCall s call) := by
  have hsame : Preserved none [] s s := preserved_of_same rfl rfl fun _ _ ↦ rfl
  cases call with
  | append jsonLines faults =>
      rcases (ends_append jsonLines s).cases faults with ⟨-, h⟩ | ⟨_, h⟩
      · rcases h with h | ⟨henabled, ⟨actions, heffect, -⟩ | ⟨torn, actions, u, heffect, h⟩⟩
        · refine ⟨none, [.forgone jsonLines], ?_⟩
          rw [afterCall, h]
          exact preserved_of_same rfl rfl fun _ _ ↦ rfl
        · exact ⟨none, actions, preserved_of_effect heffect henabled (fun _ ↦ rfl) []⟩
        · refine ⟨torn, [.forgone jsonLines] ++ actions, ?_⟩
          rw [afterCall, h]
          exact preserved_of_effect heffect henabled Bool.noConfusion _
      · exact h.elim
  | pending faults =>
      rcases (ends_pending s).cases faults with ⟨_, h, -⟩ | ⟨_, h⟩ <;>
      · refine ⟨none, [], ?_⟩
        rw [afterCall, h]
        exact hsame
  | read segment faults =>
      rcases (ends_read_segment s segment).cases faults with ⟨_, ⟨h, -⟩ | ⟨h, -⟩⟩ | ⟨_, h⟩
      · refine ⟨none, [], ?_⟩
        rw [afterCall, h]
        exact hsame
      · refine ⟨none, [.unread ((s.bytesOf segment).getD [])], ?_⟩
        rw [afterCall, h]
        exact preserved_of_same rfl rfl fun _ _ ↦ rfl
      · exact h.elim
  | discard segment faults =>
      rcases (ends_discard s segment).cases faults with ⟨_, h | h⟩ | ⟨_, h⟩
      · refine ⟨none, [], ?_⟩
        rw [afterCall, h]
        exact hsame
      · refine ⟨none, [.removed segment], ?_⟩
        rw [afterCall, h]
        refine preserved_of_same rfl rfl fun path hpath ↦ Storage.bytes_of_remove_other ?_ s
        exact fun heq ↦ hpath (heq ▸ List.mem_singleton_self _)
      · exact h.elim

/-- So does every run. -/
theorem preserved_run (s : Storage) (calls : List SpoolCall) :
    ∃ torn actions, Preserved torn actions s (Machine.final callStep s calls) := by
  induction calls generalizing s with
  | nil => exact ⟨none, [], preserved_of_same rfl rfl fun _ _ ↦ rfl⟩
  | cons call calls ih =>
      obtain ⟨torn, actions, hfirst⟩ := preserved_after_call s call
      obtain ⟨torn', more, hrest⟩ := ih (afterCall s call)
      obtain ⟨both, h⟩ := hfirst.trans hrest
      exact ⟨both, more ++ actions, h⟩

/-! ## What was spooled is kept -/

/-- Whole bytes can be read. -/
theorem exists_read_all_lines {bytes : Bytes} (h : Whole bytes) :
    ∃ lines, readAllLines bytes = some lines := by
  obtain ⟨text, rfl, -⟩ := h
  exact ⟨_, read_all_lines_utf8 text⟩

/-- In every run of calls, whatever fails, every segment of complete lines that is not deleted stays
on disk with its bytes in front. While the spool is not disabled it is listed; once a failed append
has disabled the spool nothing is listed, but a spool opened on the directory lists it. It is read
back with its lines in front, unless it is the one segment that the failed write was cut short in. -/
theorem spooled_kept (s : Storage) (calls : List SpoolCall) :
    let t := Machine.final callStep s calls
    ∃ torn actions, t.log = actions ++ s.log ∧ (t.spool.disabled = false → torn = none) ∧
      ∀ path bytes, isSegment path = true → s.bytesOf path = some bytes → Whole bytes →
        .removed path ∉ actions →
        (∃ more, t.bytesOf path = some (bytes ++ more)) ∧
        (t.spool.disabled = false → ∃ listed, Runs pending t listed t ∧ path ∈ listed) ∧
        (t.spool.disabled = true → Runs pending t [] t) ∧
        (∀ maxBytes, ∃ listed, Runs pending (reopen maxBytes t) listed (reopen maxBytes t) ∧
          path ∈ listed) ∧
        (torn ≠ some path → ∃ lines, Runs (read path) t lines t ∧ textLines bytes <+: lines) := by
  intro t
  obtain ⟨torn, actions, h⟩ := preserved_run s calls
  refine ⟨torn, actions, h.log, h.intact, fun path bytes hsegment hbytes hwhole hkept ↦ ?_⟩
  obtain ⟨more, rest, hheld, hmore, hrest, -⟩ := (h.files path bytes hbytes).resolve_left hkept
  have hlisted : ∀ u : Storage, u.directory = t.directory →
      path ∈ segments u ∧ u.directory.isNone = false := by
    intro u hdirectory
    have hheld : u.bytesOf path = some (bytes ++ more ++ rest) := by
      rw [Storage.bytesOf, Storage.files, hdirectory]
      exact hheld
    exact ⟨mem_segments_iff.mpr ⟨Storage.mem_keys_of_bytes_of hheld, hsegment⟩,
      Storage.is_none_directory hheld⟩
  refine ⟨⟨more ++ rest, ?_⟩, fun hdisabled ↦ ?_, runs_pending_disabled, fun maxBytes ↦ ?_,
    fun htorn ↦ ?_⟩
  · rw [← List.append_assoc]
    exact hheld
  · exact ⟨_, runs_pending hdisabled (hlisted t rfl).2, (hlisted t rfl).1⟩
  · obtain ⟨hmem, hdirectory⟩ := hlisted (reopen maxBytes t) rfl
    exact ⟨_, runs_pending rfl hdirectory, hmem⟩
  · rw [hrest htorn, List.append_nil] at hheld
    obtain ⟨lines, hlines⟩ := exists_read_all_lines (hwhole.append hmore)
    refine ⟨_, runs_read_segment hheld hlines, ?_⟩
    rw [text_lines_append hwhole hmore]
    exact List.prefix_append _ _

/-! ## A segment that is hidden -/

/-- The storage of a spool whose directory is not there yet. -/
def exampleStorage : Storage :=
  ⟨create 0, none, [], []⟩

/-- The name of the first segment. -/
def exampleSegment : JString :=
  java "aegis-spool-0000000000000-0001.ndjson"

/-- A batch is appended. -/
def exampleSpooled : Storage :=
  Machine.final callStep exampleStorage [.append [java "\x7b\x7d"] []]

/-- Another one is appended while the disk is full. -/
def exampleFailed : Storage :=
  Machine.final callStep exampleSpooled
    [.append [java "\x7b\x7d"] [false, false, false, false, true]]

/-- No segment has been deleted. -/
theorem not_removed_example (path : JString) : .removed path ∉ exampleFailed.log := by
  have hlog : exampleFailed.log.all (fun action ↦
      match action with
      | .removed _ => false
      | _ => true) = true := by decide +kernel
  exact fun hremoved ↦ Bool.false_ne_true (List.all_eq_true.mp hlog _ hremoved)

/-- The segment that the spooled batch is in. -/
theorem example_segment :
    isSegment exampleSegment = true ∧
      exampleSpooled.bytesOf exampleSegment = some (joinLines [java "\x7b\x7d"]).getBytes := by
  decide +kernel

/-- The spool opened anew lists the segment. -/
theorem spooled_kept_full_disk :
    ∃ listed, Runs pending (reopen 0 exampleFailed) listed (reopen 0 exampleFailed) ∧
      exampleSegment ∈ listed := by
  obtain ⟨_, actions, hlog, -, h⟩ := spooled_kept exampleSpooled
    [.append [java "\x7b\x7d"] [false, false, false, false, true]]
  refine (h exampleSegment _ example_segment.1 example_segment.2 (whole_join_lines _) ?_).2.2.2.1 0
  intro hremoved
  refine not_removed_example exampleSegment ?_
  rw [exampleFailed, hlog]
  exact List.mem_append_left _ hremoved

/-- Nothing has been deleted and the disk has room again, but the segment is not listed. -/
theorem spooled_hidden :
    isSegment exampleSegment = true ∧
      exampleSpooled.bytesOf exampleSegment = some (joinLines [java "\x7b\x7d"]).getBytes ∧
      (∀ path, .removed path ∉ exampleFailed.log) ∧ Runs pending exampleFailed [] exampleFailed :=
  ⟨example_segment.1, example_segment.2, not_removed_example,
    runs_pending_disabled (by decide +kernel)⟩

end Spool

end Aegis.Agent
