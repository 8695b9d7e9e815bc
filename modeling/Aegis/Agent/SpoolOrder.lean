import Aegis.Agent.Durability
import Aegis.Agent.SpoolNames

/-!
# Order and ceiling of the spool

Appends one after another, under a clock that does not go back. The sequence number wraps at four
digits, so the order of names is that of creation as long as it does not wrap within a millisecond
of which there is a segment, and the clock keeps its number of digits. The ceiling holds as long as
the sweep is not disturbed, or is not needed.
-/

namespace Aegis.Agent

open Prog

namespace Spool

/-! ## The sweep -/

/-- The size of a segment. -/
def segmentBytes (s : Storage) (segment : JString) : Nat :=
  ((s.bytesOf segment).getD []).length

/-- The size of all segments. -/
def totalBytes (s : Storage) : Nat :=
  ((segments s).map (segmentBytes s)).sum

variable {s t u : Storage}

/-- The total is that of the files. -/
theorem total_congr (h : s.files = t.files) : totalBytes s = totalBytes t := by
  have hsize : segmentBytes s = segmentBytes t := by
    funext segment
    rw [segmentBytes, segmentBytes, Storage.bytesOf, Storage.bytesOf, h]
  rw [totalBytes, totalBytes, segments_congr h, hsize]

/-- A segment that is listed holds something. -/
theorem exists_bytes_of_mem {segment : JString} (h : segment ∈ segments s) :
    ∃ bytes, s.bytesOf segment = some bytes :=
  Option.isSome_iff_exists.mp (AList.lookup_isSome.mpr (mem_segments_iff.mp h).1)

/-- Where a segment is, there is a directory. -/
theorem is_none_of_mem {segment : JString} (h : segment ∈ segments s) :
    s.directory.isNone = false := by
  obtain ⟨bytes, hbytes⟩ := exists_bytes_of_mem h
  exact Storage.is_none_directory hbytes

theorem runs_weight {segment : JString} (h : segment ∈ segments s) :
    Runs (weight segment) s (segmentBytes s segment) s := by
  obtain ⟨bytes, hbytes⟩ := exists_bytes_of_mem h
  refine runs_handle (runs_bind (runs_attempt _ s) (runs_bind (runs_read _ s) ?_))
  rw [segmentBytes, hbytes]
  rfl

/-- Undisturbed, the weights add up to the sizes. -/
theorem runs_total_weight {listed : List JString} (h : ∀ segment ∈ listed, segment ∈ segments s)
    (total : Nat) :
    Runs (totalWeight listed total) s (total + (listed.map (segmentBytes s)).sum) s := by
  induction listed generalizing total with
  | nil => rfl
  | cons segment rest ih =>
      obtain ⟨hsegment, hrest⟩ := List.forall_mem_cons.mp h
      rw [List.map_cons, List.sum_cons, ← Nat.add_assoc]
      exact runs_bind (runs_weight hsegment) (ih hrest _)

/-- A weight is at most the size. -/
theorem ends_weight (s : Storage) (segment : JString) :
    Ends (weight segment) s (fun size t ↦ t = s ∧ size ≤ segmentBytes s segment) fun _ _ ↦ False := by
  refine ends_handle (ends_bind (ends_attempt (ends_bind (ends_read ?_))
    (ends_pure ⟨rfl, Nat.zero_le _⟩)))
  cases hbytes : s.bytesOf segment with
  | none => exact ends_raise (ends_pure ⟨rfl, Nat.zero_le _⟩)
  | some bytes =>
      refine ends_pure ⟨rfl, ?_⟩
      rw [segmentBytes, hbytes]
      exact le_rfl

/-- The weights add up to at most the sizes. -/
theorem ends_total_weight (s : Storage) (listed : List JString) (total : Nat) :
    Ends (totalWeight listed total) s
      (fun sum t ↦ t = s ∧ sum ≤ total + (listed.map (segmentBytes s)).sum) fun _ _ ↦ False := by
  induction listed generalizing total with
  | nil => exact ends_pure ⟨rfl, le_rfl⟩
  | cons segment rest ih =>
      refine ends_bind ((ends_weight s segment).mono ?_ fun _ _ h ↦ h)
      rintro size t ⟨rfl, hsize⟩
      refine (ih (total + size)).mono ?_ fun _ _ h ↦ h
      rintro sum u ⟨rfl, hsum⟩
      refine ⟨rfl, ?_⟩
      rw [List.map_cons, List.sum_cons]
      omega

/-- What a sweep leaves: the segments but for some of the first ones. -/
structure Swept (s t : Storage) : Prop where
  listed : ∃ count, segments t = (segments s).drop count
  kept : ∀ segment ∈ segments t, t.bytesOf segment = s.bytesOf segment

/-- A sweep may leave the files as they are. -/
theorem swept_of_same (hfiles : t.files = s.files) : Swept s t := by
  refine ⟨⟨0, segments_congr hfiles⟩, fun segment _ ↦ ?_⟩
  rw [Storage.bytesOf, Storage.bytesOf, hfiles]

/-- A sweep is seen in the files. -/
theorem Swept.congr {s' t' : Storage} (h : Swept s t) (hs : s'.files = s.files)
    (ht : t'.files = t.files) : Swept s' t' := by
  obtain ⟨count, hcount⟩ := h.listed
  have hlisted : segments t' = segments t := segments_congr ht
  refine ⟨⟨count, ?_⟩, fun segment hmem ↦ ?_⟩
  · rw [hlisted, hcount, segments_congr hs]
  · rw [Storage.bytesOf, Storage.bytesOf, ht, hs]
    exact h.kept segment (hlisted ▸ hmem)

/-- What is put to a file is put to the files. -/
theorem files_put_congr (h : s.files = t.files) (path : JString) (bytes : Bytes) :
    (s.put path bytes).files = (t.put path bytes).files := by
  show s.files.insert path ((s.files.lookup path).getD [] ++ bytes) = _
  rw [h]
  rfl

/-- The spool but for the count of what it dropped. -/
def SameSpool (s t : Storage) : Prop :=
  t.spool = { s.spool with droppedEvents := t.spool.droppedEvents }

/-- Undisturbed, a segment that is dropped is deleted. -/
theorem runs_drop (segment : JString) (s : Storage) :
    ∃ t, Runs (drop segment) s .unit t ∧ t.files = s.files.erase segment ∧ SameSpool s t := by
  obtain ⟨lines, t, hread, hfiles, hspool⟩ : ∃ lines t, Runs (read segment) s lines t ∧
      t.files = s.files ∧ t.spool = s.spool := by
    cases hlines : (s.bytesOf segment).bind readAllLines with
    | some lines =>
        obtain ⟨bytes, hbytes, htext⟩ := Option.bind_eq_some_iff.mp hlines
        exact ⟨_, s, runs_read_segment hbytes htext, rfl, rfl⟩
    | none =>
        refine ⟨[], s.note (.unread ((s.bytesOf segment).getD [])), ?_, rfl, rfl⟩
        refine handle_of_error (e := FileException.IOException) ?_
        refine (bind_of_ok (runs_attempt _ s)).trans ((bind_of_ok (runs_read _ s)).trans ?_)
        rw [hlines]
        rfl
  refine ⟨_, runs_bind hread (runs_bind (rfl : Runs (modify _) t _ _)
    (runs_handle (runs_bind (runs_attempt _ _) rfl))), ?_, ?_⟩
  · show ((t.directory.map (·.erase segment)).getD ∅) = _
    rw [← hfiles, Storage.files]
    cases t.directory with
    | none => rfl
    | some files => rfl
  · show ({ t.spool with droppedEvents := t.spool.droppedEvents + lines.length } : Spool) =
      { s.spool with droppedEvents := t.spool.droppedEvents + lines.length }
    rw [hspool]

/-- Undisturbed, the first segments are discarded until the rest fits. -/
theorem runs_discard_until (maxBytes : Nat) (s : Storage) :
    ∃ t, Runs (discardUntil maxBytes (segments s) (totalBytes s)) s .unit t ∧ Swept s t ∧
      SameSpool s t ∧ totalBytes t ≤ maxBytes := by
  generalize hlisted : segments s = listed
  induction listed generalizing s with
  | nil =>
      refine ⟨s, rfl, swept_of_same rfl, rfl, ?_⟩
      rw [totalBytes, hlisted]
      exact Nat.zero_le _
  | cons segment rest ih =>
      unfold discardUntil
      by_cases hfits : totalBytes s ≤ maxBytes
      · rw [if_pos hfits]
        exact ⟨s, rfl, swept_of_same rfl, rfl, hfits⟩
      rw [if_neg hfits]
      obtain ⟨t, hdrop, hfiles, hspool⟩ := runs_drop segment s
      have hrest : segments t = rest := segments_erase hlisted hfiles
      have hkept : ∀ other ∈ rest, t.bytesOf other = s.bytesOf other := by
        intro other hother
        have hne : other ≠ segment := by
          rintro rfl
          have hsorted := pairwise_segments s
          rw [hlisted, List.pairwise_cons] at hsorted
          exact List.lt_irrefl _ (hsorted.1 _ hother)
        rw [Storage.bytesOf, hfiles]
        exact AList.lookup_erase_ne hne
      have hsize : totalBytes s - segmentBytes s segment = totalBytes t := by
        have hsame : rest.map (segmentBytes s) = rest.map (segmentBytes t) := by
          refine List.map_congr_left fun other hother ↦ ?_
          rw [segmentBytes, segmentBytes, hkept other hother]
        rw [totalBytes, totalBytes, hlisted, hrest, List.map_cons, List.sum_cons, hsame]
        omega
      obtain ⟨u, hruns, hswept, hsame, htotal⟩ := ih t hrest
      have hmem : segment ∈ segments s := by
        rw [hlisted]
        exact List.mem_cons_self
      refine ⟨u, runs_bind (runs_weight hmem) (runs_bind hdrop ?_), ⟨?_, ?_⟩, ?_, htotal⟩
      · rw [hsize]
        exact hruns
      · obtain ⟨count, hcount⟩ := hswept.listed
        refine ⟨count + 1, ?_⟩
        rw [hcount, hrest, hlisted, List.drop_succ_cons]
      · intro other hother
        obtain ⟨count, hcount⟩ := hswept.listed
        have hold : other ∈ rest := by
          rw [hcount, hrest] at hother
          exact List.mem_of_mem_drop hother
        rw [hswept.kept other hother, hkept other hold]
      · rw [SameSpool, hsame, hspool]

/-- Undisturbed, the sweep makes the segments fit. -/
theorem runs_enforce_ceiling (hdisabled : s.spool.disabled = false)
    (hdirectory : s.directory.isNone = false) :
    ∃ t, Runs enforceCeiling s .unit t ∧ Swept s t ∧ SameSpool s t ∧
      totalBytes t ≤ s.spool.maxBytes := by
  obtain ⟨t, hruns, hswept⟩ := runs_discard_until s.spool.maxBytes s
  have hweight := runs_total_weight (s := s) (fun _ h ↦ h) 0
  rw [Nat.zero_add] at hweight
  exact ⟨t, runs_bind (runs_pending hdisabled hdirectory) (runs_bind hweight
    (runs_bind (runs_read _ s) hruns)), hswept⟩

/-- Where the segments fit, the sweep leaves them. -/
theorem ends_enforce_ceiling (h : totalBytes s ≤ s.spool.maxBytes) :
    Ends enforceCeiling s (fun _ t ↦ t = s) fun _ t ↦ t = s := by
  refine ends_bind ((ends_pending s).mono ?_ fun _ _ h ↦ h)
  rintro listed t ⟨rfl, hlisted⟩
  refine ends_bind ((ends_total_weight t listed 0).mono ?_ fun _ _ h ↦ h.elim)
  rintro total u ⟨rfl, htotal⟩
  have hfits : total ≤ u.spool.maxBytes := by
    rcases hlisted with rfl | ⟨-, rfl⟩
    · exact htotal.trans (Nat.zero_le _)
    · rw [Nat.zero_add] at htotal
      exact htotal.trans h
  refine ends_bind (ends_read ?_)
  cases listed with
  | nil => exact ends_pure rfl
  | cons segment rest =>
      unfold discardUntil
      rw [if_pos hfits]
      exact ends_pure rfl

/-! ## An append in two phases -/

/-- The first phase of an append: the segment to append to. -/
def choose (jsonLines : List JString) : FileProg JString := do
  createDirectories
  currentSegment (joinLines jsonLines).getBytes.length

/-- The second phase: the write and the sweep. -/
def store (jsonLines : List JString) (target : JString) : FileProg PUnit := do
  let before ← Prog.read fun s ↦ (s.bytesOf target).getD []
  writeFile target (joinLines jsonLines).getBytes
  modify (·.note (.appended before jsonLines))
  enforceCeiling

/-- An append runs its phases, and gives up where one fails. -/
theorem append_eq (jsonLines : List JString) :
    append jsonLines = (do
      if (← Prog.read (·.spool.disabled)) || jsonLines.isEmpty then
        modify (·.note (.forgone jsonLines))
      else
        handle (choose jsonLines >>= store jsonLines) fun _ ↦
          modify fun s ↦ { s.note (.forgone jsonLines) with spool.disabled := true }) := by
  unfold choose
  rw [bind_assoc]
  rfl

/-- A segment is chosen: the newest one, or a new one that takes the next sequence number. -/
def Chosen (s : Storage) (target : JString) (t : Storage) : Prop :=
  t.files = s.files ∧ t.directory.isNone = false ∧
    (t.spool = s.spool ∧ (segments s).getLast? = some target ∨
      t.spool = { s.spool with sequence := (s.spool.sequence + 1) % 10000 } ∧
        target = segmentName (s.clock.headD 0) ((s.spool.sequence + 1) % 10000))

/-- A new segment takes the next number. -/
theorem ends_number (hfiles : t.files = s.files) (hspool : t.spool = s.spool)
    (hclock : t.clock = s.clock) (hdirectory : t.directory.isNone = false) :
    Ends newSegment t (fun target u ↦ Chosen s target u)
      fun _ u ↦ u.files = s.files ∧ u.spool = s.spool := by
  refine ends_bind (ends_bind (ends_read (ends_bind (ends_modify (ends_pure ?_)))))
  refine ends_bind (ends_bind (ends_modify (ends_read (ends_pure ?_))))
  refine ⟨hfiles, hdirectory, .inr ⟨?_, ?_⟩⟩
  · show ({ t.spool with sequence := (t.spool.sequence + 1) % 10000 } : Spool) = _
    rw [hspool]
  · show segmentName (t.clock.headD 0) ((t.spool.sequence + 1) % 10000) = _
    rw [hspool, hclock]

/-- What the first phase does. -/
theorem ends_choose (jsonLines : List JString) (s : Storage) :
    Ends (choose jsonLines) s (fun target t ↦ Chosen s target t)
      fun _ t ↦ t.files = s.files ∧ t.spool = s.spool := by
  refine ends_bind (ends_bind (ends_attempt (ends_modify ?_) ⟨rfl, rfl⟩))
  refine ends_bind ((ends_pending _).mono ?_ ?_)
  · rintro listed t ⟨rfl, hlisted⟩
    cases hlast : listed.getLast? with
    | none => exact ends_number rfl rfl rfl rfl
    | some newest =>
        have hnewest : (segments s).getLast? = some newest := by
          rcases hlisted with rfl | ⟨-, rfl⟩
          · cases hlast
          · exact hlast
        refine ends_bind (ends_bind (ends_attempt (ends_bind (ends_read ?_)) ⟨rfl, rfl⟩))
        split
        · exact ends_raise ⟨rfl, rfl⟩
        · refine ends_pure ?_
          split
          · exact ends_pure ⟨rfl, rfl, .inl ⟨rfl, hnewest⟩⟩
          · exact ends_number rfl rfl rfl rfl
  · rintro _ t rfl
    exact ⟨rfl, rfl⟩

/-- Undisturbed, the second phase writes the batch and makes the segments fit. -/
theorem runs_store (jsonLines : List JString) (target : JString)
    (hdisabled : s.spool.disabled = false) (hdirectory : s.directory.isNone = false) :
    ∃ t, Runs (store jsonLines target) s .unit t ∧
      Swept (s.put target (joinLines jsonLines).getBytes) t ∧ SameSpool s t ∧
        totalBytes t ≤ s.spool.maxBytes ∧
          (totalBytes (s.put target (joinLines jsonLines).getBytes) ≤ s.spool.maxBytes →
            t.files = (s.put target (joinLines jsonLines).getBytes).files) := by
  have hwrite : Runs (writeFile target (joinLines jsonLines).getBytes) s .unit
      (s.put target (joinLines jsonLines).getBytes) := by
    refine runs_bind (runs_attempt _ s) (runs_bind (runs_read _ s) ?_)
    rw [hdirectory]
    refine runs_bind rfl ?_
    suffices h : ∀ front bytes, Runs (writeBytes target bytes) (s.put target front) .unit
        (s.put target (front ++ bytes)) from h [] _
    intro front bytes
    induction bytes generalizing front with
    | nil =>
        rw [List.append_nil]
        rfl
    | cons byte bytes ih =>
        have h := ih (front ++ [byte])
        rw [List.append_assoc, ← Storage.put_put] at h
        exact runs_bind (runs_attempt _ _) (runs_bind rfl h)
  obtain ⟨t, hruns, hswept, hsame, htotal⟩ := runs_enforce_ceiling
    (s := (s.put target (joinLines jsonLines).getBytes).note
      (.appended ((s.bytesOf target).getD []) jsonLines)) hdisabled rfl
  refine ⟨t, runs_bind (runs_read _ s) (runs_bind hwrite (runs_bind rfl hruns)),
    ⟨hswept.listed, hswept.kept⟩, hsame, htotal, fun hfits ↦ ?_⟩
  have hleft := Ends.of_ok (ends_enforce_ceiling (by exact hfits)) hruns
  rw [hleft]
  rfl

/-- A sum over distinct items grows by what one of them grows by. -/
theorem sum_map_le {α : Type*} {f g : α → Nat} {item : α} {more : Nat} (hitem : g item ≤ f item + more)
    (hother : ∀ other, other ≠ item → g other = f other) {items : List α} (hnodup : items.Nodup) :
    (items.map g).sum ≤ (items.map f).sum + more := by
  induction items with
  | nil => exact Nat.zero_le _
  | cons first rest ih =>
      obtain ⟨hfirst, hrest⟩ := List.nodup_cons.mp hnodup
      rw [List.map_cons, List.map_cons, List.sum_cons, List.sum_cons]
      by_cases heq : first = item
      · have hsame : rest.map g = rest.map f := List.map_congr_left fun other hmem ↦
          hother other fun h ↦ hfirst ((heq.trans h.symm) ▸ hmem)
        rw [hsame, heq]
        omega
      · have := ih hrest
        have := hother first heq
        omega

/-- The size of a file that is put to. -/
theorem size_put_self (s : Storage) (target : JString) (bytes : Bytes) :
    segmentBytes (s.put target bytes) target = segmentBytes s target + bytes.length := by
  rw [segmentBytes, Storage.bytes_of_put_self, Option.getD_some, List.length_append]
  rfl

theorem size_put_other {target other : JString} (h : other ≠ target) (s : Storage) (bytes : Bytes) :
    segmentBytes (s.put target bytes) other = segmentBytes s other := by
  rw [segmentBytes, segmentBytes, Storage.bytes_of_put_other h]

/-- What is put to a file weighs at most what it is long. -/
theorem total_put (s : Storage) (target : JString) (bytes : Bytes) :
    totalBytes (s.put target bytes) ≤ totalBytes s + bytes.length := by
  by_cases hnew : isSegment target = true ∧ target ∉ segments s
  · obtain ⟨hsegment, hnot⟩ := hnew
    have hperm : (segments (s.put target bytes)).Perm (target :: segments s) := by
      refine (List.perm_ext_iff_of_nodup (nodup_segments _)
        (List.nodup_cons.mpr ⟨hnot, nodup_segments s⟩)).mpr fun path ↦ ?_
      rw [mem_segments_put, List.mem_cons, and_iff_left_of_imp fun h ↦ h ▸ hsegment]
    have hempty : segmentBytes s target = 0 := by
      have hnone : s.bytesOf target = none := by
        cases hbytes : s.bytesOf target with
        | none => rfl
        | some held => exact absurd (mem_segments_iff.mpr
            ⟨Storage.mem_keys_of_bytes_of hbytes, hsegment⟩) hnot
      rw [segmentBytes, hnone]
      rfl
    have hsame : (segments s).map (segmentBytes (s.put target bytes)) = (segments s).map (segmentBytes s) := by
      refine List.map_congr_left fun other hmem ↦ size_put_other ?_ s bytes
      rintro rfl
      exact hnot hmem
    rw [totalBytes, totalBytes, (hperm.map _).sum_nat, List.map_cons, List.sum_cons, hsame,
      size_put_self, hempty]
    omega
  · have hlisted : segments (s.put target bytes) = segments s := by
      refine segments_eq (pairwise_segments s) fun path ↦ ?_
      rw [← mem_segments_iff, mem_segments_put]
      refine (or_iff_right_of_imp ?_).symm
      rintro ⟨rfl, hsegment⟩
      exact not_not.mp fun hnot ↦ hnew ⟨hsegment, hnot⟩
    rw [totalBytes, totalBytes, hlisted]
    exact sum_map_le (size_put_self s target bytes).le (fun other hne ↦ size_put_other hne s bytes)
      (nodup_segments s)

/-- A part of the batch is written, and where it fits in whole the sweep leaves everything. -/
theorem ends_store {jsonLines : List JString} (target : JString)
    (hroom : totalBytes s + (joinLines jsonLines).getBytes.length ≤ s.spool.maxBytes) :
    Ends (store jsonLines target) s
      (fun _ t ↦ t.spool = s.spool ∧ (t.files = s.files ∨ ∃ front,
        front <+: (joinLines jsonLines).getBytes ∧ t.files = (s.put target front).files))
      fun _ t ↦ t.spool = s.spool ∧ (t.files = s.files ∨ ∃ front,
        front <+: (joinLines jsonLines).getBytes ∧ t.files = (s.put target front).files) := by
  refine ends_bind (ends_read (ends_bind ?_))
  refine ends_bind (ends_attempt (ends_bind (ends_read ?_)) ⟨rfl, .inl rfl⟩)
  split
  · exact ends_raise ⟨rfl, .inl rfl⟩
  refine ends_bind (ends_modify ?_)
  suffices h : ∀ front bytes, front ++ bytes = (joinLines jsonLines).getBytes →
      Ends (writeBytes target bytes) (s.put target front)
        (fun _ t ↦ t = s.put target (joinLines jsonLines).getBytes) fun _ t ↦
        ∃ front, front <+: (joinLines jsonLines).getBytes ∧ t = s.put target front by
    refine (h [] _ rfl).mono ?_ ?_
    · rintro ⟨⟩ t rfl
      refine ends_bind (ends_modify ((ends_enforce_ceiling ?_).mono ?_ ?_))
      · exact (total_put s target _).trans hroom
      · rintro ⟨⟩ u rfl
        exact ⟨rfl, .inr ⟨_, List.prefix_rfl, rfl⟩⟩
      · rintro _ u rfl
        exact ⟨rfl, .inr ⟨_, List.prefix_rfl, rfl⟩⟩
    · rintro _ t ⟨front, hfront, rfl⟩
      exact ⟨rfl, .inr ⟨front, hfront, rfl⟩⟩
  intro front bytes hbytes
  induction bytes generalizing front with
  | nil =>
      rw [List.append_nil] at hbytes
      exact ends_pure (by rw [hbytes])
  | cons byte bytes ih =>
      refine ends_bind (ends_attempt (ends_bind (ends_modify ?_)) ⟨front, ⟨_, hbytes⟩, rfl⟩)
      rw [Storage.put_put]
      exact ih (front ++ [byte]) (by rw [List.append_assoc]; exact hbytes)

end Spool

/-! ## Runs of appends -/

/-- A call of `append`: the batch, the clock at that time, and which file operations fail. -/
structure AppendCall where
  jsonLines : List JString
  now : Nat
  faults : List Bool

/-- The storage, the segments that are left in the order of their creation, and the clock. -/
structure Spooling where
  storage : Storage
  created : List JString
  clock : Nat

namespace Spooling

open Spool

/-- The storage as a call finds it. -/
def found (x : Spooling) (call : AppendCall) : Storage :=
  { x.storage with clock := [call.now] }

/-- The storage after a call. -/
def after (x : Spooling) (call : AppendCall) : Storage :=
  (append call.jsonLines (x.found call) call.faults).state

/-- The segments that are left, in the order of their creation. -/
def createdAfter (x : Spooling) (t : Storage) : List JString :=
  x.created.filter (· ∈ segments t) ++ (segments t).filter (· ∉ segments x.storage)

/-- The machine whose runs are the sequences of appends. It shows what it starts from. -/
def step (x : Spooling) (call : AppendCall) : Spooling × Spooling :=
  (x, ⟨x.after call, x.createdAfter (x.after call), call.now⟩)

/-- A new spool on a directory. -/
def start (maxBytes : Nat) (s : Storage) : Spooling :=
  ⟨{ s with spool := create maxBytes }, [], 0⟩

/-- The name of a new segment comes behind those that are there: it is as long, and where the
sequence number wraps there is no segment of the same millisecond. -/
def Follows (x : Spooling) (call : AppendCall) : Prop :=
  ∀ segment ∈ segments x.storage,
    segment.length = (segmentName call.now ((x.storage.spool.sequence + 1) % 10000)).length ∧
      (x.storage.spool.sequence + 1 = 10000 → ¬ clockPart call.now <+: segment)

/-- When the call chooses a segment, a number it takes keeps the order, and what follows is not
disturbed or has room for the batch. -/
structure Sound (x : Spooling) (call : AppendCall) : Prop where
  /-- The clock does not go back. -/
  clock : x.clock ≤ call.now
  /-- A new name comes last. -/
  order : x.storage.spool.disabled = false → call.jsonLines.isEmpty = false →
    ∀ target t rest, choose call.jsonLines (x.found call) call.faults = ⟨.ok target, t, rest⟩ →
      t.spool.sequence = x.storage.spool.sequence ∨ x.Follows call
  /-- No file operation fails from the write on, or the batch fits. -/
  ceiling : x.storage.spool.disabled = false → call.jsonLines.isEmpty = false →
    ∀ target t rest, choose call.jsonLines (x.found call) call.faults = ⟨.ok target, t, rest⟩ →
      rest = [] ∨ totalBytes x.storage + (joinLines call.jsonLines).getBytes.length ≤
        x.storage.spool.maxBytes

/-- What an append keeps. -/
structure Kept (x y : Spooling) : Prop where
  /-- What is listed, if anything is, are the segments in the order of their creation. -/
  ordered : ∀ faults listed, (pending y.storage faults).outcome = .ok listed →
    listed = [] ∨ listed = y.created
  /-- They are listed while nothing fails. -/
  listed : y.storage.spool.disabled = false → Runs pending y.storage y.created y.storage
  /-- The oldest segments are evicted, and at most one is new. -/
  evicted : ∃ new, new.length ≤ 1 ∧ y.created <:+ x.created ++ new
  /-- No segment is overwritten: the newest one may grow, and no other one changes. -/
  grown : ∀ segment ∈ x.created, segment ∈ y.created → ∀ bytes,
    x.storage.bytesOf segment = some bytes → ∃ more,
      y.storage.bytesOf segment = some (bytes ++ more) ∧
        (x.created.getLast? ≠ some segment → more = [])
  /-- The segments fit. -/
  ceiling : totalBytes y.storage ≤ y.storage.spool.maxBytes

/-- The listing is in the order of creation, and so are the numbers in the names. -/
structure Orderly (x : Spooling) : Prop where
  listed : segments x.storage = x.created
  named : ∀ segment ∈ x.created, ∃ millis sequence, segment = segmentName millis sequence ∧
    sequence < 10000 ∧ millis ≤ x.clock ∧
      (millis = x.clock → sequence ≤ x.storage.spool.sequence)
  number : x.storage.spool.sequence < 10000
  ceiling : totalBytes x.storage ≤ x.storage.spool.maxBytes

variable {x : Spooling} {call : AppendCall}

/-- A name that follows comes last. -/
theorem Orderly.lt_of_follows (hx : x.Orderly) (hclock : x.clock ≤ call.now)
    (h : x.Follows call) : ∀ segment ∈ segments x.storage,
      segment < segmentName call.now ((x.storage.spool.sequence + 1) % 10000) := by
  intro segment hmem
  obtain ⟨hlength, hwrap⟩ := h segment hmem
  rw [hx.listed] at hmem
  obtain ⟨millis, sequence, rfl, hsequence, hmillis, hnumber⟩ := hx.named segment hmem
  refine segment_name_lt hsequence (Nat.mod_lt _ (by decide)) hlength ?_
  rcases Nat.lt_or_ge millis call.now with hlt | hge
  · exact .inl hlt
  · have hnow : millis = call.now := by omega
    have hle := hnumber (by omega)
    have hbound := hx.number
    refine .inr ⟨hnow, ?_⟩
    by_cases hlast : x.storage.spool.sequence + 1 = 10000
    · exact absurd (hnow ▸ clock_part_prefix millis sequence) (hwrap hlast)
    · omega

/-- How an append can end: the files are as they were, or something was put to the newest segment
or to one with the next number, and the first segments may be gone. -/
structure Ended (x : Spooling) (call : AppendCall) (t : Storage) : Prop where
  maxBytes : t.spool.maxBytes = x.storage.spool.maxBytes
  number : t.spool.sequence = x.storage.spool.sequence ∨
    t.spool.sequence = (x.storage.spool.sequence + 1) % 10000 ∧ x.Follows call
  files : Swept x.storage t ∨ ∃ target front, Swept (x.storage.put target front) t ∧
    ((segments x.storage).getLast? = some target ∨
      target = segmentName call.now t.spool.sequence ∧
        ∀ segment ∈ segments x.storage, segment < target)
  ceiling : totalBytes t ≤ t.spool.maxBytes

/-- Giving up changes nothing but that. -/
theorem Ended.give_up {t u : Storage} (h : Ended x call t) (hfiles : u.files = t.files)
    (hmax : u.spool.maxBytes = t.spool.maxBytes) (hnumber : u.spool.sequence = t.spool.sequence) :
    Ended x call u := by
  refine ⟨hmax.trans h.maxBytes, by rw [hnumber]; exact h.number, ?_, ?_⟩
  · rw [hnumber]
    refine h.files.imp (fun hswept ↦ hswept.congr rfl hfiles) ?_
    rintro ⟨target, front, hswept, htarget⟩
    exact ⟨target, front, hswept.congr rfl hfiles, htarget⟩
  · rw [total_congr hfiles, hmax]
    exact h.ceiling

/-- How an append ends that has chosen its segment. -/
theorem Orderly.ended_of_chosen (hx : x.Orderly) (hsound : x.Sound call)
    (hdisabled : x.storage.spool.disabled = false) (hlines : call.jsonLines.isEmpty = false)
    {target : JString} {t : Storage} {rest : List Bool}
    (hchoose : choose call.jsonLines (x.found call) call.faults = ⟨.ok target, t, rest⟩) :
    Ended x call (handle (choose call.jsonLines >>= store call.jsonLines)
      (fun _ ↦ modify fun s ↦ { s.note (.forgone call.jsonLines) with spool.disabled := true })
      (x.found call) call.faults).state := by
  obtain ⟨hfiles, hdirectory, hchosen⟩ :=
    (ends_choose call.jsonLines (x.found call)).of_ok hchoose
  replace hfiles : t.files = x.storage.files := hfiles
  have hnumber : t.spool.sequence = x.storage.spool.sequence ∧
        (segments x.storage).getLast? = some target ∨
      t.spool.sequence = (x.storage.spool.sequence + 1) % 10000 ∧ x.Follows call ∧
        target = segmentName call.now t.spool.sequence := by
    rcases hchosen with ⟨hspool, hlast⟩ | ⟨hspool, htarget⟩
    · exact .inl ⟨congrArg Spool.sequence hspool, hlast⟩
    · have hnext : t.spool.sequence = (x.storage.spool.sequence + 1) % 10000 :=
        congrArg Spool.sequence hspool
      have hbound := hx.number
      have hfollows := (hsound.order hdisabled hlines target t rest hchoose).resolve_left (by omega)
      exact .inr ⟨hnext, hfollows, hnext ▸ htarget⟩
  have hmax : t.spool.maxBytes = x.storage.spool.maxBytes ∧ t.spool.disabled = false := by
    rcases hchosen with ⟨hspool, -⟩ | ⟨hspool, -⟩ <;> rw [hspool] <;> exact ⟨rfl, hdisabled⟩
  have htarget : (segments x.storage).getLast? = some target ∨
      target = segmentName call.now t.spool.sequence ∧
        ∀ segment ∈ segments x.storage, segment < target := by
    rcases hnumber with ⟨-, hlast⟩ | ⟨hnext, hfollows, rfl⟩
    · exact .inl hlast
    · refine .inr ⟨rfl, ?_⟩
      rw [hnext]
      exact hx.lt_of_follows hsound.clock hfollows
  replace hnumber : t.spool.sequence = x.storage.spool.sequence ∨
      t.spool.sequence = (x.storage.spool.sequence + 1) % 10000 ∧ x.Follows call :=
    hnumber.imp And.left fun h ↦ ⟨h.1, h.2.1⟩
  rcases hsound.ceiling hdisabled hlines target t rest hchoose with rfl | hroom
  · obtain ⟨u, hruns, hswept, hspool, htotal, -⟩ := runs_store call.jsonLines target hmax.2 hdirectory
    rw [handle_of_ok ((bind_of_ok hchoose).trans hruns)]
    refine ⟨?_, ?_, .inr ⟨target, _, hswept.congr (files_put_congr hfiles.symm _ _) rfl, ?_⟩, ?_⟩
    · rw [hspool]
      exact hmax.1
    · rw [hspool]
      exact hnumber
    · rw [hspool]
      exact htarget
    · rw [hspool]
      exact htotal
  · have hstore := ends_store (s := t) target (total_congr hfiles ▸ hmax.1 ▸ hroom)
    have hended : ∀ u : Storage, (u.spool = t.spool ∧ (u.files = t.files ∨ ∃ front,
        front <+: (joinLines call.jsonLines).getBytes ∧ u.files = (t.put target front).files)) →
        Ended x call u := by
      rintro u ⟨hspool, hput⟩
      refine ⟨?_, ?_, ?_, ?_⟩
      · rw [hspool]
        exact hmax.1
      · rw [hspool]
        exact hnumber
      · rcases hput with hput | ⟨front, -, hput⟩
        · exact .inl (swept_of_same (hput.trans hfiles))
        · refine .inr ⟨target, front, swept_of_same ?_, ?_⟩
          · exact hput.trans (files_put_congr hfiles _ _)
          · rw [hspool]
            exact htarget
      · rw [hspool, hmax.1]
        rcases hput with hput | ⟨front, hfront, hput⟩
        · rw [total_congr (hput.trans hfiles)]
          exact hx.ceiling
        · have hput := total_congr hput ▸ total_put t target front
          have hlength := hfront.length_le
          rw [total_congr hfiles] at hput
          omega
    rcases hend : store call.jsonLines target t rest with ⟨e | ⟨⟩, u, last⟩
    · rw [handle_of_error ((bind_of_ok hchoose).trans hend)]
      exact (hended u (hstore.of_error hend)).give_up rfl rfl rfl
    · rw [handle_of_ok ((bind_of_ok hchoose).trans hend)]
      exact hended u (hstore.of_ok hend)

/-- How a sound append ends. -/
theorem Orderly.ended (hx : x.Orderly) (hsound : x.Sound call) : Ended x call (x.after call) := by
  have hsame : ∀ t : Storage, t.files = x.storage.files → t.spool.maxBytes = x.storage.spool.maxBytes →
      t.spool.sequence = x.storage.spool.sequence → Ended x call t := fun t hfiles hmax hnumber ↦
    ⟨hmax, .inl hnumber, .inl (swept_of_same hfiles), by
      rw [total_congr hfiles, hmax]
      exact hx.ceiling⟩
  rw [after, append_eq]
  have hread : Prog.read (·.spool.disabled) (x.found call) call.faults =
      (⟨.ok x.storage.spool.disabled, x.found call, call.faults⟩ : Ending FileException _ _) := rfl
  rw [bind_of_ok hread]
  by_cases hclosed : (x.storage.spool.disabled || call.jsonLines.isEmpty) = true
  · rw [if_pos hclosed]
    exact hsame _ rfl rfl rfl
  rw [if_neg hclosed]
  obtain ⟨hdisabled, hlines⟩ := Bool.or_eq_false_iff.mp (Bool.eq_false_of_not_eq_true hclosed)
  rcases hchoose : choose call.jsonLines (x.found call) call.faults with ⟨e | target, t, rest⟩
  · obtain ⟨hfiles, hspool⟩ := (ends_choose call.jsonLines (x.found call)).of_error hchoose
    have hmax : t.spool.maxBytes = x.storage.spool.maxBytes := congrArg Spool.maxBytes hspool
    have hnumber : t.spool.sequence = x.storage.spool.sequence := congrArg Spool.sequence hspool
    rw [handle_of_error (bind_of_error hchoose)]
    exact hsame _ hfiles hmax hnumber
  exact hx.ended_of_chosen hsound hdisabled hlines hchoose

/-- What is listed after an append: what was listed, and perhaps the segment that was put to, but
for some of the first. -/
theorem Ended.listed {t : Storage} (h : Ended x call t) :
    ∃ new, new.length ≤ 1 ∧ segments t <:+ segments x.storage ++ new ∧
      ∀ segment ∈ new, segment ∉ segments x.storage ∧
        segment = segmentName call.now t.spool.sequence ∧
          ∀ other ∈ segments x.storage, other < segment := by
  rcases h.files with hswept | ⟨target, front, hswept, htarget⟩
  · obtain ⟨count, hcount⟩ := hswept.listed
    refine ⟨[], Nat.zero_le _, ?_, fun segment hmem ↦ nomatch hmem⟩
    rw [List.append_nil, hcount]
    exact List.drop_suffix _ _
  obtain ⟨count, hcount⟩ := hswept.listed
  rcases htarget with hlast | ⟨hname, hlast⟩
  · refine ⟨[], Nat.zero_le _, ?_, fun segment hmem ↦ nomatch hmem⟩
    rw [List.append_nil, hcount, segments_put_of_mem (List.mem_of_getLast? hlast)]
    exact List.drop_suffix _ _
  · refine ⟨[target], le_rfl, ?_, ?_⟩
    · rw [hcount, segments_put_of_last (hname ▸ is_segment_name _ _) hlast]
      exact List.drop_suffix _ _
    · intro segment hmem
      rw [List.mem_singleton.mp hmem]
      exact ⟨fun hold ↦ List.lt_irrefl _ (hlast target hold), hname, hlast⟩

/-- The order of creation is that of the listing. -/
theorem Orderly.created_after (hx : x.Orderly) {t : Storage} (h : Ended x call t) :
    x.createdAfter t = segments t := by
  obtain ⟨new, -, hsuffix, hnew⟩ := h.listed
  refine (segments_eq ?_ fun path ↦ ?_).symm
  · refine List.pairwise_append.mpr ⟨?_, (pairwise_segments t).filter _, ?_⟩
    · rw [← hx.listed]
      exact (pairwise_segments x.storage).filter _
    · intro old hold other hother
      rw [List.mem_filter, ← hx.listed] at hold
      rw [List.mem_filter, decide_eq_true_eq] at hother
      have hmem := (List.mem_append.mp (hsuffix.subset hother.1)).resolve_left hother.2
      exact (hnew other hmem).2.2 old hold.1
  · rw [createdAfter, ← hx.listed, List.mem_append, List.mem_filter, List.mem_filter,
      decide_eq_true_eq, decide_eq_true_eq, ← mem_segments_iff]
    tauto

/-- Every segment that stays has kept what it held, and only the newest one may have more. -/
theorem Ended.grown {t : Storage} (h : Ended x call t) {segment : JString}
    (hold : segment ∈ segments x.storage) (hmem : segment ∈ segments t) {bytes : Bytes}
    (hbytes : x.storage.bytesOf segment = some bytes) :
    ∃ more, t.bytesOf segment = some (bytes ++ more) ∧
      ((segments x.storage).getLast? ≠ some segment → more = []) := by
  rcases h.files with hswept | ⟨target, front, hswept, htarget⟩
  · refine ⟨[], ?_, fun _ ↦ rfl⟩
    rw [hswept.kept segment hmem, hbytes, List.append_nil]
  by_cases heq : segment = target
  · subst heq
    refine ⟨front, ?_, fun hne ↦ ?_⟩
    · rw [hswept.kept segment hmem, Storage.bytes_of_put_self, hbytes]
      rfl
    · rcases htarget with hlast | ⟨-, hlast⟩
      · exact absurd hlast hne
      · exact absurd (hlast segment hold) (List.lt_irrefl _)
  · refine ⟨[], ?_, fun _ ↦ rfl⟩
    rw [hswept.kept segment hmem, Storage.bytes_of_put_other heq, hbytes, List.append_nil]

/-- A sound append keeps the order and the ceiling. -/
theorem Orderly.step (hx : x.Orderly) (hsound : x.Sound call) :
    (step x call).2.Orderly ∧ Kept x (step x call).2 := by
  have hended := hx.ended hsound
  have hcreated : (Spooling.step x call).2.created = segments (x.after call) :=
    hx.created_after hended
  obtain ⟨new, hnew, hsuffix, hnames⟩ := hended.listed
  have hclock := hsound.clock
  refine ⟨⟨hcreated.symm, ?_, ?_, hended.ceiling⟩, ⟨?_, ?_, ⟨new, hnew, ?_⟩, ?_, hended.ceiling⟩⟩
  · intro segment hmem
    rw [hcreated] at hmem
    show ∃ millis sequence, segment = segmentName millis sequence ∧ sequence < 10000 ∧
      millis ≤ call.now ∧ (millis = call.now → sequence ≤ (x.after call).spool.sequence)
    have hbound := hx.number
    rcases List.mem_append.mp (hsuffix.subset hmem) with hold | hnew
    · rw [hx.listed] at hold
      obtain ⟨millis, sequence, rfl, hsequence, hmillis, hnumber⟩ := hx.named segment hold
      refine ⟨millis, sequence, rfl, hsequence, hmillis.trans hclock, fun hnow ↦ ?_⟩
      have hle := hnumber (by omega)
      rcases hended.number with hsame | ⟨hnext, hfollows⟩
      · omega
      · have hwrap : x.storage.spool.sequence + 1 ≠ 10000 := by
          intro hlast
          rw [← hx.listed] at hold
          exact (hfollows _ hold).2 hlast (hnow ▸ clock_part_prefix millis sequence)
        omega
    · obtain ⟨-, hname, -⟩ := hnames segment hnew
      refine ⟨call.now, (x.after call).spool.sequence, hname, ?_, le_rfl, fun _ ↦ le_rfl⟩
      rcases hended.number with hsame | ⟨hnext, -⟩ <;> omega
  · have hbound := hx.number
    show (x.after call).spool.sequence < 10000
    rcases hended.number with hsame | ⟨hnext, -⟩ <;> omega
  · intro faults listed hlisted
    rw [hcreated]
    exact (((ends_pending (x.after call)) faults).1 listed hlisted).2.imp_right And.right
  · intro hdisabled
    rw [hcreated]
    show Runs pending (x.after call) (segments (x.after call)) (x.after call)
    cases hdirectory : (x.after call).directory.isNone with
    | false => exact runs_pending hdisabled hdirectory
    | true =>
        have hnone : segments (x.after call) = [] := by
          refine List.eq_nil_iff_forall_not_mem.mpr fun segment hmem ↦ ?_
          exact Bool.false_ne_true ((is_none_of_mem hmem).symm.trans hdirectory)
        rw [hnone]
        refine runs_bind (runs_read _ _) ?_
        rw [hdirectory, Bool.or_true]
        rfl
  · rw [hcreated, ← hx.listed]
    exact hsuffix
  · intro segment hold hmem bytes hbytes
    rw [hcreated] at hmem
    rw [← hx.listed] at hold ⊢
    exact hended.grown hold hmem hbytes

instance (x : Spooling) (call : AppendCall) : Decidable (x.Follows call) :=
  List.decidableBAll _ _

/-- A call is sound when a new name would come last and no failure is left for the write. -/
theorem sound_of_follows (hclock : x.clock ≤ call.now) (hfollows : x.Follows call)
    (hfaults : (choose call.jsonLines (x.found call) call.faults).faults = []) : x.Sound call := by
  refine ⟨hclock, fun _ _ _ _ _ _ ↦ .inr hfollows, fun _ _ _ _ _ hchoose ↦ .inl ?_⟩
  rw [hchoose] at hfaults
  exact hfaults

/-- Undisturbed, a call for which no segment has room chooses the next number. -/
theorem runs_choose_new (hdisabled : x.storage.spool.disabled = false)
    (hfull : ∀ newest, (segments x.storage).getLast? = some newest →
      SEGMENT_BYTES < segmentBytes x.storage newest + (joinLines call.jsonLines).getBytes.length) :
    ∃ t, Runs (choose call.jsonLines) (x.found call)
        (segmentName call.now ((x.storage.spool.sequence + 1) % 10000)) t ∧
      t.files = x.storage.files ∧ t.directory.isNone = false ∧
      t.spool = { x.storage.spool with sequence := (x.storage.spool.sequence + 1) % 10000 } := by
  let made : Storage := { x.found call with directory := some x.storage.files }
  have hmade : Runs createDirectories (x.found call) .unit made := runs_bind (runs_attempt _ _) rfl
  have hlisted : Runs pending made (segments x.storage) made := runs_pending hdisabled rfl
  let numbered : Storage := { made with
    clock := []
    spool.sequence := (x.storage.spool.sequence + 1) % 10000 }
  have hnew : Runs newSegment made
      (segmentName call.now ((x.storage.spool.sequence + 1) % 10000)) numbered := rfl
  refine ⟨numbered, runs_bind hmade (runs_bind hlisted ?_), rfl, rfl, rfl⟩
  cases hlast : (segments x.storage).getLast? with
  | none => exact hnew
  | some newest =>
      have hmem : newest ∈ segments x.storage := List.mem_of_getLast? hlast
      have hsize : Runs (fileSize newest) made (segmentBytes x.storage newest) made := by
        obtain ⟨bytes, hbytes⟩ := exists_bytes_of_mem hmem
        refine runs_bind (runs_attempt _ _) (runs_bind (runs_read _ _) ?_)
        rw [segmentBytes, hbytes, show made.bytesOf newest = some bytes from hbytes]
        rfl
      refine runs_bind hsize ?_
      rw [if_neg (Nat.not_le.mpr (hfull newest hlast))]
      exact hnew

/-- What such a call leaves. -/
theorem after_of_full (call : AppendCall) (hdisabled : x.storage.spool.disabled = false)
    (hlines : call.jsonLines.isEmpty = false) (hfaults : call.faults = [])
    (hfull : ∀ newest, (segments x.storage).getLast? = some newest →
      SEGMENT_BYTES < segmentBytes x.storage newest + (joinLines call.jsonLines).getBytes.length)
    {written : Storage}
    (hwritten : written = x.storage.put
      (segmentName call.now ((x.storage.spool.sequence + 1) % 10000))
      (joinLines call.jsonLines).getBytes) :
    Swept written (x.after call) ∧
      (x.after call).spool = { x.storage.spool with
        sequence := (x.storage.spool.sequence + 1) % 10000
        droppedEvents := (x.after call).spool.droppedEvents } ∧
      totalBytes (x.after call) ≤ x.storage.spool.maxBytes ∧
      (totalBytes written ≤ x.storage.spool.maxBytes → (x.after call).files = written.files) := by
  obtain ⟨t, hchoose, hfiles, hdirectory, hspool⟩ := runs_choose_new hdisabled hfull
  have hopen : t.spool.disabled = false := by
    rw [hspool]
    exact hdisabled
  obtain ⟨u, hstore, hswept, hsame, htotal, hfits⟩ := runs_store call.jsonLines _ hopen hdirectory
  have hafter : x.after call = u := by
    have hread : Prog.read (·.spool.disabled) (x.found call) [] =
        (⟨.ok x.storage.spool.disabled, x.found call, []⟩ : Ending FileException _ _) := rfl
    rw [after, append_eq, hfaults, bind_of_ok hread, hdisabled, hlines, Bool.or_false,
      if_neg Bool.false_ne_true, handle_of_ok ((bind_of_ok hchoose).trans hstore)]
  have hput := files_put_congr hfiles
    (segmentName call.now ((x.storage.spool.sequence + 1) % 10000))
    (joinLines call.jsonLines).getBytes
  rw [← hwritten] at hput
  have hmax : t.spool.maxBytes = x.storage.spool.maxBytes := by rw [hspool]
  rw [hafter]
  refine ⟨hswept.congr hput.symm rfl, ?_, hmax ▸ htotal, fun hle ↦ ?_⟩
  · rw [hsame, hspool]
  · rw [← hput]
    exact hfits (by rw [total_congr hput, hmax]; exact hle)

/-- A batch of one line of so many letters. -/
def letters (count : Nat) : List JString :=
  [List.replicate count (jchar 'x')]

/-- It has that many bytes and a line feed. -/
theorem length_letters (count : Nat) : (joinLines (letters count)).getBytes.length = count + 1 := by
  have hcharacters : JString.characters (List.replicate count (jchar 'x')) =
      List.replicate count 'x' := by
    induction count with
    | zero => rfl
    | succ count ih =>
        rw [List.replicate_succ, characters_cons (by decide), ih]
        rfl
  have hbytes : ∀ count, (utf8 (List.replicate count 'x')).length = count := by
    intro count
    induction count with
    | zero => rfl
    | succ count ih =>
        rw [List.replicate_succ, utf8, List.flatMap_cons, List.length_append]
        exact (congrArg (1 + ·) ih).trans (Nat.add_comm 1 count)
  rw [JString.getBytes, characters_join_lines, letters, List.flatMap_singleton, hcharacters,
    utf8_append, List.length_append, hbytes]
  rfl

/-- A batch larger than the ceiling at the start of the epoch. -/
def oversized : AppendCall :=
  ⟨letters (4 * SEGMENT_BYTES), 0, []⟩

/-- So many numbers were drawn for segments that are gone. -/
structure Burnt (count : Nat) (x : Spooling) : Prop where
  listed : segments x.storage = []
  created : x.created = []
  clock : x.clock = 0
  disabled : x.storage.spool.disabled = false
  maxBytes : x.storage.spool.maxBytes = 4 * SEGMENT_BYTES
  sequence : x.storage.spool.sequence = count

/-- A batch larger than the ceiling is evicted at once, and has drawn a number. -/
theorem Burnt.next {count : Nat} (h : Burnt count x) (hcount : count + 1 < 10000) :
    Burnt (count + 1) (step x oversized).2 := by
  obtain ⟨hswept, hspool, htotal, -⟩ := after_of_full oversized h.disabled rfl rfl
    (fun newest hlast ↦ by rw [h.listed] at hlast; cases hlast) rfl
  have hnext : (x.storage.spool.sequence + 1) % 10000 = count + 1 := by
    rw [h.sequence, Nat.mod_eq_of_lt hcount]
  have hput := segments_put_of_last (s := x.storage) (is_segment_name 0 (count + 1))
    (fun segment hmem ↦ by rw [h.listed] at hmem; cases hmem)
    (joinLines oversized.jsonLines).getBytes
  rw [h.listed, List.nil_append] at hput
  have hgone : segments (x.after oversized) = [] := by
    obtain ⟨kept, hkept⟩ := hswept.listed
    rw [hnext] at hkept hswept
    replace hkept := hkept.trans (congrArg (List.drop kept) hput)
    cases kept with
    | succ kept => rw [hkept, List.drop_succ_cons, List.drop_nil]
    | zero =>
        rw [List.drop_zero] at hkept
        have hmem : segmentName 0 (count + 1) ∈ segments (x.after oversized) := by
          rw [hkept]
          exact List.mem_singleton_self _
        have hsize : segmentBytes (x.after oversized) (segmentName 0 (count + 1)) =
            segmentBytes x.storage (segmentName 0 (count + 1)) + (4 * SEGMENT_BYTES + 1) := by
          rw [← length_letters (4 * SEGMENT_BYTES)]
          refine Eq.trans ?_ (size_put_self x.storage _ (joinLines oversized.jsonLines).getBytes)
          rw [segmentBytes, hswept.kept _ hmem]
          rfl
        rw [totalBytes, hkept, List.map_singleton, List.sum_singleton, hsize, h.maxBytes] at htotal
        omega
  refine ⟨hgone, ?_, rfl, ?_, ?_, ?_⟩
  · show x.createdAfter (x.after oversized) = []
    rw [createdAfter, hgone, h.created]
    rfl
  · show (x.after oversized).spool.disabled = false
    rw [hspool]
    exact h.disabled
  · show (x.after oversized).spool.maxBytes = _
    rw [hspool]
    exact h.maxBytes
  · show (x.after oversized).spool.sequence = _
    rw [hspool]
    exact hnext

/-- So many batches are evicted one after another. -/
theorem Burnt.run {count drawn : Nat} (h : Burnt drawn x) (hcount : drawn + count < 10000) :
    Burnt (drawn + count) (Machine.final step x (List.replicate count oversized)) ∧
      Machine.Meets step (fun x call ↦ x.clock ≤ call.now) x (List.replicate count oversized) := by
  induction count generalizing x drawn with
  | zero => exact ⟨h, trivial⟩
  | succ count ih =>
      obtain ⟨hburnt, hmeets⟩ := ih (h.next (by omega)) (by omega)
      rw [Nat.add_right_comm] at hburnt
      exact ⟨hburnt, h.clock.le, hmeets⟩

/-- The calls of a spool whose sequence number wraps within a millisecond. -/
def wrapping : List AppendCall :=
  List.replicate 9998 oversized ++ [⟨letters 1, 1, []⟩, ⟨letters SEGMENT_BYTES, 1, []⟩]

/-- The one segment of a spool that drew 9,999 numbers. -/
theorem Burnt.last (h : Burnt 9998 x) {y : Spooling} (hy : y = (step x ⟨letters 1, 1, []⟩).2) :
    segments y.storage = [segmentName 1 9999] ∧ y.created = [segmentName 1 9999] ∧
      y.storage.spool.disabled = false ∧ y.storage.spool.maxBytes = 4 * SEGMENT_BYTES ∧
      y.storage.spool.sequence = 9999 ∧ totalBytes y.storage ≤ 2 := by
  obtain ⟨-, hspool, -, hfits⟩ := after_of_full ⟨letters 1, 1, []⟩ h.disabled rfl rfl
    (fun newest hlast ↦ by rw [h.listed] at hlast; cases hlast) rfl
  have hnumber : (x.storage.spool.sequence + 1) % 10000 = 9999 := by rw [h.sequence]
  rw [hnumber] at hspool hfits
  have hempty : totalBytes x.storage = 0 := by
    rw [totalBytes, h.listed]
    rfl
  have htotal := total_put x.storage (segmentName 1 9999) (joinLines (letters 1)).getBytes
  rw [hempty, length_letters] at htotal
  have hfiles := hfits (htotal.trans (by rw [h.maxBytes]; decide))
  have hlisted : segments (x.after ⟨letters 1, 1, []⟩) = [segmentName 1 9999] := by
    have hput := segments_put_of_last (s := x.storage) (is_segment_name 1 9999)
      (fun segment hmem ↦ by rw [h.listed] at hmem; cases hmem) (joinLines (letters 1)).getBytes
    rw [h.listed] at hput
    exact (segments_congr hfiles).trans hput
  subst hy
  refine ⟨hlisted, ?_, ?_, ?_, ?_, ?_⟩
  · show x.createdAfter (x.after _) = _
    rw [createdAfter, hlisted, h.created, h.listed]
    rfl
  · show (x.after _).spool.disabled = false
    rw [hspool]
    exact h.disabled
  · show (x.after _).spool.maxBytes = _
    rw [hspool]
    exact h.maxBytes
  · show (x.after _).spool.sequence = _
    rw [hspool]
  · show totalBytes (x.after _) ≤ 2
    rw [total_congr hfiles]
    exact htotal

/-- The segment with the next number after 9,999 is listed before the one with that number. -/
theorem Burnt.wrap (h : Burnt 9998 x) {y z : Spooling} (hy : (step x ⟨letters 1, 1, []⟩).2 = y)
    (hz : (step y ⟨letters SEGMENT_BYTES, 1, []⟩).2 = z) :
    z.storage.spool.disabled = false ∧ z.created = [segmentName 1 9999, segmentName 1 0] ∧
      Runs pending z.storage [segmentName 1 0, segmentName 1 9999] z.storage := by
  obtain ⟨hlisted, hcreated, hdisabled, hmax, hsequence, htotal⟩ := h.last hy.symm
  obtain ⟨-, hspool, -, hfits⟩ := after_of_full (x := y) ⟨letters SEGMENT_BYTES, 1, []⟩
    hdisabled rfl rfl (fun newest _ ↦ by rw [length_letters]; omega) rfl
  have hnumber : (y.storage.spool.sequence + 1) % 10000 = 0 := by rw [hsequence]
  rw [hnumber] at hspool hfits
  have hput := total_put y.storage (segmentName 1 0) (joinLines (letters SEGMENT_BYTES)).getBytes
  rw [length_letters] at hput
  have hfiles := hfits (hput.trans (by
    rw [hmax]
    have : SEGMENT_BYTES = 1048576 := rfl
    omega))
  have hnow : segments (y.after ⟨letters SEGMENT_BYTES, 1, []⟩) =
      [segmentName 1 0, segmentName 1 9999] := by
    refine (segments_congr hfiles).trans (segments_eq ?_ fun path ↦ ?_)
    · refine List.pairwise_pair.mpr (segment_name_lt (by decide) (by decide) ?_ (.inr ⟨rfl, ?_⟩))
      · decide +kernel
      · decide
    · have himp : path = segmentName 1 0 → isSegment path = true := by
        rintro rfl
        exact is_segment_name _ _
      rw [← mem_segments_iff, mem_segments_put, hlisted, List.mem_cons, and_iff_left_of_imp himp]
  have hopen : (y.after ⟨letters SEGMENT_BYTES, 1, []⟩).spool.disabled = false := by
    rw [hspool]
    exact hdisabled
  subst hz
  refine ⟨hopen, ?_, ?_⟩
  · show y.createdAfter (y.after _) = _
    rw [createdAfter, hnow, hcreated, hlisted]
    decide +kernel
  · show Runs pending (y.after _) _ (y.after _)
    rw [← hnow]
    have hmem : segmentName 1 0 ∈ segments (y.after ⟨letters SEGMENT_BYTES, 1, []⟩) := by
      rw [hnow]
      exact List.mem_cons_self
    exact runs_pending hopen (is_none_of_mem hmem)

end Spooling

end Aegis.Agent
