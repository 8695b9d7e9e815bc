import Mathlib.Data.List.Infix
import Aegis.Server.Decimal
import Aegis.Stream.FileTail

/-!
# At least once and in order

What a worker that tails a growing file hands out, over every run: one segment of the records of
the file after another, each of which begins where the last commit left off. The records are those
of the complete lines that are not blank.
-/

namespace Aegis.Stream

open Server Utf8

/-! ## The records of a file -/

/-- The complete lines of what follows `line`, the line read so far. -/
def linesFrom (line : PyBytes) : PyBytes → List PyBytes
  | [] => []
  | b :: rest => if b = 10 then line :: linesFrom [] rest else linesFrom (line ++ [b]) rest

/-- The record of a line, which a blank line has not. -/
def recordOf (line : PyBytes) : Option PyStr :=
  if line.strip.isEmpty then none else some (decodeReplace line.strip)

/-- The records of the complete lines. -/
def recordsOf (content : PyBytes) : List PyStr :=
  (linesFrom [] content).filterMap recordOf

/-- Nothing but complete lines. -/
def Complete (content : PyBytes) : Prop :=
  content = [] ∨ ∃ before, content = before ++ [10]

theorem Complete.append {a b : PyBytes} (ha : Complete a) (hb : Complete b) : Complete (a ++ b) := by
  obtain rfl | ⟨before, rfl⟩ := hb
  · rwa [List.append_nil]
  · exact .inr ⟨a ++ before, (List.append_assoc _ _ _).symm⟩

theorem lines_from_append_newline (line a b : PyBytes) :
    linesFrom line (a ++ 10 :: b) = linesFrom line (a ++ [10]) ++ linesFrom [] b := by
  induction a generalizing line with
  | nil => simp [linesFrom]
  | cons c a ih =>
      rw [List.cons_append, List.cons_append, linesFrom, linesFrom]
      split
      · rw [ih, List.cons_append]
      · rw [ih]

/-- After complete lines, lines begin anew. -/
theorem records_of_append {a : PyBytes} (h : Complete a) (b : PyBytes) :
    recordsOf (a ++ b) = recordsOf a ++ recordsOf b := by
  obtain rfl | ⟨before, rfl⟩ := h
  · rfl
  · have hlines := lines_from_append_newline [] before b
    rw [recordsOf, List.append_assoc, List.singleton_append, hlines, List.filterMap_append]
    rfl

/-- What is appended leaves the records there are. -/
theorem records_of_grown (a b : PyBytes) : recordsOf a <+: recordsOf (a ++ b) := by
  have hlines : ∀ line, linesFrom line a <+: linesFrom line (a ++ b) := by
    induction a with
    | nil => exact fun line ↦ List.nil_prefix
    | cons c a ih =>
        intro line
        rw [List.cons_append, linesFrom, linesFrom]
        split
        · exact List.prefix_cons_inj _ |>.mpr (ih [])
        · exact ih _
  exact (hlines []).filterMap _

/-- Stripping takes the end of a line away. -/
theorem strip_append_newline (line : PyBytes) : PyBytes.strip (line ++ [10]) = line.strip := by
  show ((line ++ [10]).dropWhile PyBytes.isSpace).rdropWhile PyBytes.isSpace =
    (line.dropWhile PyBytes.isSpace).rdropWhile PyBytes.isSpace
  rw [List.dropWhile_append]
  split
  · rename_i hblank
    rw [List.isEmpty_iff.mp hblank]
    rfl
  · exact List.rdropWhile_concat_pos _ _ _ (by decide)

/-- A line that is read is one complete line. -/
theorem readline_eq_some {rest line after : PyBytes} (h : readline rest = some (line, after)) :
    rest = line ++ after ∧ Complete line ∧
      recordsOf line = if line.strip.isEmpty then [] else [decodeReplace line.strip] := by
  unfold readline at h
  split at h
  swap
  · cases h
  rename_i hmem
  obtain ⟨rfl, rfl⟩ := Prod.mk.inj (Option.some.inj h)
  have hsplit := List.takeWhile_append_dropWhile (p := (· != (10 : UInt8))) (l := rest)
  generalize hline : rest.takeWhile (· != 10) = line at *
  have hclean : ∀ b ∈ line, b ≠ 10 := by
    intro b hb
    rw [← hline] at hb
    simpa using List.mem_takeWhile_imp hb
  cases hafter : rest.dropWhile (· != (10 : UInt8)) with
  | nil =>
      rw [hafter, List.append_nil] at hsplit
      exact absurd rfl (hclean 10 (hsplit ▸ hmem))
  | cons c after =>
      have hhead := List.head?_dropWhile_not (· != (10 : UInt8)) rest
      rw [hafter] at hhead
      obtain rfl : c = 10 := by simpa using hhead
      refine ⟨?_, .inr ⟨line, rfl⟩, ?_⟩
      · rw [← hsplit, hafter]
        simp
      · have hlines : ∀ start : PyBytes, linesFrom start (line ++ [10]) = [start ++ line] := by
          clear hline hsplit h
          induction line with
          | nil => simp [linesFrom]
          | cons b line ih =>
              intro start
              obtain ⟨hb, hrest⟩ := List.forall_mem_cons.mp hclean
              rw [List.cons_append, linesFrom, if_neg hb, ih hrest, List.append_assoc]
              rfl
        rw [recordsOf, hlines, strip_append_newline, List.nil_append]
        show [line].filterMap recordOf = _
        rw [List.filterMap_cons, recordOf]
        split <;> simp_all

/-- Without the end of a line there is no record. -/
theorem records_of_readline_eq_none {rest : PyBytes} (h : readline rest = none) :
    recordsOf rest = [] := by
  have hclean : ∀ b ∈ rest, b ≠ 10 := by
    unfold readline at h
    split at h
    · cases h
    · rename_i hmem
      exact fun b hb heq ↦ hmem (heq ▸ hb)
  have hlines : ∀ line, linesFrom line rest = [] := by
    clear h
    induction rest with
    | nil => exact fun _ ↦ rfl
    | cons b rest ih =>
        intro line
        obtain ⟨hb, hrest⟩ := List.forall_mem_cons.mp hclean
        rw [linesFrom, if_neg hb, ih hrest]
  rw [recordsOf, hlines]
  rfl

/-! ## A batch -/

/-- A batch is what complete lines that follow the offset have of records. It is full, or has all
records that were there when the poll began. -/
theorem read_batch_spec (batchSize : Nat) (appends : List PyBytes) (rest : PyBytes) (offset : Nat)
    (records : List PyStr) (h : records.length ≤ batchSize) :
    ∃ more left, rest ++ appends.flatten = more ++ left ∧ Complete more ∧
      readBatch batchSize appends rest offset records =
        (records ++ recordsOf more, offset + more.length) ∧
      (records ++ recordsOf more).length ≤ batchSize ∧
      ((records ++ recordsOf more).length < batchSize → recordsOf rest <+: recordsOf more) := by
  have hflatten : appends.flatten = appends.headD [] ++ appends.tail.flatten := by
    cases appends <;> rfl
  fun_induction readBatch batchSize appends rest offset records with
  | case1 appends rest offset records hroom line after hline ih =>
      obtain ⟨hsplit, hcomplete, hrecords⟩ := readline_eq_some hline
      have hbatch : (if line.strip.isEmpty then records else records ++ [decodeReplace line.strip]) =
          records ++ recordsOf line := by
        rw [hrecords]
        split
        · exact (List.append_nil _).symm
        · rfl
      rw [dite_eq_ite, hbatch] at ih
      rw [hbatch]
      have hlength : (records ++ recordsOf line).length ≤ batchSize := by
        rw [List.length_append, hrecords]
        split <;> simp <;> omega
      have htail : appends.tail.flatten =
          appends.tail.headD [] ++ appends.tail.tail.flatten := by
        cases appends.tail <;> rfl
      obtain ⟨more, left, hmore, hmoreComplete, hresult, hsize, hfull⟩ := ih hlength htail
      refine ⟨line ++ more, left, ?_, hcomplete.append hmoreComplete, ?_, ?_, ?_⟩
      · rw [hflatten, ← List.append_assoc, hsplit, List.append_assoc, hmore, List.append_assoc]
      · rw [hresult, records_of_append hcomplete, List.append_assoc, List.length_append,
          Nat.add_assoc]
      · rwa [records_of_append hcomplete, ← List.append_assoc]
      · intro hlt
        rw [records_of_append hcomplete, ← List.append_assoc] at hlt
        have hleads := records_of_grown rest (appends.headD [])
        rw [hsplit, records_of_append hcomplete] at hleads
        rw [records_of_append hcomplete]
        exact hleads.trans ((List.prefix_append_right_inj _).mpr (hfull hlt))
  | case2 appends rest offset records hroom hline =>
      refine ⟨[], rest ++ appends.flatten, rfl, .inl rfl, ?_, ?_, fun _ ↦ ?_⟩
      · exact congrArg (·, offset) (List.append_nil _).symm
      · rwa [show recordsOf [] = [] from rfl, List.append_nil]
      · have hleads := records_of_grown rest (appends.headD [])
        rwa [records_of_readline_eq_none hline] at hleads
  | case3 appends rest offset records hroom =>
      refine ⟨[], rest ++ appends.flatten, rfl, .inl rfl, ?_, ?_, fun hlt ↦ ?_⟩
      · exact congrArg (·, offset) (List.append_nil _).symm
      · rwa [show recordsOf [] = [] from rfl, List.append_nil]
      · rw [show recordsOf [] = [] from rfl, List.append_nil] at hlt
        exact absurd hlt hroom

/-! ## What is committed -/

/-- A cursor is read back. `hparse` is what `int` makes of what `str` writes. -/
theorem read_advance {lib : Library}
    (hparse : ∀ n : Nat, lib.parseInt (PyStr.decimal n) = some (n : Int)) (offset : Nat) :
    FileCursor.read lib (some (FileCursor.advance offset)) = offset := by
  rw [FileCursor.read, FileCursor.advance, strip_decimal,
    if_neg (by simpa using decimal_ne_nil offset), hparse]
  rfl

namespace Tail

variable (lib : Library) (batchSize : Nat)

/-- The offset that is committed. -/
def committed (s : Tail) : Nat :=
  FileCursor.read lib s.cursor

/-- How many records of the file are committed. -/
def position (s : Tail) : Nat :=
  (recordsOf (s.content.take (s.committed lib))).length

/-- What follows what is committed. -/
def rest (s : Tail) : PyBytes :=
  s.content.drop (s.committed lib)

/-- A batch that was handed out: the records of complete lines that follow what is committed. -/
structure Batch (s : Tail) (offset : Nat) (records : List PyStr) : Prop where
  segment : ∃ more left, s.rest lib = more ++ left ∧ Complete more ∧
    offset = s.committed lib + more.length ∧ records = recordsOf more
  some : records ≠ []
  size : records.length ≤ batchSize

/-- Complete lines are committed, a process has begun from there, and what it has handed out
follows. -/
structure Consistent (s : Tail) : Prop where
  within : s.committed lib ≤ s.content.length
  complete : Complete (s.content.take (s.committed lib))
  source : ∀ source, s.source = some source → source.committedOffset = s.committed lib
  pending : ∀ source offset records, s.source = some source →
    source.pending = some (offset, records) → Batch lib batchSize s offset records

variable {lib batchSize} {s s' : Tail}

/-- The records that are not committed. -/
theorem drop_position (h : Consistent lib batchSize s) :
    (recordsOf s.content).drop (s.position lib) = recordsOf (s.rest lib) := by
  have hsplit := records_of_append h.complete (s.rest lib)
  rw [rest, List.take_append_drop] at hsplit
  rw [hsplit, position, List.drop_left]
  rfl

/-- The writer appends, and everything else is as it was. -/
structure Grows (s s' : Tail) : Prop where
  content : ∃ data, s'.content = s.content ++ data
  cursor : s'.cursor = s.cursor

theorem Grows.committed (h : Grows s s') : s'.committed lib = s.committed lib := by
  rw [Tail.committed, h.cursor]
  rfl

theorem Grows.take (h : Grows s s') (hs : Consistent lib batchSize s) :
    s'.content.take (s'.committed lib) = s.content.take (s.committed lib) := by
  obtain ⟨data, hdata⟩ := h.content
  rw [h.committed, hdata, List.take_append_of_le_length hs.within]

theorem Grows.position (h : Grows s s') (hs : Consistent lib batchSize s) :
    s'.position lib = s.position lib := by
  rw [Tail.position, h.take hs]
  rfl

theorem Grows.rest (h : Grows s s') (hs : Consistent lib batchSize s) :
    ∃ data, s'.rest lib = s.rest lib ++ data := by
  obtain ⟨data, hdata⟩ := h.content
  refine ⟨data, ?_⟩
  rw [Tail.rest, h.committed, hdata, List.drop_append_of_le_length hs.within]
  rfl

/-- A batch is one of the larger file too. -/
theorem Batch.of_grows {offset : Nat} {records : List PyStr}
    (h : Batch lib batchSize s offset records) (hs : Consistent lib batchSize s)
    (hgrows : Grows s s') : Batch lib batchSize s' offset records := by
  obtain ⟨more, left, hmore, hcomplete, hoffset, hrecords⟩ := h.segment
  obtain ⟨data, hdata⟩ := hgrows.rest hs
  refine ⟨⟨more, left ++ data, ?_, hcomplete, ?_, hrecords⟩, h.some, h.size⟩
  · rw [hdata, hmore, List.append_assoc]
  · rw [hgrows.committed, hoffset]

/-- A larger file, with a source as it was or a new one, is as consistent. -/
theorem Consistent.of_grows (hs : Consistent lib batchSize s) (hgrows : Grows s s')
    (hsource : ∀ source, s'.source = some source → source.committedOffset = s.committed lib ∧
      ∀ offset records, source.pending = some (offset, records) →
        Batch lib batchSize s' offset records) : Consistent lib batchSize s' where
  within := by
    obtain ⟨data, hdata⟩ := hgrows.content
    rw [hgrows.committed, hdata, List.length_append]
    exact hs.within.trans (Nat.le_add_right _ _)
  complete := by
    rw [hgrows.take hs]
    exact hs.complete
  source := fun source h ↦ by
    rw [hgrows.committed]
    exact (hsource source h).1
  pending := fun source offset records h ↦ (hsource source h).2 offset records

/-! ## Steps -/

theorem content_grown (s : Tail) (appends : List PyBytes) :
    (s.grown appends).getD [] = s.content ++ appends.flatten := by
  unfold grown
  split
  · rename_i h
    rw [List.isEmpty_iff.mp h, List.flatten_nil, List.append_nil]
    rfl
  · rfl

/-- The file after a poll, with any source. -/
theorem grows_grown (s : Tail) (appends : List PyBytes) (source : Option FileTailSource) :
    Grows s { s with file := s.grown appends, source := source } :=
  ⟨⟨appends.flatten, s.content_grown appends⟩, rfl⟩

/-- A poll hands out the pending batch again, or a new one, which is full or has all records there
were, or nothing, when there were none. -/
theorem poll_cases (hs : Consistent lib batchSize s) (hsize : 0 < batchSize)
    {source : FileTailSource} (hsource : s.source = some source) (appends : List PyBytes) :
    (∃ offset records, source.pending = some (offset, records) ∧
      s.poll batchSize source appends = (records, source)) ∨
    (∃ offset records, source.pending = none ∧
      s.poll batchSize source appends =
        (records, ⟨source.committedOffset, some (offset, records)⟩) ∧
      (∀ source', Batch lib batchSize { s with file := s.grown appends, source := source' } offset
        records) ∧
      (records.length < batchSize → recordsOf (s.rest lib) <+: records)) ∨
    (source.pending = none ∧ s.poll batchSize source appends = ([], source) ∧
      recordsOf (s.rest lib) = []) := by
  have hcommitted := hs.source source hsource
  unfold poll
  cases hpending : source.pending with
  | some batch => exact .inl ⟨batch.1, batch.2, rfl, rfl⟩
  | none =>
      refine .inr ?_
      cases hfile : s.file with
      | none =>
          refine .inr ⟨rfl, rfl, ?_⟩
          rw [rest, content, hfile]
          show recordsOf (List.drop _ []) = []
          rw [List.drop_nil]
          rfl
      | some content =>
          have hrest : content.drop source.committedOffset = s.rest lib := by
            rw [rest, Tail.content, hfile, hcommitted]
            rfl
          obtain ⟨more, left, hmore, hcomplete, hbatch, hlength, hfull⟩ :=
            read_batch_spec batchSize appends (s.rest lib) source.committedOffset [] (Nat.zero_le _)
          rw [List.nil_append] at hbatch hlength hfull
          dsimp only
          rw [hrest, hbatch]
          dsimp only
          split
          · rename_i hempty
            rw [List.isEmpty_iff] at hempty
            rw [hempty] at hfull
            exact .inr ⟨rfl, rfl, List.prefix_nil.mp (hfull hsize)⟩
          · rename_i hsome
            refine .inl ⟨_, _, rfl, rfl, fun source' ↦ ⟨?_, ?_, hlength⟩, hfull⟩
            · have hgrown : rest lib { s with file := s.grown appends, source := source' } =
                  s.rest lib ++ appends.flatten := by
                rw [rest, (s.grows_grown appends source').committed]
                show ((s.grown appends).getD []).drop _ = _
                rw [content_grown, List.drop_append_of_le_length hs.within]
                rfl
              refine ⟨more, left, hgrown.trans hmore, hcomplete, ?_, rfl⟩
              rw [hcommitted, (s.grows_grown appends source').committed]
            · simpa using hsome

theorem step_poll_of_alive (lib : Library) (batchSize : Nat) {source : FileTailSource}
    (h : s.source = some source) (appends : List PyBytes) :
    s.step lib batchSize (.poll appends) = (some (s.poll batchSize source appends).1,
      { s with
        file := s.grown appends, source := some (s.poll batchSize source appends).2 }) := by
  rw [step]
  simp only [h]

theorem step_poll_of_dead (lib : Library) (batchSize : Nat) (h : s.source = none)
    (appends : List PyBytes) :
    s.step lib batchSize (.poll appends) = (none, { s with file := s.grown appends }) := by
  rw [step]
  simp only [h]

/-- Every step but a commit leaves the cursor. -/
theorem grows_step (lib : Library) (batchSize : Nat) (s : Tail) (label : TailLabel)
    (h : label ≠ .commit) : Grows s (s.step lib batchSize label).2 := by
  have hsame : ∀ source, Grows s { s with source := source } :=
    fun _ ↦ ⟨⟨[], (List.append_nil _).symm⟩, rfl⟩
  cases label with
  | append data => exact ⟨⟨data, rfl⟩, rfl⟩
  | poll appends =>
      cases hsource : s.source with
      | none =>
          rw [step_poll_of_dead lib batchSize hsource]
          exact s.grows_grown appends s.source
      | some source =>
          rw [step_poll_of_alive lib batchSize hsource]
          exact s.grows_grown appends _
  | commit => exact absurd rfl h
  | crash => exact hsame _
  | start => exact hsame _

/-- A commit moves past what was handed out last, or there is nothing to commit. -/
theorem commit_cases (hparse : ∀ n : Nat, lib.parseInt (PyStr.decimal n) = some (n : Int))
    (hs : Consistent lib batchSize s) :
    ((∀ source, s.source = some source → source.pending = none) ∧
      s.step lib batchSize .commit = (none, s)) ∨
    ∃ source offset records, s.source = some source ∧ source.pending = some (offset, records) ∧
      Batch lib batchSize s offset records ∧
      s.step lib batchSize .commit = (none, { s with
        cursor := some (FileCursor.advance offset), source := some ⟨offset, none⟩ }) ∧
      Consistent lib batchSize (s.step lib batchSize .commit).2 ∧
      (s.step lib batchSize .commit).2.position lib = s.position lib + records.length := by
  cases hsource : s.source with
  | none =>
      refine .inl ⟨fun _ h ↦ (by cases h), ?_⟩
      rw [step, hsource]
  | some source =>
      rcases source with ⟨committedOffset, pending⟩
      cases pending with
      | none =>
          refine .inl ⟨fun _ h ↦ ?_, by rw [step, hsource]⟩
          cases h
          rfl
      | some batch =>
          rcases batch with ⟨offset, records⟩
          have hbatch := hs.pending _ _ _ hsource rfl
          obtain ⟨more, left, hmore, hcomplete, hoffset, hrecords⟩ := hbatch.segment
          have hstep : s.step lib batchSize .commit = (none, { s with
              cursor := some (FileCursor.advance offset), source := some ⟨offset, none⟩ }) := by
            rw [step, hsource]
          have hcommitted : (s.step lib batchSize .commit).2.committed lib =
              s.committed lib + more.length := by
            rw [hstep, committed, read_advance hparse, hoffset]
          have hcontent : (s.step lib batchSize .commit).2.content = s.content := by
            rw [hstep]
            rfl
          have htake : s.content.take (s.committed lib + more.length) =
              s.content.take (s.committed lib) ++ more := by
            rw [List.take_add, show s.content.drop (s.committed lib) = more ++ left from hmore,
              List.take_left]
          refine .inr ⟨_, offset, records, rfl, rfl, hbatch, hstep, ⟨?_, ?_, ?_, ?_⟩, ?_⟩
          · have hlength := congrArg List.length (show s.content.drop _ = more ++ left from hmore)
            rw [List.length_drop, List.length_append] at hlength
            have hwithin := hs.within
            rw [hcommitted, hcontent]
            omega
          · rw [hcommitted, hcontent, htake]
            exact hs.complete.append hcomplete
          · intro source h
            rw [hcommitted, ← hoffset]
            rw [hstep] at h
            cases h
            rfl
          · intro source offset' records' h hpending
            rw [hstep] at h
            cases h
            cases hpending
          · rw [position, hcommitted, hcontent, htake, records_of_append hs.complete, hrecords,
              List.length_append]
            rfl

/-- Every step keeps the cursor, the file and the source consistent. -/
theorem consistent_step (hparse : ∀ n : Nat, lib.parseInt (PyStr.decimal n) = some (n : Int))
    (hsize : 0 < batchSize) (hs : Consistent lib batchSize s) (label : TailLabel) :
    Consistent lib batchSize (s.step lib batchSize label).2 := by
  cases label with
  | append data =>
      have hgrows := grows_step lib batchSize s (.append data) (by simp)
      exact hs.of_grows hgrows fun source h ↦
        ⟨hs.source source h, fun offset records hpending ↦
          (hs.pending source offset records h hpending).of_grows hs hgrows⟩
  | poll appends =>
      cases hsource : s.source with
      | none =>
          rw [step_poll_of_dead lib batchSize hsource]
          refine hs.of_grows (s.grows_grown appends s.source) fun source h ↦ ?_
          rw [hsource] at h
          cases h
      | some source =>
          rw [step_poll_of_alive lib batchSize hsource]
          have hcommitted := hs.source source hsource
          refine hs.of_grows (s.grows_grown appends _) fun source' h ↦ ?_
          cases h
          obtain ⟨offset, records, hpending, hpoll⟩ | ⟨offset, records, hpending, hpoll, hbatch, -⟩ |
            ⟨hpending, hpoll, -⟩ := poll_cases hs hsize hsource appends
          · rw [hpoll]
            exact ⟨hcommitted, fun offset records h ↦
              (hs.pending source offset records hsource h).of_grows hs (s.grows_grown appends _)⟩
          · rw [hpoll]
            refine ⟨hcommitted, fun offset' records' h ↦ ?_⟩
            obtain ⟨rfl, rfl⟩ := Prod.mk.inj (Option.some.inj h)
            exact hbatch _
          · rw [hpoll]
            refine ⟨hcommitted, fun offset records h ↦ ?_⟩
            rw [hpending] at h
            cases h
  | commit =>
      obtain ⟨-, hstep⟩ | ⟨_, _, _, -, -, -, -, h, -⟩ := commit_cases hparse hs
      · rw [hstep]
        exact hs
      · exact h
  | crash =>
      refine hs.of_grows (grows_step lib batchSize s .crash (by simp)) fun source h ↦ ?_
      cases h
  | start =>
      refine hs.of_grows (grows_step lib batchSize s .start (by simp)) fun source h ↦ ?_
      cases h
      exact ⟨rfl, fun _ _ h ↦ by cases h⟩

/-- Every step leaves the bytes there are. -/
theorem content_step (lib : Library) (batchSize : Nat) (s : Tail) (label : TailLabel) :
    ∃ data, (s.step lib batchSize label).2.content = s.content ++ data := by
  by_cases hcommit : label = .commit
  · subst hcommit
    refine ⟨[], ?_⟩
    rw [List.append_nil, step]
    split <;> rfl
  · exact (grows_step lib batchSize s label hcommit).content

/-! ## What was handed out last -/

/-- The batch that was handed out last and is not committed. -/
def pending (s : Tail) : List PyStr :=
  match s.source with
  | some ⟨_, some (_, records)⟩ => records
  | _ => []

theorem pending_leads (hs : Consistent lib batchSize s) :
    s.pending <+: recordsOf (s.rest lib) ∧ s.pending.length ≤ batchSize := by
  unfold pending
  split
  · rename_i committedOffset offset records hsource
    have hbatch := hs.pending _ _ _ hsource rfl
    obtain ⟨more, left, hmore, -, -, rfl⟩ := hbatch.segment
    rw [hmore]
    exact ⟨records_of_grown more left, hbatch.size⟩
  · exact ⟨List.nil_prefix, Nat.zero_le _⟩

/-- A poll hands out what is then pending: what was pending, or a new batch, which is full or has
all records there were. -/
theorem pending_poll (hs : Consistent lib batchSize s) (hsize : 0 < batchSize)
    (halive : s.source.isSome) (appends : List PyBytes) :
    (s.step lib batchSize (.poll appends)).1 =
        some (s.step lib batchSize (.poll appends)).2.pending ∧
      ((s.pending ≠ [] ∧ (s.step lib batchSize (.poll appends)).2.pending = s.pending) ∨
        (s.pending = [] ∧
          ((s.step lib batchSize (.poll appends)).2.pending.length < batchSize →
            recordsOf (s.rest lib) <+: (s.step lib batchSize (.poll appends)).2.pending))) := by
  obtain ⟨source, hsource⟩ := Option.isSome_iff_exists.mp halive
  rw [step_poll_of_alive lib batchSize hsource]
  obtain ⟨offset, records, hpending, hpoll⟩ | ⟨offset, records, hpending, hpoll, -, hfull⟩ |
    ⟨hpending, hpoll, hnone⟩ := poll_cases hs hsize hsource appends <;>
      rcases source with ⟨committedOffset, _⟩ <;> cases hpending <;> rw [hpoll]
  · have hsame : s.pending = records := by rw [pending, hsource]
    have hsome := (hs.pending _ _ _ hsource rfl).some
    exact ⟨rfl, .inl ⟨hsame ▸ hsome, hsame.symm⟩⟩
  · exact ⟨rfl, .inr ⟨by rw [pending, hsource], hfull⟩⟩
  · exact ⟨rfl, .inr ⟨by rw [pending, hsource], fun _ ↦ by rw [hnone]; exact List.nil_prefix⟩⟩

theorem pending_commit (hparse : ∀ n : Nat, lib.parseInt (PyStr.decimal n) = some (n : Int))
    (hs : Consistent lib batchSize s) :
    (s.step lib batchSize .commit).2.pending = [] ∧
      (s.step lib batchSize .commit).2.position lib = s.position lib + s.pending.length := by
  obtain ⟨hnone, hstep⟩ | ⟨⟨_, _⟩, offset, records, hsource, hpending, -, hstep, -, hposition⟩ :=
    commit_cases hparse hs
  · have hempty : s.pending = [] := by
      unfold pending
      split
      · rename_i hsource
        cases hnone _ hsource
      · rfl
    rw [hstep, hempty]
    exact ⟨rfl, rfl⟩
  · cases hpending
    rw [hposition, show s.pending = records by rw [pending, hsource], hstep]
    exact ⟨rfl, rfl⟩

/-! ## Runs -/

/-- What a step hands out, with the number of records that are committed. -/
def delivery (lib : Library) (batchSize : Nat) (s : Tail) (label : TailLabel) :
    List (Nat × List PyStr) :=
  ((s.step lib batchSize label).1.map (s.position lib, ·)).toList

/-- What the polls of a run hand out, each with the number of records that were committed. -/
def deliveries (lib : Library) (batchSize : Nat) (s : Tail) :
    List TailLabel → List (Nat × List PyStr)
  | [] => []
  | label :: labels =>
      s.delivery lib batchSize label ++ (s.step lib batchSize label).2.deliveries lib batchSize labels

/-- The record of the file at an index is in one of the batches. -/
def Delivered (batches : List (Nat × List PyStr)) (index : Nat) : Prop :=
  ∃ d ∈ batches, d.1 ≤ index ∧ index < d.1 + d.2.length

theorem Delivered.append {batches : List (Nat × List PyStr)} {index : Nat}
    (h : Delivered batches index) (more : List (Nat × List PyStr)) :
    Delivered (batches ++ more) index := by
  obtain ⟨d, hd, hindex⟩ := h
  exact ⟨d, List.mem_append_left _ hd, hindex⟩

/-- Only a poll of a process that is alive hands a batch out: records of the file that follow what
is committed. -/
theorem delivery_cases (hs : Consistent lib batchSize s) (hsize : 0 < batchSize)
    (label : TailLabel) :
    (s.delivery lib batchSize label = [] ∧ ((s.step lib batchSize label).2.pending = [] ∨
      (s.step lib batchSize label).2.pending = s.pending)) ∨
    (label ≠ .commit ∧ s.delivery lib batchSize label =
        [(s.position lib, (s.step lib batchSize label).2.pending)] ∧
      ((s.pending ≠ [] ∧ (s.step lib batchSize label).2.pending = s.pending) ∨
        (s.pending = [] ∧
          ((s.step lib batchSize label).2.pending.length < batchSize →
            recordsOf (s.rest lib) <+: (s.step lib batchSize label).2.pending)))) := by
  cases label with
  | append data => exact .inl ⟨rfl, .inr rfl⟩
  | poll appends =>
      cases hsource : s.source with
      | none =>
          refine .inl ⟨?_, .inr ?_⟩
          · rw [delivery, step_poll_of_dead lib batchSize hsource]
            rfl
          · rw [step_poll_of_dead lib batchSize hsource]
            rfl
      | some source =>
          obtain ⟨hout, hpending⟩ := pending_poll hs hsize (by rw [hsource]; rfl) appends
          refine .inr ⟨by simp, ?_, hpending⟩
          rw [delivery, hout]
          rfl
  | commit =>
      refine .inl ?_
      rw [delivery, step]
      split
      · exact ⟨rfl, .inl rfl⟩
      · exact ⟨rfl, .inr rfl⟩
  | crash => exact .inl ⟨rfl, .inl rfl⟩
  | start => exact .inl ⟨rfl, .inl rfl⟩

/-- What holds of the batches of a run and the state it ends in. -/
structure Handed (lib : Library) (batchSize : Nat) (batches : List (Nat × List PyStr)) (s : Tail) :
    Prop where
  consistent : Consistent lib batchSize s
  genuine : ∀ d ∈ batches, d.2 <+: (recordsOf s.content).drop d.1
  ordered : ∀ earlier d later, batches = earlier ++ d :: later → ∀ index < d.1,
    Delivered earlier index
  delivered : ∀ index < s.position lib + s.pending.length, Delivered batches index

theorem handed_start (lib : Library) (batchSize : Nat) (file : Option PyBytes) :
    Handed lib batchSize [] ⟨file, none, none⟩ where
  consistent := ⟨Nat.zero_le _, .inl rfl, fun _ h ↦ (by cases h), fun _ _ _ h ↦ (by cases h)⟩
  genuine := fun _ h ↦ by cases h
  ordered := fun earlier d later h ↦ by cases earlier <;> cases h
  delivered := fun _ h ↦ absurd h (Nat.not_lt_zero _)

/-- One more batch, of the records after those that are committed. -/
theorem handed_step (hparse : ∀ n : Nat, lib.parseInt (PyStr.decimal n) = some (n : Int))
    (hsize : 0 < batchSize) {batches : List (Nat × List PyStr)}
    (h : Handed lib batchSize batches s) (label : TailLabel) :
    Handed lib batchSize (batches ++ s.delivery lib batchSize label)
      (s.step lib batchSize label).2 := by
  have hs := h.consistent
  have hs' := consistent_step hparse hsize hs label
  obtain ⟨data, hdata⟩ := content_step lib batchSize s label
  have hgenuine : ∀ d ∈ batches,
      d.2 <+: (recordsOf (s.step lib batchSize label).2.content).drop d.1 := by
    intro d hd
    rw [hdata]
    exact (h.genuine d hd).trans (List.IsPrefix.drop (records_of_grown _ _) d.1)
  obtain ⟨hnone, hpending⟩ | ⟨hlabel, hsome, -⟩ := delivery_cases hs hsize label
  · rw [hnone, List.append_nil]
    refine ⟨hs', hgenuine, h.ordered, fun index hindex ↦ h.delivered index ?_⟩
    by_cases hcommit : label = .commit
    · -- what a commit moves past was pending
      subst hcommit
      obtain ⟨hempty, hposition⟩ := pending_commit hparse hs
      rw [hempty, hposition] at hindex
      exact hindex
    · have hposition := (grows_step lib batchSize s label hcommit).position hs
      rw [hposition] at hindex
      obtain hempty | hsame := hpending
      · rw [hempty] at hindex
        exact hindex.trans_le (Nat.le_add_right _ _)
      · rwa [hsame] at hindex
  · have hposition := (grows_step lib batchSize s label hlabel).position hs
    rw [hsome]
    refine ⟨hs', ?_, ?_, ?_⟩
    · rw [List.forall_mem_append]
      refine ⟨hgenuine, fun d hd ↦ ?_⟩
      rw [List.mem_singleton.mp hd, ← hposition, drop_position hs']
      exact (pending_leads hs').1
    · intro earlier d later hsplit
      cases later using List.reverseRecOn with
      | nil =>
          obtain ⟨rfl, hd⟩ := List.append_inj' hsplit rfl
          cases hd
          exact fun index hindex ↦ h.delivered index (hindex.trans_le (Nat.le_add_right _ _))
      | append_singleton later last _ =>
          rw [← List.cons_append, ← List.append_assoc] at hsplit
          exact h.ordered _ _ _ (List.append_inj' hsplit rfl).1
    · intro index hindex
      rw [hposition] at hindex
      by_cases hcommitted : index < s.position lib
      · exact (h.delivered index (hcommitted.trans_le (Nat.le_add_right _ _))).append _
      · refine ⟨_, List.mem_append_right _ (List.mem_singleton_self _), ?_, hindex⟩
        show s.position lib ≤ index
        omega

/-- What holds of the batches of a run holds of those of a longer one. -/
theorem handed_run (hparse : ∀ n : Nat, lib.parseInt (PyStr.decimal n) = some (n : Int))
    (hsize : 0 < batchSize) {batches : List (Nat × List PyStr)}
    (h : Handed lib batchSize batches s) (labels : List TailLabel) :
    Handed lib batchSize (batches ++ s.deliveries lib batchSize labels)
      (Machine.final (step lib batchSize) s labels) := by
  induction labels generalizing s batches with
  | nil => rwa [deliveries, List.append_nil]
  | cons label labels ih =>
      rw [deliveries, ← List.append_assoc]
      exact ih (handed_step hparse hsize h label)

/-! ## Polls without a commit -/

/-- A batch of the records that are not committed, which the pending batch does not fall short
of. -/
structure Repeated (lib : Library) (batchSize : Nat) (d : Nat × List PyStr) (s : Tail) : Prop where
  position : d.1 = s.position lib
  records : d.2 <+: recordsOf (s.rest lib)
  size : d.2.length ≤ batchSize
  pending : s.pending ≠ [] → d.2 <+: s.pending

/-- Until a commit, a batch that is handed out begins with each one before it. -/
theorem repeated_step (hparse : ∀ n : Nat, lib.parseInt (PyStr.decimal n) = some (n : Int))
    (hsize : 0 < batchSize) (hs : Consistent lib batchSize s) {label : TailLabel}
    (hlabel : label ≠ .commit) {d : Nat × List PyStr} (h : Repeated lib batchSize d s) :
    Repeated lib batchSize d (s.step lib batchSize label).2 ∧
      ∀ d' ∈ s.delivery lib batchSize label, d.1 = d'.1 ∧ d.2 <+: d'.2 := by
  have hs' := consistent_step hparse hsize hs label
  have hgrows := grows_step lib batchSize s label hlabel
  have hposition : d.1 = (s.step lib batchSize label).2.position lib := by
    rw [hgrows.position hs, h.position]
  have hrecords : d.2 <+: recordsOf ((s.step lib batchSize label).2.rest lib) := by
    obtain ⟨data, hdata⟩ := hgrows.rest hs
    rw [hdata]
    exact h.records.trans (records_of_grown _ _)
  obtain ⟨hnone, hpending⟩ | ⟨-, hsome, hpending⟩ := delivery_cases hs hsize label
  · rw [hnone]
    refine ⟨⟨hposition, hrecords, h.size, fun hne ↦ ?_⟩, fun _ hd' ↦ (by cases hd')⟩
    obtain hempty | hsame := hpending
    · exact absurd hempty hne
    · rw [hsame] at hne ⊢
      exact h.pending hne
  · have hleads : d.2 <+: (s.step lib batchSize label).2.pending := by
      obtain ⟨hne, hsame⟩ | ⟨-, hfull⟩ := hpending
      · rw [hsame]
        exact h.pending hne
      · by_cases hroom : (s.step lib batchSize label).2.pending.length < batchSize
        · exact h.records.trans (hfull hroom)
        · have hsized := h.size
          exact List.prefix_of_prefix_length_le hrecords (pending_leads hs').1 (by omega)
    refine ⟨⟨hposition, hrecords, h.size, fun _ ↦ hleads⟩, fun d' hd' ↦ ?_⟩
    rw [hsome, List.mem_singleton] at hd'
    rw [hd']
    exact ⟨h.position, hleads⟩

theorem repeated_run (hparse : ∀ n : Nat, lib.parseInt (PyStr.decimal n) = some (n : Int))
    (hsize : 0 < batchSize) (hs : Consistent lib batchSize s) {labels : List TailLabel}
    (hlabels : TailLabel.commit ∉ labels) :
    (s.deliveries lib batchSize labels).Pairwise (fun d d' ↦ d.1 = d'.1 ∧ d.2 <+: d'.2) ∧
      ∀ d, Repeated lib batchSize d s → ∀ d' ∈ s.deliveries lib batchSize labels,
        d.1 = d'.1 ∧ d.2 <+: d'.2 := by
  induction labels generalizing s with
  | nil => exact ⟨.nil, fun _ _ _ h ↦ (by cases h)⟩
  | cons label labels ih =>
      obtain ⟨hlabel, hrest⟩ := List.ne_and_not_mem_of_not_mem_cons hlabels
      have hs' := consistent_step hparse hsize hs label
      obtain ⟨hpairwise, hrepeated⟩ := ih hs' hrest
      have hposition := (grows_step lib batchSize s label hlabel.symm).position hs
      rw [deliveries]
      refine ⟨List.pairwise_append.mpr ⟨?_, hpairwise, fun d hd ↦ hrepeated d ?_⟩, ?_⟩
      · rw [delivery]
        cases (s.step lib batchSize label).1 with
        | none => exact .nil
        | some records => exact List.pairwise_singleton _ _
      · obtain ⟨hnone, -⟩ | ⟨-, hsome, -⟩ := delivery_cases hs hsize label
        · rw [hnone] at hd
          cases hd
        · rw [hsome, List.mem_singleton] at hd
          obtain ⟨hleads, hbound⟩ := pending_leads hs'
          rw [hd]
          exact ⟨hposition.symm, hleads, hbound, fun _ ↦ List.prefix_rfl⟩
      · intro d hd
        obtain ⟨hnext, hhead⟩ := repeated_step hparse hsize hs hlabel.symm hd
        exact List.forall_mem_append.mpr ⟨hhead, hrepeated d hnext⟩

/-! ## Progress -/

theorem alive_step (halive : s.source.isSome) {label : TailLabel} (hlabel : label ≠ .crash) :
    (s.step lib batchSize label).2.source.isSome := by
  cases label with
  | append data => exact halive
  | poll appends =>
      obtain ⟨source, hsource⟩ := Option.isSome_iff_exists.mp halive
      rw [step_poll_of_alive lib batchSize hsource]
      rfl
  | commit =>
      rw [step]
      split
      · rfl
      · exact halive
  | crash => exact absurd rfl hlabel
  | start => rfl

/-- What is committed stays so. -/
theorem position_step (hparse : ∀ n : Nat, lib.parseInt (PyStr.decimal n) = some (n : Int))
    (hs : Consistent lib batchSize s) (label : TailLabel) :
    s.position lib ≤ (s.step lib batchSize label).2.position lib := by
  by_cases hcommit : label = .commit
  · subst hcommit
    rw [(pending_commit hparse hs).2]
    exact Nat.le_add_right _ _
  · exact ((grows_step lib batchSize s label hcommit).position hs).ge

/-- What a process that is alive, with so many records committed, keeps. -/
structure Alive (lib : Library) (batchSize : Nat) (count : Nat) (s : Tail) : Prop where
  consistent : Consistent lib batchSize s
  source : s.source.isSome
  committed : count ≤ s.position lib

theorem alive_run (hparse : ∀ n : Nat, lib.parseInt (PyStr.decimal n) = some (n : Int))
    (hsize : 0 < batchSize) {count : Nat} (h : Alive lib batchSize count s)
    (labels : List TailLabel) (hlabels : TailLabel.crash ∉ labels) :
    Alive lib batchSize count (Machine.final (step lib batchSize) s labels) := by
  induction labels generalizing s with
  | nil => exact h
  | cons label labels ih =>
      obtain ⟨hlabel, hrest⟩ := List.ne_and_not_mem_of_not_mem_cons hlabels
      refine ih ⟨consistent_step hparse hsize h.consistent label, alive_step h.source hlabel.symm,
        h.committed.trans (position_step hparse h.consistent label)⟩ hrest

/-- A poll and a commit get one record further, while there is one. -/
theorem alive_poll_commit (hparse : ∀ n : Nat, lib.parseInt (PyStr.decimal n) = some (n : Int))
    (hsize : 0 < batchSize) {count : Nat} (h : Alive lib batchSize count s)
    (hcount : count < (recordsOf s.content).length) (appends : List PyBytes) :
    Alive lib batchSize (count + 1)
      (Machine.final (step lib batchSize) s [.poll appends, .commit]) := by
  have hpoll := alive_run hparse hsize h [.poll appends] (by simp)
  have hcommit := alive_run hparse hsize h [.poll appends, .commit] (by simp)
  refine ⟨hcommit.consistent, hcommit.source, ?_⟩
  by_cases hbeyond : count < s.position lib
  · exact (alive_run hparse hsize ⟨h.consistent, h.source, hbeyond⟩
      [.poll appends, .commit] (by simp)).committed
  · -- the poll hands out a record, since one is left
    have hposition := (grows_step lib batchSize s (.poll appends) (by simp)).position
      h.consistent
    have hexact : count = s.position lib := le_antisymm h.committed (not_lt.mp hbeyond)
    have hsome : (s.step lib batchSize (.poll appends)).2.pending ≠ [] := by
      intro hempty
      obtain ⟨-, ⟨hne, hsame⟩ | ⟨-, hfull⟩⟩ := pending_poll h.consistent hsize h.source appends
      · exact hne (hsame.symm.trans hempty)
      · rw [hempty] at hfull
        have hrest := List.prefix_nil.mp (hfull hsize)
        rw [← drop_position h.consistent, List.drop_eq_nil_iff] at hrest
        omega
    have hlength := List.length_pos_iff.mpr hsome
    have hmoved := (pending_commit hparse hpoll.consistent).2
    show count + 1 ≤ ((s.step lib batchSize (.poll appends)).2.step lib batchSize .commit).2.position
      lib
    rw [show ((s.step lib batchSize (.poll appends)).2.step lib batchSize .commit).2.position lib =
      (s.step lib batchSize (.poll appends)).2.position lib +
        (s.step lib batchSize (.poll appends)).2.pending.length from hmoved]
    omega

theorem content_run (lib : Library) (batchSize : Nat) (s : Tail) (labels : List TailLabel) :
    ∃ data, (Machine.final (step lib batchSize) s labels).content = s.content ++ data := by
  induction labels generalizing s with
  | nil => exact ⟨[], (List.append_nil _).symm⟩
  | cons label labels ih =>
      obtain ⟨data, hdata⟩ := content_step lib batchSize s label
      obtain ⟨more, hmore⟩ := ih (s.step lib batchSize label).2
      refine ⟨data ++ more, ?_⟩
      rw [Machine.final_cons, hmore, hdata, List.append_assoc]

/-- No record is taken from a file. -/
theorem length_records_run (lib : Library) (batchSize : Nat) (s : Tail) (labels : List TailLabel) :
    (recordsOf s.content).length ≤
      (recordsOf (Machine.final (step lib batchSize) s labels).content).length := by
  obtain ⟨data, hdata⟩ := content_run lib batchSize s labels
  rw [hdata]
  exact (records_of_grown _ _).length_le

/-- What happens before a poll that is followed by its commit, and the poll. -/
def cycle (c : List TailLabel × List PyBytes) : List TailLabel :=
  c.1 ++ [.poll c.2, .commit]

/-- As many polls and commits get as many records further, while there are any. -/
theorem alive_cycles (hparse : ∀ n : Nat, lib.parseInt (PyStr.decimal n) = some (n : Int))
    (hsize : 0 < batchSize) {cycles : List (List TailLabel × List PyBytes)}
    (hcycles : ∀ c ∈ cycles, TailLabel.crash ∉ c.1) {count : Nat}
    (h : Alive lib batchSize count s) :
    min (count + cycles.length) (recordsOf s.content).length ≤
      (Machine.final (step lib batchSize) s (cycles.flatMap cycle)).position lib := by
  induction cycles generalizing s count with
  | nil => exact (min_le_left _ _).trans h.committed
  | cons c cycles ih =>
      obtain ⟨hcrash, hrest⟩ := List.forall_mem_cons.mp hcycles
      have hbetween := alive_run hparse hsize h c.1 hcrash
      have hgrown := length_records_run lib batchSize s c.1
      have hgrown' := length_records_run lib batchSize
        (Machine.final (step lib batchSize) s c.1) [.poll c.2, .commit]
      have hsplit : Machine.final (step lib batchSize) s ((c :: cycles).flatMap cycle) =
          Machine.final (step lib batchSize) (Machine.final (step lib batchSize)
            (Machine.final (step lib batchSize) s c.1) [.poll c.2, .commit])
            (cycles.flatMap cycle) := by
        rw [List.flatMap_cons, cycle]
        simp only [Machine.final, List.foldl_append]
      rw [hsplit, List.length_cons]
      by_cases hleft : count < (recordsOf (Machine.final (step lib batchSize) s c.1).content).length
      · have hnext := ih hrest (alive_poll_commit hparse hsize hbetween hleft c.2)
        omega
      · have hdone := ih hrest (alive_run hparse hsize hbetween [.poll c.2, .commit] (by simp))
        omega

/-- Whatever the writer appends and wherever the worker is stopped: the batches are records of the
file from the ones that are committed on; a record comes first when all before it have come; polls
without a commit begin at the same record and hand out what was handed out; and a worker that is
not stopped for good delivers every record. -/
theorem delivers_at_least_once_in_order (lib : Library)
    (hparse : ∀ n : Nat, lib.parseInt (PyStr.decimal n) = some (n : Int)) (batchSize : Nat)
    (hsize : 0 < batchSize) (file : Option PyBytes) (labels : List TailLabel) :
    let s := Machine.final (step lib batchSize) ⟨file, none, none⟩ labels
    let batches := deliveries lib batchSize ⟨file, none, none⟩ labels
    (∀ d ∈ batches, d.2 <+: (recordsOf s.content).drop d.1) ∧
    (∀ earlier d later, batches = earlier ++ d :: later → ∀ index < d.1,
      Delivered earlier index) ∧
    (∀ labels', TailLabel.commit ∉ labels' → (s.deliveries lib batchSize labels').Pairwise
      fun d d' ↦ d.1 = d'.1 ∧ d.2 <+: d'.2) ∧
    (∀ cycles : List (List TailLabel × List PyBytes), (∀ c ∈ cycles, TailLabel.crash ∉ c.1) →
      ∀ index < min cycles.length (recordsOf s.content).length,
        Delivered (batches ++ s.deliveries lib batchSize (.start :: cycles.flatMap cycle)) index) := by
  intro s batches
  have hrun : Handed lib batchSize batches s :=
    handed_run hparse hsize (handed_start lib batchSize file) labels
  refine ⟨hrun.genuine, hrun.ordered, fun labels' hlabels' ↦ ?_, ?_⟩
  · exact (repeated_run hparse hsize hrun.consistent hlabels').1
  · intro cycles hcycles index hindex
    have hstarted := consistent_step hparse hsize hrun.consistent .start
    have hmoved := alive_cycles hparse hsize hcycles ⟨hstarted, rfl, Nat.zero_le _⟩
    have hgrown := length_records_run lib batchSize s [.start]
    have hall := (handed_run hparse hsize hrun (.start :: cycles.flatMap cycle)).delivered index
    rw [Machine.final_cons] at hall
    rw [show Machine.final (step lib batchSize) s [.start] =
      (s.step lib batchSize .start).2 from rfl] at hgrown
    refine hall ?_
    omega

/-- A line and a half are written and a process starts; the other half comes before its second
poll, and the second line is delivered too. -/
theorem delivers_at_least_once_in_order_line_and_half :
    Delivered (deliveries plainLibrary 1 ⟨none, none, none⟩ [.append [97, 10, 98], .append [10]] ++
      deliveries plainLibrary 1 (Machine.final (step plainLibrary 1) ⟨none, none, none⟩
        [.append [97, 10, 98], .append [10]])
        (.start :: [([], []), ([.append [99]], [[10]])].flatMap cycle)) 1 :=
  (delivers_at_least_once_in_order plainLibrary parse_int_decimal 1 (by decide) none
    [.append [97, 10, 98], .append [10]]).2.2.2 [([], []), ([.append [99]], [[10]])] (by simp) 1
    (by decide +kernel)

end Tail

end Aegis.Stream
