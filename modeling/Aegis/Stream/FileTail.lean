import Aegis.Lib.Machine
import Aegis.Server.Utf8

/-!
# Tailing a file

`FileTailSource` and `FileCursor` of the worker. A poll reads line after line; the file may grow
before each of them. A batch that is not committed is handed back again, and a new process goes on
from the cursor, which a commit replaces in one step.
-/

namespace Aegis.Stream

open Server Utf8

/-! ## The cursor -/

/-- `FileCursor.read()`, of a cursor file with some text or of none. -/
def FileCursor.read (lib : Library) : Option PyStr → Nat
  | none => 0
  | some text =>
      if text.strip.isEmpty then 0
      else
        match lib.parseInt text.strip with
        | some offset => offset.toNat
        | none => 0

/-- The text `FileCursor.advance(offset)` leaves. -/
def FileCursor.advance (offset : Nat) : PyStr :=
  PyStr.decimal offset

/-! ## The source -/

/-- A `FileTailSource`: the committed offset, and the batch that was handed out last with the
offset after it, until it is committed. -/
structure FileTailSource where
  committedOffset : Nat
  pending : Option (Nat × List PyStr)

/-- `handle.readline()` where a line is complete: the line with its end, and what follows. -/
def readline (rest : PyBytes) : Option (PyBytes × PyBytes) :=
  if 10 ∈ rest then
    some (rest.takeWhile (· != 10) ++ [10], (rest.dropWhile (· != 10)).drop 1)
  else none

/-- A line that is read is not empty. -/
theorem length_lt_of_readline {rest line after : PyBytes} (h : readline rest = some (line, after)) :
    after.length < rest.length := by
  unfold readline at h
  split at h
  · rename_i hmem
    obtain ⟨-, rfl⟩ := Prod.mk.inj (Option.some.inj h)
    have hle := (List.dropWhile_sublist (l := rest) (· != (10 : UInt8))).length_le
    have hpos := List.length_pos_of_mem hmem
    rw [List.length_drop]
    omega
  · cases h

/-- The loop of `_read_batch(batch_size)`: `rest` is what follows the offset, and the file grows by
the next of `appends` before each line is read. -/
def readBatch (batchSize : Nat) (appends : List PyBytes) (rest : PyBytes) (offset : Nat)
    (records : List PyStr) : List PyStr × Nat :=
  if records.length < batchSize then
    match _h : readline (rest ++ appends.headD []) with
    | some (line, after) =>
        readBatch batchSize appends.tail after (offset + line.length)
          (if line.strip.isEmpty then records else records ++ [decodeReplace line.strip])
    | none => (records, offset)
  else (records, offset)
termination_by rest.length + appends.flatten.length
decreasing_by
  have := length_lt_of_readline _h
  cases appends with
  | nil => simpa using this
  | cons data appends =>
      simp only [List.headD_cons, List.tail_cons, List.flatten_cons, List.length_append] at *
      omega

/-! ## The writer and the worker -/

/-- The file and the cursor, and the source of a process that is alive. -/
structure Tail where
  file : Option PyBytes
  cursor : Option PyStr
  source : Option FileTailSource

/-- What happens next. -/
inductive TailLabel where
  /-- The writer appends. -/
  | append (data : PyBytes)
  /-- The worker polls, while the writer appends before each line and after the last. -/
  | poll (appends : List PyBytes)
  | commit
  | crash
  | start

namespace Tail

variable (lib : Library) (batchSize : Nat)

/-- The bytes of the file. -/
def content (s : Tail) : PyBytes :=
  s.file.getD []

/-- The writer appends, and creates the file when it is not there. -/
def grown (s : Tail) (appends : List PyBytes) : Option PyBytes :=
  if appends.isEmpty then s.file else some (s.content ++ appends.flatten)

/-- `source.poll(batch_size)`, and the source it leaves. -/
def poll (s : Tail) (source : FileTailSource) (appends : List PyBytes) :
    List PyStr × FileTailSource :=
  match source.pending, s.file with
  | some (_, records), _ => (records, source)
  | none, none => ([], source)
  | none, some content =>
      let batch := readBatch batchSize appends (content.drop source.committedOffset)
        source.committedOffset []
      if batch.1.isEmpty then ([], source)
      else (batch.1, { source with pending := some (batch.2, batch.1) })

/-- One step, and the batch it hands out. -/
def step (s : Tail) : TailLabel → Option (List PyStr) × Tail
  | .append data => (none, { s with file := some (s.content ++ data) })
  | .poll appends =>
      match s.source with
      | none => (none, { s with file := s.grown appends })
      | some source =>
          let polled := s.poll batchSize source appends
          (some polled.1, { s with file := s.grown appends, source := some polled.2 })
  | .commit =>
      match s.source with
      | some ⟨_, some (offset, _)⟩ =>
          (none, { s with cursor := some (FileCursor.advance offset), source := some ⟨offset, none⟩ })
      | _ => (none, s)
  | .crash => (none, { s with source := none })
  | .start => (none, { s with source := some ⟨FileCursor.read lib s.cursor, none⟩ })

end Tail

end Aegis.Stream
