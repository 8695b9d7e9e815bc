import Mathlib.Data.List.AList
import Mathlib.Data.List.Sort
import Aegis.Lib.Prog
import Aegis.Agent.Lines

/-!
# The spool

`Spool` of the Java agent: a bounded queue on disk for the lines the control plane could not take.
Every file operation may fail, and a write that fails may have written a part of its bytes. The log
says what became of lines and segments; no operation reads it.
-/

namespace Aegis.Agent

open Prog

/-! ## Files -/

/-- The exceptions file operations raise. Iterating over a directory raises the unchecked one. -/
inductive FileException where
  | IOException
  | UncheckedIOException
  deriving DecidableEq, Repr

/-- The spool object: its ceiling and its counters, and whether it has given up. -/
structure Spool where
  maxBytes : Nat
  sequence : Nat
  droppedEvents : Nat
  disabled : Bool
  deriving DecidableEq

/-- What became of lines and segments. -/
inductive FileAction where
  /-- The lines were written in full to a segment that held the bytes before. -/
  | appended (before : Bytes) (jsonLines : List JString)
  /-- The lines were handed to a spool that was disabled, or that gave up over them. -/
  | forgone (jsonLines : List JString)
  /-- A segment with these bytes could not be read. -/
  | unread (bytes : Bytes)
  /-- The lines of a segment were counted as dropped. -/
  | counted (jsonLines : List JString)
  /-- The segment was deleted. -/
  | removed (segment : JString)
  deriving DecidableEq

/-- The spool, the files of its directory, or `none` where there is no directory, the answers of
the clock still to come, and the log, newest first. -/
structure Storage where
  spool : Spool
  directory : Option (AList fun _ : JString ↦ Bytes)
  clock : List Nat
  log : List FileAction

namespace Storage

/-- The files of the directory. -/
def files (s : Storage) : AList fun _ : JString ↦ Bytes :=
  s.directory.getD ∅

/-- What a file holds. -/
def bytesOf (s : Storage) (path : JString) : Option Bytes :=
  s.files.lookup path

/-- Put bytes at the end of a file, which is created if it is not there. -/
def put (s : Storage) (path : JString) (bytes : Bytes) : Storage :=
  { s with directory := some (s.files.insert path ((s.bytesOf path).getD [] ++ bytes)) }

/-- Delete a file. -/
def remove (s : Storage) (path : JString) : Storage :=
  { s with directory := s.directory.map (·.erase path), log := .removed path :: s.log }

/-- Write into the log. -/
def note (s : Storage) (action : FileAction) : Storage :=
  { s with log := action :: s.log }

end Storage

/-- An operation on the files. -/
abbrev FileProg := Prog FileException Storage

/-- `Files.createDirectories(directory)`. -/
def createDirectories : FileProg PUnit := do
  attempt .IOException
  modify fun s ↦ { s with directory := some s.files }

/-- `Files.size(path)`. -/
def fileSize (path : JString) : FileProg Nat := do
  attempt .IOException
  match ← Prog.read (·.bytesOf path) with
  | none => raise .IOException
  | some bytes => pure bytes.length

/-- Write byte after byte, any of which may be the last one written. -/
def writeBytes (path : JString) : Bytes → FileProg PUnit
  | [] => pure .unit
  | byte :: bytes => do
      attempt .IOException
      modify (·.put path [byte])
      writeBytes path bytes

/-- `Files.write(path, bytes, CREATE, WRITE, APPEND)`. -/
def writeFile (path : JString) (bytes : Bytes) : FileProg PUnit := do
  attempt .IOException
  if (← Prog.read (·.directory)).isNone then raise .IOException
  else do
    modify (·.put path [])
    writeBytes path bytes

/-- `System.currentTimeMillis()`. -/
def currentTimeMillis : FileProg Nat := do
  let now ← Prog.read fun s ↦ s.clock.headD 0
  modify fun s ↦ { s with clock := s.clock.tail }
  pure now

/-- `String.endsWith`. -/
def JString.endsWith (s back : JString) : Bool :=
  back.isSuffixOf s

/-- `String.format` with `%0<width>d`. -/
def padded (width n : Nat) : JString :=
  List.replicate (width - (digitString n).length) (jchar '0') ++ digitString n

namespace Spool

/-! ## The operations -/

/-- Roll to a new segment past this size. -/
def SEGMENT_BYTES : Nat := 1024 * 1024

/-- How the name of a segment begins. -/
def PREFIX : JString := java "aegis-spool-"

/-- How it ends. -/
def SUFFIX : JString := java ".ndjson"

/-- The constructor. The ceiling is at least one segment. -/
def create (maxBytes : Nat) : Spool :=
  ⟨max maxBytes SEGMENT_BYTES, 0, 0, false⟩

/-- The file is a segment by its name. -/
def isSegment (path : JString) : Bool :=
  path.startsWith PREFIX && path.endsWith SUFFIX

/-- The segments of the directory by name. -/
def segments (s : Storage) : List JString :=
  (s.files.keys.filter isSegment).insertionSort (· ≤ ·)

/-- Segments awaiting replay, oldest first. -/
def pending : FileProg (List JString) := do
  if (← Prog.read fun s ↦ s.spool.disabled || s.directory.isNone) then pure []
  else
    handle (do
      attempt .IOException
      attempt .UncheckedIOException
      Prog.read segments) fun
    | .IOException => pure []
    | .UncheckedIOException => raise .UncheckedIOException

/-- Read one segment back. A segment that cannot be read is treated as empty. -/
def read (segment : JString) : FileProg (List JString) :=
  handle (do
    attempt .IOException
    match (← Prog.read (·.bytesOf segment)).bind readAllLines with
    | none => raise .IOException
    | some lines => pure (lines.filter fun line ↦ !line.isBlank)) fun _ ↦ do
    modify fun s ↦ s.note (.unread ((s.bytesOf segment).getD []))
    pure []

/-- Delete a segment. One that cannot be deleted is left behind. -/
def discard (segment : JString) : FileProg PUnit :=
  handle (do
    attempt .IOException
    modify (·.remove segment)) fun _ ↦ pure .unit

/-- The next sequence number, of four digits. -/
def nextSequence : FileProg Nat := do
  modify fun s ↦ { s with spool.sequence := (s.spool.sequence + 1) % 10000 }
  Prog.read (·.spool.sequence)

/-- The name of a new segment. -/
def newSegment : FileProg JString := do
  let millis ← currentTimeMillis
  let sequence ← nextSequence
  pure (PREFIX ++ padded 13 millis ++ java "-" ++ padded 4 sequence ++ SUFFIX)

/-- The segment to append to: the newest one if there is room in it, or else a new one. -/
def currentSegment (incomingBytes : Nat) : FileProg JString := do
  let segments ← pending
  match segments.getLast? with
  | none => newSegment
  | some newest => do
      let size ← fileSize newest
      if size + incomingBytes ≤ SEGMENT_BYTES then pure newest else newSegment

/-- The size of a segment, which is weightless if it cannot be told. -/
def weight (segment : JString) : FileProg Nat :=
  handle (fileSize segment) fun _ ↦ pure 0

/-- The size of all segments. -/
def totalWeight : List JString → Nat → FileProg Nat
  | [], total => pure total
  | segment :: rest, total => do
      let size ← weight segment
      totalWeight rest (total + size)

/-- Count the lines of a segment as dropped, and discard it. -/
def drop (segment : JString) : FileProg PUnit := do
  let lines ← read segment
  modify fun s ↦
    { s.note (.counted lines) with spool.droppedEvents := s.spool.droppedEvents + lines.length }
  discard segment

/-- Discard segments until the rest fits. -/
def discardUntil (maxBytes : Nat) : List JString → Nat → FileProg PUnit
  | [], _ => pure .unit
  | segment :: rest, total => do
      if total ≤ maxBytes then pure .unit
      else do
        let size ← weight segment
        drop segment
        discardUntil maxBytes rest (total - size)

/-- Discard the oldest segments until the spool fits. -/
def enforceCeiling : FileProg PUnit := do
  let segments ← pending
  let total ← totalWeight segments 0
  let maxBytes ← Prog.read (·.spool.maxBytes)
  discardUntil maxBytes segments total

/-- Persist a batch that could not be sent. A failure disables the spool. -/
def append (jsonLines : List JString) : FileProg PUnit := do
  if (← Prog.read (·.spool.disabled)) || jsonLines.isEmpty then
    modify (·.note (.forgone jsonLines))
  else
    handle (do
      createDirectories
      let bytes := (joinLines jsonLines).getBytes
      let target ← currentSegment bytes.length
      let before ← Prog.read fun s ↦ (s.bytesOf target).getD []
      writeFile target bytes
      modify (·.note (.appended before jsonLines))
      enforceCeiling) fun _ ↦
      modify fun s ↦ { s.note (.forgone jsonLines) with spool.disabled := true }

end Spool

end Aegis.Agent
