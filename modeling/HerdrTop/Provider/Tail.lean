import HerdrTop.Library.Lines
import HerdrTop.Model.State

/-!
# Tailing a log file

A provider writes a log that only grows, and `TailFile` reads what is new of it: at most one chunk
a poll, and never beyond a goalpost that was frozen before. Lines that are too long are not kept;
one diagnostic record stands for each.

What the file system answers in one poll is a `ReadBoundary`. Left out are the paths, which are
only handed to it.
-/

namespace HerdrTop

/-- The most bytes read in one poll. -/
def maxTailChunkBytes : ℕ := 256 * 1024

/-- The most bytes of one line that are kept. -/
def maxTailRecordBytes : ℕ := 1024 * 1024

/-- The diagnostic of a line that is too long. -/
def recordTooLongError : String := "record_too_long"

def newlineByte : UInt8 := 10

def returnByte : UInt8 := 13

/-- The identity of a file and its size. -/
structure FileSnapshot where
  dev : ℕ
  inode : ℕ
  size : ℕ
  deriving DecidableEq

def FileSnapshot.identity (snapshot : FileSnapshot) : ℕ × ℕ := (snapshot.dev, snapshot.inode)

/-- Bytes that were read, with the file they came from. -/
structure ReadChunk where
  snapshot : FileSnapshot
  bytes : List UInt8
  deriving DecidableEq

/-- What the file system answers in one poll; `none` is an error. -/
structure ReadBoundary where
  snapshot : Option FileSnapshot
  /-- The bytes from an offset, at most so many. -/
  readFromBounded : ℕ → ℕ → Option ReadChunk
  /-- The same for the second read of a poll. -/
  rereadFromBounded : ℕ → ℕ → Option ReadChunk

/-- A finished line, or the diagnostic in the place of one. -/
structure TailRecord where
  offset : ℕ
  generation : ℕ
  bytes : List UInt8
  errorCode : Option String
  deriving DecidableEq

def TailRecord.data (offset generation : ℕ) (bytes : List UInt8) : TailRecord :=
  ⟨offset, generation, bytes, none⟩

def TailRecord.malformed (offset generation : ℕ) (errorCode : String) : TailRecord :=
  ⟨offset, generation, [], some errorCode⟩

/-- The state of one tail. -/
structure TailFile where
  /-- The next byte to read. -/
  offset : ℕ
  identity : ℕ × ℕ
  lastSize : ℕ
  /-- Counts the files and the truncations seen under the path. -/
  generation : ℕ
  /-- What is kept of the unfinished line. -/
  partialRecord : List UInt8 := []
  partialOffset : ℕ
  /-- The unfinished line is already too long. -/
  discarding : Bool := false
  readCalls : ℕ := 0
  bytesRead : ℕ := 0
  deriving DecidableEq

/-- A line without the carriage return at its end. -/
def withoutReturn (bytes : List UInt8) : List UInt8 :=
  if bytes.getLast? = some returnByte then bytes.dropLast else bytes

/-- Opens a tail: at the end of a file that was there before, else at its beginning. -/
def TailFile.open (snapshot : FileSnapshot) (contained : Bool) (startingGeneration : ℕ) : TailFile :=
  let offset := if contained then snapshot.size else 0
  { offset := offset
    identity := snapshot.identity
    lastSize := snapshot.size
    generation := startingGeneration
    partialOffset := offset }

namespace TailFile

/-- Starts over with another generation of the file. -/
def restart (t : TailFile) (identity : ℕ × ℕ) : TailFile :=
  { t with
    generation := satAddU64 t.generation 1
    offset := 0
    partialRecord := []
    partialOffset := 0
    discarding := false
    identity }

/-- Starts over when the file is another one or became shorter. -/
def observeSnapshot (t : TailFile) (snapshot : FileSnapshot) : TailFile :=
  let rotated := snapshot.identity ≠ t.identity
  let truncated := snapshot.size < t.lastSize ∨ snapshot.size < t.offset
  { (if rotated ∨ truncated then t.restart snapshot.identity else t) with lastSize := snapshot.size }

/-- Goes through the bytes from the cursor on, line by line; every round passes a line end, so that
the number of bytes is enough fuel. -/
def acceptFrom (start : ℕ) (bytes : List UInt8) : ℕ → ℕ → TailFile → List TailRecord →
    TailFile × List TailRecord
  | 0, _, t, records => (t, records)
  | fuel + 1, cursor, t, records =>
    if cursor < bytes.length then
      let remaining := bytes.drop cursor
      match t.discarding, remaining.findIdx? (· = newlineByte) with
      | true, some newline =>
        let cursor := cursor + (newline + 1)
        acceptFrom start bytes fuel cursor
          { t with partialOffset := satAddU64 start cursor, discarding := false } records
      | true, none => (t, records)
      | false, some newline =>
        let cursor := cursor + (newline + 1)
        let record :=
          if maxTailRecordBytes < t.partialRecord.length + newline then
            TailRecord.malformed t.partialOffset t.generation recordTooLongError
          else TailRecord.data t.partialOffset t.generation
            (withoutReturn (t.partialRecord ++ remaining.take newline))
        acceptFrom start bytes fuel cursor
          { t with partialRecord := [], partialOffset := satAddU64 start cursor } (records ++ [record])
      | false, none =>
        if maxTailRecordBytes < t.partialRecord.length + remaining.length then
          ({ t with partialRecord := [], discarding := true },
            records ++ [TailRecord.malformed t.partialOffset t.generation recordTooLongError])
        else ({ t with partialRecord := t.partialRecord ++ remaining }, records)
    else (t, records)

/-- Takes the bytes that were read at an offset. -/
def acceptBytes (t : TailFile) (start : ℕ) (bytes : List UInt8) : TailFile × List TailRecord :=
  let t := if t.partialRecord.isEmpty && !t.discarding then { t with partialOffset := start } else t
  acceptFrom start bytes bytes.length 0 { t with offset := satAddU64 start bytes.length } []

/-- Counts a read. -/
def noteRead (t : TailFile) (bytes : List UInt8) : TailFile :=
  { t with
    readCalls := satAddU64 t.readCalls 1
    bytesRead := satAddU64 t.bytesRead bytes.length }

/-- Reads one chunk up to a goalpost; the records, or `none` for an error. -/
def pollSnapshotToGoalpost (t : TailFile) (boundary : ReadBoundary) (snapshot : FileSnapshot)
    (goalpost : ℕ) : TailFile × Option (List TailRecord) :=
  let t := t.observeSnapshot snapshot
  if snapshot.size ≤ t.offset ∨ goalpost ≤ t.offset then (t, some [])
  else
    match boundary.readFromBounded t.offset (min (goalpost - t.offset) maxTailChunkBytes) with
    | none => (t, none)
    | some chunk =>
      let requestedOffset := t.offset
      let t := t.noteRead chunk.bytes
      if chunk.snapshot.identity ≠ t.identity then
        -- another file took the place between the two looks
        let t := { t.restart chunk.snapshot.identity with lastSize := chunk.snapshot.size }
        match boundary.rereadFromBounded 0 (min goalpost maxTailChunkBytes) with
        | none => (t, none)
        | some replacement =>
          let t := t.noteRead replacement.bytes
          if replacement.snapshot.identity ≠ t.identity then (t, some [])
          else (t.acceptBytes 0 replacement.bytes).map id some
      else
        ({ t with lastSize := chunk.snapshot.size }.acceptBytes requestedOffset chunk.bytes).map id some

/-- Looks at the file and reads what is new. -/
def poll (t : TailFile) (boundary : ReadBoundary) : TailFile × Option (List TailRecord) :=
  match boundary.snapshot with
  | none => (t, none)
  | some snapshot => t.pollSnapshotToGoalpost boundary snapshot snapshot.size

/-- Freezes the size of the file for a cycle. -/
def cycleGoalpost (t : TailFile) (boundary : ReadBoundary) : TailFile × Option ℕ :=
  match boundary.snapshot with
  | none => (t, none)
  | some snapshot => (t.observeSnapshot snapshot, some snapshot.size)

/-- Reads one chunk and does not go beyond the goalpost. -/
def pollToGoalpost (t : TailFile) (boundary : ReadBoundary) (goalpost : ℕ) :
    TailFile × Option (List TailRecord) :=
  match boundary.snapshot with
  | none => (t, none)
  | some snapshot => t.pollSnapshotToGoalpost boundary snapshot goalpost

end TailFile

end HerdrTop
