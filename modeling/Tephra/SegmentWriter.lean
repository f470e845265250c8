import Tephra.FallibleOps
import Tephra.SegmentRecover

/-!
# Writing a segment

The writer buffers 16 KB before it touches the file.  Every system call may
fail, a failing write after part of its bytes.  The results of the coming
calls are a list in the state of the buffered writer, and all calls beyond that
list succeed.
-/

namespace Tephra

namespace Seglog

open ByteImage Fallible

/-- The result of one system call.  A failing write has written some, but not all,
of its bytes, and a failing read has read some. -/
inductive IoOutcome where
  | ok
  | fail (written : Nat)
deriving DecidableEq, Repr

/-- The errors of a writer. -/
inductive WriteError where
  | segmentFull (attempted available : Nat)
  | invalidStartOffset (size startOffset : Nat)
  | recordTooLarge (size max : Nat)
  | io
  | alreadyExists
deriving DecidableEq, Repr

/-- Capacity of the write buffer. -/
def writeBufSize : Nat := 16 * 1024

/-- A buffered writer over a file. -/
structure BufWriter where
  file : List UInt8
  cursor : Nat
  buf : List UInt8
  outcomes : List IoOutcome
deriving DecidableEq, Repr

namespace BufWriter

/-- Write to the file at the cursor. -/
def writeFile (bytes : List UInt8) : Op BufWriter WriteError Unit := fun self =>
  match self.outcomes.headD .ok with
  | .ok =>
      (.ok (), ⟨writeAt self.file self.cursor bytes, self.cursor + bytes.length, self.buf,
        self.outcomes.tail⟩)
  | .fail written =>
      let part := bytes.take (min written (bytes.length - 1))
      (.error .io, ⟨writeAt self.file self.cursor part, self.cursor + part.length, self.buf,
        self.outcomes.tail⟩)

/-- Write the buffered bytes, and keep those that a failing write left over. -/
def flushBuf : Op BufWriter WriteError Unit := fun self =>
  if self.buf = [] then
    (.ok (), self)
  else
    let (result, after) := writeFile self.buf self
    (result, { after with buf := self.buf.drop (after.cursor - self.cursor) })

/-- Add bytes to the buffer. -/
def push (bytes : List UInt8) : Op BufWriter WriteError Unit :=
  Op.modify fun self => { self with buf := self.buf ++ bytes }

/-- Write through the buffer: bytes that do not fit flush it first, and bytes of
at least its capacity go to the file directly. -/
def writeAll (bytes : List UInt8) : Op BufWriter WriteError Unit := do
  let self ← Op.get
  if bytes.length < writeBufSize - self.buf.length then
    push bytes
  else do
    (if bytes.length > writeBufSize - self.buf.length then flushBuf else pure ())
    (if bytes.length ≥ writeBufSize then writeFile bytes else push bytes)

/-- Move the cursor, after flushing the buffer. -/
def seek (offset : Nat) : Op BufWriter WriteError Unit := do
  flushBuf
  Op.modify fun self => { self with cursor := offset }

/-- Make the file durable. -/
def syncData : Op BufWriter WriteError Unit := fun self =>
  match self.outcomes.headD .ok with
  | .ok => (.ok (), { self with outcomes := self.outcomes.tail })
  | .fail _ => (.error .io, { self with outcomes := self.outcomes.tail })

end BufWriter

/-- A writer appending records to a segment file. -/
structure Writer where
  writer : BufWriter
  size : Nat
  startOffset : Nat
  writeOffset : Nat
  flushedOffset : Nat
  dirty : Bool
  maxRecord : Nat
  lastPosition : Option Nat
deriving DecidableEq, Repr

/-- Largest record that leaves room for a commit marker after the start offset. -/
def recordHardLimit (size startOffset : Nat) : Nat :=
  size - startOffset - (recordHeadSize + commitMarkerPayload)

/-- A quarter of the segment, within the hard limit and the encodable length. -/
def defaultMaxRecord (size startOffset : Nat) : Nat :=
  min (min (size / 4) (recordHardLimit size startOffset)) maxRecordLen

variable (crc : List UInt8 → UInt32)

namespace Writer

/-- Run an operation of the buffered writer. -/
def onFile {α : Type} (op : Op BufWriter WriteError α) : Op Writer WriteError α :=
  Op.onPart Writer.writer (fun self writer => { self with writer := writer }) op

/-- The writer with the results of the system calls to come. -/
def withOutcomes (self : Writer) (outcomes : List IoOutcome) : Writer :=
  { self with writer := { self.writer with outcomes := outcomes } }

/-- A writer over a freshly created file. -/
def created (file : List UInt8) (size startOffset : Nat) : Writer :=
  ⟨⟨file, startOffset, [], []⟩, size, startOffset, startOffset, startOffset, false,
    defaultMaxRecord size startOffset, none⟩

/-- Open an existing segment at its committed end. -/
def openSegment (file : List UInt8) (size startOffset : Nat) : Except WriteError Writer :=
  if size ≤ startOffset then
    .error (.invalidStartOffset size startOffset)
  else
    let recovered := recover crc file size startOffset
    let writeOffset := recovered.committedOffset
    .ok ⟨⟨file, writeOffset, [], []⟩, size, startOffset, writeOffset, writeOffset, false,
      defaultMaxRecord size startOffset, recovered.lastPosition⟩

/-- Set the maximum record size, so that a commit marker still fits after it. -/
def setMaxRecord (self : Writer) (maxRecord : Nat) : Writer :=
  { self with maxRecord := min maxRecord (recordHardLimit self.size self.startOffset) }

/-- The number of bytes remaining in the segment. -/
def remainingBytes (self : Writer) : Nat :=
  self.size - self.writeOffset

/-- Append a record; the result is its offset and its framed length. -/
def append (header data : List UInt8) : Op Writer WriteError (Nat × Nat) := do
  let self ← Op.get
  let offset := self.writeOffset
  let totalRecordLen := recordHeadSize + header.length + data.length
  if totalRecordLen > self.maxRecord then
    Op.fail (.recordTooLarge totalRecordLen self.maxRecord)
  else if offset + totalRecordLen > self.size then
    Op.fail (.segmentFull offset (self.size - offset))
  else do
    Op.modify fun self => { self with dirty := true }
    let lengthBytes := LittleEndian.encode lenSize (header.length + data.length)
    let checksum := calculateCrc32c crc lengthBytes header data
    onFile (BufWriter.writeAll lengthBytes)
    onFile (BufWriter.writeAll (LittleEndian.encode crc32cSize checksum.toNat))
    onFile (BufWriter.writeAll header)
    onFile (BufWriter.writeAll data)
    Op.modify fun self => { self with writeOffset := self.writeOffset + totalRecordLen }
    pure (offset, totalRecordLen)

/-- Write a commit marker over the records since the last one. -/
def writeCommitMarker (highestPosition : Nat) : Op Writer WriteError Unit := do
  let self ← Op.get
  let offset := self.writeOffset
  let total := recordHeadSize + commitMarkerPayload
  if offset + total > self.size then
    Op.fail (.segmentFull offset (self.size - offset))
  else do
    let lengthBytes := LittleEndian.encode lenSize (commitMarkerPayload ||| controlFlag)
    let payload := markerPayload highestPosition
    let checksum := calculateCrc32c crc lengthBytes [] payload
    Op.modify fun self => { self with dirty := true }
    onFile (BufWriter.writeAll lengthBytes)
    onFile (BufWriter.writeAll (LittleEndian.encode crc32cSize checksum.toNat))
    onFile (BufWriter.writeAll payload)
    Op.modify fun self => { self with writeOffset := self.writeOffset + total }

/-- Flush the buffer and make the file durable, when anything was written. -/
def sync : Op Writer WriteError Nat := do
  let self ← Op.get
  if self.dirty then do
    onFile BufWriter.flushBuf
    onFile BufWriter.syncData
    Op.modify fun self => { self with flushedOffset := self.writeOffset, dirty := false }
    pure self.writeOffset
  else
    pure self.writeOffset

/-- Write a commit marker, then sync. -/
def commit (highestPosition : Nat) : Op Writer WriteError Nat := do
  writeCommitMarker crc highestPosition
  Op.modify fun self => { self with lastPosition := some highestPosition }
  sync

/-- Discard everything appended since an offset, resetting the cursor there. -/
def rewindTo (offset : Nat) : Op Writer WriteError Unit := do
  let self ← Op.get
  if offset ≥ self.writeOffset then
    pure ()
  else do
    onFile (BufWriter.seek offset)
    Op.modify fun self =>
      { self with
        writeOffset := offset
        dirty := decide (offset > self.flushedOffset) }

/-- Append records one after another; the result is their offsets. -/
def appendRecords : List (List UInt8) → Op Writer WriteError (List Nat)
  | [] => pure []
  | record :: records => do
      let (offset, _) ← append crc [] record
      let offsets ← appendRecords records
      pure (offset :: offsets)

/-- Append the records of a batch, then a commit marker, and sync them together. -/
def writeBatch (records : List (List UInt8)) (highestPosition : Nat) :
    Op Writer WriteError (List Nat) := do
  let offsets ← appendRecords crc records
  let _ ← commit crc highestPosition
  pure offsets

end Writer

/-- The bytes of a batch: its records and the commit marker. -/
def batchBytes (records : List (List UInt8)) (highestPosition : Nat) : List UInt8 :=
  (records.map (recordBytes crc [])).flatten ++ markerBytes crc highestPosition

end Seglog

end Tephra
