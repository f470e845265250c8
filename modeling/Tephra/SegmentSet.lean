import Mathlib.Data.List.DropRight
import Mathlib.Data.List.Sort
import Tephra.BatchWriting
import Tephra.SegmentHeader
import Tephra.SegmentIteration

/-!
# The segment set

Many segment files form one log addressed by position.  `SegmentSet.openSet`
classifies the files of a directory, checks that their base positions are
contiguous and recovers the last one, and `SegmentSet.appendBatch` appends a
batch as a unit, rolling over to a new segment when the batch does not fit.

A directory is the list of its segment files under their base positions.  The
system calls of an append take their results from the lists of an `AppendEnv`,
one list for each phase.
-/

namespace Tephra

namespace Log

open ByteImage Fallible Seglog

/-- The first position assigned in a fresh log. -/
def firstPosition : Nat := 1

/-- Settings shared by the segments of a set. -/
structure SegmentConfig where
  segmentSize : Nat
  maxRecordLen : Nat
  headerSize : Nat
deriving DecidableEq, Repr

/-- The errors of the log.  A file is named by its base position. -/
inductive LogError where
  | invalidConfig (reason : String)
  | io (path : Nat)
  | header (path : Nat) (source : HeaderError)
  | basePositionMismatch (path header name : Nat)
  | unwrittenNonLast (path : Nat)
  | nonContiguous (path found expected : Nat)
  | positionMismatch (path found expected : Nat)
  | recordTooLarge (size max : Nat)
  | batchTooLarge (size capacity : Nat)
  | emptyBatch
  | emptyRecord
  | notFound (position : Nat)
  | write (path : Nat) (source : WriteError)
  | read (path : Nat) (source : ReadFault)
deriving DecidableEq, Repr

namespace SegmentConfig

/-- The configuration of a segment size with the conventional defaults. -/
def new (segmentSize : Nat) : SegmentConfig :=
  ⟨segmentSize, segmentSize / 4, segmentHeaderSize⟩

/-- Reject configurations that cannot address, or usefully store, records. -/
def validate (self : SegmentConfig) : Except LogError Unit :=
  if self.segmentSize ≤ self.headerSize then
    .error (.invalidConfig
      s!"segment_size {self.segmentSize} must exceed header_size {self.headerSize}")
  else if self.segmentSize > u32Max then
    .error (.invalidConfig
      s!"segment_size {self.segmentSize} exceeds u32::MAX; byte offsets are stored as u32")
  else if self.maxRecordLen < recordHeadSize then
    .error (.invalidConfig
      s!"max_record_len {self.maxRecordLen} is smaller than a record header ({recordHeadSize} bytes)")
  else
    let usable := self.segmentSize - self.headerSize
    let need := self.maxRecordLen + recordHeadSize + commitMarkerPayload
    if need > usable then
      .error (.invalidConfig
        s!"a max-size record plus its commit marker ({need} bytes) does not fit a segment's usable space ({usable} bytes)")
    else
      .ok ()

/-- Space a segment has for batches. -/
def capacity (self : SegmentConfig) : Nat :=
  self.segmentSize - self.headerSize

end SegmentConfig

/-- The segment files of a directory, each under its base position. -/
abbrev Directory := List (Nat × List UInt8)

namespace Directory

/-- The contents of a file. -/
def read (dir : Directory) (base : Nat) : List UInt8 :=
  (dir.lookup base).getD []

/-- Replace the contents of a file. -/
def write (dir : Directory) (base : Nat) (file : List UInt8) : Directory :=
  dir.map fun entry => if entry.1 = base then (base, file) else entry

/-- The directory with the files sorted by base position. -/
def sorted (dir : Directory) : Directory :=
  dir.insertionSort fun first second => first.1 ≤ second.1

end Directory

/-- A segment: its base position, the durable extent its readers use, and the
byte offset of each of its data records. -/
structure Segment where
  basePosition : Nat
  flushedOffset : Option Nat
  offsets : List Nat
deriving DecidableEq, Repr

/-- The segments of a log.  The flushed offset of the active segment is the one
of its writer. -/
structure SegmentSet where
  config : SegmentConfig
  sealed : List Segment
  activeBase : Nat
  activeOffsets : List Nat
  activeWriter : Writer
  nextPosition : Nat
deriving DecidableEq, Repr

/-- The files on disk and the set opened over them. -/
structure LogState where
  dir : Directory
  set : SegmentSet
deriving DecidableEq, Repr

/-- A directory, with the results of the system calls to come. -/
structure DirState where
  dir : Directory
  outcomes : List IoOutcome
deriving DecidableEq, Repr

/-- What the environment decides during an append: the time, and the results of
the system calls of each phase. -/
structure AppendEnv where
  now : UInt64
  sealIo : List IoOutcome
  createIo : List IoOutcome
  batchIo : List IoOutcome
  rewindIo : List IoOutcome
deriving DecidableEq, Repr

/-- No system call fails. -/
def AppendEnv.quiet (now : UInt64) : AppendEnv :=
  ⟨now, [], [], [], []⟩

variable (crc : List UInt8 → UInt32)

/-- A system call that leaves the files as they are. -/
def DirState.call (error : LogError) : Op DirState LogError Unit := fun self =>
  match self.outcomes.headD .ok with
  | .ok => (.ok (), { self with outcomes := self.outcomes.tail })
  | .fail _ => (.error error, { self with outcomes := self.outcomes.tail })

/-- Create an empty file that must not exist. -/
def DirState.createNew (base : Nat) : Op DirState LogError Unit := fun self =>
  match self.outcomes.headD .ok with
  | .fail _ => (.error (.write base .io), { self with outcomes := self.outcomes.tail })
  | .ok =>
      if self.dir.any fun entry => entry.1 == base then
        (.error (.write base .alreadyExists), { self with outcomes := self.outcomes.tail })
      else
        (.ok (), ⟨self.dir ++ [(base, [])], self.outcomes.tail⟩)

/-- Allocate the file, zero-filled.  A failing call may have allocated a part. -/
def DirState.fallocate (base size : Nat) : Op DirState LogError Unit := fun self =>
  match self.outcomes.headD .ok with
  | .ok => (.ok (), ⟨self.dir.write base (List.replicate size 0), self.outcomes.tail⟩)
  | .fail written =>
      (.error (.write base .io),
        ⟨self.dir.write base (List.replicate (min written size) 0), self.outcomes.tail⟩)

/-- Write bytes at the beginning of a file. -/
def DirState.writeHeader (base : Nat) (bytes : List UInt8) : Op DirState LogError Unit :=
  fun self =>
    match self.outcomes.headD .ok with
    | .ok =>
        (.ok (), ⟨self.dir.write base (writeAt (self.dir.read base) 0 bytes),
          self.outcomes.tail⟩)
    | .fail written =>
        (.error (.io base),
          ⟨self.dir.write base (writeAt (self.dir.read base) 0 (bytes.take written)),
            self.outcomes.tail⟩)

/-- Create a segment file: allocate it, make it and its name durable, and write
its header. -/
def createSegment (config : SegmentConfig) (base : Nat) (now : UInt64) :
    Op DirState LogError Writer := do
  if config.segmentSize ≤ config.headerSize then
    Op.fail (.write base (.invalidStartOffset config.segmentSize config.headerSize))
  else do
    DirState.createNew base
    DirState.fallocate base config.segmentSize
    DirState.call (.write base .io)
    DirState.call (.write base .io)
    DirState.writeHeader base
      (SegmentHeader.toBytes crc ⟨SegmentHeader.currentVersion, now.toNat, base⟩)
    DirState.call (.io base)
    let self ← Op.get
    pure ((Writer.created (self.dir.read base) config.segmentSize
      config.headerSize).setMaxRecord config.maxRecordLen)

/-- The header bytes of a file, or `none` when the file is shorter. -/
def readHeader (file : List UInt8) : Option (List UInt8) :=
  readExact file 0 segmentHeaderSize

/-- Whether the creation of a file did not finish. -/
def classify (entry : Nat × List UInt8) : Except LogError Bool :=
  match readHeader entry.2 with
  | none => .ok true
  | some buf =>
      match SegmentHeader.fromBytes crc buf with
      | .ok header =>
          if header.basePosition ≠ entry.1 then
            .error (.basePositionMismatch entry.1 header.basePosition entry.1)
          else
            .ok false
      | .error .unwritten => .ok true
      | .error source => .error (.header entry.1 source)

/-- Classify every file. -/
def classifyAll : Directory → Except LogError (List ((Nat × List UInt8) × Bool))
  | [] => .ok []
  | entry :: entries =>
      match classify crc entry with
      | .error error => .error error
      | .ok unwritten =>
          match classifyAll entries with
          | .error error => .error error
          | .ok rest => .ok ((entry, unwritten) :: rest)

/-- The written files.  A trailing run of unwritten files is dropped; one before
a written file is an error. -/
def keepWritten (classified : List ((Nat × List UInt8) × Bool)) :
    Except LogError Directory :=
  let kept := classified.rdropWhile fun entry => entry.2
  match kept.find? fun entry => entry.2 with
  | some entry => .error (.unwrittenNonLast entry.1.1)
  | none => .ok (kept.map fun entry => entry.1)

/-- Scan the sealed segments, whose bases must be contiguous. -/
def openSealed (config : SegmentConfig) :
    (expectedBase : Nat) → Directory → Except LogError (List Segment × Nat)
  | expectedBase, [] => .ok ([], expectedBase)
  | expectedBase, (base, file) :: entries =>
      if base ≠ expectedBase then
        .error (.nonContiguous base base expectedBase)
      else
        match scanOffsets crc file none config.headerSize with
        | .error fault => .error (.read base fault)
        | .ok offsets =>
            match openSealed config (base + offsets.length) entries with
            | .error error => .error error
            | .ok (segments, nextBase) => .ok (⟨base, none, offsets⟩ :: segments, nextBase)

/-- Recover the active segment and check its last marker against its records. -/
def openActive (config : SegmentConfig) (sealed : List Segment) (expectedBase : Nat)
    (base : Nat) (file : List UInt8) : Except LogError SegmentSet :=
  if base ≠ expectedBase then
    .error (.nonContiguous base base expectedBase)
  else
    match Writer.openSegment crc file config.segmentSize config.headerSize with
    | .error source => .error (.write base source)
    | .ok writer =>
        let writer := writer.setMaxRecord config.maxRecordLen
        match scanOffsets crc file (some writer.flushedOffset) config.headerSize with
        | .error fault => .error (.read base fault)
        | .ok offsets =>
            let count := offsets.length
            if writer.lastPosition.any fun highest => highest + 1 != base + count then
              .error (.positionMismatch base (writer.lastPosition.getD 0) (base + count - 1))
            else
              .ok ⟨config, sealed, base, offsets, writer, base + count⟩

namespace SegmentSet

/-- Open, or create, the log of a directory.  The files of a trailing unwritten
run are deleted. -/
def openSet (config : SegmentConfig) (now : UInt64) (dir : Directory) :
    Except LogError SegmentSet × Directory :=
  match config.validate with
  | .error error => (.error error, dir)
  | .ok () =>
      match classifyAll crc dir.sorted with
      | .error error => (.error error, dir)
      | .ok classified =>
          match keepWritten classified with
          | .error error => (.error error, dir)
          | .ok valid =>
              match valid.getLast? with
              | none =>
                  match createSegment crc config firstPosition now ⟨[], []⟩ with
                  | (.error error, created) => (.error error, created.dir)
                  | (.ok writer, created) =>
                      (.ok ⟨config, [], firstPosition, [], writer, firstPosition⟩, created.dir)
              | some active =>
                  match openSealed crc config firstPosition valid.dropLast with
                  | .error error => (.error error, valid)
                  | .ok (sealed, expectedBase) =>
                      (openActive crc config sealed expectedBase active.1 active.2, valid)

/-- The active segment as its readers see it. -/
def active (self : SegmentSet) : Segment :=
  ⟨self.activeBase, some self.activeWriter.flushedOffset, self.activeOffsets⟩

/-- The first record that `append_batch` rejects, if any. -/
def checkRecords (maxRecordLen : Nat) : List (List UInt8) → Option LogError
  | [] => none
  | record :: records =>
      if record.isEmpty then
        some .emptyRecord
      else if recordHeadSize + record.length > maxRecordLen then
        some (.recordTooLarge (recordHeadSize + record.length) maxRecordLen)
      else
        checkRecords maxRecordLen records

/-- Run an operation of the active segment's writer; the file changes with it. -/
def onWriter {α : Type} (outcomes : List IoOutcome) (op : Op Writer WriteError α) :
    Op LogState LogError α := fun self =>
  let (result, after) := op (self.set.activeWriter.withOutcomes outcomes)
  (result.mapError fun source => .write self.set.activeBase source,
    ⟨self.dir.write self.set.activeBase after.writer.file,
      { self.set with activeWriter := after.withOutcomes [] }⟩)

/-- Create the segment of the next position and make it the active one. -/
def installSegment (env : AppendEnv) : Op LogState LogError Unit := fun self =>
  match createSegment crc self.set.config self.set.nextPosition env.now
      ⟨self.dir, env.createIo⟩ with
  | (.error error, created) => (.error error, { self with dir := created.dir })
  | (.ok writer, created) =>
      (.ok (), ⟨created.dir,
        { self.set with
          sealed := self.set.sealed ++ [self.set.active]
          activeBase := self.set.nextPosition
          activeOffsets := []
          activeWriter := writer }⟩)

/-- Seal the active segment and install a fresh one at the next position. -/
def rollover (env : AppendEnv) : Op LogState LogError Unit := do
  let _ ← onWriter env.sealIo Writer.sync
  installSegment crc env

/-- Write a batch to the active segment, and rewind the writer on a failure. -/
def writeRecords (env : AppendEnv) (records : List (List UInt8)) :
    Op LogState LogError (Nat × Nat) := fun self =>
  let first := self.set.nextPosition
  let last := first + records.length - 1
  let rewindTo := self.set.activeWriter.writeOffset
  match onWriter env.batchIo (Writer.writeBatch crc records last) self with
  | (.ok newOffsets, self) =>
      (.ok (first, last),
        { self with
          set := { self.set with
            activeOffsets := self.set.activeOffsets ++ newOffsets
            nextPosition := last + 1 } })
  | (.error error, self) =>
      match onWriter env.rewindIo (Writer.rewindTo rewindTo) self with
      | (.ok _, self) => (.error error, self)
      | (.error rewindError, self) => (.error rewindError, self)

/-- What precedes the writing of a batch: the batch is checked, and the active
segment is rolled over when the batch does not fit in it. -/
def prepareBatch (env : AppendEnv) (records : List (List UInt8)) :
    Op LogState LogError Unit := fun self =>
  if records.isEmpty then
    (.error .emptyBatch, self)
  else
    match checkRecords self.set.config.maxRecordLen records with
    | some error => (.error error, self)
    | none =>
        let totalSize := batchSize records
        if totalSize > self.set.config.capacity then
          (.error (.batchTooLarge totalSize self.set.config.capacity), self)
        else if totalSize > self.set.activeWriter.remainingBytes then
          rollover crc env self
        else
          (.ok (), self)

/-- Append a batch as a single durable unit; the result is its first and last
position. -/
def appendBatch (env : AppendEnv) (records : List (List UInt8)) :
    Op LogState LogError (Nat × Nat) := do
  prepareBatch crc env records
  writeRecords crc env records

/-- The records of a segment under their positions. -/
def readSegment (dir : Directory) (headerSize : Nat) (segment : Segment) :
    Except ReadFault (List (Nat × List UInt8)) :=
  match (Reader.openSegment (dir.read segment.basePosition) segment.flushedOffset).iterate
      crc 0 headerSize with
  | .error fault => .error fault
  | .ok records =>
      .ok (records.zipIdx.map fun entry => (segment.basePosition + entry.2, entry.1.data))

/-- The records of segments under their positions. -/
def readSegments (dir : Directory) (headerSize : Nat) :
    List Segment → Except ReadFault (List (Nat × List UInt8))
  | [] => .ok []
  | segment :: segments =>
      match readSegment crc dir headerSize segment with
      | .error fault => .error fault
      | .ok records =>
          match readSegments dir headerSize segments with
          | .error fault => .error fault
          | .ok later => .ok (records ++ later)

/-- Every record of the log under its position, by a scan of all segments. -/
def readLog (self : LogState) : Except ReadFault (List (Nat × List UInt8)) :=
  readSegments crc self.dir self.set.config.headerSize (self.set.sealed ++ [self.set.active])

end SegmentSet

end Log

end Tephra
