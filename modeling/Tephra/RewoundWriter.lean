import Tephra.Crc32
import Tephra.FailingCalls
import Tephra.Histories

/-!
# A writer that is rewound

A batch may fail at any system call, and the writer is then rewound to the offset where the
batch began.  The file cursor and the write offset agree again unless the failure struck the
first record of the batch: there the rewind finds nothing to go back over, and the bytes that
were already handed to the writer stay before those of the next batch.
-/

namespace Tephra

namespace Seglog

open ByteImage FrameChain Fallible

/-- The header of a record, which has a fixed size. -/
abbrev FixedHeader (headerSize : Nat) :=
  { bytes : List UInt8 // bytes.length = headerSize }

/-- A record that was appended at an offset. -/
structure Appended (headerSize : Nat) where
  offset : Nat
  header : FixedHeader headerSize
  data : List UInt8
deriving DecidableEq

/-- A writer and its user: the offset where the batch began, the records appended to it, the
records of the batches that were committed, and whether a system call failed since. -/
structure Batching (headerSize : Nat) where
  writer : Writer
  start : Nat
  pending : List (Appended headerSize)
  acked : List (Appended headerSize)
  failed : Bool

/-- A call of the writer. -/
inductive WriterCall (headerSize : Nat) where
  | append (header : FixedHeader headerSize) (data : List UInt8)
  | commit (highestPosition : Nat)
  | sync
  | rewind

variable {headerSize : Nat}

namespace Appended

/-- The bytes of an appended record. -/
def bytes (crc : List UInt8 → UInt32) (record : Appended headerSize) : List UInt8 :=
  recordBytes crc record.header.1 record.data

/-- The record as recovery finds it. -/
def toRecord (record : Appended headerSize) : Nat × List UInt8 :=
  (record.offset, record.header.1 ++ record.data)

end Appended

/-- The bytes of records, one after another. -/
def appendedBytes (crc : List UInt8 → UInt32) (records : List (Appended headerSize)) :
    List UInt8 :=
  (records.map (Appended.bytes crc)).flatten

namespace Batching

variable (crc : List UInt8 → UInt32)

/-- Begin with a batch at the write offset. -/
def begin_ (headerSize : Nat) (writer : Writer) : Batching headerSize :=
  ⟨writer, writer.writeOffset, [], [], false⟩

/-- A call that was answered with an error. -/
def refused (state : Batching headerSize) (writer : Writer) (error : WriteError) :
    Batching headerSize :=
  { state with writer := writer, failed := decide (error = .io) }

/-- One call, with the results of its system calls.  After a failed system call the user
rewinds to where the batch began. -/
def step (state : Batching headerSize) :
    WriterCall headerSize × List IoOutcome → Option (Batching headerSize)
  | (.append header data, io) =>
      if state.failed then
        none
      else
        match Writer.append crc header.1 data (state.writer.withOutcomes io) with
        | (.ok (offset, _), writer) =>
            some { state with
              writer := writer
              pending := state.pending ++ [⟨offset, header, data⟩] }
        | (.error error, writer) => some (state.refused writer error)
  | (.commit highestPosition, io) =>
      if state.failed then
        none
      else
        match Writer.commit crc highestPosition (state.writer.withOutcomes io) with
        | (.ok _, writer) =>
            some ⟨writer, writer.writeOffset, [], state.acked ++ state.pending, false⟩
        | (.error error, writer) => some (state.refused writer error)
  | (.sync, io) =>
      if state.failed then
        none
      else
        match Writer.sync (state.writer.withOutcomes io) with
        | (.ok _, writer) => some { state with writer := writer }
        | (.error error, writer) => some (state.refused writer error)
  | (.rewind, io) =>
      match Writer.rewindTo state.start (state.writer.withOutcomes io) with
      | (.ok _, writer) => some { state with writer := writer, pending := [], failed := false }
      | (.error _, writer) => some { state with writer := writer, failed := true }

/-- The steps after which acknowledged records stay.  A record that is accepted has a length
the framing can represent, and a rewind finds either an appended record to go back over or a
writer with nothing to go back over. -/
def StepAllowed (state : Batching headerSize) :
    WriterCall headerSize × List IoOutcome → Prop
  | (.append header data, _) =>
      recordHeadSize + header.1.length + data.length ≤ state.writer.maxRecord →
        header.1.length + data.length ≤ maxRecordLen
  | (.commit _, _) => True
  | (.sync, _) => True
  | (.rewind, _) => state.writer.writeOffset ≤ state.start → state.writer.Clean

/-- Acknowledged records stand at their offsets, and a writer that opens the file again
recovers them in their order and lets them be read. -/
structure Kept (size startOffset : Nat) (state : Batching headerSize) : Prop where
  in_place : ∀ record ∈ state.acked,
    readExact state.writer.writer.file record.offset (record.bytes crc).length =
      some (record.bytes crc)
  recovered : ∃ reopened entries before after,
    Writer.openSegment crc state.writer.writer.file size startOffset = .ok reopened ∧
    Chain (recordAt crc state.writer.writer.file size) startOffset entries
      reopened.writeOffset ∧
    dataRecords entries = before ++ state.acked.map Appended.toRecord ++ after ∧
    ∀ record ∈ state.acked, ∃ reader,
      (Reader.openSegment state.writer.writer.file (some reopened.flushedOffset)).readRecord
          crc headerSize record.offset =
        (.ok ⟨record.header.1, record.data, record.offset, (record.bytes crc).length⟩, reader)

variable {crc}

/-- Records of a batch, each at the offset where the one before it ends. -/
def LaidOut (crc : List UInt8 → UInt32) : Nat → List (Appended headerSize) → Prop
  | _, [] => True
  | start, record :: records =>
      record.offset = start ∧ LaidOut crc (start + (record.bytes crc).length) records

theorem LaidOut.snoc {records : List (Appended headerSize)} {record : Appended headerSize}
    {start : Nat} (laid : LaidOut crc start records)
    (offsetEq : record.offset = start + (appendedBytes crc records).length) :
    LaidOut crc start (records ++ [record]) := by
  induction records generalizing start with
  | nil => exact ⟨by simpa [appendedBytes] using offsetEq, trivial⟩
  | cons first records ih =>
      refine ⟨laid.1, ih laid.2 ?_⟩
      simp only [appendedBytes, List.map_cons, List.flatten_cons, List.length_append] at offsetEq ⊢
      omega

/-- The length of the record is one the framing can represent. -/
def Representable (record : Appended headerSize) : Prop :=
  record.header.1.length + record.data.length ≤ maxRecordLen

/-- The bytes of a record stand at its offset, before a stop. -/
structure Placed (crc : List UInt8 → UInt32) (image : List UInt8) (stop : Nat)
    (record : Appended headerSize) : Prop where
  ends : record.offset + (record.bytes crc).length ≤ stop
  bytes : readExact image record.offset (record.bytes crc).length = some (record.bytes crc)

theorem Placed.congr {image other : List UInt8} {stop stop' : Nat}
    {record : Appended headerSize} (placed : Placed crc image stop record)
    (agree : AgreeOn image other 0 stop) (later : stop ≤ stop') (inside : stop ≤ other.length) :
    Placed crc other stop' record where
  ends := placed.ends.trans later
  bytes := readExact_congr placed.bytes (agree.mono (Nat.zero_le _) placed.ends)
    (placed.ends.trans inside)

/-- Records laid out in a file are placed there, and read one after another. -/
theorem LaidOut.chain (nonzero : crc (LittleEndian.encode lenSize 0) ≠ 0) {image : List UInt8}
    (size : Nat) {records : List (Appended headerSize)} {start : Nat}
    (laid : LaidOut crc start records) (representable : ∀ record ∈ records, Representable record)
    (fits : start + (appendedBytes crc records).length ≤ size)
    (read : readExact image start (appendedBytes crc records).length =
      some (appendedBytes crc records)) :
    (∀ record ∈ records,
        Placed crc image (start + (appendedBytes crc records).length) record) ∧
      ∃ entries,
        Chain (recordAt crc image size) start entries
          (start + (appendedBytes crc records).length) ∧
        dataRecords entries = records.map Appended.toRecord := by
  induction records generalizing start with
  | nil => exact ⟨by simp, [], .nil start, rfl⟩
  | cons record records ih =>
      have bytesEq : appendedBytes crc (record :: records) =
          record.bytes crc ++ appendedBytes crc records := rfl
      obtain ⟨rfl, laid⟩ := laid
      rw [bytesEq] at fits read ⊢
      rw [List.length_append] at fits ⊢
      have first := readExact_left read
      have here : recordAt crc image size record.offset = _ :=
        recordAt_recordBytes_of_checksum nonzero (representable record (by simp)) (by
          change record.offset + (record.bytes crc).length ≤ size
          omega) first
      obtain ⟨placed, entries, chain, dataEq⟩ :=
        ih laid (fun record member => representable record (by simp [member])) (by omega)
          (readExact_right read)
      rw [← Nat.add_assoc]
      constructor
      · intro other member
        rcases List.mem_cons.mp member with rfl | later
        · exact ⟨by omega, first⟩
        · exact placed other later
      · refine ⟨_, .cons here chain, ?_⟩
        rw [List.map_cons, ← dataEq]
        rfl

/-- The first part of a segment is a committed run with the given data records. -/
structure Standing (crc : List UInt8 → UInt32) (size startOffset : Nat)
    (records : List (Nat × List UInt8)) (image : List UInt8) (stop : Nat) : Prop where
  inside : stop ≤ image.length
  fits : stop ≤ size
  committed : ∃ entries, Chain (recordAt crc image size) startOffset entries stop ∧
    (entries = [] ∨ EndsMarked IsMarker entries) ∧ dataRecords entries = records

theorem Standing.congr {size startOffset stop : Nat} {records : List (Nat × List UInt8)}
    {image other : List UInt8} (standing : Standing crc size startOffset records image stop)
    (agree : AgreeOn image other 0 stop) (inside : stop ≤ other.length) :
    Standing crc size startOffset records other stop where
  inside := inside
  fits := standing.fits
  committed := by
    obtain ⟨entries, chain, ends, dataEq⟩ := standing.committed
    exact ⟨entries, chain_congr chain (agree.mono (Nat.zero_le _) (Nat.le_refl _))
      standing.fits, ends, dataEq⟩

theorem standing_of_openSegment {file : List UInt8} {size startOffset : Nat} {opened : Writer}
    (inside : startOffset ≤ file.length)
    (isOpened : Writer.openSegment crc file size startOffset = .ok opened) :
    opened.writer = ⟨file, opened.writeOffset, [], []⟩ ∧ opened.size = size ∧
      ∃ records, Standing crc size startOffset records file opened.writeOffset := by
  unfold Writer.openSegment at isOpened
  split at isOpened
  · cases isOpened
  next room =>
  obtain rfl := Except.ok.inj isOpened
  obtain ⟨entries, longest, _⟩ := recover_spec crc file size startOffset
  refine ⟨rfl, rfl, dataRecords entries, ?_, ?_, entries, longest.chain, longest.ends, rfl⟩
  · rcases longest.chain.stop_le (recordAt_inside file size) with same | below
    · exact same.le.trans inside
    · exact below
  · rcases longest.chain.stop_le (recordAt_advances file size) with same | below
    · change (recover crc file size startOffset).committedOffset ≤ size
      omega
    · exact below

/-- What was sent since the batch began, while no system call failed. -/
structure Underway (crc : List UInt8 → UInt32) (state : Batching headerSize)
    (sent : List UInt8) : Prop where
  writeOffset_eq : state.writer.writeOffset = state.start + sent.length
  fits : state.writer.writeOffset ≤ state.writer.size
  sent_eq : sent = appendedBytes crc state.pending
  laid : LaidOut crc state.start state.pending
  representable : ∀ record ∈ state.pending, Representable record

/-- The committed batches stand in an image of the file as it was when the batch began, and
what was sent since follows it. -/
structure SoundOn (crc : List UInt8 → UInt32) (size startOffset : Nat)
    (old : List (Nat × List UInt8)) (state : Batching headerSize) (image sent : List UInt8) :
    Prop where
  size_eq : state.writer.size = size
  start_le : state.start ≤ state.writer.writeOffset
  standing : Standing crc size startOffset (old ++ state.acked.map Appended.toRecord) image
    state.start
  placed : ∀ record ∈ state.acked, Placed crc image state.start record
  streams : state.writer.writer.Streams image state.start sent
  underway : state.failed = false → Underway crc state sent

/-- The invariant of every history. -/
def Sound (crc : List UInt8 → UInt32) (size startOffset : Nat) (old : List (Nat × List UInt8))
    (state : Batching headerSize) : Prop :=
  ∃ image sent, SoundOn crc size startOffset old state image sent

theorem sound_begin {file : List UInt8} {size startOffset : Nat} {opened : Writer}
    (inside : startOffset ≤ file.length)
    (isOpened : Writer.openSegment crc file size startOffset = .ok opened) (maxRecord : Nat) :
    ∃ old, Sound crc size startOffset old
      (begin_ headerSize (opened.setMaxRecord maxRecord)) := by
  obtain ⟨writerEq, sizeEq, records, standing⟩ := standing_of_openSegment inside isOpened
  refine ⟨records, file, [], sizeEq, Nat.le_refl _, ?_, by simp [begin_], ?_, fun _ => ?_⟩
  · simpa [begin_, Writer.setMaxRecord] using standing
  · have start := @BufWriter.streams_start ⟨file, opened.writeOffset, [], []⟩ rfl
    simpa [begin_, Writer.setMaxRecord, writerEq] using start
  · refine ⟨rfl, ?_, rfl, trivial, by simp [begin_]⟩
    change opened.writeOffset ≤ opened.size
    rw [sizeEq]
    exact standing.fits

theorem SoundOn.refused {size startOffset : Nat} {old : List (Nat × List UInt8)}
    {state : Batching headerSize} {image sent sent' : List UInt8} {writer : Writer}
    {error : WriteError} (sound : SoundOn crc size startOffset old state image sent)
    (running : state.failed = false) (streams : writer.writer.Streams image state.start sent')
    (sizeEq : writer.size = state.writer.size)
    (offsetLe : state.writer.writeOffset ≤ writer.writeOffset)
    (cause : error = .io ∨ ∃ io, writer = state.writer.withOutcomes io) :
    Sound crc size startOffset old (state.refused writer error) := by
  rcases cause with rfl | ⟨io, rfl⟩
  · refine ⟨image, sent', sizeEq.trans sound.size_eq, sound.start_le.trans offsetLe,
      sound.standing, sound.placed, streams, ?_⟩
    intro absurdFailed
    simp [Batching.refused] at absurdFailed
  · obtain ⟨offsetEq, fits, sentEq, laid, representable⟩ := sound.underway running
    exact ⟨image, sent, sound.size_eq, sound.start_le, sound.standing, sound.placed,
      sound.streams, fun _ => ⟨offsetEq, fits, sentEq, laid, representable⟩⟩

theorem sound_append {size startOffset : Nat} {old : List (Nat × List UInt8)}
    {state next : Batching headerSize} {header : FixedHeader headerSize} {data : List UInt8} {io : List IoOutcome}
    (sound : Sound crc size startOffset old state)
    (allowed : StepAllowed state (.append header data, io))
    (taken : step crc state (.append header data, io) = some next) :
    Sound crc size startOffset old next := by
  obtain ⟨image, sent, sound⟩ := sound
  simp only [step] at taken
  split at taken
  · cases taken
  next running =>
  rw [Bool.not_eq_true] at running
  obtain ⟨moved, count, streams, _⟩ := Writer.append_writes crc header.1 data
    (state.writer.withOutcomes io) image state.start sent sound.streams
  split at taken
  · next offset total writer result =>
    obtain rfl := Option.some.inj taken
    obtain ⟨short, fits⟩ := Writer.append_fits result
    obtain ⟨offsetEq, writerEq⟩ := Writer.append_ok result
    have underway := sound.underway running
    have startEq := underway.writeOffset_eq
    have after := (Writer.append_writes crc header.1 data).streams_ok result sound.streams
    have sizeEq : writer.size = state.writer.size := by rw [writerEq]; rfl
    have writtenEq : writer.writeOffset =
        state.writer.writeOffset + (recordBytes crc header.1 data).length := by
      rw [writerEq]
      rfl
    refine ⟨image, sent ++ recordBytes crc header.1 data, sizeEq.trans sound.size_eq, ?_,
      sound.standing, sound.placed, after, fun _ => ?_⟩
    · change state.start ≤ writer.writeOffset
      omega
    refine ⟨?_, ?_, ?_, ?_, ?_⟩
    · change writer.writeOffset = state.start + _
      rw [List.length_append]
      omega
    · change writer.writeOffset ≤ writer.size
      rw [writtenEq, sizeEq]
      exact fits
    · simp [underway.sent_eq, appendedBytes, Appended.bytes]
    · refine underway.laid.snoc ?_
      rw [← underway.sent_eq, ← startEq]
      exact offsetEq
    · intro record member
      rcases List.mem_append.mp member with earlier | last
      · exact underway.representable record earlier
      · obtain rfl := List.mem_singleton.mp last
        exact allowed short
  · next error writer result =>
    obtain rfl := Option.some.inj taken
    rw [result] at moved streams
    refine sound.refused running streams moved.size_eq moved.writeOffset_le ?_
    exact (Writer.append_error result).imp_right fun same => ⟨io, same⟩

theorem SoundOn.committed (nonzero : crc (LittleEndian.encode lenSize 0) ≠ 0)
    {size startOffset position : Nat} {old : List (Nat × List UInt8)}
    {state : Batching headerSize} {image sent : List UInt8}
    (sound : SoundOn crc size startOffset old state image sent)
    (underway : Underway crc state sent)
    (fits : state.start + (sent ++ markerBytes crc position).length ≤ size) :
    let file := writeAt image state.start (sent ++ markerBytes crc position)
    let stop := state.start + (sent ++ markerBytes crc position).length
    Standing crc size startOffset
        (old ++ (state.acked ++ state.pending).map Appended.toRecord) file stop ∧
      ∀ record ∈ state.acked ++ state.pending, Placed crc file stop record := by
  intro file stop
  have read := readExact_writeAt_self (sent ++ markerBytes crc position) sound.standing.inside
  have inside : stop ≤ file.length := (readExact_eq_some_iff.mp read).1
  have before : AgreeOn image file 0 state.start :=
    (agreeOn_writeAt_before (Nat.le_refl _) sound.standing.inside 0).symm
  have stopLe : state.start ≤ stop := Nat.le_add_right _ _
  have stopEq : stop = state.start + sent.length + (markerBytes crc position).length := by
    simp only [stop, List.length_append]
    omega
  rw [List.length_append] at read
  have readSent := readExact_left read
  have readMarker := readExact_right read
  have marker : recordAt crc file size (state.start + sent.length) = _ :=
    recordAt_markerBytes (by omega) readMarker
  rw [← stopEq] at marker
  rw [underway.sent_eq] at readSent
  obtain ⟨placed, entries, chain, dataEq⟩ := underway.laid.chain nonzero size
    underway.representable (by rw [← underway.sent_eq]; omega) readSent
  rw [← underway.sent_eq] at chain placed
  obtain ⟨earlier, earlierChain, _, earlierEq⟩ :=
    (sound.standing.congr before (stopLe.trans inside)).committed
  constructor
  · refine ⟨inside, fits, _, earlierChain.append (chain.append (.single marker)), .inr ?_, ?_⟩
    · exact ⟨earlier ++ entries, (state.start + sent.length, ⟨true, markerPayload position⟩),
        by simp, isMarker_markerPayload position⟩
    · rw [dataRecords_append, dataRecords_append, earlierEq, dataEq]
      simp [dataRecords]
  · intro record member
    rcases List.mem_append.mp member with old | new
    · exact (sound.placed record old).congr before stopLe (stopLe.trans inside)
    · have here := placed record new
      exact ⟨here.ends.trans (by omega), here.bytes⟩

theorem sound_commit (nonzero : crc (LittleEndian.encode lenSize 0) ≠ 0)
    {size startOffset position : Nat} {old : List (Nat × List UInt8)}
    {state next : Batching headerSize} {io : List IoOutcome}
    (sound : Sound crc size startOffset old state)
    (taken : step crc state (.commit position, io) = some next) :
    Sound crc size startOffset old next := by
  obtain ⟨image, sent, sound⟩ := sound
  simp only [step] at taken
  split at taken
  · cases taken
  next running =>
  rw [Bool.not_eq_true] at running
  have underway := sound.underway running
  have startEq := underway.writeOffset_eq
  have streams : (state.writer.withOutcomes io).writer.Streams image state.start sent :=
    sound.streams
  split at taken
  · next outcome writer result =>
    obtain rfl := Option.some.inj taken
    obtain ⟨fileEq, cursorEq, bufEq, sizeEq, offsetEq, fits⟩ :=
      Writer.commit_ok streams result
    have sizeEq : writer.size = size := sizeEq.trans sound.size_eq
    have offsetEq : writer.writeOffset =
        state.start + (sent ++ markerBytes crc position).length := by
      rw [offsetEq, List.length_append, ← Nat.add_assoc, ← startEq]
      rfl
    obtain ⟨standing, placed⟩ :=
      sound.committed nonzero underway (by rw [← offsetEq, ← sizeEq]; exact fits)
    rw [← fileEq, ← offsetEq] at standing placed
    refine ⟨writer.writer.file, [], sizeEq, Nat.le_refl _, standing, placed, ?_, fun _ => ?_⟩
    · have streams := BufWriter.streams_start bufEq
      rw [cursorEq, ← offsetEq] at streams
      exact streams
    · exact ⟨rfl, fits, rfl, trivial, fun _ member => absurd member List.not_mem_nil⟩
  · next error writer result =>
    obtain rfl := Option.some.inj taken
    obtain ⟨⟨sent', streams⟩, sizeEq, offsetLe, cause⟩ :=
      Writer.commit_error streams result
    exact sound.refused running streams sizeEq offsetLe
      (cause.imp_right fun same => ⟨io, same⟩)

theorem sound_sync {size startOffset : Nat} {old : List (Nat × List UInt8)}
    {state next : Batching headerSize} {io : List IoOutcome}
    (sound : Sound crc size startOffset old state)
    (taken : step crc state (.sync, io) = some next) : Sound crc size startOffset old next := by
  obtain ⟨image, sent, sound⟩ := sound
  simp only [step] at taken
  split at taken
  · cases taken
  next running =>
  rw [Bool.not_eq_true] at running
  obtain ⟨streams, sizeEq, offsetEq⟩ :=
    @Writer.sync_streams (state.writer.withOutcomes io) image sent state.start sound.streams
  split at taken
  · next outcome writer result =>
    obtain rfl := Option.some.inj taken
    rw [result] at streams sizeEq offsetEq
    obtain ⟨startEq, fits, sentEq, laid, representable⟩ := sound.underway running
    refine ⟨image, sent, sizeEq.trans sound.size_eq, sound.start_le.trans offsetEq.ge,
      sound.standing, sound.placed, streams, fun _ => ?_⟩
    exact ⟨offsetEq.trans startEq, (offsetEq.le.trans fits).trans sizeEq.ge, sentEq, laid,
      representable⟩
  · next error writer result =>
    obtain rfl := Option.some.inj taken
    rw [result] at streams sizeEq offsetEq
    exact sound.refused running streams sizeEq offsetEq.ge
      (.inl (Writer.ioOnly_sync _ _ _ result))

/-- A rewind goes back to a file in which the committed batches stand. -/
theorem sound_rewind {size startOffset : Nat} {old : List (Nat × List UInt8)}
    {state next : Batching headerSize} {io : List IoOutcome}
    (sound : Sound crc size startOffset old state)
    (allowed : StepAllowed state (.rewind, io))
    (taken : step crc state (.rewind, io) = some next) : Sound crc size startOffset old next := by
  obtain ⟨image, sent, sound⟩ := sound
  simp only [step] at taken
  -- A writer with nothing buffered at the start of the batch begins a batch there.
  have restart : ∀ (writer : Writer) (part : List UInt8), writer.Clean →
      writer.writer.file = writeAt image state.start part →
      writer.writeOffset = state.start → writer.size = size →
      Sound crc size startOffset old
        { state with writer := writer, pending := [], failed := false } := by
    intro writer part clean fileEq offsetEq sizeEq
    have before : AgreeOn image writer.writer.file 0 state.start := by
      rw [fileEq]
      exact (agreeOn_writeAt_before (Nat.le_refl _) sound.standing.inside 0).symm
    have inside : state.start ≤ writer.writer.file.length := by
      rw [fileEq]
      exact sound.standing.inside.trans (length_le_writeAt _ _ _)
    have streams := BufWriter.streams_start clean.buf_nil
    rw [clean.cursor_eq, offsetEq] at streams
    refine ⟨writer.writer.file, [], sizeEq, offsetEq.ge, sound.standing.congr before inside,
      fun record member => (sound.placed record member).congr before (Nat.le_refl _) inside,
      streams, fun _ => ?_⟩
    refine ⟨offsetEq, ?_, rfl, trivial, fun _ member => absurd member List.not_mem_nil⟩
    exact (offsetEq.le.trans sound.standing.fits).trans sizeEq.ge
  have cases_ := @Writer.rewindTo_cases (state.writer.withOutcomes io) state.start image sent
    sound.streams
  rcases cases_ with ⟨stays, result⟩ |
    ⟨_, ⟨error, writer, result, streams, writerEq⟩ |
      ⟨writer, result, clean, fileEq, offsetEq, sizeEq⟩⟩
  · rw [result] at taken
    obtain rfl := Option.some.inj taken
    obtain ⟨written, _, fileEq, _⟩ := sound.streams
    have clean : state.writer.Clean := allowed stays
    exact restart (state.writer.withOutcomes io) _ ⟨clean.buf_nil, clean.cursor_eq⟩ fileEq
      (Nat.le_antisymm stays sound.start_le) sound.size_eq
  · rw [result] at taken
    obtain rfl := Option.some.inj taken
    have sizeEq : writer.size = state.writer.size := by rw [writerEq]; rfl
    have offsetEq : writer.writeOffset = state.writer.writeOffset := by rw [writerEq]; rfl
    refine ⟨image, sent, sizeEq.trans sound.size_eq, sound.start_le.trans offsetEq.ge,
      sound.standing, sound.placed, streams, ?_⟩
    intro absurdFailed
    cases absurdFailed
  · rw [result] at taken
    obtain rfl := Option.some.inj taken
    exact restart writer _ clean fileEq offsetEq (sizeEq.trans sound.size_eq)

theorem sound_step (nonzero : crc (LittleEndian.encode lenSize 0) ≠ 0) {size startOffset : Nat}
    {old : List (Nat × List UInt8)} (state : Batching headerSize)
    (label : WriterCall headerSize × List IoOutcome) (next : Batching headerSize)
    (sound : Sound crc size startOffset old state) (allowed : StepAllowed state label)
    (taken : step crc state label = some next) : Sound crc size startOffset old next := by
  obtain ⟨call, io⟩ := label
  cases call with
  | append header data => exact sound_append sound allowed taken
  | commit position => exact sound_commit nonzero sound taken
  | sync => exact sound_sync sound taken
  | rewind => exact sound_rewind sound allowed taken

/-- A writer that opens the file again finds the committed batches. -/
theorem Sound.kept {size startOffset : Nat} {old : List (Nat × List UInt8)}
    {state : Batching headerSize} (room : startOffset < size)
    (sound : Sound crc size startOffset old state) : Kept crc size startOffset state := by
  obtain ⟨image, sent, sound⟩ := sound
  obtain ⟨written, _, fileEq, _⟩ := sound.streams
  have before : AgreeOn image state.writer.writer.file 0 state.start := by
    rw [fileEq]
    exact (agreeOn_writeAt_before (Nat.le_refl _) sound.standing.inside 0).symm
  have inside : state.start ≤ state.writer.writer.file.length := by
    rw [fileEq]
    exact sound.standing.inside.trans (length_le_writeAt _ _ _)
  obtain ⟨entries, chain, ends, dataEq⟩ := (sound.standing.congr before inside).committed
  obtain ⟨recovered, longest, _⟩ :=
    recover_spec crc state.writer.writer.file size startOffset
  have contained : ∃ extra, recovered = entries ++ extra := by
    rcases ends with rfl | ends
    · exact ⟨recovered, rfl⟩
    · obtain ⟨extra, same, _⟩ := longest.contains chain ends
      exact ⟨extra, same⟩
  obtain ⟨extra, rfl⟩ := contained
  have recoveredEq : dataRecords (entries ++ extra) =
      old ++ state.acked.map Appended.toRecord ++ dataRecords extra := by
    rw [dataRecords_append, dataEq]
  obtain ⟨reopened, opened, writeEq, flushedEq⟩ :=
    Writer.openSegment_ok crc room state.writer.writer.file
  rw [← writeEq] at longest
  refine ⟨fun record member => ?_, reopened, entries ++ extra, old, dataRecords extra, opened,
    longest.chain, recoveredEq, fun record member => ?_⟩
  · exact ((sound.placed record member).congr before (Nat.le_refl _) inside).bytes
  · have listed : record.toRecord ∈ dataRecords (entries ++ extra) := by
      rw [recoveredEq]
      simp only [List.mem_append, List.mem_map]
      exact .inl (.inr ⟨record, member, rfl⟩)
    obtain ⟨⟨offset, isControl, payload⟩, found, data⟩ := List.mem_filterMap.mp listed
    obtain ⟨next, nextLe, here⟩ :=
      longest.chain.decode_of_mem (recordAt_advances _ _) found
    cases isControl with
    | true => simp at data
    | false =>
        obtain ⟨rfl, rfl⟩ : offset = record.offset ∧ payload = record.header.1 ++ record.data := by
          simpa [Appended.toRecord] using data
        rw [writeEq, ← flushedEq] at nextLe
        have headerLength := record.header.2
        have headerFits : headerSize ≤ (record.header.1 ++ record.data).length := by
          rw [List.length_append, headerLength]
          exact Nat.le_add_right _ _
        obtain ⟨reader, result, _⟩ := Reader.readRecord_data
          (Reader.reads_openSegment state.writer.writer.file (some reopened.flushedOffset))
          (recordAt_congr here (AgreeOn.refl _ _ _) nextLe) rfl headerFits
        refine ⟨reader, result.trans ?_⟩
        simp [Frame.totalLen, Appended.bytes, List.take_left' headerLength,
          List.drop_left' headerLength]

/-- After every history whose rewinds find something to go back over, acknowledged records
stand where they were appended and are recovered by the next open. -/
theorem acknowledged_records_stay (nonzero : crc (LittleEndian.encode lenSize 0) ≠ 0)
    {file : List UInt8} {size startOffset : Nat} {opened : Writer}
    (inside : startOffset ≤ file.length)
    (isOpened : Writer.openSegment crc file size startOffset = .ok opened) (maxRecord : Nat)
    {calls : List (WriterCall headerSize × List IoOutcome)} {last : Batching headerSize}
    (allowed : Histories.Allowed (step crc) StepAllowed
      (begin_ headerSize (opened.setMaxRecord maxRecord)) calls)
    (ran : Histories.run (step crc) (begin_ headerSize (opened.setMaxRecord maxRecord)) calls =
      some last) :
    last.Kept crc size startOffset := by
  have room : startOffset < size := by
    unfold Writer.openSegment at isOpened
    split at isOpened
    · cases isOpened
    · omega
  have begun : ∃ old, Sound crc size startOffset old
      (begin_ headerSize (opened.setMaxRecord maxRecord)) :=
    sound_begin inside isOpened maxRecord
  obtain ⟨old, start⟩ := begun
  exact (Histories.invariant_of_run (sound_step nonzero) start allowed ran).kept room

/-- The flush of the first batch fails, the batch is rewound, and another one is committed. -/
def rewoundCalls : List (WriterCall 0 × List IoOutcome) :=
  [(.append ⟨[], rfl⟩ [1, 2], []), (.commit 1, [.fail 3]), (.rewind, []),
    (.append ⟨[], rfl⟩ [9], []), (.commit 1, [])]

theorem acknowledged_records_stay_rewound :
    ∃ last, Histories.run (step crc32)
        (begin_ 0 ((Writer.created (List.replicate 200 0) 200 64).setMaxRecord 50)) rewoundCalls =
        some last ∧
      last.acked = [⟨64, ⟨[], rfl⟩, [9]⟩] ∧ last.Kept crc32 200 64 := by
  have ran : (Histories.run (step crc32)
      (begin_ 0 ((Writer.created (List.replicate 200 0) 200 64).setMaxRecord 50))
      rewoundCalls).any (fun last => decide (last.acked = [⟨64, ⟨[], rfl⟩, [9]⟩])) = true := by
    decide +kernel
  obtain ⟨last, reached, acked⟩ := (Option.any_eq_true _ _).mp ran
  refine ⟨last, reached, of_decide_eq_true acked,
    acknowledged_records_stay (by decide +kernel) (by rw [List.length_replicate]; decide)
      (Writer.openSegment_zeros crc32 (by decide) (zeroFrom_replicate 200 64)) 50 ?_ reached⟩
  refine ⟨fun _ => by decide, fun first firstTaken => ⟨trivial, fun second secondTaken =>
    ⟨fun noop => ?_, fun _ _ => ⟨fun _ => by decide, fun _ _ => ⟨trivial, fun _ _ => trivial⟩⟩⟩⟩⟩
  -- The marker was handed to the writer, so the rewind has something to go back over.
  have beyond : ((step crc32 (begin_ 0 ((Writer.created (List.replicate 200 0) 200 64).setMaxRecord
      50)) (.append ⟨[], rfl⟩ [1, 2], [])).bind fun first =>
        step crc32 first (.commit 1, [.fail 3])).all
      (fun second => decide (second.start < second.writer.writeOffset)) = true := by
    decide +kernel
  rw [firstTaken, Option.bind_some, secondTaken] at beyond
  exact absurd (of_decide_eq_true beyond) (by omega)

/-- The first record of a batch fails after its head is buffered; the batch is rewound, and the
next one succeeds. -/
def shiftedCalls : List (WriterCall 0 × List IoOutcome) :=
  [(.append ⟨[], rfl⟩ largeRecord, [.fail 0]), (.rewind, []), (.append ⟨[], rfl⟩ [1], []),
    (.commit 1, [])]

/-- Bytes that a rewind left buffered stand before those of the next batch. -/
theorem stale_bytes_shift (crc : List UInt8 → UInt32) (state : Batching 0)
    (data : List UInt8) (position : Nat) (running : state.failed = false)
    (fresh : state.pending = []) (short : recordHeadSize + data.length ≤ state.writer.maxRecord)
    (fits : state.writer.writeOffset + batchSize [data] ≤ state.writer.size) :
    ∃ last, Histories.run (step crc) state
        [(.append ⟨[], rfl⟩ data, []), (.commit position, [])] = some last ∧
      last.acked = state.acked ++ [⟨state.writer.writeOffset, ⟨[], rfl⟩, data⟩] ∧
      last.writer.writer.file = writeAt state.writer.writer.file state.writer.writer.cursor
        (state.writer.writer.buf ++ recordBytes crc [] data ++ markerBytes crc position) := by
  rw [batchSize, List.map_cons, List.map_nil, List.sum_cons, List.sum_nil] at fits
  have streams : (state.writer.withOutcomes []).writer.Streams state.writer.writer.file
      state.writer.writer.cursor state.writer.writer.buf :=
    BufWriter.streams_self _
  have short' : recordHeadSize + ([] : List UInt8).length + data.length ≤
      (state.writer.withOutcomes []).maxRecord := short
  have fits' : (state.writer.withOutcomes []).writeOffset +
      (recordHeadSize + ([] : List UInt8).length + data.length) ≤
      (state.writer.withOutcomes []).size := by
    change state.writer.writeOffset + (recordHeadSize + 0 + data.length) ≤ state.writer.size
    omega
  obtain ⟨⟨offset, total⟩, middle, appended, _⟩ := Writer.append_succeeds crc [] data
    state.writer.healthy_withOutcomes_nil short' fits'
  obtain ⟨rfl, middleEq⟩ := Writer.append_ok appended
  have sizeEq : middle.size = state.writer.size := by rw [middleEq]; rfl
  have offsetEq : middle.writeOffset =
      state.writer.writeOffset + (recordBytes crc [] data).length := by
    rw [middleEq]
    rfl
  rw [length_recordBytes, List.length_nil, Nat.zero_add] at offsetEq
  have middleStreams := (Writer.append_writes crc [] data).streams_ok appended streams
  obtain ⟨outcome, after, committed⟩ := Writer.commit_succeeds crc position
    middle.healthy_withOutcomes_nil (by
      change middle.writeOffset + _ ≤ middle.size
      omega)
  refine ⟨⟨after, after.writeOffset, [], state.acked ++ [⟨state.writer.writeOffset, ⟨[], rfl⟩,
    data⟩], false⟩, ?_, rfl,
    (@Writer.commit_ok crc (middle.withOutcomes []) _ _ _ _ _ _ middleStreams committed).1⟩
  have first : step crc state (.append ⟨[], rfl⟩ data, []) =
      some { state with
        writer := middle
        pending := [⟨state.writer.writeOffset, ⟨[], rfl⟩, data⟩] } := by
    simp only [step, running, appended, fresh]
    rfl
  have second : step crc { state with
        writer := middle
        pending := [⟨state.writer.writeOffset, ⟨[], rfl⟩, data⟩] } (.commit position, []) =
      some ⟨after, after.writeOffset, [], state.acked ++ [⟨state.writer.writeOffset, ⟨[], rfl⟩,
        data⟩], false⟩ := by
    simp only [step, running, committed]
    rfl
  rw [Histories.run, first]
  dsimp only
  rw [Histories.run, second]
  rfl

/-- A segment of zeros behind its header. -/
def freshSegment : List UInt8 := List.replicate 131072 0

theorem stale_head_breaks_next_batch :
    ∃ opened last, Writer.openSegment crc32 freshSegment 131072 64 = .ok opened ∧
      Histories.run (step crc32) (begin_ 0 (opened.setMaxRecord 32768)) shiftedCalls =
        some last ∧
      last.acked = [⟨64, ⟨[], rfl⟩, [1]⟩] ∧ ¬ last.Kept crc32 131072 64 := by
  set first : Batching 0 :=
    begin_ 0 ((Writer.created freshSegment 131072 64).setMaxRecord 32768) with firstEq
  obtain ⟨head, stuck, failed, stuckEq, headEq⟩ :=
    Writer.append_stuck crc32 (first.writer.withOutcomes [.fail 0]) largeRecord rfl
      (by rw [length_largeRecord]; decide) rfl
      (by
        rw [length_largeRecord]
        change recordHeadSize + 16384 ≤ 32768
        decide)
      (by
        rw [length_largeRecord]
        change 64 + (recordHeadSize + 16384) ≤ 131072
        decide)
  have appended : step crc32 first (.append ⟨[], rfl⟩ largeRecord, [.fail 0]) =
      some (first.refused stuck .io) := by
    simp only [step, failed]
    rfl
  have rewound : step crc32 (first.refused stuck .io) (.rewind, []) =
      some { first with writer := stuck.withOutcomes [] } := by
    have noop : Writer.rewindTo (first.refused stuck .io).start
        ((first.refused stuck .io).writer.withOutcomes []) = (.ok (), stuck.withOutcomes []) := by
      rw [stuckEq]
      rfl
    simp only [step, noop]
    rfl
  obtain ⟨last, ran, acked, fileEq⟩ :=
    stale_bytes_shift crc32 { first with writer := stuck.withOutcomes [] } [1] 1 rfl rfl
      (by
        rw [stuckEq]
        change recordHeadSize + 1 ≤ 32768
        decide)
      (by
        rw [stuckEq]
        change 64 + batchSize [[1]] ≤ 131072
        decide)
  have ackedEq : last.acked = [⟨64, ⟨[], rfl⟩, [1]⟩] := by
    rw [acked, stuckEq]
    rfl
  refine ⟨_, last, Writer.openSegment_zeros crc32 (by decide) (zeroFrom_replicate _ _), ?_, ackedEq,
    fun kept => ?_⟩
  · rw [shiftedCalls, Histories.run, appended]
    dsimp only
    rw [Histories.run, rewound]
    exact ran
  -- The length field at the offset is that of the record that failed.
  · have found := kept.in_place ⟨64, ⟨[], rfl⟩, [1]⟩
      (by rw [ackedEq]; exact List.mem_singleton_self _)
    have file : last.writer.writer.file = writeAt freshSegment 64
        (head ++ recordBytes crc32 [] [1] ++ markerBytes crc32 1) := by
      rw [fileEq, stuckEq]
      rfl
    have inside : 64 ≤ freshSegment.length := by
      rw [freshSegment, List.length_replicate]
      decide
    have stale := readExact_writeAt_self
      (head ++ recordBytes crc32 [] [1] ++ markerBytes crc32 1) inside
    rw [← file, headEq, List.append_assoc, List.append_assoc, List.length_append] at stale
    have staleLength := readExact_left stale
    have foundEq : Appended.bytes crc32 (⟨64, ⟨[], rfl⟩, [1]⟩ : Appended 0) =
        LittleEndian.encode lenSize 1 ++ (LittleEndian.encode crc32cSize (calculateCrc32c crc32
          (LittleEndian.encode lenSize 1) [] [1]).toNat ++ [1]) := by
      simp [Appended.bytes, recordBytes]
    rw [foundEq, List.length_append] at found
    have foundLength := readExact_left found
    rw [LittleEndian.length_encode] at staleLength foundLength
    rw [length_largeRecord] at staleLength
    have same := Option.some.inj (staleLength.symm.trans foundLength)
    revert same
    decide

end Batching

end Seglog

end Tephra
