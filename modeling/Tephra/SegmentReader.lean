import Tephra.SegmentWriter

/-!
# Sequential reading of a segment

The reader steps through a segment on its own terms: it skips control records
from their head, reads data records through a read-ahead buffer, and stops at
the flushed offset or at a head of zeros.  The system calls that fill the buffer
may fail; their results are a list in the state of the buffer.
-/

namespace Tephra

namespace Seglog

open ByteImage FrameChain

def pageSize : Nat := 4096

/-- Size of the read-ahead buffer (64 KB). -/
def readAheadSize : Nat := 64 * 1024

/-- The errors of a read. -/
inductive ReadError where
  | crc32cMismatch (offset : Nat)
  | outOfBounds (offset length flushedOffset : Nat)
  | truncationMarker (offset : Nat)
  | controlRecord (offset len : Nat)
  | corrupt (offset : Nat)
  | unexpectedEof
  | io
deriving DecidableEq, Repr

/-- A read stops with an error, or panics on a slice out of range. -/
inductive ReadFault where
  | error (source : ReadError)
  | panicked
deriving DecidableEq, Repr

/-- The read-ahead buffer: its bytes, their offset in the file, and how many of them are
valid.  `filledLen` is how many bytes the last fill has read, which the code does not keep, and
`outcomes` are the results of the coming fills. -/
structure ReadAheadBuf where
  buf : List UInt8
  offset : Nat
  validLen : Nat
  filledLen : Nat
  outcomes : List IoOutcome
deriving DecidableEq, Repr

namespace ReadAheadBuf

def new : ReadAheadBuf :=
  ⟨[], 0, 0, 0, []⟩

/-- The buffer with other results of the coming fills. -/
def withOutcomes (self : ReadAheadBuf) (outcomes : List IoOutcome) : ReadAheadBuf :=
  { self with outcomes := outcomes }

/-- The size of the buffer for a request that starts at a 64 KB boundary. -/
def requiredSize (length : Nat) : Nat :=
  (max length readAheadSize + pageSize - 1) / pageSize * pageSize

/-- The buffer at a size, its first bytes replaced by those that were read. -/
def refilled (self : ReadAheadBuf) (size : Nat) (bytes : List UInt8) : List UInt8 :=
  bytes ++ (self.buf.take size ++ List.replicate (size - self.buf.length) 0).drop bytes.length

/-- Load the bytes around a request, from a 64 KB boundary on and up to a
multiple of the page size, or up to the end of the file.  When a call fails the offset of the
buffer has moved, and the number of its valid bytes has not. -/
def fill (self : ReadAheadBuf) (file : List UInt8) (offset length : Nat) :
    Except ReadError Unit × ReadAheadBuf :=
  let start := offset - offset % readAheadSize
  let size := requiredSize (offset + length - start)
  match self.outcomes.headD .ok with
  | .ok =>
      let bytes := (file.drop start).take size
      (.ok (), ⟨self.refilled size bytes, start, bytes.length, bytes.length, self.outcomes.tail⟩)
  | .fail read =>
      let bytes := (file.drop start).take (min read size)
      (.error .io,
        ⟨self.refilled size bytes, start, self.validLen, bytes.length, self.outcomes.tail⟩)

/-- Whether a range lies inside the valid bytes. -/
def covers (self : ReadAheadBuf) (offset length : Nat) : Bool :=
  decide (self.offset ≤ offset) && decide (offset + length ≤ self.offset + self.validLen)

/-- Bytes of a covered range.  A slice past the end of the buffer panics. -/
def slice (self : ReadAheadBuf) (offset length : Nat) : Except ReadFault (List UInt8) :=
  let bytes := (self.buf.drop (offset - self.offset)).take length
  if bytes.length = length then .ok bytes else .error .panicked

/-- Read through the buffer, filling it when the range is not covered. -/
def read (self : ReadAheadBuf) (file : List UInt8) (offset length : Nat) :
    Except ReadFault (List UInt8) × ReadAheadBuf :=
  if self.covers offset length then
    (self.slice offset length, self)
  else
    match self.fill file offset length with
    | (.error error, filled) => (.error (.error error), filled)
    | (.ok _, filled) =>
        if filled.covers offset length then
          (filled.slice offset length, filled)
        else
          (.error (.error .unexpectedEof), filled)

/-- The valid bytes of the buffer are bytes of the file. -/
structure Copies (buffer : ReadAheadBuf) (file : List UInt8) : Prop where
  valid_le : buffer.validLen ≤ buffer.buf.length
  bytes : ∃ length, buffer.buf.take buffer.validLen = (file.drop buffer.offset).take length

/-- The buffer holds bytes of the file, and no fill fails. -/
structure Caches (buffer : ReadAheadBuf) (file : List UInt8) : Prop extends
    Copies buffer file where
  spared : buffer.outcomes = []

theorem caches_new (file : List UInt8) : new.Caches file :=
  ⟨⟨Nat.le_refl _, 0, by simp [new]⟩, rfl⟩

theorem fill_ok {self : ReadAheadBuf} (spared : self.outcomes.headD .ok = .ok)
    (file : List UInt8) (offset length : Nat) :
    ∃ filled, self.fill file offset length = (.ok (), filled) ∧ filled.Copies file ∧
      filled.filledLen = filled.validLen ∧ filled.outcomes = self.outcomes.tail ∧
      (offset + length ≤ file.length → filled.covers offset length = true) := by
  have startLe : offset - offset % readAheadSize ≤ offset := Nat.sub_le _ _
  rw [fill, spared]
  refine ⟨_, rfl, ⟨?_, requiredSize (offset + length - (offset - offset % readAheadSize)), ?_⟩,
    rfl, rfl, fun fits => ?_⟩
  · simp [refilled]
  · simp [refilled]
  · rw [covers, Bool.and_eq_true, decide_eq_true_eq, decide_eq_true_eq]
    simp only [List.length_take, List.length_drop, requiredSize, pageSize, readAheadSize]
      at startLe ⊢
    omega

theorem fill_caches {self : ReadAheadBuf} (spared : self.outcomes = []) (file : List UInt8)
    (offset length : Nat) :
    ∃ filled, self.fill file offset length = (.ok (), filled) ∧ filled.Caches file ∧
      (offset + length ≤ file.length → filled.covers offset length = true) := by
  obtain ⟨filled, result, copies, -, outcomes, covered⟩ :=
    fill_ok (show self.outcomes.headD .ok = .ok by rw [spared]; rfl) file offset length
  rw [spared, List.tail_nil] at outcomes
  exact ⟨filled, result, ⟨copies, outcomes⟩, covered⟩

theorem Copies.slice_eq {self : ReadAheadBuf} {file : List UInt8} {offset length : Nat}
    (copies : self.Copies file) (covered : self.covers offset length = true)
    (fits : offset + length ≤ file.length) :
    ∃ bytes, readExact file offset length = some bytes ∧ self.slice offset length = .ok bytes := by
  obtain ⟨inside, cached, bytesEq⟩ := copies
  simp only [covers, Bool.and_eq_true, decide_eq_true_eq] at covered
  obtain ⟨above, below⟩ := covered
  have taken := congrArg List.length bytesEq
  rw [List.length_take, List.length_take, Nat.min_eq_left inside] at taken
  refine ⟨_, readExact_eq_some_iff.mpr ⟨fits, rfl⟩, ?_⟩
  have sized : ((self.buf.drop (offset - self.offset)).take length).length = length := by
    rw [List.length_take, List.length_drop]
    omega
  rw [slice, if_pos sized]
  congr 1
  have valid : (self.buf.drop (offset - self.offset)).take length =
      ((self.buf.take self.validLen).drop (offset - self.offset)).take length := by
    rw [List.drop_take, List.take_take, Nat.min_eq_left (by omega)]
  rw [valid, bytesEq, List.drop_take, List.drop_drop, List.take_take,
    Nat.min_eq_left (by omega)]
  congr 2
  omega

/-- Inside the file the buffer answers as a positioned read does. -/
theorem read_spec {self : ReadAheadBuf} {file : List UInt8} {offset length : Nat}
    (caches : self.Caches file) (fits : offset + length ≤ file.length) :
    ∃ bytes, readExact file offset length = some bytes ∧
      (self.read file offset length).1 = .ok bytes ∧
      (self.read file offset length).2.Caches file := by
  unfold read
  by_cases covered : self.covers offset length = true
  · obtain ⟨bytes, found, sliced⟩ := caches.slice_eq covered fits
    rw [if_pos covered, sliced]
    exact ⟨bytes, found, rfl, caches⟩
  · obtain ⟨filled, result, caches', filledCovers⟩ := fill_caches caches.spared file offset length
    obtain ⟨bytes, found, sliced⟩ := caches'.slice_eq (filledCovers fits) fits
    rw [if_neg covered, result]
    dsimp only
    rw [if_pos (filledCovers fits)]
    exact ⟨bytes, found, sliced, caches'⟩

end ReadAheadBuf

/-- A reader of a segment file up to its flushed offset. -/
structure Reader where
  file : List UInt8
  flushedOffset : Nat
  readAheadBuf : ReadAheadBuf
deriving DecidableEq, Repr

/-- A data record read back: its header, its data, its offset and its framed length. -/
structure Record where
  header : List UInt8
  data : List UInt8
  offset : Nat
  len : Nat
deriving DecidableEq, Repr

variable (crc : List UInt8 → UInt32)

namespace Reader

/-- Open a segment; without a flushed offset the file length takes its place. -/
def openSegment (file : List UInt8) (flushedOffset : Option Nat) : Reader :=
  ⟨file, flushedOffset.getD file.length, .new⟩

/-- Bytes through the read-ahead buffer, which the reader keeps. -/
def readAhead (self : Reader) (offset length : Nat) :
    Except ReadFault (List UInt8) × Reader :=
  let (result, buffer) := self.readAheadBuf.read self.file offset length
  (result, { self with readAheadBuf := buffer })

/-- The framed length of the valid control record at an offset. -/
def controlLenAt (self : Reader) (offset : Nat) : Option Nat × Reader :=
  if offset + recordHeadSize > self.flushedOffset then
    (none, self)
  else
    match self.readAhead offset recordHeadSize with
    | (.error _, self) => (none, self)
    | (.ok header, self) =>
        if isTruncationMarker header then
          (none, self)
        else
          let raw := headRaw header
          if !isControlField raw || hasUnknownFlags raw then
            (none, self)
          else
            let payloadLen := payloadLenField raw
            if offset + (recordHeadSize + payloadLen) > self.flushedOffset then
              (none, self)
            else
              match self.readAhead (offset + recordHeadSize) payloadLen with
              | (.error _, self) => (none, self)
              | (.ok payload, self) =>
                  if (calculateCrc32c crc (LittleEndian.encode lenSize raw) []
                      payload).toNat ≠ headCrc header then
                    (none, self)
                  else
                    (some (recordHeadSize + payloadLen), self)

/-- Read the record at an offset whose head lies below the flushed offset. -/
def readRecordSequential (headerSize : Nat) (self : Reader) (offset : Nat) :
    Except ReadFault Record × Reader :=
  match self.readAhead offset recordHeadSize with
  | (.error fault, self) => (.error fault, self)
  | (.ok head, self) =>
      if isTruncationMarker head then
        (.error (.error (.truncationMarker offset)), self)
      else
        let raw := headRaw head
        if hasUnknownFlags raw then
          (.error (.error (.corrupt offset)), self)
        else
          let isControl := isControlField raw
          let payloadLen := payloadLenField raw
          let payloadOffset := offset + recordHeadSize
          if payloadOffset + payloadLen > self.flushedOffset then
            (.error (.error (.outOfBounds offset (recordHeadSize + payloadLen)
              self.flushedOffset)), self)
          else
            match self.readAhead payloadOffset payloadLen with
            | (.error fault, self) => (.error fault, self)
            | (.ok payload, self) =>
                let headerLen := if isControl then 0 else headerSize
                -- Slicing the payload at the header length panics when it is shorter.
                if payload.length < headerLen then
                  (.error .panicked, self)
                else
                  let header := payload.take headerLen
                  let data := payload.drop headerLen
                  if (calculateCrc32c crc (head.take lenSize) header data).toNat ≠
                      headCrc head then
                    (.error (.error (.crc32cMismatch offset)), self)
                  else if isControl then
                    (.error (.error (.controlRecord offset (recordHeadSize + payloadLen))),
                      self)
                  else
                    (.ok ⟨header, data, offset, recordHeadSize + payloadLen⟩, self)

/-- Read the record at an offset with the sequential hint. -/
def readRecord (headerSize : Nat) (self : Reader) (offset : Nat) :
    Except ReadFault Record × Reader :=
  if offset + recordHeadSize > self.flushedOffset then
    (.error (.error (.outOfBounds offset recordHeadSize self.flushedOffset)), self)
  else
    readRecordSequential crc headerSize self offset

end Reader

/-- An iterator over the records of a segment. -/
structure Iter where
  reader : Reader
  offset : Nat
deriving DecidableEq, Repr

namespace Iter

/-- Skip leading control records without exposing them. -/
def skipControls : Nat → Iter → Iter
  | 0, self => self
  | fuel + 1, self =>
      match self.reader.controlLenAt crc self.offset with
      | (none, reader) => { self with reader := reader }
      | (some len, reader) => skipControls fuel ⟨reader, self.offset + len⟩

/-- The next data record, or `none` at the end of the valid records. -/
def nextRecord (headerSize : Nat) (self : Iter) :
    Except ReadFault (Option Record) × Iter :=
  let self := skipControls crc (self.reader.flushedOffset + 1) self
  match self.reader.readRecord crc headerSize self.offset with
  | (.ok record, reader) => (.ok (some record), ⟨reader, self.offset + record.len⟩)
  | (.error (.error (.outOfBounds _ _ _)), reader) =>
      (.ok none, { self with reader := reader })
  | (.error (.error (.truncationMarker _)), reader) =>
      (.ok none, { self with reader := reader })
  | (.error fault, reader) => (.error fault, { self with reader := reader })

/-- Call `nextRecord` until it returns `none`. -/
def drain (headerSize : Nat) : Nat → Iter → Except ReadFault (List Record)
  | 0, _ => .ok []
  | fuel + 1, self =>
      match self.nextRecord crc headerSize with
      | (.error fault, _) => .error fault
      | (.ok none, _) => .ok []
      | (.ok (some record), self) =>
          match drain headerSize fuel self with
          | .error fault => .error fault
          | .ok records => .ok (record :: records)

end Iter

/-- All records an iteration of a segment yields from an offset on. -/
def Reader.iterate (headerSize : Nat) (self : Reader) (startOffset : Nat) :
    Except ReadFault (List Record) :=
  Iter.drain crc headerSize (self.flushedOffset + 1) ⟨self, startOffset⟩

/-- The largest offset an offset sidecar can hold. -/
def u32Max : Nat := 2 ^ 32 - 1

/-- The offsets of the data records of a segment.  Converting an offset that
does not fit 32 bits panics. -/
def scanOffsets (file : List UInt8) (flushed : Option Nat) (headerSize : Nat) :
    Except ReadFault (List Nat) :=
  match (Reader.openSegment file flushed).iterate crc 0 headerSize with
  | .error fault => .error fault
  | .ok records =>
      if records.all fun record => decide (record.offset ≤ u32Max) then
        .ok (records.map Record.offset)
      else
        .error .panicked

end Seglog

end Tephra
