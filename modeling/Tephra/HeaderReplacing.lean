import Tephra.HeaderPatches

/-!
# Replacing the header of a record

A reader patches the header and the checksum of a record in place, and drops its read-ahead buffer
when that overlaps the record.  Whatever the reader did before, the record reads back with its new
header and its old data, and nothing else changes.
-/

namespace Tephra

namespace Seglog

open ByteImage FrameChain

namespace ReadAheadBuf

/-- Whether the valid bytes of the buffer and a range of the file have a byte in common. -/
def overlaps (self : ReadAheadBuf) (offset length : Nat) : Bool :=
  if self.validLen = 0 then
    false
  else
    decide (offset < self.offset + self.validLen) && decide (self.offset < offset + length)

/-- Forget the valid bytes. -/
def invalidate (self : ReadAheadBuf) : ReadAheadBuf :=
  { self with validLen := 0 }

theorem Caches.invalidate {self : ReadAheadBuf} {file : List UInt8} (caches : self.Caches file)
    (other : List UInt8) : self.invalidate.Caches other :=
  ⟨⟨Nat.zero_le _, 0, rfl⟩, caches.spared⟩

theorem Caches.congr {self : ReadAheadBuf} {file other : List UInt8} (caches : self.Caches file)
    (agree : AgreeOn file other self.offset (self.offset + self.validLen)) :
    self.Caches other := by
  obtain ⟨⟨inside, length, bytesEq⟩, spared⟩ := caches
  refine ⟨⟨inside, self.validLen, List.ext_getElem? fun index => ?_⟩, spared⟩
  have taken := congrArg List.length bytesEq
  rw [List.length_take, List.length_take, Nat.min_eq_left inside] at taken
  by_cases valid : index < self.validLen
  · have same := agree (self.offset + index) (by omega) (by omega)
    have here : (self.buf.take self.validLen)[index]? = file[self.offset + index]? := by
      rw [bytesEq, List.getElem?_take_of_lt (by omega), List.getElem?_drop]
    rw [here, same, List.getElem?_take_of_lt valid, List.getElem?_drop]
  · rw [List.getElem?_eq_none (by simp; omega), List.getElem?_eq_none (by simp; omega)]

end ReadAheadBuf

/-- Why a header was not replaced: the record could not be read, or a system call failed. -/
inductive ReplaceFault where
  | read (fault : ReadFault)
  | io
deriving DecidableEq, Repr

variable (crc : List UInt8 → UInt32)

namespace Reader

/-- Replace the header of the record at an offset if `f` returns one for it, given the results
of the positioned write and of the sync. -/
def replaceHeaderWith (headerSize : Nat) (self : Reader) (offset : Nat)
    (f : Record → Option (FixedHeader headerSize)) (write sync : IoOutcome) :
    Except ReplaceFault Bool × Reader :=
  match self.readRandom crc headerSize offset with
  | .error fault => (.error (.read fault), self)
  | .ok record =>
      match f record with
      | none => (.ok false, self)
      | some newHeader =>
          let payloadLen := record.len - recordHeadSize
          let lengthBytes := LittleEndian.encode lenSize payloadLen
          let newCrc := calculateCrc32c crc lengthBytes newHeader.1 record.data
          let writeBuf := LittleEndian.encode crc32cSize newCrc.toNat ++ newHeader.1
          match write with
          | .fail written =>
              let part := writeBuf.take (min written (writeBuf.length - 1))
              (.error .io, { self with file := writeAt self.file (offset + lenSize) part })
          | .ok =>
              let after :=
                { self with
                  file := writeAt self.file (offset + lenSize) writeBuf
                  readAheadBuf :=
                    if self.readAheadBuf.overlaps offset (recordHeadSize + payloadLen) then
                      self.readAheadBuf.invalidate
                    else
                      self.readAheadBuf }
              match sync with
              | .ok => (.ok true, after)
              | .fail _ => (.error .io, after)

/-- Replace the header of the record at an offset. -/
def replaceHeader (headerSize : Nat) (self : Reader) (offset : Nat)
    (newHeader : FixedHeader headerSize) (write sync : IoOutcome) :
    Except ReplaceFault Unit × Reader :=
  match replaceHeaderWith crc headerSize self offset (fun _ => some newHeader) write sync with
  | (.ok _, after) => (.ok (), after)
  | (.error fault, after) => (.error fault, after)

end Reader

variable {crc}

namespace Reader

/-- The reader after the header of a record was replaced. -/
def patched (crc : List UInt8 → UInt32) (self : Reader) (offset : Nat) (record : Record)
    (newHeader : List UInt8) : Reader :=
  { self with
    file := writeAt self.file (offset + lenSize) (patchBytes crc newHeader record.data)
    readAheadBuf :=
      if self.readAheadBuf.overlaps offset record.len then
        self.readAheadBuf.invalidate
      else
        self.readAheadBuf }

theorem Reads.recordAt_of_readRandom {self : Reader} {headerSize offset : Nat} {record : Record}
    (reads : self.Reads self.file self.flushedOffset)
    (inFile : self.flushedOffset ≤ self.file.length)
    (read : self.readRandom crc headerSize offset = .ok record) :
    offset + recordHeadSize < wordSize ∧ record.header.length = headerSize ∧
      record.offset = offset ∧
      recordAt crc self.file self.flushedOffset offset =
        some (⟨false, record.header ++ record.data⟩, offset + record.len) := by
  rw [reads.readRandom_eq_parse inFile] at read
  cases parsed : parseRecordParts crc headerSize (self.file.take self.flushedOffset) offset with
  | error fault =>
      rw [parsed] at read
      cases read
  | ok parts =>
      rw [parsed] at read
      obtain rfl := Except.ok.inj read
      obtain ⟨word, headerLength, here⟩ := recordAt_of_parse inFile parsed
      exact ⟨word, headerLength, rfl, here⟩

variable (crc) in
/-- A header is replaced when the record can be read, `f` wants it, and no system call fails. -/
theorem replaceHeaderWith_cases {self : Reader} {headerSize : Nat}
    (reads : self.Reads self.file self.flushedOffset)
    (inFile : self.flushedOffset ≤ self.file.length) (offset : Nat)
    (f : Record → Option (FixedHeader headerSize)) (write sync : IoOutcome) :
    (∃ fault, replaceHeaderWith crc headerSize self offset f write sync =
        (.error (.read fault), self)) ∨
      replaceHeaderWith crc headerSize self offset f write sync = (.ok false, self) ∨
      ∃ record newHeader, self.readRandom crc headerSize offset = .ok record ∧
        f record = some newHeader ∧
        ((∃ after, replaceHeaderWith crc headerSize self offset f write sync =
            (.error .io, after) ∧ write ≠ .ok) ∨
          ∃ outcome, replaceHeaderWith crc headerSize self offset f write sync =
            (outcome, self.patched crc offset record newHeader.1) ∧
            (outcome = .ok true ∨ outcome = .error .io)) := by
  unfold replaceHeaderWith
  cases read : self.readRandom crc headerSize offset with
  | error fault => exact .inl ⟨fault, rfl⟩
  | ok record =>
      right
      dsimp only
      cases wanted : f record with
      | none => exact .inl rfl
      | some newHeader =>
          right
          refine ⟨record, newHeader, rfl, wanted, ?_⟩
          dsimp only
          cases write with
          | fail written => exact .inl ⟨_, rfl, by simp⟩
          | ok =>
              right
              obtain ⟨_, headerLength, _, here⟩ := reads.recordAt_of_readRandom inFile read
              have lenEq := next_of_recordAt here
              rw [Frame.totalLen, List.length_append, headerLength] at lenEq
              have payloadLen : record.len - recordHeadSize =
                  newHeader.1.length + record.data.length := by
                rw [newHeader.2]
                omega
              have whole : recordHeadSize + (newHeader.1.length + record.data.length) =
                  record.len := by
                rw [newHeader.2]
                omega
              rw [payloadLen, whole]
              cases sync with
              | ok => exact ⟨_, rfl, .inl rfl⟩
              | fail written => exact ⟨_, rfl, .inr rfl⟩

/-- A buffer that does not overlap the record caches the patched file too. -/
theorem Reads.patched {self : Reader} {offset size : Nat} {record : Record}
    {newHeader : List UInt8} (reads : self.Reads self.file self.flushedOffset)
    (patchedAt : PatchedAt crc self.file (self.patched crc offset record newHeader).file size
      offset (offset + record.len) (newHeader ++ record.data)) :
    (self.patched crc offset record newHeader).Reads
      (self.patched crc offset record newHeader).file self.flushedOffset := by
  refine ⟨rfl, rfl, ?_⟩
  change (if self.readAheadBuf.overlaps offset record.len then _ else _ :
    ReadAheadBuf).Caches _
  split
  · exact reads.caches.invalidate _
  next apart =>
  refine reads.caches.congr ?_
  unfold ReadAheadBuf.overlaps at apart
  by_cases empty : self.readAheadBuf.validLen = 0
  · intro index above below
    omega
  rw [if_neg empty, Bool.and_eq_true, decide_eq_true_eq, decide_eq_true_eq, not_and_or] at apart
  rcases apart with before | behind
  · exact patchedAt.before.mono (Nat.zero_le _) (Nat.le_of_not_lt before)
  · exact (patchedAt.after _).mono (Nat.le_of_not_lt behind) (Nat.le_refl _)

end Reader

/-- A call of the reader that may change its buffer or its file.  A random read changes neither,
and a positioned write does not fail. -/
inductive ReaderCall (headerSize : Nat) where
  | read (offset : Nat)
  | peek (offset : Nat)
  | next (offset : Nat)
  | replaceHeaderWith (offset : Nat) (f : Record → Option (FixedHeader headerSize))
      (sync : IoOutcome)

namespace Reader

variable {headerSize : Nat}

/-- The reader after a call. -/
def call (crc : List UInt8 → UInt32) (self : Reader) : ReaderCall headerSize → Reader
  | .read offset => (self.readSequential crc headerSize offset).2
  | .peek offset => (self.peek offset).2
  | .next offset => (Iter.nextRecord crc headerSize ⟨self, offset⟩).2.reader
  | .replaceHeaderWith offset f sync =>
      (replaceHeaderWith crc headerSize self offset f .ok sync).2

/-- What stays true of a reader: its buffer holds bytes of its file, which goes at least as far
as the flushed offset. -/
structure Sound (reader : Reader) : Prop where
  reads : reader.Reads reader.file reader.flushedOffset
  inFile : reader.flushedOffset ≤ reader.file.length

theorem sound_openSegment {file : List UInt8} {flushed : Option Nat}
    (inFile : flushed.getD file.length ≤ file.length) : (openSegment file flushed).Sound :=
  ⟨reads_openSegment file flushed, inFile⟩

theorem Sound.refreshed {self after : Reader} (sound : self.Sound)
    (refreshed : Refreshed self after) : after.Sound := by
  rcases refreshed.spared sound.reads.caches.spared with rfl | reads
  · exact sound
  · have reads' := reads
    rw [← reads.file_eq, ← reads.flushed_eq] at reads'
    refine ⟨reads', ?_⟩
    rw [reads.file_eq, reads.flushed_eq]
    exact sound.inFile

theorem readSequential_refreshed (self : Reader) (offset : Nat) :
    Refreshed self (self.readSequential crc headerSize offset).2 := by
  unfold readSequential
  split
  · exact .refl self
  · exact readRecord_refreshed crc headerSize self offset

theorem Sound.patched {self : Reader} (sound : self.Sound) {offset : Nat} {record : Record}
    {newHeader : FixedHeader headerSize}
    (read : self.readRandom crc headerSize offset = .ok record) :
    (self.patched crc offset record newHeader.1).Sound := by
  obtain ⟨_, headerLength, _, here⟩ := sound.reads.recordAt_of_readRandom sound.inFile read
  have sameLength : newHeader.1.length = record.header.length := by
    rw [headerLength, newHeader.2]
  have at_ := patchedAt here sameLength
  have inside : self.flushedOffset ≤ (self.patched crc offset record newHeader.1).file.length :=
    sound.inFile.trans at_.length_eq.ge
  exact ⟨sound.reads.patched at_, inside⟩

theorem Sound.call {self : Reader} (sound : self.Sound) (request : ReaderCall headerSize) :
    (self.call crc request).Sound := by
  cases request with
  | read offset => exact sound.refreshed (self.readSequential_refreshed offset)
  | peek offset => exact sound.refreshed (self.peek_refreshed offset)
  | next offset => exact sound.refreshed (nextRecord_refreshed crc headerSize ⟨self, offset⟩)
  | replaceHeaderWith offset f sync =>
      change (replaceHeaderWith crc headerSize self offset f .ok sync).2.Sound
      rcases replaceHeaderWith_cases crc sound.reads sound.inFile offset f .ok sync with
        ⟨fault, result⟩ | result |
          ⟨record, newHeader, read, _, ⟨_, _, failed⟩ | ⟨outcome, result, _⟩⟩
      · rw [result]
        exact sound
      · rw [result]
        exact sound
      · exact absurd rfl failed
      · rw [result]
        exact sound.patched read

theorem Sound.foldl {self : Reader} (sound : self.Sound) (calls : List (ReaderCall headerSize)) :
    (calls.foldl (Reader.call crc) self).Sound := by
  induction calls generalizing self with
  | nil => exact sound
  | cons request calls ih => exact ih (sound.call request)

end Reader

/-- The record reads back with the new header, all other records and markers read as before, and
the same log is recovered. -/
structure HeaderReplaced (crc : List UInt8 → UInt32) {headerSize : Nat}
    (size startOffset stop : Nat) (entries : List (Nat × Frame)) (reader after : Reader)
    (record : Record) (newHeader : FixedHeader headerSize) : Prop where
  random : after.readRandom crc headerSize record.offset =
    .ok { record with header := newHeader.1 }
  sequential : (after.readSequential crc headerSize record.offset).1 =
    .ok { record with header := newHeader.1 }
  others_random : ∀ entry ∈ entries, entry.1 ≠ record.offset →
    after.readRandom crc headerSize entry.1 = reader.readRandom crc headerSize entry.1
  others_sequential : ∀ entry ∈ entries, entry.1 ≠ record.offset →
    (after.readSequential crc headerSize entry.1).1 =
      (reader.readSequential crc headerSize entry.1).1
  log : ∃ before later,
    entries = before ++ (record.offset, ⟨false, record.header ++ record.data⟩) :: later ∧
    MarkedPrefix (recordAt crc after.file size) IsMarker startOffset
      (before ++ (record.offset, ⟨false, newHeader.1 ++ record.data⟩) :: later) stop
  recovered : recover crc after.file size startOffset = recover crc reader.file size startOffset

/-- When the header is replaced nothing else changes, and when it is not, or the record cannot be
read, the file does not change. -/
def TouchesHeader (crc : List UInt8 → UInt32) {headerSize : Nat}
    (size startOffset stop : Nat) (entries : List (Nat × Frame)) (reader : Reader) (offset : Nat)
    (f : Record → Option (FixedHeader headerSize)) : Except ReplaceFault Bool × Reader → Prop
  | (.ok true, after) =>
      ∃ record newHeader, reader.readRandom crc headerSize offset = .ok record ∧
        record.offset = offset ∧ f record = some newHeader ∧
        HeaderReplaced crc size startOffset stop entries reader after record newHeader
  | (.ok false, after) => after.file = reader.file
  | (.error (.read _), after) => after.file = reader.file
  | (.error .io, _) => True

variable {headerSize : Nat}

/-- The record at an offset does not depend on the size of the segment. -/
theorem recordAt_unique {image : List UInt8} {size size' offset next next' : Nat}
    {frame frame' : Frame} (here : recordAt crc image size offset = some (frame, next))
    (here' : recordAt crc image size' offset = some (frame', next')) :
    frame = frame' ∧ next = next' := by
  have fits := (next_le_of_recordAt here).1
  have fits' := (next_le_of_recordAt here').1
  have first := recordAt_congr here (AgreeOn.refl image _ _) (fits.trans (Nat.le_max_left _ size'))
  have second := recordAt_congr here' (AgreeOn.refl image _ _)
    (fits'.trans (Nat.le_max_right size _))
  simpa using first.symm.trans second

namespace Reader

theorem Sound.readRandom_eq {reader : Reader} (sound : reader.Sound) (offset : Nat) :
    reader.readRandom crc headerSize offset =
      (parseRecordParts crc headerSize (reader.file.take reader.flushedOffset) offset).map
        (toRead offset) :=
  sound.reads.readRandom_eq_parse sound.inFile headerSize offset

theorem Sound.readSequential_eq {reader : Reader} (sound : reader.Sound) (offset : Nat) :
    (reader.readSequential crc headerSize offset).1 = reader.readRandom crc headerSize offset := by
  obtain ⟨_, read, _⟩ : ∃ after, reader.readSequential crc headerSize offset = _ ∧ _ :=
    sound.reads.readSequential_eq_parse sound.inFile headerSize offset
  rw [read, sound.readRandom_eq]

/-- Records of the log that do not begin at the patched one lie before or behind it. -/
theorem apart_of_chain {image : List UInt8} {size start stop offset next : Nat}
    {before later : List (Nat × Frame)} {frame : Frame} {entry : Nat × Frame}
    (chain : Chain (recordAt crc image size) start (before ++ (offset, frame) :: later) stop)
    (here : recordAt crc image size offset = some (frame, next))
    (member : entry ∈ before ++ (offset, frame) :: later) (other : entry.1 ≠ offset) :
    ∃ entryNext, recordAt crc image size entry.1 = some (entry.2, entryNext) ∧
      (entryNext ≤ offset ∨ next ≤ entry.1) := by
  obtain ⟨middle, front, back⟩ := chain.split
  obtain ⟨rfl, next', here', rest⟩ := chain_cons_iff.mp back
  obtain rfl : next = next' := by simpa [here] using here'
  rcases List.mem_append.mp member with early | late
  · obtain ⟨entryNext, nextLe, found⟩ := front.decode_of_mem (recordAt_advances _ _) early
    exact ⟨entryNext, found, .inl nextLe⟩
  · rcases List.mem_cons.mp late with rfl | behind
    · exact absurd rfl other
    · obtain ⟨entryNext, _, found⟩ := rest.decode_of_mem (recordAt_advances _ _) behind
      exact ⟨entryNext, found, .inr (rest.mem_bounds (recordAt_advances _ _) behind).1⟩

theorem Sound.headerReplaced {reader : Reader} (sound : reader.Sound)
    {size startOffset stop offset : Nat} {entries : List (Nat × Frame)} {payload : List UInt8}
    {record : Record} {newHeader : FixedHeader headerSize}
    (committed : MarkedPrefix (recordAt crc reader.file size) IsMarker startOffset entries stop)
    (member : (offset, ⟨false, payload⟩) ∈ entries)
    (read : reader.readRandom crc headerSize offset = .ok record) :
    record.offset = offset ∧
      HeaderReplaced crc size startOffset stop entries reader
        (reader.patched crc offset record newHeader.1) record newHeader := by
  obtain ⟨word, headerLength, offsetEq, flushedHere⟩ :=
    sound.reads.recordAt_of_readRandom sound.inFile read
  obtain ⟨next, _, here⟩ := committed.chain.decode_of_mem (recordAt_advances _ _) member
  obtain ⟨frameEq, rfl⟩ := recordAt_unique here flushedHere
  obtain rfl : payload = record.header ++ record.data := congrArg Frame.payload frameEq
  have sameLength : newHeader.1.length = record.header.length := by
    rw [headerLength, newHeader.2]
  refine ⟨offsetEq, ?_⟩
  obtain rfl := offsetEq
  have after : (reader.patched crc record.offset record newHeader.1).Sound := sound.patched read
  have inLog := patchedAt here sameLength
  have flushed := (patchedAt flushedHere sameLength).here
  have lenEq := next_of_recordAt flushed
  rw [Frame.totalLen] at lenEq
  dsimp only at lenEq
  have headerFits : headerSize ≤ (newHeader.1 ++ record.data).length := by
    rw [List.length_append, newHeader.2]
    exact Nat.le_add_right _ _
  have random : (reader.patched crc record.offset record newHeader.1).readRandom crc headerSize
      record.offset = .ok { record with header := newHeader.1 } := by
    have parsed : parseRecordParts crc headerSize (List.take _ _) _ = .ok _ :=
      parse_of_recordAt after.inFile word headerFits flushed
    rw [after.readRandom_eq, parsed, List.take_left' newHeader.2, List.drop_left' newHeader.2]
    have wholeLen : recordHeadSize + (newHeader.1 ++ record.data).length = record.len := by omega
    rw [wholeLen]
    rfl
  obtain ⟨before, later, rfl⟩ := List.append_of_mem member
  have others : ∀ entry ∈ before ++
        (record.offset, ⟨false, record.header ++ record.data⟩) :: later,
      entry.1 ≠ record.offset →
      (reader.patched crc record.offset record newHeader.1).readRandom crc headerSize entry.1 =
        reader.readRandom crc headerSize entry.1 := by
    intro entry listed other
    obtain ⟨entryNext, found, apart⟩ := apart_of_chain committed.chain here listed other
    have agree : AgreeOn reader.file
        (reader.patched crc record.offset record newHeader.1).file entry.1 entryNext := by
      rcases apart with early | late
      · exact inLog.before.mono (Nat.zero_le _) early
      · exact (inLog.after entryNext).mono late (Nat.le_refl _)
    have same := parse_congr headerSize sound.inFile inLog.length_eq found agree
    rw [after.readRandom_eq, sound.readRandom_eq]
    exact congrArg _ same
  obtain ⟨log, position⟩ := inLog.markedPrefix here committed
  refine ⟨random, ?_, others, fun entry listed other => ?_, ⟨before, later, rfl, log⟩, ?_⟩
  · rw [after.readSequential_eq, random]
  · rw [after.readSequential_eq, sound.readSequential_eq, others entry listed other]
  · rw [recover_eq committed, ← position]
    exact recover_eq log

/-- Replacing the header of a record of a committed log touches nothing but that header, whatever
the reader was used for before. -/
theorem replaceHeaderWith_touches {file : List UInt8} {flushed : Option Nat}
    (inFile : flushed.getD file.length ≤ file.length) (calls : List (ReaderCall headerSize))
    {reader : Reader} (used : calls.foldl (Reader.call crc) (openSegment file flushed) = reader)
    {size startOffset stop offset : Nat} {entries : List (Nat × Frame)} {payload : List UInt8}
    (committed : MarkedPrefix (recordAt crc reader.file size) IsMarker startOffset entries stop)
    (member : (offset, ⟨false, payload⟩) ∈ entries)
    (f : Record → Option (FixedHeader headerSize)) (write sync : IoOutcome) :
    TouchesHeader crc size startOffset stop entries reader offset f
      (replaceHeaderWith crc headerSize reader offset f write sync) := by
  have sound : reader.Sound := by
    rw [← used]
    exact (sound_openSegment inFile).foldl calls
  rcases replaceHeaderWith_cases crc sound.reads sound.inFile offset f write sync with
    ⟨fault, result⟩ | result |
      ⟨record, newHeader, read, wanted, ⟨after, result, _⟩ | ⟨outcome, result, outcomes⟩⟩
  · rw [result]
    rfl
  · rw [result]
    rfl
  · rw [result]
    trivial
  · rw [result]
    rcases outcomes with rfl | rfl
    · obtain ⟨offsetEq, replaced⟩ := sound.headerReplaced committed member read
      exact ⟨record, newHeader, read, offsetEq, wanted, replaced⟩
    · trivial

/-- The unconditional replacement is the conditional one that always replaces. -/
theorem replaceHeader_ok_iff {reader after : Reader} {offset : Nat}
    {newHeader : FixedHeader headerSize} {write sync : IoOutcome} :
    replaceHeader crc headerSize reader offset newHeader write sync = (.ok (), after) ↔
      replaceHeaderWith crc headerSize reader offset (fun _ => some newHeader) write sync =
        (.ok true, after) := by
  unfold replaceHeader replaceHeaderWith
  cases reader.readRandom crc headerSize offset with
  | error fault => simp
  | ok record =>
      dsimp only
      cases write with
      | fail written => simp
      | ok => cases sync <;> simp

end Reader

/-- A record with a header of one byte and a commit marker, in a segment of 60 bytes. -/
def markedFile : List UInt8 :=
  writeAt (List.replicate 60 0) 0 (recordBytes crc32 [7] [1, 2] ++ markerBytes crc32 1)

/-- The record is read sequentially, so that it is buffered when its header is replaced. -/
def bufferingCalls : List (ReaderCall 1) := [.read 0]

def bufferedReader : Reader :=
  bufferingCalls.foldl (Reader.call crc32) (Reader.openSegment markedFile none)

theorem markedPrefix_markedFile :
    MarkedPrefix (recordAt crc32 bufferedReader.file 60) IsMarker 0
      [(0, ⟨false, [7, 1, 2]⟩), (11, ⟨true, markerPayload 1⟩)] 28 where
  chain := by
    have first : recordAt crc32 bufferedReader.file 60 0 = some (⟨false, [7, 1, 2]⟩, 11) := by
      decide +kernel
    exact .cons first (.single (by decide +kernel))
  ends := .inr ⟨[(0, ⟨false, [7, 1, 2]⟩)], _, rfl, isMarker_markerPayload 1⟩
  longest := unmarked_of_decode_none (by decide +kernel)

theorem replaceHeaderWith_touches_buffered :
    ∃ after, Reader.replaceHeaderWith crc32 1 bufferedReader 0 (fun _ => some ⟨[9], rfl⟩) .ok .ok =
        (.ok true, after) ∧
      TouchesHeader crc32 60 0 28 [(0, ⟨false, [7, 1, 2]⟩), (11, ⟨true, markerPayload 1⟩)]
        bufferedReader 0 (fun _ => some (⟨[9], rfl⟩ : FixedHeader 1)) (.ok true, after) := by
  have inFile : (none : Option Nat).getD markedFile.length ≤ markedFile.length := Nat.le_refl _
  have used : bufferingCalls.foldl (Reader.call crc32) (Reader.openSegment markedFile none) =
      bufferedReader := by
    rw [bufferedReader]
  have replaced : (Reader.replaceHeaderWith crc32 1 bufferedReader 0
      (fun _ => some ⟨[9], rfl⟩) .ok .ok).1 = .ok true := by
    decide +kernel
  have committed := markedPrefix_markedFile
  generalize bufferedReader = reader at used replaced committed ⊢
  have touched := Reader.replaceHeaderWith_touches inFile bufferingCalls used committed
    List.mem_cons_self (fun _ => some ⟨[9], rfl⟩) .ok .ok
  refine ⟨_, Prod.ext replaced rfl, ?_⟩
  rwa [← replaced]

end Seglog

end Tephra
