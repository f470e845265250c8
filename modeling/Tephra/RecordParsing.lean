import Mathlib.Tactic.Ring
import Tephra.Crc32
import Tephra.RecordPeeking

/-!
# One framing, four readings

A record is parsed out of bytes in memory, borrowed or copied, and read out of a file with the
random or the sequential hint.  Each of these is written out on its own.  They agree on every
byte image, except that a data record shorter than the record header makes all of them panic,
and so does an offset so large that the end of a record head does not fit 64 bits.
-/

namespace Tephra

namespace Seglog

open ByteImage FrameChain

/-- The largest payload that is read into the fallback buffer. -/
def fallbackBufSize : Nat := pageSize

/-- What 64 bits can count. -/
def wordSize : Nat := 2 ^ 64

variable (crc : List UInt8 → UInt32)

/-- Validate the record framing at an offset of the bytes; the result is the header, the data
and the framed length. -/
def parseRecordParts (headerSize : Nat) (bytes : List UInt8) (offset : Nat) :
    Except ReadFault (List UInt8 × List UInt8 × Nat) :=
  -- The sum is computed in 64 bits.  The others cannot overflow: they are at most the length of
  -- the bytes and a payload together.
  if wordSize ≤ offset + recordHeadSize then
    .error .panicked
  else if offset + recordHeadSize > bytes.length then
    .error (.error (.outOfBounds offset recordHeadSize bytes.length))
  else
    let head := (bytes.drop offset).take recordHeadSize
    if isTruncationMarker head then
      .error (.error (.truncationMarker offset))
    else
      let raw := headRaw head
      if hasUnknownFlags raw then
        .error (.error (.corrupt offset))
      else
        let isControl := isControlField raw
        let payloadLen := payloadLenField raw
        let payloadOffset := offset + recordHeadSize
        if payloadOffset + payloadLen > bytes.length then
          .error (.error (.outOfBounds offset (recordHeadSize + payloadLen) bytes.length))
        else
          let payload := (bytes.drop payloadOffset).take payloadLen
          if isControl then
            if (calculateCrc32c crc (head.take lenSize) [] payload).toNat ≠ headCrc head then
              .error (.error (.crc32cMismatch offset))
            else
              .error (.error (.controlRecord offset (recordHeadSize + payloadLen)))
          -- Slicing the payload at the header length panics when it is shorter.
          else if payload.length < headerSize then
            .error .panicked
          else
            let header := payload.take headerSize
            let data := payload.drop headerSize
            if (calculateCrc32c crc (head.take lenSize) header data).toNat ≠ headCrc head then
              .error (.error (.crc32cMismatch offset))
            else
              .ok (header, data, recordHeadSize + payloadLen)

/-- Parse a record, copying its header and its data. -/
def parseRecord (headerSize : Nat) (bytes : List UInt8) (offset : Nat) :
    Except ReadFault (List UInt8 × List UInt8 × Nat) :=
  parseRecordParts crc headerSize bytes offset

/-- Parse a record, borrowing its data. -/
def parseRecordRef (headerSize : Nat) (bytes : List UInt8) (offset : Nat) :
    Except ReadFault (List UInt8 × Nat) :=
  (parseRecordParts crc headerSize bytes offset).map Prod.snd

namespace Reader

/-- Header and data of a payload that lies in the bytes of the first call. -/
def splitOptimistic (optimistic : List UInt8) (payloadLen headerLen : Nat) :
    Except ReadFault (List UInt8 × List UInt8) :=
  let payload := (optimistic.drop recordHeadSize).take payloadLen
  if payload.length < headerLen then
    .error .panicked
  else
    .ok (payload.take headerLen, payload.drop headerLen)

/-- Header and data of a payload that is read into the fallback buffer. -/
def splitFallback (self : Reader) (offset payloadLen headerLen : Nat) :
    Except ReadFault (List UInt8 × List UInt8) :=
  match readExact self.file (offset + recordHeadSize) payloadLen with
  | none => .error (.error .unexpectedEof)
  | some payload =>
      if fallbackBufSize < headerLen ∨ payloadLen < headerLen then
        .error .panicked
      else
        .ok (payload.take headerLen, payload.drop headerLen)

/-- Header and data of a payload that is read into a buffer of its own. -/
def splitAllocated (self : Reader) (offset payloadLen headerLen : Nat) :
    Except ReadFault (List UInt8 × List UInt8) :=
  match readExact self.file (offset + recordHeadSize) payloadLen with
  | none => .error (.error .unexpectedEof)
  | some payload =>
      if payload.length < headerLen then
        .error .panicked
      else
        .ok (payload.take headerLen, payload.drop headerLen)

/-- Header and data of the record, through one of the three buffers. -/
def splitPayload (self : Reader) (offset : Nat) (optimistic : List UInt8)
    (payloadLen headerLen : Nat) : Except ReadFault (List UInt8 × List UInt8) :=
  if payloadLen ≤ optimisticDataSize ∧ recordHeadSize + payloadLen ≤ optimistic.length then
    splitOptimistic optimistic payloadLen headerLen
  else if payloadLen ≤ fallbackBufSize then
    self.splitFallback offset payloadLen headerLen
  else
    self.splitAllocated offset payloadLen headerLen

/-- Read the record at an offset with the random hint. -/
def readRandom (headerSize : Nat) (self : Reader) (offset : Nat) : Except ReadFault Record :=
  if wordSize ≤ offset + recordHeadSize then
    .error .panicked
  else if offset + recordHeadSize > self.flushedOffset then
    .error (.error (.outOfBounds offset recordHeadSize self.flushedOffset))
  else
    let optimisticReadLen :=
      min (recordHeadSize + optimisticDataSize) (self.flushedOffset - offset)
    match readExact self.file offset optimisticReadLen with
    | none => .error (.error .unexpectedEof)
    | some optimistic =>
        let head := optimistic.take recordHeadSize
        if isTruncationMarker head then
          .error (.error (.truncationMarker offset))
        else
          let raw := headRaw head
          if hasUnknownFlags raw then
            .error (.error (.corrupt offset))
          else
            let isControl := isControlField raw
            let payloadLen := payloadLenField raw
            if offset + recordHeadSize + payloadLen > self.flushedOffset then
              .error (.error (.outOfBounds offset (recordHeadSize + payloadLen)
                self.flushedOffset))
            else
              let headerLen := if isControl then 0 else headerSize
              match self.splitPayload offset optimistic payloadLen headerLen with
              | .error fault => .error fault
              | .ok (header, data) =>
                  if (calculateCrc32c crc (head.take lenSize) header data).toNat ≠
                      headCrc head then
                    .error (.error (.crc32cMismatch offset))
                  else if isControl then
                    .error (.error (.controlRecord offset (recordHeadSize + payloadLen)))
                  else
                    .ok ⟨header, data, offset, recordHeadSize + payloadLen⟩

/-- Read the record at an offset with the sequential hint. -/
def readSequential (headerSize : Nat) (self : Reader) (offset : Nat) :
    Except ReadFault Record × Reader :=
  if wordSize ≤ offset + recordHeadSize then
    (.error .panicked, self)
  else
    self.readRecord crc headerSize offset

end Reader

/-- The record that was parsed at an offset. -/
def toRead (offset : Nat) (parts : List UInt8 × List UInt8 × Nat) : Record :=
  ⟨parts.1, parts.2.1, offset, parts.2.2⟩

/-- The bytes at an offset are a data record inside the image whose payload is shorter than
the record header. -/
structure ShortData (headerSize : Nat) (bytes : List UInt8) (offset : Nat) : Prop where
  head_fits : offset + recordHeadSize ≤ bytes.length
  written : isTruncationMarker ((bytes.drop offset).take recordHeadSize) = false
  known : hasUnknownFlags (headRaw ((bytes.drop offset).take recordHeadSize)) = false
  data : isControlField (headRaw ((bytes.drop offset).take recordHeadSize)) = false
  fits : offset + recordHeadSize +
    payloadLenField (headRaw ((bytes.drop offset).take recordHeadSize)) ≤ bytes.length
  short : payloadLenField (headRaw ((bytes.drop offset).take recordHeadSize)) < headerSize

/-- The readings give the same record, or each of them an error, and none panics. -/
def Agree (headerSize : Nat) (image : List UInt8) (flushed offset : Nat) : Prop :=
  (∃ record : Record,
    (Reader.openSegment image (some flushed)).readRandom crc headerSize offset = .ok record ∧
    ((Reader.openSegment image (some flushed)).readSequential crc headerSize offset).1 =
      .ok record ∧
    parseRecord crc headerSize (image.take flushed) offset =
      .ok (record.header, record.data, record.len) ∧
    parseRecordRef crc headerSize (image.take flushed) offset = .ok (record.data, record.len)) ∨
  ∃ random sequential copied borrowed : ReadError,
    (Reader.openSegment image (some flushed)).readRandom crc headerSize offset =
      .error (.error random) ∧
    ((Reader.openSegment image (some flushed)).readSequential crc headerSize offset).1 =
      .error (.error sequential) ∧
    parseRecord crc headerSize (image.take flushed) offset = .error (.error copied) ∧
    parseRecordRef crc headerSize (image.take flushed) offset = .error (.error borrowed)

variable {crc}

theorem readExact_take {image : List UInt8} {flushed offset length : Nat}
    (inFile : flushed ≤ image.length) (fits : offset + length ≤ flushed) :
    readExact image offset length = some (((image.take flushed).drop offset).take length) := by
  refine readExact_eq_some_iff.mpr ⟨by omega, ?_⟩
  rw [List.drop_take, List.take_take, Nat.min_eq_left (by omega)]

theorem length_slice {bytes : List UInt8} {offset length : Nat}
    (fits : offset + length ≤ bytes.length) :
    ((bytes.drop offset).take length).length = length := by
  rw [List.length_take, List.length_drop]
  omega

namespace Reader

theorem splitPayload_eq {self : Reader} {optimistic payload : List UInt8}
    {offset length payloadLen headerLen : Nat}
    (readFirst : readExact self.file offset length = some optimistic)
    (readPayload : readExact self.file (offset + recordHeadSize) payloadLen = some payload) :
    self.splitPayload offset optimistic payloadLen headerLen =
      if payloadLen < headerLen then
        .error .panicked
      else
        .ok (payload.take headerLen, payload.drop headerLen) := by
  have payloadLength := length_of_readExact readPayload
  have sliced := payloadOf_eq readFirst readPayload
  unfold splitPayload
  unfold payloadOf at sliced
  split
  · next fits =>
    rw [if_pos fits, Option.some.injEq] at sliced
    rw [splitOptimistic, sliced, payloadLength]
  · split
    · next short =>
      simp only [splitFallback, readPayload]
      by_cases panics : payloadLen < headerLen
      · rw [if_pos (.inr panics), if_pos panics]
      · rw [if_neg (by omega), if_neg panics]
    · simp only [splitAllocated, readPayload, payloadLength]

theorem Reads.readRandom_eq_parse {self : Reader} {image : List UInt8} {flushed : Nat}
    (reads : self.Reads image flushed) (inFile : flushed ≤ image.length)
    (headerSize offset : Nat) :
    self.readRandom crc headerSize offset =
      (parseRecordParts crc headerSize (image.take flushed) offset).map (toRead offset) := by
  obtain ⟨rfl, rfl, _⟩ := reads
  have bytesLength : (self.file.take self.flushedOffset).length = self.flushedOffset := by
    rw [List.length_take, Nat.min_eq_left inFile]
  unfold readRandom parseRecordParts
  rw [bytesLength]
  by_cases overflow : wordSize ≤ offset + recordHeadSize
  · rw [if_pos overflow, if_pos overflow]
    rfl
  rw [if_neg overflow, if_neg overflow]
  by_cases headFits : offset + recordHeadSize > self.flushedOffset
  · rw [if_pos headFits, if_pos headFits]
    rfl
  rw [if_neg headFits, if_neg headFits]
  have readHead := readExact_take inFile (Nat.not_lt.mp headFits)
  obtain ⟨optimistic, readFirst, headEq⟩ := readExact_optimistic readHead inFile headFits
  simp only [readFirst, headEq]
  generalize List.take recordHeadSize _ = head
  by_cases zero : isTruncationMarker head = true
  · rw [if_pos zero, if_pos zero]
    rfl
  rw [if_neg zero, if_neg zero]
  by_cases unknown : hasUnknownFlags (headRaw head) = true
  · rw [if_pos unknown, if_pos unknown]
    rfl
  rw [if_neg unknown, if_neg unknown]
  by_cases long : offset + recordHeadSize + payloadLenField (headRaw head) > self.flushedOffset
  · rw [if_pos long, if_pos long]
    rfl
  rw [if_neg long, if_neg long]
  have readPayload := readExact_take inFile (Nat.not_lt.mp long)
  have payloadLength := length_of_readExact readPayload
  rw [splitPayload_eq readFirst readPayload]
  cases isControlField (headRaw _) with
  | true =>
      simp only [if_true, Nat.not_lt_zero, if_false, List.take_zero, List.drop_zero]
      split <;> rfl
  | false =>
      simp only [Bool.false_eq_true, if_false, payloadLength]
      generalize List.take (payloadLenField _) _ = payload
      generalize headRaw _ = raw
      by_cases panics : payloadLenField raw < headerSize
      · rw [if_pos panics, if_pos panics]
        rfl
      · rw [if_neg panics, if_neg panics]
        dsimp only
        split <;> rfl

theorem Reads.readSequential_eq_parse {self : Reader} {image : List UInt8} {flushed : Nat}
    (reads : self.Reads image flushed) (inFile : flushed ≤ image.length)
    (headerSize offset : Nat) :
    ∃ reader, self.readSequential crc headerSize offset =
        ((parseRecordParts crc headerSize (image.take flushed) offset).map (toRead offset),
          reader) ∧
      reader.Reads image flushed := by
  have bytesLength : (image.take flushed).length = flushed := by
    rw [List.length_take, Nat.min_eq_left inFile]
  unfold readSequential parseRecordParts readRecord
  rw [bytesLength, reads.flushed_eq]
  by_cases overflow : wordSize ≤ offset + recordHeadSize
  · rw [if_pos overflow, if_pos overflow]
    exact ⟨self, rfl, reads⟩
  rw [if_neg overflow, if_neg overflow]
  by_cases headFits : offset + recordHeadSize > flushed
  · rw [if_pos headFits, if_pos headFits]
    exact ⟨self, rfl, reads⟩
  rw [if_neg headFits, if_neg headFits]
  have readHead := readExact_take inFile (Nat.not_lt.mp headFits)
  obtain ⟨first, firstRead, firstReads⟩ := readAhead_eq reads readHead
  simp only [readRecordSequential, firstRead, firstReads.flushed_eq]
  generalize List.take recordHeadSize _ = head
  by_cases zero : isTruncationMarker head = true
  · rw [if_pos zero, if_pos zero]
    exact ⟨first, rfl, firstReads⟩
  rw [if_neg zero, if_neg zero]
  by_cases unknown : hasUnknownFlags (headRaw head) = true
  · rw [if_pos unknown, if_pos unknown]
    exact ⟨first, rfl, firstReads⟩
  rw [if_neg unknown, if_neg unknown]
  by_cases long : offset + recordHeadSize + payloadLenField (headRaw head) > flushed
  · rw [if_pos long, if_pos long]
    exact ⟨first, rfl, firstReads⟩
  rw [if_neg long, if_neg long]
  have readPayload := readExact_take inFile (Nat.not_lt.mp long)
  have payloadLength := length_of_readExact readPayload
  obtain ⟨second, secondRead, secondReads⟩ := readAhead_eq firstReads readPayload
  refine ⟨second, ?_, secondReads⟩
  simp only [secondRead, payloadLength]
  generalize List.take (payloadLenField _) _ = payload
  generalize headRaw _ = raw
  cases isControlField raw with
  | true =>
      simp only [if_true, Nat.not_lt_zero, if_false, List.take_zero, List.drop_zero]
      split <;> rfl
  | false =>
      simp only [Bool.false_eq_true, if_false]
      split
      · rfl
      · split <;> rfl

end Reader

variable (crc) in
/-- Parsing panics at an offset near the end of the 64 bits and at a short data record. -/
theorem parseRecordParts_panicked_iff {headerSize offset : Nat} {bytes : List UInt8} :
    parseRecordParts crc headerSize bytes offset = .error .panicked ↔
      wordSize ≤ offset + recordHeadSize ∨ ShortData headerSize bytes offset := by
  unfold parseRecordParts
  by_cases overflow : wordSize ≤ offset + recordHeadSize
  · simp [overflow]
  rw [if_neg overflow, or_iff_right overflow]
  by_cases beyond : offset + recordHeadSize > bytes.length
  · rw [if_pos beyond]
    simp only [Except.error.injEq, reduceCtorEq, false_iff]
    intro isShort
    have fits := isShort.head_fits
    omega
  rw [if_neg beyond]
  dsimp only
  by_cases zero : isTruncationMarker ((bytes.drop offset).take recordHeadSize) = true
  · rw [if_pos zero]
    simp only [Except.error.injEq, reduceCtorEq, false_iff]
    intro isShort
    rw [isShort.written] at zero
    cases zero
  rw [if_neg zero]
  by_cases unknown : hasUnknownFlags (headRaw ((bytes.drop offset).take recordHeadSize)) = true
  · rw [if_pos unknown]
    simp only [Except.error.injEq, reduceCtorEq, false_iff]
    intro isShort
    rw [isShort.known] at unknown
    cases unknown
  rw [if_neg unknown]
  by_cases long : offset + recordHeadSize +
      payloadLenField (headRaw ((bytes.drop offset).take recordHeadSize)) > bytes.length
  · rw [if_pos long]
    simp only [Except.error.injEq, reduceCtorEq, false_iff]
    intro isShort
    have fits := isShort.fits
    omega
  rw [if_neg long, length_slice (Nat.not_lt.mp long)]
  by_cases control : isControlField (headRaw ((bytes.drop offset).take recordHeadSize)) = true
  · have unpanicked : ¬ ShortData headerSize bytes offset := by
      intro isShort
      rw [isShort.data] at control
      cases control
    rw [if_pos control]
    split <;> simp [unpanicked]
  rw [if_neg control]
  by_cases short : payloadLenField (headRaw ((bytes.drop offset).take recordHeadSize)) < headerSize
  · rw [if_pos short]
    simp only [true_iff]
    exact ⟨Nat.not_lt.mp beyond, by simpa using zero, by simpa using unknown,
      by simpa using control, Nat.not_lt.mp long, short⟩
  · have unpanicked : ¬ ShortData headerSize bytes offset := fun isShort => short isShort.short
    rw [if_neg short]
    split <;> simp [unpanicked]

/-- The readings agree, and none panics, exactly if the end of the head fits 64 bits and the
bytes are no data record shorter than the record header. -/
theorem readings_agree_iff {image : List UInt8} {flushed : Nat} (inFile : flushed ≤ image.length)
    (headerSize offset : Nat) :
    Agree crc headerSize image flushed offset ↔
      offset + recordHeadSize < wordSize ∧ ¬ ShortData headerSize (image.take flushed) offset := by
  have reads : (Reader.openSegment image (some flushed)).Reads image flushed :=
    Reader.reads_openSegment image (some flushed)
  have random : Reader.readRandom crc _ _ _ = _ :=
    reads.readRandom_eq_parse inFile headerSize offset
  obtain ⟨reader, sequential, _⟩ : ∃ reader, Reader.readSequential crc _ _ _ = _ ∧ _ :=
    reads.readSequential_eq_parse inFile headerSize offset
  rw [← Nat.not_le, ← not_or, ← parseRecordParts_panicked_iff crc]
  unfold Agree parseRecordRef parseRecord
  rw [random, sequential]
  cases parseRecordParts crc headerSize (image.take flushed) offset with
  | ok parts =>
      simp only [reduceCtorEq, not_false_eq_true, iff_true]
      exact .inl ⟨toRead offset parts, rfl, rfl, rfl, rfl⟩
  | error fault =>
      cases fault with
      | error source =>
          simp only [Except.error.injEq, reduceCtorEq, not_false_eq_true, iff_true]
          exact .inr ⟨source, source, source, source, rfl, rfl, rfl, rfl⟩
      | panicked => simp [Except.map]

/-- A record with one byte of data and no checksum. -/
def oneByte : List UInt8 := [1, 0, 0, 0, 0, 0, 0, 0, 7]

theorem readings_agree_iff_oneByte : Agree crc32 1 oneByte 9 0 :=
  (readings_agree_iff (by decide) 1 0).mpr
    ⟨by decide, fun isShort => absurd isShort.short (by decide)⟩

/-- With a record header of eight bytes no reading of it returns. -/
theorem short_data_panics : ¬ Agree crc32 8 oneByte 9 0 := by
  have panicked : parseRecord crc32 8 (oneByte.take 9) 0 = .error .panicked := by decide
  rintro (⟨record, _, _, parsed, _⟩ | ⟨_, _, _, _, _, _, parsed, _⟩)
  · rw [panicked] at parsed
    cases parsed
  · rw [panicked] at parsed
    cases parsed

end Seglog

end Tephra
