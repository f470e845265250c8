import Tephra.SegmentIteration

/-!
# Point reads and peeks

Besides the iteration of a segment the reader offers two single steps: a read of
the record at a known offset, which takes the head and the first bytes of the
data in one system call, and a classification of the record at an offset from
its head alone.
-/

namespace Tephra

namespace Seglog

open ByteImage FrameChain

/-- What the first system call of a point read takes besides the head. -/
def optimisticDataSize : Nat := 2048

/-- Classification of the record at an offset from its head alone. -/
inductive RecordKind where
  | data (totalLen : Nat)
  | control (totalLen : Nat)
  | done
deriving DecidableEq, Repr

variable (crc : List UInt8 → UInt32)

namespace Reader

/-- Classify the record at an offset without checking its payload. -/
def peek (self : Reader) (offset : Nat) : Except ReadFault RecordKind × Reader :=
  if offset + recordHeadSize > self.flushedOffset then
    (.ok .done, self)
  else
    match self.readAhead offset recordHeadSize with
    | (.error fault, self) => (.error fault, self)
    | (.ok header, self) =>
        if isTruncationMarker header then
          (.ok .done, self)
        else
          let raw := headRaw header
          if hasUnknownFlags raw then
            (.error (.error (.corrupt offset)), self)
          else
            let totalLen := recordHeadSize + payloadLenField raw
            if offset + totalLen > self.flushedOffset then
              (.ok .done, self)
            else if isControlField raw then
              (.ok (.control totalLen), self)
            else
              (.ok (.data totalLen), self)

/-- The payload of a point read: from the bytes of the first call when they reach
that far, by a second call otherwise. -/
def payloadOf (self : Reader) (offset : Nat) (optimistic : List UInt8) (payloadLen : Nat) :
    Option (List UInt8) :=
  if payloadLen ≤ optimisticDataSize ∧ recordHeadSize + payloadLen ≤ optimistic.length then
    some ((optimistic.drop recordHeadSize).take payloadLen)
  else
    readExact self.file (offset + recordHeadSize) payloadLen

/-- Read the record at an offset with the random hint.  The read-ahead buffer is
not used. -/
def readRecordRandom (headerSize : Nat) (self : Reader) (offset : Nat) :
    Except ReadFault Record :=
  if offset + recordHeadSize > self.flushedOffset then
    .error (.error (.outOfBounds offset recordHeadSize self.flushedOffset))
  else
    let optimisticReadLen :=
      min (recordHeadSize + optimisticDataSize) (self.flushedOffset - offset)
    match readExact self.file offset optimisticReadLen with
    | none => .error (.error .unexpectedEof)
    | some optimistic =>
        let head := optimistic.take recordHeadSize
        if isTruncationMarker head then
          .error (.error (.truncationMarker offset))
        else
          let raw := headRaw head
          if hasUnknownFlags raw then
            .error (.error (.corrupt offset))
          else
            let isControl := isControlField raw
            let payloadLen := payloadLenField raw
            if offset + recordHeadSize + payloadLen > self.flushedOffset then
              .error (.error (.outOfBounds offset (recordHeadSize + payloadLen)
                self.flushedOffset))
            else
              match self.payloadOf offset optimistic payloadLen with
              | none => .error (.error .unexpectedEof)
              | some payload =>
                  let headerLen := if isControl then 0 else headerSize
                  -- Slicing the payload at the header length panics when it is shorter.
                  if payload.length < headerLen then
                    .error .panicked
                  else
                    let header := payload.take headerLen
                    let data := payload.drop headerLen
                    if (calculateCrc32c crc (head.take lenSize) header data).toNat ≠
                        headCrc head then
                      .error (.error (.crc32cMismatch offset))
                    else if isControl then
                      .error (.error (.controlRecord offset (recordHeadSize + payloadLen)))
                    else
                      .ok ⟨header, data, offset, recordHeadSize + payloadLen⟩

variable {crc}

theorem readAhead_flushedOffset (self : Reader) (offset length : Nat) :
    (self.readAhead offset length).2.flushedOffset = self.flushedOffset := rfl

theorem peek_flushedOffset (self : Reader) (offset : Nat) :
    (self.peek offset).2.flushedOffset = self.flushedOffset := by
  unfold peek
  split
  · rfl
  have kept := self.readAhead_flushedOffset offset recordHeadSize
  generalize self.readAhead offset recordHeadSize = read at kept ⊢
  obtain ⟨_ | header, after⟩ := read
  · exact kept
  · simp only
    split_ifs <;> exact kept

theorem peek_control_fits {self after : Reader} {offset totalLen : Nat}
    (peeked : self.peek offset = (.ok (.control totalLen), after)) :
    0 < totalLen ∧ offset + totalLen ≤ after.flushedOffset := by
  unfold peek at peeked
  split at peeked
  · simp at peeked
  generalize self.readAhead offset recordHeadSize = read at peeked
  obtain ⟨_ | header, reader⟩ := read
  · simp at peeked
  simp only at peeked
  split_ifs at peeked with zero unknown long control
  all_goals
    obtain ⟨kind, rfl⟩ := Prod.mk.inj peeked
    simp only [Except.ok.injEq, RecordKind.control.injEq, reduceCtorEq] at kind
  subst kind
  exact ⟨by simp [recordHeadSize, lenSize], by omega⟩

/-- At a well-formed record the reader sees its kind and its framed length. -/
theorem peek_record {self : Reader} {file : List UInt8} {flushed offset next : Nat}
    {frame : Frame} (reads : self.Reads file flushed)
    (here : recordAt crc file flushed offset = some (frame, next)) :
    ∃ reader, self.peek offset =
        (.ok (if frame.isControl then .control frame.totalLen else .data frame.totalLen),
          reader) ∧
      reader.Reads file flushed := by
  obtain ⟨head, readHead, notEnd, known, isControl, readPayload, valid, rfl, fits⟩ :=
    recordAt_eq_some_iff.mp here
  have payloadLength := length_of_readExact readPayload
  obtain ⟨first, firstRead, firstReads⟩ := readAhead_eq reads readHead
  refine ⟨first, ?_, firstReads⟩
  have headFits : ¬ offset + recordHeadSize > self.flushedOffset := by
    rw [reads.flushed_eq]
    omega
  have recordFits : ¬ offset + (recordHeadSize + payloadLenField (headRaw head)) >
      first.flushedOffset := by
    rw [firstReads.flushed_eq]
    omega
  cases control : isControlField (headRaw head)
  · simp [peek, headFits, firstRead, notEnd, known, recordFits, control, isControl,
      Frame.totalLen, payloadLength]
  · simp [peek, headFits, firstRead, notEnd, known, recordFits, control, isControl,
      Frame.totalLen, payloadLength]

theorem peek_quiet {self : Reader} {file : List UInt8} {flushed offset : Nat}
    (reads : self.Reads file flushed) (quiet : QuietAt file flushed offset) :
    ∃ reader, self.peek offset = (.ok .done, reader) ∧ reader.Reads file flushed := by
  unfold peek
  rw [reads.flushed_eq]
  by_cases headFits : offset + recordHeadSize > flushed
  · exact ⟨self, by rw [if_pos headFits], reads⟩
  rw [if_neg headFits]
  rcases quiet with short | ⟨head, readHead, ending⟩
  · omega
  obtain ⟨first, firstRead, firstReads⟩ := readAhead_eq reads readHead
  refine ⟨first, ?_, firstReads⟩
  simp only [firstRead]
  by_cases zero : isTruncationMarker head = true
  · rw [if_pos zero]
  · obtain ⟨known, long⟩ := ending.resolve_left zero
    rw [if_neg zero, firstReads.flushed_eq, ← Nat.add_assoc]
    simp only [known, Bool.false_eq_true, if_false, if_pos long]

theorem readExact_optimistic {file head : List UInt8} {flushed offset : Nat}
    (readHead : readExact file offset recordHeadSize = some head)
    (inFile : flushed ≤ file.length) (headFits : ¬ offset + recordHeadSize > flushed) :
    ∃ optimistic, readExact file offset
        (min (recordHeadSize + optimisticDataSize) (flushed - offset)) = some optimistic ∧
      optimistic.take recordHeadSize = head := by
  refine ⟨_, readExact_eq_some_iff.mpr ⟨?_, rfl⟩, ?_⟩
  · omega
  · rw [List.take_take, Nat.min_eq_left (by omega)]
    exact (readExact_eq_some_iff.mp readHead).2

/-- Both ways to the payload of a point read give the bytes of the file. -/
theorem payloadOf_eq {self : Reader} {optimistic payload : List UInt8}
    {offset length payloadLen : Nat}
    (readFirst : readExact self.file offset length = some optimistic)
    (readPayload : readExact self.file (offset + recordHeadSize) payloadLen = some payload) :
    self.payloadOf offset optimistic payloadLen = some payload := by
  unfold payloadOf
  split
  next fits =>
    obtain ⟨_, optimisticEq⟩ := readExact_eq_some_iff.mp readFirst
    obtain ⟨_, payloadEq⟩ := readExact_eq_some_iff.mp readPayload
    have lengthEq := length_of_readExact readFirst
    rw [← payloadEq, ← optimisticEq, List.drop_take, List.drop_drop, List.take_take,
      Nat.min_eq_left (by omega)]
  next => exact readPayload

theorem readRecordRandom_data {self : Reader} {file : List UInt8}
    {flushed offset next headerSize : Nat} {frame : Frame}
    (reads : self.Reads file flushed) (inFile : flushed ≤ file.length)
    (here : recordAt crc file flushed offset = some (frame, next))
    (data : frame.isControl = false) (headerFits : headerSize ≤ frame.payload.length) :
    self.readRecordRandom crc headerSize offset =
      .ok ⟨frame.payload.take headerSize, frame.payload.drop headerSize, offset,
        frame.totalLen⟩ := by
  obtain ⟨head, readHead, notEnd, known, isControl, readPayload, valid, rfl, fits⟩ :=
    recordAt_eq_some_iff.mp here
  have payloadLength := length_of_readExact readPayload
  have headFits : ¬ offset + recordHeadSize > self.flushedOffset := by
    rw [reads.flushed_eq]
    omega
  have recordFits : ¬ offset + recordHeadSize + payloadLenField (headRaw head) >
      self.flushedOffset := by
    rw [reads.flushed_eq]
    omega
  have lengthBytes := take_lenSize_eq readHead
  have checked : (calculateCrc32c crc (head.take lenSize) (frame.payload.take headerSize)
      (frame.payload.drop headerSize)).toNat = headCrc head := by
    rw [calculateCrc32c_split, lengthBytes, valid]
  rw [← reads.file_eq] at readHead readPayload
  rw [← reads.file_eq, ← reads.flushed_eq] at inFile
  obtain ⟨optimistic, readFirst, headEq⟩ := readExact_optimistic readHead inFile headFits
  rw [data] at isControl
  have noPanic : ¬ payloadLenField (headRaw head) < headerSize := by omega
  simp only [readRecordRandom, headFits, if_false, readFirst, headEq, notEnd,
    Bool.false_eq_true, known, recordFits, payloadOf_eq readFirst readPayload, ← isControl,
    noPanic, checked, ne_eq, not_true_eq_false, Frame.totalLen, payloadLength]

end Reader

end Seglog

end Tephra
