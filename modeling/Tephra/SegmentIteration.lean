import Tephra.Crc32
import Tephra.SegmentReader

/-!
# Iteration follows the chain of records

Each step of the reader agrees with the well-formed record at its offset, so a
chain of well-formed records is read to its end.  Recovery keeps such a chain,
and the offset it returns bounds the iteration that reads the chain back.
-/

namespace Tephra

namespace Seglog

open ByteImage FrameChain

variable {crc : List UInt8 → UInt32}

/-- The iteration ends at an offset without an error: no head fits below the
flushed offset, the head is zero, or the record runs past the flushed offset. -/
def QuietAt (file : List UInt8) (flushed offset : Nat) : Prop :=
  flushed < offset + recordHeadSize ∨
    ∃ head, readExact file offset recordHeadSize = some head ∧
      (isTruncationMarker head = true ∨
        hasUnknownFlags (headRaw head) = false ∧
          flushed < offset + recordHeadSize + payloadLenField (headRaw head))

theorem QuietAt.recordAt_eq_none {file : List UInt8} {flushed offset : Nat}
    (quiet : QuietAt file flushed offset) :
    recordAt crc file flushed offset = none := by
  by_contra present
  obtain ⟨⟨frame, next⟩, here⟩ := Option.ne_none_iff_exists'.mp present
  obtain ⟨head, readHead, notEnd, known, _, _, _, rfl, fits⟩ :=
    recordAt_eq_some_iff.mp here
  rcases quiet with short | ⟨head', readHead', ending⟩
  · omega
  · obtain rfl : head = head' := by simpa using readHead.symm.trans readHead'
    rcases ending with zero | ⟨_, long⟩
    · simp [notEnd] at zero
    · omega

namespace Reader

/-- A reader of a given file and flushed offset, whatever it has buffered. -/
structure Reads (reader : Reader) (file : List UInt8) (flushed : Nat) : Prop where
  file_eq : reader.file = file
  flushed_eq : reader.flushedOffset = flushed
  caches : reader.readAheadBuf.Caches file

theorem reads_openSegment (file : List UInt8) (flushed : Option Nat) :
    (openSegment file flushed).Reads file (flushed.getD file.length) :=
  ⟨rfl, rfl, ReadAheadBuf.caches_new file⟩

theorem readAhead_spec {self : Reader} {file : List UInt8} {flushed offset length : Nat}
    (reads : self.Reads file flushed) (fits : offset + length ≤ file.length) :
    ∃ bytes reader, readExact file offset length = some bytes ∧
      self.readAhead offset length = (.ok bytes, reader) ∧ reader.Reads file flushed := by
  obtain ⟨rfl, rfl, caches⟩ := reads
  obtain ⟨bytes, read, result, caches'⟩ := ReadAheadBuf.read_spec caches fits
  refine ⟨bytes, (self.readAhead offset length).2, read, ?_, rfl, rfl, caches'⟩
  exact Prod.ext result rfl

theorem readAhead_eq {self : Reader} {file bytes : List UInt8} {flushed offset length : Nat}
    (reads : self.Reads file flushed)
    (read : readExact file offset length = some bytes) :
    ∃ reader, self.readAhead offset length = (.ok bytes, reader) ∧
      reader.Reads file flushed := by
  obtain ⟨bytes', reader, read', result, reads'⟩ :=
    readAhead_spec reads (readExact_eq_some_iff.mp read).1
  obtain rfl : bytes = bytes' := by simpa using read.symm.trans read'
  exact ⟨reader, result, reads'⟩

theorem controlLenAt_control {self : Reader} {file : List UInt8}
    {flushed offset next : Nat} {frame : Frame} (reads : self.Reads file flushed)
    (here : recordAt crc file flushed offset = some (frame, next))
    (control : frame.isControl = true) :
    ∃ reader, self.controlLenAt crc offset = (some frame.totalLen, reader) ∧
      reader.Reads file flushed := by
  obtain ⟨head, readHead, notEnd, known, isControl, readPayload, valid, rfl, fits⟩ :=
    recordAt_eq_some_iff.mp here
  have payloadLength := length_of_readExact readPayload
  obtain ⟨first, firstRead, firstReads⟩ := readAhead_eq reads readHead
  obtain ⟨second, secondRead, secondReads⟩ := readAhead_eq firstReads readPayload
  refine ⟨second, ?_, secondReads⟩
  have headFits : ¬ offset + recordHeadSize > self.flushedOffset := by
    rw [reads.flushed_eq]
    omega
  have recordFits : ¬ offset + (recordHeadSize + payloadLenField (headRaw head)) >
      first.flushedOffset := by
    rw [firstReads.flushed_eq]
    omega
  rw [control] at isControl
  simp only [controlLenAt, headFits, if_false, firstRead, notEnd, Bool.false_eq_true,
    ← isControl, known, Bool.not_true, Bool.or_self, recordFits, secondRead, valid,
    ne_eq, not_true_eq_false, Frame.totalLen, payloadLength]

theorem controlLenAt_none {self : Reader} {file : List UInt8} {flushed offset : Nat}
    (reads : self.Reads file flushed) (inFile : flushed ≤ file.length)
    (plain : ∀ frame next, recordAt crc file flushed offset = some (frame, next) →
      frame.isControl = false) :
    ∃ reader, self.controlLenAt crc offset = (none, reader) ∧
      reader.Reads file flushed := by
  unfold controlLenAt
  rw [reads.flushed_eq]
  by_cases headFits : offset + recordHeadSize > flushed
  · exact ⟨self, by rw [if_pos headFits], reads⟩
  rw [if_neg headFits]
  obtain ⟨head, first, readHead, firstRead, firstReads⟩ :=
    readAhead_spec reads (show offset + recordHeadSize ≤ file.length by omega)
  simp only [firstRead]
  by_cases notEnd : isTruncationMarker head = true
  · exact ⟨first, by rw [if_pos notEnd], firstReads⟩
  rw [if_neg notEnd]
  by_cases flags : (!isControlField (headRaw head) || hasUnknownFlags (headRaw head)) = true
  · exact ⟨first, by rw [if_pos flags], firstReads⟩
  rw [if_neg flags, firstReads.flushed_eq]
  by_cases recordFits :
      offset + (recordHeadSize + payloadLenField (headRaw head)) > flushed
  · exact ⟨first, by rw [if_pos recordFits], firstReads⟩
  rw [if_neg recordFits]
  obtain ⟨payload, second, readPayload, secondRead, secondReads⟩ :=
    readAhead_spec firstReads
      (show offset + recordHeadSize + payloadLenField (headRaw head) ≤ file.length by omega)
  simp only [secondRead]
  refine ⟨second, ?_, secondReads⟩
  rw [if_pos]
  -- A valid checksum here would make the bytes a well-formed control record.
  intro valid
  simp only [Bool.or_eq_true, Bool.not_eq_eq_eq_not, Bool.not_true, not_or,
    Bool.not_eq_false, Bool.not_eq_true] at flags notEnd
  have control := plain ⟨isControlField (headRaw head), payload⟩ _
    (recordAt_eq_some_iff.mpr ⟨head, readHead, notEnd, flags.2, rfl, readPayload,
      valid, rfl, by omega⟩)
  simp [flags.1] at control

theorem readRecord_data {self : Reader} {file : List UInt8}
    {flushed offset next headerSize : Nat} {frame : Frame}
    (reads : self.Reads file flushed)
    (here : recordAt crc file flushed offset = some (frame, next))
    (data : frame.isControl = false) (headerFits : headerSize ≤ frame.payload.length) :
    ∃ reader, self.readRecord crc headerSize offset =
        (.ok ⟨frame.payload.take headerSize, frame.payload.drop headerSize, offset,
          frame.totalLen⟩, reader) ∧
      reader.Reads file flushed := by
  obtain ⟨head, readHead, notEnd, known, isControl, readPayload, valid, rfl, fits⟩ :=
    recordAt_eq_some_iff.mp here
  have payloadLength := length_of_readExact readPayload
  obtain ⟨first, firstRead, firstReads⟩ := readAhead_eq reads readHead
  obtain ⟨second, secondRead, secondReads⟩ := readAhead_eq firstReads readPayload
  refine ⟨second, ?_, secondReads⟩
  have headFits : ¬ offset + recordHeadSize > self.flushedOffset := by
    rw [reads.flushed_eq]
    omega
  have recordFits : ¬ offset + recordHeadSize + payloadLenField (headRaw head) >
      first.flushedOffset := by
    rw [firstReads.flushed_eq]
    omega
  have checked : (calculateCrc32c crc (head.take lenSize) (frame.payload.take headerSize)
      (frame.payload.drop headerSize)).toNat = headCrc head := by
    rw [calculateCrc32c_split, take_lenSize_eq readHead, valid]
  rw [data] at isControl
  have noPanic : ¬ payloadLenField (headRaw head) < headerSize := by omega
  simp only [readRecord, readRecordSequential, headFits, if_false, firstRead, notEnd,
    Bool.false_eq_true, known, recordFits, secondRead, ← isControl, noPanic, checked,
    ne_eq, not_true_eq_false, Frame.totalLen, payloadLength]

variable (crc) in
theorem readRecord_quiet {self : Reader} {file : List UInt8}
    {flushed offset : Nat} (headerSize : Nat)
    (reads : self.Reads file flushed) (quiet : QuietAt file flushed offset) :
    ∃ reader,
      (self.readRecord crc headerSize offset =
          (.error (.error (.truncationMarker offset)), reader) ∨
        ∃ length, self.readRecord crc headerSize offset =
          (.error (.error (.outOfBounds offset length flushed)), reader)) ∧
      reader.Reads file flushed := by
  unfold readRecord
  rw [reads.flushed_eq]
  by_cases headFits : offset + recordHeadSize > flushed
  · exact ⟨self, .inr ⟨_, by rw [if_pos headFits]⟩, reads⟩
  rw [if_neg headFits]
  rcases quiet with short | ⟨head, readHead, ending⟩
  · omega
  obtain ⟨first, firstRead, firstReads⟩ := readAhead_eq reads readHead
  refine ⟨first, ?_, firstReads⟩
  simp only [readRecordSequential, firstRead]
  rcases ending with zero | ⟨known, long⟩
  · exact .inl (by rw [if_pos zero])
  · by_cases zero : isTruncationMarker head = true
    · exact .inl (by rw [if_pos zero])
    · refine .inr ⟨recordHeadSize + payloadLenField (headRaw head), ?_⟩
      rw [if_neg zero, firstReads.flushed_eq]
      simp only [known, Bool.false_eq_true, if_false, if_pos long]

end Reader

namespace Iter

open Reader

/-- Leading control records are skipped up to the first offset without one. -/
theorem skipControls_spec {file : List UInt8} {flushed : Nat}
    (inFile : flushed ≤ file.length) :
    ∀ (fuel : Nat) (controls : List (Nat × Frame)) (self : Iter) (stop : Nat),
      self.reader.Reads file flushed →
      Chain (recordAt crc file flushed) self.offset controls stop →
      (∀ entry ∈ controls, entry.2.isControl = true) →
      (∀ frame next, recordAt crc file flushed stop = some (frame, next) →
        frame.isControl = false) →
      controls.length < fuel →
      ∃ reader, skipControls crc fuel self = ⟨reader, stop⟩ ∧ reader.Reads file flushed := by
  intro fuel
  induction fuel with
  | zero => intro controls self stop _ _ _ _ enough; omega
  | succ fuel ih =>
      intro controls self stop reads chain allControl plain enough
      cases controls with
      | nil =>
          obtain rfl := chain_nil_iff.mp chain
          obtain ⟨reader, result, reads'⟩ := controlLenAt_none reads inFile plain
          exact ⟨reader, by simp only [skipControls, result], reads'⟩
      | cons entry controls =>
          obtain ⟨offset, frame⟩ := entry
          obtain ⟨rfl, next, here, rest⟩ := chain_cons_iff.mp chain
          obtain ⟨reader, result, reads'⟩ :=
            controlLenAt_control reads here (allControl (self.offset, frame) (by simp))
          simp only [skipControls, result]
          rw [← next_of_recordAt here]
          exact ih controls ⟨reader, next⟩ stop reads' rest
            (fun entry member => allControl entry (by simp [member])) plain
            (by simpa using enough)

/-- Leading control records of a reachable chain fit the fuel of `nextRecord`. -/
theorem controls_lt_fuel {file : List UInt8} {flushed start stop : Nat}
    {controls : List (Nat × Frame)}
    (chain : Chain (recordAt crc file flushed) start controls stop) :
    controls.length < flushed + 1 := by
  cases controls with
  | nil => simp
  | cons entry controls =>
      obtain ⟨offset, frame⟩ := entry
      obtain ⟨_, next, here, rest⟩ := chain_cons_iff.mp chain
      have advances : Advances (recordAt crc file flushed) flushed :=
        recordAt_advances file flushed
      have bounds := advances _ _ _ here
      have restLe := rest.le advances
      rcases rest.stop_le advances with rfl | stopLe
      · simp only [List.length_cons] at restLe ⊢
        omega
      · simp only [List.length_cons] at restLe ⊢
        omega

theorem nextRecord_data {self : Iter} {file : List UInt8}
    {flushed offset next headerSize : Nat} {controls : List (Nat × Frame)} {frame : Frame}
    (inFile : flushed ≤ file.length) (reads : self.reader.Reads file flushed)
    (chain : Chain (recordAt crc file flushed) self.offset controls offset)
    (allControl : ∀ entry ∈ controls, entry.2.isControl = true)
    (here : recordAt crc file flushed offset = some (frame, next))
    (data : frame.isControl = false) (headerFits : headerSize ≤ frame.payload.length) :
    ∃ reader, self.nextRecord crc headerSize =
        (.ok (some ⟨frame.payload.take headerSize, frame.payload.drop headerSize, offset,
          frame.totalLen⟩), ⟨reader, next⟩) ∧
      reader.Reads file flushed := by
  have plain : ∀ frame' next', recordAt crc file flushed offset = some (frame', next') →
      frame'.isControl = false := by
    intro frame' next' here'
    obtain ⟨rfl, rfl⟩ : frame' = frame ∧ next' = next := by simpa using here'.symm.trans here
    exact data
  obtain ⟨skipped, skip, skippedReads⟩ :=
    skipControls_spec inFile (flushed + 1) controls self offset reads chain allControl plain
      (controls_lt_fuel chain)
  obtain ⟨reader, result, reads'⟩ := readRecord_data skippedReads here data headerFits
  refine ⟨reader, ?_, reads'⟩
  simp only [nextRecord, reads.flushed_eq, skip, result, ← next_of_recordAt here]

theorem nextRecord_quiet {self : Iter} {file : List UInt8}
    {flushed offset : Nat} {controls : List (Nat × Frame)} (headerSize : Nat)
    (inFile : flushed ≤ file.length) (reads : self.reader.Reads file flushed)
    (chain : Chain (recordAt crc file flushed) self.offset controls offset)
    (allControl : ∀ entry ∈ controls, entry.2.isControl = true)
    (quiet : QuietAt file flushed offset) :
    (self.nextRecord crc headerSize).1 = .ok none := by
  have plain : ∀ frame next, recordAt crc file flushed offset = some (frame, next) →
      frame.isControl = false := by
    intro frame next here
    simp [quiet.recordAt_eq_none] at here
  obtain ⟨skipped, skip, skippedReads⟩ :=
    skipControls_spec inFile (flushed + 1) controls self offset reads chain allControl plain
      (controls_lt_fuel chain)
  obtain ⟨reader, result, _⟩ :=
    readRecord_quiet crc headerSize skippedReads quiet
  simp only [nextRecord, reads.flushed_eq, skip]
  rcases result with result | ⟨length, result⟩
  · simp only [result]
  · simp only [result]

end Iter

/-- The record a reader with the given header size returns for a data record. -/
def toRecord (headerSize : Nat) (entry : Nat × List UInt8) : Record :=
  ⟨entry.2.take headerSize, entry.2.drop headerSize, entry.1,
    recordHeadSize + entry.2.length⟩

/-- Entries are control records alone, or control records before a data record. -/
theorem controls_or_data (entries : List (Nat × Frame)) :
    (∀ entry ∈ entries, entry.2.isControl = true) ∨
      ∃ controls offset frame rest, entries = controls ++ (offset, frame) :: rest ∧
        (∀ entry ∈ controls, entry.2.isControl = true) ∧ frame.isControl = false := by
  induction entries with
  | nil => exact .inl (by simp)
  | cons entry entries ih =>
      obtain ⟨offset, frame⟩ := entry
      cases control : frame.isControl with
      | false => exact .inr ⟨[], offset, frame, entries, rfl, by simp, control⟩
      | true =>
          rcases ih with allControl | ⟨controls, offset', frame', rest, rfl, allControl, data⟩
          · exact .inl (by simpa [control] using allControl)
          · exact .inr ⟨(offset, frame) :: controls, offset', frame', rest, rfl,
              by simpa [control] using allControl, data⟩

theorem dataRecords_append (left right : List (Nat × Frame)) :
    dataRecords (left ++ right) = dataRecords left ++ dataRecords right :=
  List.filterMap_append

theorem dataRecords_controls {controls : List (Nat × Frame)}
    (allControl : ∀ entry ∈ controls, entry.2.isControl = true) :
    dataRecords controls = [] := by
  rw [dataRecords, List.filterMap_eq_nil_iff]
  intro entry member
  simp [allControl entry member]

/-- Draining an iterator yields the data records of the chain it stands on. -/
theorem Iter.drain_spec {file : List UInt8} {flushed headerSize stop : Nat}
    (inFile : flushed ≤ file.length) (quiet : QuietAt file flushed stop) :
    ∀ (fuel : Nat) (entries : List (Nat × Frame)) (self : Iter),
      self.reader.Reads file flushed →
      Chain (recordAt crc file flushed) self.offset entries stop →
      (∀ record ∈ dataRecords entries, headerSize ≤ record.2.length) →
      entries.length < fuel →
      self.drain crc headerSize fuel =
        .ok ((dataRecords entries).map (toRecord headerSize)) := by
  intro fuel
  induction fuel with
  | zero => intro entries self _ _ _ enough; omega
  | succ fuel ih =>
      intro entries self reads chain headersFit enough
      rcases controls_or_data entries with
        allControl | ⟨controls, offset, frame, rest, rfl, allControl, data⟩
      · have ended := nextRecord_quiet headerSize inFile reads chain allControl
          quiet
        rw [dataRecords_controls allControl, drain]
        cases result : self.nextRecord crc headerSize with
        | mk outcome after =>
            rw [result] at ended
            simp only at ended
            subst ended
            rfl
      · obtain ⟨middle, controlChain, dataChain⟩ := chain.split
        obtain ⟨rfl, next, here, restChain⟩ := chain_cons_iff.mp dataChain
        have dataSplit : dataRecords (controls ++ (offset, frame) :: rest) =
            (offset, frame.payload) :: dataRecords rest := by
          rw [dataRecords_append, dataRecords_controls allControl]
          simp [dataRecords, data]
        rw [dataSplit] at headersFit ⊢
        obtain ⟨reader, result, reads'⟩ := nextRecord_data inFile reads controlChain
          allControl here data (headersFit (offset, frame.payload) (by simp))
        have later := ih rest ⟨reader, next⟩ reads' restChain
          (fun record member => headersFit record (by simp [member]))
          (by simp at enough; omega)
        simp only [drain, result, later, List.map_cons, toRecord, Frame.totalLen]

theorem Reader.iterate_spec {self : Reader} {file : List UInt8}
    {flushed start stop : Nat} {entries : List (Nat × Frame)} (headerSize : Nat)
    (reads : self.Reads file flushed) (inFile : flushed ≤ file.length)
    (chain : Chain (recordAt crc file flushed) start entries stop)
    (quiet : QuietAt file flushed stop)
    (headersFit : ∀ record ∈ dataRecords entries, headerSize ≤ record.2.length) :
    self.iterate crc headerSize start =
      .ok ((dataRecords entries).map (toRecord headerSize)) := by
  unfold iterate
  rw [reads.flushed_eq]
  refine Iter.drain_spec inFile quiet (flushed + 1) entries ⟨self, start⟩ reads chain
    headersFit ?_
  exact Iter.controls_lt_fuel chain

theorem Reader.iterate_past_end {self : Reader} {headerSize start : Nat}
    (past : self.flushedOffset < start + recordHeadSize) :
    self.iterate crc headerSize start = .ok [] := by
  simp [iterate, Iter.drain, Iter.nextRecord, Iter.skipControls, Reader.controlLenAt,
    Reader.readRecord, past]

/-- The records recovery walked are read back by the iteration that stops at
the recovered offset. -/
theorem iterate_committed {self : Reader} {file : List UInt8}
    {size start committed : Nat} {entries : List (Nat × Frame)} (headerSize : Nat)
    (reads : self.Reads file committed)
    (chain : Chain (recordAt crc file size) start entries committed)
    (headersFit : ∀ record ∈ dataRecords entries, headerSize ≤ record.2.length) :
    self.iterate crc headerSize start =
      .ok ((dataRecords entries).map (toRecord headerSize)) := by
  have quiet : QuietAt file committed committed :=
    .inl (by simp [recordHeadSize, lenSize])
  rcases chain.stop_le (recordAt_inside file size) with nothing | inFile
  · obtain rfl : entries = [] := by
      have chainLe := chain.le (recordAt_inside file size)
      exact List.eq_nil_of_length_eq_zero (by omega)
    refine Reader.iterate_past_end ?_
    rw [reads.flushed_eq, nothing]
    simp [recordHeadSize, lenSize]
  · exact Reader.iterate_spec headerSize reads inFile
      (chain_congr chain (AgreeOn.refl _ _ _) (Nat.le_refl _)) quiet headersFit

/-- The offsets of the data records are recovered together with the records. -/
theorem scanOffsets_of_iterate {file : List UInt8} {flushed : Option Nat}
    {headerSize : Nat} {records : List (Nat × List UInt8)}
    (iterated : (Reader.openSegment file flushed).iterate crc 0 headerSize =
      .ok (records.map (toRecord 0)))
    (offsetsFit : ∀ record ∈ records, record.1 ≤ u32Max) :
    scanOffsets crc file flushed headerSize = .ok (records.map Prod.fst) := by
  rw [scanOffsets, iterated]
  simp only
  rw [if_pos]
  · simp [toRecord, Function.comp_def]
  · rw [List.all_map, List.all_eq_true]
    intro record member
    exact decide_eq_true (offsetsFit record member)

theorem dataRecords_offset_bounds {file : List UInt8} {size start stop : Nat}
    {entries : List (Nat × Frame)}
    (chain : Chain (recordAt crc file size) start entries stop) :
    ∀ record ∈ dataRecords entries, start ≤ record.1 ∧ record.1 < stop := by
  intro record member
  obtain ⟨entry, entryMember, kept⟩ := List.mem_filterMap.mp member
  have inside := chain.mem_bounds (recordAt_advances file size) entryMember
  split at kept
  · cases kept
  · obtain rfl : (entry.1, entry.2.payload) = record := by simpa using kept
    exact inside

theorem dataRecords_offset_lt {file : List UInt8} {size start stop : Nat}
    {entries : List (Nat × Frame)}
    (chain : Chain (recordAt crc file size) start entries stop) :
    ∀ record ∈ dataRecords entries, record.1 < stop :=
  fun record member => (dataRecords_offset_bounds chain record member).2

theorem dataRecords_offset_le {file : List UInt8} {size start stop limit : Nat}
    {entries : List (Nat × Frame)}
    (chain : Chain (recordAt crc file size) start entries stop) (stopLe : stop ≤ limit) :
    ∀ record ∈ dataRecords entries, record.1 ≤ limit :=
  fun record member => (dataRecords_offset_lt chain record member).le.trans stopLe

theorem scanOffsets_committed {file : List UInt8} {size start committed : Nat}
    {entries : List (Nat × Frame)}
    (longest : MarkedPrefix (recordAt crc file size) IsMarker start entries committed)
    (sizeFits : size ≤ u32Max) :
    scanOffsets crc file (some committed) start = .ok ((dataRecords entries).map Prod.fst) := by
  have iterated := iterate_committed 0 (Reader.reads_openSegment file (some committed))
    longest.chain fun _ _ => Nat.zero_le _
  refine scanOffsets_of_iterate iterated fun record member => ?_
  have inside := dataRecords_offset_lt longest.chain record member
  have bounds := longest.chain.stop_le (recordAt_advances file size)
  have chainLe := longest.chain.le (recordAt_advances file size)
  obtain ⟨entry, entryMember, -⟩ := List.mem_filterMap.mp member
  have nonempty := List.length_pos_of_mem entryMember
  omega

/-- A committed batch of one record of one byte, behind some zeros. -/
def shortRecordFile (offset : Nat) : List UInt8 :=
  List.replicate offset 0 ++ (recordBytes crc32 [] [7] ++ markerBytes crc32 1)

theorem markedPrefix_shortRecordFile (offset : Nat) :
    MarkedPrefix (recordAt crc32 (shortRecordFile offset) (offset + 26)) IsMarker offset
      [(offset, ⟨false, [7]⟩), (offset + 9, ⟨true, markerPayload 1⟩)] (offset + 26) := by
  have recordLength : (recordBytes crc32 [] [7]).length = 9 := by decide +kernel
  have markerLength : (markerBytes crc32 1).length = 17 := by decide +kernel
  have whole : readExact (shortRecordFile offset) offset
      ((recordBytes crc32 [] [7]).length + (markerBytes crc32 1).length) =
        some (recordBytes crc32 [] [7] ++ markerBytes crc32 1) := by
    rw [readExact_eq_some_iff, shortRecordFile, List.length_append, List.length_append,
      List.length_replicate]
    refine ⟨Nat.le_refl _, ?_⟩
    rw [List.drop_append_of_le_length (by rw [List.length_replicate]),
      List.drop_eq_nil_of_le (by rw [List.length_replicate]), List.nil_append,
      ← List.length_append, List.take_length]
  have record : recordAt crc32 (shortRecordFile offset) (offset + 26) offset =
      some (⟨false, [7]⟩, offset + 9) := by
    rw [recordAt_recordBytes (by decide) (by decide) (by omega) (readExact_left whole),
      recordLength]
    rfl
  have marker : recordAt crc32 (shortRecordFile offset) (offset + 26) (offset + 9) =
      some (⟨true, markerPayload 1⟩, offset + 26) := by
    have read := readExact_right whole
    rw [recordLength] at read
    rw [recordAt_markerBytes (by omega) read, markerLength]
  refine ⟨.cons record (.cons marker (.nil _)), .inr ?_, unmarked_of_decode_none ?_⟩
  · exact ⟨[(offset, ⟨false, [7]⟩)], _, rfl, isMarker_markerPayload 1⟩
  · cases behind : recordAt crc32 (shortRecordFile offset) (offset + 26) (offset + 26) with
    | none => rfl
    | some found =>
        have below := recordAt_advances _ _ _ _ _ behind
        omega

end Seglog

end Tephra
