import Tephra.SegmentIteration

/-!
# Scans that end in a fault

Where the chain of records of a file stops without a quiet end, the iteration over it
fails.  An iteration that succeeds has therefore read a chain up to a quiet end.
-/

namespace Tephra

namespace Seglog

open ByteImage FrameChain Reader

variable {crc : List UInt8 → UInt32}

/-- Where there is no record, a payload that is there does not match its checksum. -/
theorem checksum_of_refused {file head payload : List UInt8} {flushed offset : Nat}
    (refused : recordAt crc file flushed offset = none)
    (readHead : readExact file offset recordHeadSize = some head)
    (notEnd : isTruncationMarker head = false) (known : hasUnknownFlags (headRaw head) = false)
    (readPayload : readExact file (offset + recordHeadSize) (payloadLenField (headRaw head)) =
      some payload)
    (fits : offset + recordHeadSize + payloadLenField (headRaw head) ≤ flushed) :
    (calculateCrc32c crc (head.take lenSize) [] payload).toNat ≠ headCrc head := by
  rw [take_lenSize_eq readHead]
  intro valid
  have present : recordAt crc file flushed offset = some (⟨isControlField (headRaw head),
      payload⟩, offset + recordHeadSize + payloadLenField (headRaw head)) :=
    recordAt_eq_some_iff.mpr ⟨head, readHead, notEnd, known, rfl, readPayload, valid, rfl, fits⟩
  rw [refused] at present
  cases present

variable (crc) in
theorem Reader.readRecord_fault {self : Reader} {file : List UInt8} {flushed offset : Nat}
    (reads : self.Reads file flushed) (inFile : flushed ≤ file.length)
    (stuck : recordAt crc file flushed offset = none) (loud : ¬ QuietAt file flushed offset) :
    ∃ reader, self.readRecord crc 0 offset = (.error (.error (.corrupt offset)), reader) ∨
      self.readRecord crc 0 offset = (.error (.error (.crc32cMismatch offset)), reader) := by
  have headFits : offset + recordHeadSize ≤ flushed := by
    by_contra short
    exact loud (Or.inl (by omega))
  obtain ⟨head, first, readHead, firstRead, firstReads⟩ :=
    readAhead_spec reads (Nat.le_trans headFits inFile)
  have notEnd : isTruncationMarker head = false := by
    by_contra zero
    exact loud (Or.inr ⟨head, readHead, Or.inl (by simpa using zero)⟩)
  have inside : ¬ offset + recordHeadSize > self.flushedOffset := by
    rw [reads.flushed_eq]
    omega
  simp only [readRecord, if_neg inside, readRecordSequential, firstRead, notEnd,
    Bool.false_eq_true, if_false]
  cases known : hasUnknownFlags (headRaw head) with
  | true => exact ⟨first, Or.inl (by simp)⟩
  | false =>
      have payloadFits : offset + recordHeadSize + payloadLenField (headRaw head) ≤ flushed := by
        by_contra long
        exact loud (Or.inr ⟨head, readHead, Or.inr ⟨known, by omega⟩⟩)
      obtain ⟨payload, second, readPayload, secondRead, -⟩ :=
        readAhead_spec firstReads (Nat.le_trans payloadFits inFile)
      have recordFits : ¬ offset + recordHeadSize + payloadLenField (headRaw head) >
          first.flushedOffset := by
        rw [firstReads.flushed_eq]
        omega
      have invalid := checksum_of_refused stuck readHead notEnd known readPayload payloadFits
      refine ⟨second, Or.inr ?_⟩
      simp only [Bool.false_eq_true, if_false, if_neg recordFits, secondRead, ite_self,
        Nat.not_lt_zero, List.take_zero, List.drop_zero, if_pos invalid]

namespace Iter

theorem nextRecord_fault {self : Iter} {file : List UInt8} {flushed offset : Nat}
    {controls : List (Nat × Frame)} (inFile : flushed ≤ file.length)
    (reads : self.reader.Reads file flushed)
    (chain : Chain (recordAt crc file flushed) self.offset controls offset)
    (allControl : ∀ entry ∈ controls, entry.2.isControl = true)
    (stuck : recordAt crc file flushed offset = none) (loud : ¬ QuietAt file flushed offset) :
    ∃ fault after, self.nextRecord crc 0 = (.error fault, after) := by
  obtain ⟨skipped, skip, skippedReads⟩ :=
    skipControls_spec inFile (flushed + 1) controls self offset reads chain allControl
      (by simp [stuck]) (controls_lt_fuel chain)
  obtain ⟨reader, corrupt | mismatch⟩ := readRecord_fault crc skippedReads inFile stuck loud
  · simp only [nextRecord, reads.flushed_eq, skip, corrupt]
    exact ⟨_, _, rfl⟩
  · simp only [nextRecord, reads.flushed_eq, skip, mismatch]
    exact ⟨_, _, rfl⟩

theorem drain_fault {file : List UInt8} {flushed stop : Nat} (inFile : flushed ≤ file.length)
    (stuck : recordAt crc file flushed stop = none) (loud : ¬ QuietAt file flushed stop)
    (fuel : Nat) (entries : List (Nat × Frame)) (self : Iter)
    (reads : self.reader.Reads file flushed)
    (chain : Chain (recordAt crc file flushed) self.offset entries stop)
    (enough : entries.length < fuel) : ∃ fault, self.drain crc 0 fuel = .error fault := by
  induction fuel generalizing entries self with
  | zero => omega
  | succ fuel ih =>
      rcases controls_or_data entries with
        allControl | ⟨controls, offset, frame, rest, rfl, allControl, data⟩
      · obtain ⟨fault, after, failed⟩ :=
          nextRecord_fault inFile reads chain allControl stuck loud
        exact ⟨fault, by simp only [drain, failed]⟩
      · obtain ⟨middle, controlChain, dataChain⟩ := chain.split
        obtain ⟨rfl, next, here, restChain⟩ := chain_cons_iff.mp dataChain
        obtain ⟨reader, result, reads'⟩ := nextRecord_data inFile reads controlChain allControl
          here data (Nat.zero_le _)
        have shorter : rest.length < fuel := by
          simp only [List.length_append, List.length_cons] at enough
          omega
        obtain ⟨fault, failed⟩ := ih rest ⟨reader, next⟩ reads' restChain shorter
        exact ⟨fault, by simp only [drain, result, failed]⟩

end Iter

theorem Reader.chain_of_iterate {self : Reader} {file : List UInt8} {flushed start : Nat}
    {records : List Record} (reads : self.Reads file flushed) (inFile : flushed ≤ file.length)
    (iterated : self.iterate crc 0 start = .ok records) :
    ∃ entries stop, Chain (recordAt crc file flushed) start entries stop ∧
      QuietAt file flushed stop ∧ records = (dataRecords entries).map (toRecord 0) := by
  obtain ⟨entries, stop, chain, stuck⟩ := exists_stuck_chain (recordAt_advances file flushed) start
  by_cases quiet : QuietAt file flushed stop
  · have read := iterate_spec 0 reads inFile chain quiet fun _ _ => Nat.zero_le _
    rw [iterated] at read
    exact ⟨entries, stop, chain, quiet, Except.ok.inj read⟩
  · obtain ⟨fault, failed⟩ := Iter.drain_fault inFile stuck quiet (flushed + 1) entries
      ⟨self, start⟩ reads chain (Iter.controls_lt_fuel chain)
    rw [iterate, reads.flushed_eq, failed] at iterated
    cases iterated

end Seglog

end Tephra
