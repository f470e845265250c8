import Tephra.BatchWriting

/-!
# A batch that fails

A batch is handed to the writer record by record and ends with its commit
marker; only then is it synced.  A failure before the sync leaves a strict part
of the bytes of the batch behind the write offset, and so does the rewind that
follows, whether it succeeds or not.
-/

namespace Tephra

namespace Seglog

open ByteImage Fallible

variable (crc : List UInt8 → UInt32)

namespace Writer

/-- The part of a batch that precedes its sync: the records and the marker are
handed to the writer. -/
def handOver (records : List (List UInt8)) (highestPosition : Nat) :
    Op Writer WriteError Unit := do
  let _ ← appendRecords crc records
  writeCommitMarker crc highestPosition

/-- No system call fails once the whole batch is handed to the writer. -/
def SyncSpared (records : List (List UInt8)) (highestPosition : Nat) (self : Writer) : Prop :=
  ∀ written handed, handOver crc records highestPosition self = (.ok written, handed) →
    handed.Healthy

/-- The bytes of a batch up to the payload of its commit marker. -/
def unmarkedSize (records : List (List UInt8)) : Nat :=
  (records.map fun record => recordHeadSize + record.length).sum + recordHeadSize

theorem handOver_writes (records : List (List UInt8)) (position : Nat) :
    Writes (handOver crc records position) (batchBytes crc records position)
      (unmarkedSize records) := by
  rw [unmarkedSize, ← length_recordsBytes crc records]
  exact writes_bind (appendRecords_writes crc records)
    (fun _ => writeCommitMarker_writes crc position) (Nat.le_refl _)

variable {crc}

theorem syncSpared_of_healthy {self : Writer} (records : List (List UInt8)) (position : Nat)
    (healthy : self.Healthy) : SyncSpared crc records position self := by
  intro written handed result
  obtain ⟨extended, _⟩ :=
    handOver_writes crc records position self _ _ _ (BufWriter.streams_self self.writer)
  rw [result] at extended
  exact extended.healthy healthy

theorem writeBatch_error {self handed : Writer} {records : List (List UInt8)}
    {position : Nat} {error : WriteError}
    (failed : handOver crc records position self = (.error error, handed)) :
    writeBatch crc records position self = (.error error, handed) := by
  rcases Op.bind_eq_error failed with appended | ⟨offsets, middle, appended, failed⟩
  · rw [writeBatch, Op.bind_apply_error appended]
  · have committed : commit crc position middle = (.error error, handed) := by
      rw [commit, Op.bind_apply_error failed]
    rw [writeBatch, Op.bind_apply_ok appended, Op.bind_apply_error committed]

theorem writeBatch_of_handOver {self handed : Writer} {records : List (List UInt8)}
    {position : Nat} {written : Unit}
    (result : handOver crc records position self = (.ok written, handed))
    (healthy : handed.Healthy) :
    ∃ offsets after, writeBatch crc records position self = (.ok offsets, after) := by
  obtain ⟨offsets, middle, appended, marker⟩ := Op.bind_eq_ok result
  obtain ⟨outcome, after, synced, _⟩ :=
    sync_succeeds { handed with lastPosition := some position } healthy
  have committed : commit crc position middle = (.ok outcome, after) := by
    rw [commit, Op.bind_apply_ok marker, Op.modify_bind_apply, synced]
  refine ⟨offsets, after, ?_⟩
  rw [writeBatch, Op.bind_apply_ok appended, Op.bind_apply_ok committed, Op.pure_apply]

theorem writeBatch_failed {self after : Writer} {records : List (List UInt8)}
    {position start : Nat} {error : WriteError} {image : List UInt8}
    (spared : SyncSpared crc records position self)
    (streams : self.writer.Streams image start [])
    (result : writeBatch crc records position self = (.error error, after)) :
    Extends self after ∧
      ∃ count ≤ unmarkedSize records,
        after.writer.Streams image start ((batchBytes crc records position).take count) := by
  obtain ⟨moved, count, sent, outcome⟩ :=
    handOver_writes crc records position self image start [] streams
  cases handed : handOver crc records position self with
  | mk handOutcome middle =>
      rw [handed] at moved sent outcome
      cases handOutcome with
      | ok written =>
          obtain ⟨offsets, final, succeeded⟩ :=
            writeBatch_of_handOver handed (spared written middle handed)
          rw [succeeded] at result
          cases result
      | error error' =>
          rw [writeBatch_error handed] at result
          obtain ⟨rfl, rfl⟩ := by simpa using result
          obtain ⟨⟨_, absurdOk⟩, _⟩ | ⟨_, fewer⟩ := outcome
          · cases absurdOk
          · exact ⟨moved, count, fewer, by simpa using sent⟩

/-- After a rewind a first part of the bytes sent is in the file.  A writer with an
empty buffer has really gone back. -/
theorem rewindTo_streams {self : Writer} {start : Nat} {image sent : List UInt8}
    (streams : self.writer.Streams image start sent) (startLe : start ≤ self.writeOffset) :
    (∃ count ≤ sent.length,
        (rewindTo start self).2.writer.file = writeAt image start (sent.take count)) ∧
      ((rewindTo start self).2.writer.buf = [] →
        (rewindTo start self).2.writeOffset = start) ∧
      (rewindTo start self).2.size = self.size ∧
      (rewindTo start self).2.startOffset = self.startOffset ∧
      (rewindTo start self).2.maxRecord = self.maxRecord ∧
      (rewindTo start self).2.flushedOffset = self.flushedOffset := by
  unfold rewindTo
  rw [Op.get_bind_apply]
  split
  · next stays =>
      obtain ⟨written, writtenLe, fileEq, _⟩ := streams
      exact ⟨⟨written, writtenLe, fileEq⟩, fun _ => Nat.le_antisymm stays startLe,
        rfl, rfl, rfl, rfl⟩
  · have flushed := BufWriter.flushBuf_streams streams
    cases step : BufWriter.flushBuf self.writer with
    | mk outcome writer =>
        rw [step] at flushed
        obtain ⟨⟨written, writtenLe, fileEq, _⟩, emptied⟩ := flushed
        cases outcome with
        | ok value =>
            have sought : onFile (BufWriter.seek start) self =
                (.ok (), { self with writer := { writer with cursor := start } }) := by
              rw [onFile, Op.onPart, BufWriter.seek, Op.bind_apply_ok step, Op.modify_apply]
            rw [Op.bind_apply_ok sought, Op.modify_apply]
            exact ⟨⟨written, writtenLe, fileEq⟩, fun _ => rfl, rfl, rfl, rfl, rfl⟩
        | error error =>
            have stuck : onFile (BufWriter.seek start) self =
                (.error error, { self with writer := writer }) := by
              rw [onFile, Op.onPart, BufWriter.seek, Op.bind_apply_error step]
            rw [Op.bind_apply_error stuck]
            refine ⟨⟨written, writtenLe, fileEq⟩, fun empty => ?_, rfl, rfl, rfl, rfl⟩
            cases emptied.mpr empty

end Writer

end Seglog

end Tephra
