import Tephra.CutBatch
import Tephra.LogRollover

/-!
# A failed append on a stored log

A batch that fails before its sync leaves a part of its bytes behind the
committed end.  The log is stored as before, but the writer may be out of step
with the file: it is back at the committed end only when its buffer is empty and
its cursor stands at its write offset.
-/

namespace Tephra

namespace Log

open ByteImage FrameChain Fallible Seglog

variable {crc : List UInt8 → UInt32}

/-- The set of a stored log, whose writer stands at the committed end once it is clean. -/
structure Running (config : SegmentConfig) (set : SegmentSet) (active : Shelf) (stop : Nat) :
    Prop where
  config_eq : set.config = config
  activeBase_eq : set.activeBase = active.base
  nextPosition_eq : set.nextPosition = active.nextBase
  file_eq : set.activeWriter.writer.file = active.file
  outcomes_eq : set.activeWriter.writer.outcomes = []
  size_eq : set.activeWriter.size = config.segmentSize
  startOffset_eq : set.activeWriter.startOffset = config.headerSize
  maxRecord_eq : set.activeWriter.maxRecord =
    min config.maxRecordLen (recordHardLimit config.segmentSize config.headerSize)
  flushedOffset_eq : set.activeWriter.flushedOffset = stop
  rewound : set.activeWriter.writer.buf = [] → set.activeWriter.writeOffset = stop

theorem Live.running {config : SegmentConfig} {set : SegmentSet} {active : Shelf} {stop : Nat}
    (live : Live config set active stop) : Running config set active stop where
  config_eq := live.config_eq
  activeBase_eq := live.activeBase_eq
  nextPosition_eq := live.nextPosition_eq
  file_eq := by rw [live.writer_eq]
  outcomes_eq := by rw [live.writer_eq]
  size_eq := live.size_eq
  startOffset_eq := live.startOffset_eq
  maxRecord_eq := live.maxRecord_eq
  flushedOffset_eq := live.flushedOffset_eq
  rewound := fun _ => live.writeOffset_eq

theorem Running.live {config : SegmentConfig} {set : SegmentSet} {active : Shelf} {stop : Nat}
    (running : Running config set active stop) (clean : set.activeWriter.Clean) :
    Live config set active stop where
  config_eq := running.config_eq
  activeBase_eq := running.activeBase_eq
  nextPosition_eq := running.nextPosition_eq
  writer_eq := by
    have offsetEq := running.rewound clean.buf_nil
    have cursorEq := clean.cursor_eq
    have bufEq := clean.buf_nil
    have fileEq := running.file_eq
    have outcomesEq := running.outcomes_eq
    cases writerEq : set.activeWriter.writer with
    | mk file cursor buf outcomes =>
        simp only [writerEq] at cursorEq bufEq fileEq outcomesEq
        rw [cursorEq, bufEq, fileEq, outcomesEq, offsetEq]
  size_eq := running.size_eq
  startOffset_eq := running.startOffset_eq
  maxRecord_eq := running.maxRecord_eq
  writeOffset_eq := running.rewound clean.buf_nil
  flushedOffset_eq := running.flushedOffset_eq

/-- No part of a batch without the payload of its marker completes a committed run, also not
with records that the file has held before. -/
def PartsUnfinished (crc : List UInt8 → UInt32) (config : SegmentConfig)
    (stages : List (List UInt8)) (file : List UInt8) (stop : Nat) (records : List (List UInt8))
    (highestPosition : Nat) : Prop :=
  ∀ count ≤ Writer.unmarkedSize records,
    Unfinished crc config.segmentSize
      (writeAt file stop ((batchBytes crc records highestPosition).take count) :: stages) stop

/-- Parts of a batch complete nothing where only zeros stand behind the committed end. -/
theorem partsUnfinished_of_zeros {config : SegmentConfig} {stages : List (List UInt8)}
    {file : List UInt8} {stop position : Nat} {records : List (List UInt8)}
    (zeros : ∀ stage ∈ stages, ZeroFrom stage stop) (zero : ZeroFrom file stop)
    (inside : stop ≤ file.length) (framable : Framable records)
    (fits : stop + batchSize records ≤ config.segmentSize) :
    PartsUnfinished crc config stages file stop records position := by
  intro count countLe
  have total := length_batchBytes crc records position
  have bounded : Writer.unmarkedSize records ≤ batchSize records := by
    simp only [Writer.unmarkedSize, batchSize]
    omega
  have lengthEq : ((batchBytes crc records position).take count).length = count := by
    rw [List.length_take, total]
    omega
  have read := readExact_writeAt_self ((batchBytes crc records position).take count) inside
  rw [lengthEq] at read
  apply unfinished_of_zeros zeros
  refine unmarked_of_part framable countLe (by omega) read ?_
  exact zeroFrom_writeAt (zero.mono (Nat.le_add_right _ _)) inside (by omega)

namespace SegmentSet

/-- Rewinding after a failed batch: whether or not it succeeds, a part of the bytes sent
is in the file, and a writer with an empty buffer is back at the committed end. -/
theorem rewind_running {config : SegmentConfig} {sealed : List Shelf} {active : Shelf}
    {stop : Nat} {sent : List UInt8} (state : LogState) (outcomes : List IoOutcome)
    (file : List UInt8)
    (stored : Stored crc config state.dir sealed (active.withFile file) stop)
    (config_eq : state.set.config = config) (activeBase_eq : state.set.activeBase = active.base)
    (nextPosition_eq : state.set.nextPosition = active.nextBase)
    (size_eq : state.set.activeWriter.size = config.segmentSize)
    (startOffset_eq : state.set.activeWriter.startOffset = config.headerSize)
    (maxRecord_eq : state.set.activeWriter.maxRecord =
      min config.maxRecordLen (recordHardLimit config.segmentSize config.headerSize))
    (flushedOffset_eq : state.set.activeWriter.flushedOffset = stop)
    (startLe : stop ≤ state.set.activeWriter.writeOffset)
    (streams : state.set.activeWriter.writer.Streams active.file stop sent)
    (kept : ∀ part, Stored crc config
      (sealed.map Shelf.entry ++ [(active.base, writeAt active.file stop (sent.take part))])
      sealed (active.withFile (writeAt active.file stop (sent.take part))) stop) :
    ∃ after file' part, (onWriter outcomes (Writer.rewindTo stop) state).2 = after ∧
      file' = writeAt active.file stop (sent.take part) ∧
      Stored crc config after.dir sealed (active.withFile file') stop ∧
      Running config after.set (active.withFile file') stop := by
  have streams' : (state.set.activeWriter.withOutcomes outcomes).writer.Streams active.file
      stop sent := streams
  obtain ⟨⟨part, _, fileEq⟩, rewound, sizeEq, startEq, maxEq, flushedEq⟩ :=
    Writer.rewindTo_streams streams' startLe
  cases result : Writer.rewindTo stop (state.set.activeWriter.withOutcomes outcomes) with
  | mk outcome after =>
      rw [result] at fileEq rewound sizeEq startEq maxEq flushedEq
      have stepped := onWriter_eq stored activeBase_eq result
      refine ⟨_, writeAt active.file stop (sent.take part), part, rfl, rfl, ?_, ?_⟩
      · rw [stepped, fileEq]
        exact kept part
      · rw [stepped]
        exact ⟨config_eq, activeBase_eq, nextPosition_eq, fileEq, rfl, sizeEq.trans size_eq,
          startEq.trans startOffset_eq, maxEq.trans maxRecord_eq,
          flushedEq.trans flushedOffset_eq, rewound⟩

theorem writeRecords_error {state failedState final : LogState} {env : AppendEnv}
    {records : List (List UInt8)} {error : LogError}
    (failed : onWriter env.batchIo
      (Writer.writeBatch crc records (state.set.nextPosition + records.length - 1)) state =
        (.error error, failedState))
    (rewound : (onWriter env.rewindIo (Writer.rewindTo state.set.activeWriter.writeOffset)
      failedState).2 = final) :
    ∃ error', writeRecords crc env records state = (.error error', final) := by
  subst rewound
  unfold writeRecords
  simp only [failed]
  cases onWriter env.rewindIo (Writer.rewindTo state.set.activeWriter.writeOffset)
      failedState with
  | mk outcome final =>
      cases outcome with
      | ok value => exact ⟨error, rfl⟩
      | error rewindError => exact ⟨rewindError, rfl⟩

/-- A batch is written, or it fails before its sync and leaves the log as it was up to
the bytes behind the committed end. -/
theorem writeRecords_cases {config : SegmentConfig} {sealed : List Shelf} {active : Shelf}
    {stop : Nat} {state : LogState} (env : AppendEnv) {records : List (List UInt8)}
    (stored : Stored crc config state.dir sealed active stop)
    (live : Live config state.set active stop)
    (headerFits : segmentHeaderSize ≤ config.headerSize)
    (nonempty : records ≠ []) (framable : Framable records)
    (fits : stop + batchSize records ≤ config.segmentSize)
    (positionFits : active.nextBase + records.length ≤ 2 ^ 64)
    (spared : Writer.SyncSpared crc records (active.nextBase + records.length - 1)
      (state.set.activeWriter.withOutcomes env.batchIo))
    (clear : Unmarked
      (recordAt crc (active.withBatch crc stop records).file config.segmentSize) IsMarker
      (stop + batchSize records))
    {stages : List (List UInt8)}
    (unfinished : PartsUnfinished crc config stages active.file stop records
      (active.nextBase + records.length - 1)) :
    (∃ range after, writeRecords crc env records state = (.ok range, after) ∧
        Stored crc config after.dir sealed (active.withBatch crc stop records)
          (stop + batchSize records) ∧
        Live config after.set (active.withBatch crc stop records)
          (stop + batchSize records)) ∨
      ∃ error after file, writeRecords crc env records state = (.error error, after) ∧
        (∃ count ≤ Writer.unmarkedSize records, file = writeAt active.file stop
          ((batchBytes crc records (active.nextBase + records.length - 1)).take count)) ∧
        Stored crc config after.dir sealed (active.withFile file) stop ∧
        Running config after.set (active.withFile file) stop := by
  cases result : Writer.writeBatch crc records (active.nextBase + records.length - 1)
      (state.set.activeWriter.withOutcomes env.batchIo) with
  | mk outcome handed =>
  cases outcome with
  | ok offsets =>
      obtain ⟨after, written, stored', live'⟩ := writeRecords_ok stored live headerFits
        nonempty framable fits positionFits clear result
      exact .inl ⟨_, after, written, stored', live'⟩
  | error error =>
  have streams : (state.set.activeWriter.withOutcomes env.batchIo).writer.Streams active.file
      stop [] := by
    have start := BufWriter.streams_start (clean_of_live live env.batchIo).buf_nil
    simpa only [Writer.withOutcomes, live.writer_eq] using start
  obtain ⟨extended, count, countLe, sent⟩ := Writer.writeBatch_failed spared streams result
  -- Whatever part of the batch reaches the file, the log stays stored.
  have kept : ∀ part, Stored crc config
      (sealed.map Shelf.entry ++ [(active.base, writeAt active.file stop
        (((batchBytes crc records (active.nextBase + records.length - 1)).take count).take
          part))]) sealed
      (active.withFile (writeAt active.file stop
        (((batchBytes crc records (active.nextBase + records.length - 1)).take count).take
          part))) stop := by
    intro part
    refine stored.replaceTail headerFits
      (agreeOn_writeAt_before (Nat.le_refl _) stored.active_ok.inside 0).symm ?_
    rw [List.take_take]
    exact (unfinished _ (by omega)).unmarked (detects_of_mem List.mem_cons_self)
  have failed := onWriter_eq stored live.activeBase_eq result
  obtain ⟨written, _, fileEq, _⟩ := id sent
  have offsetLe := extended.writeOffset_le
  obtain ⟨after, file, part, rewound, partEq, stored', running⟩ := rewind_running
    ⟨sealed.map Shelf.entry ++ [(active.base, handed.writer.file)],
      { state.set with activeWriter := handed.withOutcomes [] }⟩ env.rewindIo
    handed.writer.file (by rw [fileEq]; exact kept written) live.config_eq live.activeBase_eq
    live.nextPosition_eq (extended.size_eq.trans live.size_eq)
    (extended.startOffset_eq.trans live.startOffset_eq)
    (extended.maxRecord_eq.trans live.maxRecord_eq)
    (extended.flushedOffset_eq.trans live.flushedOffset_eq)
    (by rw [← live.writeOffset_eq]; exact offsetLe) sent kept
  rw [← live.nextPosition_eq] at failed
  rw [← live.writeOffset_eq] at rewound
  obtain ⟨error', stepped⟩ := writeRecords_error failed rewound
  rw [List.take_take] at partEq
  exact .inr ⟨error', after, file, stepped, ⟨_, by omega, partEq⟩, stored', running⟩

end SegmentSet

end Log

end Tephra
