import Tephra.FailingCalls
import Tephra.OpenedLogs
import Tephra.RolloverHistory

/-!
# Batches within the limits

A batch is refused for its size by the log, or by the writer of a segment.  Neither
happens to a batch whose records and whose total are within the limits of the
configuration: whatever system calls fail, before this batch or during it, the writer
keeps the limits it was given, and a rollover gives it the room of a whole segment.
-/

namespace Tephra

namespace Seglog

open Fallible

namespace BufWriter

theorem ioOnly_seek (offset : Nat) : IoOnly (seek offset) :=
  IoOnly.bind ioOnly_flushBuf fun _ => ioOnly_modify _

end BufWriter

namespace Writer

variable {crc : List UInt8 → UInt32}

theorem appendRecords_io_of_fits {records : List (List UInt8)} :
    ∀ {self after : Writer} {error : WriteError},
      (∀ record ∈ records, recordHeadSize + record.length ≤ self.maxRecord) →
      self.writeOffset + (records.map fun record => recordHeadSize + record.length).sum ≤
        self.size →
      appendRecords crc records self = (.error error, after) → error = .io := by
  induction records with
  | nil =>
      intro self after error _ _ failed
      cases failed
  | cons record records ih =>
      intro self after error short fits failed
      rw [List.map_cons, List.sum_cons] at fits
      rcases Op.bind_eq_error failed with first | ⟨placed, middle, first, failed⟩
      · exact append_io_of_fits (by simpa using short record (by simp))
          (by simp only [List.length_nil]; omega) first
      obtain ⟨_, middleEq⟩ := append_ok first
      rcases Op.bind_eq_error failed with rest | ⟨_, _, _, failed⟩
      · apply ih _ _ rest
        · intro later member
          rw [middleEq]
          exact short later (List.mem_cons_of_mem _ member)
        · rw [middleEq]
          simp only [length_recordBytes, List.length_nil]
          omega
      · cases failed

theorem writeBatch_io_of_fits {self after : Writer} {records : List (List UInt8)}
    {position : Nat} {error : WriteError}
    (short : ∀ record ∈ records, recordHeadSize + record.length ≤ self.maxRecord)
    (fits : self.writeOffset + batchSize records ≤ self.size)
    (failed : writeBatch crc records position self = (.error error, after)) : error = .io := by
  have lengthEq := length_recordsBytes crc records
  rw [batchSize] at fits
  rcases Op.bind_eq_error failed with appended | ⟨offsets, middle, appended, failed⟩
  · exact appendRecords_io_of_fits short (by omega) appended
  obtain ⟨_, middleEq⟩ := appendRecords_ok appended
  rcases Op.bind_eq_error failed with committed | ⟨_, _, _, failed⟩
  · rcases Op.bind_eq_error committed with marker | ⟨_, marked, _, synced⟩
    · apply writeCommitMarker_io_of_fits _ marker
      rw [middleEq]
      dsimp only
      omega
    · rw [Op.modify_bind_apply] at synced
      exact ioOnly_sync _ _ _ synced
  · cases failed

theorem ioOnly_rewindTo (offset : Nat) : IoOnly (rewindTo offset) := by
  intro self
  unfold rewindTo
  rw [Op.get_bind_apply]
  split
  · exact ioOnly_pure () self
  · exact IoOnly.bind (ioOnly_onFile (BufWriter.ioOnly_seek offset))
      (fun _ => ioOnly_modify _) self

/-- The limits of a writer stay. -/
def SameLimits (before after : Writer) : Prop :=
  after.size = before.size ∧ after.maxRecord = before.maxRecord

theorem SameLimits.refl (self : Writer) : SameLimits self self :=
  ⟨rfl, rfl⟩

theorem SameLimits.trans (first second third : Writer) (left : SameLimits first second)
    (right : SameLimits second third) : SameLimits first third :=
  ⟨right.1.trans left.1, right.2.trans left.2⟩

theorem Extends.sameLimits {before after : Writer} (extended : Extends before after) :
    SameLimits before after :=
  ⟨extended.size_eq, extended.maxRecord_eq⟩

theorem Writes.sameLimits {α : Type} {op : Op Writer WriteError α} {bytes : List UInt8}
    {limit : Nat} (writes : Writes op bytes limit) : Op.Moves SameLimits op :=
  fun self => (writes self _ _ _ (BufWriter.streams_self self.writer)).1.sameLimits

theorem onFile_sameLimits {α : Type} (op : Op BufWriter WriteError α) :
    Op.Moves SameLimits (onFile op) :=
  fun _ => ⟨rfl, rfl⟩

theorem sync_sameLimits : Op.Moves SameLimits sync := by
  intro self
  unfold sync
  rw [Op.get_bind_apply]
  split
  · refine Op.moves_bind SameLimits.trans (onFile_sameLimits _) (fun _ => ?_) self
    refine Op.moves_bind SameLimits.trans (onFile_sameLimits _) fun _ => ?_
    exact fun _ => ⟨rfl, rfl⟩
  · exact SameLimits.refl self

theorem writeBatch_sameLimits (records : List (List UInt8)) (position : Nat) :
    Op.Moves SameLimits (writeBatch crc records position) := by
  refine Op.moves_bind SameLimits.trans (appendRecords_writes crc records).sameLimits fun _ => ?_
  refine Op.moves_bind SameLimits.trans ?_ fun _ => Op.moves_pure SameLimits.refl _
  refine Op.moves_bind SameLimits.trans (writeCommitMarker_writes crc position).sameLimits
    fun _ => ?_
  refine Op.moves_bind SameLimits.trans ?_ fun _ => sync_sameLimits
  exact fun _ => ⟨rfl, rfl⟩

theorem rewindTo_sameLimits (offset : Nat) : Op.Moves SameLimits (rewindTo offset) := by
  intro self
  unfold rewindTo
  rw [Op.get_bind_apply]
  split
  · exact SameLimits.refl self
  · refine Op.moves_bind SameLimits.trans (onFile_sameLimits _) (fun _ => ?_) self
    exact fun _ => ⟨rfl, rfl⟩

end Writer

end Seglog

namespace Log

open Fallible Seglog SegmentSet

variable {crc : List UInt8 → UInt32}

/-- The writer of the active segment has the limits of the configuration. -/
structure Configured (config : SegmentConfig) (set : SegmentSet) : Prop where
  config_eq : set.config = config
  size_eq : set.activeWriter.size = config.segmentSize
  maxRecord_eq : set.activeWriter.maxRecord = config.maxRecordLen

/-- An operation that keeps the configuration. -/
def KeepsConfig (config : SegmentConfig) (before after : LogState) : Prop :=
  Configured config before.set → Configured config after.set

/-- The error says that something is too large, for the log or for the writer of a
segment. -/
def LogError.isTooLarge : LogError → Bool
  | .recordTooLarge _ _ => true
  | .batchTooLarge _ _ => true
  | .write _ (.recordTooLarge _ _) => true
  | .write _ (.segmentFull _ _) => true
  | _ => false

/-- Creating a segment is not refused for a size. -/
theorem createSegment_failsOnly (config : SegmentConfig) (base : Nat) (now : UInt64) :
    Op.FailsOnly (fun error => error.isTooLarge = false)
      (createSegment crc config base now) := by
  have called : ∀ error : LogError, error.isTooLarge = false →
      Op.FailsOnly (fun error => error.isTooLarge = false) (DirState.call error) := by
    intro error fine state error' after failed
    unfold DirState.call at failed
    split at failed
    · cases failed
    · cases failed
      exact fine
  have created : Op.FailsOnly (fun error => error.isTooLarge = false)
      (DirState.createNew base) := by
    intro state error after failed
    unfold DirState.createNew at failed
    split at failed
    · cases failed
      rfl
    · split at failed
      · cases failed
        rfl
      · cases failed
  have allocated : Op.FailsOnly (fun error => error.isTooLarge = false)
      (DirState.fallocate base config.segmentSize) := by
    intro state error after failed
    unfold DirState.fallocate at failed
    split at failed
    · cases failed
    · cases failed
      rfl
  have headed : ∀ bytes, Op.FailsOnly (fun error => error.isTooLarge = false)
      (DirState.writeHeader base bytes) := by
    intro bytes state error after failed
    unfold DirState.writeHeader at failed
    split at failed
    · cases failed
    · cases failed
      rfl
  unfold createSegment
  split
  · intro state error after failed
    cases failed
    rfl
  · refine Op.failsOnly_bind created fun _ => ?_
    refine Op.failsOnly_bind allocated fun _ => ?_
    refine Op.failsOnly_bind (called _ rfl) fun _ => ?_
    refine Op.failsOnly_bind (called _ rfl) fun _ => ?_
    refine Op.failsOnly_bind (headed _) fun _ => ?_
    refine Op.failsOnly_bind (called _ rfl) fun _ => ?_
    exact Op.failsOnly_bind Op.failsOnly_get fun _ => Op.failsOnly_pure _

namespace KeepsConfig

variable {config : SegmentConfig}

theorem refl (state : LogState) : KeepsConfig config state state :=
  id

theorem trans (first second third : LogState) (left : KeepsConfig config first second)
    (right : KeepsConfig config second third) : KeepsConfig config first third :=
  right ∘ left

theorem onWriter {α : Type} (outcomes : List IoOutcome) {op : Op Writer WriteError α}
    (same : Op.Moves Writer.SameLimits op) :
    Op.Moves (KeepsConfig config) (SegmentSet.onWriter outcomes op) := by
  intro state configured
  obtain ⟨sizeEq, maxEq⟩ := same (state.set.activeWriter.withOutcomes outcomes)
  constructor
  case config_eq => exact configured.config_eq
  case size_eq => exact sizeEq.trans configured.size_eq
  case maxRecord_eq => exact maxEq.trans configured.maxRecord_eq

theorem installSegment (env : AppendEnv) (valid : config.validate = .ok ()) :
    Op.Moves (KeepsConfig config) (SegmentSet.installSegment crc env) := by
  obtain ⟨-, -, maxEq⟩ := SegmentConfig.validate_ok valid
  intro state configured
  unfold SegmentSet.installSegment
  split
  · exact ⟨configured.config_eq, configured.size_eq, configured.maxRecord_eq⟩
  · next created =>
      rw [configured.config_eq] at created
      obtain ⟨file, rfl⟩ := createSegment_ok created
      exact ⟨configured.config_eq, rfl, maxEq⟩

theorem rollover (env : AppendEnv) (valid : config.validate = .ok ()) :
    Op.Moves (KeepsConfig config) (SegmentSet.rollover crc env) :=
  Op.moves_bind trans (onWriter _ Writer.sync_sameLimits) fun _ => installSegment env valid

theorem prepareBatch (env : AppendEnv) (records : List (List UInt8))
    (valid : config.validate = .ok ()) :
    Op.Moves (KeepsConfig config) (SegmentSet.prepareBatch crc env records) := by
  intro state
  rcases prepareBatch_cases crc env records state with
    ⟨error, result, _⟩ | ⟨_, _, result⟩ | ⟨_, _, result⟩
  · rw [result]
    exact refl state
  · rw [result]
    exact refl state
  · rw [result]
    exact rollover env valid state

theorem writeRecords (env : AppendEnv) (records : List (List UInt8)) :
    Op.Moves (KeepsConfig config) (SegmentSet.writeRecords crc env records) := by
  intro state configured
  have written := onWriter env.batchIo
    (@Writer.writeBatch_sameLimits crc records (state.set.nextPosition + records.length - 1))
    state configured
  unfold SegmentSet.writeRecords
  dsimp only
  split
  · next result =>
      rw [result] at written
      exact ⟨written.config_eq, written.size_eq, written.maxRecord_eq⟩
  · next middle result =>
      rw [result] at written
      have rewound := onWriter env.rewindIo
        (Writer.rewindTo_sameLimits state.set.activeWriter.writeOffset) middle written
      split
      · next result =>
          rw [result] at rewound
          exact rewound
      · next result =>
          rw [result] at rewound
          exact rewound

/-- The limits of the configuration hold after every append, failed or not. -/
theorem appendBatch (env : AppendEnv) (records : List (List UInt8))
    (valid : config.validate = .ok ()) :
    Op.Moves (KeepsConfig config) (SegmentSet.appendBatch crc env records) :=
  Op.moves_bind trans (prepareBatch env records valid) fun _ => writeRecords env records

end KeepsConfig

theorem Configured.append {config : SegmentConfig} {env : AppendEnv}
    {records : List (List UInt8)} {state after : LogState} {range : Nat × Nat}
    (valid : config.validate = .ok ()) (configured : Configured config state.set)
    (appended : appendBatch crc env records state = (.ok range, after)) :
    Configured config after.set := by
  have kept := @KeepsConfig.appendBatch crc config env records valid state configured
  rwa [appended] at kept

/-- A log that is opened has the limits of its configuration. -/
theorem configured_of_openSet {config : SegmentConfig} {now : UInt64} {dir after : Directory}
    {set : SegmentSet} (opened : openSet crc config now dir = (.ok set, after)) :
    config.validate = .ok () ∧ Configured config set := by
  unfold openSet at opened
  split at opened
  · cases opened
  next valid =>
  refine ⟨valid, ?_⟩
  obtain ⟨roomy, -, maxEq⟩ := SegmentConfig.validate_ok valid
  split at opened
  · cases opened
  split at opened
  · cases opened
  split at opened
  · split at opened
    · cases opened
    next created =>
    obtain ⟨file, rfl⟩ := createSegment_ok created
    cases opened
    exact ⟨rfl, rfl, maxEq⟩
  split at opened
  · cases opened
  have active := (Prod.mk.inj opened).1
  unfold openActive at active
  split at active
  · cases active
  split at active
  · cases active
  next writer writerOpened =>
  rw [Writer.openSegment, if_neg (by omega)] at writerOpened
  cases writerOpened
  dsimp only at active
  split at active
  · cases active
  split at active
  · cases active
  cases active
  exact ⟨rfl, rfl, maxEq⟩

theorem onWriter_error {α : Type} {outcomes : List IoOutcome} {op : Op Writer WriteError α}
    {state after : LogState} {error : LogError}
    (failed : onWriter outcomes op state = (.error error, after)) :
    ∃ source writer, op (state.set.activeWriter.withOutcomes outcomes) =
        (.error source, writer) ∧ error = .write state.set.activeBase source := by
  unfold onWriter at failed
  cases result : op (state.set.activeWriter.withOutcomes outcomes) with
  | mk outcome writer =>
      rw [result] at failed
      cases outcome with
      | ok value => cases failed
      | error source =>
          cases failed
          exact ⟨source, writer, rfl, rfl⟩

theorem onWriter_failsOnly {α : Type} (outcomes : List IoOutcome) {op : Op Writer WriteError α}
    (ioOnly : IoOnly op) :
    Op.FailsOnly (fun error => error.isTooLarge = false) (onWriter outcomes op) := by
  intro state error after failed
  obtain ⟨source, writer, result, rfl⟩ := onWriter_error failed
  obtain rfl := ioOnly _ _ _ result
  rfl

theorem rollover_failsOnly (env : AppendEnv) :
    Op.FailsOnly (fun error => error.isTooLarge = false) (rollover crc env) := by
  refine Op.failsOnly_bind (onWriter_failsOnly _ Writer.ioOnly_sync) fun _ => ?_
  intro state error after failed
  unfold installSegment at failed
  split at failed
  · next created =>
      cases failed
      exact createSegment_failsOnly _ _ _ _ _ _ created
  · cases failed

/-- A record that is rejected is empty, or longer than the limit. -/
theorem isTooLarge_of_checkRecords {maxRecordLen : Nat} {records : List (List UInt8)}
    {error : LogError} (short : ∀ record ∈ records, recordHeadSize + record.length ≤ maxRecordLen)
    (checked : checkRecords maxRecordLen records = some error) : error.isTooLarge = false := by
  induction records with
  | nil => cases checked
  | cons record records ih =>
      have here := short record (by simp)
      rw [checkRecords] at checked
      split at checked
      · cases checked
        rfl
      · rw [if_neg (by omega)] at checked
        exact ih (fun later member => short later (List.mem_cons_of_mem _ member)) checked

/-- The batch is within the limits of the configuration. -/
structure WithinLimits (config : SegmentConfig) (records : List (List UInt8)) : Prop where
  short : ∀ record ∈ records, recordHeadSize + record.length ≤ config.maxRecordLen
  fits : batchSize records ≤ config.capacity

/-- A batch is prepared, or fails for another reason than its size. -/
theorem prepareBatch_failsOnly {config : SegmentConfig} {env : AppendEnv}
    {records : List (List UInt8)} {state after : LogState} {error : LogError}
    (configEq : state.set.config = config) (within : WithinLimits config records)
    (failed : prepareBatch crc env records state = (.error error, after)) :
    error.isTooLarge = false := by
  unfold prepareBatch at failed
  split at failed
  · cases failed
    rfl
  split at failed
  · next checked =>
      cases failed
      rw [configEq] at checked
      exact isTooLarge_of_checkRecords within.short checked
  · have fits := within.fits
    dsimp only at failed
    rw [configEq, if_neg (by omega)] at failed
    split at failed
    · exact rollover_failsOnly env _ _ _ failed
    · cases failed

/-- Behind the preparation there is room for the batch. -/
theorem prepareBatch_room {config : SegmentConfig} {env : AppendEnv}
    {records : List (List UInt8)} {state after : LogState} (valid : config.validate = .ok ())
    (configured : Configured config state.set) (within : WithinLimits config records)
    (prepared : prepareBatch crc env records state = (.ok (), after)) :
    Configured config after.set ∧
      after.set.activeWriter.writeOffset + batchSize records ≤ config.segmentSize := by
  have kept := @KeepsConfig.prepareBatch crc config env records valid state configured
  have fits := within.fits
  obtain ⟨roomy, -, -⟩ := SegmentConfig.validate_ok valid
  rw [prepared] at kept
  refine ⟨kept, ?_⟩
  have marker : 0 < batchSize records := by
    simp only [batchSize, recordHeadSize, lenSize]
    omega
  rcases prepareBatch_cases crc env records state with
    ⟨error, result, _⟩ | ⟨_, room, result⟩ | ⟨_, _, result⟩
  · rw [result] at prepared
    cases prepared
  · rw [result] at prepared
    cases prepared
    rw [Writer.remainingBytes, configured.size_eq] at room
    omega
  · rw [result] at prepared
    obtain ⟨_, middle, synced, installed⟩ := Op.bind_eq_ok prepared
    unfold installSegment at installed
    split at installed
    · cases installed
    next created =>
    cases installed
    have syncedConfig : middle.set.config = config := by
      have kept : KeepsConfig config state (onWriter env.sealIo Writer.sync state).2 :=
        KeepsConfig.onWriter env.sealIo Writer.sync_sameLimits state
      rw [synced] at kept
      exact (kept configured).config_eq
    rw [syncedConfig] at created
    obtain ⟨file, rfl⟩ := createSegment_ok created
    have startEq : ((Writer.created file config.segmentSize config.headerSize).setMaxRecord
        config.maxRecordLen).writeOffset = config.headerSize := rfl
    rw [SegmentConfig.capacity] at fits
    dsimp only
    omega

/-- Whatever fails, a batch within the limits is not refused for its size. -/
theorem appendBatch_error_of_withinLimits {config : SegmentConfig} {env : AppendEnv}
    {records : List (List UInt8)} {state after : LogState} {error : LogError}
    (valid : config.validate = .ok ()) (configured : Configured config state.set)
    (within : WithinLimits config records)
    (failed : appendBatch crc env records state = (.error error, after)) :
    error.isTooLarge = false := by
  rcases Op.bind_eq_error failed with failed | ⟨_, middle, prepared, failed⟩
  · exact prepareBatch_failsOnly configured.config_eq within failed
  obtain ⟨configured', room⟩ := prepareBatch_room valid configured within prepared
  unfold writeRecords at failed
  dsimp only at failed
  split at failed
  · cases failed
  next written =>
  split at failed
  · obtain ⟨outcomeEq, rfl⟩ := Prod.mk.inj failed
    obtain rfl := Except.error.inj outcomeEq
    obtain ⟨source, writer, result, rfl⟩ := onWriter_error written
    obtain rfl := Writer.writeBatch_io_of_fits
      (fun record member => configured'.maxRecord_eq ▸ within.short record member)
      (by rw [← configured'.size_eq] at room; exact room) result
    rfl
  · next rewound =>
      cases failed
      exact onWriter_failsOnly _ (Writer.ioOnly_rewindTo _) _ _ _ rewound

/-- A batch that is appended takes the next positions, one for each record. -/
theorem appendBatch_ok {env : AppendEnv} {records : List (List UInt8)} {state after : LogState}
    {range : Nat × Nat} (appended : appendBatch crc env records state = (.ok range, after)) :
    records ≠ [] ∧
      range = (state.set.nextPosition, state.set.nextPosition + records.length - 1) ∧
      after.set.nextPosition = state.set.nextPosition + records.length := by
  obtain ⟨_, middle, prepared, written⟩ := Op.bind_eq_ok appended
  have kept := @RolloverHistory.prepareBatch_keepsPosition crc env records state
  rw [prepared] at kept
  have nonempty : records ≠ [] := by
    rintro rfl
    cases prepared
  have positive := List.length_pos_of_ne_nil nonempty
  have positionEq : middle.set.nextPosition = state.set.nextPosition := kept
  unfold writeRecords at written
  dsimp only at written
  split at written
  · cases written
    rw [positionEq]
    refine ⟨nonempty, rfl, ?_⟩
    dsimp only
    omega
  · split at written
    · cases written
    · cases written

end Log

end Tephra
