import Tephra.RecordArray
import Tephra.SizedAppending

/-!
# Usable configurations

A configuration that is accepted may still lead the log astray: the records of a segment
begin at the configured header size, whatever the size of the header, and a record may be
longer than its length field can say.  The configuration serves a sequence of batches if
and only if the header fits in front of the records and every record fits its length field.
-/

namespace Tephra

namespace Log

open Fallible Positions Seglog SegmentSet SegmentSource RecordArray

namespace UsableConfigs

variable (crc : List UInt8 → UInt32)

/-- Batches, each with the time at which it is appended. -/
abbrev Batches := List (UInt64 × List (List UInt8))

def Batches.records (batches : Batches) : List (List UInt8) :=
  batches.flatMap Prod.snd

/-- Append batches one after another, while no system call fails. -/
def appendAll : Batches → Op LogState LogError Unit
  | [] => pure ()
  | (now, records) :: later => do
      let _ ← appendBatch crc (.quiet now) records
      appendAll later

/-- The log has the records of its batches, and will have them after a restart. -/
structure Usable (config : SegmentConfig) (log : LogState) (records : List (List UInt8)) :
    Prop where
  durable : log.set.activeWriter.writer.buf = [] ∧
    log.set.activeWriter.flushedOffset = log.set.activeWriter.writeOffset
  reopens : ∀ now, ∃ set, openSet crc config now log.dir = (.ok set, log.dir) ∧
    readLog crc ⟨log.dir, set⟩ = .ok (positioned firstPosition records)
  /-- The header of every file is intact and names the file. -/
  headers : ∀ entry ∈ log.dir, classify crc entry = .ok false
  /-- No length field collides with a flag. -/
  lengths : ∀ record ∈ records, isControlField (headRaw (recordBytes crc [] record)) = false ∧
    hasUnknownFlags (headRaw (recordBytes crc [] record)) = false
  /-- No record is written over the header of its segment. -/
  apart : ∀ segment ∈ segments log.set, ∀ offset ∈ segment.offsets, segmentHeaderSize ≤ offset

variable {crc} {config : SegmentConfig}

theorem accepted_of_ok {env : AppendEnv} {records : List (List UInt8)} {state after : LogState}
    {range : Nat × Nat} (configEq : state.set.config = config)
    (appended : appendBatch crc env records state = (.ok range, after)) :
    Accepted config records := by
  by_contra rejected
  obtain ⟨error, failed⟩ := appendBatch_rejected crc env state configEq rejected
  rw [failed] at appended
  cases appended

theorem appendAll_cons {now : UInt64} {records : List (List UInt8)} {later : Batches}
    {state after : LogState}
    (appended : appendAll crc ((now, records) :: later) state = (.ok (), after)) :
    ∃ range middle, appendBatch crc (.quiet now) records state = (.ok range, middle) ∧
      appendAll crc later middle = (.ok (), after) :=
  Op.bind_eq_ok appended

theorem accepted_of_appendAll {batches : Batches} {state after : LogState}
    (valid : config.validate = .ok ()) (configured : Configured config state.set)
    (appended : appendAll crc batches state = (.ok (), after)) :
    ∀ batch ∈ batches, Accepted config batch.2 := by
  induction batches generalizing state with
  | nil => simp
  | cons first later ih =>
      obtain ⟨range, middle, here, rest⟩ := appendAll_cons appended
      intro batch member
      rcases List.mem_cons.mp member with rfl | behind
      · exact accepted_of_ok configured.config_eq here
      · exact ih (Configured.append valid configured here) rest batch behind

theorem nextPosition_of_appendAll {batches : Batches} {state after : LogState}
    (appended : appendAll crc batches state = (.ok (), after)) :
    after.set.nextPosition = state.set.nextPosition + batches.records.length := by
  induction batches generalizing state with
  | nil =>
      cases appended
      rfl
  | cons first later ih =>
      obtain ⟨range, middle, here, rest⟩ := appendAll_cons appended
      obtain ⟨_, _, positionEq⟩ := appendBatch_ok here
      rw [ih rest, positionEq, Batches.records, Batches.records, List.flatMap_cons,
        List.length_append, Nat.add_assoc]

/-- The first record is at the configured header size. -/
structure Placed (config : SegmentConfig) (records : List (List UInt8)) (set : SegmentSet) :
    Prop where
  configured : Configured config set
  fresh : records = [] → set.activeWriter.writeOffset = config.headerSize
  first : records ≠ [] → ∃ segment ∈ segments set, config.headerSize ∈ segment.offsets

theorem writeRecords_offsets {env : AppendEnv} {records : List (List UInt8)}
    {state after : LogState} {range : Nat × Nat}
    (written : writeRecords crc env records state = (.ok range, after)) :
    after.set.sealed = state.set.sealed ∧
      after.set.activeOffsets = state.set.activeOffsets ++
        recordOffsets state.set.activeWriter.writeOffset records := by
  unfold writeRecords at written
  dsimp only at written
  split at written
  · next offsets middle result =>
      cases written
      unfold onWriter at result
      cases batch : Writer.writeBatch crc records (state.set.nextPosition + records.length - 1)
          (state.set.activeWriter.withOutcomes env.batchIo) with
      | mk outcome writer =>
          rw [batch] at result
          cases outcome with
          | error source => cases result
          | ok offsets' =>
              cases result
              obtain ⟨_, _, appended, batch⟩ := Op.bind_eq_ok batch
              obtain ⟨_, _, _, batch⟩ := Op.bind_eq_ok batch
              cases batch
              obtain ⟨rfl, -⟩ := Writer.appendRecords_ok appended
              exact ⟨rfl, rfl⟩
  · split at written
    · cases written
    · cases written

theorem Placed.append {env : AppendEnv} {earlier records : List (List UInt8)}
    {state after : LogState} {range : Nat × Nat} (placed : Placed config earlier state.set)
    (valid : config.validate = .ok ())
    (appended : appendBatch crc env records state = (.ok range, after)) :
    Placed config (earlier ++ records) after.set := by
  obtain ⟨nonempty, -, -⟩ := appendBatch_ok appended
  obtain ⟨record, records, rfl⟩ := List.exists_cons_of_ne_nil nonempty
  have configured := Configured.append valid placed.configured appended
  obtain ⟨_, middle, prepared, written⟩ := Op.bind_eq_ok appended
  obtain ⟨sealedEq, offsetsEq⟩ := writeRecords_offsets written
  have here : config.headerSize = middle.set.activeWriter.writeOffset →
      ∃ segment ∈ segments after.set, config.headerSize ∈ segment.offsets := by
    intro atStart
    refine ⟨after.set.active, List.mem_append_right _ (List.mem_singleton_self _), ?_⟩
    rw [SegmentSet.active, offsetsEq, recordOffsets, ← atStart]
    simp
  constructor
  case configured => exact configured
  case fresh => simp
  case first =>
    intro _
    rcases prepareBatch_cases crc env (record :: records) state with
      ⟨error, result, _⟩ | ⟨_, _, result⟩ | ⟨_, _, result⟩
    · rw [result] at prepared
      cases prepared
    · rw [result] at prepared
      cases prepared
      by_cases none : earlier = []
      · exact here (placed.fresh none).symm
      · obtain ⟨segment, member, start⟩ := placed.first none
        rcases List.mem_append.mp member with old | last
        · have old' : segment ∈ after.set.sealed := by
            rw [sealedEq]
            exact old
          exact ⟨segment, List.mem_append_left _ old', start⟩
        · obtain rfl : segment = state.set.active := List.mem_singleton.mp last
          refine ⟨after.set.active, List.mem_append_right _ (List.mem_singleton_self _), ?_⟩
          rw [SegmentSet.active, offsetsEq]
          exact List.mem_append_left _ start
    · rw [result] at prepared
      apply here
      have kept := @KeepsConfig.onWriter config _ env.sealIo _ Writer.sync_sameLimits state
        placed.configured
      obtain ⟨_, synced, syncedEq, installed⟩ := Op.bind_eq_ok prepared
      rw [syncedEq] at kept
      unfold installSegment at installed
      split at installed
      · cases installed
      next created =>
      cases installed
      rw [kept.config_eq] at created
      obtain ⟨file, rfl⟩ := createSegment_ok created
      rfl

theorem Placed.appendAll {batches : Batches} {earlier : List (List UInt8)}
    {state after : LogState} (placed : Placed config earlier state.set)
    (valid : config.validate = .ok ())
    (appended : appendAll crc batches state = (.ok (), after)) :
    Placed config (earlier ++ batches.records) after.set := by
  induction batches generalizing earlier state with
  | nil =>
      cases appended
      simpa [Batches.records] using placed
  | cons first later ih =>
      obtain ⟨range, middle, here, rest⟩ := appendAll_cons appended
      have whole := ih (placed.append valid here) rest
      rwa [List.append_assoc] at whole

theorem running_appendAll {batches : Batches} {earlier : List (List (List UInt8))}
    {state after : LogState} {sealed : List Shelf} {active : Shelf} {stop : Nat}
    (valid : config.validate = .ok ()) (headerFits : segmentHeaderSize ≤ config.headerSize)
    (running : RecordArray.Running crc config state.dir state.set earlier sealed active stop)
    (appended : appendAll crc batches state = (.ok (), after))
    (encodable : ∀ record ∈ batches.records, record.length ≤ maxRecordLen)
    (positions : after.set.nextPosition ≤ positionMax) :
    ∃ sealed' active' stop', RecordArray.Running crc config after.dir after.set
      (earlier ++ batches.map Prod.snd) sealed' active' stop' := by
  induction batches generalizing state earlier sealed active stop with
  | nil =>
      cases appended
      exact ⟨sealed, active, stop, by simpa using running⟩
  | cons first later ih =>
      obtain ⟨now, records⟩ := first
      obtain ⟨range, middle, here, rest⟩ := appendAll_cons appended
      rw [Batches.records, List.flatMap_cons] at encodable
      have accepted := accepted_of_ok running.live.config_eq here
      have middlePosition := (appendBatch_ok here).2.2
      have lastPosition := nextPosition_of_appendAll rest
      have fits : Fits state.set records :=
        ⟨fun record member => encodable record (List.mem_append_left _ member), by omega⟩
      obtain ⟨after', sealed', active', stop', result, running'⟩ :=
        running.append valid headerFits now accepted fits
      obtain rfl : after' = middle := (Prod.mk.inj (result.symm.trans here)).2
      obtain ⟨sealed'', active'', stop'', whole⟩ := ih running' rest
        fun record member => encodable record (List.mem_append_right _ member)
      refine ⟨sealed'', active'', stop'', ?_⟩
      simpa using whole

theorem usable_of_running {dir : Directory} {set : SegmentSet}
    {batches : List (List (List UInt8))} {sealed : List Shelf} {active : Shelf} {stop : Nat}
    (valid : config.validate = .ok ()) (headerFits : segmentHeaderSize ≤ config.headerSize)
    (running : RecordArray.Running crc config dir set batches sealed active stop)
    (encodable : ∀ record ∈ batches.flatten, record.length ≤ maxRecordLen) :
    Usable crc config ⟨dir, set⟩ batches.flatten := by
  have live := running.live
  constructor
  case durable =>
    exact ⟨by rw [live.writer_eq], live.flushedOffset_eq.trans live.writeOffset_eq.symm⟩
  case reopens =>
    intro now
    obtain ⟨reopened, opened, _, read⟩ := openSet_stored valid running.stored now
    refine ⟨reopened, opened, ?_⟩
    rw [read, ← running.batches_eq, flatten_storedBatches]
  case headers =>
    intro entry member
    rw [running.stored.dir_eq] at member
    obtain ⟨shelf, shelfMember, rfl⟩ := List.mem_map.mp member
    apply classify_eq_written
    rcases List.mem_append.mp shelfMember with old | last
    · exact (running.stored.sealed_ok shelf old).header
    · obtain rfl : shelf = active := List.mem_singleton.mp last
      exact running.stored.active_ok.header
  case lengths =>
    intro record member
    have short := encodable record member
    have word : ([] : List UInt8).length + record.length < 256 ^ lenSize := by
      simp only [maxRecordLen, lengthMask] at short
      simp only [List.length_nil, lenSize]
      omega
    rw [headRaw_recordBytes crc [] record word, List.length_nil, Nat.zero_add]
    exact ⟨isControlField_of_le short, hasUnknownFlags_of_le short⟩
  case apart =>
    intro segment member offset offsetMember
    obtain ⟨shelf, _, stop, tabled⟩ := exists_shelf_of_segment running.tabled member
    obtain ⟨entries, chain, offsetsEq, _⟩ := tabled.chain
    rw [← offsetsEq] at offsetMember
    obtain ⟨record, recordMember, rfl⟩ := List.mem_map.mp offsetMember
    exact headerFits.trans (dataRecords_offset_bounds chain record recordMember).1

/-- The header is in front of the first record of a usable log. -/
theorem Usable.headerFits {log : LogState} {records : List (List UInt8)}
    (usable : Usable crc config log records) (placed : Placed config records log.set)
    (nonempty : records ≠ []) : segmentHeaderSize ≤ config.headerSize := by
  obtain ⟨segment, member, start⟩ := placed.first nonempty
  exact usable.apart segment member config.headerSize start

theorem Usable.encodable {log : LogState} {records : List (List UInt8)}
    (usable : Usable crc config log records) {record : List UInt8} (member : record ∈ records)
    (word : record.length < 2 ^ 32) : record.length ≤ maxRecordLen := by
  obtain ⟨data, known⟩ := usable.lengths record member
  have word' : ([] : List UInt8).length + record.length < 256 ^ lenSize := by
    simp only [List.length_nil, lenSize]
    omega
  rw [headRaw_recordBytes crc [] record word', List.length_nil, Nat.zero_add] at data known
  exact le_of_flags_clear word data known

/-- A configuration that is accepted is usable, for a new log and any batches that are
appended to it, if and only if the header of a segment fits in front of its records and
every record fits its length field.  The positions are those of the position type. -/
theorem usable_iff {now : UInt64} {set : SegmentSet} {dir : Directory} {batches : Batches}
    {log : LogState} (created : openSet crc config now [] = (.ok set, dir))
    (appended : appendAll crc batches ⟨dir, set⟩ = (.ok (), log)) (some : batches ≠ [])
    (positions : log.set.nextPosition ≤ positionMax) :
    Usable crc config log batches.records ↔
      segmentHeaderSize ≤ config.headerSize ∧
        ∀ record ∈ batches.records, record.length ≤ maxRecordLen := by
  obtain ⟨valid, configured⟩ := configured_of_openSet created
  have accepted := accepted_of_appendAll valid configured appended
  constructor
  · intro usable
    have fresh : Placed config [] set := by
      rw [openSet_empty_eq crc valid now] at created
      obtain rfl := Except.ok.inj (Prod.mk.inj created).1
      exact ⟨configured, fun _ => rfl, fun absurd => (absurd rfl).elim⟩
    have placed := fresh.appendAll valid appended
    rw [List.nil_append] at placed
    obtain ⟨first, later, rfl⟩ := List.exists_cons_of_ne_nil some
    have nonempty : Batches.records (first :: later) ≠ [] := by
      rw [Batches.records, List.flatMap_cons]
      exact List.append_ne_nil_of_left_ne_nil (accepted first (by simp)).nonempty _
    refine ⟨usable.headerFits placed nonempty, ?_⟩
    intro record member
    obtain ⟨batch, batchMember, inBatch⟩ := List.mem_flatMap.mp member
    have short := (accepted batch batchMember).short_records record inBatch
    obtain ⟨roomy, sizeFits, maxEq⟩ := SegmentConfig.validate_ok valid
    apply usable.encodable member
    have limit : config.maxRecordLen ≤ config.segmentSize := by
      rw [← maxEq]
      exact (Nat.min_le_right _ _).trans ((Nat.sub_le _ _).trans (Nat.sub_le _ _))
    simp only [u32Max] at sizeFits
    omega
  · rintro ⟨headerFits, encodable⟩
    obtain ⟨sealed, active, stop, running⟩ := running_appendAll valid headerFits
      (running_empty valid headerFits created) appended encodable positions
    have usable := usable_of_running valid headerFits running (by
      simpa [Batches.records, List.flatMap_def] using encodable)
    simpa [Batches.records, List.flatMap_def] using usable

/-- A log that was just created. -/
def freshLog (crc : List UInt8 → UInt32) (config : SegmentConfig) : LogState :=
  ⟨[(Shelf.fresh crc config 0 firstPosition).entry],
    ⟨config, [], firstPosition, [],
      (Writer.created (Shelf.fresh crc config 0 firstPosition).file config.segmentSize
        config.headerSize).setMaxRecord config.maxRecordLen, firstPosition⟩⟩

theorem exists_log_of_ok {result : Except LogError Unit × LogState} (ok : result.1 = .ok ()) :
    ∃ log, result = (.ok (), log) :=
  ⟨result.2, Prod.ext ok rfl⟩

/-- Two batches, the second of which rolls over. -/
theorem usable_iff_rolled :
    ∃ log, appendAll crc32 [(0, [[1, 2], [3]]), (0, [List.replicate 20 9])]
        (freshLog crc32 smallConfig) = (.ok (), log) ∧
      Usable crc32 smallConfig log [[1, 2], [3], List.replicate 20 9] := by
  have accepted : (appendAll crc32 [(0, [[1, 2], [3]]), (0, [List.replicate 20 9])]
      (freshLog crc32 smallConfig)).1 = .ok () := by
    decide +kernel
  obtain ⟨log, appended⟩ := exists_log_of_ok accepted
  have position : (freshLog crc32 smallConfig).set.nextPosition = firstPosition := rfl
  refine ⟨log, appended, ?_⟩
  refine (usable_iff (openSet_empty_eq crc32 (by decide) 0) appended (by simp) ?_).mpr
    ⟨by decide, by decide⟩
  rw [nextPosition_of_appendAll appended, position]
  decide

/-- A configuration that reserves one byte less than the header of a segment has. -/
def tightConfig : SegmentConfig :=
  ⟨124, 40, 63⟩

/-- It is accepted, but its first record overwrites the checksum of the header, and the log
does not open again. -/
theorem tight_header_is_overwritten :
    openSet crc32 tightConfig 0 [] =
        (.ok (freshLog crc32 tightConfig).set, (freshLog crc32 tightConfig).dir) ∧
      ∃ log, appendAll crc32 [(0, [[1, 2, 3, 4]])] (freshLog crc32 tightConfig) = (.ok (), log) ∧
        (openSet crc32 tightConfig 0 log.dir).1.toOption = none ∧
        ¬ Usable crc32 tightConfig log [[1, 2, 3, 4]] := by
  refine ⟨openSet_empty_eq crc32 (by decide) 0, ?_⟩
  have accepted : (appendAll crc32 [(0, [[1, 2, 3, 4]])] (freshLog crc32 tightConfig)).1 =
      .ok () := by
    decide +kernel
  have refused : (openSet crc32 tightConfig 0 (appendAll crc32 [(0, [[1, 2, 3, 4]])]
      (freshLog crc32 tightConfig)).2.dir).1.toOption = none := by
    decide +kernel
  obtain ⟨log, appended⟩ := exists_log_of_ok accepted
  rw [appended] at refused
  refine ⟨log, appended, refused, fun usable => ?_⟩
  obtain ⟨set, opened, _⟩ := usable.reopens 0
  rw [opened] at refused
  cases refused

theorem appendBatch_of_room {records : List (List UInt8)} {state : LogState} (now : UInt64)
    (configured : Configured config state.set) (accepted : Accepted config records)
    (room : batchSize records ≤ state.set.activeWriter.remainingBytes) :
    ∃ range after, appendBatch crc (.quiet now) records state = (.ok range, after) := by
  have accepted' : Accepted state.set.config records := configured.config_eq ▸ accepted
  have marker : 0 < batchSize records := by
    simp only [batchSize, recordHeadSize, lenSize]
    omega
  have prepared : prepareBatch crc (.quiet now) records state = (.ok (), state) := by
    rcases prepareBatch_cases crc (.quiet now) records state with
      ⟨error, _, rejected⟩ | ⟨_, _, result⟩ | ⟨_, full, _⟩
    · exact absurd accepted' rejected
    · exact result
    · omega
  rw [Writer.remainingBytes] at room
  obtain ⟨offsets, writer, written, _⟩ := Writer.writeBatch_succeeds crc
    (state.set.nextPosition + records.length - 1)
    (Writer.healthy_withOutcomes_nil state.set.activeWriter)
    (fun record member => configured.maxRecord_eq ▸ accepted.short_records record member)
    (show state.set.activeWriter.writeOffset + batchSize records ≤
      state.set.activeWriter.size by omega)
  rw [appendBatch, Op.bind_apply_ok prepared]
  unfold writeRecords onWriter
  simp only [AppendEnv.quiet, written]
  exact ⟨_, _, rfl⟩

/-- A configuration whose records may be longer than a length field can say. -/
def wideConfig : SegmentConfig :=
  ⟨2 ^ 30 + 100, 2 ^ 30 + 8, 64⟩

/-- It is accepted, and so are records whose length field is the control flag. -/
theorem wide_record_collides {record : List UInt8} (long : record.length = 2 ^ 30) :
    ∃ log, appendAll crc [(0, [record])] (freshLog crc wideConfig) = (.ok (), log) ∧
      ¬ Usable crc wideConfig log [record] := by
  have valid : wideConfig.validate = .ok () := by decide
  obtain ⟨_, configured⟩ := configured_of_openSet (openSet_empty_eq crc valid 0)
  have size : batchSize [record] = 2 ^ 30 + 25 := by
    simp only [batchSize, List.map_cons, List.map_nil, List.sum_cons, List.sum_nil, long]
    decide
  have accepted : Accepted wideConfig [record] := by
    constructor
    case nonempty => simp
    case nonempty_records =>
      simp only [List.mem_singleton, forall_eq, long]
      decide
    case short_records =>
      simp only [List.mem_singleton, forall_eq, long]
      decide
    case fits =>
      rw [size]
      decide
  have remaining : (freshLog crc wideConfig).set.activeWriter.remainingBytes = 2 ^ 30 + 36 := rfl
  obtain ⟨range, log, appended⟩ := @appendBatch_of_room crc wideConfig _ (freshLog crc wideConfig)
    0 configured accepted (by rw [size, remaining]; omega)
  refine ⟨log, Op.bind_apply_ok appended, fun usable => ?_⟩
  have bounded := usable.encodable (List.mem_singleton_self record) (by rw [long]; decide)
  rw [long] at bounded
  exact absurd bounded (by decide)

end UsableConfigs

end Log

end Tephra
