import Tephra.LogAppending
import Tephra.WovenRecords

/-!
# Rolling over

A rollover syncs the active segment and creates the next one.  When the sync
fails, or the new file cannot be created, the log is as before; when no call
fails, the active shelf is sealed and an empty shelf stands behind it.
-/

namespace Tephra

namespace Log

open ByteImage FrameChain Fallible Seglog

variable {crc : List UInt8 → UInt32}

theorem createSegment_ok {config : SegmentConfig} {base : Nat} {now : UInt64}
    {before after : DirState} {writer : Writer}
    (created : createSegment crc config base now before = (.ok writer, after)) :
    ∃ file, writer =
      (Writer.created file config.segmentSize config.headerSize).setMaxRecord
        config.maxRecordLen := by
  unfold createSegment at created
  split at created
  · simp [Op.fail_apply] at created
  obtain ⟨_, _, _, created⟩ := Op.bind_eq_ok created
  obtain ⟨_, _, _, created⟩ := Op.bind_eq_ok created
  obtain ⟨_, _, _, created⟩ := Op.bind_eq_ok created
  obtain ⟨_, _, _, created⟩ := Op.bind_eq_ok created
  obtain ⟨_, _, _, created⟩ := Op.bind_eq_ok created
  obtain ⟨_, _, _, created⟩ := Op.bind_eq_ok created
  rw [Op.get_bind_apply, Op.pure_apply] at created
  exact ⟨_, (Except.ok.inj (Prod.mk.inj created).1).symm⟩

namespace SegmentSet

/-- Syncing the writer of a live set leaves the log as it is, even when it fails. -/
theorem sync_live {config : SegmentConfig} {set : SegmentSet} {active : Shelf} {stop : Nat}
    (live : Live config set active stop) (outcomes : List IoOutcome) :
    (Writer.sync (set.activeWriter.withOutcomes outcomes)).2.writer.file = active.file ∧
      Live config
        { set with activeWriter :=
            (Writer.sync (set.activeWriter.withOutcomes outcomes)).2.withOutcomes [] }
        active stop := by
  obtain ⟨outcomes', dirty, flushed, afterEq, flushedEq⟩ :=
    Writer.sync_of_empty (clean_of_live live outcomes).buf_nil
  rw [afterEq]
  refine ⟨by simp [Writer.withOutcomes, live.writer_eq], live.config_eq, live.activeBase_eq,
    live.nextPosition_eq, by simp [Writer.withOutcomes, live.writer_eq], live.size_eq,
    live.startOffset_eq, live.maxRecord_eq, live.writeOffset_eq, ?_⟩
  rcases flushedEq with rfl | rfl
  · exact live.flushedOffset_eq
  · exact live.writeOffset_eq

/-- No call of a list fails. -/
def Faultless (outcomes : List IoOutcome) : Prop :=
  ∀ outcome ∈ outcomes, outcome = .ok

theorem faultless_nil : Faultless [] :=
  fun _ member => absurd member List.not_mem_nil

theorem Faultless.headD {outcomes : List IoOutcome} (faultless : Faultless outcomes) :
    outcomes.headD .ok = .ok := by
  cases outcomes with
  | nil => rfl
  | cons outcome outcomes => exact faultless outcome (by simp)

theorem Faultless.tail {outcomes : List IoOutcome} (faultless : Faultless outcomes) :
    Faultless outcomes.tail :=
  fun outcome member => faultless outcome (List.mem_of_mem_tail member)

variable (crc) in
/-- Without faults a segment is created behind the files of the directory. -/
theorem createSegment_eq {config : SegmentConfig} {base : Nat} (now : UInt64)
    {dir : Directory} {outcomes : List IoOutcome}
    (roomy : config.headerSize < config.segmentSize)
    (absent : ∀ entry ∈ dir, entry.1 ≠ base) (faultless : Faultless outcomes) :
    ∃ rest, createSegment crc config base now ⟨dir, outcomes⟩ =
      (.ok ((Writer.created (Shelf.fresh crc config now base).file config.segmentSize
        config.headerSize).setMaxRecord config.maxRecordLen),
        ⟨dir ++ [(Shelf.fresh crc config now base).entry], rest⟩) := by
  have notThere : dir.any (fun entry => entry.1 == base) = false := by
    rw [List.any_eq_false]
    intro entry member
    simpa using absent entry member
  have written : ∀ file other, Directory.write (dir ++ [(base, file)]) base other =
      dir ++ [(base, other)] := by
    intro file other
    rw [Directory.write, List.map_append]
    congr 1
    · conv_rhs => rw [← List.map_id dir]
      exact List.map_congr_left fun entry member => if_neg (absent entry member)
    · simp
  have lookedUp : ∀ file, Directory.read (dir ++ [(base, file)]) base = file := by
    intro file
    have missing : dir.lookup base = none := by
      rw [List.lookup_eq_none_iff]
      intro entry member
      simpa using (absent entry member).symm
    simp [Directory.read, List.lookup_append, missing]
  have called : ∀ (error : LogError) (dir : Directory) {outcomes : List IoOutcome},
      Faultless outcomes →
      DirState.call error ⟨dir, outcomes⟩ = (.ok (), ⟨dir, outcomes.tail⟩) := by
    intro error dir outcomes faultless
    rw [DirState.call, faultless.headD]
  have created : DirState.createNew base ⟨dir, outcomes⟩ =
      (.ok (), ⟨dir ++ [(base, [])], outcomes.tail⟩) := by
    rw [DirState.createNew, faultless.headD]
    simp only [notThere, Bool.false_eq_true, if_false]
  have allocated : DirState.fallocate base config.segmentSize
      ⟨dir ++ [(base, [])], outcomes.tail⟩ =
      (.ok (), ⟨dir ++ [(base, List.replicate config.segmentSize 0)],
        outcomes.tail.tail⟩) := by
    rw [DirState.fallocate, faultless.tail.headD]
    simp only [written]
  have headed : DirState.writeHeader base
      (SegmentHeader.toBytes crc ⟨SegmentHeader.currentVersion, now.toNat, base⟩)
      ⟨dir ++ [(base, List.replicate config.segmentSize 0)],
        outcomes.tail.tail.tail.tail⟩ =
      (.ok (), ⟨dir ++ [(Shelf.fresh crc config now base).entry],
        outcomes.tail.tail.tail.tail.tail⟩) := by
    rw [DirState.writeHeader, faultless.tail.tail.tail.tail.headD]
    simp only [written, lookedUp]
    rfl
  refine ⟨outcomes.tail.tail.tail.tail.tail.tail, ?_⟩
  unfold createSegment
  rw [if_neg (by omega), Op.bind_apply_ok created, Op.bind_apply_ok allocated,
    Op.bind_apply_ok (called _ _ faultless.tail.tail),
    Op.bind_apply_ok (called _ _ faultless.tail.tail.tail), Op.bind_apply_ok headed,
    Op.bind_apply_ok (called _ _ faultless.tail.tail.tail.tail.tail), Op.get_bind_apply,
    Op.pure_apply]
  have entryEq : (Shelf.fresh crc config now base).entry =
      (base, (Shelf.fresh crc config now base).file) := rfl
  simp only [entryEq, lookedUp]

theorem createSegment_refused {config : SegmentConfig} {base : Nat} {now : UInt64}
    {dir : Directory} {outcomes : List IoOutcome} {written : Nat}
    (roomy : config.headerSize < config.segmentSize)
    (refused : outcomes.headD .ok = .fail written) :
    createSegment crc config base now ⟨dir, outcomes⟩ =
      (.error (.write base .io), ⟨dir, outcomes.tail⟩) := by
  have failed : DirState.createNew base ⟨dir, outcomes⟩ =
      (.error (.write base .io), ⟨dir, outcomes.tail⟩) := by
    rw [DirState.createNew, refused]
  unfold createSegment
  rw [if_neg (by omega), Op.bind_apply_error failed]

theorem live_fresh {config : SegmentConfig} {now : UInt64} {base : Nat}
    (sealed : List Segment) :
    Live config
      ⟨config, sealed, base, [],
        (Writer.created (Shelf.fresh crc config now base).file config.segmentSize
          config.headerSize).setMaxRecord config.maxRecordLen, base⟩
      (Shelf.fresh crc config now base) config.headerSize :=
  ⟨rfl, rfl, rfl, rfl, rfl, rfl, rfl, rfl, rfl⟩

/-- Either the file of the next segment cannot be created, or no call of its creation
fails. -/
def CreateSpared (outcomes : List IoOutcome) : Prop :=
  (∃ written, outcomes.headD .ok = .fail written) ∨ Faultless outcomes

/-- A failed step left the files and the positions of a log as they were. -/
structure Untouched (config : SegmentConfig) (state : LogState) (active : Shelf)
    (stop : Nat) (after : LogState) : Prop where
  dir_eq : after.dir = state.dir
  live : Live config after.set active stop

/-- A rollover seals the active shelf and puts a fresh one behind it, or it fails and
leaves the log as it was. -/
theorem rollover_cases {config : SegmentConfig} {sealed : List Shelf} {active : Shelf}
    {stop : Nat} {state : LogState} {env : AppendEnv}
    (stored : Stored crc config state.dir sealed active stop)
    (live : Live config state.set active stop)
    (headerFits : segmentHeaderSize ≤ config.headerSize)
    (roomy : config.headerSize < config.segmentSize)
    (spared : CreateSpared env.createIo) (nonempty : active.records ≠ [])
    (positionFits : active.nextBase < 2 ^ 64)
    (quiet : QuietTail crc active.file active.file.length stop) :
    (∃ error after, rollover crc env state = (.error error, after) ∧
        (¬ Faultless env.sealIo ∨ ¬ Faultless env.createIo) ∧
        Untouched config state active stop after) ∨
      ∃ after, rollover crc env state = (.ok (), after) ∧
        Stored crc config after.dir (sealed ++ [active])
          (Shelf.fresh crc config env.now active.nextBase) config.headerSize ∧
        Live config after.set (Shelf.fresh crc config env.now active.nextBase)
          config.headerSize := by
  obtain ⟨fileEq, syncedLive⟩ := sync_live live env.sealIo
  cases result : Writer.sync (state.set.activeWriter.withOutcomes env.sealIo) with
  | mk outcome writer =>
  rw [result] at fileEq syncedLive
  dsimp only at fileEq syncedLive
  have synced := onWriter_eq stored live.activeBase_eq result
  have filesEq : sealed.map Shelf.entry ++ [(active.base, writer.writer.file)] =
      (sealed ++ [active]).map Shelf.entry := by
    simp [Shelf.entry, fileEq]
  rw [filesEq, ← stored.dir_eq] at synced
  have untouched : Untouched config state active stop
      ⟨state.dir, { state.set with activeWriter := writer.withOutcomes [] }⟩ :=
    ⟨rfl, syncedLive⟩
  cases outcome with
  | error error =>
      refine .inl ⟨.write active.base error, _, ?_, .inl ?_, untouched⟩
      · rw [rollover, Op.bind_apply_error synced]
      · intro faultless
        obtain ⟨_, _, succeeded, _⟩ := Writer.sync_succeeds
          (state.set.activeWriter.withOutcomes env.sealIo) faultless
        rw [succeeded] at result
        cases result
  | ok value =>
  have rolled : rollover crc env state = installSegment crc env
      ⟨state.dir, { state.set with activeWriter := writer.withOutcomes [] }⟩ := by
    rw [rollover, Op.bind_apply_ok synced]
  rcases spared with ⟨written, refused⟩ | faultless
  · refine .inl ⟨.write active.nextBase .io, _, ?_, .inr ?_, untouched⟩
    · rw [rolled]
      simp only [installSegment, live.config_eq, live.nextPosition_eq,
        createSegment_refused roomy refused]
    · intro faultless
      rw [faultless.headD] at refused
      cases refused
  have sealedOk : ∀ shelf ∈ sealed ++ [active], shelf.Sealed crc config := by
    intro shelf member
    rcases List.mem_append.mp member with old | last
    · exact stored.sealed_ok shelf old
    · obtain rfl : shelf = active := by simpa using last
      exact stored.active_ok.toSealed nonempty quiet
  have contiguous : Contiguous firstPosition
      (sealed ++ [active] ++ [Shelf.fresh crc config env.now active.nextBase]) := by
    obtain ⟨_, baseEq⟩ := Contiguous.snoc_iff.mp stored.contiguous
    refine Contiguous.snoc_iff.mpr ⟨stored.contiguous, ?_⟩
    simp only [List.flatMap_append, List.length_append, ← Nat.add_assoc, ← baseEq]
    simp [Shelf.fresh, Shelf.nextBase]
  obtain ⟨ascending, _⟩ := contiguous.bases fun shelf member => (sealedOk shelf member).nonempty
  have absent : ∀ entry ∈ state.dir, entry.1 ≠ active.nextBase := by
    intro entry member
    rw [stored.dir_eq] at member
    obtain ⟨shelf, shelfMember, rfl⟩ := List.mem_map.mp member
    have less := (List.pairwise_append.mp ascending).2.2 shelf shelfMember
      (Shelf.fresh crc config env.now active.nextBase) (by simp)
    exact Nat.ne_of_lt less
  obtain ⟨rest, created⟩ := createSegment_eq crc env.now roomy absent faultless
  refine .inr ⟨⟨state.dir ++ [(Shelf.fresh crc config env.now active.nextBase).entry],
    ⟨config, state.set.sealed ++ [(SegmentSet.active
        { state.set with activeWriter := writer.withOutcomes [] })], active.nextBase, [],
      (Writer.created (Shelf.fresh crc config env.now active.nextBase).file
        config.segmentSize config.headerSize).setMaxRecord config.maxRecordLen,
      active.nextBase⟩⟩, ?_, ⟨?_, contiguous, sealedOk, ?_⟩, live_fresh _⟩
  · rw [rolled]
    simp only [installSegment, live.config_eq, live.nextPosition_eq, created]
  · rw [stored.dir_eq]
    simp
  · exact Shelf.active_fresh env.now headerFits (Nat.le_of_lt roomy) positionFits

/-- A batch that `append_batch` does not reject. -/
structure Accepted (config : SegmentConfig) (records : List (List UInt8)) : Prop where
  nonempty : records ≠ []
  nonempty_records : ∀ record ∈ records, 0 < record.length
  short_records : ∀ record ∈ records, recordHeadSize + record.length ≤ config.maxRecordLen
  fits : batchSize records ≤ config.capacity

theorem Accepted.framable {config : SegmentConfig} {records : List (List UInt8)}
    (accepted : Accepted config records)
    (encodable : ∀ record ∈ records, record.length ≤ maxRecordLen) :
    Framable records :=
  fun record member => ⟨accepted.nonempty_records record member, encodable record member⟩

theorem checkRecords_eq_none {maxRecordLen : Nat} {records : List (List UInt8)} :
    checkRecords maxRecordLen records = none ↔
      ∀ record ∈ records, 0 < record.length ∧ recordHeadSize + record.length ≤ maxRecordLen := by
  induction records with
  | nil => simp [checkRecords]
  | cons record records ih =>
      rw [checkRecords, List.forall_mem_cons, ← ih]
      by_cases empty : record = []
      · simp [empty]
      · have positive := List.length_pos_of_ne_nil empty
        by_cases long : recordHeadSize + record.length > maxRecordLen
        · simp [empty, long]
        · simp [empty, long]
          omega

variable (crc) in
/-- How the preparation of a batch ends: in an error that changes nothing, in
place, or behind a rollover. -/
theorem prepareBatch_cases (env : AppendEnv) (records : List (List UInt8)) (state : LogState) :
    (∃ error, prepareBatch crc env records state = (.error error, state) ∧
        ¬ Accepted state.set.config records) ∨
      (Accepted state.set.config records ∧
        batchSize records ≤ state.set.activeWriter.remainingBytes ∧
        prepareBatch crc env records state = (.ok (), state)) ∨
      (Accepted state.set.config records ∧
        state.set.activeWriter.remainingBytes < batchSize records ∧
        prepareBatch crc env records state = rollover crc env state) := by
  unfold prepareBatch
  by_cases empty : records = []
  · exact .inl ⟨.emptyBatch, by simp [empty], fun accepted => accepted.nonempty empty⟩
  rw [if_neg (by simpa using empty)]
  cases checked : checkRecords state.set.config.maxRecordLen records with
  | some error =>
      refine .inl ⟨error, rfl, fun accepted => ?_⟩
      have passed := checkRecords_eq_none.mpr fun record member =>
        ⟨accepted.nonempty_records record member, accepted.short_records record member⟩
      simp [passed] at checked
  | none =>
      have passed := checkRecords_eq_none.mp checked
      by_cases large : batchSize records > state.set.config.capacity
      · refine .inl ⟨_, by simp only [if_pos large]; rfl, fun accepted => ?_⟩
        have fits := accepted.fits
        omega
      · have accepted : Accepted state.set.config records :=
          ⟨empty, fun record member => (passed record member).1,
            fun record member => (passed record member).2, by omega⟩
        simp only [if_neg large]
        by_cases full : batchSize records > state.set.activeWriter.remainingBytes
        · exact .inr (.inr ⟨accepted, full, by rw [if_pos full]⟩)
        · exact .inr (.inl ⟨accepted, by omega, by rw [if_neg full]⟩)

end SegmentSet

/-- The batches of all shelves. -/
def storedBatches (sealed : List Shelf) (active : Shelf) : List (List (List UInt8)) :=
  (sealed ++ [active]).flatMap Shelf.batches

theorem storedBatches_snoc (sealed : List Shelf) (active : Shelf) (file : List UInt8)
    (records : List (List UInt8)) :
    storedBatches sealed ⟨active.base, file, active.batches ++ [records]⟩ =
      storedBatches sealed active ++ [records] := by
  simp [storedBatches]

theorem storedBatches_withFile (sealed : List Shelf) (active : Shelf) (file : List UInt8) :
    storedBatches sealed (active.withFile file) = storedBatches sealed active := by
  simp [storedBatches, Shelf.withFile]

theorem storedBatches_withBatch (sealed : List Shelf) (active : Shelf) (stop : Nat)
    (records : List (List UInt8)) :
    storedBatches sealed (active.withBatch crc stop records) =
      storedBatches sealed active ++ [records] := by
  simp [storedBatches, Shelf.withBatch]

theorem flatten_storedBatches (sealed : List Shelf) (active : Shelf) :
    (storedBatches sealed active).flatten = storedRecords sealed active := by
  rw [storedBatches, storedRecords]
  induction sealed ++ [active] with
  | nil => rfl
  | cons shelf shelves ih => simp [Shelf.records, ih]

namespace SegmentSet

/-- After its preparation an accepted batch fits behind the committed end. -/
structure Prepared (crc : List UInt8 → UInt32) (config : SegmentConfig) (env : AppendEnv)
    (records : List (List UInt8)) (sealed : List Shelf) (active : Shelf) (stop : Nat)
    (sealed' : List Shelf) (active' : Shelf) (stop' : Nat) (after : LogState) : Prop where
  stored : Stored crc config after.dir sealed' active' stop'
  live : Live config after.set active' stop'
  fits : stop' + batchSize records ≤ config.segmentSize
  nextBase_eq : active'.nextBase = active.nextBase
  batches_eq : storedBatches sealed' active' = storedBatches sealed active
  place : (sealed' = sealed ∧ active' = active ∧ stop' = stop) ∨
    (config.segmentSize < stop + batchSize records ∧
      sealed' = sealed ++ [active] ∧
      active' = Shelf.fresh crc config env.now active.nextBase ∧
      stop' = config.headerSize)

/-- An accepted batch is prepared on a stored log, or the rollover it needs fails and
leaves the log as it was. -/
theorem prepareBatch_spared {config : SegmentConfig} {sealed : List Shelf} {active : Shelf}
    {stop : Nat} (state : LogState) (env : AppendEnv) {records : List (List UInt8)}
    (valid : config.validate = .ok ())
    (stored : Stored crc config state.dir sealed active stop)
    (live : Live config state.set active stop)
    (headerFits : segmentHeaderSize ≤ config.headerSize)
    (accepted : Accepted config records) (positionFits : active.nextBase < 2 ^ 64)
    (rolls : config.segmentSize < stop + batchSize records →
      CreateSpared env.createIo ∧ QuietTail crc active.file active.file.length stop) :
    (∃ error after, prepareBatch crc env records state = (.error error, after) ∧
        (¬ Faultless env.sealIo ∨ ¬ Faultless env.createIo) ∧
        Untouched config state active stop after) ∨
      ∃ sealed' active' stop' after,
        prepareBatch crc env records state = (.ok (), after) ∧
        Prepared crc config env records sealed active stop sealed' active' stop' after := by
  obtain ⟨roomy, _, _⟩ := SegmentConfig.validate_ok valid
  have remaining := live.remainingBytes_eq
  have stopLe := stored.active_ok.stop_le
  have batchFits := accepted.fits
  rw [SegmentConfig.capacity] at batchFits
  rcases prepareBatch_cases crc env records state with
    ⟨error, _, rejected⟩ | ⟨_, fits, result⟩ | ⟨_, full, result⟩
  · exact absurd (live.config_eq ▸ accepted) rejected
  · refine .inr ⟨sealed, active, stop, state, result, stored, live, by omega, rfl, rfl,
      .inl ⟨rfl, rfl, rfl⟩⟩
  · have startLe := stored.active_ok.start_le
    have nonempty := stored.active_ok.nonempty (by omega)
    rw [result]
    obtain ⟨spared, quiet⟩ := rolls (by omega)
    rcases rollover_cases stored live headerFits roomy spared nonempty positionFits
      quiet with failed | ⟨after, rolled, stored', live'⟩
    · exact .inl failed
    · refine .inr ⟨_, _, _, after, rolled, stored', live', by omega, ?_, ?_,
        .inr ⟨by omega, rfl, rfl, rfl⟩⟩
      · simp [Shelf.nextBase, Shelf.fresh, Shelf.records]
      · simp [storedBatches, Shelf.fresh]

variable (crc) in
theorem prepareBatch_inPlace {config : SegmentConfig} (env : AppendEnv) (state : LogState)
    {records : List (List UInt8)} (configEq : state.set.config = config)
    (accepted : Accepted config records)
    (room : batchSize records ≤ state.set.activeWriter.remainingBytes) :
    prepareBatch crc env records state = (.ok (), state) := by
  subst configEq
  rcases prepareBatch_cases crc env records state with
    ⟨_, _, rejected⟩ | ⟨_, _, result⟩ | ⟨_, full, _⟩
  · exact absurd accepted rejected
  · exact result
  · omega

variable (crc) in
theorem prepareBatch_rejected {config : SegmentConfig} (env : AppendEnv) (state : LogState)
    {records : List (List UInt8)} (configEq : state.set.config = config)
    (rejected : ¬ Accepted config records) :
    ∃ error, prepareBatch crc env records state = (.error error, state) := by
  subst configEq
  rcases prepareBatch_cases crc env records state with
    ⟨error, result, _⟩ | ⟨accepted, _⟩ | ⟨accepted, _⟩
  · exact ⟨error, result⟩
  · exact absurd accepted rejected
  · exact absurd accepted rejected

variable (crc) in
theorem appendBatch_rejected {config : SegmentConfig} (env : AppendEnv) (state : LogState)
    {records : List (List UInt8)} (configEq : state.set.config = config)
    (rejected : ¬ Accepted config records) :
    ∃ error, appendBatch crc env records state = (.error error, state) := by
  obtain ⟨error, result⟩ := prepareBatch_rejected crc env state configEq rejected
  exact ⟨error, by rw [appendBatch, Op.bind_apply_error result]⟩

variable (crc) in
theorem openSet_empty_eq {config : SegmentConfig} (valid : config.validate = .ok ())
    (now : UInt64) :
    openSet crc config now [] =
      (.ok ⟨config, [], firstPosition, [],
        (Writer.created (Shelf.fresh crc config now firstPosition).file config.segmentSize
          config.headerSize).setMaxRecord config.maxRecordLen, firstPosition⟩,
        [(Shelf.fresh crc config now firstPosition).entry]) := by
  obtain ⟨roomy, _, _⟩ := SegmentConfig.validate_ok valid
  have absent : ∀ entry ∈ ([] : Directory), entry.1 ≠ firstPosition := by simp
  obtain ⟨rest, created⟩ := createSegment_eq crc now roomy absent faultless_nil
  rw [openSet, valid]
  simp [Directory.sorted, classifyAll, keepWritten, created]

variable (crc) in
theorem openSet_empty {config : SegmentConfig} (valid : config.validate = .ok ())
    (headerFits : segmentHeaderSize ≤ config.headerSize) (now : UInt64) :
    ∃ set, openSet crc config now [] =
        (.ok set, [(Shelf.fresh crc config now firstPosition).entry]) ∧
      Stored crc config [(Shelf.fresh crc config now firstPosition).entry] []
        (Shelf.fresh crc config now firstPosition) config.headerSize ∧
      Live config set (Shelf.fresh crc config now firstPosition) config.headerSize ∧
      readLog crc ⟨[(Shelf.fresh crc config now firstPosition).entry], set⟩ = .ok [] := by
  obtain ⟨roomy, _, _⟩ := SegmentConfig.validate_ok valid
  refine ⟨_, openSet_empty_eq crc valid now, ⟨rfl, ⟨rfl, trivial⟩, by simp, ?_⟩,
    live_fresh [], ?_⟩
  · exact Shelf.active_fresh now headerFits (Nat.le_of_lt roomy) (by decide)
  · have past : config.headerSize < config.headerSize + recordHeadSize := by
      simp [recordHeadSize, lenSize]
    rw [readLog, List.nil_append, readSegments, readSegment, Reader.iterate_past_end past]
    rfl

/-- The framing can represent the batch, and the segment it does not fit in can
be sealed: a scan of its file stops at the committed end. -/
structure BatchAllowed (crc : List UInt8 → UInt32) (dir : Directory) (set : SegmentSet)
    (records : List (List UInt8)) : Prop where
  encodable : ∀ record ∈ records, record.length ≤ maxRecordLen
  positions : set.nextPosition + records.length ≤ 2 ^ 64
  quiet : set.activeWriter.remainingBytes < batchSize records →
    QuietTail crc (dir.read set.activeBase) (dir.read set.activeBase).length
      set.activeWriter.writeOffset

/-- The bytes of a batch in a set: its marker names the last of its positions. -/
def batchOf (crc : List UInt8 → UInt32) (set : SegmentSet) (records : List (List UInt8)) : List UInt8 :=
  batchBytes crc records (set.nextPosition + records.length - 1)

/-- Where a batch is written: behind the committed end, or in a new segment. -/
def writeStart (config : SegmentConfig) (set : SegmentSet) (records : List (List UInt8)) :
    Nat :=
  if batchSize records ≤ set.activeWriter.remainingBytes then
    set.activeWriter.writeOffset
  else
    config.headerSize

/-- The file a batch is written to: the active one, or the zeros of a new one. -/
def batchSpace (config : SegmentConfig) (dir : Directory) (set : SegmentSet)
    (records : List (List UInt8)) : List UInt8 :=
  if batchSize records ≤ set.activeWriter.remainingBytes then
    dir.read set.activeBase
  else
    List.replicate config.segmentSize 0

/-- That file with the batch. -/
def batchFile (crc : List UInt8 → UInt32) (config : SegmentConfig) (dir : Directory)
    (set : SegmentSet) (records : List (List UInt8)) : List UInt8 :=
  writeAt (batchSpace config dir set records) (writeStart config set records)
    (batchOf crc set records)

/-- What that file has held since it was last made durable. -/
def batchStages (config : SegmentConfig) (stages : List (List UInt8)) (set : SegmentSet)
    (records : List (List UInt8)) : List (List UInt8) :=
  if batchSize records ≤ set.activeWriter.remainingBytes then
    stages
  else
    [List.replicate config.segmentSize 0]

/-- What a crash may leave of a batch in flight.  The checksum detects every record that is not
as it was written; and in place no run of records of the batch and of what stood there ends in
a commit marker, other than the batch. -/
structure TornAllowed (crc : List UInt8 → UInt32) (config : SegmentConfig) (dir : Directory)
    (set : SegmentSet) (records : List (List UInt8)) (stages : List (List UInt8))
    (image : List UInt8) : Prop where
  alone : batchSize records ≤ set.activeWriter.remainingBytes →
    FinishesAlone crc config.segmentSize stages (batchFile crc config dir set records)
      set.activeWriter.writeOffset (set.activeWriter.writeOffset + batchSize records)
  detects : Detects crc config.segmentSize
    (batchFile crc config dir set records :: batchStages config stages set records) image
    (writeStart config set records)

theorem Prepared.start_eq {config : SegmentConfig} {env : AppendEnv}
    {records : List (List UInt8)} {sealed sealed' : List Shelf} {active active' : Shelf}
    {stop stop' : Nat} {set : SegmentSet} {after : LogState}
    (prepared : Prepared crc config env records sealed active stop sealed' active' stop' after)
    (live : Live config set active stop) (stopLe : stop ≤ config.segmentSize)
    (accepted : Accepted config records) :
    stop' = writeStart config set records := by
  have remaining := live.remainingBytes_eq
  have fits := prepared.fits
  have batchFits := accepted.fits
  rw [SegmentConfig.capacity] at batchFits
  rw [writeStart, live.writeOffset_eq]
  rcases prepared.place with ⟨_, _, rfl⟩ | ⟨full, _, _, stopEq⟩
  · rw [if_pos (by omega)]
  · rw [if_neg (by omega), stopEq]

/-- An accepted batch of an allowed step is prepared on the stored log, or the rollover it
needs fails and leaves the log as it was. -/
theorem prepareBatch_allowed {config : SegmentConfig} {dir : Directory} {set : SegmentSet}
    {sealed : List Shelf} {active : Shelf} {stop : Nat} (env : AppendEnv)
    {records : List (List UInt8)} (valid : config.validate = .ok ())
    (headerFits : segmentHeaderSize ≤ config.headerSize)
    (stored : Stored crc config dir sealed active stop)
    (live : Live config set active stop)
    (spared : set.activeWriter.remainingBytes < batchSize records → CreateSpared env.createIo)
    (accepted : Accepted config records) (allowed : BatchAllowed crc dir set records) :
    (∃ error after, prepareBatch crc env records ⟨dir, set⟩ = (.error error, after) ∧
        (¬ Faultless env.sealIo ∨ ¬ Faultless env.createIo) ∧
        Untouched config ⟨dir, set⟩ active stop after) ∨
      ∃ sealed' active' stop' after,
        prepareBatch crc env records ⟨dir, set⟩ = (.ok (), after) ∧
        Prepared crc config env records sealed active stop sealed' active' stop' after := by
  have stopLe := stored.active_ok.stop_le
  have positionFits := allowed.positions
  have positive := List.length_pos_of_ne_nil accepted.nonempty
  have remaining := live.remainingBytes_eq
  rw [live.nextPosition_eq] at positionFits
  refine prepareBatch_spared ⟨dir, set⟩ env valid stored live headerFits accepted
    (by omega) fun full => ⟨spared (by omega), ?_⟩
  have quiet := allowed.quiet (by omega)
  rwa [live.activeBase_eq, stored.read_active, live.writeOffset_eq] at quiet

/-- Without faults an accepted batch of an allowed step is prepared on the stored log. -/
theorem prepared_of_allowed {config : SegmentConfig} {dir : Directory} {set : SegmentSet}
    {sealed : List Shelf} {active : Shelf} {stop : Nat} (now : UInt64)
    {records : List (List UInt8)} (valid : config.validate = .ok ())
    (headerFits : segmentHeaderSize ≤ config.headerSize)
    (stored : Stored crc config dir sealed active stop)
    (live : Live config set active stop) (accepted : Accepted config records)
    (allowed : BatchAllowed crc dir set records) :
    ∃ sealed' active' stop' after,
      prepareBatch crc (.quiet now) records ⟨dir, set⟩ = (.ok (), after) ∧
      Prepared crc config (.quiet now) records sealed active stop sealed' active' stop'
        after := by
  rcases prepareBatch_allowed (.quiet now) valid headerFits stored live
    (fun _ => .inr faultless_nil) accepted allowed with ⟨_, _, _, failed | failed, _⟩ | prepared
  · exact absurd faultless_nil failed
  · exact absurd faultless_nil failed
  · exact prepared

/-- Behind a prepared batch no committed run stands, when none does in place. -/
theorem Prepared.clear {config : SegmentConfig} {env : AppendEnv}
    {records : List (List UInt8)} {sealed sealed' : List Shelf} {active active' : Shelf}
    {stop stop' : Nat} {dir : Directory} {set : SegmentSet} {after : LogState}
    (prepared : Prepared crc config env records sealed active stop sealed' active' stop' after)
    (headerFits : segmentHeaderSize ≤ config.headerSize)
    (roomy : config.headerSize ≤ config.segmentSize)
    (stored : Stored crc config dir sealed active stop) (live : Live config set active stop)
    (inPlace : batchSize records ≤ set.activeWriter.remainingBytes →
      Unmarked (recordAt crc (dir.read set.activeBase) config.segmentSize) IsMarker
        (set.activeWriter.writeOffset + batchSize records)) :
    Unmarked
      (recordAt crc (active'.withBatch crc stop' records).file config.segmentSize) IsMarker
      (stop' + batchSize records) := by
  rcases prepared.place with ⟨rfl, rfl, rfl⟩ | ⟨_, _, rfl, rfl⟩
  · have fits := prepared.fits
    have remaining := live.remainingBytes_eq
    have cleared := inPlace (by omega)
    rw [live.activeBase_eq, stored.read_active, live.writeOffset_eq] at cleared
    refine unmarked_congr (fun last => ?_) cleared
    have behind := agreeOn_writeAt_beyond active'.file
      (batchBytes crc records (active'.nextBase + records.length - 1)) stop' last
    rwa [length_batchBytes] at behind
  · exact Shelf.clear_fresh _ _ headerFits roomy records

theorem finishesAlone_batch {config : SegmentConfig} {stages : List (List UInt8)}
    {file : List UInt8} {start position : Nat} {records : List (List UInt8)}
    (framable : Framable records) (zeros : ∀ stage ∈ stages, ZeroFrom stage start)
    (zero : ZeroFrom file start) (inside : start ≤ file.length)
    (fits : start + batchSize records ≤ config.segmentSize) :
    FinishesAlone crc config.segmentSize stages
      (writeAt file start (batchBytes crc records position)) start
      (start + batchSize records) := by
  have written := readExact_writeAt_self (batchBytes crc records position) inside
  rw [length_batchBytes] at written
  obtain ⟨entries, chain, isRun, -⟩ := chain_batchBytes framable fits written
  refine finishesAlone_of_zeros zeros chain isRun (ZeroFrom.unmarked ?_)
  refine zeroFrom_writeAt (zero.mono (Nat.le_add_right _ _)) inside ?_
  rw [length_batchBytes]

/-- Recovery ends behind a batch that a crash has left whole, and else in front of it. -/
theorem TornAllowed.unmarked {config : SegmentConfig} {dir : Directory} {set : SegmentSet}
    {records : List (List UInt8)} {stages : List (List UInt8)} {image : List UInt8}
    (allowed : TornAllowed crc config dir set records stages image)
    (framable : Framable records)
    (inside : writeStart config set records ≤ (batchSpace config dir set records).length)
    (fits : writeStart config set records + batchSize records ≤ config.segmentSize) :
    Unmarked (recordAt crc image config.segmentSize) IsMarker
      (if readExact image (writeStart config set records) (batchSize records) =
          some (batchOf crc set records) then
        writeStart config set records + batchSize records
      else
        writeStart config set records) := by
  have alone : FinishesAlone crc config.segmentSize (batchStages config stages set records)
      (batchFile crc config dir set records) (writeStart config set records)
      (writeStart config set records + batchSize records) := by
    have inPlace := allowed.alone
    unfold batchFile batchStages batchSpace writeStart at *
    by_cases room : batchSize records ≤ set.activeWriter.remainingBytes
    · simp only [if_pos room] at inPlace ⊢
      exact inPlace room
    · simp only [if_neg room] at inside fits ⊢
      refine finishesAlone_batch framable ?_ (zeroFrom_replicate _ _) inside fits
      intro stage member
      rw [List.mem_singleton.mp member]
      exact zeroFrom_replicate _ _
  have written : readExact (batchFile crc config dir set records)
      (writeStart config set records) (batchSize records) = some (batchOf crc set records) := by
    have read := readExact_writeAt_self (batchOf crc set records) inside
    rwa [batchOf, length_batchBytes] at read
  split
  · next whole =>
    obtain ⟨entries, chain, -⟩ := chain_batchBytes framable fits whole
    exact alone.unmarked_behind allowed.detects chain
  · next torn =>
    refine alone.unmarked_of_cut allowed.detects fun agree => torn ?_
    have positive : 0 < batchSize records := by
      simp only [batchSize, recordHeadSize, lenSize]
      omega
    have reaches := agree.symm.length_le (by omega) (readExact_eq_some_iff.mp written).1
    exact readExact_congr written agree.symm reaches

theorem inside_batchSpace {config : SegmentConfig} {dir : Directory} {set : SegmentSet}
    {sealed : List Shelf} {active : Shelf} {stop : Nat} (records : List (List UInt8))
    (roomy : config.headerSize ≤ config.segmentSize)
    (stored : Stored crc config dir sealed active stop) (live : Live config set active stop) :
    writeStart config set records ≤ (batchSpace config dir set records).length := by
  have inside := stored.active_ok.inside
  unfold writeStart batchSpace
  split
  · rwa [live.writeOffset_eq, live.activeBase_eq, stored.read_active]
  · rwa [List.length_replicate]

/-- A segment with room for one small batch behind another. -/
def smallConfig : SegmentConfig :=
  ⟨124, 40, 64⟩

end SegmentSet

end Log

end Tephra
