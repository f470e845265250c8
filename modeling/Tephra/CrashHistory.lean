import Tephra.Crc32
import Tephra.Histories
import Tephra.LogRollover

/-!
# Crashes, reopens and rollovers

Histories of a log in which batches are appended, the process crashes while a
batch is written, and the log is reopened.  A crash leaves an arbitrary subset
of the bytes of the batch in the file, and recovery leaves them there.  The
history theorem says that the log comes back whole as long as these leftover
bytes never complete a committed run behind a later batch and never stand in
the way of the scan of a sealed segment.
-/

namespace Tephra

namespace Log

open ByteImage FrameChain Fallible Positions Seglog SegmentSet

namespace CrashHistory

/-- A step of a history. -/
inductive CrashStep where
  /-- Reopen the log, after a crash between two batches or after an idle end. -/
  | reopen (now : UInt64)
  /-- Append a batch. -/
  | append (now : UInt64) (records : List (List UInt8))
  /-- Crash while a batch is written, leaving the given active file. -/
  | crash (now : UInt64) (records : List (List UInt8)) (torn : List UInt8)
deriving DecidableEq, Repr

/-- The files, the running log if there is one, and the committed batches. -/
structure World where
  dir : Directory
  set : Option SegmentSet
  committed : List (List (List UInt8))
deriving DecidableEq, Repr

/-- An empty directory. -/
def World.initial : World :=
  ⟨[], none, []⟩

/-- Each byte of a torn file is the byte before the write or the written one. -/
def Torn (before written torn : List UInt8) : Prop :=
  torn.length = before.length ∧
    ∀ index < torn.length, torn[index]? = before[index]? ∨ torn[index]? = written[index]?

instance (before written torn : List UInt8) : Decidable (Torn before written torn) :=
  inferInstanceAs (Decidable (_ ∧ _))

variable (crc : List UInt8 → UInt32)

/-- One step of a history.  A batch torn by a crash is committed when all of its
bytes have reached the file. -/
def step (config : SegmentConfig) (world : World) : CrashStep → Option World
  | .reopen now =>
      match openSet crc config now world.dir with
      | (.ok set, dir) => some ⟨dir, some set, world.committed⟩
      | (.error _, dir) => some ⟨dir, none, world.committed⟩
  | .append now records =>
      world.set.map fun set =>
        match appendBatch crc (.quiet now) records ⟨world.dir, set⟩ with
        | (.ok _, after) => ⟨after.dir, some after.set, world.committed ++ [records]⟩
        | (.error _, after) => ⟨after.dir, some after.set, world.committed⟩
  | .crash now records torn =>
      world.set.bind fun set =>
        match prepareBatch crc (.quiet now) records ⟨world.dir, set⟩ with
        | (.error _, _) => none
        | (.ok _, after) =>
            let before := after.dir.read after.set.activeBase
            let start := after.set.activeWriter.writeOffset
            let batch := batchOf crc after.set records
            if Torn before (writeAt before start batch) torn then
              some ⟨after.dir.write after.set.activeBase torn, none,
                if readExact torn start (batchSize records) = some batch then
                  world.committed ++ [records]
                else
                  world.committed⟩
            else
              none

/-- Opening the log succeeds and yields the committed records at their positions. -/
def Recovers (config : SegmentConfig) (world : World) : Prop :=
  ∀ now, ∃ set dir, openSet crc config now world.dir = (.ok set, dir) ∧
    readLog crc ⟨dir, set⟩ = .ok (positioned firstPosition world.committed.flatten)

/-- The steps after which the log comes back whole.  A batch that is appended in place has no
committed run among the bytes that earlier torn batches left behind it; and a crash leaves what
the checksum tells from the records that were written. -/
def StepAllowed (config : SegmentConfig) (world : World) : CrashStep → Prop
  | .reopen _ => True
  | .append _ records =>
      ∀ set, world.set = some set → Accepted config records →
        BatchAllowed crc world.dir set records ∧
        (batchSize records ≤ set.activeWriter.remainingBytes →
          Unmarked (recordAt crc (world.dir.read set.activeBase) config.segmentSize) IsMarker
            (set.activeWriter.writeOffset + batchSize records))
  | .crash _ records torn =>
      ∀ set, world.set = some set → Accepted config records →
        BatchAllowed crc world.dir set records ∧
        TornAllowed crc config world.dir set records [world.dir.read set.activeBase] torn

/-- The directory stores the committed batches, and a running log stands at their end. -/
def Holds (config : SegmentConfig) (world : World) : Prop :=
  world = .initial ∨
    ∃ sealed active stop, Stored crc config world.dir sealed active stop ∧
      (∀ set, world.set = some set → Live config set active stop) ∧
      storedBatches sealed active = world.committed

variable {crc}

theorem Holds.recovers {config : SegmentConfig} {world : World}
    (valid : config.validate = .ok ()) (headerFits : segmentHeaderSize ≤ config.headerSize)
    (holds : Holds crc config world) : Recovers crc config world := by
  intro now
  rcases holds with rfl | ⟨sealed, active, stop, stored, _, batchesEq⟩
  · obtain ⟨set, opened, _, _, read⟩ := openSet_empty crc valid headerFits now
    exact ⟨set, _, opened, read⟩
  · obtain ⟨set, opened, _, read⟩ := openSet_stored valid stored now
    refine ⟨set, _, opened, ?_⟩
    rw [read, ← batchesEq, flatten_storedBatches]

theorem holds_reopen {config : SegmentConfig} {world next : World} {now : UInt64}
    (valid : config.validate = .ok ()) (headerFits : segmentHeaderSize ≤ config.headerSize)
    (holds : Holds crc config world)
    (taken : step crc config world (.reopen now) = some next) : Holds crc config next := by
  rcases holds with rfl | ⟨sealed, active, stop, stored, _, batchesEq⟩
  · obtain ⟨set, opened, stored, live, _⟩ := openSet_empty crc valid headerFits now
    simp only [step, World.initial, opened, Option.some.injEq] at taken
    subst taken
    exact .inr ⟨_, _, _, stored, fun set' setEq => by
      obtain rfl : set = set' := by simpa using setEq
      exact live, rfl⟩
  · obtain ⟨set, opened, live, _⟩ := openSet_stored valid stored now
    simp only [step, opened, Option.some.injEq] at taken
    subst taken
    exact .inr ⟨sealed, active, stop, stored, fun set' setEq => by
      obtain rfl : set = set' := by simpa using setEq
      exact live, batchesEq⟩

/-- What an append to a stored log leaves: the log as it was, or the log with the batch
behind it. -/
theorem append_cases {config : SegmentConfig} {world next : World} {now : UInt64}
    {records : List (List UInt8)} {sealed : List Shelf} {active : Shelf} {stop : Nat}
    (valid : config.validate = .ok ()) (headerFits : segmentHeaderSize ≤ config.headerSize)
    (stored : Stored crc config world.dir sealed active stop)
    (running : ∀ set, world.set = some set → Live config set active stop)
    (allowed : StepAllowed crc config world (.append now records))
    (taken : step crc config world (.append now records) = some next) :
    next = world ∨ ∃ sealed' active' stop' after,
      Prepared crc config (.quiet now) records sealed active stop sealed' active' stop' after ∧
      (records ≠ [] ∧ Framable records ∧ active'.nextBase + records.length ≤ 2 ^ 64) ∧
      Stored crc config next.dir sealed' (active'.withBatch crc stop' records)
        (stop' + batchSize records) ∧
      (∀ set, next.set = some set →
        Live config set (active'.withBatch crc stop' records) (stop' + batchSize records)) ∧
      next.committed = world.committed ++ [records] := by
  obtain ⟨set, setEq, rfl⟩ := Option.map_eq_some_iff.mp taken
  have live := running set setEq
  by_cases accepted : Accepted config records
  swap
  · obtain ⟨error, result⟩ := appendBatch_rejected crc (.quiet now) ⟨world.dir, set⟩
      live.config_eq accepted
    rw [result]
    dsimp only
    rw [← setEq]
    exact .inl rfl
  obtain ⟨batchAllowed, clear⟩ := allowed set setEq accepted
  obtain ⟨sealed', active', stop', after, result, prepared⟩ :=
    prepared_of_allowed now valid headerFits stored live accepted batchAllowed
  obtain ⟨roomy, _, maxEq⟩ := SegmentConfig.validate_ok valid
  have positionFits := batchAllowed.positions
  rw [live.nextPosition_eq, ← prepared.nextBase_eq] at positionFits
  have framable := accepted.framable batchAllowed.encodable
  have clear' := prepared.clear headerFits (Nat.le_of_lt roomy) stored live clear
  obtain ⟨final, written, stored', live'⟩ := writeRecords_stored (.quiet now)
    prepared.stored prepared.live headerFits faultless_nil accepted.nonempty framable
    (fun record member => by
      rw [prepared.live.maxRecord_eq, maxEq]
      exact accepted.short_records record member)
    prepared.fits positionFits clear'
  have appended : appendBatch crc (.quiet now) records ⟨world.dir, set⟩ =
      (.ok (active'.nextBase, active'.nextBase + records.length - 1), final) := by
    rw [appendBatch, Op.bind_apply_ok result, written]
  rw [appended]
  refine .inr ⟨sealed', active', stop', after, prepared,
    ⟨accepted.nonempty, framable, positionFits⟩, stored', ?_, rfl⟩
  intro set' setEq'
  obtain rfl : final.set = set' := by simpa using setEq'
  exact live'

theorem holds_append {config : SegmentConfig} {world next : World} {now : UInt64}
    {records : List (List UInt8)} (valid : config.validate = .ok ())
    (headerFits : segmentHeaderSize ≤ config.headerSize) (holds : Holds crc config world)
    (allowed : StepAllowed crc config world (.append now records))
    (taken : step crc config world (.append now records) = some next) :
    Holds crc config next := by
  rcases holds with rfl | ⟨sealed, active, stop, stored, running, batchesEq⟩
  · simp [step, World.initial] at taken
  rcases append_cases valid headerFits stored running allowed taken with
    rfl | ⟨sealed', active', stop', _, prepared, _, stored', running', committed⟩
  · exact .inr ⟨sealed, active, stop, stored, running, batchesEq⟩
  · refine .inr ⟨sealed', active'.withBatch crc stop' records, _, stored', running', ?_⟩
    rw [storedBatches_withBatch, prepared.batches_eq, batchesEq, committed]

theorem Torn.agree {file torn bytes : List UInt8} {start : Nat}
    (isTorn : Torn file (writeAt file start bytes) torn) (inside : start ≤ file.length) :
    AgreeOn file torn 0 start := by
  intro index _ below
  rcases isTorn.2 index (by rw [isTorn.1]; omega) with same | same
  · exact same.symm
  · rw [same]
    exact (agreeOn_writeAt_before (Nat.le_refl _) inside 0 index (Nat.zero_le _) below).symm

/-- What a crash leaves of a stored log: the bytes of the batch are all in the file, and it is
stored, or the log is as it was in front of them. -/
theorem crash_cases {config : SegmentConfig} {world next : World} {now : UInt64}
    {records : List (List UInt8)} {torn : List UInt8} {sealed : List Shelf} {active : Shelf}
    {stop : Nat} (valid : config.validate = .ok ())
    (headerFits : segmentHeaderSize ≤ config.headerSize)
    (stored : Stored crc config world.dir sealed active stop)
    (running : ∀ set, world.set = some set → Live config set active stop)
    (allowed : StepAllowed crc config world (.crash now records torn))
    (taken : step crc config world (.crash now records torn) = some next) :
    ∃ sealed' active' stop' after,
      Prepared crc config (.quiet now) records sealed active stop sealed' active' stop' after ∧
      (records ≠ [] ∧ Framable records ∧ active'.nextBase + records.length ≤ 2 ^ 64) ∧
      next.set = none ∧ torn.length = active'.file.length ∧ AgreeOn active'.file torn 0 stop' ∧
      (readExact torn stop' (batchSize records) =
          some (batchBytes crc records (active'.nextBase + records.length - 1)) ∧
        Stored crc config next.dir sealed' ⟨active'.base, torn, active'.batches ++ [records]⟩
          (stop' + batchSize records) ∧
        next.committed = world.committed ++ [records] ∨
      Stored crc config next.dir sealed' (active'.withFile torn) stop' ∧
        next.committed = world.committed) := by
  obtain ⟨set, setEq, taken⟩ := Option.bind_eq_some_iff.mp taken
  have live := running set setEq
  by_cases accepted : Accepted config records
  swap
  · obtain ⟨error, result⟩ := prepareBatch_rejected crc (.quiet now) ⟨world.dir, set⟩
      live.config_eq accepted
    simp [result] at taken
  obtain ⟨batchAllowed, tornAllowed⟩ := allowed set setEq accepted
  obtain ⟨sealed', active', stop', after, result, prepared⟩ :=
    prepared_of_allowed now valid headerFits stored live accepted batchAllowed
  have stopEq := prepared.start_eq live stored.active_ok.stop_le accepted
  obtain ⟨roomy, _, _⟩ := SegmentConfig.validate_ok valid
  have framable := accepted.framable batchAllowed.encodable
  have clear := tornAllowed.unmarked framable
    (inside_batchSpace records (Nat.le_of_lt roomy) stored live)
    (stopEq ▸ prepared.fits)
  have batchEq : batchOf crc after.set records = batchOf crc set records := by
    rw [batchOf, batchOf, prepared.live.nextPosition_eq, live.nextPosition_eq,
      prepared.nextBase_eq]
  simp only [result, prepared.live.activeBase_eq, prepared.stored.read_active,
    prepared.live.writeOffset_eq, batchEq] at taken
  rw [← stopEq] at clear
  split at taken
  swap
  · cases taken
  next isTorn =>
  have agree := isTorn.agree prepared.stored.active_ok.inside
  have positionFits := batchAllowed.positions
  rw [live.nextPosition_eq, ← prepared.nextBase_eq] at positionFits
  rw [Option.some.injEq] at taken
  subst taken
  rw [prepared.stored.write_active]
  refine ⟨sealed', active', stop', after, prepared, ⟨accepted.nonempty, framable, positionFits⟩,
    rfl, isTorn.1, agree, ?_⟩
  by_cases complete : readExact torn stop' (batchSize records) =
      some (batchOf crc set records)
  · rw [if_pos complete] at clear ⊢
    rw [batchOf, live.nextPosition_eq, ← prepared.nextBase_eq] at complete
    exact .inl ⟨complete, prepared.stored.extendTail headerFits accepted.nonempty framable
      prepared.fits positionFits agree complete clear, rfl⟩
  · rw [if_neg complete] at clear ⊢
    exact .inr ⟨prepared.stored.replaceTail headerFits agree clear, rfl⟩

theorem holds_crash {config : SegmentConfig} {world next : World} {now : UInt64}
    {records : List (List UInt8)} {torn : List UInt8} (valid : config.validate = .ok ())
    (headerFits : segmentHeaderSize ≤ config.headerSize) (holds : Holds crc config world)
    (allowed : StepAllowed crc config world (.crash now records torn))
    (taken : step crc config world (.crash now records torn) = some next) :
    Holds crc config next := by
  rcases holds with rfl | ⟨sealed, active, stop, stored, running, batchesEq⟩
  · simp [step, World.initial] at taken
  obtain ⟨sealed', active', stop', _, prepared, _, ended, _, _,
    ⟨_, stored', committed⟩ | ⟨stored', committed⟩⟩ :=
    crash_cases valid headerFits stored running allowed taken
  · refine .inr ⟨sealed', _, _, stored', by simp [ended], ?_⟩
    rw [storedBatches_snoc, prepared.batches_eq, batchesEq, committed]
  · refine .inr ⟨sealed', _, stop', stored', by simp [ended], ?_⟩
    rw [storedBatches_withFile, prepared.batches_eq, batchesEq, committed]

/-- After every history of allowed steps the log opens and yields exactly the
committed records, in order and at their positions. -/
theorem crash_history_recovers {config : SegmentConfig} {steps : List CrashStep}
    {world : World} (valid : config.validate = .ok ())
    (headerFits : segmentHeaderSize ≤ config.headerSize)
    (allowed : Histories.Allowed (step crc config) (StepAllowed crc config) .initial steps)
    (reached : Histories.run (step crc config) .initial steps = some world) :
    Recovers crc config world := by
  have kept : ∀ world label next, Holds crc config world →
      StepAllowed crc config world label → step crc config world label = some next →
      Holds crc config next := by
    intro world label next holds allowed taken
    cases label with
    | reopen now => exact holds_reopen valid headerFits holds taken
    | append now records => exact holds_append valid headerFits holds allowed taken
    | crash now records torn => exact holds_crash valid headerFits holds allowed taken
  exact Holds.recovers valid headerFits
    (Histories.invariant_of_run kept (.inl rfl) allowed reached)

/-- A batch that goes over zeros, or rolls over a segment that ends in a head of zeros. -/
def Unsoiled (config : SegmentConfig) (dir : Directory) (set : SegmentSet)
    (records : List (List UInt8)) : Prop :=
  (∀ record ∈ records, 0 < record.length ∧ record.length ≤ maxRecordLen) ∧
    set.nextPosition + records.length ≤ 2 ^ 64 ∧
    writeStart config set records + batchSize records ≤ config.segmentSize ∧
    set.activeWriter.writeOffset + recordHeadSize ≤ (dir.read set.activeBase).length ∧
    if batchSize records ≤ set.activeWriter.remainingBytes then
      ((dir.read set.activeBase).drop set.activeWriter.writeOffset).all (· == 0)
    else
      (((dir.read set.activeBase).drop set.activeWriter.writeOffset).take recordHeadSize).all
        (· == 0)

instance (config : SegmentConfig) (dir : Directory) (set : SegmentSet)
    (records : List (List UInt8)) : Decidable (Unsoiled config dir set records) := by
  unfold Unsoiled
  infer_instance

/-- The steps over zeros; a crash leaves only records as they were written. -/
def StepUnsoiled (crc : List UInt8 → UInt32) (config : SegmentConfig) (world : World) :
    CrashStep → Prop
  | .reopen _ => True
  | .append _ records => ∀ set ∈ world.set, Unsoiled config world.dir set records
  | .crash _ records torn =>
      ∀ set ∈ world.set, Unsoiled config world.dir set records ∧
        ∀ offset < config.segmentSize, recordAt crc torn config.segmentSize offset =
            recordAt crc (batchFile crc config world.dir set records) config.segmentSize offset ∨
          recordAt crc torn config.segmentSize offset = none ∨
          offset < writeStart config set records

instance (config : SegmentConfig) (world : World) (label : CrashStep) :
    Decidable (StepUnsoiled crc config world label) := by
  unfold StepUnsoiled
  split <;> infer_instance

theorem zeroFrom_of_drop {file : List UInt8} {start : Nat}
    (zeros : (file.drop start).all (· == 0)) : ZeroFrom file start := by
  intro index byte above found
  obtain ⟨rest, rfl⟩ := Nat.exists_eq_add_of_le above
  rw [← List.getElem?_drop] at found
  exact eq_of_beq (List.all_eq_true.mp zeros byte (List.mem_of_getElem? found))

theorem Unsoiled.batchAllowed {config : SegmentConfig} {dir : Directory} {set : SegmentSet}
    {records : List (List UInt8)} (unsoiled : Unsoiled config dir set records) :
    BatchAllowed crc dir set records := by
  obtain ⟨framable, positions, -, inside, space⟩ := unsoiled
  refine ⟨fun record member => (framable record member).2, positions, fun full => ?_⟩
  rw [if_neg (by omega)] at space
  refine ⟨[], set.activeWriter.writeOffset, .nil _, by simp, .inr ?_⟩
  obtain ⟨head, read⟩ := Option.isSome_iff_exists.mp (readExact_isSome_iff.mpr inside)
  rw [(readExact_eq_some_iff.mp read).2] at space
  exact ⟨head, read, .inl space⟩

theorem stepAllowed_of_unsoiled {config : SegmentConfig} (world : World) (label : CrashStep)
    (unsoiled : StepUnsoiled crc config world label) : StepAllowed crc config world label := by
  cases label with
  | reopen now => trivial
  | append now records =>
      intro set setEq _
      have here := unsoiled set setEq
      refine ⟨here.batchAllowed, fun room => ?_⟩
      obtain ⟨-, -, -, -, space⟩ := here
      rw [if_pos room] at space
      exact ((zeroFrom_of_drop space).mono (Nat.le_add_right _ _)).unmarked
  | crash now records torn =>
      intro set setEq _
      obtain ⟨here, intact⟩ := unsoiled set setEq
      refine ⟨here.batchAllowed, fun room => ?_, ?_⟩
      · obtain ⟨framable, -, fits, inside, space⟩ := here
        rw [writeStart, if_pos room] at fits
        rw [if_pos room] at space
        have zero := zeroFrom_of_drop space
        rw [batchFile, batchSpace, writeStart, if_pos room, if_pos room]
        refine finishesAlone_batch framable ?_ zero (by omega) fits
        intro stage member
        rwa [List.mem_singleton.mp member]
      · intro offset frame next above read
        have below := (next_le_of_recordAt read).1
        have advanced := (recordAt_advances torn config.segmentSize _ _ _ read).1
        rcases intact offset (by omega) with same | missing | before
        · exact ⟨_, List.mem_cons_self, same ▸ read⟩
        · rw [missing] at read
          cases read
        · omega

/-- The file a crash leaves when the record of the second batch lost its head. -/
def headlessFile : List UInt8 :=
  writeAt
    (writeAt (Shelf.fresh crc32 smallConfig 0 firstPosition).file 64
      (batchBytes crc32 [[1, 2, 3, 4]] 1))
    101 ([5, 6, 7, 8] ++ markerBytes crc32 2)

/-- A committed batch, a torn one, and a third that rolls the segment over. -/
def headlessSteps : List CrashStep :=
  [.reopen 0, .append 0 [[1, 2, 3, 4]], .crash 0 [[5, 6, 7, 8]] headlessFile, .reopen 0,
    .append 0 [List.replicate 20 9], .reopen 0]

theorem crash_history_recovers_headless :
    ∃ world, Histories.run (step crc32 smallConfig) .initial headlessSteps = some world ∧
      world.committed = [[[1, 2, 3, 4]], [List.replicate 20 9]] ∧
      Recovers crc32 smallConfig world := by
  have computed : (Histories.run (step crc32 smallConfig) .initial headlessSteps).any
      (fun world => decide (world.committed = [[[1, 2, 3, 4]], [List.replicate 20 9]])) =
        true := by
    decide +kernel
  obtain ⟨world, reached, committed⟩ := (Option.any_eq_true _ _).mp computed
  have unsoiled : Histories.Allowed (step crc32 smallConfig) (StepUnsoiled crc32 smallConfig)
      .initial headlessSteps := by
    decide +kernel
  exact ⟨world, reached, of_decide_eq_true committed, crash_history_recovers (by decide)
    (by decide) (unsoiled.imp stepAllowed_of_unsoiled) reached⟩

/-- The file a crash leaves when the second batch lost its marker. -/
def tornFile : List UInt8 :=
  writeAt
    (writeAt (Shelf.fresh crc32 smallConfig 0 firstPosition).file 64
      (batchBytes crc32 [[1, 2, 3, 4]] 1))
    93 (recordBytes crc32 [] [5, 6, 7, 8])

/-- A committed batch, a torn one, and a third that rolls the segment over. -/
def tornSteps : List CrashStep :=
  [.reopen 0, .append 0 [[1, 2, 3, 4]], .crash 0 [[5, 6, 7, 8]] tornFile, .reopen 0,
    .append 0 [List.replicate 20 9]]

/-- The torn record of a sealed segment is counted, and the log does not open. -/
theorem torn_record_is_counted_after_rollover :
    smallConfig.validate = .ok () ∧
      ∃ world, Histories.run (step crc32 smallConfig) .initial tornSteps = some world ∧
        ¬ Recovers crc32 smallConfig world := by
  refine ⟨by decide, ?_⟩
  have failed : (Histories.run (step crc32 smallConfig) .initial tornSteps).any (fun world =>
      decide ((openSet crc32 smallConfig 0 world.dir).1 = .error (.nonContiguous 2 2 3))) =
        true := by
    decide +kernel
  obtain ⟨world, reached, refused⟩ := (Option.any_eq_true _ _).mp failed
  refine ⟨world, reached, fun recovers => ?_⟩
  obtain ⟨set, dir, opened, _⟩ := recovers 0
  rw [opened] at refused
  simp at refused

end CrashHistory

end Log

end Tephra
