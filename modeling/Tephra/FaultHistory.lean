import Tephra.Crc32
import Tephra.FailedAppending
import Tephra.FailingCalls
import Tephra.Histories

/-!
# Failing appends

Histories of a log in which the system calls of an append may fail, the batch
is rolled back by a rewind, and the process may end at any time.  A failed sync
can leave a whole batch with its commit marker in the file, and a failed rewind
can leave the writer out of step with it.  The history theorem says that no
batch that was answered with an error becomes part of the log as long as faults
strike before the sync of a batch and the writer is back in step before the
next one.
-/

namespace Tephra

namespace Log

open ByteImage FrameChain Fallible Positions Seglog SegmentSet

namespace FaultHistory

/-- A step of a history. -/
inductive FaultStep where
  /-- Open the log. -/
  | reopen (now : UInt64)
  /-- Append a batch, with the results of its system calls. -/
  | append (now : UInt64) (sealIo batchIo rewindIo : List IoOutcome)
      (records : List (List UInt8))
  /-- End the process between two appends, leaving the given active file. -/
  | crash (image : List UInt8)
  /-- End the process while a batch is written, leaving the given active file. -/
  | crashAppend (now : UInt64) (records : List (List UInt8)) (image : List UInt8)
deriving DecidableEq, Repr

/-- The files, the running log if there is one, the batches that were acknowledged or in flight
when the process ended, and what the active file has held since it was last made durable. -/
structure World where
  dir : Directory
  set : Option SegmentSet
  submitted : List (List (List UInt8))
  stages : List (List UInt8)
deriving DecidableEq, Repr

/-- An empty directory. -/
def World.initial : World :=
  ⟨[], none, [], []⟩

/-- An image that has the durable bytes of a file. -/
def KeepsDurable (file image : List UInt8) (durable : Nat) : Prop :=
  image.length = file.length ∧ image.take durable = file.take durable

instance (file image : List UInt8) (durable : Nat) :
    Decidable (KeepsDurable file image durable) :=
  inferInstanceAs (Decidable (_ ∧ _))

/-- What the active file has held once an append failed: a new file held zeros before. -/
def stagesAfter (config : SegmentConfig) (stages : List (List UInt8)) (before : SegmentSet)
    (after : LogState) : List (List UInt8) :=
  after.dir.read after.set.activeBase ::
    if after.set.activeBase = before.activeBase then stages
    else [List.replicate config.segmentSize 0]

variable (crc : List UInt8 → UInt32)

/-- One step of a history.  When the process ends, anything may stand behind the durable
bytes of the active file. -/
def step (config : SegmentConfig) (world : World) : FaultStep → Option World
  | .reopen now =>
      match openSet crc config now world.dir with
      | (.ok set, dir) =>
          some ⟨dir, some set, world.submitted,
            if world.stages = [] then [dir.read set.activeBase] else world.stages⟩
      | (.error _, dir) => some ⟨dir, none, world.submitted, world.stages⟩
  | .append now sealIo batchIo rewindIo records =>
      world.set.map fun set =>
        match appendBatch crc ⟨now, sealIo, [], batchIo, rewindIo⟩ records
            ⟨world.dir, set⟩ with
        | (.ok _, after) =>
            ⟨after.dir, some after.set, world.submitted ++ [records],
              [after.dir.read after.set.activeBase]⟩
        | (.error _, after) =>
            ⟨after.dir, some after.set, world.submitted,
              stagesAfter config world.stages set after⟩
  | .crash image =>
      world.set.bind fun set =>
        if KeepsDurable (world.dir.read set.activeBase) image
            set.activeWriter.flushedOffset then
          some ⟨world.dir.write set.activeBase image, none, world.submitted, [image]⟩
        else
          none
  | .crashAppend now records image =>
      world.set.bind fun set =>
        match prepareBatch crc (.quiet now) records ⟨world.dir, set⟩ with
        | (.error _, _) => none
        | (.ok _, after) =>
            if KeepsDurable (after.dir.read after.set.activeBase) image
                after.set.activeWriter.flushedOffset then
              some ⟨after.dir.write after.set.activeBase image, none,
                world.submitted ++ [records], [image]⟩
            else
              none

/-- Opening the log succeeds and yields submitted batches as a whole, in their order. -/
def Genuine (config : SegmentConfig) (world : World) : Prop :=
  ∀ now, ∃ set dir, ∃ batches : List (List (List UInt8)),
    openSet crc config now world.dir = (.ok set, dir) ∧
    readLog crc ⟨dir, set⟩ = .ok (positioned firstPosition batches.flatten) ∧
    batches.Sublist world.submitted

/-- The system calls of a batch fail only before its sync. -/
def SparesSync (batchIo : List IoOutcome) (records : List (List UInt8))
    (highestPosition : Nat) : Prop :=
  ∀ writer : Writer, writer.Clean →
    Writer.SyncSpared crc records highestPosition (writer.withOutcomes batchIo)

/-- The steps after which the log has only submitted batches.  An append starts from a
writer whose earlier batches were rolled back, and its faults strike before the sync.  Of what
failed batches left behind the committed end, nothing completes a committed run behind the batch
or, when a call fails, with a part of it.  What the end of the process leaves is what the
checksum tells from the records that were written. -/
def StepAllowed (config : SegmentConfig) (world : World) : FaultStep → Prop
  | .reopen _ => True
  | .append _ _ batchIo _ records =>
      ∀ set, world.set = some set → Accepted config records →
        set.activeWriter.Clean ∧ BatchAllowed crc world.dir set records ∧
        SparesSync crc batchIo records (set.nextPosition + records.length - 1) ∧
        (batchSize records ≤ set.activeWriter.remainingBytes →
          Unmarked (recordAt crc (world.dir.read set.activeBase) config.segmentSize) IsMarker
            (set.activeWriter.writeOffset + batchSize records) ∧
          (¬ Faultless batchIo →
            PartsUnfinished crc config world.stages (world.dir.read set.activeBase)
              set.activeWriter.writeOffset records (set.nextPosition + records.length - 1)))
  | .crash image =>
      ∀ set, world.set = some set →
        Detects crc config.segmentSize world.stages image set.activeWriter.flushedOffset
  | .crashAppend _ records image =>
      ∀ set, world.set = some set → Accepted config records →
        set.activeWriter.Clean ∧ BatchAllowed crc world.dir set records ∧
        TornAllowed crc config world.dir set records world.stages image

/-- The directory stores a log, a running set stands at its end once its writer is clean, and
nothing that the active file has held completes a committed run behind it. -/
structure Standing (config : SegmentConfig) (world : World) (sealed : List Shelf)
    (active : Shelf) (stop : Nat) : Prop where
  stored : Stored crc config world.dir sealed active stop
  running : ∀ set, world.set = some set → Running config set active stop
  current : active.file ∈ world.stages
  unfinished : Unfinished crc config.segmentSize world.stages stop

/-- The batches of the log are submitted ones. -/
def Holds (config : SegmentConfig) (world : World) : Prop :=
  world = .initial ∨ ∃ sealed active stop, Standing crc config world sealed active stop ∧
    (storedBatches sealed active).Sublist world.submitted

variable {crc}

theorem KeepsDurable.agree {file image : List UInt8} {durable : Nat}
    (keeps : KeepsDurable file image durable) : AgreeOn file image 0 durable := by
  intro index _ below
  have same := congrArg (fun bytes : List UInt8 => bytes[index]?) keeps.2
  simpa [List.getElem?_take, below] using same.symm

theorem KeepsDurable.of_agree {file image : List UInt8} {durable : Nat}
    (lengthEq : image.length = file.length) (agree : AgreeOn file image 0 durable) :
    KeepsDurable file image durable := by
  refine ⟨lengthEq, List.ext_getElem? fun index => ?_⟩
  rw [List.getElem?_take, List.getElem?_take]
  split
  · next below => exact (agree index (Nat.zero_le _) below).symm
  · rfl

theorem Holds.genuine {config : SegmentConfig} {world : World}
    (valid : config.validate = .ok ()) (headerFits : segmentHeaderSize ≤ config.headerSize)
    (holds : Holds crc config world) : Genuine crc config world := by
  intro now
  rcases holds with rfl | ⟨sealed, active, stop, standing, submitted⟩
  · obtain ⟨set, opened, _, _, read⟩ := openSet_empty crc valid headerFits now
    exact ⟨set, _, [], opened, read, List.Sublist.refl _⟩
  · obtain ⟨set, opened, _, read⟩ := openSet_stored valid standing.stored now
    refine ⟨set, _, storedBatches sealed active, opened, ?_, submitted⟩
    rw [read, flatten_storedBatches]

theorem unfinished_durable {config : SegmentConfig} {dir : Directory} {sealed : List Shelf}
    {active : Shelf} {stop : Nat} (stored : Stored crc config dir sealed active stop) :
    Unfinished crc config.segmentSize [active.file] stop := by
  obtain ⟨entries, longest, _⟩ := stored.active_ok.recovered
  exact unfinished_of_zeros (by simp) longest.longest

theorem holds_reopen {config : SegmentConfig} {world next : World} {now : UInt64}
    (valid : config.validate = .ok ()) (headerFits : segmentHeaderSize ≤ config.headerSize)
    (holds : Holds crc config world)
    (taken : step crc config world (.reopen now) = some next) : Holds crc config next := by
  rcases holds with rfl | ⟨sealed, active, stop, standing, submitted⟩
  · obtain ⟨set, opened, stored, live, _⟩ := openSet_empty crc valid headerFits now
    simp only [step, World.initial, opened, if_pos, Option.some.injEq] at taken
    subst taken
    rw [live.activeBase_eq, stored.read_active]
    refine .inr ⟨_, _, _, ⟨stored, ?_, List.mem_cons_self, unfinished_durable stored⟩,
      List.Sublist.refl _⟩
    rintro set' ⟨⟩
    exact live.running
  · obtain ⟨set, opened, live, _⟩ := openSet_stored valid standing.stored now
    simp only [step, opened, if_neg (List.ne_nil_of_mem standing.current),
      Option.some.injEq] at taken
    subst taken
    refine .inr ⟨sealed, active, stop, { standing with running := ?_ }, submitted⟩
    rintro set' ⟨⟩
    exact live.running

theorem Standing.crash {config : SegmentConfig} {world next : World} {image : List UInt8}
    {sealed : List Shelf} {active : Shelf} {stop : Nat}
    (headerFits : segmentHeaderSize ≤ config.headerSize)
    (standing : Standing crc config world sealed active stop)
    (allowed : StepAllowed crc config world (.crash image))
    (taken : step crc config world (.crash image) = some next) :
    Standing crc config next sealed (active.withFile image) stop ∧
      next.submitted = world.submitted := by
  have stored := standing.stored
  obtain ⟨set, setEq, taken⟩ := Option.bind_eq_some_iff.mp taken
  have isRunning := standing.running set setEq
  have detects := allowed set setEq
  rw [isRunning.flushedOffset_eq] at detects taken
  rw [isRunning.activeBase_eq, stored.read_active, stored.write_active] at taken
  have clear := standing.unfinished.unmarked detects
  split at taken
  · next keeps =>
      obtain rfl := (Option.some.inj taken).symm
      have stored' := stored.replaceTail headerFits keeps.agree clear
      exact ⟨⟨stored', by simp, List.mem_cons_self, unfinished_durable stored'⟩, rfl⟩
  · cases taken

theorem holds_crash {config : SegmentConfig} {world next : World} {image : List UInt8}
    (headerFits : segmentHeaderSize ≤ config.headerSize) (holds : Holds crc config world)
    (allowed : StepAllowed crc config world (.crash image))
    (taken : step crc config world (.crash image) = some next) : Holds crc config next := by
  rcases holds with rfl | ⟨sealed, active, stop, standing, submitted⟩
  · simp [step, World.initial] at taken
  · obtain ⟨standing', submittedEq⟩ := standing.crash headerFits allowed taken
    refine .inr ⟨sealed, _, stop, standing', ?_⟩
    rwa [storedBatches_withFile, submittedEq]

/-- A failed append left the files, the positions and the committed end as they were. -/
theorem Standing.untouched {config : SegmentConfig} {world : World} {sealed : List Shelf}
    {active : Shelf} {stop : Nat} {set : SegmentSet} {after : LogState}
    (standing : Standing crc config world sealed active stop)
    (dirEq : after.dir = world.dir) (before : set.activeBase = active.base)
    (running : Running config after.set active stop) :
    Standing crc config
      ⟨after.dir, some after.set, world.submitted, stagesAfter config world.stages set after⟩
      sealed active stop := by
  have sameFile : after.dir.read after.set.activeBase = active.file := by
    rw [dirEq, running.activeBase_eq, standing.stored.read_active]
  rw [stagesAfter, sameFile, before, if_pos running.activeBase_eq]
  refine ⟨?_, ?_, List.mem_cons_self, ?_⟩
  · rw [dirEq]
    exact standing.stored
  · rintro set' ⟨⟩
    exact running
  · apply standing.unfinished.mono
    exact List.cons_subset.mpr ⟨standing.current, List.Subset.refl _⟩

/-- Where a batch may be written, no part of it completes anything. -/
theorem Standing.partsUnfinished {config : SegmentConfig} {world : World}
    {sealed sealed' : List Shelf} {active active' : Shelf} {stop stop' : Nat} {set : SegmentSet}
    {env : AppendEnv} {records : List (List UInt8)} {after : LogState}
    (standing : Standing crc config world sealed active stop)
    (headerFits : segmentHeaderSize ≤ config.headerSize)
    (prepared : Prepared crc config env records sealed active stop sealed' active' stop' after)
    (framable : Framable records) (live : Live config set active stop)
    (inPlace : batchSize records ≤ set.activeWriter.remainingBytes →
      PartsUnfinished crc config world.stages (world.dir.read set.activeBase)
        set.activeWriter.writeOffset records (set.nextPosition + records.length - 1)) :
    PartsUnfinished crc config
      (if active'.base = active.base then world.stages
        else [List.replicate config.segmentSize 0])
      active'.file stop' records (active'.nextBase + records.length - 1) := by
  rcases prepared.place with ⟨rfl, rfl, rfl⟩ | ⟨_, rfl, rfl, rfl⟩
  · have fits := prepared.fits
    have remaining := live.remainingBytes_eq
    have unfinished := inPlace (by omega)
    rw [if_pos rfl]
    rwa [live.activeBase_eq, standing.stored.read_active, live.writeOffset_eq,
      live.nextPosition_eq] at unfinished
  · have nonempty := List.length_pos_of_ne_nil
      (prepared.stored.sealed_ok active (by simp)).nonempty
    have later : (Shelf.fresh crc config env.now active.nextBase).base ≠ active.base := by
      simp only [Shelf.fresh, Shelf.nextBase]
      omega
    rw [if_neg later]
    refine partsUnfinished_of_zeros ?_ (Shelf.zeroFrom_fresh env.now _ headerFits)
      prepared.stored.active_ok.inside framable prepared.fits
    intro stage member
    rw [List.mem_singleton.mp member]
    exact zeroFrom_replicate _ _

theorem standing_acknowledged {config : SegmentConfig} {submitted : List (List (List UInt8))}
    {sealed : List Shelf} {active : Shelf} {stop : Nat} {after : LogState}
    (stored : Stored crc config after.dir sealed active stop)
    (live : Live config after.set active stop) :
    Standing crc config
      ⟨after.dir, some after.set, submitted, [after.dir.read after.set.activeBase]⟩
      sealed active stop := by
  rw [live.activeBase_eq, stored.read_active]
  refine ⟨stored, ?_, List.mem_cons_self, unfinished_durable stored⟩
  rintro set' ⟨⟩
  exact live.running

/-- An append leaves the log with the batch behind it, or it fails and leaves the log. -/
theorem Standing.append {config : SegmentConfig} {world next : World} {now : UInt64}
    {sealIo batchIo rewindIo : List IoOutcome} {records : List (List UInt8)}
    {sealed : List Shelf} {active : Shelf} {stop : Nat}
    (valid : config.validate = .ok ()) (headerFits : segmentHeaderSize ≤ config.headerSize)
    (standing : Standing crc config world sealed active stop)
    (allowed : StepAllowed crc config world (.append now sealIo batchIo rewindIo records))
    (taken : step crc config world (.append now sealIo batchIo rewindIo records) = some next) :
    ∃ sealed' active' stop' more, Standing crc config next sealed' active' stop' ∧
      storedBatches sealed' active' = storedBatches sealed active ++ more ∧
      next.submitted = world.submitted ++ more := by
  have stored := standing.stored
  obtain ⟨set, setEq, rfl⟩ := Option.map_eq_some_iff.mp taken
  have isRunning := standing.running set setEq
  by_cases accepted : Accepted config records
  swap
  · obtain ⟨error, result⟩ := appendBatch_rejected crc ⟨now, sealIo, [], batchIo, rewindIo⟩
      ⟨world.dir, set⟩ isRunning.config_eq accepted
    rw [result]
    exact ⟨sealed, active, stop, [], standing.untouched rfl isRunning.activeBase_eq isRunning,
      by simp⟩
  obtain ⟨clean, batchAllowed, sparesSync, inPlace⟩ := allowed set setEq accepted
  have live := isRunning.live clean
  rcases prepareBatch_allowed ⟨now, sealIo, [], batchIo, rewindIo⟩ valid headerFits stored live
    (fun _ => .inr faultless_nil) accepted batchAllowed with
    ⟨error, after, result, _, dirEq, live'⟩ | ⟨sealed', active', stop', after, result, prepared⟩
  · -- The rollover failed: the log is as it was.
    rw [appendBatch, Op.bind_apply_error result]
    exact ⟨sealed, active, stop, [],
      standing.untouched dirEq live.activeBase_eq live'.running, by simp⟩
  obtain ⟨roomy, _, maxEq⟩ := SegmentConfig.validate_ok valid
  have positionFits := batchAllowed.positions
  have framable := accepted.framable batchAllowed.encodable
  rw [live.nextPosition_eq, ← prepared.nextBase_eq] at positionFits sparesSync
  have clear := prepared.clear headerFits (Nat.le_of_lt roomy) stored live
    fun room => (inPlace room).1
  have appended : storedBatches sealed' (active'.withBatch crc stop' records) =
      storedBatches sealed active ++ [records] := by
    rw [storedBatches_withBatch, prepared.batches_eq]
  by_cases faultless : Faultless batchIo
  · obtain ⟨final, written, stored', live'⟩ := writeRecords_stored
      ⟨now, sealIo, [], batchIo, rewindIo⟩ prepared.stored prepared.live headerFits faultless
      accepted.nonempty framable
      (fun record member => by
        rw [prepared.live.maxRecord_eq, maxEq]
        exact accepted.short_records record member)
      prepared.fits positionFits clear
    rw [appendBatch, Op.bind_apply_ok result, written]
    exact ⟨_, _, _, [records], standing_acknowledged stored' live', appended, rfl⟩
  have unfinished := standing.partsUnfinished headerFits prepared framable live
    fun room => (inPlace room).2 faultless
  have cleanAfter := clean_of_live prepared.live []
  rcases writeRecords_cases ⟨now, sealIo, [], batchIo, rewindIo⟩ prepared.stored prepared.live
    headerFits accepted.nonempty framable prepared.fits positionFits
    (sparesSync _ ⟨cleanAfter.buf_nil, cleanAfter.cursor_eq⟩) clear unfinished with
    ⟨range, final, written, stored', live'⟩ |
    ⟨error, final, file, failed, ⟨count, countLe, fileEq⟩, stored', running'⟩
  · rw [appendBatch, Op.bind_apply_ok result, written]
    exact ⟨_, _, _, [records], standing_acknowledged stored' live', appended, rfl⟩
  · rw [appendBatch, Op.bind_apply_ok result, failed]
    refine ⟨sealed', active'.withFile file, stop', [], ⟨stored', ?_, ?_, ?_⟩, ?_, by simp⟩
    · rintro set' ⟨⟩
      exact running'
    · dsimp only
      rw [stagesAfter, running'.activeBase_eq, stored'.read_active]
      exact List.mem_cons_self
    · dsimp only
      rw [stagesAfter, running'.activeBase_eq, stored'.read_active, live.activeBase_eq]
      have part := unfinished count countLe
      rw [← fileEq] at part
      exact part
    · rw [storedBatches_withFile, prepared.batches_eq, List.append_nil]

theorem holds_append {config : SegmentConfig} {world next : World} {now : UInt64}
    {sealIo batchIo rewindIo : List IoOutcome} {records : List (List UInt8)}
    (valid : config.validate = .ok ()) (headerFits : segmentHeaderSize ≤ config.headerSize)
    (holds : Holds crc config world)
    (allowed : StepAllowed crc config world (.append now sealIo batchIo rewindIo records))
    (taken : step crc config world (.append now sealIo batchIo rewindIo records) = some next) :
    Holds crc config next := by
  rcases holds with rfl | ⟨sealed, active, stop, standing, submitted⟩
  · simp [step, World.initial] at taken
  obtain ⟨sealed', active', stop', more, standing', batchesEq, submittedEq⟩ :=
    standing.append valid headerFits allowed taken
  refine .inr ⟨sealed', active', stop', standing', ?_⟩
  rw [batchesEq, submittedEq]
  exact submitted.append_right more

/-- While a batch is written the end of the process leaves the whole batch, or nothing of it. -/
theorem Standing.crashAppend {config : SegmentConfig} {world next : World} {now : UInt64}
    {records : List (List UInt8)} {image : List UInt8} {sealed : List Shelf} {active : Shelf}
    {stop : Nat} {set : SegmentSet} (valid : config.validate = .ok ())
    (headerFits : segmentHeaderSize ≤ config.headerSize)
    (standing : Standing crc config world sealed active stop) (setEq : world.set = some set)
    (allowed : StepAllowed crc config world (.crashAppend now records image))
    (taken : step crc config world (.crashAppend now records image) = some next) :
    (∃ sealed' active' stop', Standing crc config next sealed' active' stop' ∧
      storedBatches sealed' active' = storedBatches sealed active ++
        if readExact image (writeStart config set records) (batchSize records) =
            some (batchOf crc set records) then
          [records]
        else
          []) ∧ next.submitted = world.submitted ++ [records] := by
  have stored := standing.stored
  rw [step, setEq, Option.bind_some] at taken
  have isRunning := standing.running set setEq
  by_cases accepted : Accepted config records
  swap
  · obtain ⟨error, result⟩ := prepareBatch_rejected crc (.quiet now) ⟨world.dir, set⟩
      isRunning.config_eq accepted
    simp [result] at taken
  obtain ⟨clean, batchAllowed, tornAllowed⟩ := allowed set setEq accepted
  have live := isRunning.live clean
  obtain ⟨sealed', active', stop', after, result, prepared⟩ :=
    prepared_of_allowed now valid headerFits stored live accepted batchAllowed
  have stopEq := prepared.start_eq live stored.active_ok.stop_le accepted
  obtain ⟨roomy, _, _⟩ := SegmentConfig.validate_ok valid
  have framable := accepted.framable batchAllowed.encodable
  have clear := tornAllowed.unmarked framable
    (inside_batchSpace records (Nat.le_of_lt roomy) stored live) (stopEq ▸ prepared.fits)
  simp only [result, prepared.live.activeBase_eq, prepared.stored.read_active,
    prepared.stored.write_active, prepared.live.flushedOffset_eq] at taken
  rw [← stopEq] at clear ⊢
  split at taken
  swap
  · cases taken
  next keeps =>
  have positionFits := batchAllowed.positions
  rw [live.nextPosition_eq, ← prepared.nextBase_eq] at positionFits
  obtain rfl := (Option.some.inj taken).symm
  by_cases complete : readExact image stop' (batchSize records) =
      some (batchOf crc set records)
  · rw [if_pos complete] at clear ⊢
    rw [batchOf, live.nextPosition_eq, ← prepared.nextBase_eq] at complete
    have stored' := prepared.stored.extendTail headerFits accepted.nonempty framable
      prepared.fits positionFits keeps.agree complete clear
    refine ⟨⟨sealed', _, _, ⟨stored', by simp, List.mem_cons_self,
      unfinished_durable stored'⟩, ?_⟩, rfl⟩
    rw [storedBatches_snoc, prepared.batches_eq]
  · rw [if_neg complete] at clear ⊢
    have stored' := prepared.stored.replaceTail headerFits keeps.agree clear
    refine ⟨⟨sealed', _, stop', ⟨stored', by simp, List.mem_cons_self,
      unfinished_durable stored'⟩, ?_⟩, rfl⟩
    rw [storedBatches_withFile, prepared.batches_eq, List.append_nil]

theorem holds_crashAppend {config : SegmentConfig} {world next : World} {now : UInt64}
    {records : List (List UInt8)} {image : List UInt8} (valid : config.validate = .ok ())
    (headerFits : segmentHeaderSize ≤ config.headerSize) (holds : Holds crc config world)
    (allowed : StepAllowed crc config world (.crashAppend now records image))
    (taken : step crc config world (.crashAppend now records image) = some next) :
    Holds crc config next := by
  rcases holds with rfl | ⟨sealed, active, stop, standing, submitted⟩
  · simp [step, World.initial] at taken
  obtain ⟨set, setEq, _⟩ := Option.bind_eq_some_iff.mp taken
  obtain ⟨⟨sealed', active', stop', standing', batchesEq⟩, submittedEq⟩ :=
    standing.crashAppend valid headerFits setEq allowed taken
  refine .inr ⟨sealed', active', stop', standing', ?_⟩
  rw [batchesEq, submittedEq]
  split
  · exact submitted.append_right [records]
  · rw [List.append_nil]
    exact submitted.trans (List.sublist_append_left _ _)

/-- After every history of allowed steps the log opens and has only batches that were
acknowledged or in flight when the process ended, each as a whole. -/
theorem fault_history_genuine {config : SegmentConfig} {steps : List FaultStep}
    {world : World} (valid : config.validate = .ok ())
    (headerFits : segmentHeaderSize ≤ config.headerSize)
    (allowed : Histories.Allowed (step crc config) (StepAllowed crc config) .initial steps)
    (reached : Histories.run (step crc config) .initial steps = some world) :
    Genuine crc config world := by
  have kept : ∀ world label next, Holds crc config world →
      StepAllowed crc config world label → step crc config world label = some next →
      Holds crc config next := by
    intro world label next holds allowed taken
    cases label with
    | reopen now => exact holds_reopen valid headerFits holds taken
    | append now sealIo batchIo rewindIo records =>
        exact holds_append valid headerFits holds allowed taken
    | crash image => exact holds_crash headerFits holds allowed taken
    | crashAppend now records image =>
        exact holds_crashAppend valid headerFits holds allowed taken
  exact Holds.genuine valid headerFits
    (Histories.invariant_of_run kept (.inl rfl) allowed reached)

/-- A segment with room for records that do not fit the write buffer. -/
def roomyConfig : SegmentConfig :=
  ⟨65536, 32768, 64⟩

/-- The active file once a first batch was acknowledged. -/
def keptImage : List UInt8 :=
  ((Shelf.fresh crc32 roomyConfig 0 firstPosition).withBatch crc32 64 [[1, 2, 3, 4]]).file

/-- A batch is acknowledged, the first write of the next one fails, the process ends, and the
log is opened again. -/
def failedWriteSteps : List FaultStep :=
  [.reopen 0, .append 0 [] [] [] [[1, 2, 3, 4]], .append 0 [] [.fail 0] [] [largeRecord],
    .crash keptImage, .reopen 0]

/-- A record that does not fit the write buffer is not handed over without a system call. -/
theorem largeRecord_refused {self : Writer} (empty : self.writer.buf = []) (position : Nat) :
    ∃ error after, Writer.handOver crc [largeRecord] position
      (self.withOutcomes [.fail 0]) = (.error error, after) := by
  obtain ⟨error, after, failed⟩ := Writer.append_large_error crc (self.withOutcomes [.fail 0])
    largeRecord empty (by rw [length_largeRecord]; decide) rfl
  refine ⟨error, after, ?_⟩
  rw [Writer.handOver, Writer.appendRecords, Op.bind_apply_error (Op.bind_apply_error failed)]

theorem step_append_ok {config : SegmentConfig} {world : World} {set : SegmentSet}
    {now : UInt64} {sealIo batchIo rewindIo : List IoOutcome} {records : List (List UInt8)}
    {range : Nat × Nat} {after : LogState} (running : world.set = some set)
    (appended : appendBatch crc ⟨now, sealIo, [], batchIo, rewindIo⟩ records ⟨world.dir, set⟩ =
      (.ok range, after)) :
    step crc config world (.append now sealIo batchIo rewindIo records) =
      some ⟨after.dir, some after.set, world.submitted ++ [records],
        [after.dir.read after.set.activeBase]⟩ := by
  rw [step, running, Option.map_some, appended]

theorem step_append_error {config : SegmentConfig} {world : World} {set : SegmentSet}
    {now : UInt64} {sealIo batchIo rewindIo : List IoOutcome} {records : List (List UInt8)}
    {error : LogError} {after : LogState} (running : world.set = some set)
    (failed : appendBatch crc ⟨now, sealIo, [], batchIo, rewindIo⟩ records ⟨world.dir, set⟩ =
      (.error error, after)) :
    step crc config world (.append now sealIo batchIo rewindIo records) =
      some ⟨after.dir, some after.set, world.submitted,
        stagesAfter config world.stages set after⟩ := by
  rw [step, running, Option.map_some, failed]

theorem appendAllowed_of_zeros {config : SegmentConfig} {world : World} {set : SegmentSet}
    {active : Shelf} {stop : Nat} {now : UInt64} {sealed : List Shelf}
    {sealIo batchIo rewindIo : List IoOutcome} {records : List (List UInt8)}
    (running : world.set = some set) (stored : Stored crc config world.dir sealed active stop)
    (live : Live config set active stop)
    (zero : ZeroFrom active.file stop) (older : ∀ stage ∈ world.stages, ZeroFrom stage stop)
    (framable : Framable records) (fits : stop + batchSize records ≤ config.segmentSize)
    (positions : active.nextBase + records.length ≤ 2 ^ 64)
    (spares : SparesSync crc batchIo records (active.nextBase + records.length - 1)) :
    StepAllowed crc config world (.append now sealIo batchIo rewindIo records) := by
  rintro set' setEq -
  obtain rfl : set = set' := by simpa [running] using setEq
  have clean := clean_of_live live []
  have remaining := live.remainingBytes_eq
  refine ⟨⟨clean.buf_nil, clean.cursor_eq⟩,
    ⟨fun record member => (framable record member).2, ?_, fun full => ?_⟩, ?_, fun _ => ?_⟩
  · rwa [live.nextPosition_eq]
  · omega
  · rwa [live.nextPosition_eq]
  · rw [live.activeBase_eq, stored.read_active, live.writeOffset_eq, live.nextPosition_eq]
    refine ⟨(zero.mono (Nat.le_add_right _ _)).unmarked, fun _ => ?_⟩
    exact partsUnfinished_of_zeros older zero stored.active_ok.inside framable fits

theorem first_batch {state : LogState}
    (stored : Stored crc32 roomyConfig state.dir []
      (Shelf.fresh crc32 roomyConfig 0 firstPosition) 64)
    (live : Live roomyConfig state.set (Shelf.fresh crc32 roomyConfig 0 firstPosition) 64) :
    ∃ after, appendBatch crc32 ⟨0, [], [], [], []⟩ [[1, 2, 3, 4]] state = (.ok (1, 1), after) ∧
      Stored crc32 roomyConfig after.dir []
        ((Shelf.fresh crc32 roomyConfig 0 firstPosition).withBatch crc32 64 [[1, 2, 3, 4]]) 93 ∧
      Live roomyConfig after.set
        ((Shelf.fresh crc32 roomyConfig 0 firstPosition).withBatch crc32 64 [[1, 2, 3, 4]])
        93 := by
  have accepted : Accepted roomyConfig [[1, 2, 3, 4]] :=
    ⟨by decide, by decide, by decide, by decide⟩
  have prepared := prepareBatch_inPlace crc32 ⟨0, [], [], [], []⟩ state live.config_eq accepted
    (by rw [live.remainingBytes_eq]; decide)
  obtain ⟨after, written, stored', live'⟩ := writeRecords_stored ⟨0, [], [], [], []⟩ stored live
    (by decide) faultless_nil accepted.nonempty (by simp [Framable, maxRecordLen, lengthMask])
    (fun record member => by
      rw [live.maxRecord_eq]
      exact accepted.short_records record member)
    (by decide) (by decide)
    (Shelf.clear_fresh 0 firstPosition (by decide) (by decide) [[1, 2, 3, 4]])
  refine ⟨after, ?_, stored', live'⟩
  rw [appendBatch, Op.bind_apply_ok prepared, written]
  rfl

theorem batchSize_largeRecord : batchSize [largeRecord] = 16409 := by
  rw [batchSize, List.map_cons, length_largeRecord]
  rfl

theorem accepted_largeRecord : Accepted roomyConfig [largeRecord] := by
  have large : ∀ record ∈ [largeRecord], record.length = 16384 := by
    intro record member
    rw [List.mem_singleton.mp member, length_largeRecord]
  refine ⟨by simp, fun record member => ?_, fun record member => ?_, ?_⟩
  · rw [large record member]
    decide
  · rw [large record member]
    decide
  · rw [batchSize_largeRecord]
    decide

theorem framable_largeRecord : Framable [largeRecord] := by
  refine accepted_largeRecord.framable fun record member => ?_
  rw [List.mem_singleton.mp member, length_largeRecord]
  decide

theorem sparesSync_largeRecord (position : Nat) :
    SparesSync crc [.fail 0] [largeRecord] position := by
  intro writer clean written handed result
  obtain ⟨error, after, refused⟩ := @largeRecord_refused crc _ clean.buf_nil position
  rw [refused] at result
  cases result

/-- The next batch fails at its first write and leaves the log as it was. -/
theorem failed_write {state : LogState} {active : Shelf}
    (stored : Stored crc32 roomyConfig state.dir [] active 93)
    (live : Live roomyConfig state.set active 93) (zero : ZeroFrom active.file 93)
    (sized : active.file.length = roomyConfig.segmentSize)
    (positions : active.nextBase + 1 ≤ 2 ^ 64) :
    ∃ error after file, appendBatch crc32 ⟨0, [], [], [.fail 0], []⟩ [largeRecord] state =
        (.error error, after) ∧
      Stored crc32 roomyConfig after.dir [] (active.withFile file) 93 ∧
      Running roomyConfig after.set (active.withFile file) 93 ∧
      KeepsDurable file active.file 93 := by
  have fits : 93 + batchSize [largeRecord] ≤ roomyConfig.segmentSize := by
    rw [batchSize_largeRecord]
    decide
  have prepared := prepareBatch_inPlace crc32 ⟨0, [], [], [.fail 0], []⟩ state live.config_eq
    accepted_largeRecord (by rw [live.remainingBytes_eq, batchSize_largeRecord]; decide)
  have empty : state.set.activeWriter.writer.buf = [] := (clean_of_live live []).buf_nil
  obtain ⟨refusal, stuck, refused⟩ := @largeRecord_refused crc32 _ empty active.nextBase
  have failed := onWriter_eq stored live.activeBase_eq (Writer.writeBatch_error refused)
  rw [← live.nextPosition_eq] at failed
  obtain ⟨error, stepped⟩ := @writeRecords_error crc32 state _ _ ⟨0, [], [], [.fail 0], []⟩
    [largeRecord] _ failed rfl
  have inside := stored.active_ok.inside
  have behind := Shelf.zeroFrom_withBatch crc32 zero inside [largeRecord]
  have unfinished : PartsUnfinished crc32 roomyConfig [] active.file 93 [largeRecord]
      active.nextBase :=
    partsUnfinished_of_zeros (by simp) zero inside framable_largeRecord fits
  rcases writeRecords_cases ⟨0, [], [], [.fail 0], []⟩ stored live (by decide)
    accepted_largeRecord.nonempty framable_largeRecord fits positions
    (sparesSync_largeRecord _ _ ⟨empty, (clean_of_live live []).cursor_eq⟩) behind.unmarked unfinished with
    ⟨range, final, written, _⟩ | ⟨error', final, file, failed', ⟨count, _, rfl⟩, stored', running'⟩
  · rw [stepped] at written
    cases written
  · refine ⟨error', final, _, ?_, stored', running', ?_⟩
    · rw [appendBatch, Op.bind_apply_ok prepared, failed']
    · refine .of_agree ?_ (agreeOn_writeAt_before (Nat.le_refl _) inside 0)
      rw [length_writeAt_of_fits]
      rw [List.length_take, length_batchBytes, sized]
      omega

theorem fault_history_genuine_failed_write :
    ∃ world, Histories.run (step crc32 roomyConfig) .initial failedWriteSteps = some world ∧
      world.submitted = [[[1, 2, 3, 4]]] ∧ Genuine crc32 roomyConfig world := by
  have valid : roomyConfig.validate = .ok () := by decide
  obtain ⟨set, opened, stored, live, _⟩ := openSet_empty crc32 valid (by decide) 0
  have zero : ZeroFrom (Shelf.fresh crc32 roomyConfig 0 firstPosition).file 64 :=
    Shelf.zeroFrom_fresh 0 firstPosition (by decide)
  have inside := stored.active_ok.inside
  have first : step crc32 roomyConfig .initial (.reopen 0) =
      some ⟨[(Shelf.fresh crc32 roomyConfig 0 firstPosition).entry], some set, [],
        [(Shelf.fresh crc32 roomyConfig 0 firstPosition).file]⟩ := by
    rw [step, World.initial]
    simp only [opened]
    rw [if_pos trivial, live.activeBase_eq, stored.read_active]
  have firstAllowed := @appendAllowed_of_zeros crc32 roomyConfig
    ⟨_, some set, [], [(Shelf.fresh crc32 roomyConfig 0 firstPosition).file]⟩ set _ _ 0 [] [] []
    [] [[1, 2, 3, 4]] rfl stored live zero (List.forall_mem_singleton.mpr zero)
    (by simp [Framable, maxRecordLen, lengthMask]) (by decide) (by decide)
    (fun writer _ => Writer.syncSpared_of_healthy _ _ writer.healthy_withOutcomes_nil)
  obtain ⟨kept, appended, stored, live⟩ := @first_batch ⟨_, set⟩ stored live
  have second := @step_append_ok crc32 roomyConfig
    ⟨_, some set, [], [(Shelf.fresh crc32 roomyConfig 0 firstPosition).file]⟩ set _ _ _ _ _ _ _
    rfl appended
  rw [live.activeBase_eq, stored.read_active] at second
  have zero := Shelf.zeroFrom_withBatch crc32 zero inside [[1, 2, 3, 4]]
  have secondAllowed := @appendAllowed_of_zeros crc32 roomyConfig
    ⟨kept.dir, some kept.set, [[[1, 2, 3, 4]]], [keptImage]⟩ kept.set _ _ 0 _ [] [.fail 0] []
    [largeRecord] rfl stored live zero (List.forall_mem_singleton.mpr zero) framable_largeRecord
    (by rw [batchSize_largeRecord]; decide) (by decide) (sparesSync_largeRecord _)
  have sized : keptImage.length = roomyConfig.segmentSize := by
    have fresh := @Shelf.length_fresh crc32 roomyConfig 0 firstPosition (by decide) (by decide)
    rw [keptImage, Shelf.withBatch, length_writeAt_of_fits, fresh]
    rw [length_batchBytes, fresh]
    decide
  obtain ⟨error, failed, file, refused, stored', running, keeps⟩ :=
    failed_write stored live zero sized (by decide)
  have third := @step_append_error crc32 roomyConfig
    ⟨kept.dir, some kept.set, [[[1, 2, 3, 4]]], [keptImage]⟩ kept.set _ _ _ _ _ _ _ rfl refused
  rw [stagesAfter, running.activeBase_eq, stored'.read_active, live.activeBase_eq] at third
  -- What stays of the file is what it was before the batch that failed.
  have fourth : step crc32 roomyConfig
      ⟨failed.dir, some failed.set, [[[1, 2, 3, 4]]], [file, keptImage]⟩ (.crash keptImage) =
      some ⟨failed.dir.write failed.set.activeBase keptImage, none, [[[1, 2, 3, 4]]],
        [keptImage]⟩ := by
    rw [step, Option.bind_some, if_pos]
    rw [running.activeBase_eq, stored'.read_active, running.flushedOffset_eq]
    exact keeps
  have crashAllowed : StepAllowed crc32 roomyConfig
      ⟨failed.dir, some failed.set, [[[1, 2, 3, 4]]], [file, keptImage]⟩ (.crash keptImage) :=
    fun _ _ => detects_of_mem (by simp)
  obtain ⟨world, fifth, submitted⟩ : ∃ world, step crc32 roomyConfig
      ⟨failed.dir.write failed.set.activeBase keptImage, none, [[[1, 2, 3, 4]]], [keptImage]⟩
      (.reopen 0) = some world ∧ world.submitted = [[[1, 2, 3, 4]]] := by
    rw [step]
    split
    · exact ⟨_, rfl, rfl⟩
    · exact ⟨_, rfl, rfl⟩
  have reached : Histories.run (step crc32 roomyConfig) .initial failedWriteSteps =
      some world :=
    Histories.run_cons first (Histories.run_cons second (Histories.run_cons third
      (Histories.run_cons fourth (Histories.run_cons fifth rfl))))
  refine ⟨world, reached, submitted, fault_history_genuine valid (by decide) ?_ reached⟩
  exact .cons trivial first (.cons firstAllowed second (.cons secondAllowed third
    (.cons crashAllowed fourth (.cons trivial fifth trivial))))

/-- An acknowledged batch, and one whose sync fails. -/
def failedSyncSteps : List FaultStep :=
  [.reopen 0, .append 0 [] [] [] [[1, 2, 3, 4]],
    .append 0 [] [.ok, .fail 0] [] [[5, 6, 7, 8]]]

/-- The batch that was answered with an error is recovered with the acknowledged one. -/
theorem failed_sync_becomes_part_of_log :
    smallConfig.validate = .ok () ∧
      ∃ world : World,
        Histories.run (step crc32 smallConfig) .initial failedSyncSteps = some world ∧
        world.submitted = [[[1, 2, 3, 4]]] ∧ ¬ Genuine crc32 smallConfig world := by
  refine ⟨by decide, ?_⟩
  have checked : (Histories.run (step crc32 smallConfig) .initial failedSyncSteps).any
      (fun world : World =>
        decide (world.submitted = [[[1, 2, 3, 4]]]) &&
          match openSet crc32 smallConfig 0 world.dir with
          | (.ok set, dir) =>
              decide (readLog crc32 ⟨dir, set⟩ = .ok [(1, [1, 2, 3, 4]), (2, [5, 6, 7, 8])])
          | (.error _, _) => false) = true := by
    decide +kernel
  obtain ⟨world, reached, answers⟩ := (Option.any_eq_true _ _).mp checked
  obtain ⟨submittedEq, answers⟩ := Bool.and_eq_true_iff.mp answers
  have submitted := of_decide_eq_true submittedEq
  refine ⟨world, reached, submitted, fun genuine => ?_⟩
  obtain ⟨set, dir, batches, opened, read, sublist⟩ := genuine 0
  rw [opened] at answers
  have recovered := read.symm.trans (of_decide_eq_true answers)
  have positions := congrArg List.length (Except.ok.inj recovered)
  rw [submitted] at sublist
  rcases List.sublist_singleton.mp sublist with rfl | rfl
  · simp [positioned] at positions
  · simp [positioned] at positions

end FaultHistory

end Log

end Tephra
