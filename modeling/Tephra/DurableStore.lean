import Tephra.CrashHistory
import Tephra.LogReadings
import Tephra.StoreAnswers
import Tephra.StoreFiles

/-!
# Appends across crashes

A process opens the files of a log, rebuilds the index, and answers appends; it may end at any
time, also while a batch is written, and another one is started on the files that it leaves.
The system calls of an append may fail.  All answers that clients ever got are those of one
sequential store, and every event that was acknowledged is where the answer said, whatever the
crashes were.  What a crash may add is the batch that was being written, as a whole.
-/

namespace Tephra

namespace Writer.CommitSeam

open ByteImage ConditionalLogs Fallible Log Positions Read Seglog SegmentSource SortedMaps

variable (format : MapFormat)

/-- The segment set with its files, and the writer that runs on it. -/
structure Process where
  files : SegmentSet
  worker : Worker format

/-- The files, the process if there is one, the answers that earlier processes gave, what
became of the log through them, and what the active file has held since it was last made
durable. -/
structure DurableStore where
  dir : Directory
  process : Option (Process format)
  earlier : List (Request × Answer)
  effects : List (Request × Answer)
  stages : List (List UInt8)

inductive StoreStep where
  /-- Start a process.  The events are those that the files hold. -/
  | start (now : UInt64) (cfg : WriterConfig) (indexFiles : Nat → Option (List UInt8))
      (clock : Nat → UInt64) (log : List Event)
  | request (request : Request)
  /-- The batch is appended, with the results of its system calls. -/
  | commit (now : UInt64) (sealIo batchIo rewindIo : List IoOutcome) (createdAtNanos : UInt64)
  /-- The process ends between two appends, leaving the given active file. -/
  | crash (image : List UInt8)
  /-- The process ends while the batch is written. -/
  | crashCommit (now : UInt64) (torn : List UInt8)

variable {format}

/-- The outcome of an append, from the number of sealed segments around it. -/
def outcomeOf (before after : SegmentSet) : Except LogError (Nat × Nat) → AppendOutcome
  | .ok _ => if before.sealed.length < after.sealed.length then .rolledOver else .appended
  | .error error =>
      if before.sealed.length < after.sealed.length then .failedAfter error
      else .failedBefore error

/-- The records of the batch. -/
def Process.records (self : Process format) : List (List UInt8) :=
  self.worker.batch.records.map Event.asBytes

namespace DurableStore

/-- Nothing was ever stored. -/
def empty : DurableStore format :=
  ⟨[], none, [], [], []⟩

/-- The answers of the process that runs. -/
def current (self : DurableStore format) : List (Request × Answer) :=
  match self.process with
  | none => []
  | some process => process.worker.answers

/-- All answers that were given. -/
def answers (self : DurableStore format) : List (Request × Answer) :=
  self.earlier ++ self.current

/-- All answers, and the batches that landed with a crash. -/
def history (self : DurableStore format) : List (Request × Answer) :=
  self.effects ++ self.current

/-- The process ends; it may have landed a batch that nobody was told of. -/
def leave (self : DurableStore format) (process : Process format) (world : FaultHistory.World)
    (landed : List (Request × Answer)) : DurableStore format :=
  ⟨world.dir, none, self.earlier ++ process.worker.answers,
    self.effects ++ process.worker.answers ++ landed, world.stages⟩

/-- The files with the segment set that runs on them. -/
def world (self : DurableStore format) (files : SegmentSet) : FaultHistory.World :=
  ⟨self.dir, some files, [], self.stages⟩

variable (crc : List UInt8 → UInt32) (config : SegmentConfig)

/-- What `append_batch` does with the batch of a process. -/
def append (self : DurableStore format) (process : Process format) (now : UInt64)
    (sealIo batchIo rewindIo : List IoOutcome) : Except LogError (Nat × Nat) × LogState :=
  SegmentSet.appendBatch crc ⟨now, sealIo, [], batchIo, rewindIo⟩ process.records
    ⟨self.dir, process.files⟩

/-- The files are open; what the active one holds is taken to be durable when it is new. -/
def opened (self : DurableStore format) (dir : Directory) (files : SegmentSet) :
    DurableStore format :=
  { self with
    dir := dir
    stages := if self.stages = [] then [dir.read files.activeBase] else self.stages }

/-- What the active file has held once an append is over: a batch that was appended is durable. -/
def stagesAfter (self : DurableStore format) (files : SegmentSet) :
    Except LogError (Nat × Nat) × LogState → List (List UInt8)
  | (.ok _, after) => [after.dir.read after.set.activeBase]
  | (.error _, after) => FaultHistory.stagesAfter config self.stages files after

/-- The whole batch of a process is in the file that a crash left. -/
def Landed (process : Process format) (torn : List UInt8) : Prop :=
  readExact torn (SegmentSet.writeStart config process.files process.records)
      (batchSize process.records) = some (SegmentSet.batchOf crc process.files process.records)

instance (process : Process format) (torn : List UInt8) :
    Decidable (Landed crc config process torn) :=
  inferInstanceAs (Decidable (_ = _))

def step (self : DurableStore format) : StoreStep → Option (DurableStore format)
  | .start now cfg indexFiles clock log =>
      match self.process with
      | some _ => none
      | none =>
          match SegmentSet.openSet crc config now self.dir with
          | (.error _, dir) => some { self with dir := dir }
          | (.ok files, dir) =>
              if SegmentSet.readLog crc ⟨dir, files⟩ =
                  .ok (positioned firstPosition (log.map Event.asBytes)) then
                let set := SegmentedLog.ofFiles files log
                match Index.IndexSet.open_ format crc indexFiles clock set with
                | none => none
                | some (.error _) => some (self.opened dir files)
                | some (.ok index) =>
                    some { self.opened dir files with
                      process := some ⟨files, Worker.start cfg set index⟩ }
              else
                none
  | .request request =>
      self.process.bind fun process =>
        (process.worker.step crc (.request request)).map fun worker =>
          { self with process := some ⟨process.files, worker⟩ }
  | .commit now sealIo batchIo rewindIo createdAtNanos =>
      self.process.bind fun process =>
        if process.worker.batch.records = [] then
          (process.worker.step crc (.commit .appended createdAtNanos)).map fun worker =>
            { self with process := some ⟨process.files, worker⟩ }
        else
          match self.append crc process now sealIo batchIo rewindIo with
          | (result, after) =>
              (process.worker.step crc
                  (.commit (outcomeOf process.files after.set result) createdAtNanos)).map
                fun worker =>
                  { self with
                    dir := after.dir
                    process := some ⟨after.set, worker⟩
                    stages := self.stagesAfter config process.files (result, after) }
  | .crash image =>
      self.process.bind fun process =>
        (FaultHistory.step crc config (self.world process.files) (.crash image)).map
          fun world => self.leave process world []
  | .crashCommit now torn =>
      self.process.bind fun process =>
        (FaultHistory.step crc config (self.world process.files)
            (.crashAppend now process.records torn)).map fun world =>
          self.leave process world
            (if Landed crc config process torn then process.worker.batch.commitOk else [])

/-- What is asked of a step.  The events are encodable, an index file of a sealed segment is not
that of other events, and the conditional requests are shown what was staged.  No leftover bytes
complete a committed run, the faults of an append strike before its sync, and the writer is back
in step with its file when a batch is written. -/
def StepAllowed (self : DurableStore format) : StoreStep → Prop
  | .start now _ indexFiles _ log =>
      (∀ event ∈ log, event.Encodable) ∧
        ∀ files dir, SegmentSet.openSet crc config now self.dir = (.ok files, dir) →
          ∀ segment ∈ (SegmentedLog.ofFiles files log).sealed,
            Index.FileFits format crc indexFiles segment
  | .request request =>
      (∀ event ∈ request.events, event.Encodable) ∧
        ∀ process, self.process = some process →
          process.worker.StepAllowed (.request request) ∧ process.worker.Shown (.request request)
  | .commit now sealIo batchIo rewindIo createdAtNanos =>
      ∀ process, self.process = some process →
        FaultHistory.StepAllowed crc config (self.world process.files)
            (.append now sealIo batchIo rewindIo process.records) ∧
          ∀ result after, self.append crc process now sealIo batchIo rewindIo = (result, after) →
            process.worker.StepAllowed
              (.commit (outcomeOf process.files after.set result) createdAtNanos)
  | .crash image =>
      ∀ process, self.process = some process →
        FaultHistory.StepAllowed crc config (self.world process.files) (.crash image)
  | .crashCommit now torn =>
      ∀ process, self.process = some process →
        FaultHistory.StepAllowed crc config (self.world process.files)
          (.crashAppend now process.records torn)

/-- Opening the files yields the log. -/
def Recovers (self : DurableStore format) (log : List Event) : Prop :=
  ∀ now, ∃ files dir, SegmentSet.openSet crc config now self.dir = (.ok files, dir) ∧
    SegmentSet.readLog crc ⟨dir, files⟩ =
      .ok (positioned firstPosition (log.map Event.asBytes))

/-- The files store the log, and a segment set that runs on them stands at its end. -/
def Filed (dir : Directory) (running : Option SegmentSet) (stages : List (List UInt8))
    (log : List Event) : Prop :=
  (dir = [] ∧ running = none ∧ stages = [] ∧ log = []) ∨
    ∃ sealed active stop,
      FaultHistory.Standing crc config ⟨dir, running, [], stages⟩ sealed active stop ∧
      log.map Event.asBytes = storedRecords sealed active

end DurableStore

/-- A process that works with the log in its files, and with events that can be encoded. -/
structure Process.Attached (process : Process format) (first log : List Event) : Prop where
  replaying : process.worker.Replaying first
  events_eq : process.worker.set.events = log
  matched : Matches process.worker.set process.files
  encodable : ∀ event ∈ process.worker.batch.records, event.Encodable

namespace DurableStore

variable (crc : List UInt8 → UInt32) (config : SegmentConfig)

/-- The files store the log, and it is what the answers replay to. -/
structure Kept (log : List Event) (store' : DurableStore format) : Prop where
  filed : Filed crc config store'.dir (store'.process.map Process.files) store'.stages log
  encodable : ∀ event ∈ log, event.Encodable
  room : firstPosition + log.length ≤ maxPosition
  earlier : store'.earlier.Sublist store'.effects
  replays : ∃ first, store.Replays [] (answered store'.effects) first ∧
    (store'.process = none → first = log) ∧
      ∀ process, store'.process = some process → process.Attached first log

variable {crc config} {self next : DurableStore format} {log : List Event}

theorem kept_empty : Kept crc config [] (empty : DurableStore format) where
  filed := .inl ⟨rfl, rfl, rfl, rfl⟩
  encodable := by simp
  room := by decide
  earlier := .refl _
  replays := ⟨[], .nil [], fun _ => rfl, by simp [empty]⟩

theorem Kept.replays_history (kept : Kept crc config log self) :
    store.Replays [] (answered self.history) log := by
  obtain ⟨first, replays, stopped, attached⟩ := kept.replays
  cases running : self.process with
  | none =>
      obtain rfl := stopped running
      rw [DurableStore.history, current, running]
      simpa using replays
  | some process =>
      have here := attached process running
      have durable := here.replaying.durable
      rw [here.events_eq] at durable
      rw [DurableStore.history, current, running, answered_append]
      exact replays.append durable

theorem Filed.opens {dir : Directory} {running : Option SegmentSet}
    {stages : List (List UInt8)} (valid : config.validate = .ok ())
    (headerFits : segmentHeaderSize ≤ config.headerSize)
    (filed : Filed crc config dir running stages log) (now : UInt64) :
    ∃ files after sealed active stop,
      SegmentSet.openSet crc config now dir = (.ok files, after) ∧
      Stored crc config after sealed active stop ∧ Live config files active stop ∧
      List.Forall₂ Shelved files.sealed sealed ∧ Shelved files.active active ∧
      log.map Event.asBytes = storedRecords sealed active ∧
      SegmentSet.readLog crc ⟨after, files⟩ =
        .ok (positioned firstPosition (log.map Event.asBytes)) ∧
      ∀ running, (∀ other, running = some other → other = files) →
        Filed crc config after running
          (if stages = [] then [after.read files.activeBase] else stages) log := by
  rcases filed with ⟨rfl, -, rfl, rfl⟩ | ⟨sealed, active, stop, standing, encoded⟩
  · obtain ⟨files, opened, stored, live, read⟩ := SegmentSet.openSet_empty crc valid headerFits now
    have same := SegmentSet.openSet_empty_eq crc valid now
    rw [opened] at same
    obtain rfl := Except.ok.inj (Prod.mk.inj same).1
    refine ⟨_, _, _, _, _, opened, stored, live, .nil, ⟨rfl, rfl⟩, rfl, read,
      fun running here => .inr ⟨_, _, _, ⟨stored, ?_, ?_, ?_⟩, rfl⟩⟩
    · intro other given
      rw [here other given]
      exact live.running
    · dsimp only
      rw [if_pos rfl]
      exact List.mem_singleton.mpr stored.read_active.symm
    · dsimp only
      rw [if_pos rfl]
      have durable := FaultHistory.unfinished_durable stored
      rwa [← stored.read_active] at durable
  · obtain ⟨files, opened, live, shelved, last, read⟩ :=
      openSet_shelved valid standing.stored now
    rw [← encoded] at read
    have held : stages ≠ [] := List.ne_nil_of_mem standing.current
    refine ⟨files, dir, sealed, active, stop, opened, standing.stored, live, shelved, last,
      encoded, read, fun running here => .inr ⟨sealed, active, stop, ?_, encoded⟩⟩
    rw [if_neg held]
    refine { standing with running := fun other given => ?_ }
    rw [here other given]
    exact live.running

theorem Kept.opening (valid : config.validate = .ok ())
    (headerFits : segmentHeaderSize ≤ config.headerSize) (kept : Kept crc config log self)
    {now : UInt64} {cfg : WriterConfig} {indexFiles : Nat → Option (List UInt8)}
    {clock : Nat → UInt64} {shown : List Event} (encodable : ∀ event ∈ shown, event.Encodable)
    (taken : self.step crc config (.start now cfg indexFiles clock shown) = some next) :
    self.process = none ∧ ∃ files dir, SegmentSet.openSet crc config now self.dir =
        (.ok files, dir) ∧ shown = log ∧
      (∀ running, (∀ other, running = some other → other = files) →
        Filed crc config dir running (self.opened dir files).stages log) ∧
      Matches (SegmentedLog.ofFiles files log) files ∧
      (SegmentedLog.ofFiles files log).Holds log ∧
      (∀ segment ∈ SegmentSource.segments (SegmentedLog.ofFiles files log),
        Index.FitsSegment segment.events) ∧
      (next = self.opened dir files ∨ ∃ index,
        Index.IndexSet.open_ format crc indexFiles clock (SegmentedLog.ofFiles files log) =
          some (.ok index) ∧
        next = { self.opened dir files with
          process := some ⟨files, Worker.start cfg (SegmentedLog.ofFiles files log) index⟩ }) := by
  rw [step] at taken
  cases running : self.process with
  | some process => simp [running] at taken
  | none =>
      obtain ⟨files, dir, sealed, active, stop, opened, stored, live, shelved, last, encoded,
        read, filed⟩ := kept.filed.opens valid headerFits now
      simp only [running, opened, read] at taken
      split at taken
      case isFalse => cases taken
      next same =>
      obtain rfl := Event.eq_of_map_asBytes kept.encodable encodable
        (positioned_injective (Except.ok.inj same))
      obtain ⟨holds, fits, matched⟩ :=
        SegmentedLog.ofFiles_opened valid stored live shelved last encoded kept.room
      refine ⟨rfl, files, dir, opened, rfl, filed, matched, holds, fits, ?_⟩
      split at taken
      · cases taken
      · exact .inl (Option.some.inj taken).symm
      · next index made =>
        exact .inr ⟨index, made, (Option.some.inj taken).symm⟩

/-- A started process has opened the log and its index. -/
theorem Kept.started (valid : config.validate = .ok ())
    (headerFits : segmentHeaderSize ≤ config.headerSize) (kept : Kept crc config log self)
    {now : UInt64} {cfg : WriterConfig} {indexFiles : Nat → Option (List UInt8)}
    {clock : Nat → UInt64} {shown : List Event}
    (allowed : self.StepAllowed crc config (.start now cfg indexFiles clock shown))
    (taken : self.step crc config (.start now cfg indexFiles clock shown) = some next) :
    self.process = none ∧ ∃ files dir, SegmentSet.openSet crc config now self.dir =
        (.ok files, dir) ∧ shown = log ∧
      (∀ running, (∀ other, running = some other → other = files) →
        Filed crc config dir running (self.opened dir files).stages log) ∧
      Matches (SegmentedLog.ofFiles files log) files ∧
      (SegmentedLog.ofFiles files log).Holds log ∧
      (next = self.opened dir files ∨ ∃ index,
        Worker.Opened crc (SegmentedLog.ofFiles files log) index ∧
        next = { self.opened dir files with
          process := some ⟨files, Worker.start cfg (SegmentedLog.ofFiles files log) index⟩ }) := by
  obtain ⟨encodable, filesFit⟩ := allowed
  obtain ⟨running, files, dir, opened, rfl, filed, matched, holds, fits, result⟩ :=
    kept.opening valid headerFits encodable taken
  refine ⟨running, files, dir, opened, rfl, filed, matched, holds, result.imp_right ?_⟩
  rintro ⟨index, made, rfl⟩
  exact ⟨index, ⟨holds.toAccepted, fits, indexFiles, clock, filesFit files dir opened, made⟩, rfl⟩

theorem Kept.recovers (valid : config.validate = .ok ())
    (headerFits : segmentHeaderSize ≤ config.headerSize) (kept : Kept crc config log self) :
    self.Recovers crc config log := by
  intro now
  obtain ⟨files, after, -, -, -, opened, -, -, -, -, -, read, -⟩ :=
    kept.filed.opens valid headerFits now
  exact ⟨files, after, opened, read⟩

theorem Kept.answers_sublist (kept : Kept crc config log self) :
    self.answers.Sublist self.history :=
  kept.earlier.append_right _

theorem Kept.acknowledged (kept : Kept crc config log self) {request : Request}
    {range : Nat × Nat} (member : (request, .ok range) ∈ self.answers) : ∃ front,
      range = (firstPosition + front.length,
        firstPosition + front.length + request.events.length - 1) ∧
      front ++ request.events <+: log := by
  obtain ⟨before, behind, split⟩ := List.append_of_mem (kept.answers_sublist.subset member)
  have replays := kept.replays_history
  rw [split, answered_append] at replays
  obtain ⟨-, rangeEq, front⟩ := replays.committed_at
  exact ⟨_, rangeEq, front⟩

theorem kept_start (lawful : format.Lawful) (valid : config.validate = .ok ())
    (headerFits : segmentHeaderSize ≤ config.headerSize) (kept : Kept crc config log self)
    {now : UInt64} {cfg : WriterConfig} {indexFiles : Nat → Option (List UInt8)}
    {clock : Nat → UInt64} {shown : List Event}
    (allowed : self.StepAllowed crc config (.start now cfg indexFiles clock shown))
    (taken : self.step crc config (.start now cfg indexFiles clock shown) = some next) :
    Kept crc config log next := by
  obtain ⟨running, files, dir, -, -, filed, matched, holds, made⟩ :=
    kept.started valid headerFits allowed taken
  obtain ⟨first, replays, stopped, -⟩ := kept.replays
  obtain rfl := stopped running
  rcases made with rfl | ⟨index, opened, rfl⟩
  · refine ⟨?_, kept.encodable, kept.room, kept.earlier, first, replays, fun _ => rfl, ?_⟩
    · refine filed _ fun other given => ?_
      simp [DurableStore.opened, running] at given
    · intro process given
      simp [DurableStore.opened, running] at given
  · have replaying : (Worker.start cfg (SegmentedLog.ofFiles files first) index).Replaying
        first := by
      apply Worker.Replaying.fresh (opened.sound_start lawful cfg) rfl
      change store.Replays first [] (SegmentedLog.ofFiles files first).events
      rw [holds.events_eq]
      exact .nil first
    refine ⟨?_, kept.encodable, kept.room, kept.earlier, first, replays, by rintro ⟨⟩, ?_⟩
    · exact filed _ fun other given => (Option.some.inj given).symm
    · rintro process ⟨⟩
      exact ⟨replaying, holds.events_eq, matched, by simp [Worker.start, Batch.new]⟩

theorem Kept.attach (kept : Kept crc config log self) {process moved : Process format}
    (running : self.process = some process) {dir : Directory} {stages : List (List UInt8)}
    {later : List Event} (filed : Filed crc config dir (some moved.files) stages later)
    (encodable : ∀ event ∈ later, event.Encodable)
    (attached : ∀ first, process.Attached first log → moved.Attached first later) :
    Kept crc config later
      { self with dir := dir, process := some moved, stages := stages } := by
  obtain ⟨first, replays, -, here⟩ := kept.replays
  have moved := attached first (here process running)
  refine ⟨filed, encodable, ?_, kept.earlier, first, replays, by rintro ⟨⟩, ?_⟩
  · have room := moved.replaying.sound.set.room
    rwa [moved.replaying.sound.set.nextPosition_eq, moved.events_eq] at room
  · rintro process ⟨⟩
    exact moved

theorem kept_request (lawful : format.Lawful) (kept : Kept crc config log self)
    {request : Request} (allowed : self.StepAllowed crc config (.request request))
    (taken : self.step crc config (.request request) = some next) : Kept crc config log next := by
  obtain ⟨process, running, taken⟩ := Option.bind_eq_some_iff.mp taken
  obtain ⟨worker, stepped, rfl⟩ := Option.map_eq_some_iff.mp taken
  obtain ⟨encodable, allowed⟩ := allowed
  have filed := kept.filed
  rw [running] at filed
  refine @Kept.attach _ _ _ self log kept process ⟨process.files, worker⟩ running self.dir
    self.stages log filed kept.encodable fun first attached => ?_
  have replaying := Worker.replaying_step lawful crc attached.replaying (allowed process running)
    stepped
  obtain ⟨decision, -, rfl⟩ := Option.map_eq_some_iff.mp stepped
  cases decision with
  | ok _ =>
      refine ⟨replaying, attached.events_eq, attached.matched, fun event member => ?_⟩
      rcases List.mem_append.mp member with staged | asked
      · exact attached.encodable event staged
      · exact encodable event asked
  | error _ => exact ⟨replaying, attached.events_eq, attached.matched, attached.encodable⟩

/-- The number of sealed segments tells the outcome. -/
theorem outcomeOf_eq {set : SegmentedLog} {before after : SegmentSet} {batch : List Event}
    {outcome : AppendOutcome} {result : Except LogError (Nat × Nat)}
    (matched : Matches set before) (done : (appendBatch outcome batch set).1 = result)
    (grown : Matches (appendBatch outcome batch set).2 after) :
    outcomeOf before after result = outcome := by
  have same := matched.sealed.length_eq
  have later := grown.sealed.length_eq
  have more : (set.sealed ++ [set.active]).length = set.sealed.length + 1 := by simp
  cases outcome with
  | appended =>
      subst done
      change set.sealed.length = _ at later
      exact if_neg (by omega)
  | rolledOver =>
      subst done
      change (set.sealed ++ [set.active]).length = _ at later
      exact if_pos (by omega)
  | failedBefore error =>
      subst done
      change set.sealed.length = _ at later
      exact if_neg (by omega)
  | failedAfter error =>
      subst done
      change (set.sealed ++ [set.active]).length = _ at later
      exact if_pos (by omega)

/-- A batch that was appended is behind the log, and otherwise the log is as it was. -/
theorem commit_of_append {worker next : Worker format} {outcome : AppendOutcome}
    {createdAtNanos : Nat} (sound : worker.Sound) (nonempty : worker.batch.records ≠ [])
    (taken : worker.commit crc outcome createdAtNanos = some next) :
    next.set = (appendBatch outcome worker.batch.records worker.set).2 ∧
      next.batch.records = [] ∧
      next.set.events = worker.set.events ++
        (if (appendBatch outcome worker.batch.records worker.set).1.isOk then
          worker.batch.records else []) := by
  rcases Worker.commit_cases taken with ⟨empty, -⟩ |
    ⟨-, error, ⟨rfl, rfl⟩ | ⟨rfl, rfl⟩⟩ | ⟨-, rolled, index, rfl, -, rfl⟩
  · exact absurd empty nonempty
  · exact ⟨rfl, rfl, (List.append_nil _).symm⟩
  · exact ⟨rfl, rfl, sound.set.rollover.events_eq.trans (List.append_nil _).symm⟩
  · have grown := (sound.grown_holds rolled).events_eq
    cases rolled <;> exact ⟨rfl, rfl, grown⟩

/-- The files store the log with the batch, or without it if the append failed. -/
theorem Filed.append {files : SegmentSet} {after : LogState}
    (valid : config.validate = .ok ()) (headerFits : segmentHeaderSize ≤ config.headerSize)
    (filed : Filed crc config self.dir (some files) self.stages log) {now : UInt64}
    {sealIo batchIo rewindIo : List IoOutcome} {batch : List Event}
    (allowed : FaultHistory.StepAllowed crc config (self.world files)
      (.append now sealIo batchIo rewindIo (batch.map Event.asBytes)))
    {result : Except LogError (Nat × Nat)}
    (appended : SegmentSet.appendBatch crc ⟨now, sealIo, [], batchIo, rewindIo⟩
      (batch.map Event.asBytes) ⟨self.dir, files⟩ = (result, after)) :
    Filed crc config after.dir (some after.set)
      (self.stagesAfter config files (result, after))
      (log ++ if result.isOk then batch else []) := by
  rcases filed with ⟨-, stopped, -, -⟩ | ⟨sealed, active, stop, standing, encoded⟩
  · cases stopped
  have taken : FaultHistory.step crc config (self.world files)
      (.append now sealIo batchIo rewindIo (batch.map Event.asBytes)) =
        some ⟨after.dir, some after.set, if result.isOk then [batch.map Event.asBytes] else [],
          self.stagesAfter config files (result, after)⟩ := by
    rw [FaultHistory.step, world, Option.map_some, appended]
    cases result <;> rfl
  obtain ⟨sealed', active', stop', more, standing', batchesEq, submittedEq⟩ :=
    standing.append valid headerFits allowed taken
  refine .inr ⟨sealed', active', stop', ⟨standing'.stored, standing'.running, standing'.current,
    standing'.unfinished⟩, ?_⟩
  rw [List.map_append, encoded, ← flatten_storedBatches, ← flatten_storedBatches, batchesEq,
    List.flatten_append]
  change (if result.isOk then [batch.map Event.asBytes] else []) = [] ++ more at submittedEq
  rw [List.nil_append] at submittedEq
  rw [← submittedEq]
  cases result.isOk <;> simp

theorem kept_commit (lawful : format.Lawful) (valid : config.validate = .ok ())
    (headerFits : segmentHeaderSize ≤ config.headerSize) (kept : Kept crc config log self)
    {now : UInt64} {sealIo batchIo rewindIo : List IoOutcome} {createdAtNanos : UInt64}
    (allowed : self.StepAllowed crc config (.commit now sealIo batchIo rewindIo createdAtNanos))
    (taken : self.step crc config (.commit now sealIo batchIo rewindIo createdAtNanos) =
      some next) : ∃ more, Kept crc config (log ++ more) next := by
  obtain ⟨process, running, taken⟩ := Option.bind_eq_some_iff.mp taken
  obtain ⟨allowed, fits⟩ := allowed process running
  have filed := kept.filed
  rw [running] at filed
  split at taken
  · next nothing =>
    obtain ⟨worker, stepped, rfl⟩ := Option.map_eq_some_iff.mp taken
    rw [Worker.step] at stepped
    rcases Worker.commit_cases stepped with ⟨-, rfl⟩ | ⟨nonempty, -⟩ | ⟨nonempty, -⟩
    · refine ⟨[], ?_⟩
      rw [List.append_nil]
      refine @Kept.attach _ _ _ self log kept process ⟨process.files, _⟩ running self.dir
        self.stages log filed kept.encodable fun first attached => ?_
      have sound := attached.replaying.sound
      exact ⟨.fresh (.fresh sound.set sound.index sound.tips rfl) rfl attached.replaying.durable,
        attached.events_eq, attached.matched, by simp [Batch.new]⟩
    · exact absurd nothing nonempty
    · exact absurd nothing nonempty
  · next nonempty =>
    cases appended : self.append crc process now sealIo batchIo rewindIo with
    | mk result after =>
    rw [appended] at taken
    obtain ⟨worker, stepped, rfl⟩ := Option.map_eq_some_iff.mp taken
    obtain ⟨start, -, -, attached⟩ := kept.replays
    have attached := attached process running
    have counted : process.records.length = process.worker.batch.records.length :=
      List.length_map _
    obtain ⟨outcome, done, grown⟩ :=
      appendBatch_outcome attached.matched ⟨now, sealIo, [], batchIo, rewindIo⟩ counted appended
    have fits := fits result after appended
    rw [outcomeOf_eq attached.matched done grown] at stepped fits
    obtain ⟨setEq, emptied, events⟩ :=
      commit_of_append attached.replaying.sound nonempty stepped
    rw [done, attached.events_eq] at events
    have replaying (first : List Event) (before : process.Attached first log) :
        worker.Replaying first :=
      Worker.replaying_step lawful crc before.replaying ⟨fits, trivial⟩ stepped
    have matched : Matches worker.set after.set := setEq ▸ grown
    refine ⟨_, kept.attach running (filed.append valid headerFits allowed appended) ?_
      fun first before => ⟨replaying first before, events, matched, by simp [emptied]⟩⟩
    intro event member
    rcases List.mem_append.mp member with old | here
    · exact kept.encodable event old
    · split at here
      · exact attached.encodable event here
      · cases here

/-- The process ends, and what it landed is answered as nobody knows. -/
theorem Kept.leave (kept : Kept crc config log self) {process : Process format}
    (running : self.process = some process) {world : FaultHistory.World} {later : List Event}
    {landed : List (Request × Answer)}
    (filed : Filed crc config world.dir none world.stages later)
    (encodable : ∀ event ∈ later, event.Encodable)
    (room : firstPosition + later.length ≤ maxPosition)
    (replays : store.Replays log (answered landed) later) :
    Kept crc config later (self.leave process world landed) := by
  have before := kept.replays_history
  rw [history, current, running] at before
  refine ⟨filed, encodable, room, ?_, later, ?_, fun _ => rfl, by rintro _ ⟨⟩⟩
  · exact (kept.earlier.append_right _).trans (List.sublist_append_left _ _)
  · change store.Replays [] (answered (self.effects ++ process.worker.answers ++ landed)) later
    rw [answered_append]
    exact before.append replays

theorem Filed.crash {files : SegmentSet} {image : List UInt8}
    {world : FaultHistory.World} (headerFits : segmentHeaderSize ≤ config.headerSize)
    (filed : Filed crc config self.dir (some files) self.stages log)
    (allowed : FaultHistory.StepAllowed crc config (self.world files) (.crash image))
    (crashed : FaultHistory.step crc config (self.world files) (.crash image) = some world) :
    Filed crc config world.dir none world.stages log := by
  rcases filed with ⟨-, stopped, -, -⟩ | ⟨sealed, active, stop, standing, encoded⟩
  · cases stopped
  obtain ⟨standing', -⟩ := standing.crash headerFits allowed crashed
  refine .inr ⟨sealed, _, stop, ⟨standing'.stored, by simp, standing'.current,
    standing'.unfinished⟩, ?_⟩
  rw [encoded, ← flatten_storedBatches, ← flatten_storedBatches, storedBatches_withFile]

/-- A crash while a batch is written lands the whole batch, or nothing of it. -/
theorem Filed.crashCommit {process : Process format} {torn : List UInt8}
    {world : FaultHistory.World} (valid : config.validate = .ok ())
    (headerFits : segmentHeaderSize ≤ config.headerSize)
    (filed : Filed crc config self.dir (some process.files) self.stages log) {now : UInt64}
    (allowed : FaultHistory.StepAllowed crc config (self.world process.files)
      (.crashAppend now process.records torn))
    (crashed : FaultHistory.step crc config (self.world process.files)
      (.crashAppend now process.records torn) = some world) :
    Filed crc config world.dir none world.stages
      (log ++ if Landed crc config process torn then process.worker.batch.records else []) := by
  rcases filed with ⟨-, stopped, -, -⟩ | ⟨sealed, active, stop, standing, encoded⟩
  · cases stopped
  obtain ⟨⟨sealed', active', stop', standing', batchesEq⟩, -⟩ :=
    standing.crashAppend valid headerFits rfl allowed crashed
  refine .inr ⟨sealed', active', stop', ⟨standing'.stored, by simp, standing'.current,
    standing'.unfinished⟩, ?_⟩
  rw [List.map_append, encoded, ← flatten_storedBatches, ← flatten_storedBatches, batchesEq,
    List.flatten_append]
  by_cases landed : Landed crc config process torn
  · have complete := landed
    unfold Landed at complete
    rw [if_pos landed, if_pos complete, List.flatten_singleton]
    rfl
  · have torn := landed
    unfold Landed at torn
    rw [if_neg landed, if_neg torn]
    rfl

theorem kept_crash (headerFits : segmentHeaderSize ≤ config.headerSize)
    (kept : Kept crc config log self) {image : List UInt8}
    (allowed : self.StepAllowed crc config (.crash image))
    (taken : self.step crc config (.crash image) = some next) : Kept crc config log next := by
  obtain ⟨process, running, taken⟩ := Option.bind_eq_some_iff.mp taken
  obtain ⟨world, crashed, rfl⟩ := Option.map_eq_some_iff.mp taken
  have filed := kept.filed
  rw [running] at filed
  exact kept.leave running (filed.crash headerFits (allowed process running) crashed)
    kept.encodable kept.room (.nil log)

theorem kept_crashCommit (valid : config.validate = .ok ())
    (headerFits : segmentHeaderSize ≤ config.headerSize) (kept : Kept crc config log self)
    {now : UInt64} {torn : List UInt8}
    (allowed : self.StepAllowed crc config (.crashCommit now torn))
    (taken : self.step crc config (.crashCommit now torn) = some next) :
    ∃ more, Kept crc config (log ++ more) next := by
  obtain ⟨process, running, taken⟩ := Option.bind_eq_some_iff.mp taken
  obtain ⟨world, crashed, rfl⟩ := Option.map_eq_some_iff.mp taken
  have filed := kept.filed
  rw [running] at filed
  have filed := filed.crashCommit valid headerFits (allowed process running) crashed
  obtain ⟨first, -, -, attached⟩ := kept.replays
  have attached := attached process running
  refine ⟨_, kept.leave running filed ?_ ?_ ?_⟩
  · intro event member
    rcases List.mem_append.mp member with old | here
    · exact kept.encodable event old
    · split at here
      · exact attached.encodable event here
      · cases here
  · have sound := attached.replaying.sound
    have room := sound.room
    rw [sound.next_eq, sound.first_eq, sound.set.nextPosition_eq, attached.events_eq] at room
    split <;> simp <;> omega
  · have staged := attached.replaying.staged
    rw [attached.events_eq] at staged
    split
    · exact staged
    · rw [List.append_nil]
      exact .nil log

/-- Every step keeps the log, and may put events behind it. -/
theorem kept_step (lawful : format.Lawful) (valid : config.validate = .ok ())
    (headerFits : segmentHeaderSize ≤ config.headerSize) (kept : Kept crc config log self)
    {label : StoreStep} (allowed : self.StepAllowed crc config label)
    (taken : self.step crc config label = some next) :
    ∃ more, Kept crc config (log ++ more) next := by
  have unchanged (kept : Kept crc config log next) : ∃ more, Kept crc config (log ++ more) next :=
    ⟨[], by rwa [List.append_nil]⟩
  cases label with
  | start now cfg indexFiles clock shown =>
      exact unchanged (kept_start lawful valid headerFits kept allowed taken)
  | request request => exact unchanged (kept_request lawful kept allowed taken)
  | commit now sealIo batchIo rewindIo createdAtNanos =>
      exact kept_commit lawful valid headerFits kept allowed taken
  | crash image => exact unchanged (kept_crash headerFits kept allowed taken)
  | crashCommit now torn => exact kept_crashCommit valid headerFits kept allowed taken

theorem kept_run (lawful : format.Lawful) (valid : config.validate = .ok ())
    (headerFits : segmentHeaderSize ≤ config.headerSize) {labels : List StoreStep}
    {last : DurableStore format}
    (allowed : Histories.Allowed (step crc config) (StepAllowed crc config)
      (empty : DurableStore format) labels)
    (ran : Histories.run (step crc config) (empty : DurableStore format) labels = some last) :
    ∃ log, Kept crc config log last := by
  have step_kept : ∀ (self : DurableStore format) label next,
      (∃ log, Kept crc config log self) → self.StepAllowed crc config label →
        self.step crc config label = some next → ∃ log, Kept crc config log next := by
    rintro self label next ⟨log, kept⟩ allowed taken
    obtain ⟨more, later⟩ := kept_step lawful valid headerFits kept allowed taken
    exact ⟨_, later⟩
  exact Histories.invariant_of_run step_kept ⟨[], kept_empty⟩ allowed ran

open SegmentSet (smallConfig)

open Worker (untaggedEvent)

/-- The steps of processes whose calls go through: requests without a condition, batches over
zeros, and crashes that leave what the active file has held. -/
def StepUnsoiled (config : SegmentConfig) (self : DurableStore format) : StoreStep → Prop
  | .start _ _ _ _ log => ∀ event ∈ log, event.Encodable
  | .request request =>
      (∀ event ∈ request.events, event.Encodable) ∧ request.condition = none ∧
        ∀ process ∈ self.process, process.worker.StepAllowed (.request request)
  | .commit _ _ batchIo _ createdAtNanos =>
      batchIo = [] ∧ ∀ process ∈ self.process,
        process.files.activeWriter.Clean ∧
        CrashHistory.Unsoiled config self.dir process.files process.records ∧
        process.worker.StepAllowed (.commit .appended createdAtNanos) ∧
        process.worker.StepAllowed (.commit .rolledOver createdAtNanos)
  | .crash image => image ∈ self.stages
  | .crashCommit _ _ => False

instance (config : SegmentConfig) (self : DurableStore format) (label : StoreStep) :
    Decidable (self.StepUnsoiled config label) :=
  match label with
  | .start _ _ _ _ log => inferInstanceAs (Decidable (∀ event ∈ log, event.Encodable))
  | .request _ | .commit _ _ _ _ _ => inferInstanceAs (Decidable (_ ∧ _))
  | .crash _ => inferInstanceAs (Decidable (_ ∈ _))
  | .crashCommit _ _ => inferInstanceAs (Decidable False)

/-- The process is started on a directory without index files. -/
def Bare : StoreStep → Prop
  | .start _ _ indexFiles _ _ => ∀ base, indexFiles base = none
  | _ => True

theorem stepAllowed_of_unsoiled {label : StoreStep} (unsoiled : self.StepUnsoiled config label)
    (bare : Bare label) : self.StepAllowed crc config label := by
  cases label with
  | start now cfg indexFiles clock log =>
      refine ⟨unsoiled, fun files dir _ segment _ bytes found => ?_⟩
      rw [bare] at found
      cases found
  | request request =>
      obtain ⟨encodable, unconditional, room⟩ := unsoiled
      refine ⟨encodable, fun process running => ⟨room process running, ?_⟩⟩
      intro cond conditional
      rw [unconditional] at conditional
      cases conditional
  | commit now sealIo batchIo rewindIo createdAtNanos =>
      obtain ⟨rfl, each⟩ := unsoiled
      intro process running
      obtain ⟨clean, unsoiled, appended, rolledOver⟩ := each process running
      constructor
      · intro set same _
        obtain rfl := Option.some.inj same
        refine ⟨clean, unsoiled.batchAllowed,
          fun writer _ => Writer.syncSpared_of_healthy _ _ writer.healthy_withOutcomes_nil,
          fun room => ⟨?_, fun faulty => absurd SegmentSet.faultless_nil faulty⟩⟩
        obtain ⟨-, -, -, -, space⟩ := unsoiled
        rw [if_pos room] at space
        exact ((CrashHistory.zeroFrom_of_drop space).mono (Nat.le_add_right _ _)).unmarked
      · intro result after _
        cases outcomeOf process.files after.set result with
        | appended => exact appended
        | rolledOver => exact rolledOver
        | failedBefore error => trivial
        | failedAfter error => trivial
  | crash image => exact fun process _ set _ => detects_of_mem unsoiled
  | crashCommit now torn => exact unsoiled.elim

/-- The second segment, with its batch. -/
def leftImage : List UInt8 :=
  ((Shelf.fresh crc32 smallConfig 0 2).withBatch crc32 smallConfig.headerSize
    [untaggedEvent.asBytes]).file

def startOn (log : List Event) : StoreStep :=
  .start 0 Worker.plainConfig (fun _ => none) (fun _ => 0) log

/-- An event is appended, another one rolls the segment over, the process crashes, and the next
one is started. -/
def acknowledgedRun : List StoreStep :=
  [startOn [], .request ⟨[taggedEvent], none⟩, .commit 0 [] [] [] 7,
    .request ⟨[untaggedEvent], none⟩, .commit 0 [] [] [] 7, .crash leftImage,
    startOn [taggedEvent, untaggedEvent]]

theorem acknowledgedRun_allowed : Histories.Allowed (step crc32 smallConfig)
    (StepAllowed crc32 smallConfig) (empty : DurableStore flatTable) acknowledgedRun := by
  have unsoiled : Histories.Allowed (step crc32 smallConfig) (StepUnsoiled smallConfig)
      (empty : DurableStore flatTable) acknowledgedRun := by
    decide +kernel
  have bare : Histories.Allowed (step crc32 smallConfig) (fun _ => Bare)
      (empty : DurableStore flatTable) acknowledgedRun := by
    apply Histories.allowed_of_forall
    simp [acknowledgedRun, startOn, Bare]
  exact (unsoiled.both bare).imp fun state label both => stepAllowed_of_unsoiled both.1 both.2

end DurableStore

end Writer.CommitSeam

end Tephra
