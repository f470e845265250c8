import Tephra.DurableStore
import Tephra.IndexLayout

/-!
# Index files across crashes

A sealed segment has an index file, which is written when the segment is sealed, or when the
index is opened and the file is missing or refused.  A write may fail, and a file may be
deleted or damaged at any time, also by a crash in the middle of its write.  As long as the
checks of a file detect the damage, whatever loads for a stretch of the log is the index of
that stretch, and every index that a process opens answers as a scan of the log.
-/

namespace Tephra

namespace Read

open Log hiding Segment

open Index Positions SegmentSource

/-- The events of a segment stand in the log from its base on. -/
theorem stretch_of_holds {set : SegmentedLog} {log : List Event} (holds : set.Holds log)
    {segment : Segment} (member : segment ∈ segments set) : firstPosition ≤ segment.base ∧
      segment.base ≤ firstPosition + log.length ∧
      segment.records.length = segment.events.length ∧
      segment.events <+: log.drop (segment.base - firstPosition) := by
  obtain ⟨recorded, whole⟩ := records_of_flatMap holds.recorded
  obtain ⟨before, later, split⟩ := List.append_of_mem member
  have contiguous := holds.contiguous
  rw [split, contiguous_append] at contiguous
  have baseEq : segment.base = firstPosition + totalEvents before := contiguous.2.1
  have counted (part : List Segment) (within : ∀ segment ∈ part, segment ∈ segments set) :
      totalEvents part = (part.flatMap Segment.events).length := by
    rw [← length_flatMap_records, List.length_flatMap, List.length_flatMap]
    congr 1
    apply List.map_congr_left
    intro segment here
    conv_lhs => rw [recorded segment (within segment here), List.length_map]
  have front := counted before fun segment here => by
    rw [split]
    exact List.mem_append_left _ here
  refine ⟨baseEq ▸ Nat.le_add_right _ _, ?_, ?_, later.flatMap Segment.events, ?_⟩
  · rw [baseEq, front, ← whole, split, List.flatMap_append, List.length_append]
    omega
  · conv_lhs => rw [recorded segment member, List.length_map]
  · rw [baseEq, Nat.add_sub_cancel_left, front, ← whole, split, List.flatMap_append,
      List.drop_left, List.flatMap_cons]

end Read

namespace Index

open Log hiding Segment

open Positions Read SegmentSource SortedMaps

variable (format : MapFormat) (crc : List UInt8 → UInt32)

/-- What became of the write of an index file. -/
inductive WriteOutcome where
  | whole
  /-- The file is as the failed write left it, or missing. -/
  | failed (left : Option (List UInt8))

/-- The files of the index directory by the base of their segment, after a write. -/
def putFile (files : Nat → Option (List UInt8)) (base : Nat) (data : List UInt8) :
    WriteOutcome → Nat → Option (List UInt8)
  | .whole => Function.update files base (some data)
  | .failed left => Function.update files base left

/-- The file of the segment that is sealed, if it has an index. -/
def IndexSet.sealedFile (self : IndexSet format) (createdAtNanos : Nat) : Option (List UInt8) :=
  if self.activeUnindexable then none else encodeAt format crc self.active createdAtNanos

/-- Write the file of the segment that is sealed. -/
def IndexSet.putSealed (self : IndexSet format) (files : Nat → Option (List UInt8))
    (createdAtNanos : Nat) (write : WriteOutcome) : Nat → Option (List UInt8) :=
  match self.sealedFile format crc createdAtNanos with
  | none => files
  | some data => putFile files self.activeBase data write

/-- The file that is built for a segment, if it has none that loads. -/
def rebuiltFile (files : Nat → Option (List UInt8)) (clock : Nat → UInt64) (set : SegmentedLog)
    (segment : Segment) : Option (List UInt8) :=
  match loadValid format crc files segment.base segment.records.length with
  | some _ => none
  | none =>
      match rebuildRange set segment.base segment.records.length with
      | some (.ok built) =>
          if built.unindexable then
            none
          else
            encodeAt format crc built.index (clock segment.base).toNat
      | _ => none

/-- The files after the slots of segments were opened, up to the first that cannot be. -/
def openFiles (files : Nat → Option (List UInt8)) (clock : Nat → UInt64) (set : SegmentedLog)
    (writes : Nat → WriteOutcome) :
    List Segment → (Nat → Option (List UInt8)) → Nat → Option (List UInt8)
  | [], found => found
  | segment :: segs, found =>
      match openSegment format crc files clock set segment.base segment.records.length with
      | some (.ok _) =>
          openFiles files clock set writes segs
            (match rebuiltFile format crc files clock set segment with
            | none => found
            | some data => putFile found segment.base data (writes segment.base))
      | _ => found

/-- The bytes are refused. -/
def Detected (left : Option (List UInt8)) : Prop :=
  ∀ bytes, left = some bytes → ∃ error, IndexSegment.fromBytes format crc bytes = .error error

/-- A failed write leaves nothing that loads. -/
def WriteOutcome.Sound : WriteOutcome → Prop
  | .whole => True
  | .failed left => Detected format crc left

/-- The file of a base is refused, or it was written for events of the log from there on. -/
def Describes (log : List Event) (base : Nat) (bytes : List UInt8) : Prop :=
  (∃ error, IndexSegment.fromBytes format crc bytes = .error error) ∨
    ∃ tail events createdAtNanos, firstPosition ≤ base ∧ base < 2 ^ 64 ∧
      events <+: log.drop (base - firstPosition) ∧ FitsSegment events ∧
      tail.Holds base events ∧ createdAtNanos < 2 ^ 64 ∧
      encodeAt format crc tail createdAtNanos = some bytes

/-- All files do. -/
def Described (log : List Event) (files : Nat → Option (List UInt8)) : Prop :=
  ∀ base bytes, files base = some bytes → Describes format crc log base bytes

variable {format crc} {log : List Event} {files : Nat → Option (List UInt8)}

theorem Described.append (described : Described format crc log files) (more : List Event) :
    Described format crc (log ++ more) files := by
  intro base bytes found
  rcases described base bytes found with refused |
    ⟨tail, events, createdAtNanos, started, baseFits, stretch, fits⟩
  · exact .inl refused
  · refine .inr ⟨tail, events, createdAtNanos, started, baseFits, stretch.trans ?_, fits⟩
    rw [List.drop_append]
    exact List.prefix_append _ _

theorem Described.update (described : Described format crc log files) {base : Nat}
    {content : Option (List UInt8)}
    (here : ∀ bytes, content = some bytes → Describes format crc log base bytes) :
    Described format crc log (Function.update files base content) := by
  intro other bytes found
  rw [Function.update_apply] at found
  split at found
  · next same =>
    subst same
    exact here bytes found
  · exact described other bytes found

theorem Described.putFile (described : Described format crc log files) {base : Nat}
    {data : List UInt8} (here : Describes format crc log base data) {write : WriteOutcome}
    (sound : write.Sound format crc) :
    Described format crc log (putFile files base data write) := by
  cases write with
  | whole =>
      apply described.update
      rintro _ ⟨⟩
      exact here
  | failed left => exact described.update fun bytes same => .inl (sound bytes same)

/-- What loads for a base and a count was written for that many events of the log. -/
theorem Described.loaded (lawful : format.Lawful) (described : Described format crc log files)
    {base count : Nat} {seg : IndexSegment format}
    (loaded : loadValid format crc files base count = some seg) :
    ∃ tail bytes createdAtNanos, files base = some bytes ∧ firstPosition ≤ base ∧
      base < 2 ^ 64 ∧ ((log.drop (base - firstPosition)).take count).length = count ∧
      FitsSegment ((log.drop (base - firstPosition)).take count) ∧
      tail.Holds base ((log.drop (base - firstPosition)).take count) ∧
      createdAtNanos < 2 ^ 64 ∧ encodeAt format crc tail createdAtNanos = some bytes ∧
      IndexSegment.fromBytes format crc bytes = .ok seg := by
  rw [loadValid] at loaded
  cases found : files base with
  | none => simp [found] at loaded
  | some bytes =>
      cases read : IndexSegment.fromBytes format crc bytes with
      | error error => simp [found, read] at loaded
      | ok segment =>
          simp only [found, read, Option.ite_none_right_eq_some, Option.some.injEq] at loaded
          obtain ⟨⟨-, counted⟩, rfl⟩ := loaded
          rcases described base bytes found with ⟨error, refused⟩ |
            ⟨tail, events, createdAtNanos, started, baseFits, stretch, fits, holds, createdFits,
              written⟩
          · rw [read] at refused
            cases refused
          · have answers := holds.answers_of_encodeAt format crc lawful fits baseFits createdFits
              written read
            have length : count = events.length := by
              rw [← counted, ← (IndexSegment.laid_of_fromBytes read).len_eq, answers.len_eq,
                (holds.indexes_viewFull fits).len_eq]
            have same : (log.drop (base - firstPosition)).take count = events := by
              rw [length]
              exact (List.prefix_iff_eq_take.mp stretch).symm
            rw [same]
            exact ⟨tail, bytes, createdAtNanos, rfl, started, baseFits, length.symm, fits, holds,
              createdFits, written, read⟩

/-- What loads for a base and a count is the index of that many events of the log. -/
theorem Described.holds (lawful : format.Lawful) (described : Described format crc log files)
    {base count : Nat} {seg : IndexSegment format}
    (loaded : loadValid format crc files base count = some seg) :
    SealedIndex.Holds ⟨base, count, some seg⟩ base
      ((log.drop (base - firstPosition)).take count) := by
  obtain ⟨tail, bytes, createdAtNanos, -, -, baseFits, length, fits, holds, createdFits, written,
    read⟩ := described.loaded lawful loaded
  exact (SealedIndex.holds_of_answers holds fits length.symm
    (holds.answers_of_encodeAt format crc lawful fits baseFits createdFits written read)).1

theorem Described.fileFits (lawful : format.Lawful) (described : Described format crc log files)
    {set : SegmentedLog} (holds : set.Holds log) {segment : Segment}
    (member : segment ∈ set.sealed) : FileFits format crc files segment := by
  obtain ⟨started, -, counted, stretch⟩ := stretch_of_holds holds (List.mem_append_left _ member)
  have recorded := (records_of_flatMap holds.recorded).1 segment (List.mem_append_left _ member)
  intro bytes found
  cases loaded : loadValid format crc files segment.base segment.records.length with
  | none => exact .inl rfl
  | some seg =>
      obtain ⟨tail, content, createdAtNanos, same, -, -, -, -, tailHolds, createdFits, written,
        -⟩ := described.loaded lawful loaded
      obtain rfl := Option.some.inj (same.symm.trans found)
      rw [counted, ← List.prefix_iff_eq_take.mp stretch] at tailHolds
      exact .inr ⟨tail, createdAtNanos, recorded, tailHolds, createdFits, written⟩

theorem describes_sealed {index : IndexSet format} {segs : List (List Event)}
    {current : List Event} (holds : index.Holds firstPosition segs current)
    (whole : segs.flatten ++ current = log) (room : firstPosition + log.length ≤ maxPosition)
    {createdAtNanos : Nat} (createdFits : createdAtNanos < 2 ^ 64) {data : List UInt8}
    (written : index.sealedFile format crc createdAtNanos = some data) :
    Describes format crc log index.activeBase data := by
  obtain ⟨baseEq, -, fits, fed, rest, split, tail, unlatched, -⟩ := holds.active_holds
  rw [IndexSet.sealedFile] at written
  split at written
  · cases written
  · next going =>
    obtain rfl := unlatched (Bool.eq_false_of_not_eq_true going)
    rw [List.append_nil] at split
    subst split
    have inside : segs.flatten.length ≤ log.length := by
      rw [← whole, List.length_append]
      exact Nat.le_add_right _ _
    have top : maxPosition < 2 ^ 64 := by decide
    refine .inr ⟨index.active, _, createdAtNanos, ?_, ?_, ?_, fits, baseEq ▸ tail, createdFits,
      written⟩
    · exact baseEq ▸ Nat.le_add_right _ _
    · omega
    · have dropped : log.drop (index.activeBase - firstPosition) = current := by
        rw [baseEq, Nat.add_sub_cancel_left, ← whole, List.drop_left]
      exact dropped ▸ List.prefix_rfl

theorem describes_rebuilt {set : SegmentedLog} (holds : set.Holds log)
    (fits : ∀ segment ∈ segments set, FitsSegment segment.events) {segment : Segment}
    (member : segment ∈ segments set) {clock : Nat → UInt64} {data : List UInt8}
    (written : rebuiltFile format crc files clock set segment = some data) :
    Describes format crc log segment.base data := by
  obtain ⟨started, ended, -, stretch⟩ := stretch_of_holds holds member
  obtain ⟨before, later, split⟩ := List.append_of_mem member
  have room := holds.nextPosition_eq ▸ holds.room
  have top : maxPosition < 2 ^ 64 := by decide
  rw [rebuiltFile] at written
  split at written
  · cases written
  split at written
  · next built rebuilt =>
    split at written
    · cases written
    · next indexable =>
      obtain ⟨-, again⟩ := rebuildRange_ok holds.toAccepted split rebuilt
      obtain ⟨other, same, -, -, fed, rest, eventsEq, tail, whole, -⟩ :=
        rebuild_holds segment.base (fits segment member)
      obtain rfl := Option.some.inj (again.symm.trans same)
      obtain rfl := whole (Bool.eq_false_of_not_eq_true indexable)
      rw [List.append_nil] at eventsEq
      rw [← eventsEq] at tail
      exact .inr ⟨built.index, _, _, started, by omega, stretch, fits segment member, tail,
        (clock segment.base).toNat_lt, written⟩
  · cases written

theorem Described.openFiles {set : SegmentedLog} (holds : set.Holds log)
    (fits : ∀ segment ∈ segments set, FitsSegment segment.events) {clock : Nat → UInt64}
    {writes : Nat → WriteOutcome} (sound : ∀ base, (writes base).Sound format crc)
    {segs : List Segment} (within : ∀ segment ∈ segs, segment ∈ segments set)
    {found : Nat → Option (List UInt8)} (described : Described format crc log found) :
    Described format crc log (openFiles format crc files clock set writes segs found) := by
  induction segs generalizing found with
  | nil => exact described
  | cons segment segs ih =>
      rw [List.forall_mem_cons] at within
      obtain ⟨here, others⟩ := within
      rw [Index.openFiles]
      split
      · apply ih others
        cases written : rebuiltFile format crc files clock set segment with
        | none => exact described
        | some data => exact described.putFile (describes_rebuilt holds fits here written) (sound _)
      · exact described

end Index

namespace Writer.CommitSeam

open ConditionalLogs Index Log Positions Read Seglog SortedMaps

variable {format : MapFormat}

/-- The store, and the files of the index directory by the base of their segment. -/
structure IndexedStore (format : MapFormat) where
  store : DurableStore format
  files : Nat → Option (List UInt8)

inductive IndexedStep where
  /-- Start a process on the index files as they are. -/
  | start (now : UInt64) (cfg : WriterConfig) (clock : Nat → UInt64) (log : List Event)
      (writes : Nat → WriteOutcome)
  | request (request : Request)
  | commit (now : UInt64) (sealIo batchIo rewindIo : List IoOutcome) (createdAtNanos : UInt64)
      (write : WriteOutcome)
  | crash (image : List UInt8)
  /-- The process ends while the batch is written, or behind that, after a write of the index
  file. -/
  | crashCommit (now : UInt64) (torn : List UInt8) (behind : Option (UInt64 × WriteOutcome))
  /-- An index file is deleted or damaged. -/
  | damage (base : Nat) (left : Option (List UInt8))

namespace IndexedStore

/-- Nothing was ever stored. -/
def empty : IndexedStore format :=
  ⟨.empty, fun _ => none⟩

variable (crc : List UInt8 → UInt32) (config : SegmentConfig)

/-- The index files behind the opening of the log and the index. -/
def openedFiles (self : IndexedStore format) (now : UInt64) (clock : Nat → UInt64)
    (log : List Event) (writes : Nat → WriteOutcome) : Nat → Option (List UInt8) :=
  match SegmentSet.openSet crc config now self.store.dir with
  | (.error _, _) => self.files
  | (.ok files, _) =>
      let set := SegmentedLog.ofFiles files log
      openFiles format crc self.files clock set writes set.sealed self.files

def step (self : IndexedStore format) : IndexedStep → Option (IndexedStore format)
  | .start now cfg clock log writes =>
      (self.store.step crc config (.start now cfg self.files clock log)).map fun store =>
        ⟨store, self.openedFiles crc config now clock log writes⟩
  | .request request =>
      (self.store.step crc config (.request request)).map fun store => ⟨store, self.files⟩
  | .commit now sealIo batchIo rewindIo createdAtNanos write =>
      self.store.process.bind fun process =>
        (self.store.step crc config (.commit now sealIo batchIo rewindIo createdAtNanos)).map
          fun store =>
            ⟨store,
              if store.process.any fun moved =>
                  process.worker.index.sealed.length < moved.worker.index.sealed.length then
                process.worker.index.putSealed format crc self.files createdAtNanos.toNat write
              else
                self.files⟩
  | .crash image =>
      (self.store.step crc config (.crash image)).map fun store => ⟨store, self.files⟩
  | .crashCommit now torn behind =>
      self.store.process.bind fun process =>
        (self.store.step crc config (.crashCommit now torn)).map fun store =>
          ⟨store,
            match behind with
            | none => self.files
            | some (createdAtNanos, write) =>
                -- The batch has landed, in a segment file that was created for it.
                if self.store.history.length < store.effects.length ∧
                    self.store.dir.length < store.dir.length then
                  process.worker.index.putSealed format crc self.files createdAtNanos.toNat write
                else
                  self.files⟩
  | .damage base left => some ⟨self.store, Function.update self.files base left⟩

/-- What is asked of a step: what the store asks, but nothing about its index files.  Instead,
what a failed write leaves is refused, and so is a damaged file. -/
def StepAllowed (self : IndexedStore format) : IndexedStep → Prop
  | .start _ _ _ log writes =>
      (∀ event ∈ log, event.Encodable) ∧ ∀ base, (writes base).Sound format crc
  | .request request => self.store.StepAllowed crc config (.request request)
  | .commit now sealIo batchIo rewindIo createdAtNanos write =>
      self.store.StepAllowed crc config (.commit now sealIo batchIo rewindIo createdAtNanos) ∧
        write.Sound format crc
  | .crash image => self.store.StepAllowed crc config (.crash image)
  | .crashCommit now torn behind =>
      self.store.StepAllowed crc config (.crashCommit now torn) ∧
        ∀ createdAtNanos write, behind = some (createdAtNanos, write) → write.Sound format crc
  | .damage _ left => Detected format crc left

variable {crc config} {self next : IndexedStore format} {log : List Event}

/-- The files of the log store it, and those of the index describe it. -/
structure Kept (crc : List UInt8 → UInt32) (config : SegmentConfig) (log : List Event)
    (indexed : IndexedStore format) : Prop where
  store : indexed.store.Kept crc config log
  files : Described format crc log indexed.files

theorem kept_empty : Kept crc config [] (empty : IndexedStore format) where
  store := DurableStore.kept_empty
  files := by rintro base bytes ⟨⟩

/-- Nothing has to be asked of the index files that a process is started on. -/
theorem Kept.start (lawful : format.Lawful) (valid : config.validate = .ok ())
    (headerFits : segmentHeaderSize ≤ config.headerSize) (kept : Kept crc config log self)
    {now : UInt64} {cfg : WriterConfig} {clock : Nat → UInt64} {shown : List Event}
    {writes : Nat → WriteOutcome}
    (allowed : self.StepAllowed crc config (.start now cfg clock shown writes))
    (taken : self.step crc config (.start now cfg clock shown writes) = some next) :
    Kept crc config log next := by
  obtain ⟨store, stepped, rfl⟩ := Option.map_eq_some_iff.mp taken
  obtain ⟨encodable, sound⟩ := allowed
  obtain ⟨-, files, dir, opened, rfl, -, -, holds, fits, -⟩ :=
    kept.store.opening valid headerFits encodable stepped
  refine ⟨DurableStore.kept_start lawful valid headerFits kept.store ⟨encodable, ?_⟩ stepped, ?_⟩
  · intro other otherDir otherOpened segment member
    obtain ⟨same, -⟩ := Prod.mk.inj (opened.symm.trans otherOpened)
    obtain rfl := Except.ok.inj same
    exact kept.files.fileFits lawful holds member
  · change Described format crc shown (self.openedFiles crc config now clock shown writes)
    rw [openedFiles, opened]
    exact kept.files.openFiles holds fits sound fun segment member =>
      List.mem_append_left _ member

theorem Kept.putSealed (kept : Kept crc config log self) {process : Process format}
    (running : self.store.process = some process) (createdAtNanos : UInt64)
    {write : WriteOutcome} (sound : write.Sound format crc) :
    Described format crc log
      (process.worker.index.putSealed format crc self.files createdAtNanos.toNat write) := by
  obtain ⟨first, -, -, attached⟩ := kept.store.replays
  have attached := attached process running
  obtain ⟨segs, current, whole, holds⟩ := attached.replaying.sound.index
  rw [IndexSet.putSealed]
  split
  · exact kept.files
  · next data written =>
    exact kept.files.putFile (describes_sealed holds (whole.trans attached.events_eq)
      kept.store.room createdAtNanos.toNat_lt written) sound

theorem kept_step (lawful : format.Lawful) (valid : config.validate = .ok ())
    (headerFits : segmentHeaderSize ≤ config.headerSize) (kept : Kept crc config log self)
    {label : IndexedStep} (allowed : self.StepAllowed crc config label)
    (taken : self.step crc config label = some next) :
    ∃ more, Kept crc config (log ++ more) next := by
  cases label with
  | start now cfg clock shown writes =>
      refine ⟨[], ?_⟩
      rw [List.append_nil]
      exact kept.start lawful valid headerFits allowed taken
  | request request =>
      obtain ⟨store, stepped, rfl⟩ := Option.map_eq_some_iff.mp taken
      have allowed : self.store.StepAllowed crc config (.request request) := allowed
      obtain ⟨more, later⟩ :=
        DurableStore.kept_step lawful valid headerFits kept.store allowed stepped
      exact ⟨more, later, kept.files.append more⟩
  | commit now sealIo batchIo rewindIo createdAtNanos write =>
      obtain ⟨process, running, taken⟩ := Option.bind_eq_some_iff.mp taken
      obtain ⟨store, stepped, rfl⟩ := Option.map_eq_some_iff.mp taken
      obtain ⟨more, later⟩ :=
        DurableStore.kept_step lawful valid headerFits kept.store allowed.1 stepped
      refine ⟨more, later, ?_⟩
      dsimp only
      split
      · exact (kept.putSealed running createdAtNanos allowed.2).append more
      · exact kept.files.append more
  | crash image =>
      obtain ⟨store, stepped, rfl⟩ := Option.map_eq_some_iff.mp taken
      have allowed : self.store.StepAllowed crc config (.crash image) := allowed
      obtain ⟨more, later⟩ :=
        DurableStore.kept_step lawful valid headerFits kept.store allowed stepped
      exact ⟨more, later, kept.files.append more⟩
  | crashCommit now torn behind =>
      obtain ⟨process, running, taken⟩ := Option.bind_eq_some_iff.mp taken
      obtain ⟨store, stepped, rfl⟩ := Option.map_eq_some_iff.mp taken
      obtain ⟨more, later⟩ :=
        DurableStore.kept_step lawful valid headerFits kept.store allowed.1 stepped
      refine ⟨more, later, ?_⟩
      cases behind with
      | none => exact kept.files.append more
      | some sealing =>
          obtain ⟨createdAtNanos, write⟩ := sealing
          dsimp only
          split
          · exact (kept.putSealed running createdAtNanos (allowed.2 _ _ rfl)).append more
          · exact kept.files.append more
  | damage base left =>
      cases taken
      refine ⟨[], ?_⟩
      rw [List.append_nil]
      exact ⟨kept.store, kept.files.update fun bytes same => .inl (allowed bytes same)⟩

open DurableStore (leftImage)

open SegmentSet (smallConfig)

open Worker (untaggedEvent)

/-- What is asked of the store in steps without a crash inside of a batch. -/
def StepUnsoiled (config : SegmentConfig) (self : IndexedStore format) : IndexedStep → Prop
  | .start _ _ _ log _ => ∀ event ∈ log, event.Encodable
  | .request request => self.store.StepUnsoiled config (.request request)
  | .commit now sealIo batchIo rewindIo createdAtNanos _ =>
      self.store.StepUnsoiled config (.commit now sealIo batchIo rewindIo createdAtNanos)
  | .crash image => self.store.StepUnsoiled config (.crash image)
  | .crashCommit _ _ _ => False
  | .damage _ _ => True

instance (config : SegmentConfig) (self : IndexedStore format) (label : IndexedStep) :
    Decidable (self.StepUnsoiled config label) :=
  match label with
  | .start _ _ _ log _ => inferInstanceAs (Decidable (∀ event ∈ log, event.Encodable))
  | .request request =>
      inferInstanceAs (Decidable (self.store.StepUnsoiled config (.request request)))
  | .commit now sealIo batchIo rewindIo createdAtNanos _ =>
      inferInstanceAs (Decidable (self.store.StepUnsoiled config
        (.commit now sealIo batchIo rewindIo createdAtNanos)))
  | .crash image => inferInstanceAs (Decidable (self.store.StepUnsoiled config (.crash image)))
  | .crashCommit _ _ _ => inferInstanceAs (Decidable False)
  | .damage _ _ => inferInstanceAs (Decidable True)

/-- What a step leaves of an index file is whole or refused. -/
def SoundWrites (format : MapFormat) (crc : List UInt8 → UInt32) : IndexedStep → Prop
  | .start _ _ _ _ writes => ∀ base, (writes base).Sound format crc
  | .commit _ _ _ _ _ write => write.Sound format crc
  | .damage _ left => Detected format crc left
  | _ => True

theorem stepAllowed_of_unsoiled {label : IndexedStep} (unsoiled : self.StepUnsoiled config label)
    (sound : SoundWrites format crc label) : self.StepAllowed crc config label := by
  have store (label : StoreStep) (unsoiled : self.store.StepUnsoiled config label)
      (bare : DurableStore.Bare label) : self.store.StepAllowed crc config label :=
    DurableStore.stepAllowed_of_unsoiled unsoiled bare
  cases label with
  | start now cfg clock log writes => exact ⟨unsoiled, sound⟩
  | request request => exact store (.request request) unsoiled trivial
  | commit now sealIo batchIo rewindIo createdAtNanos write =>
      exact ⟨store _ unsoiled trivial, sound⟩
  | crash image => exact store (.crash image) unsoiled trivial
  | crashCommit now torn behind => exact unsoiled.elim
  | damage base left => exact sound

/-- A segment is sealed, and the write of its index file fails and leaves bytes that are none.
The next process builds the file again, and the one behind it loads it. -/
def rebuiltRun : List IndexedStep :=
  [.start 0 Worker.plainConfig (fun _ => 0) [] (fun _ => .whole),
    .request ⟨[taggedEvent], none⟩, .commit 0 [] [] [] 7 .whole,
    .request ⟨[untaggedEvent], none⟩, .commit 0 [] [] [] 7 (.failed (some [0])),
    .damage 2 (some [0]), .crash leftImage,
    .start 0 Worker.plainConfig (fun _ => 0) [taggedEvent, untaggedEvent] (fun _ => .whole),
    .crash leftImage,
    .start 0 Worker.plainConfig (fun _ => 0) [taggedEvent, untaggedEvent] (fun _ => .whole)]

theorem rebuiltRun_allowed : Histories.Allowed (step crc32 smallConfig)
    (StepAllowed crc32 smallConfig) (empty : IndexedStore flatTable) rebuiltRun := by
  have unsoiled : Histories.Allowed (step crc32 smallConfig) (StepUnsoiled smallConfig)
      (empty : IndexedStore flatTable) rebuiltRun := by
    decide +kernel
  have detected : Detected flatTable crc32 (some [0]) := by
    rintro _ ⟨⟩
    exact ⟨_, rfl⟩
  have sound : Histories.Allowed (step crc32 smallConfig) (fun _ => SoundWrites flatTable crc32)
      (empty : IndexedStore flatTable) rebuiltRun := by
    apply Histories.allowed_of_forall
    simp [rebuiltRun, SoundWrites, WriteOutcome.Sound, detected]
  exact (unsoiled.both sound).imp fun state label both => stepAllowed_of_unsoiled both.1 both.2

end IndexedStore

end Writer.CommitSeam

end Tephra
