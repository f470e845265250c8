import Tephra.DurableStore
import Tephra.Pagination
import Tephra.SnapshotAlignment

/-!
# Reads across crashes

Clients read the store while others append to it, and while its processes come and go.  A read
loads the watermark, then a snapshot that may be later, and is drained; its process may end
before that.  What a read returned stays right: it is the scan of the log up to its watermark,
with all that was acknowledged before it began, and a read never sees less than one that began
before it, whatever the crashes are.
-/

namespace Tephra

namespace Read

open Index Log Positions SegmentSource

variable {σ : Type} [SegmentIndex σ] {snapshot : Snapshot σ} {watermark earlier : Nat}
  {log : List Event}

/-- A read that is drained gives what it is about, up to its limit. -/
theorem collect_directed (consistent : Consistent snapshot watermark log)
    (direction : Direction) (query : Query) (cursor scanBias : Nat) (limit : Option Nat)
    {fuel : Nat} (enough : log.length < fuel) :
    (readDirected direction watermark snapshot scanBias query cursor limit).bind
        (Reads.collectOwned fuel) =
      some (.ok (truncate limit (directedOracle direction query cursor watermark log))) := by
  have few : (truncate limit (directedOracle direction query cursor watermark log)).length <
      fuel := by
    refine lt_of_le_of_lt ?_ enough
    have shorter (items : List Sequenced) : (truncate limit items).length ≤ items.length := by
      cases limit with
      | none => exact le_rfl
      | some count => exact List.length_take_le' ..
    refine (shorter _).trans ?_
    cases direction with
    | forward => exact Reads.length_scanOracle_le ..
    | backward =>
        rw [directedOracle, List.length_reverse]
        exact Reads.length_scanOracle_le ..
  cases direction with
  | forward =>
      obtain ⟨reads, planned, yields⟩ := Reads.plan_yields consistent query cursor scanBias limit
      rw [readDirected, read, planned, Option.bind_some]
      exact yields.collectOwned_eq few
  | backward =>
      obtain ⟨reads, planned, yields⟩ := Reads.planBack_yields consistent query
        (min_le_right (cursor - 1) watermark) scanBias limit
      rw [readDirected, readBack, planned, Option.bind_some]
      exact yields.collectOwned_eq few

end Read

namespace Writer.CommitSeam

open ConditionalLogs Log Positions Read Seglog SortedMaps

/-- What was acknowledged is in the log, where the answers said. -/
def Within (log : List Event) (told : List (Request × Answer)) : Prop :=
  ∀ request range, (request, .ok range) ∈ told → ∃ front,
    range = (firstPosition + front.length,
      firstPosition + front.length + request.events.length - 1) ∧
    front ++ request.events <+: log

theorem Within.mono {log later : List Event} {told : List (Request × Answer)}
    (within : Within log told) (grown : log <+: later) : Within later told := by
  intro request range member
  obtain ⟨front, rangeEq, here⟩ := within request range member
  exact ⟨front, rangeEq, here.trans grown⟩

/-- What became of a read. -/
inductive Fate
  | pending
  | done (rows : List Sequenced)
  /-- A call panicked or ended with an error. -/
  | failed
  /-- The process ended before the read was drained. -/
  | lost
deriving DecidableEq

/-- A read: what it asks for, the watermark that it is pinned to, and all answers that had been
given when it began. -/
structure Reading where
  direction : Direction
  query : Query
  cursor : Nat
  limit : Option Nat
  watermark : Nat
  told : List (Request × Answer)
  fate : Fate

/-- The process ends. -/
def Reading.stop (self : Reading) : Reading :=
  match self.fate with
  | .pending => { self with fate := .lost }
  | _ => self

variable {format : MapFormat}

/-- Load the snapshot and drain the read.  It has no more rows than the log has events. -/
def Reading.drain (self : Reading) (worker : Worker format) (scanBias : Nat) : Reading :=
  match (readDirected self.direction self.watermark worker.snapshot scanBias self.query
      self.cursor self.limit).bind (Reads.collectOwned (worker.set.events.length + 1)) with
  | some (.ok rows) => { self with fate := .done rows }
  | _ => { self with fate := .failed }

/-- What is asked of the store for its reads.  The active segment that a process opens does not
have too many types, and no append fails behind its rollover. -/
def DurableStore.KeepsPace (crc : List UInt8 → UInt32) (config : SegmentConfig)
    (self : DurableStore format) : StoreStep → Prop
  | .start now _ _ _ log =>
      ∀ files dir, SegmentSet.openSet crc config now self.dir = (.ok files, dir) →
        (Index.distinctTypes (SegmentedLog.ofFiles files log).active.events).length ≤
          Index.maxTypeId + 1
  | .commit now sealIo batchIo rewindIo _ =>
      ∀ process, self.process = some process → ∀ result after,
        self.append crc process now sealIo batchIo rewindIo = (result, after) →
          process.files.sealed.length < after.set.sealed.length → result.isOk
  | _ => True

/-- The store, and its reads in the order in which they began. -/
structure ReadStore (format : MapFormat) where
  store : DurableStore format
  readings : List Reading

inductive ReadStoreStep where
  | store (label : StoreStep)
  /-- A client asks, and the watermark is loaded. -/
  | ask (direction : Direction) (query : Query) (cursor : Nat) (limit : Option Nat)
  /-- A read that was asked for is answered. -/
  | answer (place scanBias : Nat)

namespace ReadStore

/-- Nothing was ever stored or read. -/
def empty : ReadStore format :=
  ⟨.empty, []⟩

variable (crc : List UInt8 → UInt32) (config : SegmentConfig)

def step (self : ReadStore format) : ReadStoreStep → Option (ReadStore format)
  | .store label =>
      (self.store.step crc config label).map fun store =>
        ⟨store, if store.process.isSome then self.readings else self.readings.map Reading.stop⟩
  | .ask direction query cursor limit =>
      self.store.process.map fun process =>
        { self with readings := self.readings ++ [⟨direction, query, cursor, limit,
            process.worker.watermark, self.store.answers, .pending⟩] }
  | .answer place scanBias =>
      self.store.process.bind fun process =>
        self.readings[place]?.bind fun reading =>
          match reading.fate with
          | .pending =>
              some { self with
                readings := self.readings.set place (reading.drain process.worker scanBias) }
          | _ => none

/-- What is asked of a step: what the store asks, and that the appends keep pace. -/
def StepAllowed (self : ReadStore format) : ReadStoreStep → Prop
  | .store label => self.store.StepAllowed crc config label ∧ self.store.KeepsPace crc config label
  | .ask .. | .answer .. => True

end ReadStore

/-- A read is right about a log: its rows are those of a scan up to its watermark, and the events
that were acknowledged before it began are not behind the watermark. -/
structure Reading.Right (log : List Event) (reading : Reading) : Prop where
  reached : reading.watermark ≤ log.length
  told : Within (log.take reading.watermark) reading.told
  whole : reading.fate ≠ .failed
  rows_eq : ∀ rows, reading.fate = .done rows → rows = truncate reading.limit
    (directedOracle reading.direction reading.query reading.cursor reading.watermark log)

namespace Reading.Right

variable {reading : Reading} {log : List Event}

theorem append (right : reading.Right log) (more : List Event) : reading.Right (log ++ more) where
  reached := by
    rw [List.length_append]
    exact right.reached.trans (Nat.le_add_right _ _)
  told := by
    rw [List.take_append_of_le_length right.reached]
    exact right.told
  whole := right.whole
  rows_eq rows done := by
    have covered : reading.watermark < firstPosition + log.length := by
      have reached := right.reached
      rw [firstPosition]
      omega
    rw [directedOracle_append covered]
    exact right.rows_eq rows done

theorem stop (right : reading.Right log) : reading.stop.Right log := by
  rw [Reading.stop]
  cases fate : reading.fate with
  | pending => exact ⟨right.reached, right.told, by simp, by simp⟩
  | done rows => exact right
  | failed => exact absurd fate right.whole
  | lost => exact right

theorem drain (right : reading.Right log) {worker : Worker format}
    (consistent : Consistent worker.snapshot reading.watermark log)
    (events : worker.set.events = log) (scanBias : Nat) :
    (reading.drain worker scanBias).Right log := by
  have enough : log.length < worker.set.events.length + 1 := by
    rw [events]
    exact Nat.lt_succ_self _
  rw [Reading.drain, collect_directed consistent _ _ _ _ _ enough]
  exact ⟨right.reached, right.told, by simp, by rintro _ ⟨⟩; rfl⟩

end Reading.Right

@[simp]
theorem Reading.stop_watermark (reading : Reading) :
    reading.stop.watermark = reading.watermark := by
  rw [Reading.stop]
  split <;> rfl

@[simp]
theorem Reading.drain_watermark (reading : Reading) (worker : Worker format) (scanBias : Nat) :
    (reading.drain worker scanBias).watermark = reading.watermark := by
  rw [Reading.drain]
  split <;> rfl

namespace DurableStore

variable {crc : List UInt8 → UInt32} {config : SegmentConfig} {self next : DurableStore format}
  {log : List Event}

/-- The process that runs, if there is one, is aligned. -/
def Aligned (self : DurableStore format) : Prop :=
  ∀ process, self.process = some process → process.worker.Aligned

theorem aligned_start (lawful : format.Lawful) (valid : config.validate = .ok ())
    (headerFits : segmentHeaderSize ≤ config.headerSize) (kept : Kept crc config log self)
    {now : UInt64} {cfg : WriterConfig} {indexFiles : Nat → Option (List UInt8)}
    {clock : Nat → UInt64} {shown : List Event}
    (allowed : self.StepAllowed crc config (.start now cfg indexFiles clock shown))
    (few : self.KeepsPace crc config (.start now cfg indexFiles clock shown))
    (taken : self.step crc config (.start now cfg indexFiles clock shown) = some next) :
    next.Aligned := by
  obtain ⟨running, files, dir, opened, rfl, -, -, -, made⟩ :=
    kept.started valid headerFits allowed taken
  intro process started
  rcases made with rfl | ⟨index, isOpened, rfl⟩
  · cases running.symm.trans started
  · cases started
    exact isOpened.aligned_start lawful (few files dir opened) cfg

/-- Only an append behind its rollover is taken for one. -/
theorem noLateFailure_of_ok {before after : SegmentSet} {result : Except LogError (Nat × Nat)}
    (timely : before.sealed.length < after.sealed.length → result.isOk) (createdAtNanos : UInt64) :
    Worker.NoLateFailure (.commit (outcomeOf before after result) createdAtNanos) := by
  cases result with
  | ok range =>
      rw [outcomeOf]
      split <;> trivial
  | error error =>
      have stays : ¬ before.sealed.length < after.sealed.length := by
        intro grown
        cases timely grown
      rw [outcomeOf, if_neg stays]
      trivial

theorem aligned_commit (lawful : format.Lawful) (kept : Kept crc config log self)
    (aligned : self.Aligned) {now : UInt64} {sealIo batchIo rewindIo : List IoOutcome}
    {createdAtNanos : UInt64}
    (allowed : self.StepAllowed crc config (.commit now sealIo batchIo rewindIo createdAtNanos))
    (timely : self.KeepsPace crc config (.commit now sealIo batchIo rewindIo createdAtNanos))
    (taken : self.step crc config (.commit now sealIo batchIo rewindIo createdAtNanos) =
      some next) : next.Aligned := by
  obtain ⟨process, running, taken⟩ := Option.bind_eq_some_iff.mp taken
  obtain ⟨first, -, -, attached⟩ := kept.replays
  have sound := (attached process running).replaying.sound
  have aligned := aligned process running
  split at taken
  · next nothing =>
    obtain ⟨worker, stepped, rfl⟩ := Option.map_eq_some_iff.mp taken
    rw [Worker.step] at stepped
    rintro _ ⟨⟩
    rcases Worker.commit_cases stepped with ⟨-, rfl⟩ | ⟨nonempty, -⟩ | ⟨nonempty, -⟩
    · exact ⟨⟨aligned.published_eq, aligned.holds, aligned.watermark_eq, aligned.fits⟩,
        aligned.marked⟩
    · exact absurd nothing nonempty
    · exact absurd nothing nonempty
  · cases appended : self.append crc process now sealIo batchIo rewindIo with
    | mk result after =>
    rw [appended] at taken
    obtain ⟨worker, stepped, rfl⟩ := Option.map_eq_some_iff.mp taken
    rintro _ ⟨⟩
    exact Worker.aligned_step lawful crc sound aligned
      ((allowed process running).2 result after appended)
      (noLateFailure_of_ok (timely process running result after appended) _) stepped

/-- The files store the log, and what readers load is aligned with it. -/
structure Paced (crc : List UInt8 → UInt32) (config : SegmentConfig) (log : List Event)
    (store' : DurableStore format) : Prop where
  kept : store'.Kept crc config log
  aligned : store'.Aligned

theorem paced_empty : Paced crc config [] (empty : DurableStore format) where
  kept := kept_empty
  aligned := by rintro _ ⟨⟩

/-- The watermark of the process that runs is the end of the log. -/
theorem Paced.watermark_eq (paced : Paced crc config log self) {process : Process format}
    (running : self.process = some process) : process.worker.watermark = log.length := by
  obtain ⟨first, -, -, attached⟩ := paced.kept.replays
  have attached := attached process running
  have sound := attached.replaying.sound
  have started : firstPosition = 1 := rfl
  rw [(paced.aligned process running).watermark_eq, sound.lastPosition_eq, attached.events_eq]
  omega

theorem Paced.within (paced : Paced crc config log self) : Within log self.answers :=
  fun _ _ member => paced.kept.acknowledged member

/-- What readers load is consistent with the log. -/
theorem Paced.consistent (paced : Paced crc config log self) {process : Process format}
    (running : self.process = some process) :
    Consistent process.worker.snapshot process.worker.watermark log := by
  obtain ⟨first, -, -, attached⟩ := paced.kept.replays
  have attached := attached process running
  rw [← attached.events_eq]
  exact (paced.aligned process running).consistent attached.replaying.sound

theorem paced_step (lawful : format.Lawful) (valid : config.validate = .ok ())
    (headerFits : segmentHeaderSize ≤ config.headerSize) (paced : Paced crc config log self)
    {label : StoreStep} (allowed : self.StepAllowed crc config label)
    (timely : self.KeepsPace crc config label)
    (taken : self.step crc config label = some next) :
    ∃ more, Paced crc config (log ++ more) next := by
  obtain ⟨more, later⟩ := kept_step lawful valid headerFits paced.kept allowed taken
  refine ⟨more, later, ?_⟩
  cases label with
  | start now cfg indexFiles clock shown =>
      exact aligned_start lawful valid headerFits paced.kept allowed timely taken
  | request request =>
      obtain ⟨process, running, taken⟩ := Option.bind_eq_some_iff.mp taken
      obtain ⟨worker, stepped, rfl⟩ := Option.map_eq_some_iff.mp taken
      obtain ⟨first, -, -, attached⟩ := paced.kept.replays
      rintro _ ⟨⟩
      exact Worker.aligned_step lawful crc (attached process running).replaying.sound
        (paced.aligned process running) (allowed.2 process running).1 trivial stepped
  | commit now sealIo batchIo rewindIo createdAtNanos =>
      exact aligned_commit lawful paced.kept paced.aligned allowed timely taken
  | crash image =>
      obtain ⟨process, -, taken⟩ := Option.bind_eq_some_iff.mp taken
      obtain ⟨world, -, rfl⟩ := Option.map_eq_some_iff.mp taken
      rintro _ ⟨⟩
  | crashCommit now torn =>
      obtain ⟨process, -, taken⟩ := Option.bind_eq_some_iff.mp taken
      obtain ⟨world, -, rfl⟩ := Option.map_eq_some_iff.mp taken
      rintro _ ⟨⟩

end DurableStore

namespace ReadStore

variable {crc : List UInt8 → UInt32} {config : SegmentConfig} {self next : ReadStore format}
  {log : List Event}

/-- The files store the log, and every read is right about it. -/
structure Kept (crc : List UInt8 → UInt32) (config : SegmentConfig) (log : List Event)
    (reads : ReadStore format) : Prop where
  store : reads.store.Paced crc config log
  right : ∀ reading ∈ reads.readings, reading.Right log
  ordered : reads.readings.Pairwise fun earlier later => earlier.watermark ≤ later.watermark

theorem kept_empty : Kept crc config [] (empty : ReadStore format) where
  store := DurableStore.paced_empty
  right := by simp [empty]
  ordered := .nil

/-- Whether its process goes on or ends, a read stays right. -/
theorem Kept.store_step (lawful : format.Lawful) (valid : config.validate = .ok ())
    (headerFits : segmentHeaderSize ≤ config.headerSize) (kept : Kept crc config log self)
    {label : StoreStep} (allowed : self.StepAllowed crc config (.store label))
    (taken : self.step crc config (.store label) = some next) :
    ∃ more, Kept crc config (log ++ more) next := by
  obtain ⟨store, stepped, rfl⟩ := Option.map_eq_some_iff.mp taken
  obtain ⟨more, later⟩ :=
    DurableStore.paced_step lawful valid headerFits kept.store allowed.1 allowed.2 stepped
  refine ⟨more, later, ?_, ?_⟩
  · intro reading member
    dsimp only at member
    split at member
    · exact (kept.right reading member).append more
    · obtain ⟨before, here, rfl⟩ := List.mem_map.mp member
      exact (kept.right before here).stop.append more
  · dsimp only
    split
    · exact kept.ordered
    · rw [List.pairwise_map]
      simpa using kept.ordered

theorem Kept.ask (kept : Kept crc config log self) {direction : Direction} {query : Query}
    {cursor : Nat} {limit : Option Nat}
    (taken : self.step crc config (.ask direction query cursor limit) = some next) :
    Kept crc config log next := by
  obtain ⟨process, running, rfl⟩ := Option.map_eq_some_iff.mp taken
  have watermarkEq := kept.store.watermark_eq running
  refine ⟨kept.store, fun reading member => ?_, ?_⟩
  · rcases List.mem_append.mp member with before | here
    · exact kept.right reading before
    · obtain rfl := List.mem_singleton.mp here
      refine ⟨watermarkEq.le, ?_, by simp, by simp⟩
      rw [watermarkEq, List.take_length]
      exact kept.store.within
  · refine List.pairwise_append.mpr ⟨kept.ordered, List.pairwise_singleton .., ?_⟩
    intro earlier member later here
    obtain rfl := List.mem_singleton.mp here
    rw [watermarkEq]
    exact (kept.right earlier member).reached

theorem Kept.answer (kept : Kept crc config log self) {place scanBias : Nat}
    (taken : self.step crc config (.answer place scanBias) = some next) :
    Kept crc config log next := by
  obtain ⟨process, running, taken⟩ := Option.bind_eq_some_iff.mp taken
  obtain ⟨reading, found, taken⟩ := Option.bind_eq_some_iff.mp taken
  obtain ⟨first, -, -, attached⟩ := kept.store.kept.replays
  have events := (attached process running).events_eq
  have right := kept.right reading (List.mem_of_getElem? found)
  split at taken
  · cases taken
    refine ⟨kept.store, fun later member => ?_, ?_⟩
    · rcases List.mem_or_eq_of_mem_set member with before | rfl
      · exact kept.right later before
      · have below := right.reached.trans (kept.store.watermark_eq running).ge
        exact right.drain ((kept.store.consistent running).mono below) events scanBias
    · -- Its watermark is what it was.
      have same : (self.readings.set place (reading.drain process.worker scanBias)).map
          Reading.watermark = self.readings.map Reading.watermark := by
        obtain ⟨inside, rfl⟩ := List.getElem?_eq_some_iff.mp found
        have mapped : place < (self.readings.map Reading.watermark).length := by
          rwa [List.length_map]
        have kept := List.set_getElem_self mapped
        rw [List.getElem_map] at kept
        rw [List.map_set, Reading.drain_watermark, kept]
      have ordered : (self.readings.map Reading.watermark).Pairwise (· ≤ ·) :=
        List.pairwise_map.mpr kept.ordered
      rw [← same] at ordered
      exact List.pairwise_map.mp ordered
  · cases taken

open DurableStore (acknowledgedRun acknowledgedRun_allowed startOn leftImage)

open SegmentSet (smallConfig)

open Worker (untaggedEvent)

/-- What a step does to the store. -/
def storeStep : ReadStoreStep → Option StoreStep
  | .store label => some label
  | .ask .. | .answer .. => none

/-- Reads ask nothing more of a run than the store does. -/
theorem allowed_of_store {labels : List ReadStoreStep} {self : ReadStore format}
    (allowed : Histories.Allowed (DurableStore.step crc config)
      (fun store label => store.StepAllowed crc config label ∧ store.KeepsPace crc config label)
      self.store (labels.filterMap storeStep)) :
    Histories.Allowed (step crc config) (StepAllowed crc config) self labels := by
  refine Histories.allowed_of_part ReadStore.store storeStep ?_ ?_ ?_ allowed
  · intro state label next taken idle
    cases label with
    | store label => cases idle
    | ask direction query cursor limit =>
        obtain ⟨process, -, rfl⟩ := Option.map_eq_some_iff.mp taken
        rfl
    | answer place scanBias =>
        obtain ⟨process, -, taken⟩ := Option.bind_eq_some_iff.mp taken
        obtain ⟨reading, -, taken⟩ := Option.bind_eq_some_iff.mp taken
        split at taken
        · cases taken
          rfl
        · cases taken
  · intro state label next here taken same
    cases label with
    | store label =>
        cases same
        obtain ⟨store, stepped, rfl⟩ := Option.map_eq_some_iff.mp taken
        exact stepped
    | ask direction query cursor limit => cases same
    | answer place scanBias => cases same
  · intro state label asked
    cases label with
    | store label => exact asked label rfl
    | ask direction query cursor limit => trivial
    | answer place scanBias => trivial

/-- The starts on short logs, and the batches that are appended. -/
def Appends (crc : List UInt8 → UInt32) (store : DurableStore format) : StoreStep → Prop
  | .start _ _ _ _ log => log.length ≤ Index.maxTypeId + 1
  | .commit now sealIo batchIo rewindIo _ =>
      ∀ process ∈ store.process, (store.append crc process now sealIo batchIo rewindIo).1.isOk
  | _ => True

instance (store : DurableStore format) (label : StoreStep) : Decidable (Appends crc store label) :=
  match label with
  | .start _ _ _ _ _ => inferInstanceAs (Decidable (_ ≤ _))
  | .commit _ _ _ _ _ => inferInstanceAs (Decidable (∀ process ∈ store.process, _))
  | .request _ | .crash _ | .crashCommit _ _ => inferInstanceAs (Decidable True)

theorem keepsPace_of_appends {store : DurableStore format} {label : StoreStep}
    (appends : Appends crc store label) : store.KeepsPace crc config label := by
  cases label with
  | start now cfg indexFiles clock log =>
      intro files dir _
      have short : log.length ≤ Index.maxTypeId + 1 := appends
      have events : (SegmentedLog.ofFiles files log).active.events =
          log.drop (SegmentSource.totalEvents files.sealed) := Segment.events_of_records rfl
      rw [events, Index.distinctTypes]
      refine (List.dedup_sublist _).length_le.trans ?_
      rw [List.length_map, List.length_drop]
      omega
  | commit now sealIo batchIo rewindIo createdAtNanos =>
      intro process running result after appended _
      have ok := appends process running
      rwa [appended] at ok
  | request request => trivial
  | crash image => trivial
  | crashCommit now torn => trivial

/-- Reads that begin before an append, behind it, behind the rollover, and behind the crash that
follows. -/
def crashedReads : List ReadStoreStep :=
  [.store (startOn []), .ask .forward .all 0 none, .store (.request ⟨[taggedEvent], none⟩),
    .store (.commit 0 [] [] [] 7), .answer 0 4, .ask .forward .all 0 none, .answer 1 4,
    .store (.request ⟨[untaggedEvent], none⟩), .store (.commit 0 [] [] [] 7),
    .ask .forward .all 0 none, .store (.crash leftImage),
    .store (startOn [taggedEvent, untaggedEvent]), .ask .backward .all 3 none, .answer 3 4]

theorem pacedRun_allowed : Histories.Allowed (DurableStore.step crc32 smallConfig)
    (fun store label => store.StepAllowed crc32 smallConfig label ∧
      store.KeepsPace crc32 smallConfig label)
    (.empty : DurableStore flatTable) acknowledgedRun := by
  have appends : Histories.Allowed (DurableStore.step crc32 smallConfig) (Appends crc32)
      (.empty : DurableStore flatTable) acknowledgedRun := by
    decide +kernel
  exact acknowledgedRun_allowed.both (appends.imp fun _ _ => keepsPace_of_appends)

end ReadStore

end Writer.CommitSeam

end Tephra
