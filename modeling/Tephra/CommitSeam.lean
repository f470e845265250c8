import Tephra.AppendConditions
import Tephra.GroupCommit

/-!
# The commit seam

The writer evaluates the requests of a batch one after another, each against the durable
log and what is staged before it.  The events that were staged are appended as one unit.
Then the index is fed, and it is sealed before that if the log rolled over; the segments
are published again after a rollover, and the watermark after every commit.

An append may fail before or after its rollover.  The file of the active segment and its
tail are shared with the readers.
-/

namespace Tephra

namespace Read

open Log hiding Segment

open Positions SegmentSource

namespace SegmentedLog

/-- Seal the active segment, and start a fresh one. -/
def rollover (self : SegmentedLog) : SegmentedLog :=
  ⟨self.sealed ++ [self.active], ⟨self.nextPosition, []⟩, self.nextPosition⟩

/-- Put the events of a batch behind the active segment. -/
def extend (self : SegmentedLog) (batch : List Event) : SegmentedLog :=
  { self with
    active := ⟨self.active.base, self.active.records ++ batch.map Except.ok⟩
    nextPosition := self.nextPosition + batch.length }

variable {set : SegmentedLog} {log : List Event}

theorem segments_rollover (set : SegmentedLog) :
    segments set.rollover = segments set ++ [⟨set.nextPosition, []⟩] := rfl

theorem records_rollover (set : SegmentedLog) : records set.rollover = records set := by
  rw [records, segments_rollover, List.flatMap_append]
  exact List.append_nil _

theorem records_extend (set : SegmentedLog) (batch : List Event) :
    records (set.extend batch) = records set ++ batch.map Except.ok := by
  have split : segments set = set.sealed ++ [set.active] := rfl
  have extended : segments (set.extend batch) =
      set.sealed ++ [⟨set.active.base, set.active.records ++ batch.map Except.ok⟩] := rfl
  simp only [records, split, extended, List.flatMap_append, List.flatMap_singleton,
    List.append_assoc]

/-- The events of the sealed segments, and behind them those of the active one. -/
theorem events_eq_flatten (set : SegmentedLog) :
    set.events = (set.sealed.map Segment.events).flatten ++ set.active.events := by
  have split : segments set = set.sealed ++ [set.active] := rfl
  rw [events, split, List.flatMap_append, List.flatMap_singleton, List.flatMap_def]

theorem Holds.events_eq (holds : set.Holds log) : set.events = log :=
  (records_of_flatMap holds.recorded).2

/-- A rollover starts a segment, and keeps the log. -/
theorem Holds.rollover (holds : set.Holds log) : set.rollover.Holds log where
  contiguous := by
    have nextEq := holds.next_eq
    rw [records, length_flatMap_records] at nextEq
    rw [segments_rollover, contiguous_append]
    exact ⟨holds.contiguous, nextEq, trivial⟩
  next_eq := by
    rw [records_rollover]
    exact holds.next_eq
  room := holds.room
  recorded := by
    rw [records_rollover]
    exact holds.recorded

/-- The events of a batch are put behind the log. -/
theorem Holds.extend (holds : set.Holds log) {batch : List Event}
    (room : set.nextPosition + batch.length ≤ maxPosition) :
    (set.extend batch).Holds (log ++ batch) where
  contiguous := by
    have contiguous := holds.contiguous
    rw [show segments set = set.sealed ++ [set.active] from rfl, contiguous_append] at contiguous
    exact contiguous_append.mpr contiguous
  next_eq := by
    rw [records_extend, List.length_append, List.length_map, ← Nat.add_assoc, ← holds.next_eq]
    rfl
  room := room
  recorded := by rw [records_extend, holds.recorded, List.map_append]

theorem Holds.nextPosition_eq (holds : set.Holds log) :
    set.nextPosition = firstPosition + log.length := by
  rw [holds.next_eq, holds.recorded, List.length_map]

/-- The active segment ends where the log does. -/
theorem Holds.active_end (holds : set.Holds log) :
    set.active.base + set.active.events.length = set.nextPosition := by
  rw [holds.nextPosition_eq, holds.active_base, ← holds.events_eq, events_eq_flatten,
    List.length_append, Nat.add_assoc]

end SegmentedLog

end Read

namespace Index

open Positions SortedMaps

variable {format : MapFormat}

/-- Feed events at their positions, in order. -/
def IndexSet.pushAll (self : IndexSet format) (entries : List (Nat × Event)) :
    Option (IndexSet format) :=
  entries.foldlM (fun index entry => index.push entry.1 entry.2) self

/-- Events that are fed in order belong to the active segment. -/
theorem IndexSet.Holds.pushAll {set : IndexSet format} {base : Nat} {segs : List (List Event)}
    {current events : List Event} (holds : set.Holds base segs current)
    (fits : FitsSegment (current ++ events)) :
    ∃ next, set.pushAll (positioned (base + (segs.flatten ++ current).length) events) = some next ∧
      next.Holds base segs (current ++ events) := by
  induction events generalizing set current with
  | nil => exact ⟨set, rfl, by rwa [List.append_nil]⟩
  | cons event events ih =>
      have whole : current ++ event :: events = current ++ [event] ++ events := by simp
      rw [whole] at fits ⊢
      obtain ⟨middle, pushed, middleHolds⟩ := holds.push rfl fits.prefix
      obtain ⟨next, fed, nextHolds⟩ := ih middleHolds fits
      have behind : base + (segs.flatten ++ current).length + 1 =
          base + (segs.flatten ++ (current ++ [event])).length := by
        simp only [List.length_append, List.length_singleton]
        omega
      refine ⟨next, ?_, nextHolds⟩
      rw [positioned_cons, IndexSet.pushAll, List.foldlM_cons, pushed, behind]
      exact fed

end Index

namespace Writer.CommitSeam

open Log hiding Segment

open Index Positions Read SegmentSource SortedMaps

/-- A request: its events, and its condition. -/
structure Request where
  events : List Event
  condition : Option AppendCondition
deriving DecidableEq

/-- What `append_batch` does: it may roll over or not, and it may fail before the rollover or
behind it. -/
inductive AppendOutcome where
  | appended
  | rolledOver
  | failedBefore (error : LogError)
  | failedAfter (error : LogError)
deriving DecidableEq

/-- Append a batch, and give its first and last position. -/
def appendBatch (outcome : AppendOutcome) (batch : List Event) (set : SegmentedLog) :
    Except LogError (Nat × Nat) × SegmentedLog :=
  let range := (set.nextPosition, set.nextPosition + batch.length - 1)
  match outcome with
  | .appended => (.ok range, set.extend batch)
  | .rolledOver => (.ok range, set.rollover.extend batch)
  | .failedBefore error => (.error error, set)
  | .failedAfter error => (.error error, set.rollover)

/-- A batch that is being built: the accepted requests with their ranges, their events, and the
tags of these. -/
structure Batch where
  records : List Event
  staged : List (Request × Nat × Nat)
  tips : StagedTips
  first : Nat
  next : Nat

abbrev Answer := Except AppendError (Nat × Nat)

namespace Batch

def new (next : Nat) : Batch :=
  ⟨[], [], StagedTips.new, next, next⟩

/-- The events take the next positions, one each. -/
def stage (self : Batch) (request : Request) : Batch :=
  let next := self.next + request.events.length
  { self with
    records := self.records ++ request.events
    staged := self.staged ++ [(request, self.next, next - 1)]
    tips := self.tips.recordEvents (positioned self.next request.events)
    next := next }

/-- The events with their positions. -/
def committedRecords (self : Batch) : List (Nat × Event) :=
  positioned self.first self.records

def commitOk (self : Batch) : List (Request × Answer) :=
  self.staged.map fun staged => (staged.1, .ok staged.2)

def commitErr (self : Batch) (error : AppendError) : List (Request × Answer) :=
  self.staged.map fun staged => (staged.1, .error error)

end Batch

/-- What of the configuration the evaluation of conditions looks at, and whether the build has
debug assertions. -/
structure WriterConfig where
  tipsWindow : Nat
  verifyTips : Bool
  conditionForceScan : Bool
  debugAssertions : Bool

variable (format : MapFormat)

/-- What readers load: the sealed segments with their indexes, and the number of the active
segment. -/
structure Published where
  sealedLog : List Segment
  sealedIndex : List (Option (IndexSegment format))
  activeAt : Nat

/-- The writer with its batch, what it published, and the answers it gave. -/
structure Worker where
  cfg : WriterConfig
  set : SegmentedLog
  index : IndexSet format
  tips : TagTips
  batch : Batch
  published : Published format
  watermark : Nat
  answers : List (Request × Answer)

inductive WorkerStep where
  /-- The next request of the loop. -/
  | request (request : Request)
  /-- The end of the loop. -/
  | commit (outcome : AppendOutcome) (createdAtNanos : UInt64)

variable {format}

/-- `Snapshot::capture`: a log segment without an index handle gets none. -/
def Published.capture (set : SegmentedLog) (index : IndexSet format) : Published format :=
  ⟨set.sealed, (List.range set.sealed.length).map fun i => index.sealed[i]?.bind SealedIndex.seg,
    set.sealed.length⟩

namespace Worker

/-- The writer of an open log. -/
def start (cfg : WriterConfig) (set : SegmentedLog) (index : IndexSet format) : Worker format :=
  ⟨cfg, set, index, TagTips.new set.nextPosition cfg.tipsWindow defaultMaxEntries,
    Batch.new set.nextPosition, Published.capture set index, set.lastPosition, []⟩

/-- The snapshot that a reader loads.  Its active segment is still the one that was captured,
and its tail is that of the index set, which is replaced only before segments are published. -/
def snapshot (self : Worker format) : Snapshot (IndexSegment format) :=
  ⟨self.published.sealedLog, self.published.sealedIndex,
    (segments self.set).getD self.published.activeAt self.set.active, self.index.active⟩

/-- What the condition of a request is evaluated against. -/
def ctx (self : Worker format) : EvalCtx format :=
  ⟨self.tips, self.batch.tips, self.index, self.set, self.cfg.verifyTips,
    self.cfg.conditionForceScan, self.cfg.debugAssertions⟩

/-- Whether a request is accepted.  The result is `none` where the code panics. -/
def verdict (self : Worker format) (request : Request) : Option (Except AppendError Unit) :=
  match request.condition with
  | none => some (.ok ())
  | some cond =>
      if cond.after > self.set.lastPosition then
        some (.error (.afterBeyondTip cond.after self.set.lastPosition))
      else
        match evaluate self.ctx cond with
        | none => none
        | some (.error error) => some (.error error)
        | some (.ok (some (clause, site))) => some (.error (.conflict clause site))
        | some (.ok none) => some (.ok ())

/-- A request is staged, or answered at once. -/
def next (self : Worker format) (request : Request) : Option (Worker format) :=
  (self.verdict request).map fun decision =>
    match decision with
    | .ok () => { self with batch := self.batch.stage request }
    | .error error => { self with answers := self.answers ++ [(request, .error error)] }

/-- Seal the index if the log rolled over, and feed it what was committed. -/
def feed (crc : List UInt8 → UInt32) (rolled : Bool) (first createdAtNanos : Nat)
    (committed : List (Nat × Event)) (index : IndexSet format) : Option (IndexSet format) :=
  (if rolled then index.sealActive crc first createdAtNanos else some index).bind fun index =>
    index.pushAll committed

/-- The append failed: every staged request gets the error. -/
def fail (self : Worker format) (set : SegmentedLog) (error : LogError) : Worker format :=
  { self with
    set := set
    batch := Batch.new set.nextPosition
    answers := self.answers ++ self.batch.commitErr (GroupCommit.classify error) }

/-- The batch is durable, and the index was fed. -/
def publish (self : Worker format) (set : SegmentedLog) (rolled : Bool)
    (index : IndexSet format) : Worker format :=
  { self with
    set := set
    index := index
    tips := self.tips.absorb self.batch.tips set.nextPosition
    batch := Batch.new set.nextPosition
    published := if rolled then Published.capture set index else self.published
    watermark := set.lastPosition
    answers := self.answers ++ self.batch.commitOk }

/-- Append what was staged, feed the index, and publish. -/
def commit (crc : List UInt8 → UInt32) (outcome : AppendOutcome) (createdAtNanos : Nat)
    (self : Worker format) : Option (Worker format) :=
  if self.batch.records.isEmpty then
    some { self with batch := Batch.new self.set.nextPosition }
  else
    match appendBatch outcome self.batch.records self.set with
    | (.error error, set) => some (self.fail set error)
    | (.ok range, set) =>
        let rolled := self.set.sealed.length < set.sealed.length
        (feed crc rolled range.1 createdAtNanos self.batch.committedRecords self.index).map
          (self.publish set rolled)

def step (crc : List UInt8 → UInt32) (self : Worker format) :
    WorkerStep → Option (Worker format)
  | .request request => self.next request
  | .commit outcome createdAtNanos => self.commit crc outcome createdAtNanos.toNat

/-- The events that the active tail stands for: those from its base on. -/
def unsealed (self : Worker format) : List Event :=
  self.set.events.drop (self.index.activeBase - firstPosition)

/-- Positions are 64-bit integers, and what is fed between two seals has `u32` offsets. -/
def StepAllowed (self : Worker format) : WorkerStep → Prop
  | .request request => self.batch.next + request.events.length ≤ maxPosition
  | .commit .appended _ => FitsSegment (self.unsealed ++ self.batch.records)
  | .commit .rolledOver _ => FitsSegment self.batch.records
  | .commit (.failedBefore _) _ => True
  | .commit (.failedAfter _) _ => True

instance (self : Worker format) (label : WorkerStep) : Decidable (self.StepAllowed label) :=
  match label with
  | .request _ => inferInstanceAs (Decidable (_ ≤ _))
  | .commit .appended _ => inferInstanceAs (Decidable (FitsSegment _))
  | .commit .rolledOver _ => inferInstanceAs (Decidable (FitsSegment _))
  | .commit (.failedBefore _) _ => inferInstanceAs (Decidable True)
  | .commit (.failedAfter _) _ => inferInstanceAs (Decidable True)

/-- The segments hold the log, the index and the tips describe it, and the staged events come
behind it. -/
structure Sound (worker : Worker format) : Prop where
  set : worker.set.Holds worker.set.events
  index : ∃ segs current, segs.flatten ++ current = worker.set.events ∧
    worker.index.Holds firstPosition segs current
  tips : worker.tips.Sound (positioned firstPosition worker.set.events)
  first_eq : worker.batch.first = worker.set.nextPosition
  next_eq : worker.batch.next = worker.batch.first + worker.batch.records.length
  room : worker.batch.next ≤ maxPosition
  staged : worker.batch.tips.Holds worker.batch.committedRecords

/-- The segments after a batch was appended. -/
def grown (self : Worker format) (rolled : Bool) : SegmentedLog :=
  (if rolled then self.set.rollover else self.set).extend self.batch.records

theorem commit_cases {crc : List UInt8 → UInt32} {outcome : AppendOutcome} {createdAtNanos : Nat}
    {self next : Worker format} (taken : self.commit crc outcome createdAtNanos = some next) :
    (self.batch.records = [] ∧ next = { self with batch := Batch.new self.set.nextPosition }) ∨
    (self.batch.records ≠ [] ∧ ∃ error,
      (outcome = .failedBefore error ∧ next = self.fail self.set error ∨
        outcome = .failedAfter error ∧ next = self.fail self.set.rollover error)) ∨
    (self.batch.records ≠ [] ∧ ∃ rolled index,
      outcome = (if rolled then .rolledOver else .appended) ∧
        feed crc rolled self.set.nextPosition createdAtNanos self.batch.committedRecords
          self.index = some index ∧
        next = self.publish (self.grown rolled) rolled index) := by
  rw [commit] at taken
  split at taken
  · next empty => exact .inl ⟨List.isEmpty_iff.mp empty, (Option.some.inj taken).symm⟩
  · next nonempty =>
      have nonempty : self.batch.records ≠ [] := fun empty => nonempty (by rw [empty]; rfl)
      cases outcome with
      | failedBefore error =>
          exact .inr (.inl ⟨nonempty, error, .inl ⟨rfl, (Option.some.inj taken).symm⟩⟩)
      | failedAfter error =>
          exact .inr (.inl ⟨nonempty, error, .inr ⟨rfl, (Option.some.inj taken).symm⟩⟩)
      | appended =>
          obtain ⟨index, fed, rfl⟩ := Option.map_eq_some_iff.mp taken
          have kept : decide (self.set.sealed.length <
              (self.set.extend self.batch.records).sealed.length) = false :=
            decide_eq_false (Nat.lt_irrefl _)
          rw [kept] at fed ⊢
          exact .inr (.inr ⟨nonempty, false, index, rfl, fed, rfl⟩)
      | rolledOver =>
          obtain ⟨index, fed, rfl⟩ := Option.map_eq_some_iff.mp taken
          have grew : decide (self.set.sealed.length <
              (self.set.rollover.extend self.batch.records).sealed.length) = true := by
            apply decide_eq_true
            change _ < (self.set.sealed ++ [self.set.active]).length
            rw [List.length_append, List.length_singleton]
            exact Nat.lt_succ_self _
          rw [grew] at fed ⊢
          exact .inr (.inr ⟨nonempty, true, index, rfl, fed, rfl⟩)

theorem feed_holds (lawful : format.Lawful) (crc : List UInt8 → UInt32)
    {index next : IndexSet format} {base : Nat} {segs : List (List Event)}
    {current events : List Event} (holds : index.Holds base segs current) {rolled : Bool}
    {first createdAtNanos : Nat} (placed : first = base + (segs.flatten ++ current).length)
    (firstFits : first < 2 ^ 64) (createdFits : createdAtNanos < 2 ^ 64)
    (fits : FitsSegment (if rolled then events else current ++ events))
    (fed : feed crc rolled first createdAtNanos (positioned first events) index = some next) :
    next.Holds base (if rolled then segs ++ [current] else segs)
      (if rolled then events else current ++ events) := by
  rw [feed] at fed
  obtain ⟨sealed, made, pushed⟩ := Option.bind_eq_some_iff.mp fed
  subst placed
  cases rolled with
  | true =>
      have fresh := holds.sealActive lawful crc rfl firstFits createdFits made
      obtain ⟨last, fedAll, lastHolds⟩ := fresh.pushAll fits
      have same : base + ((segs ++ [current]).flatten ++ []).length =
          base + (segs.flatten ++ current).length := by simp
      rw [same, pushed] at fedAll
      obtain rfl := Option.some.inj fedAll
      exact lastHolds
  | false =>
      obtain rfl := Option.some.inj made
      obtain ⟨last, fedAll, lastHolds⟩ := holds.pushAll fits
      rw [pushed] at fedAll
      obtain rfl := Option.some.inj fedAll
      exact lastHolds

/-- The tail stands for the active segment of the index. -/
theorem unsealed_eq {self : Worker format} {segs : List (List Event)} {current : List Event}
    (whole : segs.flatten ++ current = self.set.events)
    (holds : self.index.Holds firstPosition segs current) : self.unsealed = current := by
  rw [unsealed, ← whole, holds.active_holds.base_eq, Nat.add_sub_cancel_left, List.drop_left]

namespace Sound

variable {self : Worker format}

theorem lastPosition_eq (sound : self.Sound) :
    self.set.lastPosition = firstPosition + self.set.events.length - 1 := by
  rw [SegmentedLog.lastPosition, sound.set.nextPosition_eq]

theorem stage (sound : self.Sound) {request : Request}
    (room : self.batch.next + request.events.length ≤ maxPosition) :
    Sound { self with batch := self.batch.stage request } where
  set := sound.set
  index := sound.index
  tips := sound.tips
  first_eq := sound.first_eq
  next_eq := by
    change self.batch.next + request.events.length =
      self.batch.first + (self.batch.records ++ request.events).length
    rw [sound.next_eq, List.length_append, Nat.add_assoc]
  room := room
  staged := by
    have more := @StagedTips.Holds.recordEvents _ _ (positioned self.batch.next request.events)
      sound.staged
    rwa [sound.next_eq, Batch.committedRecords, ← positioned_append, ← sound.next_eq] at more

theorem fresh (set : self.set.Holds self.set.events)
    (index : ∃ segs current, segs.flatten ++ current = self.set.events ∧
      self.index.Holds firstPosition segs current)
    (tips : self.tips.Sound (positioned firstPosition self.set.events))
    (batch : self.batch = Batch.new self.set.nextPosition) : self.Sound where
  set := set
  index := index
  tips := tips
  first_eq := by rw [batch]; rfl
  next_eq := by rw [batch]; rfl
  room := by
    rw [batch]
    exact set.room
  staged := by
    rw [batch]
    exact StagedTips.holds_new

theorem grown_holds (sound : self.Sound) (rolled : Bool) :
    (self.grown rolled).Holds (self.set.events ++ self.batch.records) := by
  have room := sound.room
  rw [sound.next_eq, sound.first_eq] at room
  cases rolled with
  | true => exact sound.set.rollover.extend room
  | false => exact sound.set.extend room

theorem fail (sound : self.Sound) {set : SegmentedLog} (holds : set.Holds self.set.events)
    (error : LogError) : (self.fail set error).Sound := by
  have same : set.events = self.set.events := holds.events_eq
  apply fresh
  · exact same ▸ holds
  · exact same ▸ sound.index
  · exact same ▸ sound.tips
  · rfl

theorem publish (sound : self.Sound) {rolled : Bool} {index : IndexSet format}
    (holds : ∃ segs current, segs.flatten ++ current = self.set.events ++ self.batch.records ∧
      index.Holds firstPosition segs current) :
    (self.publish (self.grown rolled) rolled index).Sound := by
  have grown := sound.grown_holds rolled
  have same : (self.grown rolled).events = self.set.events ++ self.batch.records :=
    grown.events_eq
  apply fresh
  · exact same.symm ▸ grown
  · exact same.symm ▸ holds
  · have absorbed := sound.tips.absorb sound.staged (by
      intro entry member later behind
      rw [Batch.committedRecords, sound.first_eq, sound.set.nextPosition_eq] at behind
      obtain ⟨-, found⟩ := mem_positioned.mp member
      have short := (List.getElem?_eq_some_iff.mp found).1
      have started := (mem_positioned.mp behind).1
      omega) (self.grown rolled).nextPosition
    rw [Batch.committedRecords, sound.first_eq, sound.set.nextPosition_eq,
      ← positioned_append, ← same] at absorbed
    exact absorbed
  · rfl

theorem feed (sound : self.Sound) (lawful : format.Lawful) (crc : List UInt8 → UInt32)
    {segs : List (List Event)} {current : List Event}
    (whole : segs.flatten ++ current = self.set.events)
    (holds : self.index.Holds firstPosition segs current) {rolled : Bool}
    {createdAtNanos : Nat} (createdFits : createdAtNanos < 2 ^ 64)
    (fits : FitsSegment (if rolled then self.batch.records else current ++ self.batch.records))
    {index : IndexSet format} (fed : feed crc rolled self.set.nextPosition createdAtNanos
      self.batch.committedRecords self.index = some index) :
    index.Holds firstPosition (if rolled then segs ++ [current] else segs)
      (if rolled then self.batch.records else current ++ self.batch.records) := by
  have room := sound.set.room
  have placed := sound.set.nextPosition_eq
  rw [← whole] at placed
  rw [Batch.committedRecords, sound.first_eq] at fed
  have firstFits : self.set.nextPosition < 2 ^ 64 := by
    change _ ≤ 2 ^ 64 - 1 at room
    omega
  exact feed_holds lawful crc holds placed firstFits createdFits fits fed

end Sound

theorem sound_step (lawful : format.Lawful) (crc : List UInt8 → UInt32) {self next : Worker format}
    {label : WorkerStep} (sound : self.Sound) (allowed : self.StepAllowed label)
    (taken : self.step crc label = some next) : next.Sound := by
  cases label with
  | request request =>
      obtain ⟨verdict, -, rfl⟩ := Option.map_eq_some_iff.mp taken
      cases verdict with
      | ok _ => exact sound.stage allowed
      | error error =>
          exact ⟨sound.set, sound.index, sound.tips, sound.first_eq, sound.next_eq, sound.room,
            sound.staged⟩
  | commit outcome createdAtNanos =>
      obtain ⟨segs, current, whole, holds⟩ := sound.index
      rcases commit_cases taken with ⟨-, rfl⟩ |
        ⟨-, error, ⟨-, rfl⟩ | ⟨-, rfl⟩⟩ | ⟨-, rolled, index, rfl, fed, rfl⟩
      · exact .fresh sound.set sound.index sound.tips rfl
      · exact sound.fail sound.set error
      · exact sound.fail sound.set.rollover error
      · have fits : FitsSegment
            (if rolled then self.batch.records else current ++ self.batch.records) := by
          cases rolled with
          | true => exact allowed
          | false =>
              rw [← unsealed_eq whole holds]
              exact allowed
        have fedHolds := sound.feed lawful crc whole holds createdAtNanos.toNat_lt fits fed
        refine sound.publish ⟨_, _, ?_, fedHolds⟩
        rw [← whole]
        cases rolled <;> simp

theorem Sound.events_step {crc : List UInt8 → UInt32} {self next : Worker format}
    {label : WorkerStep} (sound : self.Sound)
    (taken : self.step crc label = some next) :
    ∃ more, next.set.events = self.set.events ++ more := by
  cases label with
  | request other =>
      obtain ⟨decision, -, rfl⟩ := Option.map_eq_some_iff.mp taken
      cases decision with
      | ok _ => exact ⟨[], (List.append_nil _).symm⟩
      | error _ => exact ⟨[], (List.append_nil _).symm⟩
  | commit outcome createdAtNanos =>
      rcases commit_cases taken with ⟨-, rfl⟩ |
        ⟨-, error, ⟨-, rfl⟩ | ⟨-, rfl⟩⟩ | ⟨-, rolled, index, -, -, rfl⟩
      · exact ⟨[], (List.append_nil _).symm⟩
      · exact ⟨[], (List.append_nil _).symm⟩
      · exact ⟨[], sound.set.rollover.events_eq.trans (List.append_nil _).symm⟩
      · exact ⟨self.batch.records, (sound.grown_holds rolled).events_eq⟩

/-- A log was opened, and its index with it, whatever the files of the index directory. -/
structure Opened (crc : List UInt8 → UInt32) (set : SegmentedLog) (index : IndexSet format) :
    Prop where
  accepted : set.Accepted
  fits : ∀ segment ∈ segments set, FitsSegment segment.events
  indexed : ∃ files clock, (∀ segment ∈ set.sealed, FileFits format crc files segment) ∧
    IndexSet.open_ format crc files clock set = some (.ok index)

namespace Opened

variable {crc : List UInt8 → UInt32} {set : SegmentedLog} {index : IndexSet format}

theorem holds (opened : Opened crc set index) (lawful : format.Lawful) :
    set.Holds set.events ∧
      index.Holds firstPosition (set.sealed.map Segment.events) set.active.events := by
  obtain ⟨accepted, fits, files, clock, filesFit, made⟩ := opened
  exact ⟨(open_ok lawful accepted fits filesFit made).1,
    open_holds lawful accepted fits filesFit made⟩

theorem sound_start (opened : Opened crc set index) (lawful : format.Lawful)
    (cfg : WriterConfig) : (start cfg set index).Sound := by
  obtain ⟨holds, indexHolds⟩ := opened.holds lawful
  apply Sound.fresh
  · exact holds
  · exact ⟨_, _, set.events_eq_flatten.symm, indexHolds⟩
  · apply TagTips.sound_new
    intro entry member
    obtain ⟨started, found⟩ := mem_positioned.mp member
    have short : _ < set.events.length := (List.getElem?_eq_some_iff.mp found).1
    have nextEq := holds.nextPosition_eq
    omega
  · rfl

/-- Every run from an open log keeps the writer sound. -/
theorem sound_run (opened : Opened crc set index) (lawful : format.Lawful) (cfg : WriterConfig)
    {labels : List WorkerStep} {last : Worker format}
    (allowed : Histories.Allowed (step crc) StepAllowed (start cfg set index) labels)
    (ran : Histories.run (step crc) (start cfg set index) labels = some last) : last.Sound :=
  Histories.invariant_of_run
    (fun _ _ _ sound allowed taken => sound_step lawful crc sound allowed taken)
    (opened.sound_start lawful cfg) allowed ran

end Opened

def plainConfig : WriterConfig := ⟨8, false, false, false⟩

def untaggedEvent : Event := ⟨letterA, Tags.empty, []⟩

theorem emptyLog_opened :
    Opened Seglog.crc32 emptyLog (IndexSet.new flatTable 1) where
  accepted := emptyLog_accepted
  fits := by
    intro segment member
    obtain rfl := List.mem_singleton.mp member
    rw [FitsSegment]
    decide
  indexed := ⟨fun _ => none, fun _ => 0, by simp [emptyLog], rfl⟩

end Worker

end Writer.CommitSeam

end Tephra
