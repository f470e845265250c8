import Tephra.SnapshotAlignment

/-!
# The snapshots that readers load

A reader loads the watermark, and the published segments later: between two commits, or in the
middle of one, when a batch is in the active segment and only some of its events are in the tail.
Whatever it loads is consistent with the log, as long as no append fails behind its rollover and
the active segment that the log was opened with does not have too many types.
-/

namespace Tephra

namespace Writer.CommitSeam

open Log hiding Segment

open Index Positions Read SegmentSource SortedMaps

variable {format : MapFormat}

/-- When the published segments are loaded. -/
inductive Moment where
  /-- Between two commits. -/
  | between
  /-- While a batch is committed in place, when some of its events were fed. -/
  | feeding (fed : Nat)
deriving DecidableEq, Repr

namespace Worker

/-- The batch is in the log, and its first events are in the index. -/
def feeding (self : Worker format) (fed : Nat) : Option (Worker format) :=
  (self.index.pushAll (self.batch.committedRecords.take fed)).map fun index =>
    { self with set := self.set.extend self.batch.records, index := index }

/-- The snapshot that a reader loads at a moment.  A batch that rolls over shows nothing of itself
before the segments are published. -/
def shown (self : Worker format) : Moment → Option (Snapshot (IndexSegment format))
  | .between => some self.snapshot
  | .feeding fed => (self.feeding fed).map snapshot

/-- What is fed between two seals has `u32` offsets. -/
def LoadAllowed (self : Worker format) : Moment → Prop
  | .between => True
  | .feeding _ => FitsSegment (self.unsealed ++ self.batch.records)

instance (self : Worker format) (moment : Moment) : Decidable (self.LoadAllowed moment) :=
  match moment with
  | .between => inferInstanceAs (Decidable True)
  | .feeding _ => inferInstanceAs (Decidable (FitsSegment _))

/-- What a writer may do under its readers: no append fails behind its rollover. -/
def WriteAllowed (self : Worker format) (label : WorkerStep) : Prop :=
  self.StepAllowed label ∧ NoLateFailure label

instance (self : Worker format) (label : WorkerStep) : Decidable (self.WriteAllowed label) :=
  inferInstanceAs (Decidable (_ ∧ _))

/-- The writer is sound, and what it has published is aligned with its log. -/
structure Serves (worker : Worker format) : Prop where
  sound : worker.Sound
  aligned : worker.Aligned

/-- What a writer does to its readers: the log grows, and the watermark does not go back. -/
structure Advances (worker next : Worker format) : Prop where
  events_eq : ∃ more, next.set.events = worker.set.events ++ more
  watermark_le : worker.watermark ≤ next.watermark

theorem Advances.refl (worker : Worker format) : worker.Advances worker :=
  ⟨⟨[], (List.append_nil _).symm⟩, le_rfl⟩

theorem Advances.trans {first second third : Worker format} (before : first.Advances second)
    (after : second.Advances third) : first.Advances third := by
  obtain ⟨front, grown⟩ := before.events_eq
  obtain ⟨back, later⟩ := after.events_eq
  refine ⟨⟨front ++ back, ?_⟩, before.watermark_le.trans after.watermark_le⟩
  rw [later, grown, List.append_assoc]

namespace Serves

variable {self next : Worker format}

theorem watermark_eq (serves : self.Serves) : self.watermark = self.set.events.length := by
  have started : firstPosition = 1 := rfl
  rw [serves.aligned.watermark_eq, serves.sound.lastPosition_eq]
  omega

theorem step (lawful : format.Lawful) {crc : List UInt8 → UInt32} (serves : self.Serves)
    {label : WorkerStep} (allowed : self.WriteAllowed label)
    (taken : self.step crc label = some next) : next.Serves ∧ self.Advances next := by
  have later : next.Serves :=
    ⟨sound_step lawful crc serves.sound allowed.1 taken,
      aligned_step lawful crc serves.sound serves.aligned allowed.1 allowed.2 taken⟩
  obtain ⟨more, grown⟩ := serves.sound.events_step taken
  refine ⟨later, ⟨more, grown⟩, ?_⟩
  rw [serves.watermark_eq, later.watermark_eq, grown, List.length_append]
  exact Nat.le_add_right _ _

theorem fed_holds (sound : self.Sound) (aligned : self.Aligned) {fed : Nat}
    (fits : FitsSegment (self.unsealed ++ self.batch.records)) {index : IndexSet format}
    (pushed : self.index.pushAll (self.batch.committedRecords.take fed) = some index)
    (unlatched : index.activeUnindexable = false) :
    index.active.Holds self.set.active.base
        (self.set.active.events ++ self.batch.records.take fed) ∧
      FitsSegment (self.set.active.events ++ self.batch.records.take fed) := by
  have whole := self.set.events_eq_flatten.symm
  rw [unsealed_eq whole aligned.holds, ← List.take_append_drop fed self.batch.records,
    ← List.append_assoc] at fits
  obtain ⟨next, fedAll, holds⟩ := aligned.holds.pushAll fits.prefix
  rw [whole, ← sound.set.nextPosition_eq, ← sound.first_eq, ← take_positioned] at fedAll
  obtain rfl := Option.some.inj (fedAll.symm.trans pushed)
  obtain ⟨-, -, fits, held, rest, split, tail, all, -⟩ := holds.active_holds
  obtain rfl := all unlatched
  rw [List.append_nil] at split
  rw [sound.set.active_base, split]
  exact ⟨tail, split ▸ fits⟩

/-- In the middle of a commit the log has the batch, and the watermark is the old one. -/
theorem feeding_consistent (serves : self.Serves) {fed : Nat} {middle : Worker format}
    (fits : FitsSegment (self.unsealed ++ self.batch.records))
    (fedAt : self.feeding fed = some middle) :
    Consistent middle.snapshot self.watermark (self.set.events ++ self.batch.records) := by
  obtain ⟨sound, aligned⟩ := serves
  obtain ⟨index, pushed, rfl⟩ := Option.map_eq_some_iff.mp fedAt
  obtain ⟨sameSealed, marked⟩ := IndexSet.pushAll_frame pushed
  have grown := sound.grown_holds false
  have loaded : snapshot { self with set := self.set.extend self.batch.records, index := index } =
      ⟨self.set.sealed, index.sealed.map SealedIndex.seg,
        (self.set.extend self.batch.records).active, index.active⟩ := by
    have length := aligned.holds.sealed_hold.length_eq
    rw [List.length_map, ← sameSealed] at length
    exact snapshot_of_capture
      (aligned.published_eq.trans (InStep.capture_congr rfl sameSealed).symm) length
  rw [loaded]
  exact {
    contiguous := grown.contiguous
    recorded := grown.recorded
    covered := by
      have started : firstPosition = 1 := rfl
      rw [Serves.watermark_eq ⟨sound, aligned⟩, List.length_append]
      omega
    room := grown.nextPosition_eq ▸ grown.room
    aligned := by
      rw [sameSealed]
      exact (aligned.indexed sound).imp fun _ _ both => both.1
    active := by
      intro unmarked upto started below
      have unlatched : index.activeUnindexable = false := by
        by_contra latched
        rw [marked aligned.marked (Bool.eq_true_of_not_eq_false latched)] at unmarked
        cases unmarked
      obtain ⟨tail, fits⟩ := fed_holds sound aligned fits pushed unlatched
      have ended := sound.set.active_end
      have nextEq := sound.set.nextPosition_eq
      have one : firstPosition = 1 := rfl
      rw [Serves.watermark_eq ⟨sound, aligned⟩] at below
      change self.set.active.base ≤ upto at started
      change Indexes (index.active.view upto) self.set.active.base
        ((self.grown false).active.events.take (upto + 1 - self.set.active.base))
      have indexes := tail.indexes_view fits started (by rw [List.length_append]; omega)
      rw [List.take_append_of_le_length (by omega)] at indexes
      rwa [show (self.grown false).active.events = self.set.active.events ++ self.batch.records
        from InStep.events_extend self.set self.batch.records,
        List.take_append_of_le_length (by omega)] }

/-- Whatever is loaded, at whatever moment, covers a watermark that was loaded before. -/
theorem shown_consistent (serves : self.Serves) {moment : Moment}
    {snapshot : Snapshot (IndexSegment format)} (allowed : self.LoadAllowed moment)
    (loaded : self.shown moment = some snapshot) {watermark : Nat}
    (below : watermark ≤ self.watermark) :
    ∃ more, more.length ≤ self.batch.records.length ∧
      Consistent snapshot watermark (self.set.events ++ more) := by
  cases moment with
  | between =>
      obtain rfl := Option.some.inj loaded
      refine ⟨[], Nat.zero_le _, ?_⟩
      rw [List.append_nil]
      exact (serves.aligned.consistent serves.sound).mono below
  | feeding fed =>
      obtain ⟨middle, fedAt, rfl⟩ := Option.map_eq_some_iff.mp loaded
      exact ⟨_, le_rfl, (serves.feeding_consistent allowed fedAt).mono below⟩

end Serves

/-- A writer serves from the start if the active segment of its log does not have too many
types. -/
theorem Opened.serves_start {crc : List UInt8 → UInt32} {set : SegmentedLog}
    {index : IndexSet format} (opened : Opened crc set index) (lawful : format.Lawful)
    (few : (distinctTypes set.active.events).length ≤ maxTypeId + 1) (cfg : WriterConfig) :
    (start cfg set index).Serves where
  sound := opened.sound_start lawful cfg
  aligned := opened.aligned_start lawful few cfg

end Worker

end Writer.CommitSeam

end Tephra
