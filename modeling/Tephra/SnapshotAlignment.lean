import Tephra.CommitSeam

/-!
# Published snapshots

The writer seals the index when the number of sealed log segments has grown, and publishes
the segments again only then.  As long as no append fails behind its rollover, the sealed
indexes are those of the sealed segments, one for one, and the snapshot covers the
watermark.
-/

namespace Tephra

namespace Index

open SortedMaps

variable {format : MapFormat}

/-- A tail that was latched is marked, so that readers see it. -/
def IndexSet.Marked (self : IndexSet format) : Prop :=
  self.activeUnindexable = true → self.active.unindexable = true

namespace IndexSet

variable {self next : IndexSet format}

theorem push_frame {position : Nat} {event : Event}
    (pushed : self.push position event = some next) :
    next.sealed = self.sealed ∧ (self.Marked → next.Marked) := by
  simp only [push] at pushed
  split at pushed
  · cases pushed
    exact ⟨rfl, id⟩
  · next unlatched =>
      split at pushed
      · cases pushed
      · cases pushed
        exact ⟨rfl, fun _ _ => rfl⟩
      · cases pushed
        exact ⟨rfl, fun _ latched => absurd latched unlatched⟩

theorem pushAll_frame {entries : List (Nat × Event)}
    (pushed : self.pushAll entries = some next) :
    next.sealed = self.sealed ∧ (self.Marked → next.Marked) := by
  induction entries generalizing self with
  | nil =>
      obtain rfl := Option.some.inj pushed
      exact ⟨rfl, id⟩
  | cons entry entries ih =>
      rw [pushAll, List.foldlM_cons] at pushed
      obtain ⟨middle, first, later⟩ := Option.bind_eq_some_iff.mp pushed
      obtain ⟨firstSealed, firstMarked⟩ := push_frame first
      obtain ⟨laterSealed, laterMarked⟩ := ih later
      exact ⟨laterSealed.trans firstSealed, fun marked => laterMarked (firstMarked marked)⟩

end IndexSet

theorem SealedHold.length_eq {base : Nat} {entries : List (SealedIndex format)}
    {segs : List (List Event)} (hold : SealedHold base entries segs) :
    entries.length = segs.length := by
  induction hold with
  | nil base => rfl
  | cons first later ih => rw [List.length_cons, List.length_cons, ih]

end Index

namespace Read

open Log hiding Segment

open Index SegmentSource SortedMaps

/-- The slots of contiguous segments index their records. -/
theorem indexed_of_sealedHold {format : MapFormat} {base : Nat}
    {entries : List (SealedIndex format)} {segs : List Segment}
    (hold : SealedHold base entries (segs.map Segment.events)) (contiguous : Contiguous base segs)
    (recorded : ∀ segment ∈ segs, segment.records = segment.events.map Except.ok) :
    List.Forall₂ (fun segment index => IndexedBy segment index ∧
      segment.events.length = segment.records.length) segs (entries.map SealedIndex.seg) := by
  induction segs generalizing base entries with
  | nil =>
      cases hold
      exact .nil
  | cons segment segs ih =>
      cases hold with
      | @cons _ entry _ entries _ first later =>
          rw [List.forall_mem_cons] at recorded
          obtain ⟨here, others⟩ := recorded
          have counted : segment.records.length = segment.events.length := by
            conv_lhs => rw [here, List.length_map]
          obtain ⟨baseEq, behind⟩ := contiguous
          change segment.base = base at baseEq
          change Contiguous (base + segment.records.length) segs at behind
          rw [counted] at behind
          refine .cons ⟨?_, counted.symm⟩ (ih later behind others)
          intro built found
          rw [baseEq]
          exact (first.indexed built found).1

end Read

namespace Writer.CommitSeam

open Log hiding Segment

open Index Positions Read SegmentSource SortedMaps

variable {format : MapFormat}

/-- An index has the positions of a segment. -/
def Spans {ι : Type} [SegmentIndex ι] (segment : Segment) (index : ι) : Prop :=
  SegmentIndex.base index = segment.base ∧ SegmentIndex.len index = segment.records.length

namespace Worker

/-- The snapshot that readers load covers the watermark.  Each index in it has the positions of
its segment; a tail that is marked unindexable is not used. -/
structure Covers (worker : Worker format) : Prop where
  reached : ∀ position, firstPosition ≤ position → position ≤ worker.watermark →
    ∃ segment ∈ segments worker.snapshot,
      segment.base ≤ position ∧ position < segment.base + segment.records.length
  sealed : List.Forall₂
    (fun segment index => ∀ built, index = some built → Spans segment built)
    worker.snapshot.sealedLog worker.snapshot.sealedIndex
  active_base : worker.snapshot.activeIndex.base = worker.snapshot.activeLog.base
  active_len : worker.snapshot.activeIndex.unindexable = false →
    worker.snapshot.activeIndex.len = worker.snapshot.activeLog.records.length

/-- The index is sealed where the log is, and what is published is as it stands. -/
structure InStep (worker : Worker format) : Prop where
  published_eq : worker.published = Published.capture worker.set worker.index
  holds : worker.index.Holds firstPosition (worker.set.sealed.map Segment.events)
    worker.set.active.events
  watermark_eq : worker.watermark = worker.set.lastPosition
  fits : ∀ segment ∈ worker.set.sealed, FitsSegment segment.events

/-- A tail that was latched is marked, too. -/
structure Aligned (worker : Worker format) : Prop extends InStep worker where
  marked : worker.index.Marked

/-- Sealing and feeding add one sealed index exactly if the log rolled over. -/
theorem feed_frame {crc : List UInt8 → UInt32} {rolled : Bool} {first createdAtNanos : Nat}
    {committed : List (Nat × Event)} {index next : IndexSet format}
    (fed : feed crc rolled first createdAtNanos committed index = some next) :
    (rolled = false → next.sealed = index.sealed) ∧ (index.Marked → next.Marked) := by
  rw [feed] at fed
  obtain ⟨sealed, made, pushed⟩ := Option.bind_eq_some_iff.mp fed
  obtain ⟨same, marked⟩ := IndexSet.pushAll_frame pushed
  cases rolled with
  | true =>
      obtain ⟨seg, -, rfl⟩ := Option.map_eq_some_iff.mp made
      refine ⟨by simp, fun _ => marked ?_⟩
      intro latched
      cases latched
  | false =>
      obtain rfl := Option.some.inj made
      exact ⟨fun _ => same, marked⟩

namespace InStep

variable {self : Worker format}

/-- What is published depends on the sealed segments only. -/
theorem capture_congr {set later : SegmentedLog} {index next : IndexSet format}
    (sameLog : later.sealed = set.sealed) (sameIndex : next.sealed = index.sealed) :
    Published.capture later next = Published.capture set index := by
  rw [Published.capture, Published.capture, sameLog, sameIndex]

theorem events_extend (set : SegmentedLog) (batch : List Event) :
    (set.extend batch).active.events = set.active.events ++ batch := by
  change (set.active.records ++ batch.map Except.ok).filterMap Except.toOption = _
  rw [List.filterMap_append]
  exact congrArg (set.active.events ++ ·) (Segment.events_of_records (rfl : (⟨0, batch.map
    Except.ok⟩ : Segment).records = _))

theorem publish (sound : self.Sound) (inStep : self.InStep) (lawful : format.Lawful)
    (crc : List UInt8 → UInt32) {rolled : Bool} {createdAtNanos : Nat}
    (createdFits : createdAtNanos < 2 ^ 64)
    (fits : FitsSegment
      (if rolled then self.batch.records else self.set.active.events ++ self.batch.records))
    {index : IndexSet format} (fed : feed crc rolled self.set.nextPosition createdAtNanos
      self.batch.committedRecords self.index = some index) :
    (self.publish (self.grown rolled) rolled index).InStep := by
  have holds := sound.feed lawful crc self.set.events_eq_flatten.symm inStep.holds createdFits
    fits fed
  cases rolled with
  | true =>
      refine ⟨rfl, ?_, rfl, fun segment member => ?_⟩
      · have sealedEq : (self.grown true).sealed.map Segment.events =
            self.set.sealed.map Segment.events ++ [self.set.active.events] := List.map_append
        have activeEq : (self.grown true).active.events = self.batch.records :=
          events_extend self.set.rollover self.batch.records
        change index.Holds _ ((self.grown true).sealed.map Segment.events)
          (self.grown true).active.events
        rw [sealedEq, activeEq]
        exact holds
      · rcases List.mem_append.mp member with before | last
        · exact inStep.fits segment before
        · obtain rfl := List.mem_singleton.mp last
          exact inStep.holds.active_holds.fits
  | false =>
      have sameIndex := (feed_frame fed).1 rfl
      refine ⟨inStep.published_eq.trans (capture_congr rfl sameIndex).symm, ?_, rfl, inStep.fits⟩
      change index.Holds _ (self.set.sealed.map Segment.events) (self.grown false).active.events
      rw [show (self.grown false).active.events = self.set.active.events ++ self.batch.records
        from events_extend self.set self.batch.records]
      exact holds

end InStep

/-- No append fails behind its rollover. -/
def NoLateFailure : WorkerStep → Prop
  | .commit (.failedAfter _) _ => False
  | _ => True

instance (label : WorkerStep) : Decidable (NoLateFailure label) :=
  match label with
  | .request _ => inferInstanceAs (Decidable True)
  | .commit .appended _ => inferInstanceAs (Decidable True)
  | .commit .rolledOver _ => inferInstanceAs (Decidable True)
  | .commit (.failedBefore _) _ => inferInstanceAs (Decidable True)
  | .commit (.failedAfter _) _ => inferInstanceAs (Decidable False)

theorem inStep_step (lawful : format.Lawful) (crc : List UInt8 → UInt32)
    {self next : Worker format} {label : WorkerStep} (sound : self.Sound)
    (inStep : self.InStep) (allowed : self.StepAllowed label) (timely : NoLateFailure label)
    (taken : self.step crc label = some next) : next.InStep := by
  obtain ⟨published, holds, watermark, sealedFits⟩ := inStep
  cases label with
  | request request =>
      obtain ⟨verdict, -, rfl⟩ := Option.map_eq_some_iff.mp taken
      cases verdict with
      | ok _ => exact ⟨published, holds, watermark, sealedFits⟩
      | error error => exact ⟨published, holds, watermark, sealedFits⟩
  | commit outcome createdAtNanos =>
      rcases commit_cases taken with ⟨-, rfl⟩ |
        ⟨-, error, ⟨-, rfl⟩ | ⟨rfl, -⟩⟩ | ⟨-, rolled, index, rfl, fed, rfl⟩
      · exact ⟨published, holds, watermark, sealedFits⟩
      · exact ⟨published, holds, watermark, sealedFits⟩
      · exact timely.elim
      · have unsealed := unsealed_eq self.set.events_eq_flatten.symm holds
        have fits : FitsSegment (if rolled then self.batch.records
            else self.set.active.events ++ self.batch.records) := by
          cases rolled with
          | true => exact allowed
          | false =>
              rw [← unsealed]
              exact allowed
        exact InStep.publish sound ⟨published, holds, watermark, sealedFits⟩ lawful crc
          createdAtNanos.toNat_lt fits fed

theorem marked_step {crc : List UInt8 → UInt32} {self next : Worker format} {label : WorkerStep}
    (marked : self.index.Marked) (taken : self.step crc label = some next) :
    next.index.Marked := by
  cases label with
  | request request =>
      obtain ⟨verdict, -, rfl⟩ := Option.map_eq_some_iff.mp taken
      cases verdict <;> exact marked
  | commit outcome createdAtNanos =>
      rcases commit_cases taken with ⟨-, rfl⟩ |
        ⟨-, error, ⟨-, rfl⟩ | ⟨-, rfl⟩⟩ | ⟨-, rolled, index, -, fed, rfl⟩
      · exact marked
      · exact marked
      · exact marked
      · exact (feed_frame fed).2 marked

theorem aligned_step (lawful : format.Lawful) (crc : List UInt8 → UInt32)
    {self next : Worker format} {label : WorkerStep} (sound : self.Sound)
    (aligned : self.Aligned) (allowed : self.StepAllowed label) (timely : NoLateFailure label)
    (taken : self.step crc label = some next) : next.Aligned :=
  ⟨inStep_step lawful crc sound aligned.toInStep allowed timely taken,
    marked_step aligned.marked taken⟩

/-- What is published as it stands is loaded as it stands. -/
theorem snapshot_of_capture {self : Worker format}
    (published : self.published = Published.capture self.set self.index)
    (length : self.index.sealed.length = self.set.sealed.length) : self.snapshot =
      ⟨self.set.sealed, self.index.sealed.map SealedIndex.seg, self.set.active,
        self.index.active⟩ := by
  have slots : ((List.range self.set.sealed.length).map fun i =>
      self.index.sealed[i]?.bind SealedIndex.seg) = self.index.sealed.map SealedIndex.seg := by
    apply List.ext_getElem
    · simp [length]
    · intro i _ inside
      rw [List.length_map] at inside
      simp [List.getElem?_eq_getElem inside]
  have active : (segments self.set).getD self.set.sealed.length self.set.active =
      self.set.active := by
    rw [show segments self.set = self.set.sealed ++ [self.set.active] from rfl]
    simp
  rw [snapshot, published, Published.capture, slots, active]

namespace InStep

variable {self : Worker format}

theorem snapshot_eq (inStep : self.InStep) : self.snapshot =
    ⟨self.set.sealed, self.index.sealed.map SealedIndex.seg, self.set.active,
      self.index.active⟩ := by
  have length := inStep.holds.sealed_hold.length_eq
  rw [List.length_map] at length
  exact snapshot_of_capture inStep.published_eq length

theorem indexed (inStep : self.InStep) (sound : self.Sound) :
    List.Forall₂ (fun segment index => IndexedBy segment index ∧
        segment.events.length = segment.records.length)
      self.set.sealed (self.index.sealed.map SealedIndex.seg) := by
  have recorded := (records_of_flatMap sound.set.recorded).1
  have contiguous := (contiguous_append.mp sound.set.contiguous).1
  exact indexed_of_sealedHold inStep.holds.sealed_hold contiguous fun segment member =>
    recorded segment (List.mem_append_left _ member)

theorem laidOut (inStep : self.InStep) (sound : self.Sound) :
    LaidOut self.snapshot self.watermark self.set.events where
  contiguous := by
    rw [inStep.snapshot_eq]
    exact sound.set.contiguous
  recorded := by
    rw [inStep.snapshot_eq]
    exact sound.set.recorded
  covered := by
    have nextEq := sound.set.nextPosition_eq
    have started : firstPosition = 1 := rfl
    rw [inStep.watermark_eq, SegmentedLog.lastPosition]
    omega
  room := sound.set.nextPosition_eq ▸ sound.set.room
  aligned := by
    rw [inStep.snapshot_eq]
    exact (inStep.indexed sound).imp fun _ _ both => both.1

end InStep

namespace Aligned

variable {self : Worker format}

/-- A tail that is not marked holds the active segment. -/
theorem tail_holds (sound : self.Sound) (aligned : self.Aligned)
    (unmarked : self.index.active.unindexable = false) :
    self.index.active.Holds self.set.active.base self.set.active.events ∧
      FitsSegment self.set.active.events := by
  obtain ⟨baseEq, -, fits, fed, rest, split, tail, whole, -⟩ := aligned.holds.active_holds
  have unlatched : self.index.activeUnindexable = false := by
    by_contra latched
    rw [aligned.marked (Bool.eq_true_of_not_eq_false latched)] at unmarked
    cases unmarked
  obtain rfl := whole unlatched
  rw [List.append_nil] at split
  rw [sound.set.active_base, split]
  exact ⟨tail, split ▸ fits⟩

theorem consistent (sound : self.Sound) (aligned : self.Aligned) :
    Consistent self.snapshot self.watermark self.set.events where
  toLaidOut := aligned.laidOut sound
  active := by
    rw [aligned.snapshot_eq, aligned.watermark_eq, SegmentedLog.lastPosition]
    intro unmarked upto started below
    obtain ⟨tail, fits⟩ := aligned.tail_holds sound unmarked
    have behind := sound.set.active_end
    have reached : upto < self.set.active.base + self.set.active.events.length := by
      have positive : 0 < firstPosition := Nat.one_pos
      have nextEq := sound.set.nextPosition_eq
      omega
    exact tail.indexes_view fits started reached

end Aligned

theorem Opened.inStep_start {crc : List UInt8 → UInt32} {set : SegmentedLog}
    {index : IndexSet format} (opened : Opened crc set index) (lawful : format.Lawful)
    (cfg : WriterConfig) : (start cfg set index).InStep where
  published_eq := rfl
  holds := (opened.holds lawful).2
  watermark_eq := rfl
  fits := fun segment member => opened.fits segment (List.mem_append_left _ member)

/-- The active segment that a log was opened with does not have too many types. -/
theorem Opened.aligned_start {crc : List UInt8 → UInt32} {set : SegmentedLog}
    {index : IndexSet format} (opened : Opened crc set index) (lawful : format.Lawful)
    (few : (distinctTypes set.active.events).length ≤ maxTypeId + 1) (cfg : WriterConfig) :
    (start cfg set index).Aligned where
  toInStep := opened.inStep_start lawful cfg
  marked := by
    obtain ⟨accepted, fits, files, clock, filesFit, made⟩ := opened
    obtain ⟨-, entries, built, rfl, -, -, builtHolds⟩ :=
      open_ok lawful accepted fits filesFit made
    have unlatched := builtHolds.unindexable_iff.mpr few
    intro latched
    change built.unindexable = true at latched
    rw [unlatched] at latched
    cases latched

/-- A run from an open log in which no append fails behind its rollover. -/
structure Timely (crc : List UInt8 → UInt32) (first : Worker format) (labels : List WorkerStep)
    (last : Worker format) : Prop where
  allowed : Histories.Allowed (step crc) StepAllowed first labels
  timely : ∀ label ∈ labels, NoLateFailure label
  ran : Histories.run (step crc) first labels = some last

theorem Timely.inStep (lawful : format.Lawful) {crc : List UInt8 → UInt32}
    {first last : Worker format} {labels : List WorkerStep} (run : Timely crc first labels last)
    (sound : first.Sound) (inStep : first.InStep) : last.Sound ∧ last.InStep := by
  obtain ⟨allowed, timely, ran⟩ := run
  induction labels generalizing first with
  | nil =>
      obtain rfl := Option.some.inj ran
      exact ⟨sound, inStep⟩
  | cons label labels ih =>
      obtain ⟨here, later⟩ := allowed
      rw [List.forall_mem_cons] at timely
      rw [Histories.run] at ran
      cases taken : step crc first label with
      | none => simp [taken] at ran
      | some next =>
          simp only [taken] at ran
          exact ih (sound_step lawful crc sound here taken)
            (inStep_step lawful crc sound inStep here timely.1 taken) (later next taken)
            timely.2 ran

theorem Timely.kept (lawful : format.Lawful) {crc : List UInt8 → UInt32}
    {first last : Worker format} {labels : List WorkerStep} (run : Timely crc first labels last)
    (sound : first.Sound) (aligned : first.Aligned) : last.Sound ∧ last.Aligned := by
  obtain ⟨lastSound, inStep⟩ := run.inStep lawful sound aligned.toInStep
  refine ⟨lastSound, inStep, ?_⟩
  have marked_step' : ∀ (worker : Worker format) label next, worker.index.Marked →
      worker.step crc label = some next → next.index.Marked :=
    fun _ _ _ marked taken => marked_step marked taken
  exact Histories.invariant_of_steps marked_step' aligned.marked run.ran

theorem Aligned.covers {self : Worker format} (sound : self.Sound) (aligned : self.Aligned) :
    self.Covers where
  reached := by
    intro position started below
    have inside := aligned.consistent sound
    have bound := inside.covered
    have length := inside.length_records
    rw [records, length_flatMap_records] at length
    obtain ⟨idx, segment, found, low, high⟩ :=
      inside.contiguous.exists_owner started (by omega)
    exact ⟨segment, List.mem_of_getElem? found, low, high⟩
  sealed := by
    rw [aligned.snapshot_eq]
    refine (aligned.indexed sound).imp fun segment index both => ?_
    intro built found
    have indexes := both.1 built found
    exact ⟨indexes.base_eq, indexes.len_eq.trans both.2⟩
  active_base := by
    obtain ⟨-, -, -, fed, rest, -, tail, -⟩ := aligned.holds.active_holds
    rw [aligned.snapshot_eq, sound.set.active_base]
    exact tail.base_eq
  active_len := by
    rw [aligned.snapshot_eq]
    intro unmarked
    obtain ⟨tail, -⟩ := aligned.tail_holds sound unmarked
    have recorded := (records_of_flatMap sound.set.recorded).1 self.set.active
      (List.mem_append_right _ (List.mem_singleton_self _))
    refine tail.len_eq.trans ?_
    change _ = self.set.active.records.length
    conv_rhs => rw [recorded, List.length_map]

/-- In every run from an open log in which no append fails behind its rollover, the snapshot
that readers load covers the watermark, and each index in it has the positions of its
segment. -/
theorem published_snapshot_covers (lawful : format.Lawful) {crc : List UInt8 → UInt32}
    {set : SegmentedLog} {index : IndexSet format} (opened : Opened crc set index)
    (few : (distinctTypes set.active.events).length ≤ maxTypeId + 1) (cfg : WriterConfig)
    {labels : List WorkerStep} {last : Worker format}
    (run : Timely crc (start cfg set index) labels last) : last.Covers := by
  obtain ⟨sound, aligned⟩ :=
    run.kept lawful (opened.sound_start lawful cfg) (opened.aligned_start lawful few cfg)
  exact aligned.covers sound

/-- Three batches of an event; the second one fails when the log has rolled over. -/
def lateFailure : List WorkerStep :=
  [.request ⟨[untaggedEvent], none⟩, .commit .appended 7,
    .request ⟨[untaggedEvent], none⟩, .commit (.failedAfter (.io 2)) 7,
    .request ⟨[untaggedEvent], none⟩, .commit .appended 7]

/-- The third batch is committed to a segment that no snapshot shows. -/
theorem late_failure_hides_segment :
    Opened Seglog.crc32 emptyLog (IndexSet.new flatTable 1) ∧
      ∃ last, Histories.run (step Seglog.crc32)
          (start plainConfig emptyLog (IndexSet.new flatTable 1)) lateFailure = some last ∧
        ¬ last.Covers := by
  refine ⟨emptyLog_opened, ?_⟩
  have computed : (Histories.run (step Seglog.crc32)
      (start plainConfig emptyLog (IndexSet.new flatTable 1)) lateFailure).any (fun last =>
        decide (last.watermark = 2 ∧ (segments last.snapshot).map (fun segment =>
          (segment.base, segment.records.length)) = [(1, 1)])) = true := by
    decide +kernel
  obtain ⟨last, ran, shown⟩ := (Option.any_eq_true _ _).mp computed
  obtain ⟨watermark, spans⟩ := of_decide_eq_true shown
  refine ⟨last, ran, fun covers => ?_⟩
  obtain ⟨segment, member, low, high⟩ := covers.reached 2 (by decide) watermark.ge
  have span : (segment.base, segment.records.length) ∈ [(1, 1)] :=
    spans ▸ List.mem_map_of_mem member
  obtain ⟨baseEq, countEq⟩ := Prod.mk.inj (List.mem_singleton.mp span)
  omega

/-- Two batches of an event; the second one rolls over. -/
def rollingRun : List WorkerStep :=
  [.request ⟨[untaggedEvent], none⟩, .commit .appended 7,
    .request ⟨[untaggedEvent], none⟩, .commit .rolledOver 7]

theorem rollingRun_allowed : Histories.Allowed (step Seglog.crc32) StepAllowed
    (start plainConfig emptyLog (IndexSet.new flatTable 1)) rollingRun := by
  decide +kernel

theorem published_snapshot_covers_rolling :
    ∃ last, Histories.run (step Seglog.crc32)
        (start plainConfig emptyLog (IndexSet.new flatTable 1)) rollingRun = some last ∧
      last.watermark = 2 ∧ last.Covers := by
  have computed : (Histories.run (step Seglog.crc32)
      (start plainConfig emptyLog (IndexSet.new flatTable 1)) rollingRun).any (fun last =>
        decide (last.watermark = 2)) = true := by
    decide +kernel
  obtain ⟨last, ran, shown⟩ := (Option.any_eq_true _ _).mp computed
  refine ⟨last, ran, of_decide_eq_true shown, ?_⟩
  have timely : ∀ label ∈ rollingRun, NoLateFailure label := by
    simp [rollingRun, NoLateFailure]
  exact published_snapshot_covers flatTable_lawful emptyLog_opened (by decide) plainConfig
    ⟨rollingRun_allowed, timely, ran⟩

end Worker

end Writer.CommitSeam

end Tephra
