import Tephra.RolloverHistory
import Tephra.Sidecars

/-!
# An append-only array of records

Histories of a log in which batches are appended and the log is reopened, and no
system call fails.  The segments of the log are then an array of all records ever
appended: point reads and scans go by position, a batch lies inside one segment, a
rollover makes a file of a new name, and reopening gives the same segments again.
-/

namespace Tephra

namespace Log

open ByteImage FrameChain Fallible Positions Seglog SegmentSet SegmentSource RolloverHistory

namespace RecordArray

/-- The framing and the positions can represent the batch. -/
structure Fits (set : SegmentSet) (records : List (List UInt8)) : Prop where
  encodable : ∀ record ∈ records, record.length ≤ maxRecordLen
  positions : set.nextPosition + records.length ≤ positionMax

theorem Fits.encodable' {set : SegmentSet} {records : List (List UInt8)}
    (fits : Fits set records) : Encodable set records where
  encodable := fits.encodable
  positions := Nat.le_trans fits.positions (by decide)

variable (crc : List UInt8 → UInt32)

/-- The segments of a set are an array of the records of some batches. -/
structure IsArray (config : SegmentConfig) (dir : Directory) (set : SegmentSet)
    (batches : List (List (List UInt8))) : Prop where
  nextPosition_eq : set.nextPosition = firstPosition + batches.flatten.length
  /-- Every segment begins right behind the one before it. -/
  contiguous : SegmentSource.Contiguous firstPosition (segments set)
  /-- No two segments share a position. -/
  disjoint : (segments set).Pairwise fun first second =>
    first.basePosition + first.offsets.length ≤ second.basePosition
  /-- No batch spans two segments. -/
  unbroken : ∀ before batch after, batches = before ++ batch :: after →
    ∃ segment ∈ segments set,
      segment.basePosition ≤ firstPosition + before.flatten.length ∧
      firstPosition + before.flatten.length + batch.length ≤
        segment.basePosition + segment.offsets.length
  sealed_nonempty : ∀ segment ∈ set.sealed, segment.offsets ≠ []
  /-- The file of the next segment is not there when a batch does not fit. -/
  rollover_new : ∀ records, Accepted config records →
    set.activeWriter.remainingBytes < batchSize records →
    ∀ entry ∈ dir, entry.1 ≠ set.nextPosition
  appends : ∀ now records, Accepted config records → Fits set records →
    ∃ after, appendBatch crc (.quiet now) records ⟨dir, set⟩ =
      (.ok (set.nextPosition, set.nextPosition + records.length - 1), after)
  readAt_eq : ∀ position, readAt crc ⟨dir, set⟩ position =
    if firstPosition ≤ position then
      match batches.flatten[position - firstPosition]? with
      | some record => .ok (position, record)
      | none => .error (.notFound position)
    else
      .error (.notFound position)
  scanFrom_yields : ∀ position, Scan.Yields crc (scanFrom ⟨dir, set⟩ position)
    ((positioned (max position firstPosition)
      (batches.flatten.drop (max position firstPosition - firstPosition))).map .ok)
  scanAfter_yields : ∀ position, Scan.Yields crc (scanAfter ⟨dir, set⟩ position)
    ((positioned (position + 1) (batches.flatten.drop position)).map .ok)
  /-- Only the extents of sealed segments are forgotten by a restart. -/
  reopens : ∀ now, openSet crc config now dir =
    (.ok { set with sealed := set.sealed.map Segment.reopened }, dir)

/-- The log opens, and while it is open it is an array of all records appended so far. -/
def AppendOnly (config : SegmentConfig) (world : World) : Prop :=
  (∀ now, ∃ set dir, openSet crc config now world.dir = (.ok set, dir)) ∧
    ∀ set, world.set = some set → IsArray crc config world.dir set world.acknowledged

/-- The steps of a history without faults whose accepted batches can be represented. -/
def StepAllowed (config : SegmentConfig) (world : World) : RolloverStep → Prop
  | .reopen _ => True
  | .append _ createIo records => createIo = [] ∧
      ∀ set, world.set = some set → Accepted config records → Fits set records

/-- The directory stores the batches appended so far, and the running log stands at their
end under the sidecars of its shelves. -/
structure Running (config : SegmentConfig) (dir : Directory) (set : SegmentSet)
    (batches : List (List (List UInt8))) (sealed : List Shelf) (active : Shelf) (stop : Nat) :
    Prop where
  stored : Stored crc config dir sealed active stop
  live : Live config set active stop
  tables : Tables crc config set sealed active stop
  batches_eq : storedBatches sealed active = batches
  bounded : set.nextPosition ≤ positionMax

def Holds (config : SegmentConfig) (world : World) : Prop :=
  world = .initial ∨ ∃ set sealed active stop, world.set = some set ∧
    Running crc config world.dir set world.acknowledged sealed active stop

variable {crc}

/-- A segment under the sidecar of a shelf. -/
def IsTabled (crc : List UInt8 → UInt32) (config : SegmentConfig) (segment : Segment)
    (shelf : Shelf) : Prop :=
  ∃ stop, Tabled crc config segment shelf stop

variable {config : SegmentConfig} {segs : List Segment} {shelves : List Shelf}

theorem contiguous_of_tabled (tabled : List.Forall₂ (IsTabled crc config) segs shelves) :
    ∀ {expected : Nat}, Log.Contiguous expected shelves →
      SegmentSource.Contiguous expected segs := by
  induction tabled with
  | nil => exact fun _ => trivial
  | @cons segment shelf segs shelves first _ ih =>
      rintro _ ⟨rfl, rest⟩
      obtain ⟨stop, first⟩ := first
      refine ⟨first.base_eq, ?_⟩
      rw [Shelf.nextBase, ← first.length_offsets] at rest
      exact ih rest

theorem backed_of_tabled {dir : Directory}
    (tabled : List.Forall₂ (IsTabled crc config) segs shelves)
    (reads : ∀ shelf ∈ shelves, dir.read shelf.base = shelf.file) :
    List.Forall₂ (Backed crc dir config.headerSize) segs (shelves.map Shelf.records) := by
  induction tabled with
  | nil => exact .nil
  | @cons segment shelf segs shelves first _ ih =>
      obtain ⟨stop, first⟩ := first
      exact .cons (first.backed (reads shelf (by simp)))
        (ih fun other member => reads other (by simp [member]))

theorem exists_segment_of_shelf (tabled : List.Forall₂ (IsTabled crc config) segs shelves)
    {shelf : Shelf} (member : shelf ∈ shelves) :
    ∃ segment ∈ segs, segment.basePosition = shelf.base ∧
      segment.offsets.length = shelf.records.length := by
  induction tabled with
  | nil => simp at member
  | @cons segment first segs shelves here _ ih =>
      rcases List.mem_cons.mp member with rfl | later
      · obtain ⟨stop, here⟩ := here
        exact ⟨segment, by simp, here.base_eq, here.length_offsets⟩
      · obtain ⟨other, otherMember, found⟩ := ih later
        exact ⟨other, by simp [otherMember], found⟩

theorem exists_shelf_of_segment (tabled : List.Forall₂ (IsTabled crc config) segs shelves)
    {segment : Segment} (member : segment ∈ segs) :
    ∃ shelf ∈ shelves, IsTabled crc config segment shelf := by
  induction tabled with
  | nil => simp at member
  | @cons first shelf segs shelves here _ ih =>
      rcases List.mem_cons.mp member with rfl | later
      · exact ⟨shelf, by simp, here⟩
      · obtain ⟨other, otherMember, found⟩ := ih later
        exact ⟨other, by simp [otherMember], found⟩

theorem disjoint_of_contiguous {start : Nat}
    (contiguous : SegmentSource.Contiguous start segs) :
    segs.Pairwise fun first second =>
      first.basePosition + first.offsets.length ≤ second.basePosition := by
  rw [List.pairwise_iff_getElem]
  intro first second bound bound' before
  exact contiguous.end_le_base before (List.getElem?_eq_getElem bound)
    (List.getElem?_eq_getElem bound')

/-- A batch is on one shelf, at the positions behind those of the batches before it. -/
theorem exists_shelf_of_batch {after : List (List (List UInt8))} {batch : List (List UInt8)} :
    ∀ {expected : Nat} {before : List (List (List UInt8))}, Log.Contiguous expected shelves →
      shelves.flatMap Shelf.batches = before ++ batch :: after →
      ∃ shelf ∈ shelves, shelf.base ≤ expected + before.flatten.length ∧
        expected + before.flatten.length + batch.length ≤ shelf.base + shelf.records.length := by
  induction shelves with
  | nil => intro _ before _ split; simp at split
  | cons shelf shelves ih =>
      rintro _ before ⟨rfl, rest⟩ split
      have later : ∀ front, before = shelf.batches ++ front →
          shelves.flatMap Shelf.batches = front ++ batch :: after →
          ∃ owner ∈ shelf :: shelves, owner.base ≤ shelf.base + before.flatten.length ∧
            shelf.base + before.flatten.length + batch.length ≤
              owner.base + owner.records.length := by
        intro front beforeEq split
        obtain ⟨owner, member, low, high⟩ := ih rest split
        have counted : before.flatten.length = shelf.records.length + front.flatten.length := by
          rw [beforeEq, List.flatten_append, List.length_append, Shelf.records]
        rw [Shelf.nextBase] at low high
        exact ⟨owner, by simp [member], by omega, by omega⟩
      rw [List.flatMap_cons] at split
      rcases List.append_eq_append_iff.mp split with
        ⟨front, beforeEq, split⟩ | ⟨behind, here, split⟩
      · exact later front beforeEq split
      · cases behind with
        | nil => exact later [] (by simpa using here.symm) (by simpa using split.symm)
        | cons first behind =>
            obtain ⟨rfl, rfl⟩ := List.cons.inj split
            refine ⟨shelf, by simp, Nat.le_add_right _ _, ?_⟩
            rw [Shelf.records, here]
            simp only [List.flatten_append, List.flatten_cons, List.length_append]
            omega

namespace Running

variable {dir : Directory} {set : SegmentSet} {batches : List (List (List UInt8))}
  {sealed : List Shelf} {active : Shelf} {stop : Nat}

theorem tabled (running : Running crc config dir set batches sealed active stop) :
    List.Forall₂ (IsTabled crc config) (segments set) (sealed ++ [active]) :=
  List.rel_append running.tables.sealed_tabled (.cons ⟨stop, running.tables.active_tabled⟩ .nil)

theorem records_eq (running : Running crc config dir set batches sealed active stop) :
    ((sealed ++ [active]).map Shelf.records).flatten = batches.flatten := by
  rw [← running.batches_eq, flatten_storedBatches, storedRecords, List.flatMap_def]

theorem nextPosition_eq (running : Running crc config dir set batches sealed active stop) :
    set.nextPosition = firstPosition + batches.flatten.length := by
  obtain ⟨_, baseEq⟩ := Contiguous.snoc_iff.mp running.stored.contiguous
  rw [running.live.nextPosition_eq, Shelf.nextBase, baseEq, ← running.batches_eq,
    flatten_storedBatches, storedRecords, List.flatMap_append]
  simp [Nat.add_assoc]

theorem kept (running : Running crc config dir set batches sealed active stop) :
    Kept crc dir set.config.headerSize set ((sealed ++ [active]).map Shelf.records) := by
  constructor
  · exact contiguous_of_tabled running.tabled running.stored.contiguous
  · rw [running.live.config_eq]
    exact backed_of_tabled running.tabled running.stored.read

theorem sealed_nonempty (running : Running crc config dir set batches sealed active stop) :
    ∀ segment ∈ set.sealed, segment.offsets ≠ [] := by
  intro segment member empty
  obtain ⟨shelf, shelfMember, _, tabled⟩ :=
    exists_shelf_of_segment running.tables.sealed_tabled member
  have counted := tabled.length_offsets
  apply (running.stored.sealed_ok shelf shelfMember).nonempty
  rw [empty] at counted
  exact List.eq_nil_of_length_eq_zero counted.symm

theorem unbroken (running : Running crc config dir set batches sealed active stop)
    {before after : List (List (List UInt8))} {batch : List (List UInt8)}
    (split : batches = before ++ batch :: after) :
    ∃ segment ∈ segments set,
      segment.basePosition ≤ firstPosition + before.flatten.length ∧
      firstPosition + before.flatten.length + batch.length ≤
        segment.basePosition + segment.offsets.length := by
  rw [← running.batches_eq, storedBatches] at split
  obtain ⟨shelf, member, low, high⟩ := exists_shelf_of_batch running.stored.contiguous split
  obtain ⟨segment, segmentMember, baseEq, counted⟩ :=
    exists_segment_of_shelf running.tabled member
  rw [← baseEq, ← counted] at high
  rw [← baseEq] at low
  exact ⟨segment, segmentMember, low, high⟩

/-- A segment that has no room for an accepted batch has records, so that the next one
begins behind its base. -/
theorem rollover_new (running : Running crc config dir set batches sealed active stop)
    {records : List (List UInt8)} (accepted : Accepted config records)
    (full : set.activeWriter.remainingBytes < batchSize records) :
    ∀ entry ∈ dir, entry.1 ≠ set.nextPosition := by
  intro entry member
  have remaining := running.live.remainingBytes_eq
  have fits := accepted.fits
  have startLe := running.stored.active_ok.start_le
  rw [SegmentConfig.capacity] at fits
  have positive := List.length_pos_of_ne_nil
    (running.stored.active_ok.nonempty (by omega))
  rw [running.stored.dir_eq] at member
  obtain ⟨shelf, shelfMember, rfl⟩ := List.mem_map.mp member
  have baseLe : shelf.base ≤ active.base := by
    rcases List.mem_append.mp shelfMember with old | last
    · exact Nat.le_of_lt
        ((List.pairwise_append.mp running.stored.ascending).2.2 shelf old active (by simp))
    · obtain rfl : shelf = active := by simpa using last
      exact Nat.le_refl _
  rw [running.live.nextPosition_eq, Shelf.nextBase]
  change shelf.base ≠ _
  omega

/-- An accepted batch is appended at the next positions. -/
theorem append (running : Running crc config dir set batches sealed active stop)
    (valid : config.validate = .ok ()) (headerFits : segmentHeaderSize ≤ config.headerSize)
    (now : UInt64) {records : List (List UInt8)} (accepted : Accepted config records)
    (fits : Fits set records) :
    ∃ after sealed' active' stop',
      appendBatch crc (.quiet now) records ⟨dir, set⟩ =
        (.ok (set.nextPosition, set.nextPosition + records.length - 1), after) ∧
      Running crc config after.dir after.set (batches ++ [records]) sealed' active' stop' := by
  obtain ⟨stored, live, tables, batchesEq, _⟩ := running
  obtain ⟨roomy, _, _⟩ := SegmentConfig.validate_ok valid
  have zero := tables.active_tabled.zero
  have allowed := fits.encodable'.batchAllowed stored zero live
  obtain ⟨sealed', active', stop', middle, prepared, ready⟩ :=
    prepared_of_allowed now valid headerFits stored live accepted allowed
  obtain ⟨final, written, stored', _, live', batchesEq'⟩ :=
    append_prepared ready valid headerFits live zero accepted fits.encodable'
  have tables' := tables.prepared live headerFits (Nat.le_of_lt roomy) ready prepared
  have framable := accepted.framable fits.encodable
  have positive := List.length_pos_of_ne_nil accepted.nonempty
  refine ⟨final, sealed', _, _, ?_, stored', live', ?_, batchesEq'.trans (by rw [batchesEq]), ?_⟩
  · rw [appendBatch, Op.bind_apply_ok prepared, live.nextPosition_eq]
    exact written
  · exact tables'.written ready.live accepted.nonempty framable ready.fits written
  · have positions := fits.positions
    rw [live.nextPosition_eq, ← ready.nextBase_eq] at positions
    rwa [live'.nextPosition_eq, Shelf.nextBase_withBatch]

theorem isArray (running : Running crc config dir set batches sealed active stop)
    (valid : config.validate = .ok ()) (headerFits : segmentHeaderSize ≤ config.headerSize) :
    IsArray crc config dir set batches := by
  have nextEq := running.nextPosition_eq
  have bounded := running.bounded
  have recordsEq := running.records_eq
  have kept : Kept crc (LogState.mk dir set).dir _ (LogState.mk dir set).set _ := running.kept
  have counted : (LogState.mk dir set).set.nextPosition = firstPosition +
      ((sealed ++ [active]).map Shelf.records).flatten.length := by
    rw [recordsEq]
    exact nextEq
  refine ⟨nextEq, kept.contiguous, disjoint_of_contiguous kept.contiguous,
    fun _ _ _ split => running.unbroken split, running.sealed_nonempty,
    fun _ accepted full => running.rollover_new accepted full, ?_, ?_, ?_, ?_, ?_⟩
  · intro now records accepted fits
    obtain ⟨after, _, _, _, appended, _⟩ := running.append valid headerFits now accepted fits
    exact ⟨after, appended⟩
  · rw [← recordsEq]
    exact SegmentSet.readAt_eq kept counted
  · rw [← recordsEq]
    exact SegmentSet.scanFrom_yields kept counted
  · rw [← recordsEq]
    refine SegmentSet.scanAfter_yields kept counted ?_
    rw [nextEq, firstPosition] at bounded
    rw [recordsEq]
    omega
  · exact openSet_reopened valid running.stored running.live running.tables

end Running

theorem Holds.appendOnly {world : World} (valid : config.validate = .ok ())
    (headerFits : segmentHeaderSize ≤ config.headerSize) (holds : Holds crc config world) :
    AppendOnly crc config world := by
  rcases holds with rfl | ⟨set, sealed, active, stop, setEq, running⟩
  · exact ⟨fun now => ⟨_, _, openSet_empty_eq crc valid now⟩, by simp [World.initial]⟩
  · have array := running.isArray valid headerFits
    refine ⟨fun now => ⟨_, _, array.reopens now⟩, fun set' setEq' => ?_⟩
    obtain rfl : set = set' := Option.some.inj (setEq.symm.trans setEq')
    exact array

/-- A log that was just created is an array of nothing. -/
theorem running_empty {now : UInt64} {set : SegmentSet} {dir : Directory}
    (valid : config.validate = .ok ()) (headerFits : segmentHeaderSize ≤ config.headerSize)
    (opened : openSet crc config now [] = (.ok set, dir)) :
    Running crc config dir set [] [] (.fresh crc config now firstPosition)
      config.headerSize := by
  obtain ⟨roomy, _, _⟩ := SegmentConfig.validate_ok valid
  obtain ⟨_, created, stored, live, _⟩ := openSet_empty crc valid headerFits now
  rw [openSet_empty_eq crc valid now] at created opened
  obtain rfl := Except.ok.inj (Prod.mk.inj created).1
  obtain ⟨setEq, rfl⟩ := Prod.mk.inj opened
  obtain rfl := Except.ok.inj setEq
  exact ⟨stored, live, .fresh now headerFits (Nat.le_of_lt roomy), rfl,
    show firstPosition ≤ positionMax by decide⟩

theorem holds_reopen {world next : World} {now : UInt64} (valid : config.validate = .ok ())
    (headerFits : segmentHeaderSize ≤ config.headerSize) (holds : Holds crc config world)
    (taken : step crc config world (.reopen now) = some next) : Holds crc config next := by
  rcases holds with rfl | ⟨set, sealed, active, stop, setEq, running⟩
  · have opened := openSet_empty_eq crc valid now
    simp only [step, World.initial, opened, Option.some.injEq] at taken
    subst taken
    exact .inr ⟨_, _, _, _, rfl, running_empty valid headerFits opened⟩
  · obtain ⟨stored, live, tables, batchesEq, bounded⟩ := running
    have reopened := openSet_reopened valid stored live tables now
    simp only [step, reopened, Option.some.injEq] at taken
    subst taken
    exact .inr ⟨_, sealed, active, stop, rfl, stored, live.reopened, tables.reopened, batchesEq,
      bounded⟩

theorem holds_append {world next : World} {now : UInt64} {createIo : List IoOutcome}
    {records : List (List UInt8)} (valid : config.validate = .ok ())
    (headerFits : segmentHeaderSize ≤ config.headerSize) (holds : Holds crc config world)
    (allowed : StepAllowed config world (.append now createIo records))
    (taken : step crc config world (.append now createIo records) = some next) :
    Holds crc config next := by
  obtain ⟨rfl, fits⟩ := allowed
  rcases holds with rfl | ⟨set, sealed, active, stop, setEq, running⟩
  · simp [step, World.initial] at taken
  simp only [step, setEq, Option.map_some, Option.some.injEq] at taken
  by_cases accepted : Accepted config records
  · obtain ⟨after, sealed', active', stop', appended, running'⟩ :=
      running.append valid headerFits now accepted (fits set setEq accepted)
    rw [show creating now [] = .quiet now from rfl, appended] at taken
    subst taken
    exact .inr ⟨_, sealed', active', stop', rfl, running'⟩
  · obtain ⟨error, rejected⟩ := appendBatch_rejected crc (.quiet now) ⟨world.dir, set⟩
      running.live.config_eq accepted
    rw [show creating now [] = .quiet now from rfl, rejected] at taken
    subst taken
    exact .inr ⟨_, sealed, active, stop, rfl, running⟩

theorem holds_of_history {steps : List RolloverStep} {world : World}
    (valid : config.validate = .ok ()) (headerFits : segmentHeaderSize ≤ config.headerSize)
    (allowed : Histories.Allowed (step crc config) (StepAllowed config) .initial steps)
    (reached : Histories.run (step crc config) .initial steps = some world) :
    Holds crc config world := by
  have kept : ∀ world label next, Holds crc config world →
      StepAllowed config world label → step crc config world label = some next →
      Holds crc config next := by
    intro world label next holds allowed taken
    cases label with
    | reopen now => exact holds_reopen valid headerFits holds taken
    | append now createIo records => exact holds_append valid headerFits holds allowed taken
  exact Histories.invariant_of_run kept (.inl rfl) allowed reached

/-- After every history of allowed steps the log is an array of the records appended so
far. -/
theorem record_array_appendOnly {steps : List RolloverStep} {world : World}
    (valid : config.validate = .ok ()) (headerFits : segmentHeaderSize ≤ config.headerSize)
    (allowed : Histories.Allowed (step crc config) (StepAllowed config) .initial steps)
    (reached : Histories.run (step crc config) .initial steps = some world) :
    AppendOnly crc config world :=
  (holds_of_history valid headerFits allowed reached).appendOnly valid headerFits

/-- Two batches of which the second one rolls over, and a reopen. -/
theorem record_array_appendOnly_rolled :
    ∃ world,
      Histories.run (step crc32 smallConfig) .initial
          [.reopen 0, .append 0 [] [[1, 2], [3]], .append 0 [] [List.replicate 20 9], .reopen 0] =
            some world ∧
        AppendOnly crc32 smallConfig world := by
  obtain ⟨world, reached⟩ : ∃ world, Histories.run (step crc32 smallConfig) .initial
      [.reopen 0, .append 0 [] [[1, 2], [3]], .append 0 [] [List.replicate 20 9], .reopen 0] =
        some world :=
    Option.isSome_iff_exists.mp (by decide +kernel)
  refine ⟨world, reached, record_array_appendOnly (by decide) (by decide) ?_ reached⟩
  have positions : ∀ steps ∈ [[.reopen 0], [.reopen 0, .append 0 [] [[1, 2], [3]]]],
      (Histories.run (step crc32 smallConfig) .initial steps).all (fun world : World =>
        world.set.all fun set => decide (set.nextPosition ≤ 3)) = true := by
    decide +kernel
  refine ⟨trivial, fun first firstTaken => ⟨⟨rfl, ?_⟩, fun second secondTaken =>
    ⟨⟨rfl, ?_⟩, fun third _ => ⟨trivial, fun _ _ => trivial⟩⟩⟩⟩
  · intro set setEq _
    have bounded := positions [.reopen 0] (by simp)
    simp only [Histories.run, firstTaken, Option.all_some, setEq, decide_eq_true_eq] at bounded
    refine ⟨by decide, ?_⟩
    simp only [List.length_cons, List.length_nil, positionMax]
    omega
  · intro set setEq _
    have bounded := positions [.reopen 0, .append 0 [] [[1, 2], [3]]] (by simp)
    simp only [Histories.run, firstTaken, secondTaken, Option.all_some, setEq,
      decide_eq_true_eq] at bounded
    refine ⟨by decide, ?_⟩
    simp only [List.length_cons, List.length_nil, positionMax]
    omega

/-- A configuration whose records begin where the header of the segment is. -/
def overlapConfig : SegmentConfig :=
  ⟨60, 40, 0⟩

/-- The configuration is valid, but its first batch overwrites the header, and the log
does not open again. -/
theorem short_header_is_overwritten :
    overlapConfig.validate = .ok () ∧
      ∃ world, Histories.run (step crc32 overlapConfig) .initial
          [.reopen 0, .append 0 [] [[1, 2, 3, 4]]] = some world ∧
        world.acknowledged = [[[1, 2, 3, 4]]] ∧ ¬ AppendOnly crc32 overlapConfig world := by
  refine ⟨by decide, ?_⟩
  have refused : (Histories.run (step crc32 overlapConfig) .initial
      [.reopen 0, .append 0 [] [[1, 2, 3, 4]]]).any (fun world : World =>
        decide (world.acknowledged = [[[1, 2, 3, 4]]]) &&
          (openSet crc32 overlapConfig 0 world.dir).1.toOption.isNone) = true := by
    decide +kernel
  obtain ⟨world, reached, refused⟩ := (Option.any_eq_true _ _).mp refused
  obtain ⟨appended, refused⟩ := Bool.and_eq_true_iff.mp refused
  refine ⟨world, reached, of_decide_eq_true appended, fun appendOnly => ?_⟩
  obtain ⟨set, dir, opened⟩ := appendOnly.1 0
  simp [opened, Except.toOption] at refused

end RecordArray

end Log

end Tephra
