import Tephra.BatchChain
import Tephra.Positions
import Tephra.SegmentSet

/-!
# Stored logs

A shelf is a segment file together with the batches committed to it.  A
directory *stores* a log when its files are contiguous shelves: the chain of
each sealed file ends where a scan to the end of the file stops, and the active
file has its batches as marked prefix.  Opening such a directory succeeds and
reads back exactly the records of its batches.
-/

namespace Tephra

namespace Log

open ByteImage FrameChain Fallible Positions Seglog

/-- A segment file with the batches committed to it. -/
structure Shelf where
  base : Nat
  file : List UInt8
  batches : List (List (List UInt8))

namespace Shelf

def records (self : Shelf) : List (List UInt8) :=
  self.batches.flatten

def entry (self : Shelf) : Nat × List UInt8 :=
  (self.base, self.file)

/-- The position after the last record of a shelf. -/
def nextBase (self : Shelf) : Nat :=
  self.base + self.records.length

end Shelf

/-- Shelves whose positions follow each other without a gap. -/
def Contiguous : Nat → List Shelf → Prop
  | _, [] => True
  | expected, shelf :: shelves => shelf.base = expected ∧ Contiguous shelf.nextBase shelves

variable (crc : List UInt8 → UInt32)

/-- The scan of a file to a flushed extent stops at the offset or after control
records from it on, without an error and without a data record. -/
def QuietTail (file : List UInt8) (flushed offset : Nat) : Prop :=
  ∃ controls stop,
    Chain (recordAt crc file flushed) offset controls stop ∧
    (∀ entry ∈ controls, entry.2.isControl = true) ∧
    QuietAt file flushed stop

namespace Shelf

/-- The file begins with a header that names the base of the shelf. -/
def HasHeader (self : Shelf) : Prop :=
  ∃ buf header, readHeader self.file = some buf ∧
    SegmentHeader.fromBytes crc buf = .ok header ∧ header.basePosition = self.base

/-- A sealed shelf: scanning the whole file yields its records. -/
structure Sealed (config : SegmentConfig) (shelf : Shelf) : Prop where
  header : shelf.HasHeader crc
  scan : ∃ entries stop, stop ≤ config.segmentSize ∧
    Chain (recordAt crc shelf.file shelf.file.length) config.headerSize entries stop ∧
    payloads entries = shelf.records ∧
    QuietTail crc shelf.file shelf.file.length stop
  nonempty : shelf.records ≠ []

/-- The last position of a shelf, if it has one. -/
def lastPosition (self : Shelf) : Option Nat :=
  if self.records = [] then none else some (self.base + self.records.length - 1)

/-- An active shelf: recovery finds its batches and the given committed end. -/
structure Active (config : SegmentConfig) (shelf : Shelf) (stop : Nat) : Prop where
  header : shelf.HasHeader crc
  stop_le : stop ≤ config.segmentSize
  inside : stop ≤ shelf.file.length
  recovered : ∃ entries,
    MarkedPrefix (recordAt crc shelf.file config.segmentSize) IsMarker config.headerSize
      entries stop ∧
    payloads entries = shelf.records ∧
    lastMarkerPosition entries = shelf.lastPosition

end Shelf

/-- The directory holds the sealed shelves and then the active one. -/
structure Stored (config : SegmentConfig) (dir : Directory) (sealed : List Shelf)
    (active : Shelf) (stop : Nat) : Prop where
  dir_eq : dir = (sealed ++ [active]).map Shelf.entry
  contiguous : Contiguous firstPosition (sealed ++ [active])
  sealed_ok : ∀ shelf ∈ sealed, shelf.Sealed crc config
  active_ok : active.Active crc config stop

/-- The records of all shelves. -/
def storedRecords (sealed : List Shelf) (active : Shelf) : List (List UInt8) :=
  (sealed ++ [active]).flatMap Shelf.records

/-- The writer of a set stands at the committed end of the active shelf. -/
structure Live (config : SegmentConfig) (set : SegmentSet) (active : Shelf) (stop : Nat) :
    Prop where
  config_eq : set.config = config
  activeBase_eq : set.activeBase = active.base
  nextPosition_eq : set.nextPosition = active.nextBase
  writer_eq : set.activeWriter.writer = ⟨active.file, stop, [], []⟩
  size_eq : set.activeWriter.size = config.segmentSize
  startOffset_eq : set.activeWriter.startOffset = config.headerSize
  maxRecord_eq : set.activeWriter.maxRecord =
    min config.maxRecordLen (recordHardLimit config.segmentSize config.headerSize)
  writeOffset_eq : set.activeWriter.writeOffset = stop
  flushedOffset_eq : set.activeWriter.flushedOffset = stop

theorem Live.remainingBytes_eq {config : SegmentConfig} {set : SegmentSet} {active : Shelf}
    {stop : Nat} (live : Live config set active stop) :
    set.activeWriter.remainingBytes = config.segmentSize - stop := by
  rw [Writer.remainingBytes, live.size_eq, live.writeOffset_eq]

variable {crc}

/-- What a validated configuration guarantees. -/
theorem SegmentConfig.validate_ok {config : SegmentConfig} (valid : config.validate = .ok ()) :
    config.headerSize < config.segmentSize ∧ config.segmentSize ≤ u32Max ∧
      min config.maxRecordLen (recordHardLimit config.segmentSize config.headerSize) =
        config.maxRecordLen := by
  have roomy : config.headerSize < config.segmentSize := by
    by_contra small
    simp [validate, Nat.not_lt.mp small] at valid
  have sizeFits : config.segmentSize ≤ u32Max := by
    by_contra large
    simp [validate, Nat.not_le.mpr roomy, Nat.not_le.mp large] at valid
  have usable : config.maxRecordLen + recordHeadSize + commitMarkerPayload ≤
      config.segmentSize - config.headerSize := by
    by_contra full
    simp only [validate, Nat.not_le.mpr roomy, if_false, Nat.not_lt.mpr sizeFits, gt_iff_lt,
      if_pos (Nat.not_le.mp full)] at valid
    split at valid <;> cases valid
  refine ⟨roomy, sizeFits, Nat.min_eq_left ?_⟩
  rw [recordHardLimit]
  omega

theorem Contiguous.append_iff {expected : Nat} {left right : List Shelf} :
    Contiguous expected (left ++ right) ↔
      Contiguous expected left ∧
        Contiguous (expected + (left.flatMap Shelf.records).length) right := by
  induction left generalizing expected with
  | nil => simp [Contiguous]
  | cons shelf left ih =>
      simp only [List.cons_append, Contiguous, ih, List.flatMap_cons, List.length_append,
        and_assoc, Shelf.nextBase]
      refine and_congr_right fun baseEq => ?_
      rw [baseEq, Nat.add_assoc]

theorem Contiguous.snoc_iff {expected : Nat} {left : List Shelf} {shelf : Shelf} :
    Contiguous expected (left ++ [shelf]) ↔
      Contiguous expected left ∧
        shelf.base = expected + (left.flatMap Shelf.records).length := by
  rw [Contiguous.append_iff]
  simp [Contiguous]

theorem Contiguous.bases {expected : Nat} {shelves : List Shelf} {active : Shelf}
    (contiguous : Contiguous expected (shelves ++ [active]))
    (nonempty : ∀ shelf ∈ shelves, shelf.records ≠ []) :
    (shelves ++ [active]).Pairwise (fun first second => first.base < second.base) ∧
      ∀ shelf ∈ shelves ++ [active], expected ≤ shelf.base := by
  induction shelves generalizing expected with
  | nil =>
      obtain ⟨baseEq, _⟩ := contiguous
      exact ⟨by simp, by simp [baseEq]⟩
  | cons shelf shelves ih =>
      obtain ⟨baseEq, rest⟩ := contiguous
      obtain ⟨ascending, bounded⟩ :=
        ih rest fun other member => nonempty other (by simp [member])
      have grows : shelf.base < shelf.nextBase := by
        have positive := List.length_pos_of_ne_nil (nonempty shelf (by simp))
        simp only [Shelf.nextBase]
        omega
      refine ⟨?_, ?_⟩
      · rw [List.cons_append, List.pairwise_cons]
        refine ⟨fun other member => ?_, ascending⟩
        have bound := bounded other member
        omega
      · intro other member
        rcases List.mem_cons.mp member with rfl | later
        · omega
        · have bound := bounded other later
          omega

namespace Directory

theorem sorted_eq_self {shelves : List Shelf}
    (ascending : shelves.Pairwise fun first second => first.base < second.base) :
    Directory.sorted (shelves.map Shelf.entry) = shelves.map Shelf.entry := by
  refine List.Pairwise.insertionSort_eq ?_
  rw [List.pairwise_map]
  exact ascending.imp fun less => Nat.le_of_lt less

theorem read_entry {shelves : List Shelf} {shelf : Shelf}
    (ascending : shelves.Pairwise fun first second => first.base < second.base)
    (member : shelf ∈ shelves) :
    Directory.read (shelves.map Shelf.entry) shelf.base = shelf.file := by
  induction shelves with
  | nil => simp at member
  | cons other shelves ih =>
      obtain ⟨below, ascending⟩ := List.pairwise_cons.mp ascending
      rcases List.mem_cons.mp member with rfl | later
      · simp [Directory.read, Shelf.entry]
      · have different : (shelf.base == other.base) = false := by
          have less := below shelf later
          simp only [beq_eq_false_iff_ne]
          omega
        have rest := ih ascending later
        simpa [Directory.read, Shelf.entry, List.lookup_cons, different] using rest

theorem write_last {sealed : List Shelf} {active : Shelf} {file : List UInt8}
    (below : ∀ shelf ∈ sealed, shelf.base ≠ active.base) :
    Directory.write ((sealed ++ [active]).map Shelf.entry) active.base file =
      (sealed ++ [{ active with file := file }]).map Shelf.entry := by
  rw [Directory.write, List.map_append, List.map_append, List.map_append]
  congr 1
  · rw [List.map_map]
    refine List.map_congr_left fun shelf member => ?_
    exact if_neg (below shelf member)
  · simp [Shelf.entry]

end Directory

theorem classify_eq_written {shelf : Shelf} (header : shelf.HasHeader crc) :
    classify crc shelf.entry = .ok false := by
  obtain ⟨buf, header, read, parsed, baseEq⟩ := header
  unfold classify
  simp [Shelf.entry, read, parsed, baseEq]

theorem classifyAll_eq_written {shelves : List Shelf}
    (headers : ∀ shelf ∈ shelves, shelf.HasHeader crc) :
    classifyAll crc (shelves.map Shelf.entry) =
      .ok ((shelves.map Shelf.entry).map fun entry => (entry, false)) := by
  induction shelves with
  | nil => rfl
  | cons shelf shelves ih =>
      simp only [List.map_cons, classifyAll]
      rw [classify_eq_written (headers shelf (by simp)),
        ih fun other member => headers other (by simp [member])]

theorem keepWritten_eq_self (dir : Directory) :
    keepWritten (dir.map fun entry => (entry, false)) = .ok dir := by
  have kept : (dir.map fun entry => (entry, false)).rdropWhile (fun entry => entry.2) =
      dir.map fun entry => (entry, false) := by
    rw [List.rdropWhile_eq_self_iff]
    intro nonempty
    simp
  have clean : (dir.map fun entry => (entry, false)).find? (fun entry => entry.2) = none := by
    simp
  simp only [keepWritten, kept, clean, List.map_map]
  exact congrArg Except.ok (List.map_id dir)

theorem iterate_sealed {config : SegmentConfig} {shelf : Shelf}
    (sealed : shelf.Sealed crc config) (sizeFits : config.segmentSize ≤ u32Max) :
    ∃ records : List (Nat × List UInt8),
      (Reader.openSegment shelf.file none).iterate crc 0 config.headerSize =
        .ok (records.map (toRecord 0)) ∧
      records.map Prod.snd = shelf.records ∧
      scanOffsets crc shelf.file none config.headerSize = .ok (records.map Prod.fst) := by
  obtain ⟨entries, stop, stopLe, chain, payloadsEq, controls, tail, controlChain,
    allControl, quiet⟩ := sealed.scan
  have dataEq : dataRecords (entries ++ controls) = dataRecords entries := by
    rw [dataRecords_append, dataRecords_controls allControl, List.append_nil]
  have iterated := Reader.iterate_spec 0
    (Reader.reads_openSegment shelf.file none) (Nat.le_refl _) (chain.append controlChain) quiet
    fun _ _ => Nat.zero_le _
  rw [dataEq] at iterated
  exact ⟨dataRecords entries, iterated, payloadsEq,
    scanOffsets_of_iterate iterated (dataRecords_offset_le chain (by omega))⟩

theorem openSealed_eq {config : SegmentConfig} (sizeFits : config.segmentSize ≤ u32Max)
    {shelves : List Shelf} :
    ∀ {expected : Nat}, Contiguous expected shelves →
      (∀ shelf ∈ shelves, shelf.Sealed crc config) →
      ∃ segments,
        openSealed crc config expected (shelves.map Shelf.entry) =
          .ok (segments, expected + (shelves.flatMap Shelf.records).length) ∧
        segments.map (fun segment => (segment.basePosition, segment.flushedOffset)) =
          shelves.map fun shelf => (shelf.base, none) := by
  induction shelves with
  | nil =>
      intro expected _ _
      exact ⟨[], rfl, rfl⟩
  | cons shelf shelves ih =>
      intro expected contiguous sealed
      obtain ⟨rfl, rest⟩ := contiguous
      obtain ⟨records, _, recordsEq, scanned⟩ :=
        iterate_sealed (sealed shelf (by simp)) sizeFits
      have countEq : (records.map Prod.fst).length = shelf.records.length := by
        rw [← recordsEq]
        simp
      obtain ⟨segments, opened, shapes⟩ :=
        ih rest fun other member => sealed other (by simp [member])
      rw [Shelf.nextBase] at opened
      refine ⟨⟨shelf.base, none, records.map Prod.fst⟩ :: segments, ?_, ?_⟩
      · simp only [List.map_cons, Shelf.entry, openSealed, ne_eq, not_true_eq_false, if_false,
          scanned, countEq, opened, List.flatMap_cons, List.length_append, Nat.add_assoc]
      · simp [shapes]

/-- The reader of the recovered segment yields the records of the active shelf. -/
theorem iterate_active {config : SegmentConfig} {shelf : Shelf} {stop : Nat}
    (active : shelf.Active crc config stop) (sizeFits : config.segmentSize ≤ u32Max) :
    ∃ records : List (Nat × List UInt8),
      (Reader.openSegment shelf.file (some stop)).iterate crc 0 config.headerSize =
        .ok (records.map (toRecord 0)) ∧
      records.map Prod.snd = shelf.records ∧
      scanOffsets crc shelf.file (some stop) config.headerSize = .ok (records.map Prod.fst) := by
  obtain ⟨entries, longest, payloadsEq, _⟩ := active.recovered
  have iterated := iterate_committed 0
    (Reader.reads_openSegment shelf.file (some stop)) longest.chain fun _ _ => Nat.zero_le _
  have stopLe := active.stop_le
  exact ⟨dataRecords entries, iterated, payloadsEq,
    scanOffsets_of_iterate iterated (dataRecords_offset_le longest.chain (by omega))⟩

/-- The set that opening the active shelf gives. -/
theorem openActive_stored {config : SegmentConfig} {shelf : Shelf} {stop : Nat}
    {offsets : List Nat} (active : shelf.Active crc config stop)
    (roomy : config.headerSize < config.segmentSize)
    (scanned : scanOffsets crc shelf.file (some stop) config.headerSize = .ok offsets)
    (counted : offsets.length = shelf.records.length) (segments : List Segment) :
    openActive crc config segments shelf.base shelf.base shelf.file =
      .ok ⟨config, segments, shelf.base, offsets,
        ⟨⟨shelf.file, stop, [], []⟩, config.segmentSize, config.headerSize, stop, stop, false,
          min config.maxRecordLen (recordHardLimit config.segmentSize config.headerSize),
          shelf.lastPosition⟩, shelf.nextBase⟩ := by
  obtain ⟨entries, longest, _, position⟩ := active.recovered
  have recovered := recover_eq longest
  have agreed : shelf.lastPosition.any
      (fun highest => highest + 1 != shelf.base + shelf.records.length) = false := by
    unfold Shelf.lastPosition
    split
    · rfl
    · next nonempty =>
        have positive := List.length_pos_of_ne_nil nonempty
        simp
        omega
  simp only [openActive, ne_eq, not_true_eq_false, if_false, Writer.openSegment,
    Nat.not_le.mpr roomy, recovered, Writer.setMaxRecord, scanned, counted, position, agreed,
    Bool.false_eq_true, Shelf.nextBase]

theorem openActive_eq {config : SegmentConfig} {shelf : Shelf} {stop : Nat}
    (active : shelf.Active crc config stop) (sizeFits : config.segmentSize ≤ u32Max)
    (roomy : config.headerSize < config.segmentSize) (segments : List Segment) :
    ∃ set, openActive crc config segments shelf.base shelf.base shelf.file = .ok set ∧
      Live config set shelf stop ∧ set.sealed = segments := by
  obtain ⟨records, _, recordsEq, scanned⟩ := iterate_active active sizeFits
  have counted : (records.map Prod.fst).length = shelf.records.length := by
    rw [← recordsEq]
    simp
  exact ⟨_, openActive_stored active roomy scanned counted segments,
    ⟨rfl, rfl, rfl, rfl, rfl, rfl, rfl, rfl, rfl⟩, rfl⟩

theorem readSegment_eq {dir : Directory} {headerSize base : Nat} (segment : Segment)
    {file : List UInt8} {records : List (Nat × List UInt8)} (baseEq : segment.basePosition = base)
    (read : dir.read base = file)
    (iterated : (Reader.openSegment file segment.flushedOffset).iterate crc 0 headerSize =
      .ok (records.map (toRecord 0))) :
    SegmentSet.readSegment crc dir headerSize segment =
      .ok (positioned base (records.map Prod.snd)) := by
  subst baseEq
  rw [SegmentSet.readSegment, read, iterated]
  simp [positioned, List.zipIdx_map, toRecord, Function.comp_def]

theorem readSegments_append {dir : Directory} {headerSize : Nat} {left right : List Segment}
    {first second : List (Nat × List UInt8)}
    (leftRead : SegmentSet.readSegments crc dir headerSize left = .ok first)
    (rightRead : SegmentSet.readSegments crc dir headerSize right = .ok second) :
    SegmentSet.readSegments crc dir headerSize (left ++ right) = .ok (first ++ second) := by
  induction left generalizing first with
  | nil =>
      obtain rfl : [] = first := by simpa [SegmentSet.readSegments] using leftRead
      simpa using rightRead
  | cons segment left ih =>
      simp only [List.cons_append, SegmentSet.readSegments] at leftRead ⊢
      cases here : SegmentSet.readSegment crc dir headerSize segment with
      | error fault => simp [here] at leftRead
      | ok records =>
          cases rest : SegmentSet.readSegments crc dir headerSize left with
          | error fault => simp [here, rest] at leftRead
          | ok later =>
              simp only [here, rest, Except.ok.injEq] at leftRead
              subst leftRead
              simp only [ih rest, List.append_assoc]

theorem readSegments_sealed {config : SegmentConfig} (sizeFits : config.segmentSize ≤ u32Max)
    {dir : Directory} {shelves : List Shelf} :
    ∀ {expected : Nat} {segments : List Segment}, Contiguous expected shelves →
      (∀ shelf ∈ shelves, shelf.Sealed crc config) →
      (∀ shelf ∈ shelves, dir.read shelf.base = shelf.file) →
      segments.map (fun segment => (segment.basePosition, segment.flushedOffset)) =
        shelves.map (fun shelf => (shelf.base, none)) →
      SegmentSet.readSegments crc dir config.headerSize segments =
        .ok (positioned expected (shelves.flatMap Shelf.records)) := by
  induction shelves with
  | nil =>
      intro expected segments _ _ _ shapes
      obtain rfl : segments = [] := by simpa using shapes
      rfl
  | cons shelf shelves ih =>
      intro expected segments contiguous sealed reads shapes
      cases segments with
      | nil => simp at shapes
      | cons segment segments =>
          obtain ⟨rfl, rest⟩ := contiguous
          simp only [List.map_cons, List.cons.injEq, Prod.mk.injEq] at shapes
          obtain ⟨⟨baseEq, flushedEq⟩, shapes⟩ := shapes
          obtain ⟨records, iterated, recordsEq, _⟩ :=
            iterate_sealed (sealed shelf (by simp)) sizeFits
          rw [← flushedEq] at iterated
          have here := readSegment_eq segment baseEq (reads shelf (by simp)) iterated
          have later := ih rest (fun other member => sealed other (by simp [member]))
            (fun other member => reads other (by simp [member])) shapes
          simp only [SegmentSet.readSegments, here, later, recordsEq, List.flatMap_cons,
            positioned_append, Shelf.nextBase]

theorem Stored.ascending {config : SegmentConfig} {dir : Directory} {sealed : List Shelf}
    {active : Shelf} {stop : Nat} (stored : Stored crc config dir sealed active stop) :
    (sealed ++ [active]).Pairwise fun first second => first.base < second.base :=
  (stored.contiguous.bases fun shelf member => (stored.sealed_ok shelf member).nonempty).1

theorem Stored.read {config : SegmentConfig} {dir : Directory} {sealed : List Shelf}
    {active : Shelf} {stop : Nat} (stored : Stored crc config dir sealed active stop) :
    ∀ shelf ∈ sealed ++ [active], dir.read shelf.base = shelf.file := by
  intro shelf member
  rw [stored.dir_eq]
  exact Directory.read_entry stored.ascending member

/-- The files of a stored log are all written, so opening it comes down to its sealed
segments and the recovery of the active one. -/
theorem openSet_eq_openActive {config : SegmentConfig} {dir : Directory} {sealed : List Shelf}
    {active : Shelf} {stop : Nat} {segments : List Segment} (valid : config.validate = .ok ())
    (stored : Stored crc config dir sealed active stop)
    (sealedOpened : openSealed crc config firstPosition (sealed.map Shelf.entry) =
      .ok (segments, active.base)) (now : UInt64) :
    SegmentSet.openSet crc config now dir =
      (openActive crc config segments active.base active.base active.file, dir) := by
  have headers : ∀ shelf ∈ sealed ++ [active], shelf.HasHeader crc := by
    intro shelf member
    rcases List.mem_append.mp member with old | last
    · exact (stored.sealed_ok shelf old).header
    · obtain rfl : shelf = active := by simpa using last
      exact stored.active_ok.header
  have lastEq : (List.map Shelf.entry (sealed ++ [active])).getLast? = some active.entry := by
    simp
  have frontEq : (List.map Shelf.entry (sealed ++ [active])).dropLast =
      sealed.map Shelf.entry := by
    simp
  rw [SegmentSet.openSet, valid]
  simp only
  rw [stored.dir_eq, Directory.sorted_eq_self stored.ascending, classifyAll_eq_written headers]
  simp only [keepWritten_eq_self, lastEq, frontEq, sealedOpened]
  rfl

/-- A stored log opens, and reading it yields its records at their positions. -/
theorem openSet_stored {config : SegmentConfig} {dir : Directory} {sealed : List Shelf}
    {active : Shelf} {stop : Nat} (valid : config.validate = .ok ())
    (stored : Stored crc config dir sealed active stop) (now : UInt64) :
    ∃ set, SegmentSet.openSet crc config now dir = (.ok set, dir) ∧
      Live config set active stop ∧
      SegmentSet.readLog crc ⟨dir, set⟩ =
        .ok (positioned firstPosition (storedRecords sealed active)) := by
  obtain ⟨roomy, sizeFits, _⟩ := SegmentConfig.validate_ok valid
  have reads := stored.read
  obtain ⟨sealedContiguous, activeBase⟩ := Contiguous.snoc_iff.mp stored.contiguous
  obtain ⟨segments, sealedOpened, shapes⟩ :=
    openSealed_eq sizeFits sealedContiguous stored.sealed_ok
  obtain ⟨set, activeOpened, live, sealedEq⟩ :=
    openActive_eq stored.active_ok sizeFits roomy segments
  refine ⟨set, ?_, live, ?_⟩
  · rw [← activeBase] at sealedOpened
    rw [openSet_eq_openActive valid stored sealedOpened now, activeOpened]
  · obtain ⟨records, iterated, recordsEq, _⟩ := iterate_active stored.active_ok sizeFits
    have sealedRead := readSegments_sealed sizeFits sealedContiguous stored.sealed_ok
      (fun shelf member => reads shelf (by simp [member])) shapes
    have activeRead : SegmentSet.readSegments crc dir config.headerSize [set.active] =
        .ok (positioned active.base active.records) := by
      rw [← live.flushedOffset_eq] at iterated
      have here := readSegment_eq set.active live.activeBase_eq (reads active (by simp))
        iterated
      simp [SegmentSet.readSegments, here, recordsEq]
    rw [SegmentSet.readLog, live.config_eq, sealedEq, readSegments_append sealedRead activeRead,
      storedRecords, List.flatMap_append, positioned_append, ← activeBase]
    simp

end Log

end Tephra
