import Tephra.AppendOutcomes
import Tephra.EventDecoding
import Tephra.FaultHistory

/-!
# The events in the files of a log

A writer that is started on an opened log works with the events that its files hold.  They are
cut into segments as the records of the files are, and each of these segments is as small as its
file.
-/

namespace Tephra

namespace Event

/-- Events whose headers have room for their lengths differ in their bytes. -/
theorem eq_of_asBytes {left right : Event} (leftFits : left.Encodable)
    (rightFits : right.Encodable) (same : left.asBytes = right.asBytes) : left = right := by
  have decoded := fromBytes_asBytes leftFits
  rw [same, fromBytes_asBytes rightFits] at decoded
  have ref := Except.ok.inj decoded
  obtain ⟨leftType, leftTags, leftData⟩ := ref_accessors leftFits
  obtain ⟨rightType, rightTags, rightData⟩ := ref_accessors rightFits
  rw [same, ← ref] at leftType leftTags leftData
  have types := Name.bytes_injective (leftType.symm.trans rightType)
  have tags := List.map_injective_iff.mpr Name.bytes_injective (leftTags.symm.trans rightTags)
  have data := leftData.symm.trans rightData
  obtain ⟨leftName, ⟨leftList, _⟩, leftPayload⟩ := left
  obtain ⟨rightName, ⟨rightList, _⟩, rightPayload⟩ := right
  dsimp only at types tags data
  subst types tags data
  rfl

theorem eq_of_map_asBytes {left right : List Event} (leftFit : ∀ event ∈ left, event.Encodable)
    (rightFit : ∀ event ∈ right, event.Encodable)
    (same : left.map asBytes = right.map asBytes) : left = right := by
  induction left generalizing right with
  | nil => exact (List.map_eq_nil_iff.mp same.symm).symm
  | cons event left ih =>
      obtain ⟨other, rest, rfl, here, later⟩ := List.map_eq_cons_iff.mp same.symm
      rw [List.forall_mem_cons] at leftFit rightFit
      rw [eq_of_asBytes leftFit.1 rightFit.1 here.symm, ih leftFit.2 rightFit.2 later.symm]

end Event

namespace Log

open FrameChain Positions Seglog

variable {crc : List UInt8 → UInt32}

theorem length_payloads_le {file : List UInt8} {size start stop : Nat}
    {entries : List (Nat × Frame)} (chain : Chain (recordAt crc file size) start entries stop) :
    start + ((payloads entries).map fun payload => recordHeadSize + payload.length).sum ≤ stop := by
  induction chain with
  | nil offset => exact Nat.le_refl _
  | @cons offset next stop frame entries here rest ih =>
      have nextEq := next_of_recordAt here
      rw [Frame.totalLen] at nextEq
      cases control : frame.isControl with
      | true =>
          rw [payloads, dataRecords_cons_control control, ← payloads]
          omega
      | false =>
          rw [payloads, dataRecords_cons_data control, List.map_cons, ← payloads, List.map_cons,
            List.sum_cons]
          dsimp only
          omega

/-- A segment of an opened log has a record for each of a shelf. -/
def Shelved (segment : Segment) (shelf : Shelf) : Prop :=
  segment.basePosition = shelf.base ∧ segment.offsets.length = shelf.records.length

theorem openSealed_shelved {config : SegmentConfig} (sizeFits : config.segmentSize ≤ u32Max)
    {shelves : List Shelf} {expected : Nat} (contiguous : Contiguous expected shelves)
    (sealed : ∀ shelf ∈ shelves, shelf.Sealed crc config) :
    ∃ segments,
      openSealed crc config expected (shelves.map Shelf.entry) =
        .ok (segments, expected + (shelves.flatMap Shelf.records).length) ∧
      List.Forall₂ Shelved segments shelves := by
  induction shelves generalizing expected with
  | nil => exact ⟨[], rfl, .nil⟩
  | cons shelf shelves ih =>
      obtain ⟨rfl, rest⟩ := contiguous
      rw [List.forall_mem_cons] at sealed
      obtain ⟨records, -, recordsEq, scanned⟩ := iterate_sealed sealed.1 sizeFits
      have counted : (records.map Prod.fst).length = shelf.records.length := by
        rw [← recordsEq, List.length_map, List.length_map]
      obtain ⟨segments, opened, shelved⟩ := ih rest sealed.2
      rw [Shelf.nextBase] at opened
      refine ⟨⟨shelf.base, none, records.map Prod.fst⟩ :: segments, ?_,
        .cons ⟨rfl, counted⟩ shelved⟩
      simp only [List.map_cons, Shelf.entry, openSealed, ne_eq, not_true_eq_false,
        if_false, scanned, counted, opened, List.flatMap_cons, List.length_append, Nat.add_assoc]

theorem Stored.nextBase_eq {config : SegmentConfig} {dir : Directory} {sealed : List Shelf}
    {active : Shelf} {stop : Nat} (stored : Stored crc config dir sealed active stop) :
    active.nextBase = firstPosition + (storedRecords sealed active).length := by
  rw [Shelf.nextBase, (Contiguous.snoc_iff.mp stored.contiguous).2, storedRecords,
    List.flatMap_append, List.flatMap_singleton, List.length_append, Nat.add_assoc]

theorem openSet_shelved {config : SegmentConfig} {dir : Directory} {sealed : List Shelf}
    {active : Shelf} {stop : Nat} (valid : config.validate = .ok ())
    (stored : Stored crc config dir sealed active stop) (now : UInt64) :
    ∃ set, SegmentSet.openSet crc config now dir = (.ok set, dir) ∧
      Live config set active stop ∧ List.Forall₂ Shelved set.sealed sealed ∧
      Shelved set.active active ∧
      SegmentSet.readLog crc ⟨dir, set⟩ =
        .ok (positioned firstPosition (storedRecords sealed active)) := by
  obtain ⟨roomy, sizeFits, -⟩ := SegmentConfig.validate_ok valid
  obtain ⟨set, opened, live, read⟩ := openSet_stored valid stored now
  obtain ⟨sealedContiguous, activeBase⟩ := Contiguous.snoc_iff.mp stored.contiguous
  obtain ⟨segments, sealedOpened, shelved⟩ :=
    openSealed_shelved sizeFits sealedContiguous stored.sealed_ok
  rw [← activeBase] at sealedOpened
  obtain ⟨records, -, recordsEq, scanned⟩ := iterate_active stored.active_ok sizeFits
  have counted : (records.map Prod.fst).length = active.records.length := by
    rw [← recordsEq, List.length_map, List.length_map]
  have same := openSet_eq_openActive valid stored sealedOpened now
  rw [openActive_stored stored.active_ok roomy scanned counted segments, opened] at same
  obtain rfl := Except.ok.inj (Prod.mk.inj same).1
  exact ⟨_, opened, live, shelved, ⟨rfl, counted⟩, read⟩

end Log

namespace Read

open Log hiding Segment

open FrameChain Positions Seglog SegmentSource

/-- Events, cut into segments as the records of files are. -/
def cutEvents : List Log.Segment → List Event → List Segment
  | [], _ => []
  | file :: files, events =>
      ⟨file.basePosition, (events.take file.offsets.length).map Except.ok⟩ ::
        cutEvents files (events.drop file.offsets.length)

/-- The events of a log in the segments that were opened for it. -/
def SegmentedLog.ofFiles (files : SegmentSet) (events : List Event) : SegmentedLog where
  sealed := cutEvents files.sealed events
  active := ⟨files.activeBase, (events.drop (totalEvents files.sealed)).map Except.ok⟩
  nextPosition := files.nextPosition

/-- A segment has the events that the records of a shelf encode. -/
structure Keeps (segment : Segment) (shelf : Shelf) : Prop where
  base_eq : segment.base = shelf.base
  recorded : segment.records = segment.events.map Except.ok
  encoded : segment.events.map Event.asBytes = shelf.records

theorem Keeps.length_eq {segment : Segment} {shelf : Shelf} (keeps : Keeps segment shelf) :
    segment.records.length = shelf.records.length := by
  rw [keeps.recorded, List.length_map, ← keeps.encoded, List.length_map]

theorem keeps_of_encoded {base : Nat} {events : List Event} {shelf : Shelf}
    (baseEq : base = shelf.base) (encoded : events.map Event.asBytes = shelf.records) :
    Keeps ⟨base, events.map Except.ok⟩ shelf := by
  have same : Segment.events ⟨base, events.map Except.ok⟩ = events :=
    Segment.events_of_records rfl
  constructor
  · exact baseEq
  · rw [same]
  · rw [same, encoded]

/-- The cut gives each shelf its events, and leaves those behind the shelves. -/
theorem cutEvents_keeps {files : List Log.Segment} {shelves : List Shelf}
    (shelved : List.Forall₂ Shelved files shelves) {events : List Event}
    {more : List (List UInt8)}
    (encoded : events.map Event.asBytes = shelves.flatMap Shelf.records ++ more) :
    List.Forall₂ Keeps (cutEvents files events) shelves ∧
      (events.drop (totalEvents files)).map Event.asBytes = more ∧
      (cutEvents files events).flatMap Segment.records =
        (events.take (totalEvents files)).map Except.ok := by
  induction shelved generalizing events with
  | nil => exact ⟨.nil, encoded, rfl⟩
  | @cons file shelf files shelves here _ ih =>
      obtain ⟨baseEq, counted⟩ := here
      rw [List.flatMap_cons, List.append_assoc] at encoded
      have front : (events.take file.offsets.length).map Event.asBytes = shelf.records := by
        rw [List.map_take, encoded, counted, List.take_left]
      have back : (events.drop file.offsets.length).map Event.asBytes =
          shelves.flatMap Shelf.records ++ more := by
        rw [List.map_drop, encoded, counted, List.drop_left]
      obtain ⟨keeps, rest, recorded⟩ := ih back
      have total : totalEvents (file :: files) = file.offsets.length + totalEvents files :=
        totalEvents_cons file files
      refine ⟨.cons (keeps_of_encoded baseEq front) keeps, ?_, ?_⟩
      · rwa [total, ← List.drop_drop]
      · rw [cutEvents, List.flatMap_cons, recorded, total, List.take_add, List.map_append]

theorem exists_shelf {segs : List Segment} {shelves : List Shelf}
    (keeps : List.Forall₂ Keeps segs shelves) {segment : Segment} (member : segment ∈ segs) :
    ∃ shelf ∈ shelves, Keeps segment shelf := by
  induction keeps with
  | nil => cases member
  | cons here _ ih =>
      rcases List.mem_cons.mp member with rfl | later
      · exact ⟨_, List.mem_cons_self, here⟩
      · obtain ⟨shelf, shelfMember, there⟩ := ih later
        exact ⟨shelf, List.mem_cons_of_mem _ shelfMember, there⟩

/-- Segments with the events of contiguous shelves are contiguous. -/
theorem contiguous_of_keeps {segs : List Segment} {shelves : List Shelf} {start : Nat}
    (keeps : List.Forall₂ Keeps segs shelves) (contiguous : Log.Contiguous start shelves) :
    SegmentSource.Contiguous start segs := by
  induction keeps generalizing start with
  | nil => trivial
  | @cons segment shelf segs shelves here _ ih =>
      obtain ⟨baseEq, later⟩ := contiguous
      refine ⟨here.base_eq.trans baseEq, ?_⟩
      rw [Shelf.nextBase, baseEq, ← here.length_eq] at later
      exact ih later

theorem Keeps.fits {crc : List UInt8 → UInt32} {segment : Segment} {shelf : Shelf}
    (keeps : Keeps segment shelf) {file : List UInt8} {size start stop : Nat}
    {entries : List (Nat × Frame)} (chain : Chain (recordAt crc file size) start entries stop)
    (recorded : payloads entries = shelf.records) (small : stop ≤ u32Max) :
    Index.FitsSegment segment.events := by
  have bound := length_payloads_le chain
  rw [recorded, ← keeps.encoded, List.map_map] at bound
  have bytes : Index.segmentBytes segment.events = (segment.events.map
      ((fun payload => recordHeadSize + payload.length) ∘ Event.asBytes)).sum := by
    rw [Index.segmentBytes]
    congr 2
    funext event
    simp only [Function.comp_apply, Event.length_asBytes, Index.encodedLen, Event.dataStart,
      headerLen, fixedHeader, Event.tagsTotal]
  have limit : u32Max = 2 ^ 32 - 1 := rfl
  rw [Index.FitsSegment, bytes]
  omega

/-- The segments that were opened over shelves have their spans. -/
theorem sameSpan_of_keeps {segs : List Segment} {files : List Log.Segment}
    {shelves : List Shelf} (keeps : List.Forall₂ Keeps segs shelves)
    (shelved : List.Forall₂ Shelved files shelves) :
    List.Forall₂ Writer.CommitSeam.SameSpan segs files := by
  induction keeps generalizing files with
  | nil =>
      cases shelved
      exact .nil
  | cons here _ ih =>
      cases shelved with
      | cons there rest =>
          refine .cons ⟨here.base_eq.trans there.1.symm, ?_⟩ (ih rest)
          exact here.length_eq.trans there.2.symm

namespace SegmentedLog

variable {crc : List UInt8 → UInt32} {config : SegmentConfig} {dir : Directory}
  {sealed : List Shelf} {active : Shelf} {stop : Nat} {files : SegmentSet} {log : List Event}

theorem ofFiles_keeps (shelved : List.Forall₂ Shelved files.sealed sealed)
    (baseEq : files.activeBase = active.base)
    (encoded : log.map Event.asBytes = storedRecords sealed active) :
    List.Forall₂ Keeps (ofFiles files log).sealed sealed ∧ Keeps (ofFiles files log).active active ∧
      records (ofFiles files log) = log.map Except.ok := by
  rw [storedRecords, List.flatMap_append, List.flatMap_singleton] at encoded
  obtain ⟨keeps, rest, recorded⟩ := cutEvents_keeps shelved encoded
  have split : segments (ofFiles files log) = cutEvents files.sealed log ++
      [⟨files.activeBase, (log.drop (totalEvents files.sealed)).map Except.ok⟩] := rfl
  refine ⟨keeps, keeps_of_encoded baseEq rest, ?_⟩
  rw [records, split, List.flatMap_append, List.flatMap_singleton, recorded, ← List.map_append,
    List.take_append_drop]

theorem ofFiles_opened (valid : config.validate = .ok ())
    (stored : Stored crc config dir sealed active stop) (live : Live config files active stop)
    (shelved : List.Forall₂ Shelved files.sealed sealed) (last : Shelved files.active active)
    (encoded : log.map Event.asBytes = storedRecords sealed active)
    (room : firstPosition + log.length ≤ maxPosition) :
    (ofFiles files log).Holds log ∧
      (∀ segment ∈ segments (ofFiles files log), Index.FitsSegment segment.events) ∧
      Writer.CommitSeam.Matches (ofFiles files log) files := by
  obtain ⟨sealedKeeps, activeKeeps, recorded⟩ := ofFiles_keeps shelved live.activeBase_eq encoded
  have nextEq : files.nextPosition = firstPosition + log.length := by
    rw [live.nextPosition_eq, stored.nextBase_eq, ← encoded, List.length_map]
  refine ⟨⟨⟨?_, ?_, ?_⟩, recorded⟩, ?_, ⟨?_, ?_, rfl⟩⟩
  · exact contiguous_of_keeps (List.rel_append sealedKeeps (.cons activeKeeps .nil))
      stored.contiguous
  · rw [recorded, List.length_map]
    exact nextEq
  · exact nextEq.trans_le room
  · obtain ⟨-, sizeFits, -⟩ := SegmentConfig.validate_ok valid
    intro segment member
    rcases List.mem_append.mp member with old | here
    · obtain ⟨shelf, shelfMember, keeps⟩ := exists_shelf sealedKeeps old
      obtain ⟨entries, stop, stopLe, chain, recorded, -⟩ :=
        (stored.sealed_ok shelf shelfMember).scan
      exact keeps.fits chain recorded (stopLe.trans sizeFits)
    · obtain rfl := List.mem_singleton.mp here
      obtain ⟨entries, longest, recorded, -⟩ := stored.active_ok.recovered
      exact activeKeeps.fits longest.chain recorded (stored.active_ok.stop_le.trans sizeFits)
  · exact sameSpan_of_keeps sealedKeeps shelved
  · exact ⟨activeKeeps.base_eq.trans last.1.symm, activeKeeps.length_eq.trans last.2.symm⟩

end SegmentedLog

end Read

end Tephra
