import Tephra.LogReadings
import Tephra.LogRollover
import Tephra.SegmentScan

/-!
# Logs that were opened

Whatever the files of a directory hold, a log that was opened over them is a contiguous run of
segments.  Each segment is a chain of records up to a quiet end, and its sidecar has the offsets
of the data records.
-/

namespace Tephra

namespace Log

open ByteImage FrameChain Positions Seglog SegmentSource

variable {crc : List UInt8 → UInt32}

/-- Segments in order, each a chain of records, and what a reading of all of them gives. -/
structure Run (crc : List UInt8 → UInt32) (dir : Directory) (headerSize base : Nat)
    (segments : List Segment) (lists : List (List (List UInt8))) : Prop where
  contiguous : SegmentSource.Contiguous base segments
  recorded : List.Forall₂ (Recorded crc dir headerSize) segments lists
  small : ∀ segment ∈ segments, ∀ offset ∈ segment.offsets, offset ≤ u32Max
  read : SegmentSet.readSegments crc dir headerSize segments =
    .ok (positioned base lists.flatten)

theorem scanOffsets_ok {file : List UInt8} {flushed : Option Nat} {headerSize : Nat}
    {offsets : List Nat} (scanned : scanOffsets crc file flushed headerSize = .ok offsets) :
    ∃ records, (Reader.openSegment file flushed).iterate crc 0 headerSize = .ok records ∧
      records.map Record.offset = offsets ∧ ∀ offset ∈ offsets, offset ≤ u32Max := by
  unfold scanOffsets at scanned
  split at scanned
  · cases scanned
  next records iterated =>
  split at scanned
  · next small =>
    obtain rfl := Except.ok.inj scanned
    refine ⟨records, iterated, rfl, fun offset member => ?_⟩
    obtain ⟨record, recordMember, rfl⟩ := List.mem_map.mp member
    exact of_decide_eq_true (List.all_eq_true.mp small record recordMember)
  · cases scanned

namespace Run

variable {dir : Directory} {headerSize base : Nat}

theorem nil (dir : Directory) (headerSize base : Nat) : Run crc dir headerSize base [] [] :=
  ⟨trivial, .nil, by simp, rfl⟩

theorem single {segment : Segment} {records : List (Nat × List UInt8)}
    (recorded : Recorded crc dir headerSize segment (records.map Prod.snd))
    (small : ∀ offset ∈ segment.offsets, offset ≤ u32Max)
    (iterated : (Reader.openSegment (dir.read segment.basePosition)
      segment.flushedOffset).iterate crc 0 headerSize = .ok (records.map (toRecord 0))) :
    Run crc dir headerSize segment.basePosition [segment] [records.map Prod.snd] := by
  constructor
  · exact ⟨rfl, trivial⟩
  · exact .cons recorded .nil
  · intro other member
    rwa [List.mem_singleton.mp member]
  · have here := readSegment_eq segment rfl rfl iterated
    simp only [SegmentSet.readSegments, here, List.append_nil, List.flatten_cons, List.flatten_nil]

theorem totalEvents_eq {segments : List Segment} {lists : List (List (List UInt8))}
    (run : Run crc dir headerSize base segments lists) :
    SegmentSource.totalEvents segments = lists.flatten.length :=
  totalEvents_of_recorded run.recorded

theorem append {front back : List Segment} {first second : List (List (List UInt8))}
    (left : Run crc dir headerSize base front first)
    (right : Run crc dir headerSize (base + first.flatten.length) back second) :
    Run crc dir headerSize base (front ++ back) (first ++ second) := by
  constructor
  · exact SegmentSource.contiguous_append.mpr
      ⟨left.contiguous, by rw [left.totalEvents_eq]; exact right.contiguous⟩
  · exact List.rel_append left.recorded right.recorded
  · intro segment member
    exact (List.mem_append.mp member).elim (left.small segment) (right.small segment)
  · rw [readSegments_append left.read right.read, List.flatten_append, positioned_append]

end Run

theorem run_of_openSealed {config : SegmentConfig} {dir entries : Directory}
    {expected next : Nat} {segments : List Segment}
    (reads : ∀ entry ∈ entries, dir.read entry.1 = entry.2)
    (opened : openSealed crc config expected entries = .ok (segments, next)) :
    ∃ lists, Run crc dir config.headerSize expected segments lists ∧
      next = expected + lists.flatten.length := by
  induction entries generalizing expected segments with
  | nil =>
      cases opened
      exact ⟨[], .nil dir config.headerSize next, rfl⟩
  | cons entry entries ih =>
      obtain ⟨base, file⟩ := entry
      have readHere : dir.read base = file := reads (base, file) (by simp)
      simp only [openSealed] at opened
      split at opened
      · cases opened
      next sameBase =>
      obtain rfl : base = expected := not_not.mp sameBase
      split at opened
      · cases opened
      next offsets scanned =>
      split at opened
      · cases opened
      next later _ restOpened =>
      cases opened
      obtain ⟨records, iterated, offsetsEq, small⟩ := scanOffsets_ok scanned
      obtain ⟨frames, stop, chain, quiet, rfl⟩ :=
        Reader.chain_of_iterate (Reader.reads_openSegment file none) (Nat.le_refl _) iterated
      have recorded : Recorded crc dir config.headerSize ⟨base, none, offsets⟩
          ((dataRecords frames).map Prod.snd) := by
        have extentEq : Segment.extent ⟨base, none, offsets⟩ dir = file.length := by
          simp [Segment.extent, readHere]
        constructor
        · intro _
          rw [extentEq, readHere]
        · rw [extentEq, readHere]
          refine ⟨frames, stop, chain, quiet, ?_, rfl⟩
          rw [← offsetsEq, List.map_map]
          rfl
      have here := Run.single recorded small (by rw [readHere]; exact iterated)
      obtain ⟨lists, rest, nextEq⟩ :=
        ih (fun entry member => reads entry (by simp [member])) restOpened
      have counted : offsets.length = ((dataRecords frames).map Prod.snd).length :=
        recorded.length_offsets
      rw [counted] at rest nextEq
      refine ⟨_, @Run.append crc dir config.headerSize base [_] later [_] lists here ?_, ?_⟩
      · simpa using rest
      · rw [nextEq]
        simp only [List.singleton_append, List.flatten_cons, List.length_append]
        omega

/-- The active segment that is opened is a run, up to its last commit marker. -/
theorem run_of_openActive {config : SegmentConfig} {dir : Directory} {sealed : List Segment}
    {expected base : Nat} {file : List UInt8} {set : SegmentSet}
    (valid : config.validate = .ok ()) (reads : dir.read base = file)
    (opened : openActive crc config sealed expected base file = .ok set) :
    set.config = config ∧ set.sealed = sealed ∧ ∃ records,
      Run crc dir config.headerSize expected [set.active] [records] ∧
      set.nextPosition = expected + records.length := by
  obtain ⟨roomy, sizeFits, -⟩ := SegmentConfig.validate_ok valid
  obtain ⟨entries, longest, position⟩ :=
    recover_spec crc file config.segmentSize config.headerSize
  have scanned := scanOffsets_committed longest sizeFits
  unfold openActive at opened
  split at opened
  · cases opened
  next sameBase =>
  obtain rfl : base = expected := not_not.mp sameBase
  simp only [Writer.openSegment, Nat.not_le.mpr roomy, if_false, Writer.setMaxRecord,
    scanned, position, List.length_map] at opened
  split at opened
  · cases opened
  cases opened
  refine ⟨rfl, rfl, (dataRecords entries).map Prod.snd, ?_, by simp⟩
  have inside := longest.chain.stop_le (recordAt_inside file config.segmentSize)
  have grows := longest.chain.le (recordAt_inside file config.segmentSize)
  generalize (recover crc file config.segmentSize config.headerSize).committedOffset = stop at *
  refine @Run.single crc dir _ ⟨base, some stop, (dataRecords entries).map Prod.fst⟩ _
    ⟨fun nonempty => ?_, entries, stop, ?_, ?_, rfl, rfl⟩ ?_ ?_
  · rcases inside with nothing | inside
    · obtain rfl : entries = [] := List.eq_nil_of_length_eq_zero (by omega)
      exact absurd rfl nonempty
    · exact reads.symm ▸ inside
  · exact reads.symm ▸ chain_congr longest.chain (AgreeOn.refl _ _ _) (Nat.le_refl _)
  · exact .inl (by simp [Segment.extent, recordHeadSize, lenSize])
  · intro offset member
    obtain ⟨record, recordMember, rfl⟩ := List.mem_map.mp member
    have below := dataRecords_offset_lt longest.chain record recordMember
    rcases longest.chain.stop_le (recordAt_advances file config.segmentSize) with none | bound
    · obtain rfl : entries = [] := List.eq_nil_of_length_eq_zero (by omega)
      simp [dataRecords] at recordMember
    · exact below.le.trans (bound.trans sizeFits)
  · rw [reads]
    exact iterate_committed 0 (Reader.reads_openSegment file (some stop)) longest.chain
      fun _ _ => Nat.zero_le _

theorem Directory.read_of_nodup {dir : Directory} (distinct : (dir.map Prod.fst).Nodup)
    {entry : Nat × List UInt8} (member : entry ∈ dir) : dir.read entry.1 = entry.2 := by
  induction dir with
  | nil => simp at member
  | cons other dir ih =>
      obtain ⟨base, file⟩ := other
      rw [List.map_cons, List.nodup_cons] at distinct
      rcases List.mem_cons.mp member with rfl | later
      · simp [Directory.read]
      · have different : (entry.1 == base) = false := by
          simp only [beq_eq_false_iff_ne]
          intro same
          exact distinct.1 (List.mem_map.mpr ⟨entry, later, same⟩)
        have rest := ih distinct.2 later
        simpa [Directory.read, List.lookup_cons, different] using rest

theorem map_fst_of_classifyAll {dir : Directory} {classified : List ((Nat × List UInt8) × Bool)}
    (ok : classifyAll crc dir = .ok classified) : classified.map Prod.fst = dir := by
  induction dir generalizing classified with
  | nil =>
      cases ok
      rfl
  | cons entry dir ih =>
      simp only [classifyAll] at ok
      split at ok
      · cases ok
      split at ok
      · cases ok
      next rest restOk =>
      cases ok
      rw [List.map_cons, ih restOk]

/-- The files that are opened are the first of those in order. -/
theorem prefix_of_keepWritten {classified : List ((Nat × List UInt8) × Bool)} {valid : Directory}
    (kept : keepWritten classified = .ok valid) : valid <+: classified.map Prod.fst := by
  unfold keepWritten at kept
  dsimp only at kept
  split at kept
  · cases kept
  · cases kept
    exact (List.rdropWhile_prefix _ classified).map _

/-- A log that is opened is a run of segments, sealed ones and the active one. -/
theorem run_of_openSet {config : SegmentConfig} {dir after : Directory} {now : UInt64}
    {set : SegmentSet} (distinct : (dir.map Prod.fst).Nodup)
    (opened : SegmentSet.openSet crc config now dir = (.ok set, after)) :
    set.config = config ∧ ∃ lists,
      Run crc after config.headerSize firstPosition (segments set) lists ∧
      set.nextPosition = firstPosition + lists.flatten.length := by
  unfold SegmentSet.openSet at opened
  split at opened
  · cases opened
  next validated =>
  split at opened
  · cases opened
  next classified classifiedOk =>
  split at opened
  · cases opened
  next valid kept =>
  split at opened
  · -- No file was written: the first segment is created.
    next none =>
    have created := SegmentSet.openSet_empty_eq crc validated now
    rw [SegmentSet.openSet, validated] at created
    simp only [Directory.sorted, List.insertionSort_nil, classifyAll, keepWritten] at created
    obtain ⟨setEq, rfl⟩ := Prod.mk.inj (created.symm.trans opened)
    obtain rfl := Except.ok.inj setEq
    have past : config.headerSize < config.headerSize + recordHeadSize := by
      simp [recordHeadSize, lenSize]
    refine ⟨rfl, [[]], @Run.single crc _ _ ⟨firstPosition, some config.headerSize, []⟩ []
      ⟨by simp, [], config.headerSize, .nil _, .inl ?_, rfl, rfl⟩ (by simp) ?_, rfl⟩
    · exact past
    · exact Reader.iterate_past_end past
  · next active last =>
    split at opened
    · cases opened
    next sealed expected sealedOpened =>
    obtain ⟨activeOpened, rfl⟩ := Prod.mk.inj opened
    have names : (valid.map Prod.fst).Nodup := by
      have order := prefix_of_keepWritten kept
      rw [map_fst_of_classifyAll classifiedOk] at order
      have sorted : (dir.sorted.map Prod.fst).Nodup :=
        ((List.perm_insertionSort _ dir).map Prod.fst).nodup_iff.mpr distinct
      exact sorted.sublist (order.sublist.map Prod.fst)
    obtain ⟨front, sealedRun, rfl⟩ := run_of_openSealed
      (fun entry member => Directory.read_of_nodup names ((List.dropLast_sublist valid).subset member))
      sealedOpened
    obtain ⟨configEq, rfl, records, activeRun, nextEq⟩ := run_of_openActive validated
      (Directory.read_of_nodup names (List.mem_of_getLast? last)) activeOpened
    refine ⟨configEq, _, sealedRun.append activeRun, ?_⟩
    rw [nextEq, List.flatten_append, List.length_append]
    simp [Nat.add_assoc]

end Log

end Tephra
