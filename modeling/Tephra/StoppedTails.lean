import Tephra.LoadedSnapshots
import Tephra.ReadEstimates
import Tephra.ReopenedReads

/-!
# Tails that have stopped

A log whose active segment has too many types is opened with a tail that has the events in
front of the first one that was refused, and that is not marked for it.  A read by the index
misses the tagged events behind them, and its estimate does not count them; a read of a
narrow range scans, and finds them.
-/

namespace Tephra

namespace Index

open Positions

/-- The tail of a rebuild stops in front of the event that has one type too many. -/
theorem rebuild_stops {base : Nat} {front : List Event} {last : Event}
    (fits : FitsSegment (front ++ [last]))
    (few : (distinctTypes front).length ≤ maxTypeId + 1)
    (many : maxTypeId + 1 < (distinctTypes (front ++ [last])).length) {built : Rebuilt}
    (rebuilt : rebuild base (front ++ [last]) = some built) :
    built.index.unindexable = false ∧ built.index.Holds base front := by
  obtain ⟨before, fed, holds⟩ := rebuild_holds base fits.prefix
  obtain ⟨after, fedLast, later⟩ := holds.feed fits
  have unlatched := holds.unindexable_iff.mpr few
  have latched : after.unindexable = true := by
    by_contra whole
    rw [Bool.not_eq_true, later.unindexable_iff] at whole
    omega
  rw [rebuild] at fed rebuilt
  rw [positioned_append, List.foldlM_append, fed, Option.bind_eq_bind, Option.bind_some,
    positioned_singleton, List.foldlM_cons, fedLast] at rebuilt
  obtain rfl := Option.some.inj rebuilt
  refine ⟨later.unmarked, ?_⟩
  obtain ⟨-, -, held, rest, split, tail, whole, -⟩ := holds
  obtain rfl := whole unlatched
  rw [List.append_nil] at split
  rw [Rebuilder.feed] at fedLast
  simp only [unlatched, Bool.false_eq_true, if_false] at fedLast
  split at fedLast
  · cases fedLast
  · cases fedLast
    exact split ▸ tail
  · cases fedLast
    exact absurd latched (by simp)

end Index

namespace Read

open AscendingLists Index Log Positions SegmentSource SortedMaps

variable {tail : ActiveTail} {base : Nat} {fed : List Event} {tag : Tag}

theorem localMatches_ofTag {ι : Type} [SegmentIndex ι] {index : ι}
    (postings : (SegmentIndex.termPostings index tag).getD [] =
      positionsWhere (carries tag) 0 fed) :
    localMatches index (ofTag tag) = positionsWhere (carries tag) 0 fed := by
  have item : itemLocals index ⟨[], .single tag⟩ =
      (SegmentIndex.termPostings index tag).getD [] := by
    simp only [itemLocals, Tags.single, collectPostings]
    cases SegmentIndex.termPostings index tag with
    | none => rfl
    | some list => simp [intersect, keepType]
  rw [ofTag, localMatches, List.flatMap_singleton, item, postings]
  exact sortDedup_eq (pairwise_positionsWhere 0 fed) fun _ => Iff.rfl

theorem termPostings_view (holds : tail.Holds base fed) (fits : FitsSegment fed) {upto : Nat}
    (started : base ≤ upto) (reached : base + fed.length ≤ upto + 1) :
    ((tail.view upto).termPostings tag).getD [] = positionsWhere (carries tag) 0 fed := by
  have short := fits.length_lt
  have visible : fed.length ≤ tail.visibleLen upto := by
    rw [ActiveTail.visibleLen, holds.base_eq, if_pos started]
    omega
  rw [ActiveTail.view, holds.termPostings_makeView fits, List.take_of_length_le visible]
  cases known : tail.tags.lookup tag with
  | none => exact ((holds.terms.absent_iff tag).mp known).symm
  | some term => rfl

theorem checkedSearch_ofTag (holds : tail.Holds base fed) (fits : FitsSegment fed) {upto : Nat}
    (started : base ≤ upto) (reached : base + fed.length ≤ upto + 1)
    (room : upto ≤ maxPosition) (after : Nat) :
    checkedSearch (tail.view upto) (ofTag tag) after =
      some (positionsIn (ofTag tag) after upto base fed) := by
  have matched : localMatches (tail.view upto) (ofTag tag) = positionsWhere (carries tag) 0 fed :=
    localMatches_ofTag (termPostings_view holds fits started reached)
  have within : ((localMatches (tail.view upto) (ofTag tag)).all fun i =>
      SegmentIndex.base (tail.view upto) + i ≤ maxPosition) = true := by
    rw [matched, List.all_eq_true]
    intro i member
    have inside := lt_of_mem_positionsWhere member
    change decide (tail.base + i ≤ maxPosition) = true
    rw [holds.base_eq, decide_eq_true_eq]
    omega
  rw [checkedSearch, if_pos within, search, matched, positionsIn]
  change some (((positionsWhere (carries tag) 0 fed).map (tail.base + ·)).filter _) = _
  rw [holds.base_eq, map_add_positionsWhere, Nat.add_zero, funext (matches_ofTag tag)]
  congr 1
  apply List.filter_congr
  intro position member
  have inside := lt_of_mem_positionsWhere member
  rw [decide_eq_decide]
  omega

/-- A tail that readers trust, and that holds only the first events of its segment. -/
structure Stopped {σ : Type} [SegmentIndex σ] (snapshot : Snapshot σ) (watermark : Nat)
    (log fed : List Event) : Prop extends LaidOut snapshot watermark log where
  unmarked : snapshot.activeIndex.unindexable = false
  holds : snapshot.activeIndex.Holds snapshot.activeLog.base fed
  fits : FitsSegment fed
  split : ∃ rest, snapshot.activeLog.events = fed ++ rest
  started : snapshot.activeLog.base ≤ watermark
  reached : snapshot.activeLog.base + fed.length ≤ watermark + 1

namespace Stopped

variable {σ : Type} [SegmentIndex σ] {snapshot : Snapshot σ} {watermark after : Nat}
  {log : List Event}

/-- A tag is estimated by the number of events with it that were fed. -/
theorem estimateRead_ofTag (stopped : Stopped snapshot watermark log fed)
    (behind : snapshot.activeLog.base - 1 ≤ after) (below : after < watermark) (tag : Tag) :
    estimateRead snapshot (ofTag tag) after watermark = some
      (min (positionsWhere (carries tag) 0 fed).length (watermark - after), watermark - after) := by
  have bound := stopped.covered
  have room := stopped.room
  obtain ⟨least, most⟩ := termLen_view stopped.holds stopped.fits stopped.started tag
  rw [List.take_of_length_le (by have := stopped.reached; omega)] at least
  have told := le_antisymm most least
  rw [stopped.estimateRead_active _ stopped.unmarked behind below le_rfl,
    estimateMatches_ofTag tag (by omega)]
  change some (min (((snapshot.activeIndex.view watermark).termLen tag).getD 0) _, _) = _
  rw [told]

/-- The events with a tag that were fed are those of the log up to the last one. -/
theorem positionsIn_fed (stopped : Stopped snapshot watermark log fed)
    (behind : snapshot.activeLog.base - 1 ≤ after) (query : Query) :
    positionsIn query after watermark snapshot.activeLog.base fed =
      (scanOracle query after (snapshot.activeLog.base + fed.length - 1) log).map
        Sequenced.position := by
  obtain ⟨rest, split⟩ := stopped.split
  have reached := stopped.reached
  rw [map_position_scanOracle, ← Nat.max_eq_left behind,
    stopped.positionsIn_active query (by omega), Nat.max_eq_left behind, split,
    positionsIn_append, @positionsIn_eq_nil _ _ _ _ rest (by omega), List.append_nil]
  apply List.filter_congr
  intro position member
  have inside := lt_of_mem_positionsWhere member
  rw [decide_eq_decide]
  omega

/-- By its index a read finds what it would if the log ended where the tail does. -/
theorem plan_ofTag (stopped : Stopped snapshot watermark log fed)
    (behind : snapshot.activeLog.base - 1 ≤ after) (below : after < watermark)
    {limit : Option Nat} (room : limit ≠ some 0) {scanBias : Nat}
    (chosen : choose (min (positionsWhere (carries tag) 0 fed).length (watermark - after))
      (watermark - after) scanBias = .index) :
    ∃ reads, Reads.plan snapshot (ofTag tag) after watermark scanBias limit = some reads ∧
      Reads.Yields
        (Reads.drained limit
          (scanOracle (ofTag tag) after (snapshot.activeLog.base + fed.length - 1) log)) reads
        (truncate limit
          (scanOracle (ofTag tag) after (snapshot.activeLog.base + fed.length - 1) log)) := by
  have bound := stopped.covered
  have fits := stopped.room
  apply Reads.plan_index stopped.toLaidOut below room
    (stopped.estimateRead_ofTag behind below tag) chosen
  · exact fun _ member => Reads.placed_of_mem_scanOracle member
  · have added := extendCapped_eq limit [] ((scanOracle (ofTag tag) after
      (snapshot.activeLog.base + fed.length - 1) log).map Sequenced.position)
    rw [truncate_nil, List.nil_append] at added
    rw [planPositions, planFrom_skip (by omega) fun pair member =>
        (stopped.sealed_end_le member).trans (by omega), planActive,
      if_pos (show watermark ≥ snapshot.activeLog.base from stopped.started), stopped.unmarked,
      checkedSearch_ofTag stopped.holds stopped.fits stopped.started stopped.reached (by omega),
      stopped.positionsIn_fed behind]
    simp only [Bool.false_eq_true, if_false, Option.bind_eq_bind, Option.bind_some]
    rw [added, truncate_truncate]
    rfl

end Stopped

end Read

namespace Writer.CommitSeam.Worker

open Log hiding Segment

open Index Positions Read SegmentSource SortedMaps

variable {format : MapFormat}

/-- What readers load covers the watermark, and its tail has the first events. -/
theorem InStep.readCovers {self : Worker format} (sound : self.Sound) (inStep : self.InStep) :
    Read.Covers self.snapshot self.watermark self.set.events where
  toLaidOut := inStep.laidOut sound
  fits := by
    rw [inStep.snapshot_eq]
    exact inStep.fits
  tail := by
    obtain ⟨-, -, fits, fed, rest, split, tail, -⟩ := inStep.holds.active_holds
    rw [inStep.snapshot_eq, sound.set.active_base]
    rw [split] at fits
    exact ⟨fed, rest, split, fits.prefix, tail⟩

/-- A store whose tail has stopped in front of its last event. -/
structure Overfull (worker : Worker format) (front : List Event) (last : Event) : Prop where
  sound : worker.Sound
  inStep : worker.InStep
  events_eq : worker.set.events = front ++ [last]
  watermark_eq : worker.watermark = front.length + 1
  base_eq : worker.snapshot.activeLog.base = firstPosition
  stopped : Stopped worker.snapshot (front.length + 1) (front ++ [last]) front

theorem Overfull.readCovers {worker : Worker format} {front : List Event} {last : Event}
    (overfull : Overfull worker front last) :
    Read.Covers worker.snapshot (front.length + 1) (front ++ [last]) := by
  have covers := overfull.inStep.readCovers overfull.sound
  rwa [overfull.watermark_eq, overfull.events_eq] at covers

theorem singleSegment_overfull {front : List Event} {last : Event}
    (fits : FitsSegment (front ++ [last])) (started : front ≠ [])
    (room : firstPosition + (front ++ [last]).length ≤ maxPosition)
    (few : (distinctTypes front).length ≤ maxTypeId + 1)
    (many : maxTypeId + 1 < (distinctTypes (front ++ [last])).length) (lawful : format.Lawful)
    (crc : List UInt8 → UInt32) (cfg : WriterConfig) :
    ∃ index : IndexSet format, Opened crc (singleSegment (front ++ [last])) index ∧
      Overfull (start cfg (singleSegment (front ++ [last])) index) front last := by
  obtain ⟨built, index, rebuilt, opened, active⟩ := singleSegment_opened format crc fits room
  obtain ⟨unmarked, holds⟩ := rebuild_stops fits few many rebuilt
  have sound := opened.sound_start lawful cfg
  have inStep := opened.inStep_start lawful cfg
  have events : (start cfg (singleSegment (front ++ [last])) index).set.events =
      front ++ [last] := by
    rw [SegmentedLog.events_eq_flatten]
    exact events_singleSegment (front ++ [last])
  have laid := inStep.laidOut sound
  have loaded := inStep.snapshot_eq
  have watermark : (start cfg (singleSegment (front ++ [last])) index).watermark =
      front.length + 1 := by
    rw [inStep.watermark_eq, sound.lastPosition_eq, events, List.length_append]
    exact Nat.add_sub_cancel_left _ _
  rw [events, watermark] at laid
  have activeIndex : (start cfg (singleSegment (front ++ [last])) index).snapshot.activeIndex =
      built.index := by rw [loaded, ← active]; rfl
  have activeLog : (start cfg (singleSegment (front ++ [last])) index).snapshot.activeLog =
      (singleSegment (front ++ [last])).active := by rw [loaded]; rfl
  have based : (singleSegment (front ++ [last])).active.base = firstPosition := rfl
  have nonempty := List.length_pos_of_ne_nil started
  have one : firstPosition = 1 := rfl
  refine ⟨index, opened, sound, inStep, events, watermark, by rw [activeLog, based],
    laid, ?_, ?_, fits.prefix, ⟨[last], ?_⟩, ?_, ?_⟩
  · rw [activeIndex, unmarked]
  · rw [activeIndex, activeLog, based]
    exact holds
  · rw [activeLog, events_singleSegment]
  · rw [activeLog, based]
    omega
  · rw [activeLog, based]
    omega

/-- An event of a type of its own, with a tag. -/
def numberedTagged (n : Nat) : Event := ⟨Shared.numberedName n, Tags.single letterB, []⟩

/-- Events of as many types; the last but one has a tag. -/
def heldEvents (n : Nat) : List Event :=
  Shared.numberedEvents n ++ [numberedTagged n, Shared.numberedEvent (n + 1)]

/-- The tag comes once more, with one type more. -/
def stoppedEvents (n : Nat) : List Event := heldEvents n ++ [numberedTagged (n + 2)]

theorem length_heldEvents (n : Nat) : (heldEvents n).length = n + 2 := by
  rw [heldEvents, List.length_append, Shared.numberedEvents, List.length_map, List.length_range]
  rfl

theorem types_heldEvents (n : Nat) :
    (heldEvents n).map Event.eventType = (List.range (n + 2)).map Shared.numberedName := by
  rw [heldEvents, List.map_append, Shared.types_numberedEvents, List.range_succ, List.range_succ,
    List.append_assoc, List.map_append]
  rfl

theorem types_stoppedEvents (n : Nat) :
    (stoppedEvents n).map Event.eventType = (List.range (n + 3)).map Shared.numberedName := by
  rw [stoppedEvents, List.map_append, types_heldEvents, @List.range_succ (n + 2), List.map_append]
  rfl

theorem stoppedEvents_fits {n : Nat} (few : n ≤ 2 ^ 17) : FitsSegment (stoppedEvents n) := by
  have rest : segmentBytes [numberedTagged n, Shared.numberedEvent (n + 1)] +
      segmentBytes [numberedTagged (n + 2)] = 51 := rfl
  rw [FitsSegment, stoppedEvents, heldEvents, segmentBytes_append, segmentBytes_append,
    Shared.segmentBytes_numberedEvents]
  omega

theorem numberedEvents_untagged (tag : Tag) (base n : Nat) :
    ((positioned base (Shared.numberedEvents n)).filter fun entry => carries tag entry.2) = [] := by
  rw [List.filter_eq_nil_iff]
  intro entry member
  obtain ⟨-, found⟩ := mem_positioned.mp member
  obtain ⟨m, -, same⟩ := List.mem_map.mp (List.mem_of_getElem? found)
  rw [← same]
  exact Bool.false_ne_true

theorem scanOracle_stoppedEvents (n after upto : Nat) :
    scanOracle (ofTag letterB) after upto (stoppedEvents n) =
      [⟨n + 1, numberedTagged n⟩, ⟨n + 3, numberedTagged (n + 2)⟩].filter fun item : Sequenced =>
            decide (after < item.position ∧ item.position ≤ upto) := by
  have rest : positioned (firstPosition + (Shared.numberedEvents n).length)
      ([numberedTagged n, Shared.numberedEvent (n + 1)] ++ [numberedTagged (n + 2)]) =
        [(n + 1, numberedTagged n), (n + 2, Shared.numberedEvent (n + 1)),
          (n + 3, numberedTagged (n + 2))] := by
    rw [Shared.numberedEvents, List.length_map, List.length_range, firstPosition, Nat.add_comm 1 n]
    rfl
  rw [scanOracle]
  simp only [matches_ofTag]
  rw [← List.filter_filter, stoppedEvents, heldEvents, List.append_assoc, positioned_append,
    List.filter_append, numberedEvents_untagged, List.nil_append, rest]
  have kept : [(n + 1, numberedTagged n), (n + 2, Shared.numberedEvent (n + 1)),
      (n + 3, numberedTagged (n + 2))].filter (fun entry => carries letterB entry.2) =
        [(n + 1, numberedTagged n), (n + 3, numberedTagged (n + 2))] := rfl
  rw [kept]
  simp only [List.filter_cons, List.filter_nil]
  split <;> split <;> rfl

theorem postings_heldEvents (n : Nat) :
    (positionsWhere (carries letterB) 0 (heldEvents n)).length = 1 := by
  rw [positionsWhere, heldEvents, positioned_append, List.filter_append, numberedEvents_untagged]
  rfl

/-- The writer of a store that is opened with one type too many. -/
abbrev reopened (index : IndexSet flatTable) : Worker flatTable :=
  start plainConfig (singleSegment (stoppedEvents 65534)) index

theorem stoppedEvents_overfull :
    ∃ index : IndexSet flatTable,
      Opened Seglog.crc32 (singleSegment (stoppedEvents 65534)) index ∧
        Overfull (reopened index) (heldEvents 65534) (numberedTagged 65536) := by
  have types := Shared.length_distinctTypes_numbered (by omega) (types_heldEvents 65534)
  have more := Shared.length_distinctTypes_numbered (by omega) (types_stoppedEvents 65534)
  have length := length_heldEvents 65534
  rw [stoppedEvents] at more
  apply singleSegment_overfull (stoppedEvents_fits (by omega))
  · exact List.ne_nil_of_length_pos (by omega)
  · rw [List.length_append, length]
    decide
  · rw [types]
    decide
  · rw [more]
    decide
  · exact flatTable_lawful

namespace Overfull

variable {worker : Worker format} {limit : Option Nat}

theorem plan_whole (overfull : Overfull worker (heldEvents 65534) (numberedTagged 65536))
    (room : limit ≠ some 0) :
    ∃ reads, Reads.plan worker.snapshot (ofTag letterB) 0 65537 4 limit = some reads ∧
      Reads.Yields (Reads.drained limit [⟨65535, numberedTagged 65534⟩]) reads
        (truncate limit [⟨65535, numberedTagged 65534⟩]) := by
  have stopped := overfull.stopped
  rw [length_heldEvents] at stopped
  have planned := @Stopped.plan_ofTag (heldEvents 65534) letterB _ _ worker.snapshot 65537 0 _
    stopped (by rw [overfull.base_eq, firstPosition]) (by omega) limit room 4
    (by rw [postings_heldEvents]; decide)
  rw [overfull.base_eq, show heldEvents 65534 ++ [numberedTagged 65536] = stoppedEvents 65534
    from rfl, scanOracle_stoppedEvents, length_heldEvents] at planned
  exact planned

theorem plan_end (overfull : Overfull worker (heldEvents 65534) (numberedTagged 65536))
    (room : limit ≠ some 0) :
    ∃ reads, Reads.plan worker.snapshot (ofTag letterB) 65535 65537 4 limit = some reads ∧
      Reads.Yields (Reads.drained limit [⟨65537, numberedTagged 65536⟩]) reads
        (truncate limit [⟨65537, numberedTagged 65536⟩]) := by
  have stopped := overfull.stopped
  rw [length_heldEvents] at stopped
  have estimated := @Stopped.estimateRead_ofTag (heldEvents 65534) _ _ worker.snapshot 65537 65535
    _ stopped (by rw [overfull.base_eq, firstPosition]; omega) (by omega) letterB
  rw [postings_heldEvents] at estimated
  have planned := @Reads.plan_scan _ _ _ _ _ stopped.toLaidOut (ofTag letterB) 65535 4 _ _ limit
    (by omega) room estimated (by decide)
  rw [show heldEvents 65534 ++ [numberedTagged 65536] = stoppedEvents 65534 from rfl,
    scanOracle_stoppedEvents] at planned
  exact planned

end Overfull

end Writer.CommitSeam.Worker

namespace Read

open Index Log Positions SortedMaps Writer Writer.CommitSeam Writer.CommitSeam.Worker

/-- The width of a read is the number of positions in its range, and the estimate is between the
number of matches there and the width, exactly if the tail is marked or all tagged events up to
the watermark are in it. -/
theorem estimates_right_iff {format : MapFormat} {snapshot : Snapshot (IndexSegment format)}
    {watermark : Nat} {log : List Event} (covers : Covers snapshot watermark log) :
    EstimatesRight snapshot watermark log ↔ TailKnowsTags snapshot watermark :=
  ⟨covers.knowsTags, covers.estimatesRight⟩

/-- Opened with one type too many, the estimate of a tag is one, and two events carry it. -/
theorem reopened_estimate_too_low :
    ∃ index : IndexSet flatTable,
      Opened Seglog.crc32 (singleSegment (stoppedEvents 65534)) index ∧
        Covers (reopened index).snapshot 65537 (stoppedEvents 65534) ∧
        estimateRead (reopened index).snapshot (ofTag letterB) 0 65537 = some (1, 65537) ∧
        (scanOracle (ofTag letterB) 0 65537 (stoppedEvents 65534)).length = 2 := by
  obtain ⟨index, opened, overfull⟩ := stoppedEvents_overfull
  have stopped := overfull.stopped
  have covers := overfull.readCovers
  rw [length_heldEvents] at stopped covers
  refine ⟨index, opened, covers, ?_, ?_⟩
  · rw [stopped.estimateRead_ofTag (by rw [overfull.base_eq, firstPosition]) (by omega),
      postings_heldEvents]
    rfl
  · rw [scanOracle_stoppedEvents]
    rfl

/-- Three events, and two behind a rollover; all but the second and the last have a tag. -/
def taggedRun : List WorkerStep :=
  [.request ⟨[taggedEvent, untaggedEvent, taggedEvent], none⟩, .commit .appended 7,
    .request ⟨[taggedEvent, untaggedEvent], none⟩, .commit .rolledOver 7]

/-- The events with one tag or the other. -/
def eitherTag : Query := .items [⟨[], Tags.single letterB⟩, ⟨[], Tags.single letterA⟩]

theorem estimates_right_iff_rolled :
    ∃ last, Histories.run (step Seglog.crc32)
        (start plainConfig emptyLog (IndexSet.new flatTable 1)) taggedRun = some last ∧
      EstimatesRight last.snapshot 5 last.set.events ∧
      estimateRead last.snapshot eitherTag 1 4 = some (3, 3) ∧
      (scanOracle eitherTag 1 4 last.set.events).length = 2 := by
  have computed : (Histories.run (step Seglog.crc32)
      (start plainConfig emptyLog (IndexSet.new flatTable 1)) taggedRun).any (fun last =>
        decide (last.watermark = 5 ∧ last.snapshot.activeIndex.len = 2 ∧
          last.snapshot.activeLog.records.length = 2 ∧
          estimateRead last.snapshot eitherTag 1 4 = some (3, 3) ∧
          (scanOracle eitherTag 1 4 last.set.events).length = 2)) = true := by
    decide +kernel
  obtain ⟨last, ran, shown⟩ := (Option.any_eq_true _ _).mp computed
  obtain ⟨watermark, held, records, estimated, matched⟩ := of_decide_eq_true shown
  have timely : Timely Seglog.crc32 (start plainConfig emptyLog (IndexSet.new flatTable 1))
      taggedRun last := ⟨by decide +kernel, by decide, ran⟩
  obtain ⟨sound, inStep⟩ := timely.inStep flatTable_lawful
    (emptyLog_opened.sound_start flatTable_lawful plainConfig)
    (emptyLog_opened.inStep_start flatTable_lawful plainConfig)
  have covers := inStep.readCovers sound
  rw [watermark] at covers
  have counted := covers.length_events
    (List.mem_append_right last.snapshot.sealedLog (List.mem_singleton_self last.snapshot.activeLog))
  have knows : TailKnowsTags last.snapshot 5 := by
    refine .inr fun event member => ?_
    rw [List.drop_eq_nil_of_le (by rw [List.length_take]; omega)] at member
    cases member
  exact ⟨last, ran, (estimates_right_iff covers).mpr knows, estimated, matched⟩

end Read

end Tephra
