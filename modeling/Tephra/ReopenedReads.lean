import Tephra.PlannedReads
import Tephra.SharedReads
import Tephra.SnapshotAlignment

/-!
# Reads of a reopened log

After the opening of a log and of its index, and after any commits, reads and conditions
are answered as a scan of the log would answer them.  The exception is a log whose active
segment has too many types when it is opened: its tail is latched in the index set and not
marked for the readers, and a read trusts it.
-/

namespace Tephra

namespace Read

open Log hiding Segment

open AscendingLists Index Positions SegmentSource

variable {σ : Type} [SegmentIndex σ]

/-- A query for the events of a type. -/
def ofType (name : EventType) : Query := .items [⟨[name], Tags.empty⟩]

theorem checkedSearch_ofType {ι : Type} [SegmentIndex ι] {index : ι} {name : EventType}
    (unknown : SegmentIndex.typeId index name = none) (after : Nat) :
    checkedSearch index (ofType name) after = some [] := by
  have nothing : localMatches index (ofType name) = [] := by
    simp [localMatches, ofType, itemLocals, unknown, sortDedup]
  rw [checkedSearch, search, nothing]
  rfl

theorem matches_ofType (event : Event) : (ofType event.eventType).matches event = true := by
  rw [ofType, Query.matches, List.any_cons, Bool.or_eq_true]
  refine .inl (QueryItem.matches_iff.mpr ⟨?_, ?_⟩)
  · simp
  · simp [Tags.empty]

theorem planFrom_skip {snapshot : Snapshot σ} {query : Query} {after watermark : Nat}
    {cap : Option Nat} {pairs : List (Segment × Option σ)} {out : List Nat}
    (room : after + 1 ≤ maxPosition)
    (before : ∀ pair ∈ pairs, pair.1.base + pair.1.records.length ≤ after + 1) :
    planFrom snapshot query after watermark cap pairs out =
      planActive snapshot query after watermark cap out := by
  induction pairs with
  | nil => rfl
  | cons pair pairs ih =>
      rw [List.forall_mem_cons] at before
      obtain ⟨here, others⟩ := before
      obtain ⟨segment, index⟩ := pair
      change segment.base + segment.records.length ≤ after + 1 at here
      rw [planFrom]
      split
      · exact ih others
      · rw [effectiveMax, checkedAdd, if_pos (here.trans room)]
        simp only [Option.bind_eq_bind, Option.bind_some, Option.pure_def]
        rw [if_pos (by omega)]
        exact ih others

theorem estimateRead_le {snapshot : Snapshot σ} {query : Query}
    {after watermark estimate width : Nat}
    (estimated : estimateRead snapshot query after watermark = some (estimate, width)) :
    estimate ≤ width := by
  simp only [estimateRead, Option.bind_eq_bind, Option.pure_def] at estimated
  obtain ⟨⟨total, span⟩, -, estimated⟩ := Option.bind_eq_some_iff.mp estimated
  split at estimated
  · obtain ⟨segWidth, -, estimated⟩ := Option.bind_eq_some_iff.mp estimated
    obtain ⟨more, -, estimated⟩ := Option.bind_eq_some_iff.mp estimated
    obtain ⟨other, -, estimated⟩ := Option.bind_eq_some_iff.mp estimated
    obtain ⟨rfl, rfl⟩ := Prod.mk.inj (Option.some.inj estimated)
    exact min_le_right _ _
  · obtain ⟨rfl, rfl⟩ := Prod.mk.inj (Option.some.inj estimated)
    exact min_le_right _ _

/-- A read by the index does not see the events of a type that the tail does not know. -/
theorem read_unknown_type {snapshot : Snapshot σ} {watermark after : Nat} {name : EventType}
    (unmarked : snapshot.activeIndex.unindexable = false)
    (unknown : snapshot.activeIndex.types.lookup name = none)
    (started : snapshot.activeLog.base ≤ watermark) (inside : after < watermark)
    (room : watermark ≤ maxPosition)
    (before : ∀ segment ∈ snapshot.sealedLog,
      segment.base + segment.records.length ≤ after + 1)
    {answer : List Sequenced}
    (answers : Answers (read watermark snapshot 1 (ofType name) after none) none answer) :
    answer = [] := by
  obtain ⟨reads, planned, driven⟩ := answers
  have skipped : planPositions snapshot (ofType name) after watermark none =
      some (.ok []) := by
    rw [planPositions, planFrom_skip (by omega) fun pair member =>
      before pair.1 (List.of_mem_zip member).1, planActive, if_pos started, unmarked]
    have found : checkedSearch (snapshot.activeIndex.view watermark) (ofType name) after =
        some [] := checkedSearch_ofType unknown after
    simp [found, extendCapped, truncate]
  rw [read, Reads.plan, Reads.planDirectional, if_neg (by simp; omega)] at planned
  obtain ⟨⟨estimate, width⟩, estimated, planned⟩ := Option.bind_eq_some_iff.mp planned
  have low : estimate ≤ width := estimateRead_le estimated
  have chosen : choose estimate width 1 = .index := by
    rw [choose, if_pos]
    rw [Nat.mul_one]
    exact (min_le_left _ _).trans low
  simp only [chosen, skipped, Option.bind_eq_bind, Option.bind_some, Option.pure_def] at planned
  obtain rfl := Option.some.inj planned
  obtain ⟨last, ended, -⟩ := driven (answer.length + 1) (Nat.lt_succ_self _)
  have drained : Reads.drive (answer.length + 1)
      (⟨watermark, none, none, false, .indexed snapshot [] none⟩ : Reads σ) = some ([], _) := rfl
  rw [drained] at ended
  have nothing := congrArg Prod.fst (Option.some.inj ended)
  exact List.map_eq_nil_iff.mp nothing.symm

end Read

namespace Index

open Log hiding Segment

open Positions Read SegmentSource SortedMaps

theorem feedScan_events (events : List Event) (base : Nat) (behind : List ScanItem)
    (built : Rebuilt) :
    feedScan events.length ((positioned base (events.map Except.ok)).map yielded ++ behind) built =
      ((positioned base events).foldlM Rebuilder.feed built).map Except.ok := by
  induction events generalizing base built with
  | nil => rfl
  | cons event events ih =>
      rw [List.map_cons, positioned_cons, List.map_cons, List.cons_append, List.length_cons,
        yielded, feedScan, positioned_cons, List.foldlM_cons]
      cases Rebuilder.feed built (base, event) with
      | none => rfl
      | some next => exact ih (base + 1) next

/-- A log of one segment. -/
def singleSegment (events : List Event) : SegmentedLog :=
  ⟨[], ⟨firstPosition, events.map Except.ok⟩, firstPosition + events.length⟩

theorem events_singleSegment (events : List Event) :
    (singleSegment events).active.events = events :=
  Segment.events_of_records rfl

theorem singleSegment_accepted {events : List Event}
    (room : firstPosition + events.length ≤ maxPosition) : (singleSegment events).Accepted where
  contiguous := ⟨rfl, trivial⟩
  next_eq := by
    have whole : records (singleSegment events) = events.map Except.ok := List.append_nil _
    rw [whole, List.length_map]
    rfl
  room := room

theorem open_singleSegment (format : MapFormat) (crc : List UInt8 → UInt32) {events : List Event}
    (fits : FitsSegment events) (room : firstPosition + events.length ≤ maxPosition)
    (files : Nat → Option (List UInt8)) (clock : Nat → UInt64) :
    ∃ built index, rebuild firstPosition events = some built ∧
      IndexSet.open_ format crc files clock (singleSegment events) = some (.ok index) ∧
      index.active = built.index := by
  obtain ⟨built, rebuilt, -⟩ := rebuild_holds firstPosition fits
  have whole : segments (singleSegment events) = [] ++ (singleSegment events).active :: [] := rfl
  obtain ⟨behind, scanned⟩ := (singleSegment_accepted room).scanFrom_eq whole
  have fed := feedScan_events events firstPosition behind ⟨ActiveTail.new firstPosition, 0, false⟩
  have same := rebuilt
  rw [rebuild] at rebuilt
  have span : (singleSegment events).nextPosition - (singleSegment events).active.base =
      events.length := Nat.add_sub_cancel_left _ _
  have range : rebuildRange (singleSegment events) (singleSegment events).active.base
      ((singleSegment events).nextPosition - (singleSegment events).active.base) =
        some (.ok built) := by
    rw [rebuildRange, scanned, span]
    refine fed.trans ?_
    rw [rebuilt]
    rfl
  have unsealed : openSealed format crc files clock (singleSegment events)
      (singleSegment events).sealed = some (.ok []) := rfl
  have made : IndexSet.open_ format crc files clock (singleSegment events) = some (.ok
      ⟨[], built.index, firstPosition, built.count, built.unindexable⟩) := by
    simp only [IndexSet.open_, unsealed, range]
    rfl
  exact ⟨built, _, same, made, rfl⟩

end Index

namespace Writer.CommitSeam.Worker

open Log hiding Segment

open Index Positions Read SegmentSource SortedMaps

variable {format : MapFormat}

/-- Every read of what is published, and every condition, is answered as a scan of the log would
answer it. -/
structure AnswersRight (worker : Worker format) : Prop where
  reads : ∀ query scanBias limit after,
    Answers (read worker.watermark worker.snapshot scanBias query after limit) limit
      (scanOracle query after worker.watermark worker.set.events)
  reads_back : ∀ query scanBias limit before,
    Answers (readBack worker.watermark worker.snapshot scanBias query before limit) limit
      (scanOracle query 0 (min (before - 1) worker.watermark) worker.set.events).reverse
  conditions : ∀ cond verify forceScan debugAssertions,
    ∃ outcome, Specified cond worker.set.events outcome ∧
      evaluate ⟨worker.tips, StagedTips.new, worker.index, worker.set, verify, forceScan,
        debugAssertions⟩ cond = some (.ok outcome)

theorem Aligned.answersRight {self : Worker format} (sound : self.Sound)
    (aligned : self.Aligned) : self.AnswersRight where
  reads query scanBias limit after := by
    obtain ⟨reads, planned, yields⟩ :=
      Reads.plan_yields (aligned.consistent sound) query after scanBias limit
    rw [Read.read, planned]
    exact yields.answers
  reads_back query scanBias limit before := by
    obtain ⟨reads, planned, yields⟩ := Reads.planBack_yields (aligned.consistent sound) query
      (min_le_right (before - 1) self.watermark) scanBias limit
    rw [readBack, planned]
    exact yields.answers
  conditions cond verify forceScan debugAssertions := by
    have faithful : EvalCtx.Faithful ⟨self.tips, StagedTips.new, self.index, self.set, verify,
        forceScan, debugAssertions⟩ self.set.events := ⟨sound.set, sound.tips, sound.index⟩
    exact ⟨_, specified_outcomeOf cond self.set.events, faithful.evaluate_eq rfl cond⟩

namespace Opened

variable {crc : List UInt8 → UInt32} {set : SegmentedLog} {index : IndexSet format}

/-- Opened with more types than fit, the tail is not marked, and does not know some type. -/
theorem unknown_type (opened : Opened crc set index) (lawful : format.Lawful)
    (many : maxTypeId + 1 < (distinctTypes set.active.events).length) :
    index.active.unindexable = false ∧
      ∃ event ∈ set.active.events, index.active.types.lookup event.eventType = none := by
  obtain ⟨accepted, fits, files, clock, filesFit, made⟩ := opened
  obtain ⟨-, entries, built, rfl, -, -, builtHolds⟩ :=
    open_ok lawful accepted fits filesFit made
  have latched : built.unindexable = true := by
    by_contra unlatched
    rw [Bool.not_eq_true, builtHolds.unindexable_iff] at unlatched
    omega
  obtain ⟨-, unmarked, fed, rest, split, -, -, refused⟩ := builtHolds
  obtain ⟨-, event, member, unknown⟩ := refused latched
  exact ⟨unmarked, event, split ▸ List.mem_append_right fed member, unknown⟩

theorem sealed_end_le (holds : set.Holds set.events) {segment : Segment}
    (member : segment ∈ set.sealed) :
    segment.base + segment.records.length ≤ set.active.base := by
  obtain ⟨idx, found⟩ := List.getElem?_of_mem member
  have inside := (List.getElem?_eq_some_iff.mp found).1
  have split : segments set = set.sealed ++ [set.active] := rfl
  have here : (segments set)[idx]? = some segment := by
    rw [split, List.getElem?_append_left inside, found]
  have last : (segments set)[set.sealed.length]? = some set.active := by
    rw [split]
    simp
  exact holds.contiguous.end_le_base inside here last

/-- Opened with more types than fit, a writer publishes a tail that hides an event. -/
theorem misses (opened : Opened crc set index) (lawful : format.Lawful)
    (many : maxTypeId + 1 < (distinctTypes set.active.events).length) (cfg : WriterConfig) :
    ¬ (start cfg set index).AnswersRight := by
  intro right
  obtain ⟨holds, indexHolds⟩ := opened.holds lawful
  obtain ⟨unmarked, event, member, unknown⟩ := opened.unknown_type lawful many
  obtain ⟨i, found⟩ := List.getElem?_of_mem member
  have inside := (List.getElem?_eq_some_iff.mp found).1
  have length := indexHolds.sealed_hold.length_eq
  rw [List.length_map] at length
  have loaded := @snapshot_of_capture _ (start cfg set index) rfl length
  have placed : (set.active.base + i, event) ∈ positioned firstPosition set.events := by
    rw [set.events_eq_flatten, positioned_append]
    refine List.mem_append_right _ (mem_positioned.mpr ⟨?_, ?_⟩)
    · rw [holds.active_base]
      exact Nat.le_add_right _ _
    · rw [holds.active_base, Nat.add_sub_cancel_left]
      exact found
  have ended := holds.active_end
  have started : 0 < set.active.base := by
    rw [holds.active_base]
    exact Nat.add_pos_left Nat.one_pos _
  have room := holds.room
  have watermark : (start cfg set index).watermark = set.nextPosition - 1 := rfl
  have reached : set.active.base ≤ (start cfg set index).watermark := by
    rw [watermark]
    omega
  have range : set.active.base + i - 1 < set.active.base + i ∧
      set.active.base + i ≤ (start cfg set index).watermark := by
    rw [watermark]
    omega
  have skipped : ∀ segment ∈ set.sealed,
      segment.base + segment.records.length ≤ set.active.base + i - 1 + 1 := by
    intro segment sealedMember
    have before := sealed_end_le holds sealedMember
    omega
  have answers := right.reads (ofType event.eventType) 1 none (set.active.base + i - 1)
  rw [loaded] at answers
  have nothing := read_unknown_type unmarked unknown reached (by omega) (by omega) skipped answers
  have shown : ⟨set.active.base + i, event⟩ ∈ scanOracle (ofType event.eventType)
      (set.active.base + i - 1) (start cfg set index).watermark set.events :=
    mem_scanOracle.mpr ⟨placed, range, matches_ofType event⟩
  rw [show scanOracle _ _ _ set.events = [] from nothing] at shown
  cases shown

end Opened

/-- After the opening of a log, and after any commits behind it, every answer is that of a scan
exactly if the active segment does not have too many types when it is opened. -/
theorem reopened_answers_iff (lawful : format.Lawful) {crc : List UInt8 → UInt32}
    {set : SegmentedLog} {index : IndexSet format} (opened : Opened crc set index)
    (cfg : WriterConfig) :
    (∀ labels (last : Worker format), Timely crc (start cfg set index) labels last →
      last.AnswersRight) ↔ (distinctTypes set.active.events).length ≤ maxTypeId + 1 := by
  constructor
  · intro right
    by_contra many
    have here : Timely crc (start cfg set index) [] (start cfg set index) :=
      ⟨trivial, by simp, rfl⟩
    exact opened.misses lawful (Nat.lt_of_not_le many) cfg (right [] _ here)
  · intro few labels last run
    obtain ⟨sound, aligned⟩ :=
      run.kept lawful (opened.sound_start lawful cfg) (opened.aligned_start lawful few cfg)
    exact aligned.answersRight sound

theorem singleSegment_opened (format : MapFormat) (crc : List UInt8 → UInt32)
    {events : List Event} (fits : FitsSegment events)
    (room : firstPosition + events.length ≤ maxPosition) :
    ∃ built, ∃ index : IndexSet format, rebuild firstPosition events = some built ∧
      Opened crc (singleSegment events) index ∧ index.active = built.index := by
  obtain ⟨built, index, rebuilt, made, active⟩ :=
    open_singleSegment format crc fits room (fun _ => none) fun _ => 0
  refine ⟨built, index, rebuilt, ⟨singleSegment_accepted room, ?_, _, _, ?_, made⟩, active⟩
  · intro segment member
    obtain rfl := List.mem_singleton.mp member
    change FitsSegment (singleSegment events).active.events
    rwa [events_singleSegment]
  · intro segment member
    cases member

theorem singleSegment_misses {events : List Event} (fits : FitsSegment events)
    (room : firstPosition + events.length ≤ maxPosition)
    (many : maxTypeId + 1 < (distinctTypes events).length) :
    ∃ index : IndexSet flatTable, Opened Seglog.crc32 (singleSegment events) index ∧
      ¬ (start plainConfig (singleSegment events) index).AnswersRight := by
  obtain ⟨-, index, -, opened, -⟩ := singleSegment_opened flatTable Seglog.crc32 fits room
  refine ⟨index, opened, opened.misses flatTable_lawful ?_ plainConfig⟩
  rwa [events_singleSegment]

/-- A read of the type of the last event does not see it. -/
theorem reopened_read_misses_event :
    ∃ index : IndexSet flatTable,
      Opened Seglog.crc32 (singleSegment (Shared.numberedEvents 65537)) index ∧
        ¬ (start plainConfig (singleSegment (Shared.numberedEvents 65537)) index).AnswersRight := by
  apply singleSegment_misses
  · exact Shared.numberedEvents_fits (by omega)
  · rw [Shared.numberedEvents, List.length_map, List.length_range]
    decide
  · rw [Shared.length_distinctTypes_numbered (by omega) (Shared.types_numberedEvents 65537)]
    decide

/-- A log with a sealed segment of one event and an active one of another. -/
def rolledLog : SegmentedLog :=
  ⟨[⟨1, [.ok taggedEvent]⟩], ⟨2, [.ok untaggedEvent]⟩, 3⟩

/-- The index file that was written for the sealed segment. -/
def rolledFiles : Nat → Option (List UInt8)
  | 1 => encodeAt flatTable Seglog.crc32 (Read.tailOf 1 [taggedEvent]) 7
  | _ => none

theorem rolledLog_opened {index : IndexSet flatTable}
    (made : IndexSet.open_ flatTable Seglog.crc32 rolledFiles (fun _ => 0) rolledLog =
      some (.ok index)) : Opened Seglog.crc32 rolledLog index := by
  refine ⟨⟨⟨rfl, rfl, trivial⟩, rfl, by decide⟩, ?_, rolledFiles, fun _ => 0, ?_, made⟩
  · intro segment member
    rw [FitsSegment]
    rcases List.mem_cons.mp member with rfl | member
    · decide
    · obtain rfl := List.mem_singleton.mp member
      decide
  · intro segment member bytes written
    obtain rfl := List.mem_singleton.mp member
    refine .inr ⟨_, 7, rfl, Read.tailOf_holds ?_ ?_ ?_, by decide, written⟩
    · rw [FitsSegment]
      decide
    · decide +kernel
    · decide +kernel

/-- The log is opened with its index file, and two commits follow, one behind a rollover. -/
theorem reopened_answers_iff_rolling :
    (loadValid flatTable Seglog.crc32 rolledFiles 1 1).isSome = true ∧
      ∃ index last, IndexSet.open_ flatTable Seglog.crc32 rolledFiles (fun _ => 0) rolledLog =
          some (.ok index) ∧
        Histories.run (step Seglog.crc32) (start plainConfig rolledLog index) rollingRun =
          some last ∧
        last.set.events.length = 4 ∧ last.AnswersRight := by
  have computed : (IndexSet.open_ flatTable Seglog.crc32 rolledFiles (fun _ => 0) rolledLog).any
      (fun opened => opened.toOption.any fun index =>
        decide (Histories.Allowed (step Seglog.crc32) StepAllowed
          (start plainConfig rolledLog index) rollingRun) &&
        (Histories.run (step Seglog.crc32) (start plainConfig rolledLog index) rollingRun).any
          fun last => decide (last.set.events.length = 4)) = true := by
    decide +kernel
  refine ⟨by decide +kernel, ?_⟩
  obtain ⟨opened, made, shown⟩ := (Option.any_eq_true _ _).mp computed
  cases opened with
  | error error => cases shown
  | ok index =>
      obtain ⟨allowed, ends⟩ := Bool.and_eq_true_iff.mp shown
      obtain ⟨last, ran, longer⟩ := (Option.any_eq_true _ _).mp ends
      have timely : ∀ label ∈ rollingRun, NoLateFailure label := by
        simp [rollingRun, NoLateFailure]
      exact ⟨index, last, made, ran, of_decide_eq_true longer,
        (reopened_answers_iff flatTable_lawful (rolledLog_opened made) plainConfig).mpr (by decide)
          rollingRun last ⟨of_decide_eq_true allowed, timely, ran⟩⟩

end Writer.CommitSeam.Worker

end Tephra
