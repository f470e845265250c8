import Tephra.IndexSet
import Tephra.ReadOracle

/-!
# Reopening the indexes of a log

The index set is derived from the log.  The file of a sealed segment is loaded if it is
valid and was written for the segment's base and count; otherwise the segment is scanned,
and its index is built again.  The tail of the active segment is always built by a scan.
-/

namespace Tephra

namespace Read

open Log Positions SegmentSource

/-- The segments of a log, and the position of its next event. -/
structure SegmentedLog where
  sealed : List Segment
  active : Segment
  nextPosition : Nat

instance : SegmentSource SegmentedLog Segment where
  sealedSegments := SegmentedLog.sealed
  activeSegment := SegmentedLog.active

namespace SegmentedLog

def lastPosition (self : SegmentedLog) : Nat := self.nextPosition - 1

/-- Scan every record at or after a position. -/
def scanFrom (self : SegmentedLog) (position : Nat) : List ScanItem :=
  Scan.start self (max position firstPosition) self.lastPosition

/-- Scan every record after a position. -/
def scanAfter (self : SegmentedLog) (after : Nat) : List ScanItem :=
  Scan.start self (min (after + 1) maxPosition) self.lastPosition

/-- The events of all segments. -/
def events (self : SegmentedLog) : List Event := (segments self).flatMap Segment.events

/-- What the opening of a log checks: its segments are contiguous. -/
structure Accepted (set : SegmentedLog) : Prop where
  contiguous : Contiguous firstPosition (segments set)
  next_eq : set.nextPosition = firstPosition + (records set).length
  room : set.nextPosition ≤ maxPosition

/-- The segments hold the events of a log. -/
structure Holds (set : SegmentedLog) (log : List Event) : Prop extends Accepted set where
  recorded : records set = log.map Except.ok

variable {set : SegmentedLog}

theorem Accepted.lastPosition_add_one (accepted : set.Accepted) :
    set.lastPosition + 1 = firstPosition + (records set).length := by
  rw [lastPosition, accepted.next_eq]
  exact Nat.sub_add_cancel (Nat.le_add_right _ _)

theorem Accepted.start_eq (accepted : set.Accepted) {first : Nat} (positive : first ≠ 0) :
    Scan.start set first set.lastPosition =
      (between first set.lastPosition firstPosition (records set)).map yielded := by
  have lastEq := accepted.lastPosition_add_one
  have room := accepted.next_eq ▸ accepted.room
  rw [Scan.start_eq accepted.contiguous (by omega) (by omega), if_neg positive]

/-- A scan from the base of a segment yields the records of the segment first. -/
theorem Accepted.scanFrom_eq (accepted : set.Accepted) {before later : List Segment}
    {segment : Segment} (split : segments set = before ++ segment :: later) :
    ∃ behind, set.scanFrom segment.base =
      (positioned segment.base segment.records).map yielded ++ behind := by
  have contiguous := accepted.contiguous
  have lastEq := accepted.lastPosition_add_one
  rw [split, contiguous_append] at contiguous
  obtain ⟨baseEq, -⟩ := contiguous.2
  change segment.base = _ at baseEq
  have started : firstPosition ≤ segment.base := baseEq ▸ Nat.le_add_right _ _
  have positive : segment.base ≠ 0 := Nat.ne_of_gt started
  have counted := length_flatMap_records before
  have whole : records set =
      before.flatMap Segment.records ++ (segment.records ++ later.flatMap Segment.records) := by
    rw [records, split, List.flatMap_append, List.flatMap_cons]
  refine ⟨(positioned (segment.base + segment.records.length)
    (later.flatMap Segment.records)).map yielded, ?_⟩
  rw [scanFrom, max_eq_left started, accepted.start_eq positive, between_eq_slice started, whole,
    List.drop_append_of_le_length (by omega), List.drop_of_length_le (by omega), List.nil_append,
    ← List.map_append, ← positioned_append, List.take_of_length_le]
  rw [whole] at lastEq
  simp only [List.length_append] at lastEq ⊢
  omega

theorem Holds.active_base {log : List Event} (holds : set.Holds log) :
    set.active.base = firstPosition + (set.sealed.map Segment.events).flatten.length := by
  have contiguous := holds.contiguous
  rw [show segments set = set.sealed ++ set.active :: [] from rfl, contiguous_append] at contiguous
  have baseEq : set.active.base = firstPosition + totalEvents set.sealed := contiguous.2.1
  rw [baseEq, ← length_flatMap_records, ← List.flatMap_def, List.length_flatMap,
    List.length_flatMap]
  congr 2
  apply List.map_congr_left
  intro segment member
  have recorded := (records_of_flatMap holds.recorded).1 segment (List.mem_append_left _ member)
  conv_lhs => rw [recorded, List.length_map]

end SegmentedLog

end Read

namespace Index

open Log hiding Segment

open Positions Read SegmentSource SortedMaps

/-- Why the indexes of a log cannot be opened. -/
inductive OpenError where
  | log (source : LogError)
  | corrupt (source : DecodeError)
deriving DecidableEq, Repr

/-- Feed the next records that a scan yields.  The result is `none` where the code
panics. -/
def feedScan : (remaining : Nat) → List ScanItem → Rebuilt → Option (Except OpenError Rebuilt)
  | 0, _, built => some (.ok built)
  | _ + 1, [], built => some (.ok built)
  | _ + 1, none :: _, _ => none
  | _ + 1, some (.error source) :: _, _ => some (.error (.log source))
  | _ + 1, some (.ok (_, .error source)) :: _, _ => some (.error (.corrupt source))
  | remaining + 1, some (.ok (position, .ok event)) :: scan, built =>
      match Rebuilder.feed built (position, event) with
      | none => none
      | some next => feedScan remaining scan next

/-- Scan the records of a segment, and index them. -/
def rebuildRange (set : SegmentedLog) (base count : Nat) : Option (Except OpenError Rebuilt) :=
  feedScan count (set.scanFrom base) ⟨ActiveTail.new base, 0, false⟩

variable (format : MapFormat) (crc : List UInt8 → UInt32)

/-- Load the index file of a base, if it is valid and was written for the base and count. -/
def loadValid (files : Nat → Option (List UInt8)) (base count : Nat) :
    Option (IndexSegment format) :=
  match files base with
  | none => none
  | some bytes =>
      match IndexSegment.fromBytes format crc bytes with
      | .error _ => none
      | .ok seg =>
          if seg.header.basePosition = base ∧ seg.header.eventCount = count then
            some seg
          else
            none

/-- Build the index of a sealed segment.  The file that is written for it is not read before
the next start. -/
def buildAndSeal (set : SegmentedLog) (base count createdAtNanos : Nat) :
    Option (Except OpenError (SealedIndex format)) :=
  match rebuildRange set base count with
  | none => none
  | some (.error error) => some (.error error)
  | some (.ok built) =>
      if built.unindexable then
        some (.ok ⟨base, count, none⟩)
      else
        match encodeAt format crc built.index createdAtNanos with
        | none => none
        | some data =>
            match IndexSegment.fromBytes format crc data with
            | .error _ => none
            | .ok seg => some (.ok ⟨base, count, some seg⟩)

/-- The slot of a sealed segment. -/
def openSegment (files : Nat → Option (List UInt8)) (clock : Nat → UInt64) (set : SegmentedLog)
    (base count : Nat) : Option (Except OpenError (SealedIndex format)) :=
  match loadValid format crc files base count with
  | some seg => some (.ok ⟨base, count, some seg⟩)
  | none => buildAndSeal format crc set base count (clock base).toNat

/-- The slots of sealed segments, in order. -/
def openSealed (files : Nat → Option (List UInt8)) (clock : Nat → UInt64) (set : SegmentedLog) :
    List Segment → Option (Except OpenError (List (SealedIndex format)))
  | [] => some (.ok [])
  | segment :: segs =>
      match openSegment format crc files clock set segment.base segment.records.length with
      | none => none
      | some (.error error) => some (.error error)
      | some (.ok entry) =>
          match openSealed files clock set segs with
          | none => none
          | some (.error error) => some (.error error)
          | some (.ok entries) => some (.ok (entry :: entries))

/-- Open the indexes of a log.  The files are those of the index directory by the base of
their segment, and the clock gives the time when an index is built. -/
def IndexSet.open_ (files : Nat → Option (List UInt8)) (clock : Nat → UInt64)
    (set : SegmentedLog) : Option (Except OpenError (IndexSet format)) :=
  match openSealed format crc files clock set set.sealed with
  | none => none
  | some (.error error) => some (.error error)
  | some (.ok entries) =>
      let activeBase := set.active.base
      match rebuildRange set activeBase (set.nextPosition - activeBase) with
      | none => none
      | some (.error error) => some (.error error)
      | some (.ok built) =>
          some (.ok ⟨entries, built.index, activeBase, built.count, built.unindexable⟩)

/-- The index file of a segment is missing or does not load, or it was written for the events
of the segment. -/
def FileFits (files : Nat → Option (List UInt8)) (segment : Segment) : Prop :=
  ∀ bytes, files segment.base = some bytes →
    loadValid format crc files segment.base segment.records.length = none ∨
      ∃ tail createdAtNanos, segment.records = segment.events.map Except.ok ∧
        tail.Holds segment.base segment.events ∧ createdAtNanos < 2 ^ 64 ∧
        encodeAt format crc tail createdAtNanos = some bytes

theorem feedScan_positioned {recs : List Record} {base : Nat} {behind : List ScanItem}
    {built final : Rebuilt}
    (done : feedScan recs.length ((positioned base recs).map yielded ++ behind) built =
      some (.ok final)) :
    ∃ events, recs = events.map Except.ok ∧
      (positioned base events).foldlM Rebuilder.feed built = some final := by
  induction recs generalizing base built with
  | nil =>
      obtain rfl : built = final := by simpa [feedScan] using done
      exact ⟨[], rfl, rfl⟩
  | cons record recs ih =>
      rw [positioned_cons, List.map_cons, List.cons_append, List.length_cons, yielded] at done
      cases record with
      | error source => simp [feedScan] at done
      | ok event =>
          rw [feedScan] at done
          cases taken : Rebuilder.feed built (base, event) with
          | none => simp [taken] at done
          | some next =>
              simp only [taken] at done
              obtain ⟨events, rfl, fed⟩ := ih done
              refine ⟨event :: events, rfl, ?_⟩
              rw [positioned_cons, List.foldlM_cons, taken]
              exact fed

section Opened

variable {set : SegmentedLog}

/-- A segment that is scanned without an error holds events, which are rebuilt. -/
theorem rebuildRange_ok (accepted : set.Accepted) {before later : List Segment}
    {segment : Segment} (split : segments set = before ++ segment :: later) {built : Rebuilt}
    (done : rebuildRange set segment.base segment.records.length = some (.ok built)) :
    segment.records = segment.events.map Except.ok ∧
      rebuild segment.base segment.events = some built := by
  obtain ⟨behind, scanned⟩ := accepted.scanFrom_eq split
  rw [rebuildRange, scanned] at done
  obtain ⟨events, recorded, fed⟩ := feedScan_positioned done
  rw [Segment.events_of_records recorded]
  exact ⟨recorded, fed⟩

/-- Every lookup in the index of a slot is answered without a panic. -/
def SealedIndex.Total {format : MapFormat} (entry : SealedIndex format) : Prop :=
  ∀ seg, entry.seg = some seg → ∃ view, AnswersAs format seg view

variable {format crc}

theorem SealedIndex.holds_of_answers {tail : ActiveTail} {base count : Nat} {events : List Event}
    (holds : tail.Holds base events) (fits : FitsSegment events) (counted : count = events.length)
    {seg : IndexSegment format} (answers : AnswersAs format seg tail.viewFull) :
    SealedIndex.Holds ⟨base, count, some seg⟩ base events ∧
      SealedIndex.Total ⟨base, count, some seg⟩ := by
  have indexes := holds.indexes_viewFull fits
  constructor
  · refine ⟨rfl, counted, ?_, by simp⟩
    rintro found ⟨⟩
    refine ⟨answers.indexes format indexes, fun tag => ?_, fun i inside => ?_⟩
    · rw [answers.termPostings_eq tag]
      rfl
    · rw [answers.typeAt_eq i (indexes.len_eq ▸ inside)]
      rfl
  · rintro found ⟨⟩
    exact ⟨_, answers⟩

theorem buildAndSeal_holds (lawful : format.Lawful) (accepted : set.Accepted)
    {before later : List Segment} {segment : Segment}
    (split : segments set = before ++ segment :: later) (fits : FitsSegment segment.events)
    (baseFits : segment.base < 2 ^ 64) {createdAtNanos : Nat}
    (createdFits : createdAtNanos < 2 ^ 64) {entry : SealedIndex format}
    (done : buildAndSeal format crc set segment.base segment.records.length createdAtNanos =
      some (.ok entry)) :
    segment.records = segment.events.map Except.ok ∧ entry.Holds segment.base segment.events ∧
      entry.Total := by
  rw [buildAndSeal] at done
  cases built : rebuildRange set segment.base segment.records.length with
  | none => simp [built] at done
  | some result =>
      cases result with
      | error error => simp [built] at done
      | ok rebuilt =>
          obtain ⟨recorded, again⟩ := rebuildRange_ok accepted split built
          have counted : segment.records.length = segment.events.length := by
            conv_lhs => rw [recorded, List.length_map]
          obtain ⟨same, rebuiltEq, holds⟩ := rebuild_holds segment.base fits
          obtain rfl := Option.some.inj (again.symm.trans rebuiltEq)
          have whole := holds.unindexable_iff
          obtain ⟨-, -, fed, rest, eventsEq, tail, indexed, excess⟩ := holds
          refine ⟨recorded, ?_⟩
          simp only [built] at done
          cases latched : rebuilt.unindexable with
          | true =>
              rw [latched, if_pos rfl, Option.some.injEq, Except.ok.injEq] at done
              subst done
              exact ⟨⟨rfl, counted, by simp, fun _ => (excess latched).1⟩, by
                rintro _ ⟨⟩⟩
          | false =>
              obtain rfl := indexed latched
              rw [List.append_nil] at eventsEq
              rw [← eventsEq] at tail
              simp only [latched, Bool.false_eq_true, if_false] at done
              cases written : encodeAt format crc rebuilt.index createdAtNanos with
              | none => simp [written] at done
              | some data =>
                  cases reopened : IndexSegment.fromBytes format crc data with
                  | error error => simp [written, reopened] at done
                  | ok seg =>
                      simp only [written, reopened, Option.some.injEq, Except.ok.injEq] at done
                      subst done
                      exact SealedIndex.holds_of_answers tail fits counted
                        (tail.answers_of_encodeAt format crc lawful fits baseFits createdFits
                          written reopened)

/-- The slot that is opened for a segment has the index of its events. -/
theorem openSegment_holds (lawful : format.Lawful) (accepted : set.Accepted)
    {files : Nat → Option (List UInt8)} {clock : Nat → UInt64} {before later : List Segment}
    {segment : Segment} (split : segments set = before ++ segment :: later)
    (fits : FitsSegment segment.events) (baseFits : segment.base < 2 ^ 64)
    (fileFits : FileFits format crc files segment) {entry : SealedIndex format}
    (done : openSegment format crc files clock set segment.base segment.records.length =
      some (.ok entry)) :
    segment.records = segment.events.map Except.ok ∧ entry.Holds segment.base segment.events ∧
      entry.Total := by
  rw [openSegment] at done
  cases loaded : loadValid format crc files segment.base segment.records.length with
  | none =>
      rw [loaded] at done
      exact buildAndSeal_holds lawful accepted split fits baseFits (clock segment.base).toNat_lt
        done
  | some seg =>
      simp only [loaded, Option.some.injEq, Except.ok.injEq] at done
      subst done
      have read := loaded
      rw [loadValid] at read
      cases content : files segment.base with
      | none => simp [content] at read
      | some bytes =>
          rcases fileFits bytes content with refused |
            ⟨tail, createdAtNanos, recorded, holds, createdFits, written⟩
          · rw [loaded] at refused
            cases refused
          · have counted : segment.records.length = segment.events.length := by
              conv_lhs => rw [recorded, List.length_map]
            cases reopened : IndexSegment.fromBytes format crc bytes with
            | error error => simp [content, reopened] at read
            | ok found =>
                simp only [content, reopened, Option.ite_none_right_eq_some,
                  Option.some.injEq] at read
                obtain ⟨-, rfl⟩ := read
                exact ⟨recorded, SealedIndex.holds_of_answers holds fits counted
                  (holds.answers_of_encodeAt format crc lawful fits baseFits createdFits written
                    reopened)⟩

theorem openSealed_holds (lawful : format.Lawful) (accepted : set.Accepted)
    {files : Nat → Option (List UInt8)} {clock : Nat → UInt64} {before segs later : List Segment}
    (split : segments set = before ++ (segs ++ later))
    (fits : ∀ segment ∈ segs, FitsSegment segment.events)
    (filesFit : ∀ segment ∈ segs, FileFits format crc files segment)
    {entries : List (SealedIndex format)}
    (done : openSealed format crc files clock set segs = some (.ok entries)) :
    (∀ segment ∈ segs, segment.records = segment.events.map Except.ok) ∧
      SealedHold (firstPosition + totalEvents before) entries (segs.map Segment.events) ∧
      ∀ entry ∈ entries, entry.Total := by
  induction segs generalizing before entries with
  | nil =>
      obtain rfl : entries = [] := by simpa [openSealed] using done.symm
      exact ⟨by simp, .nil _, by simp⟩
  | cons segment segs ih =>
      rw [openSealed] at done
      rw [List.forall_mem_cons] at fits filesFit
      have whole : segments set = before ++ segment :: (segs ++ later) := split
      have contiguous := accepted.contiguous
      rw [whole, contiguous_append] at contiguous
      have baseEq : segment.base = firstPosition + totalEvents before := contiguous.2.1
      have baseFits : segment.base < 2 ^ 64 := by
        have room := accepted.next_eq ▸ accepted.room
        rw [records, whole, length_flatMap_records, totalEvents_append, totalEvents_cons] at room
        change _ ≤ 2 ^ 64 - 1 at room
        omega
      cases first : openSegment format crc files clock set segment.base segment.records.length with
      | none => simp [first] at done
      | some result =>
          cases result with
          | error error => simp [first] at done
          | ok entry =>
              cases others : openSealed format crc files clock set segs with
              | none => simp [first, others] at done
              | some rest =>
                  cases rest with
                  | error error => simp [first, others] at done
                  | ok found =>
                      simp only [first, others, Option.some.injEq, Except.ok.injEq] at done
                      subst done
                      obtain ⟨recorded, holds, total⟩ := openSegment_holds lawful accepted whole
                        fits.1 baseFits filesFit.1 first
                      have shifted : segments set = (before ++ [segment]) ++ (segs ++ later) := by
                        rw [whole, List.append_assoc]
                        rfl
                      obtain ⟨allRecorded, hold, allTotal⟩ := ih shifted fits.2 filesFit.2 others
                      have counted : SegmentRange.eventCount segment = segment.events.length := by
                        change segment.records.length = _
                        conv_lhs => rw [recorded, List.length_map]
                      rw [totalEvents_append, totalEvents_cons, totalEvents_nil, Nat.add_zero,
                        counted, ← Nat.add_assoc, ← baseEq] at hold
                      rw [← baseEq]
                      exact ⟨List.forall_mem_cons.mpr ⟨recorded, allRecorded⟩, .cons holds hold,
                        List.forall_mem_cons.mpr ⟨total, allTotal⟩⟩

/-- An index set that opens has an index for each segment of the log, whose records are all
events. -/
theorem open_ok (lawful : format.Lawful) (accepted : set.Accepted)
    {files : Nat → Option (List UInt8)} {clock : Nat → UInt64}
    (fits : ∀ segment ∈ segments set, FitsSegment segment.events)
    (filesFit : ∀ segment ∈ set.sealed, FileFits format crc files segment)
    {index : IndexSet format} (opened : IndexSet.open_ format crc files clock set =
      some (.ok index)) :
    set.Holds set.events ∧
      ∃ entries, ∃ built : Rebuilt, index =
          ⟨entries, built.index, set.active.base, built.count, built.unindexable⟩ ∧
        SealedHold firstPosition entries (set.sealed.map Segment.events) ∧
        (∀ entry ∈ entries, entry.Total) ∧ built.Holds set.active.base set.active.events := by
  have allSealed : segments set = [] ++ (set.sealed ++ [set.active]) := rfl
  have whole : segments set = set.sealed ++ set.active :: [] := rfl
  rw [IndexSet.open_] at opened
  cases first : openSealed format crc files clock set set.sealed with
  | none => simp [first] at opened
  | some result =>
      cases result with
      | error error => simp [first] at opened
      | ok entries =>
          obtain ⟨recorded, hold, total⟩ := openSealed_holds lawful accepted allSealed
            (fun segment member => fits segment (List.mem_append_left _ member)) filesFit first
          have contiguous := accepted.contiguous
          rw [whole, contiguous_append] at contiguous
          have baseEq : set.active.base = firstPosition + totalEvents set.sealed := contiguous.2.1
          have spanEq : set.nextPosition - set.active.base = set.active.records.length := by
            rw [accepted.next_eq, records, whole, length_flatMap_records, totalEvents_append,
              totalEvents_cons, totalEvents_nil, baseEq]
            change _ + (_ + (set.active.records.length + 0)) - _ = _
            omega
          simp only [first, spanEq] at opened
          cases scanned : rebuildRange set set.active.base set.active.records.length with
          | none => simp [scanned] at opened
          | some result =>
              cases result with
              | error error => simp [scanned] at opened
              | ok built =>
                  simp only [scanned, Option.some.injEq, Except.ok.injEq] at opened
                  obtain ⟨activeRecorded, rebuilt⟩ := rebuildRange_ok accepted whole scanned
                  obtain ⟨same, again, builtHolds⟩ := rebuild_holds set.active.base
                    (fits set.active (List.mem_append_right _ (List.mem_singleton_self _)))
                  obtain rfl := Option.some.inj (rebuilt.symm.trans again)
                  refine ⟨⟨accepted, ?_⟩, entries, built, opened.symm, hold, total, builtHolds⟩
                  have each : ∀ segment ∈ segments set,
                      segment.records = segment.events.map Except.ok := by
                    intro segment member
                    rcases List.mem_append.mp member with old | last
                    · exact recorded segment old
                    · rw [List.mem_singleton.mp last]
                      exact activeRecorded
                  rw [records, SegmentedLog.events, List.map_flatMap]
                  exact List.flatMap_congr each

theorem open_holds (lawful : format.Lawful) (accepted : set.Accepted)
    {files : Nat → Option (List UInt8)} {clock : Nat → UInt64}
    (fits : ∀ segment ∈ segments set, FitsSegment segment.events)
    (filesFit : ∀ segment ∈ set.sealed, FileFits format crc files segment)
    {index : IndexSet format} (opened : IndexSet.open_ format crc files clock set =
      some (.ok index)) :
    index.Holds firstPosition (set.sealed.map Segment.events) set.active.events := by
  obtain ⟨holds, entries, built, rfl, hold, -, builtHolds⟩ :=
    open_ok lawful accepted fits filesFit opened
  have baseEq := holds.active_base
  obtain ⟨countEq, -, fed, rest, split, tail, indexed, excess⟩ := builtHolds
  refine ⟨hold, ⟨baseEq, countEq, ?_, fed, rest, split, ?_, indexed, ?_⟩⟩
  · exact fits set.active (List.mem_append_right _ (List.mem_singleton_self _))
  · rw [← baseEq]
    exact tail
  · exact fun latched => (excess latched).1

end Opened

section Derived

variable {format crc}

/-- The indexes that a log is opened with, to be fed. -/
def Fed.opened (set : SegmentedLog) (index : IndexSet format) : Fed format :=
  ⟨index, firstPosition, set.sealed.map Segment.events, set.active.events⟩

variable (format crc)

/-- An index set was opened over the first events of a log, and fed the others. -/
def Derived (index : IndexSet format) (log : List Event) : Prop :=
  ∃ (files : Nat → Option (List UInt8)) (clock : Nat → UInt64) (set : SegmentedLog)
    (first : IndexSet format) (steps : List IndexStep) (fed : Fed format),
    set.Accepted ∧ (∀ segment ∈ segments set, FitsSegment segment.events) ∧
      (∀ segment ∈ set.sealed, FileFits format crc files segment) ∧
      IndexSet.open_ format crc files clock set = some (.ok first) ∧
      Histories.Allowed (Fed.step crc) Fed.StepAllowed (Fed.opened set first) steps ∧
      Histories.run (Fed.step crc) (Fed.opened set first) steps = some fed ∧
      fed.set = index ∧ fed.events = log

variable {format crc}

theorem Fed.base_step {self next : Fed format} {label : IndexStep}
    (taken : self.step crc label = some next) : next.base = self.base := by
  cases label with
  | push position event =>
      obtain ⟨set, -, rfl⟩ := Option.map_eq_some_iff.mp taken
      rfl
  | sealActive newBase createdAtNanos =>
      obtain ⟨set, -, rfl⟩ := Option.map_eq_some_iff.mp taken
      rfl

theorem Derived.holds (lawful : format.Lawful) {index : IndexSet format} {log : List Event}
    (derived : Derived format crc index log) :
    ∃ segs current, segs.flatten ++ current = log ∧ index.Holds firstPosition segs current := by
  obtain ⟨files, clock, set, first, steps, fed, accepted, fits, filesFit, opened, allowed, ran,
    rfl, rfl⟩ := derived
  have start : (Fed.opened set first).Sound ∧ (Fed.opened set first).base = firstPosition :=
    ⟨open_holds lawful accepted fits filesFit opened, rfl⟩
  have kept (self : Fed format) (label : IndexStep) (next : Fed format)
      (sound : self.Sound ∧ self.base = firstPosition) (here : self.StepAllowed label)
      (taken : self.step crc label = some next) : next.Sound ∧ next.base = firstPosition :=
    ⟨Fed.sound_step lawful crc sound.1 here taken, (Fed.base_step taken).trans sound.2⟩
  obtain ⟨sound, baseEq⟩ := Histories.invariant_of_run kept start allowed ran
  exact ⟨fed.segs, fed.current, rfl, baseEq ▸ sound⟩

end Derived

end Index

end Tephra
