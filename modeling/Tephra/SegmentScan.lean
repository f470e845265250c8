import Tephra.Positions
import Tephra.RecordPeeking
import Tephra.SegmentSet
import Tephra.SegmentSource

/-!
# Point reads and scans of the log

A point read finds the segment of a position and the byte offset of its record in
the sidecar of the segment.  A scan starts the same way and then goes from record
to record by their framed lengths, passes over control records, and rolls over to
the next segment where one ends.
-/

namespace Tephra

namespace Log

open ByteImage FrameChain Positions Seglog SegmentSource

instance : SegmentRange Segment where
  basePosition := Segment.basePosition
  eventCount segment := segment.offsets.length

instance : SegmentSource SegmentSet Segment where
  sealedSegments := SegmentSet.sealed
  activeSegment := SegmentSet.active

/-- A reader of the file of a segment, up to its durable extent. -/
def Segment.openReader (self : Segment) (dir : Directory) : Reader :=
  Reader.openSegment (dir.read self.basePosition) self.flushedOffset

variable {σ : Type} [SegmentSource σ Segment]

/-- A scan of a source.  `position` is that of the next record, whose bytes are at
`offset` or behind. -/
structure Scan (σ : Type) where
  dir : Directory
  headerSize : Nat
  source : σ
  segIdx : Nat
  offset : Nat
  position : Nat
  upto : Nat
  reader : Option Reader
  pendingErr : Option LogError
  done : Bool

namespace Scan

/-- A scan without records. -/
def empty (dir : Directory) (headerSize : Nat) (source : σ) : Scan σ :=
  ⟨dir, headerSize, source, 0, 0, 0, 0, none, none, true⟩

/-- A scan whose only item is an error. -/
def failed (dir : Directory) (headerSize : Nat) (source : σ) (err : LogError) : Scan σ :=
  { empty dir headerSize source with pendingErr := some err, done := false }

/-- A scan from a first position up to a bound. -/
def start (dir : Directory) (headerSize : Nat) (source : σ) (first upto : Nat) : Scan σ :=
  if first = 0 ∨ first > upto then
    empty dir headerSize source
  else
    match locate source first with
    | none => failed dir headerSize source (.notFound first)
    | some (segIdx, segment) =>
        match segment.offsets[first - segment.basePosition]? with
        | none => failed dir headerSize source (.notFound first)
        | some offset =>
            ⟨dir, headerSize, source, segIdx, offset, first, upto,
              some (segment.openReader dir), none, false⟩

/-- The scan at the start of the next segment, unless the last one is at its end. -/
def advanceSegment (self : Scan σ) : Option (Scan σ) :=
  (segmentAt self.source (self.segIdx + 1)).map fun segment =>
    { self with
      reader := some (segment.openReader self.dir)
      offset := self.headerSize
      segIdx := self.segIdx + 1 }

/-- The file of the current segment. -/
def segmentPath (self : Scan σ) : Nat :=
  ((segmentAt self.source self.segIdx).map Segment.basePosition).getD 0

/-- What decreases while a scan moves to the next data record. -/
def remaining (self : Scan σ) : Nat × Nat × Nat :=
  (segmentCount self.source + 1 - self.segIdx,
    if self.reader.isSome then 1 else 0,
    (self.reader.map fun reader => reader.flushedOffset - self.offset).getD 0)

/-- Move to the next data record and give its framed length, or `none` at the end
of the log. -/
def positionAtData (self : Scan σ) : Except LogError (Option Nat) × Scan σ :=
  match _opened : self.reader with
  | none =>
      match _advanced : self.advanceSegment with
      | none => (.ok none, self)
      | some self => positionAtData self
  | some reader =>
      match _peeked : reader.peek self.offset with
      | (.error fault, after) =>
          (.error (.read self.segmentPath fault), { self with reader := some after })
      | (.ok (.data totalLen), after) => (.ok (some totalLen), { self with reader := some after })
      | (.ok (.control totalLen), after) =>
          positionAtData { self with reader := some after, offset := self.offset + totalLen }
      | (.ok .done, _) => positionAtData { self with reader := none }
termination_by self.remaining
decreasing_by
  · obtain ⟨segment, found, rfl⟩ := Option.map_eq_some_iff.mp _advanced
    have inside : self.segIdx + 1 ≤ segmentCount self.source := by
      unfold segmentAt at found
      split_ifs at found <;> omega
    apply Prod.Lex.left
    simp only
    omega
  · have kept := reader.peek_flushedOffset self.offset
    rw [_peeked] at kept
    have bounds := Reader.peek_control_fits _peeked
    simp only [remaining, _opened, Option.isSome_some, if_true, Option.map_some, Option.getD_some]
    refine Prod.Lex.right _ (Prod.Lex.right _ ?_)
    simp only at kept
    omega
  · simp only [remaining, _opened, Option.isSome_some, Option.isSome_none, if_true]
    exact Prod.Lex.right _ (Prod.Lex.left _ _ (by simp))

variable (crc : List UInt8 → UInt32)

/-- The next record under its position, or `none` at the end of the scan. -/
def next (self : Scan σ) : Option (Except LogError (Nat × List UInt8)) × Scan σ :=
  match self.pendingErr with
  | some err => (some (.error err), { self with pendingErr := none, done := true })
  | none =>
      if self.done then
        (none, self)
      else if self.position > self.upto then
        (none, { self with done := true })
      else
        match self.positionAtData with
        | (.ok none, self) => (none, { self with done := true })
        | (.error err, self) => (some (.error err), { self with done := true })
        | (.ok (some totalLen), self) =>
            match self.reader with
            -- The code unwraps the reader here.
            | none => (some (.error (.read self.segmentPath .panicked)), { self with done := true })
            | some reader =>
                let moved := { self with
                  offset := self.offset + totalLen
                  position := self.position + 1 }
                match reader.readRecord crc 0 self.offset with
                | (.ok record, reader) =>
                    (some (.ok (self.position, record.data)), { moved with reader := some reader })
                | (.error fault, reader) =>
                    (some (.error (.read self.segmentPath fault)),
                      { moved with reader := some reader, done := true })

/-- The calls of `next` on a scan give these items and then end. -/
inductive Yields : Scan σ → List (Except LogError (Nat × List UInt8)) → Prop
  | ended {scan after : Scan σ} (here : scan.next crc = (none, after)) : Yields scan []
  | item {scan after : Scan σ} {entry : Except LogError (Nat × List UInt8)}
      {entries : List (Except LogError (Nat × List UInt8))}
      (here : scan.next crc = (some entry, after)) (rest : Yields after entries) :
      Yields scan (entry :: entries)

variable {crc}

theorem Yields.unique {scan : Scan σ} {entries others : List (Except LogError (Nat × List UInt8))}
    (yields : Yields crc scan entries) (yields' : Yields crc scan others) : entries = others := by
  induction yields generalizing others with
  | ended here =>
      cases yields' with
      | ended _ => rfl
      | item here' _ => simp [here] at here'
  | item here _ ih =>
      cases yields' with
      | ended here' => simp [here] at here'
      | item here' rest =>
          obtain ⟨rfl, rfl⟩ : _ = _ ∧ _ = _ := by simpa [here] using here'
          rw [ih rest]

end Scan

namespace SegmentSet

/-- The highest assigned position, or zero when the log is empty. -/
def lastPosition (self : SegmentSet) : Nat :=
  self.nextPosition - 1

/-- The segment of a position that is assigned. -/
def segmentFor (self : SegmentSet) (pos : Nat) : Option Segment :=
  if pos ≥ self.nextPosition then
    none
  else
    (locate self pos).map Prod.snd

/-- Read the record at a position. -/
def readAt (crc : List UInt8 → UInt32) (self : LogState) (pos : Nat) :
    Except LogError (Nat × List UInt8) :=
  match self.set.segmentFor pos with
  | none => .error (.notFound pos)
  | some segment =>
      match segment.offsets[pos - segment.basePosition]? with
      | none => .error (.notFound pos)
      | some offset =>
          -- The cached reader of a segment has no state that a random read depends on.
          match (segment.openReader self.dir).readRecordRandom crc 0 offset with
          | .error fault => .error (.read segment.basePosition fault)
          | .ok record => .ok (pos, record.data)

/-- A scan from a position to the tip of the log. -/
def scanAt (self : LogState) (first : Nat) : Scan SegmentSet :=
  .start self.dir self.set.config.headerSize self.set first self.set.lastPosition

/-- A scan of every record at or after a position. -/
def scanFrom (self : LogState) (pos : Nat) : Scan SegmentSet :=
  scanAt self (max pos firstPosition)

/-- The largest position a 64-bit integer holds. -/
def positionMax : Nat := 2 ^ 64 - 1

/-- A scan of every record strictly after a position. -/
def scanAfter (self : LogState) (pos : Nat) : Scan SegmentSet :=
  scanAt self (min (pos + 1) positionMax)

end SegmentSet

/-- The extent of its file that readers of a segment see. -/
def Segment.extent (self : Segment) (dir : Directory) : Nat :=
  self.flushedOffset.getD (dir.read self.basePosition).length

/-- The sidecar of a segment has the offsets of the given records in its file, and a
scan of the file ends behind them. -/
structure Backed (crc : List UInt8 → UInt32) (dir : Directory) (headerSize : Nat)
    (segment : Segment) (records : List (List UInt8)) : Prop where
  inFile : segment.extent dir ≤ (dir.read segment.basePosition).length
  chain : ∃ entries stop,
    Chain (recordAt crc (dir.read segment.basePosition) (segment.extent dir)) headerSize
      entries stop ∧
    QuietAt (dir.read segment.basePosition) (segment.extent dir) stop ∧
    (dataRecords entries).map Prod.fst = segment.offsets ∧
    (dataRecords entries).map Prod.snd = records

variable {crc : List UInt8 → UInt32}

/-- The same for a segment whose file may be shorter than its extent, as long as it has no
records. -/
structure Recorded (crc : List UInt8 → UInt32) (dir : Directory) (headerSize : Nat)
    (segment : Segment) (records : List (List UInt8)) : Prop where
  inFile : records ≠ [] → segment.extent dir ≤ (dir.read segment.basePosition).length
  chain : ∃ entries stop,
    Chain (recordAt crc (dir.read segment.basePosition) (segment.extent dir)) headerSize
      entries stop ∧
    QuietAt (dir.read segment.basePosition) (segment.extent dir) stop ∧
    (dataRecords entries).map Prod.fst = segment.offsets ∧
    (dataRecords entries).map Prod.snd = records

theorem Backed.recorded {dir : Directory} {headerSize : Nat} {segment : Segment}
    {records : List (List UInt8)} (backed : Backed crc dir headerSize segment records) :
    Recorded crc dir headerSize segment records :=
  ⟨fun _ => backed.inFile, backed.chain⟩

theorem Recorded.length_offsets {dir : Directory} {headerSize : Nat} {segment : Segment}
    {records : List (List UInt8)} (recorded : Recorded crc dir headerSize segment records) :
    segment.offsets.length = records.length := by
  obtain ⟨entries, _, _, _, offsetsEq, recordsEq⟩ := recorded.chain
  rw [← offsetsEq, ← recordsEq, List.length_map, List.length_map]

theorem dataRecords_cons_data {offset : Nat} {frame : Frame} {entries : List (Nat × Frame)}
    (data : frame.isControl = false) :
    dataRecords ((offset, frame) :: entries) = (offset, frame.payload) :: dataRecords entries := by
  simp [dataRecords, data]

theorem dataRecords_cons_control {offset : Nat} {frame : Frame} {entries : List (Nat × Frame)}
    (control : frame.isControl = true) :
    dataRecords ((offset, frame) :: entries) = dataRecords entries := by
  simp [dataRecords, control]

theorem exists_dataRecord {entries : List (Nat × Frame)} {number offset : Nat}
    {payload : List UInt8} (found : (dataRecords entries)[number]? = some (offset, payload)) :
    ∃ before frame after, entries = before ++ (offset, frame) :: after ∧
      frame.isControl = false ∧ frame.payload = payload ∧
      dataRecords ((offset, frame) :: after) = (dataRecords entries).drop number := by
  induction entries generalizing number with
  | nil => simp [dataRecords] at found
  | cons entry entries ih =>
      obtain ⟨place, item⟩ := entry
      cases control : item.isControl with
      | true =>
          rw [dataRecords_cons_control control] at found ⊢
          obtain ⟨before, frame, after, rfl, rest⟩ := ih found
          exact ⟨(place, item) :: before, frame, after, rfl, rest⟩
      | false =>
          rw [dataRecords_cons_data control] at found ⊢
          cases number with
          | zero =>
              simp only [List.getElem?_cons_zero, Option.some.injEq, Prod.mk.injEq] at found
              obtain ⟨rfl, rfl⟩ := found
              exact ⟨[], item, entries, rfl, control, rfl, dataRecords_cons_data control⟩
          | succ number =>
              rw [List.getElem?_cons_succ] at found
              obtain ⟨before, frame, after, rfl, rest⟩ := ih found
              exact ⟨(place, item) :: before, frame, after, rfl, rest⟩

/-- The sidecar leads to the record with a given number, and the records behind it
follow in the file. -/
theorem Recorded.record_at {dir : Directory} {headerSize number offset : Nat}
    {segment : Segment} {records : List (List UInt8)}
    (recorded : Recorded crc dir headerSize segment records)
    (found : segment.offsets[number]? = some offset) :
    ∃ frame next after stop,
      recordAt crc (dir.read segment.basePosition) (segment.extent dir) offset =
        some (frame, next) ∧
      frame.isControl = false ∧ records[number]? = some frame.payload ∧
      Chain (recordAt crc (dir.read segment.basePosition) (segment.extent dir)) offset
        ((offset, frame) :: after) stop ∧
      QuietAt (dir.read segment.basePosition) (segment.extent dir) stop ∧
      (dataRecords ((offset, frame) :: after)).map Prod.snd = records.drop number ∧
      (dataRecords ((offset, frame) :: after)).map Prod.fst = segment.offsets.drop number := by
  obtain ⟨entries, stop, chain, quiet, offsetsEq, recordsEq⟩ := recorded.chain
  rw [← offsetsEq, List.getElem?_map] at found
  obtain ⟨⟨_, payload⟩, here, rfl⟩ := Option.map_eq_some_iff.mp found
  obtain ⟨before, frame, after, rfl, data, rfl, restEq⟩ := exists_dataRecord here
  obtain ⟨middle, _, behind⟩ := chain.split
  obtain ⟨rfl, next, record, rest⟩ := chain_cons_iff.mp behind
  refine ⟨frame, next, after, stop, record, data, ?_, behind, quiet, ?_, ?_⟩
  · rw [← recordsEq, List.getElem?_map, here]
    rfl
  · rw [restEq, List.map_drop, recordsEq]
  · rw [restEq, List.map_drop, offsetsEq]

namespace Scan

/-- The records that a scan has in front of it: those of the current segment from its
offset on, and those of the segments behind. -/
def Ahead (crc : List UInt8 → UInt32) (scan : Scan σ) (records : List (List UInt8)) : Prop :=
  ∃ here later, records = here ++ later.flatten ∧
    List.Forall₂ (Recorded crc scan.dir scan.headerSize)
      ((segments scan.source).drop (scan.segIdx + 1)) later ∧
    match scan.reader with
    | none => here = []
    | some reader => ∃ file flushed entries stop, reader.Reads file flushed ∧
        Chain (recordAt crc file flushed) scan.offset entries stop ∧
        QuietAt file flushed stop ∧ (dataRecords entries).map Prod.snd = here

/-- The scan stands at a data record, with other records behind it. -/
structure AtRecord (crc : List UInt8 → UInt32) (scan : Scan σ) (totalLen : Nat)
    (record : List UInt8) (later : List (List UInt8)) : Prop where
  found : ∃ reader file flushed frame next, scan.reader = some reader ∧
    reader.Reads file flushed ∧ recordAt crc file flushed scan.offset = some (frame, next) ∧
    frame.isControl = false ∧ frame.payload = record ∧ frame.totalLen = totalLen ∧
    ∀ reader', reader'.Reads file flushed → ∀ position,
      Ahead crc { scan with offset := next, position := position, reader := some reader' } later

/-- Everything that moving to the next data record leaves as it is. -/
def SameBounds (scan after : Scan σ) : Prop :=
  after.position = scan.position ∧ after.upto = scan.upto ∧
    after.pendingErr = scan.pendingErr ∧ after.done = scan.done

theorem Ahead.peek_cases {scan : Scan σ} {records : List (List UInt8)} {reader after : Reader}
    {kind : Except ReadFault RecordKind} (ahead : Ahead crc scan records)
    (opened : scan.reader = some reader) (peeked : reader.peek scan.offset = (kind, after)) :
    (kind = .ok .done ∧ Ahead crc { scan with reader := none } records) ∨
      (∃ totalLen, kind = .ok (.control totalLen) ∧
        Ahead crc { scan with reader := some after, offset := scan.offset + totalLen } records) ∨
      ∃ totalLen record later, kind = .ok (.data totalLen) ∧ records = record :: later ∧
        AtRecord crc { scan with reader := some after } totalLen record later := by
  obtain ⟨here, later, rfl, recorded, current⟩ := ahead
  rw [opened] at current
  obtain ⟨file, flushed, entries, stop, reads, chain, quiet, rfl⟩ := current
  cases entries with
  | nil =>
      obtain rfl := chain_nil_iff.mp chain
      obtain ⟨_, peeked', _⟩ := Reader.peek_quiet reads quiet
      obtain ⟨rfl, rfl⟩ := Prod.mk.inj (peeked.symm.trans peeked')
      exact .inl ⟨rfl, [], later, rfl, recorded, rfl⟩
  | cons entry entries =>
      obtain ⟨offset, frame⟩ := entry
      obtain ⟨rfl, next, record, rest⟩ := chain_cons_iff.mp chain
      obtain ⟨_, peeked', reads'⟩ := Reader.peek_record reads record
      obtain ⟨rfl, rfl⟩ := Prod.mk.inj (peeked.symm.trans peeked')
      have nextEq := next_of_recordAt record
      cases control : frame.isControl with
      | true =>
          refine .inr (.inl ⟨frame.totalLen, rfl, _, later, rfl, recorded, file, flushed, entries,
            stop, reads', ?_, quiet, ?_⟩)
          · exact nextEq ▸ rest
          · rw [dataRecords_cons_control control]
      | false =>
          refine .inr (.inr ⟨frame.totalLen, frame.payload,
            (dataRecords entries).map Prod.snd ++ later.flatten, rfl, ?_, ?_⟩)
          · rw [dataRecords_cons_data control]
            rfl
          · refine ⟨⟨after, file, flushed, frame, next, rfl, reads', record, control, rfl, rfl, ?_⟩⟩
            intro reader' reads'' position
            exact ⟨_, later, rfl, recorded, file, flushed, entries, stop, reads'', rest, quiet, rfl⟩

theorem Ahead.advance {scan after : Scan σ} {records : List (List UInt8)}
    (ahead : Ahead crc scan records) (opened : scan.reader = none)
    (advanced : scan.advanceSegment = some after) : Ahead crc after records := by
  obtain ⟨segment, found, rfl⟩ := Option.map_eq_some_iff.mp advanced
  obtain ⟨here, later, rfl, recorded, current⟩ := ahead
  rw [opened] at current
  obtain rfl : here = [] := current
  rw [segmentAt_eq] at found
  obtain ⟨inside, rfl⟩ := List.getElem?_eq_some_iff.mp found
  rw [List.drop_eq_getElem_cons inside] at recorded
  cases recorded with
  | @cons _ records _ later first rest =>
      obtain ⟨entries, stop, chain, quiet, _, recordsEq⟩ := first.chain
      exact ⟨records, later, by simp, rest, _, _, entries, stop,
        Reader.reads_openSegment _ _, chain, quiet, recordsEq⟩

theorem Ahead.last {scan : Scan σ} {records : List (List UInt8)} (ahead : Ahead crc scan records)
    (opened : scan.reader = none) (advanced : scan.advanceSegment = none) : records = [] := by
  obtain ⟨here, later, rfl, recorded, current⟩ := ahead
  rw [opened] at current
  obtain rfl : here = [] := current
  have missing := Option.map_eq_none_iff.mp advanced
  rw [segmentAt_eq, List.getElem?_eq_none_iff] at missing
  rw [List.drop_of_length_le missing] at recorded
  cases recorded
  rfl

/-- Where moving to the next data record leads: to the first of the records ahead, or to
the end of the log. -/
def Reaches (crc : List UInt8 → UInt32) (scan : Scan σ) : List (List UInt8) → Prop
  | [] => ∃ after, scan.positionAtData = (.ok none, after)
  | record :: later => ∃ totalLen after, scan.positionAtData = (.ok (some totalLen), after) ∧
      SameBounds scan after ∧ AtRecord crc after totalLen record later

theorem Reaches.of_eq {scan moved : Scan σ} {records : List (List UInt8)}
    (reaches : Reaches crc moved records) (moves : scan.positionAtData = moved.positionAtData)
    (same : SameBounds scan moved) : Reaches crc scan records := by
  cases records with
  | nil => exact reaches.imp fun after ended => moves.trans ended
  | cons record later =>
      obtain ⟨totalLen, after, found, ⟨position, upto, pending, done⟩, atRecord⟩ := reaches
      obtain ⟨position', upto', pending', done'⟩ := same
      exact ⟨totalLen, after, moves.trans found, ⟨position.trans position', upto.trans upto',
        pending.trans pending', done.trans done'⟩, atRecord⟩

theorem positionAtData_closed {scan : Scan σ} (opened : scan.reader = none) :
    scan.positionAtData =
      match scan.advanceSegment with
      | none => (.ok none, scan)
      | some after => after.positionAtData := by
  rw [positionAtData]
  split
  · split
    · next advanced => rw [advanced]
    · next advanced => rw [advanced]
  · next opened' => simp [opened] at opened'

theorem positionAtData_opened {scan : Scan σ} {reader after : Reader}
    {kind : Except ReadFault RecordKind} (opened : scan.reader = some reader)
    (peeked : reader.peek scan.offset = (kind, after)) :
    scan.positionAtData =
      match kind with
      | .error fault => (.error (.read scan.segmentPath fault), { scan with reader := some after })
      | .ok (.data totalLen) => (.ok (some totalLen), { scan with reader := some after })
      | .ok (.control totalLen) => positionAtData
          { scan with reader := some after, offset := scan.offset + totalLen }
      | .ok .done => positionAtData { scan with reader := none } := by
  rw [positionAtData]
  split
  · next opened' => simp [opened] at opened'
  · next reader' opened' =>
      obtain rfl : reader = reader' := by simpa [opened] using opened'
      split
      all_goals
        next peeked' =>
          obtain ⟨rfl, rfl⟩ := Prod.mk.inj (peeked.symm.trans peeked')
          rfl

/-- The records ahead are reached, over control records and ends of segments. -/
theorem Ahead.reaches {scan : Scan σ} :
    ∀ {records : List (List UInt8)}, Ahead crc scan records → Reaches crc scan records := by
  induction scan using positionAtData.induct with
  | case1 scan opened advanced =>
      intro records ahead
      obtain rfl := ahead.last opened advanced
      exact ⟨scan, by rw [positionAtData_closed opened, advanced]⟩
  | case2 scan opened after advanced ih =>
      intro records ahead
      refine (ih (ahead.advance opened advanced)).of_eq ?_ ?_
      · rw [positionAtData_closed opened, advanced]
      · obtain ⟨_, _, rfl⟩ := Option.map_eq_some_iff.mp advanced
        exact ⟨rfl, rfl, rfl, rfl⟩
  | case3 scan reader opened fault after peeked =>
      intro records ahead
      rcases ahead.peek_cases opened peeked with ⟨kind, _⟩ | ⟨_, kind, _⟩ | ⟨_, _, _, kind, _⟩ <;>
        cases kind
  | case4 scan reader opened totalLen after peeked =>
      intro records ahead
      rcases ahead.peek_cases opened peeked with
        ⟨kind, _⟩ | ⟨_, kind, _⟩ | ⟨_, record, later, kind, rfl, found⟩
      · cases kind
      · cases kind
      · cases kind
        exact ⟨totalLen, _, positionAtData_opened opened peeked, ⟨rfl, rfl, rfl, rfl⟩, found⟩
  | case5 scan reader opened totalLen after peeked ih =>
      intro records ahead
      rcases ahead.peek_cases opened peeked with ⟨kind, _⟩ | ⟨_, kind, moved⟩ | ⟨_, _, _, kind, _⟩
      · cases kind
      · cases kind
        exact (ih moved).of_eq (positionAtData_opened opened peeked) ⟨rfl, rfl, rfl, rfl⟩
      · cases kind
  | case6 scan reader opened after peeked ih =>
      intro records ahead
      rcases ahead.peek_cases opened peeked with ⟨kind, moved⟩ | ⟨_, kind, _⟩ | ⟨_, _, _, kind, _⟩
      · exact (ih moved).of_eq (positionAtData_opened opened peeked) ⟨rfl, rfl, rfl, rfl⟩
      · cases kind
      · cases kind

/-- A scan that is not at its bound yields the first of the records ahead. -/
theorem Ahead.next_eq {scan : Scan σ} {record : List UInt8} {later : List (List UInt8)}
    (ahead : Ahead crc scan (record :: later)) (clean : scan.pendingErr = none)
    (going : scan.done = false) (inside : scan.position ≤ scan.upto) :
    ∃ after, scan.next crc = (some (.ok (scan.position, record)), after) ∧
      Ahead crc after later ∧ after.position = scan.position + 1 ∧ after.upto = scan.upto ∧
      after.pendingErr = none ∧ after.done = false := by
  obtain ⟨totalLen, after, moved, ⟨position, upto, pending, done⟩, atRecord⟩ := ahead.reaches
  obtain ⟨reader, file, flushed, frame, next, opened, reads, here, data, rfl, rfl, rest⟩ :=
    atRecord.found
  obtain ⟨reader', read, reads'⟩ := Reader.readRecord_data reads here data (Nat.zero_le _)
  refine ⟨{ after with
    offset := next, position := scan.position + 1, reader := some reader' }, ?_,
    rest reader' reads' _, rfl, upto, pending.trans clean, done.trans going⟩
  rw [Scan.next, clean]
  simp only [going, Bool.false_eq_true, if_false, Nat.not_lt.mpr inside, moved, opened, read,
    position, List.drop_zero, next_of_recordAt here]

/-- A scan yields the records ahead, as many as it has positions up to its bound. -/
theorem Ahead.yields {scan : Scan σ} {records : List (List UInt8)} {wanted : Nat}
    (ahead : Ahead crc scan records) (enough : wanted ≤ records.length)
    (clean : scan.pendingErr = none) (going : scan.done = false)
    (counted : scan.position + wanted = scan.upto + 1) :
    Yields crc scan ((positioned scan.position (records.take wanted)).map .ok) := by
  induction wanted generalizing scan records with
  | zero =>
      have ended : scan.next crc = (none, { scan with done := true }) := by
        rw [Scan.next, clean]
        simp only [going, Bool.false_eq_true, if_false]
        rw [if_pos (by omega)]
      exact .ended ended
  | succ wanted ih =>
      cases records with
      | nil => cases enough
      | cons record records =>
          rw [List.length_cons] at enough
          obtain ⟨after, here, rest, position, upto, clean', going'⟩ :=
            ahead.next_eq clean going (by omega)
          rw [List.take_succ_cons, positioned_cons, List.map_cons, ← position]
          exact .item here (ih rest (by omega) clean' going' (by omega))

end Scan

/-- Every segment begins right behind the one before it, and its sidecar has its
records. -/
structure Kept (crc : List UInt8 → UInt32) (dir : Directory) (headerSize : Nat) (source : σ)
    (lists : List (List (List UInt8))) : Prop where
  contiguous : SegmentSource.Contiguous firstPosition (segments source)
  backed : List.Forall₂ (Backed crc dir headerSize) (segments source) lists

/-- The same where a segment without records may have any file. -/
structure Intact (crc : List UInt8 → UInt32) (dir : Directory) (headerSize : Nat) (source : σ)
    (lists : List (List (List UInt8))) : Prop where
  contiguous : SegmentSource.Contiguous firstPosition (segments source)
  recorded : List.Forall₂ (Recorded crc dir headerSize) (segments source) lists

theorem totalEvents_of_recorded {dir : Directory} {headerSize : Nat} {segs : List Segment}
    {lists : List (List (List UInt8))}
    (recorded : List.Forall₂ (Recorded crc dir headerSize) segs lists) :
    totalEvents segs = lists.flatten.length := by
  induction recorded with
  | nil => rfl
  | cons first _ ih =>
      rw [totalEvents_cons, List.flatten_cons, List.length_append, ih, ← first.length_offsets]
      rfl

namespace Intact

variable {dir : Directory} {headerSize : Nat} {source : σ} {lists : List (List (List UInt8))}

theorem segment_eq (intact : Intact crc dir headerSize source lists) {idx : Nat}
    {segment : Segment} (found : (segments source)[idx]? = some segment) :
    ∃ records, Recorded crc dir headerSize segment records ∧
      segment.basePosition = firstPosition + (lists.take idx).flatten.length ∧
      lists.flatten =
        (lists.take idx).flatten ++ (records ++ (lists.drop (idx + 1)).flatten) := by
  have base : segment.basePosition = firstPosition + totalEvents ((segments source).take idx) :=
    intact.contiguous.basePosition_eq found
  rw [totalEvents_of_recorded (List.forall₂_take idx intact.recorded)] at base
  obtain ⟨bound, rfl⟩ := List.getElem?_eq_some_iff.mp found
  have bound' : idx < lists.length := intact.recorded.length_eq ▸ bound
  have here := (List.forall₂_iff_get.mp intact.recorded).2 idx bound bound'
  simp only [List.get_eq_getElem] at here
  refine ⟨lists[idx], here, base, ?_⟩
  rw [← List.flatten_cons, ← List.drop_eq_getElem_cons, ← List.flatten_append,
    List.take_append_drop]

/-- The segment of a position, and what stands in it from that position on. -/
theorem locate_eq (intact : Intact crc dir headerSize source lists) {position : Nat}
    (started : firstPosition ≤ position) (inside : position ≤ lists.flatten.length) :
    ∃ idx segment offset, locate source position = some (idx, segment) ∧
      segment ∈ segments source ∧ segment.basePosition ≤ position ∧
      segment.offsets[position - segment.basePosition]? = some offset ∧
      ∃ records, Recorded crc dir headerSize segment records ∧
        List.Forall₂ (Recorded crc dir headerSize) ((segments source).drop (idx + 1))
          (lists.drop (idx + 1)) ∧
        lists.flatten.drop (position - firstPosition) =
          records.drop (position - segment.basePosition) ++ (lists.drop (idx + 1)).flatten := by
  have total := totalEvents_of_recorded intact.recorded
  rw [firstPosition] at started
  obtain ⟨idx, segment, located, found, low, high⟩ := locate_of_contiguous intact.contiguous
    (by decide) started (by rw [total, firstPosition]; omega)
  change segment.basePosition ≤ position at low
  change position < segment.basePosition + segment.offsets.length at high
  obtain ⟨records, recorded, base, split⟩ := intact.segment_eq found
  refine ⟨idx, segment, _, located, List.mem_of_getElem? found, low,
    List.getElem?_eq_getElem (by omega), records, recorded,
    List.forall₂_drop _ intact.recorded, ?_⟩
  have counted := recorded.length_offsets
  rw [split, List.drop_append, List.drop_of_length_le (by omega), List.nil_append,
    List.drop_append_of_le_length (by omega)]
  congr 2
  omega

theorem start_yields (intact : Intact crc dir headerSize source lists) {first upto : Nat}
    (started : firstPosition ≤ first) (inside : upto ≤ lists.flatten.length) :
    Scan.Yields crc (.start dir headerSize source first upto)
      ((positioned first ((lists.flatten.drop (first - firstPosition)).take
        (upto + 1 - first))).map .ok) := by
  rw [firstPosition] at started
  rw [Scan.start]
  by_cases beyond : first > upto
  · rw [if_pos (.inr beyond), show upto + 1 - first = 0 by omega]
    exact .ended rfl
  rw [if_neg (by omega)]
  obtain ⟨idx, segment, offset, located, _, _, found, records, recorded, later, split⟩ :=
    intact.locate_eq started (by omega)
  obtain ⟨frame, next, after, stop, here, data, _, chain, quiet, recordsEq, _⟩ :=
    recorded.record_at found
  simp only [located, found]
  have counted : first + (upto + 1 - first) = upto + 1 := by omega
  refine Scan.Ahead.yields ?_ ?_ rfl rfl counted
  · exact ⟨_, _, split, later, _, _, _, stop, Reader.reads_openSegment _ _, chain, quiet,
      recordsEq⟩
  · rw [List.length_drop, firstPosition]
    omega

end Intact

namespace Kept

variable {dir : Directory} {headerSize : Nat} {source : σ} {lists : List (List (List UInt8))}

theorem intact (kept : Kept crc dir headerSize source lists) :
    Intact crc dir headerSize source lists :=
  ⟨kept.contiguous, kept.backed.imp fun _ _ backed => backed.recorded⟩

/-- A scan to the last position yields the records from its first position on. -/
theorem start_yields (kept : Kept crc dir headerSize source lists) {first : Nat}
    (started : firstPosition ≤ first) :
    Scan.Yields crc (.start dir headerSize source first lists.flatten.length)
      ((positioned first (lists.flatten.drop (first - firstPosition))).map .ok) := by
  have yields := kept.intact.start_yields started (Nat.le_refl _)
  rwa [List.take_of_length_le] at yields
  rw [List.length_drop, firstPosition]
  omega

end Kept

namespace SegmentSet

variable {state : LogState} {lists : List (List (List UInt8))}

/-- A point read gives the record with the number of its position. -/
theorem readAt_eq (kept : Kept crc state.dir state.set.config.headerSize state.set lists)
    (counted : state.set.nextPosition = firstPosition + lists.flatten.length) (position : Nat) :
    readAt crc state position =
      if firstPosition ≤ position then
        match lists.flatten[position - firstPosition]? with
        | some record => .ok (position, record)
        | none => .error (.notFound position)
      else
        .error (.notFound position) := by
  rw [readAt, segmentFor]
  by_cases beyond : position ≥ state.set.nextPosition
  · rw [if_pos beyond, if_pos (by omega), List.getElem?_eq_none (by omega)]
  rw [if_neg beyond]
  split_ifs with started
  swap
  · obtain rfl : position = 0 := by
      rw [firstPosition] at started
      omega
    rfl
  rw [firstPosition] at counted
  obtain ⟨idx, segment, offset, located, _, _, found, records, recorded, _, split⟩ :=
    kept.intact.locate_eq started (by omega)
  obtain ⟨frame, next, after, stop, here, data, record, _⟩ := recorded.record_at found
  have inFile := recorded.inFile (by rintro rfl; simp at record)
  have read : Reader.readRecordRandom crc 0 (Reader.openSegment _ _) offset = _ :=
    Reader.readRecordRandom_data
      (Reader.reads_openSegment (state.dir.read segment.basePosition) segment.flushedOffset)
      inFile here data (Nat.zero_le _)
  have recordEq : lists.flatten[position - firstPosition]? = some frame.payload := by
    have bound := (List.getElem?_eq_some_iff.mp record).1
    have first := congrArg (fun rest => rest[0]?) split
    simp only [List.getElem?_drop, Nat.add_zero] at first
    rw [first, List.getElem?_append_left (by rw [List.length_drop]; omega), List.getElem?_drop,
      Nat.add_zero, record]
  simp only [located, Option.map_some, found, Segment.openReader, read, recordEq, List.drop_zero]

theorem scanFrom_yields (kept : Kept crc state.dir state.set.config.headerSize state.set lists)
    (counted : state.set.nextPosition = firstPosition + lists.flatten.length) (position : Nat) :
    Scan.Yields crc (scanFrom state position)
      ((positioned (max position firstPosition)
        (lists.flatten.drop (max position firstPosition - firstPosition))).map .ok) := by
  have last : state.set.lastPosition = lists.flatten.length := by
    rw [lastPosition, counted, firstPosition]
    omega
  rw [scanFrom, scanAt, last]
  exact kept.start_yields (Nat.le_max_right _ _)

/-- A scan after a position yields the suffix of the records behind it. -/
theorem scanAfter_yields (kept : Kept crc state.dir state.set.config.headerSize state.set lists)
    (counted : state.set.nextPosition = firstPosition + lists.flatten.length)
    (bounded : lists.flatten.length < positionMax) (position : Nat) :
    Scan.Yields crc (scanAfter state position)
      ((positioned (position + 1) (lists.flatten.drop position)).map .ok) := by
  have last : state.set.lastPosition = lists.flatten.length := by
    rw [lastPosition, counted, firstPosition]
    omega
  rw [scanAfter, scanAt, last]
  have positive : firstPosition ≤ positionMax := by decide
  have yields := kept.start_yields (show firstPosition ≤ min (position + 1) positionMax by
    rw [Nat.le_min]
    exact ⟨Nat.le_add_left _ _, positive⟩)
  rcases Nat.le_total (position + 1) positionMax with fits | saturated
  · rw [Nat.min_eq_left fits] at yields ⊢
    exact yields
  · rw [Nat.min_eq_right saturated] at yields ⊢
    rw [firstPosition] at positive yields
    rw [List.drop_of_length_le (by omega)] at yields ⊢
    exact yields

end SegmentSet

end Log

end Tephra
