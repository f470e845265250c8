import Tephra.OpenedLogs
import Tephra.RecordArray
import Tephra.RecordParsing

/-!
# Scanning backwards

A backward scan reads a window of bytes that ends behind the record at hand and begins at the
start of a record as far down as the window may reach.  It takes the starts of the records from
the sidecar and yields the records of the window from the last one down.  It gives the records
of the forward scan over the same range, in reverse order.
-/

namespace Tephra

namespace Seglog

open ByteImage FrameChain

namespace Reader

/-- Bytes of the file, whatever records they belong to. -/
def readBytes (self : Reader) (offset length : Nat) : Except ReadFault (List UInt8) :=
  -- The sum is checked; like a short file, an overflow is an I/O error.
  if wordSize ≤ offset + length then
    .error (.error .unexpectedEof)
  else if offset + length > self.flushedOffset then
    .error (.error (.outOfBounds offset length self.flushedOffset))
  else
    match readExact self.file offset length with
    | none => .error (.error .unexpectedEof)
    | some bytes => .ok bytes

end Reader

variable {crc : List UInt8 → UInt32}

theorem recordAt_window {image : List UInt8} {size base width offset next : Nat} {frame : Frame}
    (here : recordAt crc image size (base + offset) = some (frame, next))
    (fits : next ≤ base + width) :
    recordAt crc ((image.drop base).take width) width offset = some (frame, next - base) := by
  obtain ⟨head, readHead, notEnd, known, control, readPayload, valid, rfl, _⟩ :=
    recordAt_eq_some_iff.mp here
  rw [Nat.add_assoc] at readPayload
  refine recordAt_eq_some_iff.mpr
    ⟨head, ?_, notEnd, known, control, ?_, valid, by omega, by omega⟩
  · exact readExact_window readHead (by omega)
  · exact readExact_window readPayload (by omega)

theorem parseRecordRef_data {bytes : List UInt8} {offset next : Nat} {frame : Frame}
    (here : recordAt crc bytes bytes.length offset = some (frame, next))
    (data : frame.isControl = false) (small : offset + recordHeadSize < wordSize) :
    parseRecordRef crc 0 bytes offset = .ok (frame.payload, frame.totalLen) := by
  have reads := Reader.reads_openSegment bytes none
  obtain ⟨_, parsed, _⟩ := @Reader.Reads.readSequential_eq_parse crc _ _ _ reads (Nat.le_refl _)
    0 offset
  obtain ⟨_, read, _⟩ := Reader.readRecord_data reads here data (Nat.zero_le _)
  rw [Reader.readSequential, if_neg (by omega), read, Option.getD_none,
    List.take_of_length_le (Nat.le_refl _)] at parsed
  rw [parseRecordRef]
  cases parts : parseRecordParts crc 0 bytes offset with
  | error fault =>
      rw [parts] at parsed
      cases parsed
  | ok parts' =>
      obtain ⟨header, payload, totalLen⟩ := parts'
      rw [parts] at parsed
      cases parsed
      rfl

theorem Reader.Reads.readBytes_eq {self : Reader} {file : List UInt8} {flushed : Nat}
    (reads : self.Reads file flushed) (inFile : flushed ≤ file.length) {offset length : Nat}
    (fits : offset + length ≤ flushed) (small : offset + length < wordSize) :
    self.readBytes offset length = .ok ((file.drop offset).take length) := by
  rw [readBytes, if_neg (by omega), reads.flushed_eq, if_neg (by omega), reads.file_eq,
    readExact_eq_some_iff.mpr ⟨by omega, rfl⟩]

end Seglog

namespace Log

open ByteImage FrameChain Positions Seglog SegmentSource

variable {σ : Type} [SegmentSource σ Segment]

/-- The size of a window, unless a test chooses another one. -/
def reverseWindowBytes : Nat := 64 * 1024

/-- A backward scan of a source.  `position` is that of the next record.  The window holds the
bytes of the file from `winBaseByte` on; the lowest record in it is `winLoLocal`. -/
structure ScanBack (σ : Type) where
  dir : Directory
  source : σ
  first : Nat
  position : Nat
  windowBytes : Nat
  segment : Option Segment
  segIdx : Nat
  segBase : Nat
  segCount : Nat
  reader : Option Reader
  flushedLen : Nat
  window : List UInt8
  winBaseByte : Nat
  winLoLocal : Option Nat
  pendingErr : Option LogError
  done : Bool

namespace ScanBack

/-- A backward scan with a window of some size. -/
def startWithWindow (dir : Directory) (source : σ) (first upto windowBytes : Nat) : ScanBack σ :=
  let first := max first firstPosition
  { dir := dir
    source := source
    first := first
    position := upto
    windowBytes := max windowBytes 1
    segment := none
    segIdx := 0
    segBase := 0
    segCount := 0
    reader := none
    flushedLen := 0
    window := []
    winBaseByte := 0
    winLoLocal := none
    pendingErr := none
    done := decide (upto = 0 ∨ first > upto) }

/-- A backward scan from a last position down to a first one. -/
def start (dir : Directory) (source : σ) (first upto : Nat) : ScanBack σ :=
  startWithWindow dir source first upto reverseWindowBytes

/-- The file of the current segment. -/
def segmentPath (self : ScanBack σ) : Nat :=
  ((segmentAt self.source self.segIdx).map Segment.basePosition).getD 0

/-- What a call ends with where the code panics. -/
def panicked (self : ScanBack σ) : LogError := .read self.segmentPath .panicked

/-- A subtraction, which panics below zero. -/
def minus (self : ScanBack σ) (left right : Nat) : Except LogError Nat :=
  if right ≤ left then .ok (left - right) else .error self.panicked

/-- The value of a field, which panics where there is none. -/
def unwrap {α : Type} (self : ScanBack σ) : Option α → Except LogError α
  | some value => .ok value
  | none => .error self.panicked

/-- Where a record begins, by the sidecar. -/
def dataOffset (self : ScanBack σ) (segment : Segment) (localPos : Nat) : Except LogError Nat :=
  match segment.offsets[localPos]? with
  | some offset => .ok offset
  | none => .error (.notFound self.position)

/-- The scan on the segment that has its position, or done if there is none. -/
def ensureSegment (self : ScanBack σ) : ScanBack σ :=
  if self.reader.isSome ∧ self.position ≥ self.segBase then
    self
  else
    match locate self.source self.position with
    | none => { self with done := true }
    | some (idx, segment) =>
        let reader := segment.openReader self.dir
        { self with
          flushedLen := reader.flushedOffset
          segBase := segment.basePosition
          segCount := segment.offsets.length
          segIdx := idx
          reader := some reader
          segment := some segment
          winLoLocal := none }

/-- The byte behind a record: where the next data record begins, or for the last one of the
segment what its head says. -/
def windowEnd (self : ScanBack σ) (segment : Segment) (reader : Reader) (localPos headOff : Nat) :
    Except LogError (Nat × Reader) :=
  if localPos + 1 < self.segCount then
    .ok (min (segment.offsets[localPos + 1]?.getD self.flushedLen) self.flushedLen, reader)
  else
    match reader.peek headOff with
    | (.error fault, _) => .error (.read self.segmentPath fault)
    | (.ok (.data totalLen), reader) => .ok (min (headOff + totalLen) self.flushedLen, reader)
    | (.ok _, _) => .error (.notFound self.position)

/-- The window extended down from a record as long as it stays within its size. -/
def extendDown (self : ScanBack σ) (segment : Segment) (stopLocal bytesEnd : Nat) :
    (lo loByte : Nat) → Except LogError (Nat × Nat)
  | 0, loByte => .ok (0, loByte)
  | lo + 1, loByte =>
      if lo + 1 ≤ stopLocal then
        .ok (lo + 1, loByte)
      else
        match segment.offsets[lo]? with
        | none => .ok (lo + 1, loByte)
        | some cand => do
            let span ← self.minus bytesEnd cand
            if span > self.windowBytes then
              .ok (lo + 1, loByte)
            else
              extendDown self segment stopLocal bytesEnd lo cand

/-- The scan with a window that has the record of its position.  After an error the scan is
done, and what its other fields hold no longer matters. -/
def ensureWindow (self : ScanBack σ) : Except LogError (ScanBack σ) := do
  let localPos ← self.minus self.position self.segBase
  if self.winLoLocal.any (· ≤ localPos) then
    return self
  let segment ← self.unwrap self.segment
  let headOff ← self.dataOffset segment localPos
  let reader ← self.unwrap self.reader
  let (bytesEnd, reader) ← self.windowEnd segment reader localPos headOff
  let stopLocal := if self.first > self.segBase then self.first - self.segBase else 0
  let (lo, loByte) ← self.extendDown segment stopLocal bytesEnd localPos headOff
  let readLen ← self.minus bytesEnd loByte
  match reader.readBytes loByte readLen with
  | .error fault => .error (.read self.segmentPath fault)
  | .ok window =>
      return { self with
        reader := some reader, window := window, winBaseByte := loByte, winLoLocal := some lo }

variable (crc : List UInt8 → UInt32)

/-- The record of the position, out of the window. -/
def record (self : ScanBack σ) : Except LogError (Nat × List UInt8) := do
  let localPos ← self.minus self.position self.segBase
  let segment ← self.unwrap self.segment
  let byte ← self.dataOffset segment localPos
  let rel ← self.minus byte self.winBaseByte
  let _ ← self.minus self.position 1
  match parseRecordRef crc 0 self.window rel with
  | .ok (data, _) => .ok (self.position, data)
  | .error fault => .error (.read self.segmentPath fault)

/-- The next record above its position, or `none` at the end of the scan. -/
def next (self : ScanBack σ) : Option (Except LogError (Nat × List UInt8)) × ScanBack σ :=
  match self.pendingErr with
  | some err => (some (.error err), { self with pendingErr := none, done := true })
  | none =>
      if self.done ∨ self.position < self.first then
        (none, { self with done := true })
      else
        let self := self.ensureSegment
        if self.done then
          (none, self)
        else
          match self.ensureWindow with
          | .error err => (some (.error err), { self with done := true })
          | .ok self =>
              match self.record crc with
              | .error err => (some (.error err), { self with done := true })
              | .ok entry => (some (.ok entry), { self with position := self.position - 1 })

/-- The calls of `next` on a scan give these items and then end. -/
inductive Yields : ScanBack σ → List (Except LogError (Nat × List UInt8)) → Prop
  | ended {scan after : ScanBack σ} (here : scan.next crc = (none, after)) : Yields scan []
  | item {scan after : ScanBack σ} {entry : Except LogError (Nat × List UInt8)}
      {entries : List (Except LogError (Nat × List UInt8))}
      (here : scan.next crc = (some entry, after)) (rest : Yields after entries) :
      Yields scan (entry :: entries)

end ScanBack

variable {crc : List UInt8 → UInt32}

theorem Recorded.record_before {dir : Directory} {headerSize number offset : Nat}
    {segment : Segment} {records : List (List UInt8)}
    (recorded : Recorded crc dir headerSize segment records)
    (found : segment.offsets[number]? = some offset) :
    ∃ frame next,
      recordAt crc (dir.read segment.basePosition) (segment.extent dir) offset =
        some (frame, next) ∧
      frame.isControl = false ∧ records[number]? = some frame.payload ∧
      segment.extent dir ≤ (dir.read segment.basePosition).length ∧
      ∀ other offset', number < other → segment.offsets[other]? = some offset' →
        next ≤ offset' := by
  obtain ⟨frame, next, after, stop, here, data, record, chain, _, _, offsetsEq⟩ :=
    recorded.record_at found
  have inFile := recorded.inFile (by rintro rfl; simp at record)
  refine ⟨frame, next, here, data, record, inFile, fun other offset' above found' => ?_⟩
  obtain ⟨_, next', here', rest⟩ := chain_cons_iff.mp chain
  obtain rfl : next = next' := by simpa [here] using here'
  have behind : offset' ∈ (dataRecords after).map Prod.fst := by
    rw [dataRecords_cons_data data, List.map_cons] at offsetsEq
    rw [show other = number + (other - number - 1 + 1) by omega, ← List.getElem?_drop,
      ← offsetsEq, List.getElem?_cons_succ] at found'
    exact List.mem_of_getElem? found'
  obtain ⟨entry, member, rfl⟩ := List.mem_map.mp behind
  exact (dataRecords_offset_bounds rest entry member).1

theorem Recorded.next_mono {dir : Directory} {headerSize number other offset offset' : Nat}
    {segment : Segment} {records : List (List UInt8)}
    (recorded : Recorded crc dir headerSize segment records)
    (found : segment.offsets[number]? = some offset)
    (found' : segment.offsets[other]? = some offset') (le : number ≤ other) {next next' : Nat}
    {frame frame' : Frame}
    (here : recordAt crc (dir.read segment.basePosition) (segment.extent dir) offset =
      some (frame, next))
    (here' : recordAt crc (dir.read segment.basePosition) (segment.extent dir) offset' =
      some (frame', next')) : next ≤ next' := by
  rcases Nat.lt_or_eq_of_le le with below | rfl
  · obtain ⟨_, _, same, _, _, _, later⟩ := recorded.record_before found
    obtain ⟨rfl, rfl⟩ := Prod.mk.inj (Option.some.inj (here.symm.trans same))
    have advanced := (recordAt_advances _ _ _ _ _ here').1
    exact (later other offset' below found').trans advanced.le
  · obtain rfl := Option.some.inj (found.symm.trans found')
    obtain ⟨rfl, rfl⟩ := Prod.mk.inj (Option.some.inj (here.symm.trans here'))
    exact Nat.le_refl _

theorem Recorded.offset_mono {dir : Directory} {headerSize number other offset offset' : Nat}
    {segment : Segment} {records : List (List UInt8)}
    (recorded : Recorded crc dir headerSize segment records)
    (found : segment.offsets[number]? = some offset)
    (found' : segment.offsets[other]? = some offset') (le : number ≤ other) :
    offset ≤ offset' := by
  rcases Nat.lt_or_eq_of_le le with below | rfl
  · obtain ⟨_, next, here, _, _, _, later⟩ := recorded.record_before found
    have advanced := (recordAt_advances _ _ _ _ _ here).1
    exact advanced.le.trans (later other offset' below found')
  · exact (Option.some.inj (found.symm.trans found')).le

/-- A log as its readers see it.  The offsets in its sidecars have 32 bits. -/
structure Readable (crc : List UInt8 → UInt32) (dir : Directory) (headerSize : Nat) (source : σ)
    (lists : List (List (List UInt8))) : Prop extends
    Intact crc dir headerSize source lists where
  small : ∀ segment ∈ segments source, ∀ offset ∈ segment.offsets, offset ≤ u32Max

theorem readable_of_openSet {config : SegmentConfig} {dir after : Directory} {now : UInt64}
    {set : SegmentSet} (distinct : (dir.map Prod.fst).Nodup)
    (opened : SegmentSet.openSet crc config now dir = (.ok set, after)) :
    ∃ lists, Readable crc after config.headerSize set lists ∧
      set.lastPosition = lists.flatten.length := by
  obtain ⟨_, lists, run, counted⟩ := run_of_openSet distinct opened
  refine ⟨lists, ⟨⟨run.contiguous, run.recorded⟩, run.small⟩, ?_⟩
  rw [SegmentSet.lastPosition, counted, firstPosition]
  omega

theorem readable_of_history {config : SegmentConfig} {steps : List RolloverHistory.RolloverStep}
    {world : RolloverHistory.World} {set : SegmentSet} (valid : config.validate = .ok ())
    (headerFits : segmentHeaderSize ≤ config.headerSize)
    (allowed : Histories.Allowed (RolloverHistory.step crc config)
      (RecordArray.StepAllowed config) .initial steps)
    (reached : Histories.run (RolloverHistory.step crc config) .initial steps = some world)
    (isOpen : world.set = some set) :
    ∃ lists, Readable crc world.dir config.headerSize set lists ∧
      lists.flatten = world.acknowledged.flatten := by
  rcases RecordArray.holds_of_history valid headerFits allowed reached with
    rfl | ⟨set', sealed, active, stop, setEq, running⟩
  · cases isOpen
  obtain rfl : set = set' := Option.some.inj (isOpen.symm.trans setEq)
  have kept := running.kept
  rw [running.live.config_eq] at kept
  refine ⟨_, ⟨kept.intact, fun segment member => ?_⟩, running.records_eq⟩
  obtain ⟨shelf, _, stop', tabled⟩ := RecordArray.exists_shelf_of_segment running.tabled member
  obtain ⟨_, sizeFits, _⟩ := SegmentConfig.validate_ok valid
  obtain ⟨_, _, _, small⟩ := scanOffsets_ok (tabled.scanOffsets_eq sizeFits (.inl rfl))
  exact small

/-- The records of a segment are those of the log from its base position on. -/
theorem Intact.records_of_segment {dir : Directory} {headerSize : Nat} {source : σ}
    {lists : List (List (List UInt8))} (intact : Intact crc dir headerSize source lists)
    {segment : Segment} (member : segment ∈ segments source) :
    ∃ records, Recorded crc dir headerSize segment records ∧ firstPosition ≤ segment.basePosition ∧
      ∀ localPos record, records[localPos]? = some record →
        lists.flatten[segment.basePosition + localPos - firstPosition]? = some record := by
  obtain ⟨idx, found⟩ := List.mem_iff_getElem?.mp member
  obtain ⟨records, recorded, base, split⟩ := intact.segment_eq found
  refine ⟨records, recorded, by omega, fun localPos record here => ?_⟩
  have bound := (List.getElem?_eq_some_iff.mp here).1
  rw [split, List.getElem?_append_right (by omega), List.getElem?_append_left (by omega), base,
    show firstPosition + (lists.take idx).flatten.length + localPos - firstPosition -
      (lists.take idx).flatten.length = localPos by omega, here]

namespace ScanBack

variable {scan : ScanBack σ} {segment : Segment} {headerSize : Nat}
  {records : List (List UInt8)} {lists : List (List (List UInt8))}

theorem minus_eq {left right : Nat} (below : right ≤ left) :
    scan.minus left right = .ok (left - right) := if_pos below

theorem unwrap_some {α : Type} (value : α) : scan.unwrap (some value) = .ok value := rfl

omit [SegmentSource σ Segment] in
theorem dataOffset_eq {localPos offset : Nat} (found : segment.offsets[localPos]? = some offset) :
    scan.dataOffset segment localPos = .ok offset := by
  rw [dataOffset, found]

/-- The window holds the records of a segment from a local position up to that of the scan. -/
structure Window (crc : List UInt8 → UInt32) (scan : ScanBack σ) (segment : Segment) (lo : Nat) :
    Prop where
  slice : scan.window =
    ((scan.dir.read segment.basePosition).drop scan.winBaseByte).take scan.window.length
  covers : ∀ {localPos offset next : Nat} {frame : Frame}, lo ≤ localPos →
    segment.basePosition + localPos ≤ scan.position →
    segment.offsets[localPos]? = some offset →
    recordAt crc (scan.dir.read segment.basePosition) (segment.extent scan.dir) offset =
      some (frame, next) →
    scan.winBaseByte ≤ offset ∧ next ≤ scan.winBaseByte + scan.window.length

/-- The scan is on a segment that does not end before its position. -/
structure OnSegment (crc : List UInt8 → UInt32) (scan : ScanBack σ) (segment : Segment) :
    Prop where
  segment_eq : scan.segment = some segment
  member : segment ∈ segments scan.source
  base_eq : scan.segBase = segment.basePosition
  count_eq : scan.segCount = segment.offsets.length
  flushed_eq : scan.flushedLen = segment.extent scan.dir
  reader : ∃ reader, scan.reader = some reader ∧
    reader.Reads (scan.dir.read segment.basePosition) (segment.extent scan.dir)
  inside : scan.position < segment.basePosition + segment.offsets.length
  window : ∀ lo, scan.winLoLocal = some lo → Window crc scan segment lo

/-- What a scan keeps while it moves to a record. -/
structure Beside (scan after : ScanBack σ) : Prop where
  dir_eq : after.dir = scan.dir
  source_eq : after.source = scan.source
  first_eq : after.first = scan.first
  position_eq : after.position = scan.position
  pending_eq : after.pendingErr = scan.pendingErr
  done_eq : after.done = scan.done

theorem OnSegment.record_eq (on : OnSegment crc scan segment)
    (recorded : Recorded crc scan.dir headerSize segment records)
    (small : ∀ offset ∈ segment.offsets, offset ≤ u32Max)
    (low : segment.basePosition ≤ scan.position) (positive : 0 < scan.position) {lo : Nat}
    (loaded : scan.winLoLocal = some lo) (reached : lo ≤ scan.position - segment.basePosition) :
    ∃ record, records[scan.position - segment.basePosition]? = some record ∧
      scan.record crc = .ok (scan.position, record) := by
  have inside := on.inside
  obtain ⟨offset, found⟩ :
      ∃ offset, segment.offsets[scan.position - segment.basePosition]? = some offset :=
    ⟨_, List.getElem?_eq_getElem (by omega)⟩
  obtain ⟨frame, next, here, data, record, _, _⟩ := recorded.record_before found
  obtain ⟨above, fits⟩ := (on.window lo loaded).covers reached (by omega) found here
  have offsetSmall := small offset (List.mem_of_getElem? found)
  have inWindow : recordAt crc scan.window scan.window.length (offset - scan.winBaseByte) =
      some (frame, next - scan.winBaseByte) := by
    rw [show offset = scan.winBaseByte + (offset - scan.winBaseByte) by omega] at here
    have windowed := recordAt_window here fits
    rwa [← (on.window lo loaded).slice] at windowed
  have parsed := parseRecordRef_data inWindow data (by
    simp only [u32Max, wordSize, recordHeadSize, lenSize, crc32cSize] at offsetSmall ⊢
    omega)
  refine ⟨frame.payload, record, ?_⟩
  simp only [ScanBack.record, on.base_eq, minus_eq low, on.segment_eq, unwrap_some,
    dataOffset_eq found, minus_eq above, minus_eq positive, parsed, bind, Except.bind]

/-- The window goes down to some record, and no subtraction is below zero. -/
theorem extendDown_eq {stopLocal bytesEnd lo loByte : Nat}
    (here : segment.offsets[lo]? = some loByte)
    (below : ∀ localPos offset, localPos ≤ lo → segment.offsets[localPos]? = some offset →
      offset ≤ bytesEnd) :
    ∃ lo' loByte', scan.extendDown segment stopLocal bytesEnd lo loByte = .ok (lo', loByte') ∧
      lo' ≤ lo ∧ segment.offsets[lo']? = some loByte' := by
  induction lo generalizing loByte with
  | zero => exact ⟨0, loByte, rfl, Nat.le_refl _, here⟩
  | succ lo ih =>
      rw [extendDown]
      by_cases stop : lo + 1 ≤ stopLocal
      · rw [if_pos stop]
        exact ⟨lo + 1, loByte, rfl, Nat.le_refl _, here⟩
      rw [if_neg stop]
      cases found : segment.offsets[lo]? with
      | none => exact ⟨lo + 1, loByte, rfl, Nat.le_refl _, here⟩
      | some cand =>
          have candLe := below lo cand (Nat.le_succ lo) found
          simp only [minus_eq candLe, bind, Except.bind]
          by_cases long : bytesEnd - cand > scan.windowBytes
          · rw [if_pos long]
            exact ⟨lo + 1, loByte, rfl, Nat.le_refl _, here⟩
          rw [if_neg long]
          obtain ⟨lo', loByte', extended, le, found'⟩ := ih found
            fun localPos offset le => below localPos offset (Nat.le_succ_of_le le)
          exact ⟨lo', loByte', extended, Nat.le_succ_of_le le, found'⟩

/-- The window ends behind the record at hand and inside the flushed extent. -/
theorem OnSegment.windowEnd_eq (on : OnSegment crc scan segment)
    (recorded : Recorded crc scan.dir headerSize segment records)
    (small : ∀ offset ∈ segment.offsets, offset ≤ u32Max) {reader : Reader}
    (reads : reader.Reads (scan.dir.read segment.basePosition) (segment.extent scan.dir))
    {localPos offset next : Nat} {frame : Frame}
    (found : segment.offsets[localPos]? = some offset)
    (here : recordAt crc (scan.dir.read segment.basePosition) (segment.extent scan.dir) offset =
      some (frame, next)) :
    ∃ bytesEnd after, scan.windowEnd segment reader localPos offset = .ok (bytesEnd, after) ∧
      after.Reads (scan.dir.read segment.basePosition) (segment.extent scan.dir) ∧
      next ≤ bytesEnd ∧ bytesEnd ≤ segment.extent scan.dir ∧ bytesEnd < wordSize := by
  have fits := (next_le_of_recordAt here).1
  have offsetSmall := small offset (List.mem_of_getElem? found)
  obtain ⟨frame', next', here', data, _, _, later⟩ := recorded.record_before found
  obtain ⟨rfl, rfl⟩ : frame = frame' ∧ next = next' := by simpa [here] using here'
  rw [windowEnd, on.count_eq, on.flushed_eq]
  by_cases middle : localPos + 1 < segment.offsets.length
  · rw [if_pos middle, List.getElem?_eq_getElem middle, Option.getD_some]
    have behind := later (localPos + 1) _ (Nat.lt_succ_self _) (List.getElem?_eq_getElem middle)
    have behindSmall := small _ (List.getElem_mem middle)
    refine ⟨_, reader, rfl, reads, le_min behind fits, Nat.min_le_right _ _, ?_⟩
    simp only [u32Max, wordSize] at behindSmall ⊢
    omega
  · rw [if_neg middle]
    obtain ⟨after, peeked, afterReads⟩ := Reader.peek_record reads here
    rw [data, if_neg Bool.false_ne_true] at peeked
    simp only [peeked, ← next_of_recordAt here, Nat.min_eq_left fits]
    refine ⟨next, after, rfl, afterReads, Nat.le_refl _, fits, ?_⟩
    obtain ⟨head, _, _, _, _, _, _, rfl, _⟩ := recordAt_eq_some_iff.mp here
    have short := payloadLenField_le (headRaw head)
    simp only [u32Max, wordSize, maxRecordLen, lengthMask, recordHeadSize, lenSize, crc32cSize]
      at offsetSmall short ⊢
    omega

theorem any_le_iff {lo : Option Nat} {localPos : Nat} :
    lo.any (· ≤ localPos) = true ↔ ∃ value, lo = some value ∧ value ≤ localPos := by
  cases lo <;> simp

/-- A window with the record of the position is there or is read. -/
theorem OnSegment.ensureWindow_eq (on : OnSegment crc scan segment)
    (recorded : Recorded crc scan.dir headerSize segment records)
    (small : ∀ offset ∈ segment.offsets, offset ≤ u32Max)
    (low : segment.basePosition ≤ scan.position) :
    ∃ after lo, scan.ensureWindow = .ok after ∧ OnSegment crc after segment ∧
      after.winLoLocal = some lo ∧ lo ≤ scan.position - segment.basePosition ∧
      Beside scan after := by
  have inside := on.inside
  obtain ⟨reader, opened, reads⟩ := on.reader
  simp only [ensureWindow, on.base_eq, minus_eq low, bind, Except.bind]
  by_cases covered : scan.winLoLocal.any (· ≤ scan.position - segment.basePosition) = true
  · obtain ⟨lo, loaded, reached⟩ := any_le_iff.mp covered
    rw [if_pos covered]
    exact ⟨scan, lo, rfl, on, loaded, reached, rfl, rfl, rfl, rfl, rfl, rfl⟩
  rw [if_neg covered]
  obtain ⟨headOff, found⟩ :
      ∃ offset, segment.offsets[scan.position - segment.basePosition]? = some offset :=
    ⟨_, List.getElem?_eq_getElem (by omega)⟩
  obtain ⟨frame, next, here, data, _, inFile, _⟩ := recorded.record_before found
  obtain ⟨bytesEnd, after, ended, afterReads, reach, fits, endSmall⟩ :=
    on.windowEnd_eq recorded small reads found here
  have headLe := (recordAt_advances _ _ _ _ _ here).1
  have below : ∀ localPos offset, localPos ≤ scan.position - segment.basePosition →
      segment.offsets[localPos]? = some offset → offset ≤ bytesEnd := by
    intro localPos offset le found'
    have ordered := recorded.offset_mono found' found le
    omega
  obtain ⟨lo, loByte, extended, loLe, loFound⟩ : ∃ lo loByte,
      scan.extendDown segment (if scan.first > segment.basePosition then
        scan.first - segment.basePosition else 0) bytesEnd
        (scan.position - segment.basePosition) headOff = .ok (lo, loByte) ∧
      lo ≤ scan.position - segment.basePosition ∧ segment.offsets[lo]? = some loByte :=
    extendDown_eq found below
  have loByteLe := below lo loByte loLe loFound
  have whole : loByte + (bytesEnd - loByte) = bytesEnd := by omega
  have read := afterReads.readBytes_eq inFile (whole.le.trans fits) (whole.trans_lt endSmall)
  simp only [on.segment_eq, opened, unwrap_some, dataOffset_eq found, ended, extended,
    minus_eq loByteLe, read]
  refine ⟨_, lo, rfl, ?_, rfl, loLe, rfl, rfl, rfl, rfl, rfl, rfl⟩
  refine ⟨rfl, on.member, rfl, on.count_eq, on.flushed_eq, ⟨after, rfl, afterReads⟩, inside,
    fun lo' loaded => ?_⟩
  obtain rfl : lo = lo' := Option.some.inj loaded
  have width : (((scan.dir.read segment.basePosition).drop loByte).take
      (bytesEnd - loByte)).length = bytesEnd - loByte := by
    rw [List.length_take, List.length_drop]
    omega
  constructor
  · simp only [width]
  · intro localPos offset next' frame' above atMost found' here'
    simp only at atMost here' ⊢
    rw [width]
    have ending := recorded.next_mono found' found (by omega) here' here
    exact ⟨recorded.offset_mono loFound found' above, by omega⟩

/-- No segment is open, or the one that is does not end before the position. -/
def Near (crc : List UInt8 → UInt32) (scan : ScanBack σ) : Prop :=
  scan.reader = none ∨ ∃ segment, OnSegment crc scan segment

theorem ensureSegment_eq (intact : Intact crc scan.dir headerSize scan.source lists)
    (started : firstPosition ≤ scan.position) (inside : scan.position ≤ lists.flatten.length)
    (near : Near crc scan) :
    ∃ segment, OnSegment crc scan.ensureSegment segment ∧
      segment.basePosition ≤ scan.position ∧ Beside scan scan.ensureSegment := by
  rw [ensureSegment]
  by_cases stays : scan.reader.isSome = true ∧ scan.position ≥ scan.segBase
  · rw [if_pos stays]
    rcases near with closed | ⟨segment, on⟩
    · rw [closed] at stays
      cases stays.1
    · exact ⟨segment, on, on.base_eq ▸ stays.2, rfl, rfl, rfl, rfl, rfl, rfl⟩
  rw [if_neg stays]
  obtain ⟨idx, segment, offset, located, member, low, found, _⟩ := intact.locate_eq started inside
  have bound := (List.getElem?_eq_some_iff.mp found).1
  simp only [located]
  refine ⟨segment, ?_, low, rfl, rfl, rfl, rfl, rfl, rfl⟩
  exact ⟨rfl, member, rfl, rfl, rfl, ⟨_, rfl, Reader.reads_openSegment _ _⟩, by simp only; omega,
    nofun⟩

theorem next_eq (readable : Readable crc scan.dir headerSize scan.source lists)
    (started : firstPosition ≤ scan.first) (above : scan.first ≤ scan.position)
    (inside : scan.position ≤ lists.flatten.length) (near : Near crc scan)
    (clean : scan.pendingErr = none) (going : scan.done = false) :
    ∃ record after, lists.flatten[scan.position - firstPosition]? = some record ∧
      scan.next crc = (some (.ok (scan.position, record)), after) ∧ Near crc after ∧
      Beside { scan with position := scan.position - 1 } after := by
  rw [firstPosition] at started
  obtain ⟨segment, on, low, beside⟩ := ensureSegment_eq readable.toIntact
    (show firstPosition ≤ scan.position by rw [firstPosition]; omega) inside near
  have member := on.member
  rw [beside.source_eq] at member
  obtain ⟨records, recorded, _, aligned⟩ := readable.records_of_segment member
  have small := readable.small segment member
  have same := beside.position_eq
  obtain ⟨moved, lo, ensured, on', loaded, reached, beside'⟩ :=
    on.ensureWindow_eq (by rwa [beside.dir_eq]) small (same ▸ low)
  have same' := beside'.position_eq.trans same
  obtain ⟨record, here, parsed⟩ := on'.record_eq
    (by rwa [beside'.dir_eq, beside.dir_eq]) small (by rwa [same']) (by omega) loaded
    (by rw [same']; rwa [same] at reached)
  rw [same'] at here parsed
  refine ⟨record, { moved with position := scan.position - 1 }, ?_, ?_, .inr ⟨segment, ?_⟩, ?_⟩
  · have placed := aligned _ _ here
    rwa [show segment.basePosition + (scan.position - segment.basePosition) = scan.position
      by omega] at placed
  · have going' := beside.done_eq.trans going
    have notBelow : ¬ (scan.done = true ∨ scan.position < scan.first) := by
      simp only [going, Bool.false_eq_true, false_or]
      omega
    rw [next, clean]
    simp only [if_neg notBelow, going', Bool.false_eq_true, if_false, ensured, parsed, same']
  · have within := on'.inside
    refine ⟨on'.segment_eq, on'.member, on'.base_eq, on'.count_eq, on'.flushed_eq, on'.reader,
      by simp only; omega, fun lo' loaded' => ⟨(on'.window lo' loaded').slice, ?_⟩⟩
    intro localPos offset next frame above' atMost
    exact (on'.window lo' loaded').covers above' (by simp only at atMost; omega)
  · exact ⟨beside'.dir_eq.trans beside.dir_eq, beside'.source_eq.trans beside.source_eq,
      beside'.first_eq.trans beside.first_eq, rfl, beside'.pending_eq.trans beside.pending_eq,
      beside'.done_eq.trans beside.done_eq⟩

theorem next_ended (clean : scan.pendingErr = none)
    (ended : scan.done = true ∨ scan.position < scan.first) :
    scan.next crc = (none, { scan with done := true }) := by
  rw [next, clean]
  exact if_pos ended

/-- A backward scan yields as many records as it has positions down to its first one. -/
theorem yields_of_near {wanted : Nat}
    (readable : Readable crc scan.dir headerSize scan.source lists) (started : firstPosition ≤ scan.first) (counted : scan.position + 1 = scan.first + wanted)
    (inside : scan.position ≤ lists.flatten.length) (near : Near crc scan)
    (clean : scan.pendingErr = none) (going : scan.done = false) :
    Yields crc scan ((positioned scan.first
      ((lists.flatten.drop (scan.first - firstPosition)).take wanted)).reverse.map .ok) := by
  induction wanted generalizing scan with
  | zero => exact .ended (next_ended clean (.inr (by omega)))
  | succ wanted ih =>
      obtain ⟨record, after, placed, here, near', beside⟩ :=
        next_eq readable started (by omega) inside near clean going
      have last : (lists.flatten.drop (scan.first - firstPosition))[wanted]? = some record := by
        rw [List.getElem?_drop, ← placed]
        congr 1
        omega
      have bound := (List.getElem?_eq_some_iff.mp last).1
      rw [List.take_add_one, last, Option.toList_some, positioned_append, positioned_singleton,
        List.reverse_concat, List.map_cons, List.length_take, Nat.min_eq_left bound.le,
        show scan.first + wanted = scan.position by omega]
      have positive : 1 ≤ scan.first := started
      have readable' : Readable crc after.dir headerSize after.source lists := by
        rwa [beside.dir_eq, beside.source_eq]
      have rest := ih readable' (by rwa [beside.first_eq])
        (by rw [beside.position_eq, beside.first_eq]; simp only; omega)
        (by rw [beside.position_eq]; simp only; omega) near'
        (beside.pending_eq.trans clean) (beside.done_eq.trans going)
      rw [beside.first_eq] at rest
      exact .item here rest

/-- **A backward scan is the reverse of the forward scan.**  Over every range of the log and
with a window of any size it yields the records of the forward scan with their positions, from
the last one down, and then ends. -/
theorem reverses_scan {dir : Directory} {source : σ}
    (readable : Readable crc dir headerSize source lists) {first upto : Nat}
    (started : firstPosition ≤ first) (inside : upto ≤ lists.flatten.length) (windowBytes : Nat) :
    ∃ entries : List (Nat × List UInt8),
      Scan.Yields crc (.start dir headerSize source first upto) (entries.map .ok) ∧
      Yields crc (.startWithWindow dir source first upto windowBytes)
        (entries.reverse.map .ok) := by
  refine ⟨_, readable.start_yields started inside, ?_⟩
  by_cases empty : upto = 0 ∨ max first firstPosition > upto
  · rw [show upto + 1 - first = 0 by rw [firstPosition] at empty started; omega]
    exact .ended (next_ended rfl (.inl (decide_eq_true empty)))
  · have first' : max first firstPosition = first := Nat.max_eq_left started
    have counted : upto + 1 = max first firstPosition + (upto + 1 - first) := by omega
    have yields : Yields crc (startWithWindow dir source first upto windowBytes) _ :=
      yields_of_near readable (Nat.le_max_right _ _) counted inside (.inl rfl) rfl
        (decide_eq_false empty)
    simp only [startWithWindow, first'] at yields ⊢
    exact yields

/-- Three records in two segments, scanned backwards with a window of ten bytes. -/
theorem reverses_scan_rolled :
    ∃ dir set, (segments (σ := SegmentSet) set).length = 2 ∧
      ∃ entries : List (Nat × List UInt8),
        Scan.Yields crc32 (.start dir SegmentSet.smallConfig.headerSize set 1 3) (entries.map .ok) ∧
        Yields crc32 (.startWithWindow dir set 1 3 10) (entries.reverse.map .ok) := by
  have stands : (Histories.run (RolloverHistory.step crc32 SegmentSet.smallConfig) .initial
      [.reopen 0, .append 0 [] [[1, 2], [3]], .append 0 [] [List.replicate 20 9]]).any
        (fun world : RolloverHistory.World => decide ((world.dir.map Prod.fst).Nodup) &&
          (SegmentSet.openSet crc32 SegmentSet.smallConfig 0 world.dir).1.toOption.any fun set =>
            decide ((segments (σ := SegmentSet) set).length = 2 ∧ set.lastPosition = 3)) =
        true := by
    decide +kernel
  obtain ⟨world, _, stands⟩ := (Option.any_eq_true _ _).mp stands
  obtain ⟨distinct, stands⟩ := Bool.and_eq_true_iff.mp stands
  rcases opened : SegmentSet.openSet crc32 SegmentSet.smallConfig 0 world.dir with
    ⟨fault | set, after⟩
  · rw [opened] at stands
    cases stands
  rw [opened] at stands
  obtain ⟨two, last⟩ : (segments set).length = 2 ∧ set.lastPosition = 3 :=
    of_decide_eq_true stands
  obtain ⟨lists, readable, counted⟩ := readable_of_openSet (of_decide_eq_true distinct) opened
  exact ⟨after, set, two,
    reverses_scan readable (show firstPosition ≤ 1 by decide) (by rw [← counted, last]) 10⟩

end ScanBack

end Log

end Tephra
