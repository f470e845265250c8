import Tephra.Histories
import Tephra.RecordPeeking
import Tephra.WriterContent

/-!
# Sessions of a writer

A writer is used for appends, commits, syncs, rewinds and truncations, and is dropped and opened
again.  Beside it stands the list of the records that its operations have left: what a reader
should see below the flushed offset, and what should be recovered up to the last commit marker.
A truncation moves the write offset but not the cursor, so that the next record is written behind
the offset that its append returns.
-/

namespace Tephra

namespace Seglog

open ByteImage FrameChain Fallible

/-- An operation of the writer, or dropping it and opening the segment again. -/
inductive SessionCall (headerSize : Nat) where
  | append (header : FixedHeader headerSize) (data : List UInt8)
  | commit (highestPosition : UInt64)
  | sync
  | rewindTo (offset : Nat)
  | setLen (offset : Nat)
  | reopen

/-- An operation with the results of its system calls. -/
abbrev SessionStep (headerSize : Nat) := SessionCall headerSize × List IoOutcome

/-- A writer, and the records that were written and not discarded since. -/
structure Session where
  writer : Writer
  log : List (Nat × Frame)

variable {headerSize : Nat}

namespace Session

variable (crc : List UInt8 → UInt32)

/-- An operation that succeeds, with the results of its system calls.  A rewind must not go back
below the flushed offset, and a writer that is dropped flushes its buffer. -/
def step (state : Session) : SessionStep headerSize → Option Session
  | (.append header data, io) =>
      match Writer.append crc header.1 data (state.writer.withOutcomes io) with
      | (.ok (offset, _), writer) =>
          some ⟨writer, state.log ++ [(offset, ⟨false, header.1 ++ data⟩)]⟩
      | (.error _, _) => none
  | (.commit highestPosition, io) =>
      match Writer.commit crc highestPosition.toNat (state.writer.withOutcomes io) with
      | (.ok _, writer) =>
          some ⟨writer, state.log ++
            [(state.writer.writeOffset, ⟨true, markerPayload highestPosition.toNat⟩)]⟩
      | (.error _, _) => none
  | (.sync, io) =>
      match Writer.sync (state.writer.withOutcomes io) with
      | (.ok _, writer) => some { state with writer := writer }
      | (.error _, _) => none
  | (.rewindTo offset, io) =>
      if offset < state.writer.flushedOffset then
        none
      else
        match Writer.rewindTo offset (state.writer.withOutcomes io) with
        | (.ok _, writer) => some ⟨writer, entriesBefore offset state.log⟩
        | (.error _, _) => none
  | (.setLen offset, io) =>
      match Writer.setLen offset (state.writer.withOutcomes io) with
      | (.ok _, writer) => some ⟨writer, entriesBefore offset state.log⟩
      | (.error _, _) => none
  | (.reopen, io) =>
      match BufWriter.flushBuf (state.writer.withOutcomes io).writer with
      | (.ok _, dropped) =>
          match Writer.openSegment crc dropped.file state.writer.size state.writer.startOffset with
          | .ok writer => some ⟨writer, committedPart state.log⟩
          | .error _ => none
      | (.error _, _) => none

/-- The operations that keep offset and content in step.  No committed run stands behind the
bytes that are written, a rewind goes back to a record, and nothing is truncated. -/
def StepAllowed (state : Session) : SessionStep headerSize → Prop
  | (.append header data, _) =>
      Unmarked (recordAt crc state.writer.writer.content state.writer.size) IsMarker
        (state.writer.writeOffset + (recordBytes crc header.1 data).length)
  | (.commit highestPosition, _) =>
      Unmarked (recordAt crc state.writer.writer.content state.writer.size) IsMarker
        (state.writer.writeOffset + (markerBytes crc highestPosition.toNat).length)
  | (.sync, _) => True
  | (.rewindTo offset, _) =>
      state.writer.writeOffset ≤ offset ∨ ∃ entry ∈ state.log, entry.1 = offset
  | (.setLen offset, _) => state.writer.writeOffset ≤ offset
  | (.reopen, _) => True

/-- The bytes of the next record will stand at the offset that its append returns. -/
def Lands (writer : Writer) (header data : List UInt8) : Prop :=
  ∀ io io' offset length appended flushed after,
    Writer.append crc header data (writer.withOutcomes io) = (.ok (offset, length), appended) →
    Writer.sync (appended.withOutcomes io') = (.ok flushed, after) →
    readExact after.writer.file offset (recordBytes crc header data).length =
      some (recordBytes crc header data)

/-- Offset and content are in step. -/
structure InStep (headerSize size startOffset : Nat) (state : Session) : Prop where
  lands : ∀ (header : FixedHeader headerSize) (data : List UInt8),
    Lands crc state.writer header.1 data
  reads : ∀ (offset : Nat) (header : FixedHeader headerSize) (data : List UInt8),
    (offset, ⟨false, header.1 ++ data⟩) ∈ state.log → offset < state.writer.flushedOffset →
    let reader := Reader.openSegment state.writer.writer.file (some state.writer.flushedOffset)
    let record := ⟨header.1, data, offset, (recordBytes crc header.1 data).length⟩
    (reader.readRecord crc headerSize offset).1 = .ok record ∧
      reader.readRecordRandom crc headerSize offset = .ok record
  last_position : state.writer.lastPosition = lastMarkerPosition (committedPart state.log)
  reopens : ∀ io dropped,
    BufWriter.flushBuf (state.writer.withOutcomes io).writer = (.ok (), dropped) →
    ∃ reopened, Writer.openSegment crc dropped.file size startOffset = .ok reopened ∧
      Chain (recordAt crc dropped.file size) startOffset (committedPart state.log)
        reopened.writeOffset ∧
      reopened.flushedOffset = reopened.writeOffset ∧
      reopened.lastPosition = state.writer.lastPosition

variable {crc}

/-- The records below the flushed offset and those behind it, in the content of the writer. -/
structure Sound (crc : List UInt8 → UInt32) (size startOffset : Nat) (state : Session)
    (synced pending : List (Nat × Frame)) : Prop where
  log_eq : state.log = synced ++ pending
  size_eq : state.writer.size = size
  startOffset_eq : state.writer.startOffset = startOffset
  maxRecord_le : state.writer.maxRecord ≤ maxRecordLen
  position_eq : state.writer.writer.position = state.writer.writeOffset
  synced_chain : Chain (recordAt crc state.writer.writer.content size) startOffset synced
    state.writer.flushedOffset
  pending_chain : Chain (recordAt crc state.writer.writer.content size)
    state.writer.flushedOffset pending state.writer.writeOffset
  plain : ∀ entry ∈ pending, ¬ IsMarker entry.2
  behind : Unmarked (recordAt crc state.writer.writer.content size) IsMarker
    state.writer.writeOffset
  flushed_le : state.writer.flushedOffset ≤ state.writer.writer.cursor
  durable : state.writer.flushedOffset = startOffset ∨
    state.writer.flushedOffset ≤ state.writer.writer.file.length
  clean : state.writer.dirty = false →
    state.writer.writer.buf = [] ∧ state.writer.flushedOffset = state.writer.writeOffset
  last_position : state.writer.lastPosition = lastMarkerPosition (committedPart synced)

section Invariant

variable {size startOffset : Nat} {state next : Session} {synced pending : List (Nat × Frame)}

theorem Sound.committedPart_log (sound : Sound crc size startOffset state synced pending) :
    committedPart state.log = committedPart synced := by
  rw [sound.log_eq, committedPart_append_plain sound.plain]

theorem Sound.chain (sound : Sound crc size startOffset state synced pending) :
    Chain (recordAt crc state.writer.writer.content size) startOffset state.log
      state.writer.writeOffset := by
  rw [sound.log_eq]
  exact sound.synced_chain.append sound.pending_chain

theorem Sound.flushed_le_writeOffset (sound : Sound crc size startOffset state synced pending) :
    state.writer.flushedOffset ≤ state.writer.writeOffset :=
  (Nat.le_add_right _ _).trans (sound.pending_chain.le (recordAt_advances _ _))

/-- The committed part of the records is what recovery finds in the content. -/
theorem Sound.markedPrefix (sound : Sound crc size startOffset state synced pending) :
    ∃ stop, MarkedPrefix (recordAt crc state.writer.writer.content size) IsMarker startOffset
      (committedPart state.log) stop := by
  obtain ⟨tail, logEq, plain, ends⟩ := exists_pending state.log
  have whole := sound.chain
  rw [logEq] at whole
  obtain ⟨stop, front, back⟩ := whole.split
  exact ⟨stop, front, ends, unmarked_of_chain back plain sound.behind⟩

theorem sound_opened {file : List UInt8} {opened : Writer} {log : List (Nat × Frame)}
    (isOpened : Writer.openSegment crc file size startOffset = .ok opened)
    (recovered : MarkedPrefix (recordAt crc file size) IsMarker startOffset log
      opened.writeOffset) :
    Sound crc size startOffset ⟨opened, log⟩ log [] := by
  have found := recover_eq recovered
  unfold Writer.openSegment at isOpened
  split at isOpened
  · cases isOpened
  obtain rfl := Except.ok.inj isOpened
  exact {
    log_eq := (List.append_nil log).symm
    size_eq := rfl
    startOffset_eq := rfl
    maxRecord_le := Nat.min_le_right _ _
    position_eq := rfl
    synced_chain := recovered.chain
    pending_chain := .nil _
    plain := fun _ member => absurd member List.not_mem_nil
    behind := recovered.longest
    flushed_le := Nat.le_refl _
    durable := recovered.chain.stop_le (recordAt_inside file size)
    clean := fun _ => ⟨rfl, rfl⟩
    last_position := by
      rw [committedPart_of_ends recovered.ends]
      exact congrArg Recovered.lastPosition found }

theorem Sound.followed (sound : Sound crc size startOffset state synced pending)
    {after : BufWriter} {bytes : List UInt8} {frame : Frame}
    (sent : BufWriter.Sent state.writer.writer after bytes) (nonempty : bytes ≠ [])
    (decoded : ∀ image, readExact image state.writer.writeOffset bytes.length = some bytes →
      recordAt crc image size state.writer.writeOffset =
        some (frame, state.writer.writeOffset + bytes.length))
    (allowed : Unmarked (recordAt crc state.writer.writer.content state.writer.size) IsMarker
      (state.writer.writeOffset + bytes.length)) :
    Chain (recordAt crc after.content size) startOffset synced state.writer.flushedOffset ∧
      Chain (recordAt crc after.content size) state.writer.flushedOffset
        (pending ++ [(state.writer.writeOffset, frame)])
        (state.writer.writeOffset + bytes.length) ∧
      Unmarked (recordAt crc after.content size) IsMarker
        (state.writer.writeOffset + bytes.length) := by
  have contentEq := sent.content_eq
  rw [sound.position_eq] at contentEq
  rw [sound.size_eq] at allowed
  rw [contentEq]
  constructor
  · exact chain_writeAt bytes sound.synced_chain sound.flushed_le_writeOffset
  constructor
  · have here := decoded _ (readExact_writeAt_of_ne_nil state.writer.writer.content
      state.writer.writeOffset nonempty)
    exact (chain_writeAt bytes sound.pending_chain (Nat.le_refl _)).append (.single here)
  · exact unmarked_congr (agreeOn_writeAt_beyond _ bytes state.writer.writeOffset) allowed

theorem sound_append (nonzero : crc (LittleEndian.encode lenSize 0) ≠ 0)
    {header : FixedHeader headerSize} {data : List UInt8} {io : List IoOutcome}
    (sound : Sound crc size startOffset state synced pending)
    (allowed : StepAllowed crc state (.append header data, io))
    (taken : step crc state (.append header data, io) = some next) :
    ∃ pending', Sound crc size startOffset next synced pending' := by
  simp only [step] at taken
  split at taken
  case h_2 => cases taken
  next offset length writer result =>
  obtain rfl := Option.some.inj taken
  obtain ⟨short, fits⟩ := Writer.append_fits result
  obtain ⟨offsetEq, writerEq⟩ := Writer.append_ok result
  have sent := Writer.sent_of_withOutcomes (Writer.append_sent result)
  have representable : header.1.length + data.length ≤ maxRecordLen := by
    have limit := sound.maxRecord_le
    change recordHeadSize + header.1.length + data.length ≤ state.writer.maxRecord at short
    omega
  change state.writer.writeOffset + _ ≤ state.writer.size at fits
  rw [sound.size_eq] at fits
  obtain ⟨syncedChain, pendingChain, behind⟩ := sound.followed sent
    (recordBytes_ne_nil header.1 data)
    (fun image read => recordAt_recordBytes_of_checksum nonzero representable fits read) allowed
  rw [writerEq]
  refine ⟨pending ++ [(state.writer.writeOffset, Frame.mk false (header.1 ++ data))], {
    log_eq := ?_
    size_eq := sound.size_eq
    startOffset_eq := sound.startOffset_eq
    maxRecord_le := sound.maxRecord_le
    position_eq := ?_
    synced_chain := syncedChain
    pending_chain := pendingChain
    plain := ?_
    behind := behind
    flushed_le := sound.flushed_le.trans sent.cursor_le
    durable := sound.durable.imp_right fun inside => inside.trans sent.length_le
    clean := fun absurdClean => by cases absurdClean
    last_position := sound.last_position }⟩
  · change state.log ++ [(offset, _)] = _
    obtain rfl : offset = state.writer.writeOffset := offsetEq
    rw [sound.log_eq, List.append_assoc]
  · change writer.writer.position = state.writer.writeOffset + _
    rw [sent.position_eq, sound.position_eq]
  · intro entry member
    rcases List.mem_append.mp member with earlier | last
    · exact sound.plain entry earlier
    · obtain rfl := List.mem_singleton.mp last
      exact not_isMarker_data _

theorem sound_commit {highestPosition : UInt64} {io : List IoOutcome}
    (sound : Sound crc size startOffset state synced pending)
    (allowed : StepAllowed crc state
      ((.commit highestPosition, io) : SessionStep headerSize))
    (taken : step crc state ((.commit highestPosition, io) : SessionStep headerSize) =
      some next) :
    ∃ synced', Sound crc size startOffset next synced' [] := by
  simp only [step] at taken
  split at taken
  case h_2 => cases taken
  next outcome writer result =>
  obtain rfl := Option.some.inj taken
  have fits := Writer.commit_fits result
  obtain ⟨committed, empty, writerEq⟩ := Writer.commit_sent result
  have sent := Writer.sent_of_withOutcomes committed
  change state.writer.writeOffset + _ ≤ state.writer.size at fits
  rw [sound.size_eq] at fits
  obtain ⟨syncedChain, pendingChain, behind⟩ := sound.followed sent
    (markerBytes_ne_nil highestPosition.toNat)
    (fun image read => recordAt_markerBytes fits read) allowed
  have whole := syncedChain.append pendingChain
  have positionEq := sent.position_eq
  rw [BufWriter.position_of_empty empty, sound.position_eq] at positionEq
  have contentEq := BufWriter.content_of_empty empty
  have marker := isMarker_markerPayload highestPosition.toNat
  rw [writerEq]
  refine ⟨synced ++ (pending ++
    [(state.writer.writeOffset, Frame.mk true (markerPayload highestPosition.toNat))]), {
    log_eq := ?_
    size_eq := sound.size_eq
    startOffset_eq := sound.startOffset_eq
    maxRecord_le := sound.maxRecord_le
    position_eq := ?_
    synced_chain := whole
    pending_chain := .nil _
    plain := fun _ member => absurd member List.not_mem_nil
    behind := behind
    flushed_le := positionEq.ge
    durable := ?_
    clean := fun _ => ⟨empty, rfl⟩
    last_position := ?_ }⟩
  · change state.log ++ _ = _
    rw [sound.log_eq, List.append_assoc, List.append_nil]
  · change writer.writer.position = state.writer.writeOffset + _
    rw [sent.position_eq, sound.position_eq]
  · rw [contentEq] at whole
    exact whole.stop_le (recordAt_inside _ size)
  · rw [← List.append_assoc, committedPart_of_ends (.inr ⟨_, _, rfl, marker⟩)]
    change some highestPosition.toNat = _
    rw [lastMarkerPosition, List.getLast?_append, List.getLast?_singleton]
    change _ = some (Frame.markerPosition ⟨true, _⟩)
    rw [markerPosition_markerPayload highestPosition.toNat_lt]

/-- A sync leaves all of the content in the file, whether or not the writer was dirty. -/
theorem Sound.sync_content (sound : Sound crc size startOffset state synced pending)
    {io : List IoOutcome} {outcome : Nat} {after : Writer}
    (result : Writer.sync (state.writer.withOutcomes io) = (.ok outcome, after)) :
    after.writer.buf = [] ∧ after.writer.file = state.writer.writer.content ∧
      after.writer.cursor = state.writer.writeOffset ∧ after.size = state.writer.size ∧
      after.maxRecord = state.writer.maxRecord := by
  cases dirty : state.writer.dirty with
  | false =>
      have unchanged : Writer.sync (state.writer.withOutcomes io) = (.ok _, _) :=
        Writer.sync_of_clean dirty
      obtain rfl := congrArg Prod.snd (unchanged.symm.trans result)
      obtain ⟨empty, _⟩ := sound.clean dirty
      have positionEq := sound.position_eq
      rw [BufWriter.position_of_empty empty] at positionEq
      exact ⟨empty, (BufWriter.content_of_empty empty).symm, positionEq, rfl, rfl⟩
  | true =>
      have dirty' : (state.writer.withOutcomes io).dirty = true := dirty
      obtain ⟨flushed, empty, afterEq⟩ := Writer.sync_sent dirty' result
      have sent := Writer.sent_of_withOutcomes flushed
      have fileEq := sent.content_eq
      have cursorEq := sent.position_eq
      rw [BufWriter.content_of_empty empty, writeAt_nil] at fileEq
      rw [BufWriter.position_of_empty empty, sound.position_eq] at cursorEq
      refine ⟨empty, fileEq, cursorEq, ?_, ?_⟩
      · rw [afterEq]
        rfl
      · rw [afterEq]
        rfl

theorem sound_sync {io : List IoOutcome}
    (sound : Sound crc size startOffset state synced pending)
    (taken : step crc state ((.sync, io) : SessionStep headerSize) = some next) :
    ∃ synced' pending', Sound crc size startOffset next synced' pending' := by
  simp only [step] at taken
  split at taken
  case h_2 => cases taken
  next outcome writer result =>
  obtain rfl := Option.some.inj taken
  cases dirty : state.writer.dirty with
  | false =>
      have unchanged : Writer.sync (state.writer.withOutcomes io) = (.ok _, _) :=
        Writer.sync_of_clean dirty
      obtain rfl := congrArg Prod.snd (unchanged.symm.trans result)
      exact ⟨synced, pending, { sound with }⟩
  | true =>
      have dirty' : (state.writer.withOutcomes io).dirty = true := dirty
      obtain ⟨_, _, writerEq⟩ := Writer.sync_sent dirty' result
      obtain ⟨empty, fileEq, cursorEq, _⟩ := sound.sync_content result
      have contentEq : writer.writer.content = state.writer.writer.content := by
        rw [BufWriter.content_of_empty empty, fileEq]
      have positionEq : writer.writer.position = state.writer.writeOffset := by
        rw [BufWriter.position_of_empty empty, cursorEq]
      have whole := sound.chain
      have behind := sound.behind
      rw [← contentEq] at whole behind
      rw [writerEq]
      refine ⟨state.log, [], {
        log_eq := (List.append_nil _).symm
        size_eq := sound.size_eq
        startOffset_eq := sound.startOffset_eq
        maxRecord_le := sound.maxRecord_le
        position_eq := positionEq
        synced_chain := whole
        pending_chain := .nil _
        plain := fun _ member => absurd member List.not_mem_nil
        behind := behind
        flushed_le := ?_
        durable := ?_
        clean := fun _ => ⟨empty, rfl⟩
        last_position := ?_ }⟩
      · exact cursorEq.ge
      · rw [BufWriter.content_of_empty empty] at whole
        exact whole.stop_le (recordAt_inside _ size)
      · rw [sound.committedPart_log]
        exact sound.last_position

/-- A rewind to a record discards it and those behind it, none of which is a marker. -/
theorem sound_rewindTo {offset : Nat} {io : List IoOutcome}
    (sound : Sound crc size startOffset state synced pending)
    (allowed : StepAllowed crc state
      ((.rewindTo offset, io) : SessionStep headerSize))
    (taken : step crc state ((.rewindTo offset, io) : SessionStep headerSize) =
      some next) :
    ∃ pending', Sound crc size startOffset next synced pending' := by
  simp only [step] at taken
  split at taken
  · cases taken
  next above =>
  split at taken
  case h_2 => cases taken
  next writer result =>
  obtain rfl := Option.some.inj taken
  rcases Writer.rewindTo_ok result with ⟨stays, rfl⟩ | ⟨back, fileEq, cursorEq, empty, writerEq⟩
  · have same : entriesBefore offset state.log = state.log :=
      entriesBefore_of_le (recordAt_advances _ _) sound.chain stays
    rw [same]
    exact ⟨pending, { sound with }⟩
  change offset < state.writer.writeOffset at back
  obtain ⟨entry, member, rfl⟩ := allowed.resolve_left (Nat.not_le_of_lt back)
  have isPending : entry ∈ pending := by
    rw [sound.log_eq] at member
    refine (List.mem_append.mp member).resolve_left fun earlier => above ?_
    exact (sound.synced_chain.mem_bounds (recordAt_advances _ _) earlier).2
  obtain ⟨before, after, rfl⟩ := List.append_of_mem isPending
  obtain ⟨middle, front, back⟩ := sound.pending_chain.split
  obtain ⟨rfl, _⟩ := chain_cons_iff.mp back
  have logEq : entriesBefore entry.1 state.log = synced ++ before := by
    have chain := sound.chain
    rw [sound.log_eq, ← List.append_assoc] at chain ⊢
    exact entriesBefore_of_chain (recordAt_advances _ _) chain
  have contentEq : writer.writer.content = state.writer.writer.content := by
    rw [BufWriter.content_of_empty empty, fileEq]
    rfl
  have behind : Unmarked (recordAt crc state.writer.writer.content size) IsMarker entry.1 :=
    unmarked_of_chain back (fun other later => sound.plain other (by simp [later])) sound.behind
  have syncedChain := sound.synced_chain
  rw [← contentEq] at syncedChain front behind
  rw [writerEq, logEq]
  refine ⟨before, {
    log_eq := rfl
    size_eq := sound.size_eq
    startOffset_eq := sound.startOffset_eq
    maxRecord_le := sound.maxRecord_le
    position_eq := ?_
    synced_chain := syncedChain
    pending_chain := front
    plain := fun other earlier => sound.plain other (by simp [earlier])
    behind := behind
    flushed_le := ?_
    durable := ?_
    clean := ?_
    last_position := sound.last_position }⟩
  · change writer.writer.position = entry.1
    rw [BufWriter.position_of_empty empty, cursorEq]
  · change state.writer.flushedOffset ≤ writer.writer.cursor
    rw [cursorEq]
    exact Nat.le_of_not_lt above
  · rw [BufWriter.content_of_empty empty] at syncedChain
    exact syncedChain.stop_le (recordAt_inside _ size)
  · intro clean
    have reached : ¬ entry.1 > state.writer.flushedOffset := of_decide_eq_false clean
    exact ⟨empty, Nat.le_antisymm (Nat.le_of_not_lt above) (Nat.le_of_not_lt reached)⟩

theorem sound_setLen {offset : Nat} {io : List IoOutcome}
    (sound : Sound crc size startOffset state synced pending)
    (allowed : StepAllowed crc state ((.setLen offset, io) : SessionStep headerSize))
    (taken : step crc state ((.setLen offset, io) : SessionStep headerSize) = some next) :
    Sound crc size startOffset next synced pending := by
  have same : entriesBefore offset state.log = state.log :=
    entriesBefore_of_le (recordAt_advances _ _) sound.chain allowed
  have stays : Writer.setLen offset (state.writer.withOutcomes io) = (.ok (), _) :=
    Writer.setLen_of_le allowed
  simp only [step, stays, same] at taken
  obtain rfl := Option.some.inj taken
  exact { sound with }

/-- A writer that is dropped and opened again finds the committed records. -/
theorem Sound.reopened (sound : Sound crc size startOffset state synced pending)
    {io : List IoOutcome} {dropped : BufWriter}
    (flushed : BufWriter.flushBuf (state.writer.withOutcomes io).writer = (.ok (), dropped)) :
    ∃ stop, MarkedPrefix (recordAt crc dropped.file size) IsMarker startOffset
      (committedPart state.log) stop := by
  obtain ⟨sent, empty⟩ := BufWriter.flushBuf_sent flushed
  have fileEq := (Writer.sent_of_withOutcomes sent).content_eq
  rw [BufWriter.content_of_empty empty, writeAt_nil] at fileEq
  rw [fileEq]
  exact sound.markedPrefix

theorem writeOffset_of_openSegment {file : List UInt8} {opened : Writer} {stop : Nat}
    {log : List (Nat × Frame)}
    (isOpened : Writer.openSegment crc file size startOffset = .ok opened)
    (recovered : MarkedPrefix (recordAt crc file size) IsMarker startOffset log stop) :
    opened.writeOffset = stop ∧ opened.flushedOffset = stop ∧
      opened.lastPosition = lastMarkerPosition log := by
  have found := recover_eq recovered
  unfold Writer.openSegment at isOpened
  split at isOpened
  · cases isOpened
  obtain rfl := Except.ok.inj isOpened
  have stopEq := congrArg Recovered.committedOffset found
  exact ⟨stopEq, stopEq, congrArg Recovered.lastPosition found⟩

theorem sound_reopen {io : List IoOutcome}
    (sound : Sound crc size startOffset state synced pending)
    (taken : step crc state ((.reopen, io) : SessionStep headerSize) = some next) :
    Sound crc size startOffset next (committedPart state.log) [] := by
  simp only [step] at taken
  split at taken
  case h_2 => cases taken
  next dropped flushed =>
  split at taken
  case h_2 => cases taken
  next opened isOpened =>
  obtain rfl := Option.some.inj taken
  rw [sound.size_eq, sound.startOffset_eq] at isOpened
  obtain ⟨stop, recovered⟩ := sound.reopened flushed
  obtain ⟨rfl, _⟩ := writeOffset_of_openSegment isOpened recovered
  exact sound_opened isOpened recovered

/-- The operations that are allowed keep the records in their places. -/
theorem sound_step (nonzero : crc (LittleEndian.encode lenSize 0) ≠ 0) (state : Session)
    (label : SessionStep headerSize) (next : Session)
    (sound : ∃ synced pending, Sound crc size startOffset state synced pending)
    (allowed : StepAllowed crc state label) (taken : step crc state label = some next) :
    ∃ synced pending, Sound crc size startOffset next synced pending := by
  obtain ⟨synced, pending, sound⟩ := sound
  obtain ⟨call, io⟩ := label
  cases call with
  | append header data => exact ⟨synced, sound_append nonzero sound allowed taken⟩
  | commit highestPosition =>
      obtain ⟨synced', after⟩ := sound_commit sound allowed taken
      exact ⟨synced', [], after⟩
  | sync => exact sound_sync sound taken
  | rewindTo offset => exact ⟨synced, sound_rewindTo sound allowed taken⟩
  | setLen offset => exact ⟨synced, pending, sound_setLen sound allowed taken⟩
  | reopen => exact ⟨_, [], sound_reopen sound taken⟩

theorem Sound.lands (sound : Sound crc size startOffset state synced pending)
    (header data : List UInt8) : Lands crc state.writer header data := by
  intro io io' offset length appended flushed after appendResult syncResult
  obtain ⟨offsetEq, _⟩ := Writer.append_ok appendResult
  obtain rfl : offset = state.writer.writeOffset := offsetEq
  rw [Writer.append_sync_file appendResult syncResult, sound.position_eq]
  exact readExact_writeAt_of_ne_nil _ _ (recordBytes_ne_nil header data)

theorem Sound.recordAt_flushed (sound : Sound crc size startOffset state synced pending)
    {offset : Nat} {frame : Frame} (member : (offset, frame) ∈ state.log)
    (below : offset < state.writer.flushedOffset) :
    state.writer.flushedOffset ≤ state.writer.writer.file.length ∧
      ∃ next, recordAt crc state.writer.writer.file state.writer.flushedOffset offset =
        some (frame, next) := by
  have isSynced : (offset, frame) ∈ synced := by
    rw [sound.log_eq] at member
    refine (List.mem_append.mp member).resolve_right fun later => ?_
    have behind := (sound.pending_chain.mem_bounds (recordAt_advances _ _) later).1
    exact absurd below (Nat.not_lt_of_le behind)
  have bounds := sound.synced_chain.mem_bounds (recordAt_advances _ _) isSynced
  have inside := sound.durable.resolve_left fun fresh => by omega
  obtain ⟨next, nextLe, here⟩ := sound.synced_chain.decode_of_mem (recordAt_advances _ _) isSynced
  constructor
  · exact inside
  · have written : AgreeOn state.writer.writer.content state.writer.writer.file offset next :=
      agreeOn_writeAt_before (nextLe.trans sound.flushed_le) (nextLe.trans inside) offset
    exact ⟨next, recordAt_congr here written nextLe⟩

theorem Sound.inStep (sound : Sound crc size startOffset state synced pending)
    (room : startOffset < size) : state.InStep crc headerSize size startOffset where
  lands header data := sound.lands header.1 data
  reads offset header data member below := by
    obtain ⟨inside, next, here⟩ := sound.recordAt_flushed member below
    have reads := Reader.reads_openSegment state.writer.writer.file
      (some state.writer.flushedOffset)
    have headerLength := header.2
    have headerFits : headerSize ≤ (header.1 ++ data).length := by
      rw [List.length_append, headerLength]
      exact Nat.le_add_right _ _
    obtain ⟨reader, sequential, _⟩ := Reader.readRecord_data reads here rfl headerFits
    have random := Reader.readRecordRandom_data reads inside here rfl headerFits
    have recordEq : (⟨(header.1 ++ data).take headerSize, (header.1 ++ data).drop headerSize,
        offset, Frame.totalLen ⟨false, header.1 ++ data⟩⟩ : Record) =
          ⟨header.1, data, offset, (recordBytes crc header.1 data).length⟩ := by
      simp [Frame.totalLen, List.take_left' headerLength, List.drop_left' headerLength]
    rw [recordEq] at sequential random
    exact ⟨congrArg Prod.fst sequential, random⟩
  last_position := by rw [sound.committedPart_log, sound.last_position]
  reopens io dropped flushed := by
    obtain ⟨stop, recovered⟩ := sound.reopened flushed
    obtain ⟨opened, isOpened, _⟩ := Writer.openSegment_ok crc room dropped.file
    obtain ⟨rfl, flushedEq, positionEq⟩ := writeOffset_of_openSegment isOpened recovered
    refine ⟨opened, isOpened, recovered.chain, flushedEq, ?_⟩
    rw [positionEq, sound.committedPart_log, sound.last_position]

end Invariant

/-- In every session that starts with an opened segment and whose operations are allowed, offset
and content stay in step. -/
theorem run_inStep (nonzero : crc (LittleEndian.encode lenSize 0) ≠ 0) {file : List UInt8}
    {size startOffset : Nat} {opened : Writer} {log : List (Nat × Frame)}
    (isOpened : Writer.openSegment crc file size startOffset = .ok opened)
    (recovered : MarkedPrefix (recordAt crc file size) IsMarker startOffset log
      opened.writeOffset)
    {calls : List (SessionStep headerSize)} {last : Session}
    (allowed : Histories.Allowed (step crc) (StepAllowed crc) ⟨opened, log⟩ calls)
    (ran : Histories.run (step crc) ⟨opened, log⟩ calls = some last) :
    last.InStep crc headerSize size startOffset := by
  have room : startOffset < size := by
    unfold Writer.openSegment at isOpened
    split at isOpened
    · cases isOpened
    · omega
  have start : ∃ synced pending, Sound crc size startOffset ⟨opened, log⟩ synced pending :=
    ⟨log, [], sound_opened isOpened recovered⟩
  obtain ⟨synced, pending, sound⟩ :=
    Histories.invariant_of_run (sound_step nonzero) start allowed ran
  exact sound.inStep room

/-- The header of records without one. -/
def noHeader : FixedHeader 0 := ⟨[], List.length_nil⟩

/-- A record is appended, discarded, and followed by another one at its offset. -/
def discardedCalls : List (SessionStep 0) :=
  [(.append noHeader [1], []), (.rewindTo 64, []), (.append noHeader [2], [])]

theorem run_inStep_discarded :
    ∃ last, Histories.run (step crc32) ⟨Writer.created (List.replicate 200 0) 200 64, []⟩
        discardedCalls = some last ∧
      last.log = [(64, ⟨false, [2]⟩)] ∧ last.InStep crc32 0 200 64 := by
  have zero : ZeroFrom (List.replicate 200 0) 64 := zeroFrom_replicate 200 64
  have ran : (Histories.run (step crc32)
      ⟨Writer.created (List.replicate 200 0) 200 64, []⟩ discardedCalls).any
        (fun last => decide (last.log = [(64, ⟨false, [2]⟩)])) = true := by
    decide +kernel
  obtain ⟨last, reached, logEq⟩ := (Option.any_eq_true _ _).mp ran
  refine ⟨last, reached, of_decide_eq_true logEq,
    run_inStep (by decide +kernel) (Writer.openSegment_zeros crc32 (by decide) zero)
      ⟨.nil _, .inl rfl, zero.unmarked⟩ ?_ reached⟩
  refine ⟨(zero.mono (by decide)).unmarked, fun first firstTaken => ⟨.inr ?_,
    fun second secondTaken => ⟨unmarked_of_decode_none ?_, fun _ _ => trivial⟩⟩⟩
  · have listed : (step crc32 ⟨Writer.created (List.replicate 200 0) 200 64, []⟩
        ((.append noHeader [1], []) : SessionStep 0)).all
          (fun first => decide (∃ entry ∈ first.log, entry.1 = 64)) = true := by
      decide +kernel
    rw [firstTaken] at listed
    exact of_decide_eq_true listed
  · have stuck : ((step crc32 ⟨Writer.created (List.replicate 200 0) 200 64, []⟩
        ((.append noHeader [1], []) : SessionStep 0)).bind fun first =>
          step crc32 first ((.rewindTo 64, []) : SessionStep 0)).all
            (fun second => decide (recordAt crc32 second.writer.writer.content
              second.writer.size (second.writer.writeOffset +
                (recordBytes crc32 [] [2]).length) = none)) = true := by
      decide +kernel
    rw [firstTaken, Option.bind_some, secondTaken] at stuck
    exact of_decide_eq_true stuck

/-- After a truncation to a record, no record stands at the offset its append returns. -/
theorem setLen_misplaces (nonzero : crc (LittleEndian.encode lenSize 0) ≠ 0)
    {size startOffset : Nat} {state : Session} {synced pending : List (Nat × Frame)}
    (sound : Sound crc size startOffset state synced pending) {entry : Nat × Frame}
    (member : entry ∈ state.log) {io io' io'' : List IoOutcome}
    {truncated appended after : Writer} {header data : List UInt8} {outcome : Nat × Nat}
    {flushed : Nat}
    (cut : Writer.setLen entry.1 (state.writer.withOutcomes io) = (.ok (), truncated))
    (appendResult : Writer.append crc header data (truncated.withOutcomes io') =
      (.ok outcome, appended))
    (syncResult : Writer.sync (appended.withOutcomes io'') = (.ok flushed, after)) :
    readExact after.writer.file outcome.1 (recordBytes crc header data).length ≠
      some (recordBytes crc header data) := by
  have advances : Advances (recordAt crc state.writer.writer.content size) size :=
    recordAt_advances _ _
  have back : entry.1 < (state.writer.withOutcomes io).writeOffset :=
    (sound.chain.mem_bounds advances member).2
  obtain ⟨next, nextLe, here⟩ := sound.chain.decode_of_mem advances member
  have inside := (next_le_of_recordAt here).2
  have nextEq := next_of_recordAt here
  rw [Frame.totalLen] at nextEq
  -- The cursor stays behind the bytes that the truncation synced.
  obtain ⟨_, cleaned, outcomes, cleaning, truncatedEq⟩ := Writer.setLen_ok back cut
  obtain ⟨empty, fileEq, cursorEq, sizeEq, maxRecordEq⟩ := sound.sync_content cleaning
  have emptied : truncated.writer.buf = [] := by
    rw [truncatedEq]
    exact empty
  have contentEq : truncated.writer.content =
      writeAt state.writer.writer.content entry.1 (List.replicate recordHeadSize 0) := by
    rw [BufWriter.content_of_empty emptied, truncatedEq, ← fileEq]
  have positionEq : truncated.writer.position = state.writer.writeOffset := by
    rw [BufWriter.position_of_empty emptied, truncatedEq]
    exact cursorEq
  obtain ⟨short, fits⟩ := Writer.append_fits appendResult
  obtain ⟨offsetEq, _⟩ := Writer.append_ok appendResult
  have offsetEq : outcome.1 = entry.1 := by
    rw [offsetEq, truncatedEq]
    rfl
  have limit := sound.maxRecord_le
  have representable : header.length + data.length ≤ maxRecordLen := by
    rw [← maxRecordEq] at limit
    rw [truncatedEq] at short
    change recordHeadSize + header.length + data.length ≤ cleaned.maxRecord at short
    omega
  rw [truncatedEq] at fits
  rw [Writer.append_sync_file appendResult syncResult, contentEq, positionEq, offsetEq]
  exact zeroed_head_is_no_record nonzero representable fits (by omega) (by omega)

/-- A truncation to the first record, and a record behind it. -/
def truncatedCalls : List (SessionStep 0) :=
  [(.append noHeader [1], []), (.commit 1, []), (.setLen 64, []), (.append noHeader [2], []),
    (.sync, [])]

theorem truncation_hides_next_record :
    ∃ opened last, Writer.openSegment crc32 (List.replicate 200 0) 200 64 = .ok opened ∧
      Histories.run (step crc32) ⟨opened, []⟩ truncatedCalls = some last ∧
      ¬ last.InStep crc32 0 200 64 := by
  have ran : (Histories.run (step crc32)
      ⟨Writer.created (List.replicate 200 0) 200 64, []⟩ truncatedCalls).any
        (fun last => decide (last.log = [(64, ⟨false, [2]⟩)] ∧ 64 < last.writer.flushedOffset ∧
          (Reader.openSegment last.writer.writer.file
            (some last.writer.flushedOffset)).readRecordRandom crc32 0 64 =
              .error (.error (.truncationMarker 64)))) = true := by
    decide +kernel
  obtain ⟨last, reached, found⟩ := (Option.any_eq_true _ _).mp ran
  obtain ⟨logEq, below, missed⟩ := of_decide_eq_true found
  refine ⟨_, last, Writer.openSegment_zeros crc32 (by decide) (zeroFrom_replicate _ _), reached,
    fun inStep => ?_⟩
  have listed : (64, ⟨false, [] ++ [2]⟩) ∈ last.log := by
    rw [logEq]
    exact List.mem_singleton_self _
  have seen := (inStep.reads 64 noHeader [2] listed below).2
  rw [missed] at seen
  cases seen

end Session

end Seglog

end Tephra
