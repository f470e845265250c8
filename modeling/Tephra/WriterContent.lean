import Mathlib.Data.List.DropRight
import Tephra.LiveReading
import Tephra.RewoundWriter

/-!
# The content of a writer

A part of what a writer was handed stands in its file, and the rest in its buffer.  Together they
are the content, which an operation changes at one place only: the position behind the bytes sent
so far.  The last part of this file is about the committed part of a list of records.
-/

namespace ByteImage

theorem readExact_writeAt_of_ne_nil (image : List UInt8) {bytes : List UInt8} (offset : Nat)
    (nonempty : bytes ≠ []) :
    readExact (writeAt image offset bytes) offset bytes.length = some bytes := by
  have fits : offset + bytes.length ≤ (writeAt image offset bytes).length := by
    rw [length_writeAt nonempty]
    omega
  rw [readExact_eq_some_iff_getElem? fits]
  refine ⟨rfl, fun index indexLt => ?_⟩
  rw [getElem?_writeAt_of_ne_nil nonempty, if_neg (by omega), if_pos (by omega)]
  congr 1
  omega

end ByteImage

namespace FrameChain

variable {Item : Type*} {decode : Decoder Item} {marked : Item → Prop}

/-- Unmarked items may precede an offset without a marked chain. -/
theorem unmarked_of_chain {start stop : Nat} {items : List (Nat × Item)}
    (chain : Chain decode start items stop) (plain : ∀ entry ∈ items, ¬ marked entry.2)
    (later : Unmarked decode marked stop) : Unmarked decode marked start := by
  induction chain with
  | nil _ => exact later
  | cons here _ ih =>
      refine unmarked_of_next here (plain _ List.mem_cons_self) (ih ?_ later)
      exact fun entry member => plain entry (List.mem_cons_of_mem _ member)

end FrameChain

namespace Tephra

namespace Seglog

open ByteImage FrameChain Fallible

variable {crc : List UInt8 → UInt32}

theorem chain_writeAt {image : List UInt8} {size start stop offset : Nat}
    {entries : List (Nat × Frame)} (bytes : List UInt8)
    (chain : Chain (recordAt crc image size) start entries stop) (behind : stop ≤ offset) :
    Chain (recordAt crc (writeAt image offset bytes) size) start entries stop := by
  cases entries with
  | nil =>
      obtain rfl := chain_nil_iff.mp chain
      exact .nil start
  | cons entry entries =>
      have longer := chain.le (recordAt_advances image size)
      rw [List.length_cons] at longer
      have inside : stop ≤ image.length := by
        have bound := chain.stop_le (recordAt_inside image size)
        omega
      have fits : stop ≤ size := by
        have bound := chain.stop_le (recordAt_advances image size)
        omega
      exact chain_congr chain (agreeOn_writeAt_before behind inside start).symm fits

theorem recordBytes_ne_nil (header data : List UInt8) : recordBytes crc header data ≠ [] := by
  intro empty
  have lengthEq : (recordBytes crc header data).length = _ := length_recordBytes header data
  rw [empty, List.length_nil] at lengthEq
  simp only [recordHeadSize, lenSize, crc32cSize] at lengthEq
  omega

theorem markerBytes_ne_nil (position : Nat) : markerBytes crc position ≠ [] := by
  intro empty
  have lengthEq : (markerBytes crc position).length = _ := length_markerBytes position
  rw [empty, List.length_nil] at lengthEq
  simp only [recordHeadSize, lenSize, crc32cSize] at lengthEq
  omega

/-- A head of zeros is no record, whatever is written behind it. -/
theorem zeroed_head_is_no_record (nonzero : crc (LittleEndian.encode lenSize 0) ≠ 0)
    {image bytes header data : List UInt8} {size offset behind : Nat}
    (short : header.length + data.length ≤ maxRecordLen)
    (fits : offset + (recordBytes crc header data).length ≤ size)
    (headBelow : offset + recordHeadSize ≤ behind)
    (inside : offset + recordHeadSize ≤ image.length) :
    readExact (writeAt (writeAt image offset (List.replicate recordHeadSize 0)) behind bytes)
        offset (recordBytes crc header data).length ≠ some (recordBytes crc header data) := by
  intro found
  have zeroed := readExact_writeAt_self (List.replicate recordHeadSize (0 : UInt8))
    ((Nat.le_add_right offset recordHeadSize).trans inside)
  rw [List.length_replicate] at zeroed
  have grown := inside.trans (length_le_writeAt image (List.replicate recordHeadSize 0) offset)
  have kept := readExact_congr zeroed (agreeOn_writeAt_before headBelow grown offset).symm
    (grown.trans (length_le_writeAt _ bytes behind))
  obtain ⟨head, headRead, notEnd, _⟩ :=
    recordAt_eq_some_iff.mp (recordAt_recordBytes_of_checksum nonzero short fits found)
  obtain rfl := Option.some.inj (kept.symm.trans headRead)
  exact absurd notEnd (by decide)

namespace BufWriter

/-- The file as it will be when the buffer is flushed. -/
def content (self : BufWriter) : List UInt8 :=
  writeAt self.file self.cursor self.buf

/-- Where the next bytes go. -/
def position (self : BufWriter) : Nat :=
  self.cursor + self.buf.length

theorem content_of_empty {self : BufWriter} (empty : self.buf = []) :
    self.content = self.file := by
  rw [content, empty, writeAt_nil]

theorem position_of_empty {self : BufWriter} (empty : self.buf = []) :
    self.position = self.cursor := by
  rw [position, empty, List.length_nil, Nat.add_zero]

theorem Streams.content_eq {writer : BufWriter} {image sent : List UInt8} {start : Nat}
    (streams : Streams writer image start sent) : writer.content = writeAt image start sent := by
  obtain ⟨written, writtenLe, fileEq, cursorEq, bufEq⟩ := streams
  have takenLength : (sent.take written).length = written := by simp [writtenLe]
  have adjacent := writeAt_writeAt_adjacent image (sent.take written) (sent.drop written) start
  rw [takenLength, List.take_append_drop] at adjacent
  rw [content, fileEq, cursorEq, bufEq, adjacent]

/-- Bytes were sent to the content at its position, and what stands in the file stays. -/
structure Sent (before after : BufWriter) (bytes : List UInt8) : Prop where
  content_eq : after.content = writeAt before.content before.position bytes
  position_eq : after.position = before.position + bytes.length
  cursor_le : before.cursor ≤ after.cursor
  length_le : before.file.length ≤ after.file.length

theorem Streams.sent {before after : BufWriter} {bytes : List UInt8}
    (streams : Streams after before.file before.cursor (before.buf ++ bytes)) :
    Sent before after bytes where
  content_eq := by
    rw [streams.content_eq, content, position, writeAt_writeAt_adjacent]
  position_eq := by
    have total := streams.length_sent
    rw [List.length_append] at total
    rw [position, total, position, Nat.add_assoc]
  cursor_le := by
    obtain ⟨_, _, _, cursorEq, _⟩ := streams
    omega
  length_le := by
    obtain ⟨_, _, fileEq, _⟩ := streams
    rw [fileEq]
    exact length_le_writeAt _ _ _

theorem Sent.trans {before middle after : BufWriter} {first second : List UInt8}
    (left : Sent before middle first) (right : Sent middle after second) :
    Sent before after (first ++ second) where
  content_eq := by
    rw [right.content_eq, left.content_eq, left.position_eq, writeAt_writeAt_adjacent]
  position_eq := by
    rw [right.position_eq, left.position_eq, List.length_append, Nat.add_assoc]
  cursor_le := left.cursor_le.trans right.cursor_le
  length_le := left.length_le.trans right.length_le

theorem flushBuf_sent {self after : BufWriter} (result : flushBuf self = (.ok (), after)) :
    Sent self after [] ∧ after.buf = [] := by
  have flushed := flushBuf_streams self.streams_self
  rw [result] at flushed
  constructor
  · refine Streams.sent ?_
    rw [List.append_nil]
    exact flushed.1
  · exact flushed.2.mp rfl

/-- Write to the file at an offset, past the buffer and the cursor. -/
def writeAllAt (bytes : List UInt8) (offset : Nat) : Op BufWriter WriteError Unit := fun self =>
  match self.outcomes.headD .ok with
  | .ok =>
      (.ok (), { self with
        file := writeAt self.file offset bytes
        outcomes := self.outcomes.tail })
  | .fail written =>
      (.error .io, { self with
        file := writeAt self.file offset (bytes.take (min written (bytes.length - 1)))
        outcomes := self.outcomes.tail })

end BufWriter

namespace Writer

/-- Truncate the segment: the bytes behind the offset begin with a head of zeros. -/
def setLen (offset : Nat) : Op Writer WriteError Unit := do
  let self ← Op.get
  if offset ≥ self.writeOffset then
    pure ()
  else do
    let _ ← sync
    Op.modify fun self => { self with flushedOffset := offset, writeOffset := offset }
    onFile (BufWriter.writeAllAt (List.replicate recordHeadSize 0) offset)
    onFile BufWriter.syncData

/-- The results of system calls to come do not matter to what is sent. -/
theorem sent_of_withOutcomes {self : Writer} {after : BufWriter} {bytes : List UInt8}
    {io : List IoOutcome} (sent : BufWriter.Sent (self.withOutcomes io).writer after bytes) :
    BufWriter.Sent self.writer after bytes :=
  ⟨sent.content_eq, sent.position_eq, sent.cursor_le, sent.length_le⟩

theorem append_sent {self after : Writer} {header data : List UInt8} {outcome : Nat × Nat}
    (result : append crc header data self = (.ok outcome, after)) :
    BufWriter.Sent self.writer after.writer (recordBytes crc header data) :=
  BufWriter.Streams.sent
    ((append_writes crc header data).streams_ok result self.writer.streams_self)

/-- A sync that finds the writer dirty puts the content into the file. -/
theorem sync_sent {self after : Writer} {outcome : Nat} (dirty : self.dirty = true)
    (result : sync self = (.ok outcome, after)) :
    BufWriter.Sent self.writer after.writer [] ∧ after.writer.buf = [] ∧
      after = { self with
        writer := after.writer
        flushedOffset := self.writeOffset
        dirty := false } := by
  obtain ⟨streams, _⟩ := sync_streams self.writer.streams_self
  obtain ⟨_, _, empty, afterEq⟩ := sync_ok result dirty self.writer.streams_self
  rw [result] at streams
  refine ⟨BufWriter.Streams.sent ?_, empty, afterEq⟩
  rw [List.append_nil]
  exact streams

theorem sync_of_clean {self : Writer} (clean : self.dirty = false) :
    sync self = (.ok self.writeOffset, self) := by
  rw [sync, Op.get_bind_apply, clean]
  rfl

/-- A record that is appended and synced stands in the file, wherever the writer was. -/
theorem append_sync_file {self appended after : Writer} {header data : List UInt8}
    {outcome : Nat × Nat} {io io' : List IoOutcome} {flushed : Nat}
    (appendResult : append crc header data (self.withOutcomes io) = (.ok outcome, appended))
    (syncResult : sync (appended.withOutcomes io') = (.ok flushed, after)) :
    after.writer.file =
      writeAt self.writer.content self.writer.position (recordBytes crc header data) := by
  obtain ⟨_, appendedEq⟩ := append_ok appendResult
  have dirty : (appended.withOutcomes io').dirty = true := by
    rw [appendedEq]
    rfl
  obtain ⟨synced, empty, _⟩ := sync_sent dirty syncResult
  have sent := (sent_of_withOutcomes (append_sent appendResult)).trans
    (sent_of_withOutcomes synced)
  rw [← BufWriter.content_of_empty empty, sent.content_eq, List.append_nil]

theorem commit_sent {self after : Writer} {position outcome : Nat}
    (result : commit crc position self = (.ok outcome, after)) :
    BufWriter.Sent self.writer after.writer (markerBytes crc position) ∧
      after.writer.buf = [] ∧
      after = { self with
        writer := after.writer
        dirty := false
        writeOffset := self.writeOffset + (markerBytes crc position).length
        flushedOffset := self.writeOffset + (markerBytes crc position).length
        lastPosition := some position } := by
  obtain ⟨_, marked, marker, committed⟩ := Op.bind_eq_ok result
  rw [Op.modify_bind_apply] at committed
  have markedEq := writeCommitMarker_ok marker
  have markerSent : BufWriter.Sent self.writer marked.writer (markerBytes crc position) :=
    BufWriter.Streams.sent
      ((writeCommitMarker_writes crc position).streams_ok marker self.writer.streams_self)
  have dirty : { marked with lastPosition := some position }.dirty = true := by rw [markedEq]
  obtain ⟨synced, empty, afterEq⟩ := sync_sent dirty committed
  refine ⟨?_, empty, ?_⟩
  · have both := markerSent.trans synced
    rwa [List.append_nil] at both
  · rw [afterEq, markedEq]

theorem commit_fits {self after : Writer} {position outcome : Nat}
    (result : commit crc position self = (.ok outcome, after)) :
    self.writeOffset + (markerBytes crc position).length ≤ self.size := by
  obtain ⟨_, _, marker, _⟩ := Op.bind_eq_ok result
  exact writeCommitMarker_fits marker

/-- A rewind that succeeds does nothing, or goes back in a file with all of the content. -/
theorem rewindTo_ok {self after : Writer} {offset : Nat}
    (result : rewindTo offset self = (.ok (), after)) :
    (self.writeOffset ≤ offset ∧ after = self) ∨
      offset < self.writeOffset ∧ after.writer.file = self.writer.content ∧
        after.writer.cursor = offset ∧ after.writer.buf = [] ∧
        after = { self with
          writer := after.writer
          writeOffset := offset
          dirty := decide (offset > self.flushedOffset) } := by
  unfold rewindTo at result
  rw [Op.get_bind_apply] at result
  split at result
  · next stays => exact .inl ⟨stays, (congrArg Prod.snd result).symm⟩
  · next back =>
    obtain ⟨_, writer, seekResult, result⟩ := onFile_bind_ok result
    obtain ⟨_, flushed, flush, seekResult⟩ := Op.bind_eq_ok seekResult
    obtain ⟨sent, empty⟩ := BufWriter.flushBuf_sent flush
    have fileEq := sent.content_eq
    rw [BufWriter.content_of_empty empty, writeAt_nil] at fileEq
    rw [Op.modify_apply] at seekResult result
    obtain rfl := congrArg Prod.snd seekResult
    obtain rfl := congrArg Prod.snd result
    exact .inr ⟨Nat.lt_of_not_le back, fileEq, rfl, empty, rfl⟩

/-- A truncation moves the write offset and leaves the cursor. -/
theorem setLen_ok {self after : Writer} {offset : Nat} (back : offset < self.writeOffset)
    (result : setLen offset self = (.ok (), after)) :
    ∃ outcome synced outcomes, sync self = (.ok outcome, synced) ∧
      after = { synced with
        writer := { synced.writer with
          file := writeAt synced.writer.file offset (List.replicate recordHeadSize 0)
          outcomes := outcomes }
        writeOffset := offset
        flushedOffset := offset } := by
  unfold setLen at result
  rw [Op.get_bind_apply, if_neg (Nat.not_le_of_lt back)] at result
  obtain ⟨outcome, synced, syncResult, result⟩ := Op.bind_eq_ok result
  rw [Op.modify_bind_apply] at result
  obtain ⟨_, writer, zeroResult, result⟩ := onFile_bind_ok result
  obtain ⟨_, durableResult, rfl⟩ := onFile_ok result
  refine ⟨outcome, synced, writer.outcomes.tail, syncResult, ?_⟩
  unfold BufWriter.writeAllAt at zeroResult
  unfold BufWriter.syncData at durableResult
  split at zeroResult
  case h_2 => cases zeroResult
  split at durableResult
  case h_2 => cases durableResult
  obtain rfl := congrArg Prod.snd zeroResult
  obtain rfl := congrArg Prod.snd durableResult
  rfl

theorem setLen_of_le {self : Writer} {offset : Nat} (stays : self.writeOffset ≤ offset) :
    setLen offset self = (.ok (), self) := by
  rw [setLen, Op.get_bind_apply, if_pos stays]
  rfl

end Writer

/-- The records up to the last commit marker. -/
def committedPart (log : List (Nat × Frame)) : List (Nat × Frame) :=
  log.rdropWhile fun entry => !entry.2.isCommitMarker

/-- The records that begin before an offset. -/
def entriesBefore (offset : Nat) (log : List (Nat × Frame)) : List (Nat × Frame) :=
  log.takeWhile fun entry => decide (entry.1 < offset)

theorem committedPart_append_plain {log pending : List (Nat × Frame)}
    (plain : ∀ entry ∈ pending, ¬ IsMarker entry.2) :
    committedPart (log ++ pending) = committedPart log := by
  induction pending using List.reverseRecOn with
  | nil => rw [List.append_nil]
  | append_singleton pending entry ih =>
      have last := plain entry (by simp)
      rw [IsMarker, Bool.not_eq_true] at last
      rw [← List.append_assoc, committedPart, List.rdropWhile_concat_pos _ _ _ (by rw [last]; rfl)]
      exact ih fun other member => plain other (by simp [member])

theorem committedPart_of_ends {log : List (Nat × Frame)}
    (ends : log = [] ∨ EndsMarked IsMarker log) : committedPart log = log := by
  rcases ends with rfl | ⟨before, entry, rfl, marker⟩
  · rfl
  · rw [committedPart, List.rdropWhile_concat_neg]
    rw [marker]
    exact Bool.false_ne_true

theorem exists_pending (log : List (Nat × Frame)) :
    ∃ pending, log = committedPart log ++ pending ∧
      (∀ entry ∈ pending, ¬ IsMarker entry.2) ∧
      (committedPart log = [] ∨ EndsMarked IsMarker (committedPart log)) := by
  induction log using List.reverseRecOn with
  | nil => exact ⟨[], rfl, by simp, .inl rfl⟩
  | append_singleton log entry ih =>
      by_cases marker : IsMarker entry.2
      · have ends : EndsMarked IsMarker (log ++ [entry]) := ⟨log, entry, rfl, marker⟩
        rw [committedPart_of_ends (.inr ends)]
        exact ⟨[], by simp, by simp, .inr ends⟩
      · obtain ⟨pending, logEq, plain, ends⟩ := ih
        rw [committedPart_append_plain (by simpa using marker)]
        refine ⟨pending ++ [entry], ?_, ?_, ends⟩
        · rw [← List.append_assoc, ← logEq]
        · intro other member
          rcases List.mem_append.mp member with earlier | last
          · exact plain other earlier
          · obtain rfl := List.mem_singleton.mp last
            exact marker

/-- The records of a chain before the offset of one of them. -/
theorem entriesBefore_of_chain {decode : Decoder Frame} {limit start stop : Nat}
    {before after : List (Nat × Frame)} {entry : Nat × Frame} (advances : Advances decode limit)
    (chain : Chain decode start (before ++ entry :: after) stop) :
    entriesBefore entry.1 (before ++ entry :: after) = before := by
  obtain ⟨middle, front, back⟩ := chain.split
  obtain ⟨rfl, _⟩ := chain_cons_iff.mp back
  rw [entriesBefore, List.takeWhile_append_of_pos]
  · simp
  · intro other member
    exact decide_eq_true (front.mem_bounds advances member).2

theorem entriesBefore_of_le {decode : Decoder Frame} {limit start stop offset : Nat}
    {log : List (Nat × Frame)} (advances : Advances decode limit)
    (chain : Chain decode start log stop) (stays : stop ≤ offset) :
    entriesBefore offset log = log := by
  rw [entriesBefore, List.takeWhile_eq_self_iff]
  intro entry member
  have below := (chain.mem_bounds advances member).2
  exact decide_eq_true (below.trans_le stays)

end Seglog

end Tephra
