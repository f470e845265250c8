import Tephra.BatchChain
import Tephra.BatchRollback

/-!
# What a failing call leaves behind

A call of the writer fails at a system call, or is refused and changes nothing.  A commit or a
sync that fails has sent a part of its bytes.  A rewind does nothing at all, or stops at a
failing flush, or really goes back.
-/

namespace Tephra

namespace Seglog

open ByteImage FrameChain Fallible

/-- A record that does not fit the write buffer. -/
def largeRecord : List UInt8 := List.replicate writeBufSize 7

theorem length_largeRecord : largeRecord.length = 16384 := List.length_replicate

/-- Only a system call makes the operation fail. -/
def IoOnly {σ α : Type} (op : Op σ WriteError α) : Prop :=
  ∀ self error after, op self = (.error error, after) → error = .io

theorem ioOnly_pure {σ α : Type} (value : α) : IoOnly (pure value : Op σ WriteError α) :=
  Op.failsOnly_pure value

theorem ioOnly_modify {σ : Type} (change : σ → σ) :
    IoOnly (Op.modify change : Op σ WriteError Unit) :=
  Op.failsOnly_modify change

theorem IoOnly.bind {σ α β : Type} {op : Op σ WriteError α} {next : α → Op σ WriteError β}
    (first : IoOnly op) (second : ∀ value, IoOnly (next value)) : IoOnly (op >>= next) :=
  Op.failsOnly_bind first second

namespace BufWriter

theorem ioOnly_writeFile (bytes : List UInt8) : IoOnly (writeFile bytes) := by
  intro self error after failed
  unfold writeFile at failed
  split at failed
  · cases failed
  · obtain ⟨rfl, -⟩ := by simpa using failed
    rfl

theorem ioOnly_flushBuf : IoOnly flushBuf := by
  intro self error after failed
  unfold flushBuf at failed
  split at failed
  · cases failed
  · cases step : writeFile self.buf self with
    | mk outcome middle =>
        rw [step] at failed
        obtain ⟨rfl, -⟩ := by simpa using failed
        exact ioOnly_writeFile self.buf self error middle step

theorem ioOnly_writeAll (bytes : List UInt8) : IoOnly (writeAll bytes) := by
  intro self
  unfold writeAll
  rw [Op.get_bind_apply]
  split
  · exact ioOnly_modify _ self
  · refine IoOnly.bind ?_ (fun _ => ?_) self
    · split
      · exact ioOnly_flushBuf
      · exact ioOnly_pure ()
    · split
      · exact ioOnly_writeFile bytes
      · exact ioOnly_modify _

theorem ioOnly_syncData : IoOnly syncData := by
  intro self error after failed
  unfold syncData at failed
  split at failed
  · cases failed
  · obtain ⟨rfl, -⟩ := by simpa using failed
    rfl

end BufWriter

namespace Writer

variable {crc : List UInt8 → UInt32}

theorem ioOnly_onFile {α : Type} {op : Op BufWriter WriteError α} (ioOnly : IoOnly op) :
    IoOnly (onFile op) := by
  intro self error after failed
  unfold onFile Op.onPart at failed
  cases step : op self.writer with
  | mk outcome writer =>
      rw [step] at failed
      obtain ⟨rfl, -⟩ := by simpa using failed
      exact ioOnly self.writer error writer step

theorem append_io_of_fits {self after : Writer} {header data : List UInt8} {error : WriteError}
    (short : recordHeadSize + header.length + data.length ≤ self.maxRecord)
    (fits : self.writeOffset + (recordHeadSize + header.length + data.length) ≤ self.size)
    (failed : append crc header data self = (.error error, after)) : error = .io := by
  unfold append at failed
  rw [Op.get_bind_apply] at failed
  dsimp only at failed
  rw [if_neg (by omega), if_neg (by omega)] at failed
  refine IoOnly.bind (ioOnly_modify _) (fun _ => ?_) _ _ _ failed
  refine IoOnly.bind (ioOnly_onFile (BufWriter.ioOnly_writeAll _)) fun _ => ?_
  refine IoOnly.bind (ioOnly_onFile (BufWriter.ioOnly_writeAll _)) fun _ => ?_
  refine IoOnly.bind (ioOnly_onFile (BufWriter.ioOnly_writeAll _)) fun _ => ?_
  refine IoOnly.bind (ioOnly_onFile (BufWriter.ioOnly_writeAll _)) fun _ => ?_
  exact IoOnly.bind (ioOnly_modify _) fun _ => ioOnly_pure _

theorem append_error {self after : Writer} {header data : List UInt8} {error : WriteError}
    (failed : append crc header data self = (.error error, after)) :
    error = .io ∨ after = self := by
  by_cases short : recordHeadSize + header.length + data.length ≤ self.maxRecord
  · by_cases fits :
        self.writeOffset + (recordHeadSize + header.length + data.length) ≤ self.size
    · exact .inl (append_io_of_fits short fits failed)
    · unfold append at failed
      rw [Op.get_bind_apply] at failed
      dsimp only at failed
      rw [if_neg (by omega), if_pos (by omega)] at failed
      exact .inr (congrArg Prod.snd failed).symm
  · unfold append at failed
    rw [Op.get_bind_apply] at failed
    dsimp only at failed
    rw [if_pos (by omega)] at failed
    exact .inr (congrArg Prod.snd failed).symm

theorem writeCommitMarker_io_of_fits {self after : Writer} {position : Nat} {error : WriteError}
    (fits : self.writeOffset + (recordHeadSize + commitMarkerPayload) ≤ self.size)
    (failed : writeCommitMarker crc position self = (.error error, after)) : error = .io := by
  unfold writeCommitMarker at failed
  rw [Op.get_bind_apply] at failed
  dsimp only at failed
  rw [if_neg (by omega)] at failed
  refine IoOnly.bind (ioOnly_modify _) (fun _ => ?_) _ _ _ failed
  refine IoOnly.bind (ioOnly_onFile (BufWriter.ioOnly_writeAll _)) fun _ => ?_
  refine IoOnly.bind (ioOnly_onFile (BufWriter.ioOnly_writeAll _)) fun _ => ?_
  refine IoOnly.bind (ioOnly_onFile (BufWriter.ioOnly_writeAll _)) fun _ => ?_
  exact ioOnly_modify _

/-- A marker that is refused leaves the writer as it was. -/
theorem writeCommitMarker_error {self after : Writer} {position : Nat} {error : WriteError}
    (failed : writeCommitMarker crc position self = (.error error, after)) :
    error = .io ∨ after = self := by
  by_cases fits : self.writeOffset + (recordHeadSize + commitMarkerPayload) ≤ self.size
  · exact .inl (writeCommitMarker_io_of_fits fits failed)
  · unfold writeCommitMarker at failed
    rw [Op.get_bind_apply] at failed
    dsimp only at failed
    rw [if_pos (by omega)] at failed
    exact .inr (congrArg Prod.snd failed).symm

theorem ioOnly_sync : IoOnly sync := by
  intro self
  unfold sync
  rw [Op.get_bind_apply]
  split
  · refine IoOnly.bind (ioOnly_onFile BufWriter.ioOnly_flushBuf) (fun _ => ?_) self
    refine IoOnly.bind (ioOnly_onFile BufWriter.ioOnly_syncData) fun _ => ?_
    exact IoOnly.bind (ioOnly_modify _) fun _ => ioOnly_pure _
  · exact ioOnly_pure _ self

theorem sync_streams {self : Writer} {image sent : List UInt8} {start : Nat}
    (streams : self.writer.Streams image start sent) :
    (sync self).2.writer.Streams image start sent ∧
      (sync self).2.size = self.size ∧ (sync self).2.writeOffset = self.writeOffset := by
  unfold sync
  rw [Op.get_bind_apply]
  split
  swap
  · exact ⟨streams, rfl, rfl⟩
  have flushed := (BufWriter.flushBuf_streams streams).1
  cases flush : BufWriter.flushBuf self.writer with
  | mk outcome writer =>
      rw [flush] at flushed
      cases outcome with
      | error error =>
          have stopped : onFile BufWriter.flushBuf self =
              (.error error, { self with writer := writer }) := by
            rw [onFile, Op.onPart, flush]
          rw [Op.bind_apply_error stopped]
          exact ⟨flushed, rfl, rfl⟩
      | ok value =>
          have passed : onFile BufWriter.flushBuf self =
              (.ok value, { self with writer := writer }) := by
            rw [onFile, Op.onPart, flush]
          rw [Op.bind_apply_ok passed]
          cases called : writer.outcomes.headD .ok with
          | ok =>
              have synced : onFile BufWriter.syncData { self with writer := writer } =
                  (.ok (), { self with
                    writer := { writer with outcomes := writer.outcomes.tail } }) := by
                rw [onFile, Op.onPart, BufWriter.syncData, called]
              rw [Op.bind_apply_ok synced]
              exact ⟨flushed, rfl, rfl⟩
          | fail written =>
              have failed : onFile BufWriter.syncData { self with writer := writer } =
                  (.error .io, { self with
                    writer := { writer with outcomes := writer.outcomes.tail } }) := by
                rw [onFile, Op.onPart, BufWriter.syncData, called]
              rw [Op.bind_apply_error failed]
              exact ⟨flushed, rfl, rfl⟩

/-- A record that is appended fits the limit and the segment. -/
theorem append_fits {self after : Writer} {header data : List UInt8} {outcome : Nat × Nat}
    (result : append crc header data self = (.ok outcome, after)) :
    recordHeadSize + header.length + data.length ≤ self.maxRecord ∧
      self.writeOffset + (recordBytes crc header data).length ≤ self.size := by
  unfold append at result
  rw [Op.get_bind_apply] at result
  dsimp only at result
  split at result
  · cases result
  split at result
  · cases result
  rw [length_recordBytes]
  omega

theorem writeCommitMarker_fits {self after : Writer} {position : Nat} {written : Unit}
    (result : writeCommitMarker crc position self = (.ok written, after)) :
    self.writeOffset + (markerBytes crc position).length ≤ self.size := by
  unfold writeCommitMarker at result
  rw [Op.get_bind_apply] at result
  dsimp only at result
  split at result
  · cases result
  rw [length_markerBytes]
  omega

/-- A commit leaves everything that was sent, and the marker, in the file. -/
theorem commit_ok {self after : Writer} {position start outcome : Nat}
    {image sent : List UInt8} (streams : self.writer.Streams image start sent)
    (result : commit crc position self = (.ok outcome, after)) :
    after.writer.file = writeAt image start (sent ++ markerBytes crc position) ∧
      after.writer.cursor = start + (sent ++ markerBytes crc position).length ∧
      after.writer.buf = [] ∧ after.size = self.size ∧
      after.writeOffset = self.writeOffset + (markerBytes crc position).length ∧
      after.writeOffset ≤ after.size := by
  obtain ⟨_, marked, marker, committed⟩ := Op.bind_eq_ok result
  rw [Op.modify_bind_apply] at committed
  have fits := writeCommitMarker_fits marker
  have markedEq := writeCommitMarker_ok marker
  have markedStreams := (writeCommitMarker_writes crc position).streams_ok marker streams
  obtain ⟨fileEq, cursorEq, bufEq, afterEq⟩ :=
    sync_ok committed (by rw [markedEq]) markedStreams
  have sizeEq : after.size = self.size := by rw [afterEq, markedEq]
  have offsetEq : after.writeOffset = self.writeOffset + (markerBytes crc position).length := by
    rw [afterEq, markedEq]
  exact ⟨fileEq, cursorEq, bufEq, sizeEq, offsetEq, by omega⟩

/-- A commit that fails has sent a part of its marker, or was refused. -/
theorem commit_error {self after : Writer} {position start : Nat} {error : WriteError}
    {image sent : List UInt8} (streams : self.writer.Streams image start sent)
    (failed : commit crc position self = (.error error, after)) :
    (∃ sent', after.writer.Streams image start sent') ∧ after.size = self.size ∧
      self.writeOffset ≤ after.writeOffset ∧ (error = .io ∨ after = self) := by
  obtain ⟨moved, count, part, outcome⟩ :=
    writeCommitMarker_writes crc position self image start sent streams
  unfold commit at failed
  cases marker : writeCommitMarker crc position self with
  | mk result middle =>
      rw [marker] at moved part outcome
      cases result with
      | error error' =>
          rw [Op.bind_apply_error marker] at failed
          obtain ⟨rfl, rfl⟩ := by simpa using failed
          exact ⟨⟨_, part⟩, moved.size_eq, moved.writeOffset_le,
            writeCommitMarker_error marker⟩
      | ok value =>
          rw [Op.bind_apply_ok marker, Op.modify_bind_apply] at failed
          have synced :=
            @sync_streams { middle with lastPosition := some position } image _ start part
          rw [failed] at synced
          obtain ⟨kept, sizeEq, offsetEq⟩ := synced
          exact ⟨⟨_, kept⟩, sizeEq.trans moved.size_eq, offsetEq ▸ moved.writeOffset_le,
            .inl (ioOnly_sync _ _ _ failed)⟩

/-- A rewind does nothing, or stops at a failing flush, or really goes back. -/
theorem rewindTo_cases {self : Writer} {start : Nat} {image sent : List UInt8}
    (streams : self.writer.Streams image start sent) :
    (self.writeOffset ≤ start ∧ rewindTo start self = (.ok (), self)) ∨
      start < self.writeOffset ∧
        ((∃ error after, rewindTo start self = (.error error, after) ∧
            after.writer.Streams image start sent ∧
            after = { self with writer := after.writer }) ∨
          ∃ after, rewindTo start self = (.ok (), after) ∧ after.Clean ∧
            after.writer.file = writeAt image start sent ∧ after.writeOffset = start ∧
            after.size = self.size) := by
  unfold rewindTo
  rw [Op.get_bind_apply]
  split
  · next stays => exact .inl ⟨stays, rfl⟩
  next back =>
  right
  refine ⟨by omega, ?_⟩
  obtain ⟨flushed, emptied⟩ := BufWriter.flushBuf_streams streams
  cases step : BufWriter.flushBuf self.writer with
  | mk outcome writer =>
      rw [step] at flushed emptied
      cases outcome with
      | ok value =>
          have sought : onFile (BufWriter.seek start) self =
              (.ok (), { self with writer := { writer with cursor := start } }) := by
            rw [onFile, Op.onPart, BufWriter.seek, Op.bind_apply_ok step, Op.modify_apply]
          have empty : writer.buf = [] := emptied.mp rfl
          right
          rw [Op.bind_apply_ok sought, Op.modify_apply]
          exact ⟨_, rfl, ⟨empty, rfl⟩, (flushed.flushed empty).1, rfl, rfl⟩
      | error error =>
          have stuck : onFile (BufWriter.seek start) self =
              (.error error, { self with writer := writer }) := by
            rw [onFile, Op.onPart, BufWriter.seek, Op.bind_apply_error step]
          left
          rw [Op.bind_apply_error stuck]
          exact ⟨error, _, rfl, flushed, rfl⟩

theorem openSegment_ok (crc : List UInt8 → UInt32) {size startOffset : Nat}
    (room : startOffset < size) (file : List UInt8) :
    ∃ opened, openSegment crc file size startOffset = .ok opened ∧
      opened.writeOffset = (recover crc file size startOffset).committedOffset ∧
      opened.flushedOffset = (recover crc file size startOffset).committedOffset := by
  rw [openSegment, if_neg (by omega)]
  exact ⟨_, rfl, rfl, rfl⟩

theorem openSegment_zeros (crc : List UInt8 → UInt32) {file : List UInt8}
    {size startOffset : Nat} (room : startOffset < size) (zero : ZeroFrom file startOffset) :
    openSegment crc file size startOffset =
      .ok (created file size startOffset) := by
  have recovered : recover crc file size startOffset = ⟨startOffset, none⟩ :=
    recover_eq ⟨.nil _, .inl rfl, zero.unmarked⟩
  rw [openSegment, if_neg (by omega), recovered]
  rfl

theorem onFile_writeAll_push {self : Writer} {bytes : List UInt8}
    (fits : bytes.length < writeBufSize - self.writer.buf.length) :
    onFile (BufWriter.writeAll bytes) self =
      (.ok (), { self with writer := { self.writer with buf := self.writer.buf ++ bytes } }) := by
  rw [onFile, Op.onPart, BufWriter.writeAll, Op.get_bind_apply, if_pos fits]
  rfl

/-- When the write of the buffer fails at once, all of it stays buffered. -/
theorem onFile_writeAll_stuck {self : Writer} {bytes : List UInt8}
    (full : writeBufSize - self.writer.buf.length < bytes.length)
    (buffered : self.writer.buf ≠ [])
    (fails : self.writer.outcomes.headD .ok = .fail 0) :
    onFile (BufWriter.writeAll bytes) self =
      (.error .io,
        { self with writer := { self.writer with outcomes := self.writer.outcomes.tail } }) := by
  have flushed : BufWriter.flushBuf self.writer =
      (.error .io, { self.writer with outcomes := self.writer.outcomes.tail }) := by
    rw [BufWriter.flushBuf, if_neg buffered, BufWriter.writeFile, fails]
    simp
  rw [onFile, Op.onPart, BufWriter.writeAll, Op.get_bind_apply, if_neg (by omega),
    if_pos full, Op.bind_apply_error flushed]

/-- A record larger than the write buffer, at the beginning of a batch: when the write of its
head fails, the head stays buffered. -/
theorem append_stuck (crc : List UInt8 → UInt32) (self : Writer) (data : List UInt8)
    (empty : self.writer.buf = []) (large : writeBufSize ≤ data.length)
    (fails : self.writer.outcomes.headD .ok = .fail 0)
    (short : recordHeadSize + data.length ≤ self.maxRecord)
    (fits : self.writeOffset + (recordHeadSize + data.length) ≤ self.size) :
    ∃ head after, append crc [] data self = (.error .io, after) ∧
      after = { self with
        writer := { self.writer with buf := head, outcomes := self.writer.outcomes.tail }
        dirty := true } ∧
      head = LittleEndian.encode lenSize data.length ++
        LittleEndian.encode crc32cSize
          (calculateCrc32c crc (LittleEndian.encode lenSize data.length) [] data).toNat := by
  unfold append
  rw [Op.get_bind_apply]
  dsimp only
  rw [List.length_nil, Nat.zero_add, Nat.add_zero, if_neg (by omega), if_neg (by omega),
    Op.modify_bind_apply]
  have roomy : 8 < writeBufSize := by decide
  rw [Op.bind_apply_ok (onFile_writeAll_push (by simp [empty, lenSize]; omega)),
    Op.bind_apply_ok (onFile_writeAll_push (by simp [empty, lenSize, crc32cSize]; omega)),
    Op.bind_apply_ok (onFile_writeAll_push (by simp [empty, lenSize, crc32cSize]; omega)),
    Op.bind_apply_error (onFile_writeAll_stuck (by simp [empty, lenSize, crc32cSize]; omega)
      (by simp [empty, ← List.length_eq_zero_iff, lenSize]) (by exact fails))]
  exact ⟨_, _, rfl, rfl, by simp [empty]⟩

/-- A record that does not fit the write buffer needs a system call. -/
theorem append_large_error (crc : List UInt8 → UInt32) (self : Writer) (data : List UInt8)
    (empty : self.writer.buf = []) (large : writeBufSize ≤ data.length)
    (fails : self.writer.outcomes.headD .ok = .fail 0) :
    ∃ error after, append crc [] data self = (.error error, after) := by
  by_cases long : recordHeadSize + ([] : List UInt8).length + data.length > self.maxRecord
  · unfold append
    rw [Op.get_bind_apply]
    dsimp only
    rw [if_pos long]
    exact ⟨_, _, rfl⟩
  by_cases full : self.writeOffset + (recordHeadSize + ([] : List UInt8).length + data.length) >
      self.size
  · unfold append
    rw [Op.get_bind_apply]
    dsimp only
    rw [if_neg long, if_pos full]
    exact ⟨_, _, rfl⟩
  obtain ⟨_, after, failed, -⟩ := append_stuck crc self data empty large fails
    (by simp at long; omega) (by simp at full; omega)
  exact ⟨_, after, failed⟩

theorem commit_succeeds (crc : List UInt8 → UInt32) {self : Writer} (position : Nat)
    (healthy : self.Healthy)
    (fits : self.writeOffset + (recordHeadSize + commitMarkerPayload) ≤ self.size) :
    ∃ outcome after, commit crc position self = (.ok outcome, after) := by
  obtain ⟨_, marked, marker, markedHealthy⟩ :=
    writeCommitMarker_succeeds crc position healthy fits
  obtain ⟨outcome, after, synced, _⟩ :=
    sync_succeeds { marked with lastPosition := some position } markedHealthy
  exact ⟨outcome, after, by
    rw [commit, Op.bind_apply_ok marker, Op.modify_bind_apply, synced]⟩

end Writer

end Seglog

end Tephra
