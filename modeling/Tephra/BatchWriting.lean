import Tephra.SegmentWriter

/-!
# A written batch

The bytes handed to the writer go to the file in order: at any time a first
part of them stands in the file, from the offset on where the batch began, and
the rest is buffered.  This holds whatever system calls fail, and when all
calls of a batch succeed its bytes stand in the file.
-/

namespace Tephra

namespace Seglog

open ByteImage Fallible

namespace BufWriter

/-- A first part of the bytes sent from `start` of `image` on is in the file, and
the others are buffered. -/
def Streams (writer : BufWriter) (image : List UInt8) (start : Nat) (sent : List UInt8) :
    Prop :=
  ∃ written ≤ sent.length,
    writer.file = writeAt image start (sent.take written) ∧
      writer.cursor = start + written ∧ writer.buf = sent.drop written

/-- No system call to come fails. -/
def Healthy (writer : BufWriter) : Prop :=
  ∀ outcome ∈ writer.outcomes, outcome = .ok

theorem Healthy.headD {self : BufWriter} (healthy : Healthy self) :
    self.outcomes.headD .ok = .ok := by
  cases outcomesEq : self.outcomes with
  | nil => rfl
  | cons outcome outcomes => exact healthy outcome (by simp [outcomesEq])

theorem Healthy.tail {self after : BufWriter} (healthy : Healthy self)
    (outcomesEq : after.outcomes = self.outcomes.tail) : Healthy after := by
  intro outcome member
  rw [outcomesEq] at member
  exact healthy outcome (List.mem_of_mem_tail member)

theorem streams_start {self : BufWriter} (empty : self.buf = []) :
    Streams self self.file self.cursor [] :=
  ⟨0, Nat.le_refl _, rfl, rfl, empty⟩

theorem streams_self (self : BufWriter) : Streams self self.file self.cursor self.buf :=
  ⟨0, Nat.zero_le _, rfl, rfl, rfl⟩

theorem Streams.flushed {self : BufWriter} {image sent : List UInt8} {start : Nat}
    (streams : Streams self image start sent) (empty : self.buf = []) :
    self.file = writeAt image start sent ∧ self.cursor = start + sent.length := by
  obtain ⟨written, writtenLe, fileEq, cursorEq, bufEq⟩ := streams
  have allWritten : sent.length ≤ written := List.drop_eq_nil_iff.mp (bufEq.symm.trans empty)
  obtain rfl : written = sent.length := by omega
  exact ⟨by rw [fileEq, List.take_length], cursorEq⟩

theorem Streams.push {self after : BufWriter} {image sent bytes : List UInt8} {start : Nat}
    (streams : Streams self image start sent)
    (fileEq : after.file = self.file) (cursorEq : after.cursor = self.cursor)
    (bufEq : after.buf = self.buf ++ bytes) :
    Streams after image start (sent ++ bytes) := by
  obtain ⟨written, writtenLe, oldFile, oldCursor, oldBuf⟩ := streams
  refine ⟨written, by simp; omega, ?_, cursorEq.trans oldCursor, ?_⟩
  · rw [fileEq, oldFile, List.take_append_of_le_length writtenLe]
  · rw [bufEq, oldBuf, List.drop_append_of_le_length writtenLe]

/-- Writing a part of the buffered bytes keeps the stream. -/
theorem Streams.drain {self after : BufWriter} {image sent : List UInt8} {start count : Nat}
    (streams : Streams self image start sent) (countLe : count ≤ self.buf.length)
    (fileEq : after.file = writeAt self.file self.cursor (self.buf.take count))
    (cursorEq : after.cursor = self.cursor + count)
    (bufEq : after.buf = self.buf.drop count) :
    Streams after image start sent := by
  obtain ⟨written, writtenLe, oldFile, oldCursor, oldBuf⟩ := streams
  rw [oldBuf, List.length_drop] at countLe
  refine ⟨written + count, by omega, ?_, by omega, ?_⟩
  · have takenLength : (sent.take written).length = written := by simp [writtenLe]
    have adjacent := writeAt_writeAt_adjacent image (sent.take written)
      ((sent.drop written).take count) start
    rw [takenLength] at adjacent
    rw [fileEq, oldFile, oldCursor, oldBuf, adjacent, List.take_add]
  · rw [bufEq, oldBuf, List.drop_drop]

theorem writeFile_cases (bytes : List UInt8) (self : BufWriter) :
    ∃ count, count ≤ bytes.length ∧
      (writeFile bytes self).2 =
        ⟨writeAt self.file self.cursor (bytes.take count), self.cursor + count, self.buf,
          self.outcomes.tail⟩ ∧
      ((writeFile bytes self).1 = .ok () ∧ count = bytes.length ∨
        (writeFile bytes self).1 = .error .io ∧ count ≤ bytes.length - 1) := by
  unfold writeFile
  cases self.outcomes.headD .ok with
  | ok => exact ⟨bytes.length, Nat.le_refl _, by simp, .inl ⟨rfl, rfl⟩⟩
  | fail written =>
      refine ⟨min written (bytes.length - 1), by omega, ?_, .inr ⟨rfl, by omega⟩⟩
      simp only [List.length_take]
      congr 2
      omega

/-- Flushing keeps the stream whatever happens; it empties the buffer if and only
if it succeeds. -/
theorem flushBuf_streams {self : BufWriter} {image sent : List UInt8} {start : Nat}
    (streams : Streams self image start sent) :
    Streams (flushBuf self).2 image start sent ∧
      ((flushBuf self).1 = .ok () ↔ (flushBuf self).2.buf = []) := by
  unfold flushBuf
  split
  · next empty => exact ⟨streams, by simp [empty]⟩
  · next nonempty =>
      obtain ⟨count, countLe, after, outcome⟩ := writeFile_cases self.buf self
      have drained : (writeFile self.buf self).2.cursor - self.cursor = count := by
        rw [after]
        simp
      refine ⟨streams.drain countLe ?_ ?_ ?_, ?_⟩
      · simp only [after]
      · simp only [after]
      · simp only [drained]
      · simp only [drained, List.drop_eq_nil_iff]
        have positive := List.length_pos_of_ne_nil nonempty
        rcases outcome with ⟨ok, all⟩ | ⟨failed, some⟩
        · simp [ok, all]
        · simp only [failed, reduceCtorEq, false_iff]
          omega

/-- The bytes an operation sends follow those already sent: all of them when it
succeeds.  Fewer bytes than the buffer holds are sent together or not at all. -/
def Sends (outcome : Except WriteError Unit) (after : BufWriter) (image : List UInt8)
    (start : Nat) (sent bytes : List UInt8) : Prop :=
  ∃ count, Streams after image start (sent ++ bytes.take count) ∧
    (outcome = .ok () ∧ count = bytes.length ∨
      (∃ error, outcome = .error error) ∧ count ≤ bytes.length ∧
        (bytes.length < writeBufSize → count = 0))

theorem sends_all {after : BufWriter} {image sent bytes : List UInt8} {start : Nat}
    (streams : Streams after image start (sent ++ bytes)) :
    Sends (.ok ()) after image start sent bytes :=
  ⟨bytes.length, by rwa [List.take_length], .inl ⟨rfl, rfl⟩⟩

/-- A direct write goes past the buffer, so the buffer has to be empty. -/
theorem writeFile_sends {self : BufWriter} {image sent bytes : List UInt8} {start : Nat}
    (streams : Streams self image start sent) (empty : self.buf = [])
    (large : bytes.length ≥ writeBufSize) :
    Sends (writeFile bytes self).1 (writeFile bytes self).2 image start sent bytes := by
  obtain ⟨fileEq, cursorEq⟩ := streams.flushed empty
  obtain ⟨count, countLe, after, outcome⟩ := writeFile_cases bytes self
  refine ⟨count, ⟨(sent ++ bytes.take count).length, Nat.le_refl _, ?_, ?_, ?_⟩, ?_⟩
  · rw [after, List.take_length, fileEq, cursorEq]
    exact writeAt_writeAt_adjacent _ _ _ _
  · rw [after, List.length_append, List.length_take, Nat.min_eq_left countLe]
    simp only
    omega
  · rw [after, List.drop_length]
    exact empty
  · rcases outcome with ⟨ok, all⟩ | ⟨failed, some⟩
    · exact .inl ⟨ok, all⟩
    · exact .inr ⟨⟨_, failed⟩, countLe, by omega⟩

theorem writeAll_sends {self : BufWriter} {image sent : List UInt8} {start : Nat}
    (bytes : List UInt8) (streams : Streams self image start sent) :
    Sends (writeAll bytes self).1 (writeAll bytes self).2 image start sent bytes := by
  unfold writeAll
  rw [Op.get_bind_apply]
  split
  · exact sends_all (streams.push rfl rfl rfl)
  next full =>
  -- Once the buffer has room, or is empty before a direct write, the bytes follow.
  have finish : ∀ middle : BufWriter, Streams middle image start sent →
      (bytes.length ≥ writeBufSize → middle.buf = []) →
      Sends
        ((if bytes.length ≥ writeBufSize then writeFile bytes
          else BufWriter.push bytes) middle).1
        ((if bytes.length ≥ writeBufSize then writeFile bytes
          else BufWriter.push bytes) middle).2 image start sent bytes := by
    intro middle middleStreams emptied
    by_cases large : bytes.length ≥ writeBufSize
    · simp only [if_pos large]
      exact writeFile_sends middleStreams (emptied large) large
    · simp only [if_neg large]
      exact sends_all (middleStreams.push rfl rfl rfl)
  by_cases tight : bytes.length > writeBufSize - self.buf.length
  · simp only [if_pos tight]
    have flushed := flushBuf_streams streams
    cases step : flushBuf self with
    | mk outcome middle =>
        rw [step] at flushed
        cases outcome with
        | ok value =>
            rw [Op.bind_apply_ok step]
            exact finish middle flushed.1 fun _ => flushed.2.mp rfl
        | error error =>
            rw [Op.bind_apply_error step]
            exact ⟨0, by simpa using flushed.1, .inr ⟨⟨error, rfl⟩, Nat.zero_le _, fun _ => rfl⟩⟩
  · simp only [if_neg tight]
    refine finish self streams fun large => List.eq_nil_of_length_eq_zero ?_
    simp only [writeBufSize] at large tight full
    omega

theorem writeFile_healthy (bytes : List UInt8) :
    Op.Moves (fun before after => Healthy before → Healthy after) (writeFile bytes) := by
  intro self healthy
  obtain ⟨count, _, after, _⟩ := writeFile_cases bytes self
  exact healthy.tail (by rw [after])

theorem flushBuf_healthy :
    Op.Moves (fun before after => Healthy before → Healthy after) flushBuf := by
  intro self healthy
  unfold flushBuf
  split
  · exact healthy
  · exact writeFile_healthy self.buf self healthy

theorem writeAll_healthy (bytes : List UInt8) :
    Op.Moves (fun before after => Healthy before → Healthy after) (writeAll bytes) := by
  intro self
  have refl : ∀ self : BufWriter, Healthy self → Healthy self := fun _ => id
  have trans : ∀ first second third : BufWriter, (Healthy first → Healthy second) →
      (Healthy second → Healthy third) → Healthy first → Healthy third :=
    fun _ _ _ left right => right ∘ left
  unfold writeAll
  rw [Op.get_bind_apply]
  split
  · exact id
  · refine Op.moves_bind trans ?_ (fun _ => ?_) self
    · split
      · exact flushBuf_healthy
      · exact Op.moves_pure refl ()
    · split
      · exact writeFile_healthy bytes
      · exact fun _ => id

theorem writeFile_succeeds (bytes : List UInt8) :
    Op.Succeeds Healthy (writeFile bytes) := by
  intro self healthy
  refine ⟨(), ⟨writeAt self.file self.cursor bytes, self.cursor + bytes.length, self.buf,
    self.outcomes.tail⟩, ?_, healthy.tail rfl⟩
  rw [writeFile, healthy.headD]

theorem flushBuf_succeeds : Op.Succeeds Healthy flushBuf := by
  intro self healthy
  unfold flushBuf
  split
  · exact ⟨(), self, rfl, healthy⟩
  · obtain ⟨_, after, result, afterHealthy⟩ := writeFile_succeeds self.buf self healthy
    exact ⟨(), { after with buf := self.buf.drop (after.cursor - self.cursor) },
      by rw [result], afterHealthy⟩

theorem push_succeeds (bytes : List UInt8) : Op.Succeeds Healthy (push bytes) :=
  fun _ healthy => ⟨(), _, rfl, healthy⟩

theorem writeAll_succeeds (bytes : List UInt8) : Op.Succeeds Healthy (writeAll bytes) := by
  intro self healthy
  unfold writeAll
  rw [Op.get_bind_apply]
  split
  · exact push_succeeds bytes self healthy
  · refine Op.succeeds_bind ?_ (fun _ => ?_) self healthy
    · split
      · exact flushBuf_succeeds
      · exact Op.succeeds_pure ()
    · split
      · exact writeFile_succeeds bytes
      · exact push_succeeds bytes

theorem syncData_succeeds : Op.Succeeds Healthy syncData := by
  intro self healthy
  refine ⟨(), { self with outcomes := self.outcomes.tail }, ?_, healthy.tail rfl⟩
  rw [syncData, healthy.headD]

end BufWriter

variable {crc : List UInt8 → UInt32}

namespace Writer

theorem onFile_ok {α : Type} {op : Op BufWriter WriteError α} {self after : Writer} {value : α}
    (result : onFile op self = (.ok value, after)) :
    ∃ writer, op self.writer = (.ok value, writer) ∧
      after = { self with writer := writer } := by
  unfold onFile Op.onPart at result
  cases step : op self.writer with
  | mk outcome writer =>
      rw [step] at result
      obtain ⟨rfl, rfl⟩ : outcome = .ok value ∧ { self with writer := writer } = after := by
        simpa using result
      exact ⟨writer, rfl, rfl⟩

/-- A call on the file that is gone on from has left the rest of the writer alone. -/
theorem onFile_bind_ok {α β : Type} {op : Op BufWriter WriteError α}
    {next : α → Op Writer WriteError β} {self after : Writer} {value : β}
    (result : (onFile op >>= next) self = (.ok value, after)) :
    ∃ first writer, op self.writer = (.ok first, writer) ∧
      next first { self with writer := writer } = (.ok value, after) := by
  obtain ⟨first, _, called, result⟩ := Op.bind_eq_ok result
  obtain ⟨writer, stepped, rfl⟩ := onFile_ok called
  exact ⟨first, writer, stepped, result⟩

/-- No system call to come fails. -/
def Healthy (self : Writer) : Prop :=
  self.writer.Healthy

theorem healthy_withOutcomes_nil (self : Writer) : (self.withOutcomes []).Healthy :=
  fun _ member => absurd member List.not_mem_nil

theorem onFile_succeeds {α : Type} {op : Op BufWriter WriteError α}
    (succeeds : Op.Succeeds BufWriter.Healthy op) :
    Op.Succeeds Healthy (onFile op) := by
  intro self healthy
  obtain ⟨value, writer, result, writerHealthy⟩ := succeeds self.writer healthy
  exact ⟨value, { self with writer := writer }, by rw [onFile, Op.onPart, result],
    writerHealthy⟩

theorem writeAll_succeeds (bytes : List UInt8) :
    Op.Succeeds Healthy (onFile (BufWriter.writeAll bytes)) :=
  onFile_succeeds (BufWriter.writeAll_succeeds bytes)

theorem modify_succeeds {change : Writer → Writer}
    (same : ∀ self, (change self).writer = self.writer) :
    Op.Succeeds Healthy (Op.modify change : Op Writer WriteError Unit) :=
  fun self healthy => ⟨(), change self, rfl, by rw [Healthy, same]; exact healthy⟩

/-- The settings and the durable end stay, the write offset does not move back, and
system calls are only used up. -/
structure Extends (before after : Writer) : Prop where
  size_eq : after.size = before.size
  startOffset_eq : after.startOffset = before.startOffset
  maxRecord_eq : after.maxRecord = before.maxRecord
  flushedOffset_eq : after.flushedOffset = before.flushedOffset
  writeOffset_le : before.writeOffset ≤ after.writeOffset
  healthy : before.Healthy → after.Healthy

theorem Extends.refl (self : Writer) : Extends self self :=
  ⟨rfl, rfl, rfl, rfl, Nat.le_refl _, id⟩

theorem Extends.trans {before middle after : Writer} (left : Extends before middle)
    (right : Extends middle after) : Extends before after where
  size_eq := right.size_eq.trans left.size_eq
  startOffset_eq := right.startOffset_eq.trans left.startOffset_eq
  maxRecord_eq := right.maxRecord_eq.trans left.maxRecord_eq
  flushedOffset_eq := right.flushedOffset_eq.trans left.flushedOffset_eq
  writeOffset_le := left.writeOffset_le.trans right.writeOffset_le
  healthy := right.healthy ∘ left.healthy

/-- What an operation sends to the file: all of the bytes when it succeeds, and at
most the first `limit` of them when it fails. -/
def Writes {α : Type} (op : Op Writer WriteError α) (bytes : List UInt8) (limit : Nat) :
    Prop :=
  ∀ (self : Writer) (image : List UInt8) (start : Nat) (sent : List UInt8),
    self.writer.Streams image start sent →
    Extends self (op self).2 ∧
      ∃ count, (op self).2.writer.Streams image start (sent ++ bytes.take count) ∧
        ((∃ value, (op self).1 = .ok value) ∧ count = bytes.length ∨
          (∃ error, (op self).1 = .error error) ∧ count ≤ limit)

theorem writes_pure {α : Type} (value : α) (limit : Nat) :
    Writes (pure value : Op Writer WriteError α) [] limit :=
  fun self _ _ _ streams =>
    ⟨.refl self, 0, by simpa using streams, .inl ⟨⟨value, rfl⟩, rfl⟩⟩

theorem writes_fail {α : Type} (error : WriteError) (bytes : List UInt8) (limit : Nat) :
    Writes (Op.fail error : Op Writer WriteError α) bytes limit :=
  fun self _ _ _ streams =>
    ⟨.refl self, 0, by simpa using streams, .inr ⟨⟨error, rfl⟩, Nat.zero_le _⟩⟩

theorem writes_modify {change : Writer → Writer} (limit : Nat)
    (kept : ∀ self, (change self).writer = self.writer ∧ Extends self (change self)) :
    Writes (Op.modify change) [] limit := by
  intro self image start sent streams
  refine ⟨(kept self).2, 0, ?_, .inl ⟨⟨(), rfl⟩, rfl⟩⟩
  simpa [(kept self).1] using streams

/-- Bytes that fit the buffer are not sent at all by a failing write. -/
theorem writes_writeAll {bytes : List UInt8} {limit : Nat}
    (bounded : bytes.length ≤ limit ∨ bytes.length < writeBufSize) :
    Writes (onFile (BufWriter.writeAll bytes)) bytes limit := by
  intro self image start sent streams
  obtain ⟨count, after, outcome⟩ := BufWriter.writeAll_sends bytes streams
  refine ⟨⟨rfl, rfl, rfl, rfl, Nat.le_refl _, BufWriter.writeAll_healthy bytes self.writer⟩,
    count, after, ?_⟩
  rcases outcome with ⟨ok, all⟩ | ⟨failed, countLe, short⟩
  · exact .inl ⟨⟨(), ok⟩, all⟩
  · refine .inr ⟨failed, ?_⟩
    rcases bounded with long | fits
    · omega
    · have none := short fits
      omega

theorem writes_bind {α β : Type} {op : Op Writer WriteError α}
    {next : α → Op Writer WriteError β} {first second : List UInt8} {limit limit' : Nat}
    (left : Writes op first limit) (right : ∀ value, Writes (next value) second limit')
    (limitLe : limit ≤ first.length) :
    Writes (op >>= next) (first ++ second) (first.length + limit') := by
  intro self image start sent streams
  obtain ⟨moved, count, after, outcome⟩ := left self image start sent streams
  cases step : op self with
  | mk result middle =>
      rw [step] at moved after outcome
      cases result with
      | error error =>
          obtain ⟨⟨_, absurdOk⟩, _⟩ | ⟨_, fewer⟩ := outcome
          · cases absurdOk
          rw [Op.bind_apply_error step]
          refine ⟨moved, count, ?_, .inr ⟨⟨error, rfl⟩, by omega⟩⟩
          rwa [List.take_append_of_le_length (by omega)]
      | ok value =>
          obtain ⟨_, all⟩ | ⟨⟨_, absurdError⟩, _⟩ := outcome
          swap
          · cases absurdError
          rw [all, List.take_length] at after
          obtain ⟨moved', count', final, outcome'⟩ := right value middle image start _ after
          rw [Op.bind_apply_ok step, List.length_append]
          refine ⟨moved.trans moved', first.length + count', ?_, ?_⟩
          · rwa [List.take_length_add_append, ← List.append_assoc]
          · exact outcome'.imp (And.imp_right fun all => by omega)
              (And.imp_right fun fewer => by omega)

theorem Writes.streams_ok {α : Type} {op : Op Writer WriteError α} {bytes : List UInt8}
    {limit : Nat} (writes : Writes op bytes limit) {self after : Writer} {value : α}
    {image sent : List UInt8} {start : Nat} (result : op self = (.ok value, after))
    (streams : self.writer.Streams image start sent) :
    after.writer.Streams image start (sent ++ bytes) := by
  obtain ⟨_, count, final, outcome⟩ := writes self image start sent streams
  rw [result] at final outcome
  obtain ⟨_, all⟩ | ⟨⟨_, absurdError⟩, _⟩ := outcome
  · rwa [all, List.take_length] at final
  · cases absurdError

theorem writes_modify_bind {α : Type} {change : Writer → Writer}
    (kept : ∀ self, (change self).writer = self.writer ∧ Extends self (change self))
    {next : Unit → Op Writer WriteError α} {rest : List UInt8} {limit : Nat}
    (writes : Writes (next ()) rest limit) :
    Writes (Op.modify change >>= next) rest limit := by
  have joined := writes_bind (writes_modify 0 kept) (fun _ => writes) (Nat.le_refl 0)
  rwa [List.nil_append, List.length_nil, Nat.zero_add] at joined

theorem writes_bind_modify {op : Op Writer WriteError Unit} {change : Writer → Writer}
    {bytes : List UInt8} {limit : Nat}
    (kept : ∀ self, (change self).writer = self.writer ∧ Extends self (change self))
    (writes : Writes op bytes limit) :
    Writes (op >>= fun _ => Op.modify change) bytes limit := by
  intro self image start sent streams
  obtain ⟨moved, count, after, outcome⟩ := writes self image start sent streams
  cases step : op self with
  | mk result middle =>
      rw [step] at moved after outcome
      cases result with
      | error error =>
          rw [Op.bind_apply_error step]
          exact ⟨moved, count, after, outcome.imp (fun ⟨⟨_, absurdOk⟩, _⟩ => by cases absurdOk)
            (And.imp_left fun _ => ⟨error, rfl⟩)⟩
      | ok value =>
          rw [Op.bind_apply_ok step, Op.modify_apply]
          refine ⟨moved.trans (kept middle).2, count, by rwa [(kept middle).1], ?_⟩
          exact outcome.imp (And.imp_left fun _ => ⟨(), rfl⟩)
            fun ⟨⟨_, absurdError⟩, _⟩ => by cases absurdError

theorem writes_writeAll_bind {α : Type} (bytes : List UInt8)
    {next : Unit → Op Writer WriteError α} {rest : List UInt8} {limit : Nat}
    (writes : Writes (next ()) rest limit) :
    Writes (onFile (BufWriter.writeAll bytes) >>= next) (bytes ++ rest)
      (bytes.length + limit) :=
  writes_bind (writes_writeAll (.inl (Nat.le_refl _))) (fun _ => writes) (Nat.le_refl _)

theorem extends_dirty (self : Writer) :
    { self with dirty := true }.writer = self.writer ∧
      Extends self { self with dirty := true } :=
  ⟨rfl, rfl, rfl, rfl, rfl, Nat.le_refl _, id⟩

theorem extends_advance (length : Nat) (self : Writer) :
    { self with writeOffset := self.writeOffset + length }.writer = self.writer ∧
      Extends self { self with writeOffset := self.writeOffset + length } :=
  ⟨rfl, rfl, rfl, rfl, rfl, Nat.le_add_right _ _, id⟩

variable (crc) in
theorem append_writes (header data : List UInt8) :
    Writes (append crc header data) (recordBytes crc header data)
      (recordBytes crc header data).length := by
  have bytesEq : recordBytes crc header data =
      LittleEndian.encode lenSize (header.length + data.length) ++
        (LittleEndian.encode crc32cSize (calculateCrc32c crc
          (LittleEndian.encode lenSize (header.length + data.length)) header data).toNat ++
            (header ++ (data ++ []))) := by
    simp only [recordBytes, List.append_assoc, List.append_nil]
  have limitEq : (recordBytes crc header data).length =
      (LittleEndian.encode lenSize (header.length + data.length)).length +
        ((LittleEndian.encode crc32cSize (calculateCrc32c crc
          (LittleEndian.encode lenSize (header.length + data.length)) header data).toNat).length +
            (header.length + (data.length + 0))) := by
    simp [recordHeadSize, Nat.add_assoc]
  rw [limitEq, bytesEq]
  intro self
  unfold append
  rw [Op.get_bind_apply]
  dsimp only
  split
  · exact writes_fail _ _ _ self
  split
  · exact writes_fail _ _ _ self
  refine writes_modify_bind extends_dirty ?_ self
  refine writes_writeAll_bind _ ?_
  refine writes_writeAll_bind _ ?_
  refine writes_writeAll_bind _ ?_
  refine writes_writeAll_bind _ ?_
  exact writes_modify_bind (extends_advance _) (writes_pure _ _)

/-- The fields of the writer after a record was appended. -/
theorem append_ok {self after : Writer} {header data : List UInt8} {outcome : Nat × Nat}
    (result : append crc header data self = (.ok outcome, after)) :
    outcome.1 = self.writeOffset ∧
      after = { self with
        writer := after.writer
        dirty := true
        writeOffset := self.writeOffset + (recordBytes crc header data).length } := by
  unfold append at result
  rw [Op.get_bind_apply] at result
  dsimp only at result
  split at result
  · cases result
  split at result
  · cases result
  rw [Op.modify_bind_apply] at result
  obtain ⟨_, _, _, result⟩ := onFile_bind_ok result
  obtain ⟨_, _, _, result⟩ := onFile_bind_ok result
  obtain ⟨_, _, _, result⟩ := onFile_bind_ok result
  obtain ⟨_, _, _, result⟩ := onFile_bind_ok result
  rw [Op.modify_bind_apply, Op.pure_apply] at result
  have totalEq : recordHeadSize + header.length + data.length =
      (recordBytes crc header data).length := by
    rw [length_recordBytes, Nat.add_assoc]
  obtain ⟨rfl, rfl⟩ := by simpa using result
  exact ⟨rfl, by simp only [totalEq]⟩

variable (crc) in
/-- Without faults a record that fits is appended. -/
theorem append_succeeds {self : Writer} (header data : List UInt8)
    (healthy : self.Healthy)
    (short : recordHeadSize + header.length + data.length ≤ self.maxRecord)
    (fits : self.writeOffset + (recordHeadSize + header.length + data.length) ≤ self.size) :
    ∃ outcome after, append crc header data self = (.ok outcome, after) ∧
      after.Healthy := by
  unfold append
  rw [Op.get_bind_apply]
  dsimp only
  rw [if_neg (by omega), if_neg (by omega)]
  refine Op.succeeds_bind (modify_succeeds ?_) (fun _ => ?_) self healthy
  · exact fun _ => rfl
  refine Op.succeeds_bind (writeAll_succeeds _) fun _ => ?_
  refine Op.succeeds_bind (writeAll_succeeds _) fun _ => ?_
  refine Op.succeeds_bind (writeAll_succeeds _) fun _ => ?_
  refine Op.succeeds_bind (writeAll_succeeds _) fun _ => ?_
  refine Op.succeeds_bind (modify_succeeds ?_) fun _ => Op.succeeds_pure _
  exact fun _ => rfl

variable (crc) in
/-- A commit marker sends its bytes.  When it fails, nothing of its payload is sent. -/
theorem writeCommitMarker_writes (position : Nat) :
    Writes (writeCommitMarker crc position) (markerBytes crc position) recordHeadSize := by
  have bytesEq : markerBytes crc position =
      LittleEndian.encode lenSize (commitMarkerPayload ||| controlFlag) ++
        (LittleEndian.encode crc32cSize (calculateCrc32c crc (LittleEndian.encode lenSize
          (commitMarkerPayload ||| controlFlag)) [] (markerPayload position)).toNat ++
            (markerPayload position ++ [])) := by
    simp only [markerBytes, List.append_assoc, List.append_nil]
  have limitEq : recordHeadSize =
      (LittleEndian.encode lenSize (commitMarkerPayload ||| controlFlag)).length +
        ((LittleEndian.encode crc32cSize (calculateCrc32c crc (LittleEndian.encode lenSize
          (commitMarkerPayload ||| controlFlag)) [] (markerPayload position)).toNat).length +
            0) := by
    simp [recordHeadSize]
  rw [bytesEq, limitEq]
  intro self
  unfold writeCommitMarker
  rw [Op.get_bind_apply]
  dsimp only
  split
  · exact writes_fail _ _ _ self
  refine writes_modify_bind extends_dirty ?_ self
  refine writes_writeAll_bind _ ?_
  refine writes_writeAll_bind _ ?_
  -- The payload fits the buffer: a failing flush keeps it back as a whole.
  have payloadFits : (markerPayload position).length < writeBufSize := by
    rw [length_markerPayload]
    decide
  have payloadWrites := writes_bind_modify (extends_advance (recordHeadSize + commitMarkerPayload))
    (writes_writeAll (.inr payloadFits) : Writes _ _ 0)
  rwa [List.append_nil]

/-- The fields of the writer after a marker was written. -/
theorem writeCommitMarker_ok {self after : Writer} {position : Nat}
    (result : writeCommitMarker crc position self = (.ok (), after)) :
    after = { self with
      writer := after.writer
      dirty := true
      writeOffset := self.writeOffset + (markerBytes crc position).length } := by
  unfold writeCommitMarker at result
  rw [Op.get_bind_apply] at result
  dsimp only at result
  split at result
  · cases result
  rw [Op.modify_bind_apply] at result
  obtain ⟨_, _, _, result⟩ := onFile_bind_ok result
  obtain ⟨_, _, _, result⟩ := onFile_bind_ok result
  obtain ⟨_, _, _, result⟩ := onFile_bind_ok result
  rw [Op.modify_apply] at result
  obtain rfl := by simpa using result
  rw [length_markerBytes]

variable (crc) in
theorem writeCommitMarker_succeeds {self : Writer} (position : Nat)
    (healthy : self.Healthy)
    (fits : self.writeOffset + (recordHeadSize + commitMarkerPayload) ≤ self.size) :
    ∃ written after, writeCommitMarker crc position self = (.ok written, after) ∧
      after.Healthy := by
  unfold writeCommitMarker
  rw [Op.get_bind_apply]
  dsimp only
  rw [if_neg (by omega)]
  refine Op.succeeds_bind (modify_succeeds ?_) (fun _ => ?_) self healthy
  · exact fun _ => rfl
  refine Op.succeeds_bind (writeAll_succeeds _) fun _ => ?_
  refine Op.succeeds_bind (writeAll_succeeds _) fun _ => ?_
  refine Op.succeeds_bind (writeAll_succeeds _) fun _ => ?_
  exact modify_succeeds fun _ => rfl

theorem sync_ok {self after : Writer} {image sent : List UInt8} {start outcome : Nat}
    (result : sync self = (.ok outcome, after)) (dirty : self.dirty = true)
    (streams : self.writer.Streams image start sent) :
    after.writer.file = writeAt image start sent ∧
      after.writer.cursor = start + sent.length ∧
      after.writer.buf = [] ∧
      after = { self with
        writer := after.writer
        flushedOffset := self.writeOffset
        dirty := false } := by
  unfold sync at result
  rw [Op.get_bind_apply, if_pos dirty] at result
  obtain ⟨_, flushedWriter, flushResult, result⟩ := onFile_bind_ok result
  obtain ⟨_, syncedWriter, syncResult, result⟩ := onFile_bind_ok result
  rw [Op.modify_bind_apply, Op.pure_apply] at result
  obtain ⟨rfl, rfl⟩ := by simpa using result
  have flushStreams := BufWriter.flushBuf_streams streams
  rw [flushResult] at flushStreams
  have empty := flushStreams.2.mp rfl
  obtain ⟨fileEq, cursorEq⟩ := flushStreams.1.flushed empty
  obtain rfl : syncedWriter = { flushedWriter with outcomes := flushedWriter.outcomes.tail } := by
    unfold BufWriter.syncData at syncResult
    split at syncResult
    · exact (congrArg Prod.snd syncResult).symm
    · cases syncResult
  exact ⟨fileEq, cursorEq, empty, rfl⟩

/-- With nothing buffered a sync changes neither the file nor the write offset. -/
theorem sync_of_empty {self : Writer} (empty : self.writer.buf = []) :
    ∃ outcomes dirty flushed, (sync self).2 = { self with
        writer := { self.writer with outcomes := outcomes }
        dirty := dirty
        flushedOffset := flushed } ∧
      (flushed = self.flushedOffset ∨ flushed = self.writeOffset) := by
  unfold sync
  rw [Op.get_bind_apply]
  by_cases dirty : self.dirty = true
  · have flushed : onFile BufWriter.flushBuf self = (.ok (), self) := by
      rw [onFile, Op.onPart, BufWriter.flushBuf, if_pos empty]
    rw [if_pos dirty, Op.bind_apply_ok flushed]
    cases called : self.writer.outcomes.headD .ok with
    | ok =>
        have synced : onFile BufWriter.syncData self =
            (.ok (), { self with
              writer := { self.writer with outcomes := self.writer.outcomes.tail } }) := by
          rw [onFile, Op.onPart, BufWriter.syncData, called]
        rw [Op.bind_apply_ok synced]
        exact ⟨_, _, _, rfl, .inr rfl⟩
    | fail written =>
        have failed : onFile BufWriter.syncData self =
            (.error .io, { self with
              writer := { self.writer with outcomes := self.writer.outcomes.tail } }) := by
          rw [onFile, Op.onPart, BufWriter.syncData, called]
        rw [Op.bind_apply_error failed]
        exact ⟨_, _, _, rfl, .inl rfl⟩
  · rw [if_neg dirty]
    exact ⟨_, _, _, rfl, .inl rfl⟩

theorem sync_succeeds : Op.Succeeds Healthy sync := by
  intro self healthy
  unfold sync
  rw [Op.get_bind_apply]
  split
  · refine Op.succeeds_bind (onFile_succeeds BufWriter.flushBuf_succeeds) (fun _ => ?_)
      self healthy
    refine Op.succeeds_bind (onFile_succeeds BufWriter.syncData_succeeds) fun _ => ?_
    refine Op.succeeds_bind (modify_succeeds ?_) fun _ => Op.succeeds_pure _
    exact fun _ => rfl
  · exact ⟨_, _, rfl, healthy⟩

end Writer

/-- The offsets of records written one after another. -/
def recordOffsets : (start : Nat) → List (List UInt8) → List Nat
  | _, [] => []
  | start, record :: records =>
      start :: recordOffsets (start + (recordHeadSize + record.length)) records

/-- The bytes of records written one after another. -/
def recordsBytes (crc : List UInt8 → UInt32) (records : List (List UInt8)) : List UInt8 :=
  (records.map (recordBytes crc [])).flatten

theorem recordsBytes_cons (record : List UInt8) (records : List (List UInt8)) :
    recordsBytes crc (record :: records) =
      recordBytes crc [] record ++ recordsBytes crc records := by
  simp [recordsBytes]

theorem length_recordsBytes (crc : List UInt8 → UInt32) (records : List (List UInt8)) :
    (recordsBytes crc records).length =
      (records.map fun record => recordHeadSize + record.length).sum := by
  induction records with
  | nil => rfl
  | cons record records ih =>
      rw [recordsBytes_cons, List.length_append, ih]
      simp

theorem batchBytes_eq (records : List (List UInt8)) (position : Nat) :
    batchBytes crc records position = recordsBytes crc records ++ markerBytes crc position :=
  rfl

/-- Size of a batch: its records and the commit marker. -/
def batchSize (records : List (List UInt8)) : Nat :=
  (records.map fun record => recordHeadSize + record.length).sum +
    (recordHeadSize + commitMarkerPayload)

@[simp]
theorem length_batchBytes (crc : List UInt8 → UInt32) (records : List (List UInt8)) (position : Nat) :
    (batchBytes crc records position).length = batchSize records := by
  rw [batchBytes_eq, List.length_append, length_recordsBytes, length_markerBytes, batchSize]

namespace Writer

variable (crc) in
/-- Appended records send their bytes one after another. -/
theorem appendRecords_writes (records : List (List UInt8)) :
    Writes (appendRecords crc records) (recordsBytes crc records)
      (recordsBytes crc records).length := by
  induction records with
  | nil => exact writes_pure [] 0
  | cons record records ih =>
      rw [recordsBytes_cons, List.length_append]
      refine writes_bind (append_writes crc [] record) (fun offset => ?_) (Nat.le_refl _)
      have rest := writes_bind ih (fun offsets => writes_pure (offset.1 :: offsets) 0)
        (Nat.le_refl _)
      rwa [List.append_nil, Nat.add_zero] at rest

theorem appendRecords_ok {records : List (List UInt8)} :
    ∀ {self after : Writer} {offsets : List Nat},
      appendRecords crc records self = (.ok offsets, after) →
      offsets = recordOffsets self.writeOffset records ∧
        after = { self with
          writer := after.writer
          dirty := after.dirty
          writeOffset := self.writeOffset + (recordsBytes crc records).length } := by
  induction records with
  | nil =>
      intro self after offsets result
      obtain ⟨rfl, rfl⟩ : [] = offsets ∧ self = after := by
        simpa [appendRecords] using result
      exact ⟨rfl, rfl⟩
  | cons record records ih =>
      intro self after offsets result
      obtain ⟨⟨offset, total⟩, middle, first, result⟩ := Op.bind_eq_ok result
      obtain ⟨later, final, rest, result⟩ := Op.bind_eq_ok result
      obtain ⟨rfl, rfl⟩ : offset :: later = offsets ∧ final = after := by
        simpa using result
      obtain ⟨offsetEq, middleEq⟩ := append_ok first
      obtain ⟨laterEq, finalEq⟩ := ih rest
      have middleOffset : middle.writeOffset =
          self.writeOffset + (recordHeadSize + record.length) := by
        rw [middleEq]
        simp
      refine ⟨?_, ?_⟩
      · rw [recordOffsets, laterEq, middleOffset, ← offsetEq]
      · rw [finalEq, middleEq]
        simp [recordsBytes_cons, Nat.add_assoc]

variable (crc) in
theorem appendRecords_succeeds {records : List (List UInt8)} :
    ∀ {self : Writer}, self.Healthy →
      (∀ record ∈ records, recordHeadSize + record.length ≤ self.maxRecord) →
      self.writeOffset + (recordsBytes crc records).length ≤ self.size →
      ∃ offsets after, appendRecords crc records self = (.ok offsets, after) ∧
        after.Healthy := by
  induction records with
  | nil =>
      intro self healthy _ _
      exact ⟨[], self, rfl, healthy⟩
  | cons record records ih =>
      intro self healthy short fits
      rw [recordsBytes_cons, List.length_append, length_recordBytes, List.length_nil,
        Nat.zero_add] at fits
      obtain ⟨outcome, middle, first, middleHealthy⟩ :=
        append_succeeds crc [] record healthy
          (by simpa using short record (by simp)) (by simp; omega)
      obtain ⟨_, middleEq⟩ := append_ok first
      have sizeEq : middle.size = self.size := by rw [middleEq]
      have maxEq : middle.maxRecord = self.maxRecord := by rw [middleEq]
      have offsetEq : middle.writeOffset =
          self.writeOffset + (recordHeadSize + record.length) := by
        rw [middleEq]
        simp
      obtain ⟨offsets, after, rest, afterHealthy⟩ := ih middleHealthy
        (fun record member => by rw [maxEq]; exact short record (by simp [member]))
        (by omega)
      refine ⟨outcome.1 :: offsets, after, ?_, afterHealthy⟩
      rw [appendRecords, Op.bind_apply_ok first]
      exact Op.bind_apply_ok rest

/-- Nothing is buffered and the file cursor stands at the write offset. -/
structure Clean (writer : Writer) : Prop where
  buf_nil : writer.writer.buf = []
  cursor_eq : writer.writer.cursor = writer.writeOffset

instance (writer : Writer) : Decidable writer.Clean :=
  decidable_of_iff (_ ∧ _) ⟨fun both => ⟨both.1, both.2⟩, fun clean => ⟨clean.buf_nil, clean.cursor_eq⟩⟩

/-- A written batch stands in the file from the write offset on. -/
theorem writeBatch_ok {self after : Writer} {records : List (List UInt8)} {position : Nat}
    {offsets : List Nat} (clean : self.Clean)
    (result : writeBatch crc records position self = (.ok offsets, after)) :
    offsets = recordOffsets self.writeOffset records ∧
      after.writer.file =
        writeAt self.writer.file self.writeOffset (batchBytes crc records position) ∧
      after.Clean ∧
      after = { self with
        writer := after.writer
        dirty := false
        writeOffset := self.writeOffset + batchSize records
        flushedOffset := self.writeOffset + batchSize records
        lastPosition := some position } := by
  obtain ⟨written, middle, appended, result⟩ := Op.bind_eq_ok result
  obtain ⟨_, final, committed, result⟩ := Op.bind_eq_ok result
  obtain ⟨rfl, rfl⟩ : written = offsets ∧ final = after := by simpa using result
  obtain ⟨_, marked, marker, committed⟩ := Op.bind_eq_ok committed
  rw [Op.modify_bind_apply] at committed
  obtain ⟨offsetsEq, middleEq⟩ := appendRecords_ok appended
  have markedEq := writeCommitMarker_ok marker
  have streams := (appendRecords_writes crc records).streams_ok appended
    (BufWriter.streams_start clean.buf_nil)
  have markedStreams :=
    (writeCommitMarker_writes crc position).streams_ok marker streams
  obtain ⟨fileEq, cursorEq, bufEq, finalEq⟩ :=
    sync_ok committed (by rw [markedEq]) markedStreams
  have lengthEq := length_batchBytes crc records position
  rw [batchBytes_eq, List.length_append] at lengthEq
  rw [clean.cursor_eq, List.nil_append] at fileEq cursorEq
  have offsetEq : marked.writeOffset = self.writeOffset + batchSize records := by
    rw [markedEq, middleEq]
    simp only
    omega
  have finalEq' : final = { self with
      writer := final.writer
      dirty := false
      writeOffset := self.writeOffset + batchSize records
      flushedOffset := self.writeOffset + batchSize records
      lastPosition := some position } := by
    rw [finalEq]
    simp only [offsetEq]
    rw [markedEq, middleEq]
  refine ⟨offsetsEq, fileEq, ⟨bufEq, ?_⟩, finalEq'⟩
  rw [cursorEq, finalEq', List.length_append]
  simp only
  omega

variable (crc) in
/-- Without faults a batch that fits is written. -/
theorem writeBatch_succeeds {self : Writer} {records : List (List UInt8)} (position : Nat)
    (healthy : self.Healthy)
    (short : ∀ record ∈ records, recordHeadSize + record.length ≤ self.maxRecord)
    (fits : self.writeOffset + batchSize records ≤ self.size) :
    ∃ offsets after, writeBatch crc records position self = (.ok offsets, after) ∧
      after.Healthy := by
  have lengthEq := length_recordsBytes crc records
  rw [batchSize] at fits
  obtain ⟨offsets, middle, appended, middleHealthy⟩ :=
    appendRecords_succeeds crc healthy short (by omega)
  obtain ⟨_, middleEq⟩ := appendRecords_ok appended
  have sizeEq : middle.size = self.size := by rw [middleEq]
  have offsetEq : middle.writeOffset = self.writeOffset + (recordsBytes crc records).length := by
    rw [middleEq]
  obtain ⟨_, marked, marker, markedHealthy⟩ :=
    writeCommitMarker_succeeds crc position middleHealthy (by omega)
  obtain ⟨outcome, after, synced, afterHealthy⟩ :=
    sync_succeeds { marked with lastPosition := some position } markedHealthy
  refine ⟨offsets, after, ?_, afterHealthy⟩
  rw [writeBatch, Op.bind_apply_ok appended]
  have committed : commit crc position middle = (.ok outcome, after) := by
    rw [commit, Op.bind_apply_ok marker, Op.modify_bind_apply, synced]
  rw [Op.bind_apply_ok committed, Op.pure_apply]

end Writer

end Seglog

end Tephra
