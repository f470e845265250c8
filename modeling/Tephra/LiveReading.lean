import Tephra.Crc32
import Tephra.FailingCalls
import Tephra.Histories
import Tephra.RecordPeeking

/-!
# Reading a segment that grows

A reader shares the flushed offset of a writer and keeps the bytes around its last sequential
read.  These may lie past what was written when they were loaded, and nothing drops them when
the writer goes on: a later read below the flushed offset is then answered with the bytes that
stood there before.  A system call that fails while the buffer is filled leaves it at another
offset with the bytes it had.  As long as a call takes no such bytes, it answers as a random read
does.
-/

namespace Tephra

namespace Seglog

open ByteImage FrameChain Fallible

namespace Reader

/-- The buffered bytes below an offset are those of the file. -/
def Loaded (self : Reader) (loaded : Nat) : Prop :=
  ∀ index, self.readAheadBuf.offset ≤ index →
    index < self.readAheadBuf.offset + self.readAheadBuf.validLen → index < loaded →
      ∃ byte, self.readAheadBuf.buf[index - self.readAheadBuf.offset]? = some byte ∧
        self.file[index]? = some byte

/-- So they are, and no fill fails. -/
structure Partly (reader : Reader) (loaded : Nat) : Prop where
  loaded : reader.Loaded loaded
  spared : reader.readAheadBuf.outcomes = []

/-- How many flushed bytes a read at an offset needs: those of the head, and those of the record
that the head announces. -/
inductive Needs (self : Reader) (offset : Nat) : Nat → Prop
  | head (fits : offset + recordHeadSize ≤ self.flushedOffset) :
      Needs self offset recordHeadSize
  | record {head : List UInt8}
      (read : readExact self.file offset recordHeadSize = some head)
      (known : hasUnknownFlags (headRaw head) = false)
      (fits : offset + (recordHeadSize + payloadLenField (headRaw head)) ≤ self.flushedOffset) :
      Needs self offset (recordHeadSize + payloadLenField (headRaw head))

/-- What a read at an offset finds in the buffer lies below an offset. -/
def Fresh (self : Reader) (loaded offset : Nat) : Prop :=
  ∀ length, self.Needs offset length → self.readAheadBuf.covers offset length = true →
    offset + length ≤ loaded

/-- The framed length of a control record that a read came upon. -/
def controlLen : Except ReadFault Record → Option Nat
  | .error (.error (.controlRecord _ len)) => some len
  | _ => none

variable (crc : List UInt8 → UInt32)

/-- Between the offsets there are control records, all of them in the buffer. -/
inductive Skims (headerSize : Nat) (self : Reader) : Nat → Nat → Prop
  | here (offset : Nat) : Skims headerSize self offset offset
  | skip {offset len target : Nat} (covered : self.readAheadBuf.covers offset len = true)
      (control : controlLen (self.readRecordRandom crc headerSize offset) = some len)
      (later : Skims headerSize self (offset + len) target) :
      Skims headerSize self offset target

/-- What an iteration step at an offset finds in the buffer lies below an offset. -/
def FreshFrom (headerSize : Nat) (self : Reader) (loaded offset : Nat) : Prop :=
  ∀ target, Skims crc headerSize self offset target → self.Fresh loaded target

/-- Skip control records by random reads. -/
def randomSkip (headerSize : Nat) (self : Reader) : Nat → Nat → Nat
  | 0, offset => offset
  | fuel + 1, offset =>
      match controlLen (self.readRecordRandom crc headerSize offset) with
      | none => offset
      | some len => randomSkip headerSize self fuel (offset + len)

/-- An iteration step made of random reads. -/
def randomNext (headerSize : Nat) (self : Reader) (offset : Nat) :
    Except ReadFault (Option Record) :=
  match self.readRecordRandom crc headerSize
      (randomSkip crc headerSize self (self.flushedOffset + 1) offset) with
  | .ok record => .ok (some record)
  | .error (.error (.outOfBounds _ _ _)) => .ok none
  | .error (.error (.truncationMarker _)) => .ok none
  | .error fault => .error fault

/-- The classification of a record that goes with the result of a read. -/
def Classifies : Except ReadFault Record → Except ReadFault RecordKind → Prop
  | .ok record, peeked => peeked = .ok (.data record.len)
  | .error (.error (.controlRecord _ len)), peeked => peeked = .ok (.control len)
  | .error (.error (.outOfBounds _ _ _)), peeked => peeked = .ok .done
  | .error (.error (.truncationMarker _)), peeked => peeked = .ok .done
  | .error (.error (.corrupt offset)), peeked => peeked = .error (.error (.corrupt offset))
  | .error (.error .unexpectedEof), peeked => peeked = .error (.error .unexpectedEof)
  -- A peek trusts the framing: it does not see a damaged payload.
  | .error _, peeked => ∃ len, peeked = .ok (.data len) ∨ peeked = .ok (.control len)

variable {crc}

/-- The buffer is kept, or its bytes up to those that a fill has read are those of the file.
Where no fill fails, all of them are. -/
structure Refreshed (before after : Reader) : Prop where
  file_eq : after.file = before.file
  flushed_eq : after.flushedOffset = before.flushedOffset
  spared : before.readAheadBuf.outcomes = [] →
    after = before ∨ after.Reads before.file before.flushedOffset
  filled : after.readAheadBuf.withOutcomes [] = before.readAheadBuf.withOutcomes [] ∨
    after.Loaded (after.readAheadBuf.offset + after.readAheadBuf.filledLen)

theorem Refreshed.refl (self : Reader) : Refreshed self self :=
  ⟨rfl, rfl, fun _ => .inl rfl, .inl rfl⟩

theorem Loaded.congr {self after : Reader} {loaded : Nat} (here : self.Loaded loaded)
    (file : after.file = self.file)
    (buffer : after.readAheadBuf.withOutcomes [] = self.readAheadBuf.withOutcomes []) :
    after.Loaded loaded := by
  obtain ⟨bufEq, offsetEq, validEq, -⟩ := ReadAheadBuf.mk.inj buffer
  intro index
  rw [bufEq, offsetEq, validEq, file]
  exact here index

theorem Refreshed.trans {self middle after : Reader} (first : Refreshed self middle)
    (second : Refreshed middle after) : Refreshed self after where
  file_eq := second.file_eq.trans first.file_eq
  flushed_eq := second.flushed_eq.trans first.flushed_eq
  spared := by
    intro spared
    rcases first.spared spared with rfl | reads
    · exact second.spared spared
    · rcases second.spared reads.caches.spared with rfl | reads'
      · exact .inr reads
      · rw [reads.file_eq, reads.flushed_eq] at reads'
        exact .inr reads'
  filled := by
    rcases second.filled with kept | loaded
    · rcases first.filled with same | loaded
      · exact .inl (kept.trans same)
      · obtain ⟨-, offsetEq, -, filledEq, -⟩ := ReadAheadBuf.mk.inj kept
        rw [offsetEq, filledEq]
        exact .inr (loaded.congr second.file_eq kept)
    · exact .inr loaded

theorem loaded_of_read {reader : Reader} {count : Nat} {rest : List UInt8}
    (bufEq : reader.readAheadBuf.buf =
      (reader.file.drop reader.readAheadBuf.offset).take count ++ rest) :
    reader.Loaded (reader.readAheadBuf.offset +
      ((reader.file.drop reader.readAheadBuf.offset).take count).length) := by
  intro index above _ below
  rw [List.length_take, List.length_drop] at below
  have inFile : index < reader.file.length := by omega
  refine ⟨reader.file[index], ?_, List.getElem?_eq_getElem inFile⟩
  rw [bufEq, List.getElem?_append_left (by rw [List.length_take, List.length_drop]; omega),
    List.getElem?_take_of_lt (by omega), List.getElem?_drop, Nat.add_sub_cancel' above,
    List.getElem?_eq_getElem inFile]

theorem loaded_fill (self : Reader) (offset length : Nat) :
    Loaded { self with readAheadBuf := (self.readAheadBuf.fill self.file offset length).2 }
      ((self.readAheadBuf.fill self.file offset length).2.offset +
        (self.readAheadBuf.fill self.file offset length).2.filledLen) := by
  unfold ReadAheadBuf.fill
  cases self.readAheadBuf.outcomes.headD .ok with
  | ok => exact loaded_of_read rfl
  | fail read => exact loaded_of_read rfl

theorem readAhead_refreshed (self : Reader) (offset length : Nat) :
    Refreshed self (self.readAhead offset length).2 := by
  unfold readAhead ReadAheadBuf.read
  by_cases covered : self.readAheadBuf.covers offset length = true
  · rw [if_pos covered]
    exact .refl self
  rw [if_neg covered]
  have loaded := self.loaded_fill offset length
  have spared : self.readAheadBuf.outcomes = [] →
      (self.readAheadBuf.fill self.file offset length).2.Caches self.file := by
    intro spared
    obtain ⟨filled, result, caches, -⟩ :=
      ReadAheadBuf.fill_caches spared self.file offset length
    rw [result]
    exact caches
  generalize self.readAheadBuf.fill self.file offset length = read at loaded spared ⊢
  obtain ⟨outcome, filled⟩ := read
  have refreshed : Refreshed self { self with readAheadBuf := filled } :=
    ⟨rfl, rfl, fun none => .inr ⟨rfl, rfl, spared none⟩, .inr loaded⟩
  cases outcome with
  | error error => exact refreshed
  | ok value =>
      dsimp only
      split <;> exact refreshed

/-- Covered bytes below the offset are those of the file. -/
theorem Loaded.slice_eq {self : Reader} {loaded offset length : Nat}
    (here : self.Loaded loaded) (covered : self.readAheadBuf.covers offset length = true)
    (below : offset + length ≤ loaded) (fits : offset + length ≤ self.file.length) :
    ∃ bytes, readExact self.file offset length = some bytes ∧
      self.readAheadBuf.slice offset length = .ok bytes := by
  simp only [ReadAheadBuf.covers, Bool.and_eq_true, decide_eq_true_eq] at covered
  obtain ⟨above, inside⟩ := covered
  have each : ∀ index < length, ∃ byte,
      (self.readAheadBuf.buf.drop (offset - self.readAheadBuf.offset))[index]? = some byte ∧
        self.file[offset + index]? = some byte := by
    intro index indexLt
    obtain ⟨byte, buffered, found⟩ := here (offset + index) (by omega) (by omega) (by omega)
    refine ⟨byte, ?_, found⟩
    rw [List.getElem?_drop, ← buffered]
    congr 1
    omega
  have sized : ((self.readAheadBuf.buf.drop (offset - self.readAheadBuf.offset)).take
      length).length = length := by
    cases length with
    | zero => simp
    | succ length =>
        obtain ⟨byte, buffered, -⟩ := each length (Nat.lt_succ_self length)
        have reaches := (List.getElem?_eq_some_iff.mp buffered).1
        rw [List.length_take]
        omega
  refine ⟨_, ?_, by rw [ReadAheadBuf.slice, if_pos sized]⟩
  rw [readExact_eq_some_iff_getElem? fits]
  refine ⟨sized, fun index indexLt => ?_⟩
  obtain ⟨byte, buffered, found⟩ := each index indexLt
  rw [List.getElem?_take_of_lt indexLt, buffered, found]

/-- A read through the buffer that takes only such bytes answers as the file does. -/
theorem Partly.readAhead_eq {self : Reader} {loaded offset length : Nat}
    (partly : self.Partly loaded) (fits : offset + length ≤ self.file.length)
    (below : self.readAheadBuf.covers offset length = true → offset + length ≤ loaded) :
    ∃ bytes after, readExact self.file offset length = some bytes ∧
      self.readAhead offset length = (.ok bytes, after) ∧
      (after = self ∧ self.readAheadBuf.covers offset length = true ∨
        after.Reads self.file self.flushedOffset) := by
  by_cases covered : self.readAheadBuf.covers offset length = true
  · obtain ⟨bytes, found, sliced⟩ := partly.loaded.slice_eq covered (below covered) fits
    refine ⟨bytes, self, found, ?_, .inl ⟨rfl, covered⟩⟩
    rw [readAhead, ReadAheadBuf.read, if_pos covered, sliced]
  · obtain ⟨filled, result, caches, covers⟩ :=
      ReadAheadBuf.fill_caches partly.spared self.file offset length
    obtain ⟨bytes, found, sliced⟩ := caches.slice_eq (covers fits) fits
    refine ⟨bytes, _, found, ?_, .inr (Reads.mk rfl rfl caches : Reads ⟨_, _, _⟩ _ _)⟩
    rw [readAhead, ReadAheadBuf.read, if_neg covered, result]
    dsimp only
    rw [if_pos (covers fits), sliced]

theorem Reads.partly {self : Reader} {file : List UInt8} {flushed : Nat}
    (reads : self.Reads file flushed) (loaded : Nat) : self.Partly loaded := by
  obtain ⟨rfl, rfl, ⟨inside, length, bytesEq⟩, spared⟩ := reads
  refine ⟨fun index above valid _ => ?_, spared⟩
  have taken := congrArg List.length bytesEq
  rw [List.length_take, List.length_take, Nat.min_eq_left inside] at taken
  have same := congrArg (fun bytes : List UInt8 =>
    bytes[index - self.readAheadBuf.offset]?) bytesEq
  rw [List.getElem?_take_of_lt (by omega), List.getElem?_take_of_lt (by omega),
    List.getElem?_drop, Nat.add_sub_cancel' above] at same
  rw [← same, List.getElem?_eq_getElem (by omega)]
  exact ⟨_, rfl, rfl⟩

/-- Nothing that a read needs lies past the end of the file. -/
theorem fresh_length {self : Reader} (inFile : self.flushedOffset ≤ self.file.length)
    (offset : Nat) : self.Fresh self.file.length offset := by
  intro length needs _
  cases needs with
  | head fits => exact fits.trans inFile
  | record _ _ fits => exact fits.trans inFile

theorem covers_append {buffer : ReadAheadBuf} {offset first second : Nat}
    (left : buffer.covers offset first = true)
    (right : buffer.covers (offset + first) second = true) :
    buffer.covers offset (first + second) = true := by
  simp only [ReadAheadBuf.covers, Bool.and_eq_true, decide_eq_true_eq] at left right ⊢
  omega

/-- A read keeps the reader, or reads the same flushed bytes. -/
theorem flushed_of_kept {self first : Reader} {kept : Prop}
    (firstEq : first = self ∧ kept ∨ first.Reads self.file self.flushedOffset) :
    first.flushedOffset = self.flushedOffset := by
  rcases firstEq with ⟨rfl, _⟩ | reads
  · rfl
  · exact reads.flushed_eq

/-- The head of a record, through a buffer that is fresh there. -/
theorem Partly.readAhead_head {self : Reader} {loaded offset : Nat}
    (partly : self.Partly loaded) (inFile : self.flushedOffset ≤ self.file.length)
    (fresh : self.Fresh loaded offset) (fits : offset + recordHeadSize ≤ self.flushedOffset) :
    ∃ head first, readExact self.file offset recordHeadSize = some head ∧
      self.readAhead offset recordHeadSize = (.ok head, first) ∧
      (first = self ∧ self.readAheadBuf.covers offset recordHeadSize = true ∨
        first.Reads self.file self.flushedOffset) :=
  partly.readAhead_eq (fits.trans inFile) (fresh recordHeadSize (.head fits))

theorem Partly.readAhead_payload {self first : Reader} {head : List UInt8}
    {loaded offset : Nat} (partly : self.Partly loaded)
    (inFile : self.flushedOffset ≤ self.file.length) (fresh : self.Fresh loaded offset)
    (readHead : readExact self.file offset recordHeadSize = some head)
    (known : hasUnknownFlags (headRaw head) = false)
    (fits : offset + recordHeadSize + payloadLenField (headRaw head) ≤ self.flushedOffset)
    (firstEq : first = self ∧ self.readAheadBuf.covers offset recordHeadSize = true ∨
      first.Reads self.file self.flushedOffset) :
    ∃ payload second,
      readExact self.file (offset + recordHeadSize) (payloadLenField (headRaw head)) =
        some payload ∧
      first.readAhead (offset + recordHeadSize) (payloadLenField (headRaw head)) =
        (.ok payload, second) ∧
      (second = self ∧ self.readAheadBuf.covers offset
          (recordHeadSize + payloadLenField (headRaw head)) = true ∨
        second.Reads self.file self.flushedOffset) := by
  rcases firstEq with ⟨rfl, headCovered⟩ | reads
  · have below : first.readAheadBuf.covers (offset + recordHeadSize)
          (payloadLenField (headRaw head)) = true →
        offset + recordHeadSize + payloadLenField (headRaw head) ≤ loaded := by
      intro covered
      have bound := fresh _ (.record readHead known (by omega))
        (covers_append headCovered covered)
      omega
    obtain ⟨payload, second, readPayload, secondRead, secondEq⟩ :=
      partly.readAhead_eq (fits.trans inFile) below
    refine ⟨payload, second, readPayload, secondRead, ?_⟩
    rcases secondEq with ⟨rfl, covered⟩ | reads
    · exact .inl ⟨rfl, covers_append headCovered covered⟩
    · exact .inr reads
  · obtain ⟨payload, second, readPayload, secondRead, secondReads⟩ :=
      readAhead_spec reads (fits.trans inFile)
    exact ⟨payload, second, readPayload, secondRead, .inr secondReads⟩

/-- A sequential read that takes only fresh bytes answers as a random read does. -/
theorem Partly.readRecord_eq {self : Reader} {loaded offset : Nat} (headerSize : Nat)
    (partly : self.Partly loaded) (inFile : self.flushedOffset ≤ self.file.length)
    (fresh : self.Fresh loaded offset) :
    (self.readRecord crc headerSize offset).1 = self.readRecordRandom crc headerSize offset := by
  unfold readRecord readRecordRandom
  by_cases beyond : offset + recordHeadSize > self.flushedOffset
  · rw [if_pos beyond, if_pos beyond]
  rw [if_neg beyond, if_neg beyond]
  obtain ⟨head, first, readHead, firstRead, firstEq⟩ :=
    partly.readAhead_head inFile fresh (Nat.not_lt.mp beyond)
  have firstFlushed := flushed_of_kept firstEq
  obtain ⟨optimistic, readFirst, headEq⟩ := readExact_optimistic readHead inFile beyond
  simp only [readRecordSequential, firstRead, firstFlushed, readFirst, headEq]
  by_cases zero : isTruncationMarker head = true
  · rw [if_pos zero, if_pos zero]
  rw [if_neg zero, if_neg zero]
  by_cases unknown : hasUnknownFlags (headRaw head) = true
  · rw [if_pos unknown, if_pos unknown]
  rw [if_neg unknown, if_neg unknown]
  by_cases long : offset + recordHeadSize + payloadLenField (headRaw head) > self.flushedOffset
  · rw [if_pos long, if_pos long]
  rw [if_neg long, if_neg long]
  obtain ⟨payload, second, readPayload, secondRead, _⟩ :=
    partly.readAhead_payload inFile fresh readHead (by simpa using unknown)
      (Nat.not_lt.mp long) firstEq
  simp only [secondRead, payloadOf_eq readFirst readPayload]
  cases isControlField (headRaw head) with
  | false =>
      simp only [Bool.false_eq_true, if_false]
      split
      · rfl
      · split <;> rfl
  | true =>
      simp only [if_true, Nat.not_lt_zero, if_false]
      split <;> rfl

/-- So does the look for a control record, which may read through the buffer or fill it. -/
theorem Partly.controlLenAt_eq {self : Reader} {loaded offset : Nat} (headerSize : Nat)
    (partly : self.Partly loaded) (inFile : self.flushedOffset ≤ self.file.length)
    (fresh : self.Fresh loaded offset) :
    ∃ after, self.controlLenAt crc offset =
        (controlLen (self.readRecordRandom crc headerSize offset), after) ∧
      (after = self ∧ (∀ len, controlLen (self.readRecordRandom crc headerSize offset) =
          some len → self.readAheadBuf.covers offset len = true) ∨
        after.Reads self.file self.flushedOffset) := by
  unfold controlLenAt readRecordRandom
  by_cases beyond : offset + recordHeadSize > self.flushedOffset
  · rw [if_pos beyond, if_pos beyond]
    exact ⟨self, rfl, .inl ⟨rfl, fun _ found => by cases found⟩⟩
  rw [if_neg beyond, if_neg beyond]
  obtain ⟨head, first, readHead, firstRead, firstEq⟩ :=
    partly.readAhead_head inFile fresh (Nat.not_lt.mp beyond)
  have firstFlushed := flushed_of_kept firstEq
  obtain ⟨optimistic, readFirst, headEq⟩ := readExact_optimistic readHead inFile beyond
  simp only [firstRead, firstFlushed, readFirst, headEq]
  -- Where no control record is found the first read is the only one.
  have stopped : ∀ result : Except ReadFault Record, controlLen result = none →
      ∃ after, ((none : Option Nat), first) = (controlLen result, after) ∧
        (after = self ∧ (∀ len, controlLen result = some len →
            self.readAheadBuf.covers offset len = true) ∨
          after.Reads self.file self.flushedOffset) := by
    intro result noControl
    refine ⟨first, by rw [noControl], firstEq.imp_left (And.imp_right fun _ => ?_)⟩
    intro len found
    rw [noControl] at found
    cases found
  by_cases zero : isTruncationMarker head = true
  · rw [if_pos zero, if_pos zero]
    exact stopped _ rfl
  rw [if_neg zero, if_neg zero]
  by_cases unknown : hasUnknownFlags (headRaw head) = true
  · rw [if_pos (by simp [unknown]), if_pos unknown]
    exact stopped _ rfl
  rw [if_neg unknown]
  by_cases long : offset + recordHeadSize + payloadLenField (headRaw head) > self.flushedOffset
  · rw [if_pos long, ← Nat.add_assoc, if_pos long]
    split <;> exact stopped _ rfl
  rw [if_neg long, ← Nat.add_assoc, if_neg long]
  obtain ⟨payload, second, readPayload, secondRead, secondEq⟩ :=
    partly.readAhead_payload inFile fresh readHead (by simpa using unknown)
      (Nat.not_lt.mp long) firstEq
  simp only [secondRead, payloadOf_eq readFirst readPayload]
  cases control : isControlField (headRaw head) with
  | false =>
      simp only [Bool.not_false, Bool.true_or, if_true, Bool.false_eq_true, if_false]
      split
      · exact stopped _ rfl
      · split <;> exact stopped _ rfl
  | true =>
      have lengthBytes := (take_lenSize_eq readHead).symm
      simp only [Bool.not_true, Bool.false_or, unknown, Bool.false_eq_true, if_false, if_true,
        Nat.not_lt_zero, List.take_zero, List.drop_zero, lengthBytes]
      by_cases damaged : (calculateCrc32c crc (head.take lenSize) [] payload).toNat ≠ headCrc head
      · rw [if_pos damaged, if_pos damaged]
        exact ⟨second, rfl, secondEq.imp_left (And.imp_right fun _ _ found => by cases found)⟩
      · rw [if_neg damaged, if_neg damaged]
        refine ⟨second, rfl, secondEq.imp_left (And.imp_right fun covered len found => ?_)⟩
        obtain rfl : recordHeadSize + payloadLenField (headRaw head) = len := by
          simpa [controlLen] using found
        exact covered

/-- A peek whose head is fresh classifies what a random read finds. -/
theorem Partly.peek_classifies {self : Reader} {loaded offset : Nat} (headerSize : Nat)
    (partly : self.Partly loaded) (inFile : self.flushedOffset ≤ self.file.length)
    (below : self.readAheadBuf.covers offset recordHeadSize = true →
      offset + recordHeadSize ≤ self.flushedOffset → offset + recordHeadSize ≤ loaded) :
    Classifies (self.readRecordRandom crc headerSize offset) (self.peek offset).1 := by
  unfold peek readRecordRandom
  by_cases beyond : offset + recordHeadSize > self.flushedOffset
  · rw [if_pos beyond, if_pos beyond]
    rfl
  rw [if_neg beyond, if_neg beyond]
  obtain ⟨head, first, readHead, firstRead, firstEq⟩ :=
    partly.readAhead_eq ((Nat.not_lt.mp beyond).trans inFile)
      (fun covered => below covered (Nat.not_lt.mp beyond))
  have firstFlushed := flushed_of_kept firstEq
  obtain ⟨optimistic, readFirst, headEq⟩ := readExact_optimistic readHead inFile beyond
  simp only [firstRead, firstFlushed, readFirst, headEq]
  by_cases zero : isTruncationMarker head = true
  · rw [if_pos zero, if_pos zero]
    rfl
  rw [if_neg zero, if_neg zero]
  by_cases unknown : hasUnknownFlags (headRaw head) = true
  · rw [if_pos unknown, if_pos unknown]
    rfl
  rw [if_neg unknown, if_neg unknown]
  by_cases long : offset + recordHeadSize + payloadLenField (headRaw head) > self.flushedOffset
  · rw [if_pos long, ← Nat.add_assoc, if_pos long]
    rfl
  rw [if_neg long, ← Nat.add_assoc, if_neg long]
  have payloadFits : offset + recordHeadSize + payloadLenField (headRaw head) ≤
      self.file.length := (Nat.not_lt.mp long).trans inFile
  have readPayload := readExact_eq_some_iff.mpr ⟨payloadFits, rfl⟩
  simp only [payloadOf_eq readFirst readPayload]
  cases isControlField (headRaw head) with
  | false =>
      simp only [Bool.false_eq_true, if_false]
      split
      · exact ⟨_, .inl rfl⟩
      · split
        · exact ⟨_, .inl rfl⟩
        · rfl
  | true =>
      simp only [if_true, Nat.not_lt_zero, if_false]
      split
      · exact ⟨_, .inr rfl⟩
      · rfl

theorem Reads.readRecordRandom_eq {self after : Reader}
    (reads : after.Reads self.file self.flushedOffset) (headerSize offset : Nat) :
    after.readRecordRandom crc headerSize offset =
      self.readRecordRandom crc headerSize offset := by
  obtain ⟨file, flushed, buffer⟩ := self
  obtain ⟨rfl, rfl, _⟩ := reads
  rfl

/-- A reader on the way of an iteration step: nothing but control records from the buffer were
skipped so far, or the buffer was filled. -/
def OnTheWay (crc : List UInt8 → UInt32) (headerSize loaded : Nat) (self after : Reader)
    (offset : Nat) : Prop :=
  after = self ∧ FreshFrom crc headerSize self loaded offset ∨
    after.Reads self.file self.flushedOffset

theorem OnTheWay.controlLenAt_eq {self reader : Reader} {headerSize loaded offset : Nat}
    (partly : self.Partly loaded) (inFile : self.flushedOffset ≤ self.file.length)
    (way : OnTheWay crc headerSize loaded self reader offset) :
    ∃ after, reader.controlLenAt crc offset =
        (controlLen (self.readRecordRandom crc headerSize offset), after) ∧
      OnTheWay crc headerSize loaded self after
        (offset + (controlLen (self.readRecordRandom crc headerSize offset)).getD 0) := by
  rcases way with ⟨rfl, fresh⟩ | reads
  · obtain ⟨after, found, afterEq⟩ :=
      partly.controlLenAt_eq headerSize inFile (fresh offset (.here offset))
    refine ⟨after, found, afterEq.imp_left fun ⟨same, covered⟩ => ⟨same, ?_⟩⟩
    cases control : controlLen (reader.readRecordRandom crc headerSize offset) with
    | none => exact fresh
    | some len =>
        intro target skims
        exact fresh target (.skip (covered len control) control skims)
  · have inFile' : reader.flushedOffset ≤ reader.file.length := by
      rw [reads.file_eq, reads.flushed_eq]
      exact inFile
    obtain ⟨after, found, afterEq⟩ :=
      (reads.partly reader.file.length).controlLenAt_eq headerSize inFile'
        (fresh_length inFile' offset)
    rw [reads.readRecordRandom_eq] at found
    refine ⟨after, found, .inr ?_⟩
    rcases afterEq with ⟨rfl, _⟩ | reads'
    · exact reads
    · rwa [reads.file_eq, reads.flushed_eq] at reads'

theorem OnTheWay.skipControls_eq {self : Reader} {headerSize loaded : Nat}
    (partly : self.Partly loaded) (inFile : self.flushedOffset ≤ self.file.length)
    (fuel : Nat) (iter : Iter)
    (way : OnTheWay crc headerSize loaded self iter.reader iter.offset) :
    ∃ reader, Iter.skipControls crc fuel iter =
        ⟨reader, randomSkip crc headerSize self fuel iter.offset⟩ ∧
      OnTheWay crc headerSize loaded self reader
        (randomSkip crc headerSize self fuel iter.offset) := by
  induction fuel generalizing iter with
  | zero => exact ⟨iter.reader, rfl, way⟩
  | succ fuel ih =>
      obtain ⟨after, found, afterWay⟩ := way.controlLenAt_eq partly inFile
      rw [Iter.skipControls, randomSkip, found]
      cases control : controlLen (self.readRecordRandom crc headerSize iter.offset) with
      | none =>
          rw [control] at afterWay
          exact ⟨after, rfl, afterWay⟩
      | some len =>
          rw [control] at afterWay
          exact ih ⟨after, iter.offset + len⟩ afterWay

theorem OnTheWay.readRecord_eq {self reader : Reader} {headerSize loaded offset : Nat}
    (partly : self.Partly loaded) (inFile : self.flushedOffset ≤ self.file.length)
    (way : OnTheWay crc headerSize loaded self reader offset) :
    (reader.readRecord crc headerSize offset).1 =
      self.readRecordRandom crc headerSize offset := by
  rcases way with ⟨rfl, fresh⟩ | reads
  · exact partly.readRecord_eq headerSize inFile (fresh offset (.here offset))
  · have inFile' : reader.flushedOffset ≤ reader.file.length := by
      rw [reads.file_eq, reads.flushed_eq]
      exact inFile
    rw [← reads.readRecordRandom_eq headerSize offset]
    exact (reads.partly reader.file.length).readRecord_eq headerSize inFile'
      (fresh_length inFile' offset)

/-- An iteration step that takes only fresh bytes is made of random reads. -/
theorem Partly.nextRecord_eq {self : Reader} {headerSize loaded offset : Nat}
    (partly : self.Partly loaded) (inFile : self.flushedOffset ≤ self.file.length)
    (fresh : FreshFrom crc headerSize self loaded offset) :
    (Iter.nextRecord crc headerSize ⟨self, offset⟩).1 =
      self.randomNext crc headerSize offset := by
  obtain ⟨reader, skipped, way⟩ :=
    OnTheWay.skipControls_eq partly inFile (self.flushedOffset + 1) ⟨self, offset⟩
      (.inl ⟨rfl, fresh⟩)
  have result := way.readRecord_eq partly inFile
  rw [Iter.nextRecord, randomNext, ← result]
  simp only [skipped]
  generalize reader.readRecord crc headerSize _ = read
  obtain ⟨outcome, after⟩ := read
  cases outcome with
  | ok record => rfl
  | error fault =>
      cases fault with
      | panicked => rfl
      | error source => cases source <;> rfl

theorem peek_refreshed (self : Reader) (offset : Nat) :
    Refreshed self (self.peek offset).2 := by
  unfold peek
  split
  · exact .refl self
  have refreshed := self.readAhead_refreshed offset recordHeadSize
  generalize self.readAhead offset recordHeadSize = read at refreshed ⊢
  obtain ⟨_ | header, after⟩ := read
  · exact refreshed
  · simp only
    split_ifs <;> exact refreshed

variable (crc) in
theorem readRecord_refreshed (headerSize : Nat) (self : Reader) (offset : Nat) :
    Refreshed self (self.readRecord crc headerSize offset).2 := by
  unfold readRecord readRecordSequential
  split
  · exact .refl self
  have refreshed := self.readAhead_refreshed offset recordHeadSize
  generalize self.readAhead offset recordHeadSize = read at refreshed ⊢
  obtain ⟨_ | head, first⟩ := read
  · exact refreshed
  simp only
  by_cases zero : isTruncationMarker head = true
  · rwa [if_pos zero]
  rw [if_neg zero]
  by_cases unknown : hasUnknownFlags (headRaw head) = true
  · rwa [if_pos unknown]
  rw [if_neg unknown]
  by_cases long : offset + recordHeadSize + payloadLenField (headRaw head) > first.flushedOffset
  · rwa [if_pos long]
  rw [if_neg long]
  have refreshed' := refreshed.trans
    (first.readAhead_refreshed (offset + recordHeadSize) (payloadLenField (headRaw head)))
  generalize first.readAhead _ _ = read at refreshed' ⊢
  obtain ⟨_ | payload, second⟩ := read
  · exact refreshed'
  · simp only
    split_ifs <;> exact refreshed'

variable (crc) in
theorem controlLenAt_refreshed (self : Reader) (offset : Nat) :
    Refreshed self (self.controlLenAt crc offset).2 := by
  unfold controlLenAt
  split
  · exact .refl self
  have refreshed := self.readAhead_refreshed offset recordHeadSize
  generalize self.readAhead offset recordHeadSize = read at refreshed ⊢
  obtain ⟨_ | head, first⟩ := read
  · exact refreshed
  simp only
  by_cases zero : isTruncationMarker head = true
  · rwa [if_pos zero]
  rw [if_neg zero]
  by_cases other : (!isControlField (headRaw head) || hasUnknownFlags (headRaw head)) = true
  · rwa [if_pos other]
  rw [if_neg other]
  by_cases long :
      offset + (recordHeadSize + payloadLenField (headRaw head)) > first.flushedOffset
  · rwa [if_pos long]
  rw [if_neg long]
  have refreshed' := refreshed.trans
    (first.readAhead_refreshed (offset + recordHeadSize) (payloadLenField (headRaw head)))
  generalize first.readAhead _ _ = read at refreshed' ⊢
  obtain ⟨_ | payload, second⟩ := read
  · exact refreshed'
  · simp only
    split_ifs <;> exact refreshed'

variable (crc) in
theorem skipControls_refreshed (fuel : Nat) (iter : Iter) :
    Refreshed iter.reader (Iter.skipControls crc fuel iter).reader := by
  induction fuel generalizing iter with
  | zero => exact .refl iter.reader
  | succ fuel ih =>
      have refreshed := controlLenAt_refreshed crc iter.reader iter.offset
      rw [Iter.skipControls]
      generalize iter.reader.controlLenAt crc iter.offset = found at refreshed ⊢
      obtain ⟨_ | len, after⟩ := found
      · exact refreshed
      · exact refreshed.trans (ih ⟨after, iter.offset + len⟩)

variable (crc) in
theorem nextRecord_refreshed (headerSize : Nat) (iter : Iter) :
    Refreshed iter.reader (iter.nextRecord crc headerSize).2.reader := by
  have skipped := skipControls_refreshed crc (iter.reader.flushedOffset + 1) iter
  rw [Iter.nextRecord]
  generalize Iter.skipControls crc _ iter = middle at skipped ⊢
  have refreshed := skipped.trans
    (readRecord_refreshed crc headerSize middle.reader middle.offset)
  generalize middle.reader.readRecord crc headerSize middle.offset = read at refreshed ⊢
  obtain ⟨outcome, after⟩ := read
  cases outcome with
  | ok record => exact refreshed
  | error fault =>
      cases fault with
      | panicked => exact refreshed
      | error source => cases source <;> exact refreshed

/-- Where everything flushed was there when the buffer was filled, every read is fresh. -/
theorem fresh_of_flushed_le {self : Reader} {loaded : Nat} (all : self.flushedOffset ≤ loaded)
    (offset : Nat) : self.Fresh loaded offset := by
  intro length needs _
  cases needs with
  | head fits => exact fits.trans all
  | record _ _ fits => exact fits.trans all

end Reader

namespace BufWriter

/-- What was written to the file stays, and the file does not end before the cursor. -/
structure Grown (before after : BufWriter) : Prop where
  cursor_le : before.cursor ≤ after.cursor
  inside : after.cursor ≤ after.file.length
  agree : AgreeOn before.file after.file 0 before.cursor

theorem Grown.trans {before middle after : BufWriter} (first : Grown before middle)
    (second : Grown middle after) : Grown before after where
  cursor_le := first.cursor_le.trans second.cursor_le
  inside := second.inside
  agree := first.agree.trans (second.agree.mono (Nat.le_refl 0) first.cursor_le)

theorem Streams.grown {before after : BufWriter} {sent : List UInt8}
    (streams : Streams after before.file before.cursor sent)
    (inside : before.cursor ≤ before.file.length) : Grown before after := by
  obtain ⟨written, writtenLe, fileEq, cursorEq, _⟩ := streams
  refine ⟨by omega, ?_, ?_⟩
  · rw [fileEq, cursorEq]
    by_cases empty : sent.take written = []
    · have none : written = 0 := by
        rcases List.take_eq_nil_iff.mp empty with none | nil
        · exact none
        · rw [nil] at writtenLe
          exact Nat.le_zero.mp writtenLe
      rw [empty, writeAt_nil, none]
      exact inside
    · rw [length_writeAt empty, List.length_take]
      omega
  · rw [fileEq]
    exact (agreeOn_writeAt_before (Nat.le_refl _) inside 0).symm

theorem Streams.length_sent {writer : BufWriter} {image sent : List UInt8} {start : Nat}
    (streams : Streams writer image start sent) :
    writer.cursor + writer.buf.length = start + sent.length := by
  obtain ⟨written, writtenLe, _, cursorEq, bufEq⟩ := streams
  rw [cursorEq, bufEq, List.length_drop]
  omega

end BufWriter

namespace Writer

/-- The writer is ahead of its flushed offset, and the bytes up to the write offset were all
sent. -/
structure Settled (state : Writer) : Prop where
  flushed_le : state.flushedOffset ≤ state.writer.cursor
  inside : state.writer.cursor ≤ state.writer.file.length
  sent : state.writeOffset ≤ state.writer.cursor + state.writer.buf.length

/-- A failure of the operation leaves a field as it was. -/
def FailureKeeps (field : Writer → Nat) {α : Type} (op : Op Writer WriteError α) : Prop :=
  ∀ self error after, op self = (.error error, after) → field after = field self

theorem failureKeeps_bind {field : Writer → Nat} {α β : Type} {op : Op Writer WriteError α}
    {next : α → Op Writer WriteError β} (first : ∀ self, field (op self).2 = field self)
    (second : ∀ value, FailureKeeps field (next value)) : FailureKeeps field (op >>= next) := by
  intro self error after failed
  have kept := first self
  cases step : op self with
  | mk outcome middle =>
      rw [step] at kept
      cases outcome with
      | error error' =>
          rw [Op.bind_apply_error step] at failed
          obtain ⟨-, rfl⟩ := by simpa using failed
          exact kept
      | ok value =>
          rw [Op.bind_apply_ok step] at failed
          exact (second value middle error after failed).trans kept

theorem failureKeeps_modify (field : Writer → Nat) (change : Writer → Writer) :
    FailureKeeps field (Op.modify change) := by
  intro self error after failed
  cases failed

theorem failureKeeps_modify_pure (field : Writer → Nat) {α : Type} (change : Writer → Writer)
    (value : α) : FailureKeeps field (Op.modify change >>= fun _ => pure value) := by
  intro self error after failed
  cases failed

/-- A record that fails to be appended does not move the write offset. -/
theorem failureKeeps_append (crc : List UInt8 → UInt32) (header data : List UInt8) :
    FailureKeeps writeOffset (append crc header data) := by
  intro self
  unfold append
  rw [Op.get_bind_apply]
  dsimp only
  split
  · intro error after failed
    exact (congrArg (writeOffset ∘ Prod.snd) failed).symm
  split
  · intro error after failed
    exact (congrArg (writeOffset ∘ Prod.snd) failed).symm
  refine failureKeeps_bind (fun _ => rfl) (fun _ => ?_) self
  refine failureKeeps_bind (fun _ => rfl) fun _ => ?_
  refine failureKeeps_bind (fun _ => rfl) fun _ => ?_
  refine failureKeeps_bind (fun _ => rfl) fun _ => ?_
  refine failureKeeps_bind (fun _ => rfl) fun _ => ?_
  exact failureKeeps_modify_pure _ _ _

theorem failureKeeps_writeCommitMarker (crc : List UInt8 → UInt32) (position : Nat) :
    FailureKeeps writeOffset (writeCommitMarker crc position) := by
  intro self
  unfold writeCommitMarker
  rw [Op.get_bind_apply]
  dsimp only
  split
  · intro error after failed
    exact (congrArg (writeOffset ∘ Prod.snd) failed).symm
  refine failureKeeps_bind (fun _ => rfl) (fun _ => ?_) self
  refine failureKeeps_bind (fun _ => rfl) fun _ => ?_
  refine failureKeeps_bind (fun _ => rfl) fun _ => ?_
  refine failureKeeps_bind (fun _ => rfl) fun _ => ?_
  exact failureKeeps_modify _ _

theorem failureKeeps_sync : FailureKeeps flushedOffset sync := by
  intro self
  unfold sync
  rw [Op.get_bind_apply]
  split
  · refine failureKeeps_bind (fun _ => rfl) (fun _ => ?_) self
    refine failureKeeps_bind (fun _ => rfl) fun _ => ?_
    exact failureKeeps_modify_pure _ _ _
  · intro error after failed
    cases failed

/-- An operation that sends bytes and advances by their length keeps the writer settled. -/
theorem Settled.writes {α : Type} {op : Op Writer WriteError α} {bytes : List UInt8}
    {limit : Nat} {self : Writer} (settled : self.Settled) (writes : Writes op bytes limit)
    (fails : FailureKeeps writeOffset op)
    (advances : ∀ self value after, op self = (.ok value, after) →
      after.writeOffset = self.writeOffset + bytes.length) :
    (op self).2.Settled ∧ self.writer.Grown (op self).2.writer := by
  obtain ⟨moved, count, streams, outcome⟩ := writes self _ _ _ self.writer.streams_self
  have grown := streams.grown settled.inside
  have total := streams.length_sent
  have oldSent := settled.sent
  have flushed := settled.flushed_le.trans grown.cursor_le
  rw [List.length_append, List.length_take] at total
  refine ⟨⟨moved.flushedOffset_eq ▸ flushed, grown.inside, ?_⟩, grown⟩
  rcases outcome with ⟨⟨value, ok⟩, all⟩ | ⟨⟨error, failed⟩, _⟩
  · have offsetEq := advances self value (op self).2 (Prod.ext ok rfl)
    omega
  · have offsetEq := fails self error (op self).2 (Prod.ext failed rfl)
    omega

theorem Settled.append {self : Writer} (settled : self.Settled) (crc : List UInt8 → UInt32)
    (header data : List UInt8) :
    (append crc header data self).2.Settled ∧
      self.writer.Grown (append crc header data self).2.writer :=
  settled.writes (append_writes crc header data) (failureKeeps_append crc header data)
    fun _ _ _ result => by rw [(append_ok result).2]

theorem Settled.sync {self : Writer} (settled : self.Settled) :
    (sync self).2.Settled ∧ self.writer.Grown (sync self).2.writer := by
  obtain ⟨streams, _, offsetEq⟩ := sync_streams self.writer.streams_self
  have grown := streams.grown settled.inside
  have total := streams.length_sent
  have oldSent := settled.sent
  have oldFlushed := settled.flushed_le.trans grown.cursor_le
  refine ⟨⟨?_, grown.inside, by omega⟩, grown⟩
  cases step : Writer.sync self with
  | mk outcome after =>
      rw [step] at grown total oldFlushed
      cases outcome with
      | error error =>
          rw [failureKeeps_sync self error after step]
          exact oldFlushed
      | ok offset =>
          cases dirty : self.dirty with
          | true =>
              obtain ⟨_, _, empty, afterEq⟩ := sync_ok step dirty self.writer.streams_self
              have flushedEq : after.flushedOffset = self.writeOffset := by rw [afterEq]
              rw [empty, List.length_nil] at total
              change after.flushedOffset ≤ after.writer.cursor
              omega
          | false =>
              have same : Writer.sync self = (.ok self.writeOffset, self) := by
                rw [Writer.sync, Op.get_bind_apply, dirty]
                rfl
              obtain rfl := congrArg Prod.snd (step.symm.trans same)
              exact oldFlushed

theorem Settled.commit {self : Writer} (settled : self.Settled) (crc : List UInt8 → UInt32)
    (position : Nat) :
    (commit crc position self).2.Settled ∧
      self.writer.Grown (commit crc position self).2.writer := by
  have marked := settled.writes (writeCommitMarker_writes crc position)
    (failureKeeps_writeCommitMarker crc position)
    fun _ _ _ result => by rw [writeCommitMarker_ok result]
  cases step : writeCommitMarker crc position self with
  | mk outcome middle =>
      rw [step] at marked
      rw [Writer.commit]
      cases outcome with
      | error error =>
          rw [Op.bind_apply_error step]
          exact marked
      | ok value =>
          rw [Op.bind_apply_ok step, Op.modify_bind_apply]
          obtain ⟨middleSettled, grown⟩ := marked
          have named : Settled { middle with lastPosition := some position } :=
            ⟨middleSettled.flushed_le, middleSettled.inside, middleSettled.sent⟩
          obtain ⟨lastSettled, grown'⟩ := named.sync
          exact ⟨lastSettled, grown.trans grown'⟩

theorem settled_of_openSegment {crc : List UInt8 → UInt32} {file : List UInt8}
    {size startOffset : Nat} {opened : Writer} (inside : startOffset ≤ file.length)
    (isOpened : openSegment crc file size startOffset = .ok opened) : opened.Settled := by
  unfold openSegment at isOpened
  split at isOpened
  · cases isOpened
  obtain rfl := Except.ok.inj isOpened
  obtain ⟨entries, longest, _⟩ := recover_spec crc file size startOffset
  refine ⟨Nat.le_refl _, ?_, Nat.le_refl _⟩
  rcases longest.chain.stop_le (recordAt_inside file size) with same | below
  · exact same.le.trans inside
  · exact below

end Writer

/-- A writer, the read-ahead buffer of a reader that shares its file and its flushed offset, and
up to where the buffer was filled with what had been written. -/
structure LiveSegment where
  writer : Writer
  readAheadBuf : ReadAheadBuf
  loaded : Nat

/-- A call of the writer, or a call of the reader that goes through the read-ahead buffer. -/
inductive LiveCall where
  | append (header data : List UInt8)
  | commit (highestPosition : Nat)
  | sync
  | read (offset : Nat)
  | peek (offset : Nat)
  | next (offset : Nat)

namespace LiveSegment

/-- A reader that was opened on the flushed offset of the writer. -/
def share (writer : Writer) : LiveSegment :=
  ⟨writer, .new, 0⟩

/-- The reader, which sees the file and the flushed offset as they are now. -/
def reader (state : LiveSegment) (io : List IoOutcome) : Reader :=
  ⟨state.writer.writer.file, state.writer.flushedOffset, state.readAheadBuf.withOutcomes io⟩

/-- The reader is left with this buffer. -/
def keep (state : LiveSegment) (after : Reader) : LiveSegment :=
  let buffer := after.readAheadBuf.withOutcomes []
  if buffer = state.readAheadBuf.withOutcomes [] then
    state
  else
    { state with
      readAheadBuf := buffer
      loaded := min state.writer.writer.cursor (buffer.offset + buffer.filledLen) }

variable (crc : List UInt8 → UInt32) (headerSize : Nat)

/-- One call, with the results of its system calls. -/
def step (state : LiveSegment) : LiveCall × List IoOutcome → Option LiveSegment
  | (.append header data, io) =>
      some { state with writer := (Writer.append crc header data (state.writer.withOutcomes io)).2 }
  | (.commit highestPosition, io) =>
      some { state with
        writer := (Writer.commit crc highestPosition (state.writer.withOutcomes io)).2 }
  | (.sync, io) => some { state with writer := (Writer.sync (state.writer.withOutcomes io)).2 }
  | (.read offset, io) =>
      some (state.keep ((state.reader io).readRecord crc headerSize offset).2)
  | (.peek offset, io) => some (state.keep ((state.reader io).peek offset).2)
  | (.next offset, io) =>
      some (state.keep (Iter.nextRecord crc headerSize ⟨state.reader io, offset⟩).2.reader)

/-- The bytes that the call takes from the buffer were written when a fill read them. -/
def StepAllowed (state : LiveSegment) : LiveCall → Prop
  | .read offset => (state.reader []).Fresh state.loaded offset
  | .peek offset =>
      state.readAheadBuf.covers offset recordHeadSize = true →
        offset + recordHeadSize ≤ state.writer.flushedOffset →
          offset + recordHeadSize ≤ state.loaded
  | .next offset => (state.reader []).FreshFrom crc headerSize state.loaded offset
  | _ => True

/-- The call answers as random reads do in the same state. -/
def Agrees (state : LiveSegment) : LiveCall → Prop
  | .read offset =>
      ((state.reader []).readRecord crc headerSize offset).1 =
        (state.reader []).readRecordRandom crc headerSize offset
  | .peek offset =>
      Reader.Classifies ((state.reader []).readRecordRandom crc headerSize offset)
        ((state.reader []).peek offset).1
  | .next offset =>
      (Iter.nextRecord crc headerSize ⟨state.reader [], offset⟩).1 =
        (state.reader []).randomNext crc headerSize offset
  | _ => True

/-- The invariant of every interleaving: the buffered bytes that were written when the buffer
was filled are still those of the file. -/
structure Sound (state : LiveSegment) : Prop where
  settled : state.writer.Settled
  loaded_le : state.loaded ≤ state.writer.writer.cursor
  partly : (state.reader []).Partly state.loaded

variable {crc headerSize}

theorem sound_share {writer : Writer} (settled : writer.Settled) : (share writer).Sound where
  settled := settled
  loaded_le := Nat.zero_le _
  partly := ⟨fun index _ valid => absurd valid (Nat.not_lt_zero index), rfl⟩

theorem Sound.inFile {state : LiveSegment} (sound : state.Sound) :
    (state.reader []).flushedOffset ≤ (state.reader []).file.length :=
  sound.settled.flushed_le.trans sound.settled.inside

/-- A call of the writer touches nothing that was written. -/
theorem Sound.written {state : LiveSegment} (sound : state.Sound) {writer : Writer}
    (settled : writer.Settled) (grown : state.writer.writer.Grown writer.writer) :
    Sound { state with writer := writer } where
  settled := settled
  loaded_le := sound.loaded_le.trans grown.cursor_le
  partly := by
    refine ⟨fun index above valid below => ?_, rfl⟩
    obtain ⟨byte, buffered, found⟩ := sound.partly.loaded index above valid below
    refine ⟨byte, buffered, ?_⟩
    rw [← found]
    exact (grown.agree index (Nat.zero_le index) (below.trans_le sound.loaded_le)).symm

/-- A call of the reader keeps the buffer or fills it from the file. -/
theorem Sound.keep {state : LiveSegment} (sound : state.Sound) {io : List IoOutcome}
    {after : Reader} (refreshed : (state.reader io).Refreshed after) :
    (state.keep after).Sound := by
  unfold LiveSegment.keep
  dsimp only
  split
  · exact sound
  next changed =>
  rcases refreshed.filled with same | loaded
  · exact absurd same changed
  · refine ⟨sound.settled, Nat.min_le_left _ _, fun index above valid below => ?_, rfl⟩
    have found := loaded index above valid (below.trans_le (Nat.min_le_right _ _))
    rw [refreshed.file_eq] at found
    exact found

theorem sound_step (state : LiveSegment) (call : LiveCall × List IoOutcome)
    (next : LiveSegment) (sound : state.Sound)
    (taken : step crc headerSize state call = some next) : next.Sound := by
  have withOutcomes : ∀ io, (state.writer.withOutcomes io).Settled := fun io =>
    ⟨sound.settled.flushed_le, sound.settled.inside, sound.settled.sent⟩
  obtain ⟨call, io⟩ := call
  cases call with
  | append header data =>
      obtain rfl := by simpa [step] using taken
      obtain ⟨settled, grown⟩ := (withOutcomes io).append crc header data
      exact sound.written settled ⟨grown.cursor_le, grown.inside, grown.agree⟩
  | commit highestPosition =>
      obtain rfl := by simpa [step] using taken
      obtain ⟨settled, grown⟩ := (withOutcomes io).commit crc highestPosition
      exact sound.written settled ⟨grown.cursor_le, grown.inside, grown.agree⟩
  | sync =>
      obtain rfl := by simpa [step] using taken
      obtain ⟨settled, grown⟩ := (withOutcomes io).sync
      exact sound.written settled ⟨grown.cursor_le, grown.inside, grown.agree⟩
  | read offset =>
      obtain rfl := by simpa [step] using taken
      exact sound.keep (Reader.readRecord_refreshed crc headerSize (state.reader io) offset)
  | peek offset =>
      obtain rfl := by simpa [step] using taken
      exact sound.keep ((state.reader io).peek_refreshed offset)
  | next offset =>
      obtain rfl := by simpa [step] using taken
      exact sound.keep (Reader.nextRecord_refreshed crc headerSize ⟨state.reader io, offset⟩)

theorem Sound.agrees {state : LiveSegment} (sound : state.Sound) {call : LiveCall}
    (allowed : state.StepAllowed crc headerSize call) : state.Agrees crc headerSize call := by
  cases call with
  | read offset => exact sound.partly.readRecord_eq headerSize sound.inFile allowed
  | peek offset => exact sound.partly.peek_classifies headerSize sound.inFile allowed
  | next offset => exact sound.partly.nextRecord_eq sound.inFile allowed
  | append | commit | sync => trivial

/-- After any calls of the writer and the reader, a call that takes no bytes from the buffer
that were written later than it was filled answers as random reads do. -/
theorem fresh_reads_agree {file : List UInt8} {size startOffset : Nat} {opened : Writer}
    (inside : startOffset ≤ file.length)
    (isOpened : Writer.openSegment crc file size startOffset = .ok opened) (maxRecord : Nat)
    {calls : List (LiveCall × List IoOutcome)} {last : LiveSegment}
    (ran : Histories.run (step crc headerSize) (share (opened.setMaxRecord maxRecord)) calls =
      some last)
    {call : LiveCall} (allowed : last.StepAllowed crc headerSize call) :
    last.Agrees crc headerSize call := by
  have settled := Writer.settled_of_openSegment inside isOpened
  have start : (share (opened.setMaxRecord maxRecord)).Sound :=
    sound_share ⟨settled.flushed_le, settled.inside, settled.sent⟩
  exact (Histories.invariant_of_steps sound_step start ran).agrees allowed

/-- A record is appended, committed and read, which fails once. -/
def followedCalls : List (LiveCall × List IoOutcome) :=
  [(.append [] [1], []), (.commit 1, []), (.read 64, [.fail 70]), (.read 64, [])]

theorem fresh_reads_agree_followed :
    ∃ last, Histories.run (step crc32 0)
        (share ((Writer.created (List.replicate 200 0) 200 64).setMaxRecord 50)) followedCalls =
        some last ∧
      last.writer.flushedOffset = 90 ∧ last.Agrees crc32 0 (.next 64) := by
  have ran : (Histories.run (step crc32 0)
      (share ((Writer.created (List.replicate 200 0) 200 64).setMaxRecord 50))
      followedCalls).any (fun last =>
        decide (last.writer.flushedOffset = 90) && decide (last.loaded = 90)) = true := by
    decide +kernel
  obtain ⟨last, reached, marks⟩ := (Option.any_eq_true _ _).mp ran
  simp only [Bool.and_eq_true, decide_eq_true_eq] at marks
  obtain ⟨flushedEq, loadedEq⟩ := marks
  have all : (last.reader []).flushedOffset ≤ last.loaded := (flushedEq.trans loadedEq.symm).le
  have allowed : last.StepAllowed crc32 0 (.next 64) :=
    fun target _ => Reader.fresh_of_flushed_le all target
  exact ⟨last, reached, flushedEq,
    fresh_reads_agree (by rw [List.length_replicate]; decide)
      (Writer.openSegment_zeros crc32 (by decide) (zeroFrom_replicate 200 64)) 50 reached allowed⟩

/-- The first read fills the buffer with the zeros behind the first record; another record is
written in their place. -/
def overtakenCalls : List (LiveCall × List IoOutcome) :=
  [(.append [] [1], []), (.sync, []), (.read 64, []), (.append [] [2], []), (.sync, [])]

/-- A sequential read of the second record still finds the zeros, and so do a peek and an
iteration step, where a random read finds the record. -/
theorem stale_zeros_end_the_log :
    ∃ last, Histories.run (step crc32 0)
        (share ((Writer.created (List.replicate 200 0) 200 64).setMaxRecord 50)) overtakenCalls =
        some last ∧
      73 < last.writer.flushedOffset ∧
      (last.reader []).readRecordRandom crc32 0 73 = .ok ⟨[], [2], 73, 9⟩ ∧
      ¬ last.Agrees crc32 0 (.read 73) ∧ ¬ last.Agrees crc32 0 (.peek 73) ∧
        ¬ last.Agrees crc32 0 (.next 73) := by
  have ran : (Histories.run (step crc32 0)
      (share ((Writer.created (List.replicate 200 0) 200 64).setMaxRecord 50))
      overtakenCalls).any (fun last =>
        decide (73 < last.writer.flushedOffset) &&
        decide ((last.reader []).readRecordRandom crc32 0 73 = .ok ⟨[], [2], 73, 9⟩) &&
        decide (((last.reader []).readRecord crc32 0 73).1 =
          .error (.error (.truncationMarker 73))) &&
        decide (((last.reader []).peek 73).1 = .ok .done) &&
        decide ((Iter.nextRecord crc32 0 ⟨last.reader [], 73⟩).1 = .ok none) &&
        decide ((last.reader []).randomNext crc32 0 73 = .ok (some ⟨[], [2], 73, 9⟩))) = true := by
    decide +kernel
  obtain ⟨last, reached, answers⟩ := (Option.any_eq_true _ _).mp ran
  simp only [Bool.and_eq_true, decide_eq_true_eq] at answers
  obtain ⟨⟨⟨⟨⟨below, random⟩, read⟩, peeked⟩, stepped⟩, expected⟩ := answers
  refine ⟨last, reached, below, random, ?_, ?_, ?_⟩
  · simp [Agrees, read, random]
  · simp [Agrees, peeked, random, Reader.Classifies]
  · simp [Agrees, stepped, expected]

end LiveSegment

end Seglog

end Tephra
