import Tephra.WireMessages

/-!
# Reading frames

A frame is a length in four bytes and that many bytes of a message.  The bytes of a
stream arrive in chunks of any size, with reads between them that would block or are
interrupted.  A frame reader takes at most one chunk a call and keeps what it has of
the frame, so it can be called again until the frame is whole.
-/

namespace Tephra

namespace Framing

/-- What the next reads of a transport give, until they give its end. -/
inductive Arrival
  /-- Some bytes, for one read or more. -/
  | data (byte : UInt8) (bytes : List UInt8)
  /-- Nothing is there, or the timeout of the read has fired. -/
  | wouldBlock
  | interrupted
deriving DecidableEq, Repr

inductive ReadResult
  | ok (bytes : List UInt8)
  | wouldBlock
  | interrupted
deriving DecidableEq, Repr

/-- Bytes that a read has left. -/
def unread (left : List UInt8) (script : List Arrival) : List Arrival :=
  match left with
  | [] => script
  | byte :: bytes => .data byte bytes :: script

/-- One `read` into a buffer with some room; nothing read is the end. -/
def read (room : Nat) : List Arrival → ReadResult × List Arrival
  | [] => (.ok [], [])
  | .data byte bytes :: script =>
      (.ok ((byte :: bytes).take room), unread ((byte :: bytes).drop room) script)
  | .wouldBlock :: script => (.wouldBlock, script)
  | .interrupted :: script => (.interrupted, script)

inductive ReadStep
  | progress (bytes : List UInt8)
  | wouldBlock
  | eof
deriving DecidableEq, Repr

/-- Read until the read is not interrupted. -/
def readOnce (room : Nat) : List Arrival → ReadStep × List Arrival
  | .interrupted :: script => readOnce room script
  | script =>
      match read room script with
      | (.ok [], script) => (.eof, script)
      | (.ok (byte :: bytes), script) => (.progress (byte :: bytes), script)
      | (_, script) => (.wouldBlock, script)

inductive IoErrorKind
  | unexpectedEof
  | wouldBlock
  | interrupted
deriving DecidableEq, Repr

inductive FrameError (ε : Type)
  | io (kind : IoErrorKind) (text : String)
  | parse (source : ε)
  | tooLarge (len max : Nat)
deriving DecidableEq, Repr

inductive FramePoll (M : Type)
  | frame (msg : M)
  | eof
  | progress
  | wouldBlock (inProgress : Bool)
deriving DecidableEq, Repr

/-- A length-prefixed frame in progress: the bytes of the length so far, the length of
the body buffer, and the bytes of the body so far. -/
structure FrameReader where
  lenBuf : List UInt8
  bodyLen : Nat
  body : List UInt8
deriving DecidableEq, Repr

def lenSize : Nat := 4

/-- A big-endian number. -/
def fromBeBytes (bytes : List UInt8) : Nat :=
  LittleEndian.decode bytes.reverse

/-- How a stream of frames ends. -/
inductive Ending (ε : Type)
  | eof
  | failed (error : FrameError ε)
deriving DecidableEq, Repr

def torn {ε : Type} (text : String) : FrameError ε :=
  .io .unexpectedEof text

namespace FrameReader

variable {M ε : Type}

/-- A reader at a frame boundary. -/
def new : FrameReader := ⟨[], 0, []⟩

/-- Parse the whole body, and go back to a frame boundary. -/
def finish (parse : List UInt8 → Except ε M) (self : FrameReader) :
    Except (FrameError ε) (FramePoll M) × FrameReader :=
  match parse self.body with
  | .error source => (.error (.parse source), self)
  | .ok msg => (.ok (.frame msg), new)

/-- Read once toward the next frame. -/
def poll (parse : List UInt8 → Except ε M) (maxFrameLen : Nat) (self : FrameReader)
    (script : List Arrival) :
    (Except (FrameError ε) (FramePoll M) × FrameReader) × List Arrival :=
  if self.lenBuf.length < lenSize then
    match readOnce (lenSize - self.lenBuf.length) script with
    | (.eof, script) =>
        if self.lenBuf.length = 0 then ((.ok .eof, self), script)
        else ((.error (torn "eof partway through a frame length prefix"), self), script)
    | (.wouldBlock, script) =>
        ((.ok (.wouldBlock (decide (self.lenBuf.length > 0))), self), script)
    | (.progress bytes, script) =>
        let self := { self with lenBuf := self.lenBuf ++ bytes }
        if self.lenBuf.length < lenSize then
          ((.ok .progress, self), script)
        else
          let len := fromBeBytes self.lenBuf
          if len > maxFrameLen then
            ((.error (.tooLarge len maxFrameLen), self), script)
          else
            let self := { self with bodyLen := len, body := [] }
            if len = 0 then (self.finish parse, script)
            else ((.ok .progress, self), script)
  else
    match readOnce (self.bodyLen - self.body.length) script with
    | (.eof, script) => ((.error (torn "eof partway through a frame body"), self), script)
    | (.wouldBlock, script) => ((.ok (.wouldBlock true), self), script)
    | (.progress bytes, script) =>
        let self := { self with body := self.body ++ bytes }
        if self.body.length < self.bodyLen then ((.ok .progress, self), script)
        else (self.finish parse, script)

/-- Poll until the end or an error, with the frames on the way.  It is `none` when the
fuel is spent. -/
def drive (parse : List UInt8 → Except ε M) (maxFrameLen : Nat) :
    (fuel : Nat) → FrameReader → List Arrival → Option (List M × Ending ε)
  | 0, _, _ => none
  | fuel + 1, self, script =>
      match self.poll parse maxFrameLen script with
      | ((.error error, _), _) => some ([], .failed error)
      | ((.ok .eof, _), _) => some ([], .eof)
      | ((.ok (.frame msg), self), script) =>
          (drive parse maxFrameLen fuel self script).map fun rest => (msg :: rest.1, rest.2)
      | ((.ok _, self), script) => drive parse maxFrameLen fuel self script

/-- `read_frame`: poll a fresh reader until a frame, the end or an error. -/
def readFrame (parse : List UInt8 → Except ε M) (maxFrameLen : Nat) :
    (fuel : Nat) → FrameReader → List Arrival →
      Option (Except (FrameError ε) (Option M) × List Arrival)
  | 0, _, _ => none
  | fuel + 1, self, script =>
      match self.poll parse maxFrameLen script with
      | ((.error error, _), script) => some (.error error, script)
      | ((.ok .eof, _), script) => some (.ok none, script)
      | ((.ok (.frame msg), _), script) => some (.ok (some msg), script)
      | ((.ok .progress, self), script) => readFrame parse maxFrameLen fuel self script
      | ((.ok (.wouldBlock _), _), script) =>
          some (.error (.io .wouldBlock "read timed out before a complete frame"), script)

end FrameReader

/-- One awaited `read`: the task sleeps while nothing is there. -/
def readAwait (room : Nat) : List Arrival → ReadResult × List Arrival
  | .wouldBlock :: script => readAwait room script
  | script => read room script

variable {M ε : Type}

/-- Read until a buffer of the given size is full. -/
def fillAsync {α : Type} (atEof : List UInt8 → Except (FrameError ε) α) (full : List UInt8 → α)
    (size : Nat) :
    (fuel : Nat) → (filled : List UInt8) → List Arrival →
      Option (Except (FrameError ε) α × List Arrival)
  | 0, _, _ => none
  | fuel + 1, filled, script =>
      if filled.length < size then
        match readAwait (size - filled.length) script with
        | (.ok [], script) => some (atEof filled, script)
        | (.ok (byte :: bytes), script) =>
            fillAsync atEof full size fuel (filled ++ byte :: bytes) script
        | (.wouldBlock, script) => some (.error (.io .wouldBlock ""), script)
        | (.interrupted, script) => some (.error (.io .interrupted ""), script)
      else some (.ok (full filled), script)

/-- Fill a length prefix, or find the end before its first byte. -/
def readFullOrEofAsync (size fuel : Nat) (script : List Arrival) :
    Option (Except (FrameError ε) (Option (List UInt8)) × List Arrival) :=
  fillAsync (fun filled =>
      if filled.length = 0 then .ok none
      else .error (torn "eof partway through a frame length prefix"))
    some size fuel [] script

/-- Fill the buffer of a body. -/
def readExactAsync (size fuel : Nat) (script : List Arrival) :
    Option (Except (FrameError ε) (List UInt8) × List Arrival) :=
  fillAsync (fun _ => .error (torn "eof partway through a frame body")) id size fuel [] script

/-- What one call of `read_frame_async` comes to: its result, the length of the body
buffer that it has allocated, and what is left to read. -/
structure AsyncRead (M ε : Type) where
  result : Except (FrameError ε) (Option M)
  allocated : Option Nat
  script : List Arrival

def readFrameAsync (parse : List UInt8 → Except ε M) (maxFrameLen : Nat) (fuel : Nat)
    (script : List Arrival) : Option (AsyncRead M ε) :=
  match readFullOrEofAsync lenSize fuel script with
  | none => none
  | some (.error error, script) => some ⟨.error error, none, script⟩
  | some (.ok none, script) => some ⟨.ok none, none, script⟩
  | some (.ok (some lenBuf), script) =>
      let len := fromBeBytes lenBuf
      if len > maxFrameLen then some ⟨.error (.tooLarge len maxFrameLen), none, script⟩
      else
        match readExactAsync len fuel script with
        | none => none
        | some (.error error, script) => some ⟨.error error, some len, script⟩
        | some (.ok body, script) =>
            match parse body with
            | .error source => some ⟨.error (.parse source), some len, script⟩
            | .ok msg => some ⟨.ok (some msg), some len, script⟩

/-- Call a reader of one frame until the end or an error. -/
def readAll (next : Nat → List Arrival →
      Option (Except (FrameError ε) (Option M) × List Arrival)) :
    (fuel : Nat) → List Arrival → Option (List M × Ending ε)
  | 0, _ => none
  | fuel + 1, script =>
      match next (fuel + 1) script with
      | none => none
      | some (.error error, _) => some ([], .failed error)
      | some (.ok none, _) => some ([], .eof)
      | some (.ok (some msg), script) =>
          (readAll next fuel script).map fun rest => (msg :: rest.1, rest.2)

/-- `read_frame`, called until the end. -/
def readFrames (parse : List UInt8 → Except ε M) (maxFrameLen : Nat) :
    Nat → List Arrival → Option (List M × Ending ε) :=
  readAll fun fuel script => FrameReader.new.readFrame parse maxFrameLen fuel script

/-- `read_frame_async`, called until the end. -/
def readFramesAsync (parse : List UInt8 → Except ε M) (maxFrameLen : Nat) :
    Nat → List Arrival → Option (List M × Ending ε) :=
  readAll fun fuel script =>
    (readFrameAsync parse maxFrameLen fuel script).map fun call => (call.result, call.script)

def Arrival.bytes : Arrival → List UInt8
  | .data byte bytes => byte :: bytes
  | .wouldBlock => []
  | .interrupted => []

/-- The bytes that a script brings, in order. -/
def bytesOf (script : List Arrival) : List UInt8 :=
  script.flatMap Arrival.bytes

/-- A bound on the reads that a script answers before its end. -/
def size (script : List Arrival) : Nat :=
  (bytesOf script).length + script.length

@[simp]
theorem bytesOf_nil : bytesOf [] = [] := rfl

@[simp]
theorem bytesOf_data (byte : UInt8) (bytes : List UInt8) (script : List Arrival) :
    bytesOf (.data byte bytes :: script) = byte :: bytes ++ bytesOf script := rfl

@[simp]
theorem bytesOf_wouldBlock (script : List Arrival) :
    bytesOf (.wouldBlock :: script) = bytesOf script := rfl

@[simp]
theorem bytesOf_interrupted (script : List Arrival) :
    bytesOf (.interrupted :: script) = bytesOf script := rfl

@[simp]
theorem bytesOf_unread (left : List UInt8) (script : List Arrival) :
    bytesOf (unread left script) = left ++ bytesOf script := by
  cases left <;> rfl

/-- What a read leaves answers no more reads than before, and no other way. -/
structure LeftOf (script rest : List Arrival) : Prop where
  size_lt : size rest < size script
  wouldBlock : Arrival.wouldBlock ∈ rest → Arrival.wouldBlock ∈ script
  interrupted : Arrival.interrupted ∈ rest → Arrival.interrupted ∈ script

theorem LeftOf.cons {arrival : Arrival} {script rest : List Arrival}
    (left : LeftOf script rest) : LeftOf (arrival :: script) rest where
  size_lt := by
    have := left.size_lt
    simp only [size, bytesOf, List.flatMap_cons, List.length_append, List.length_cons] at *
    omega
  wouldBlock := fun mem => List.mem_cons_of_mem _ (left.wouldBlock mem)
  interrupted := fun mem => List.mem_cons_of_mem _ (left.interrupted mem)

theorem leftOf_tail {arrival : Arrival} (script : List Arrival) :
    LeftOf (arrival :: script) script where
  size_lt := by
    simp only [size, bytesOf, List.flatMap_cons, List.length_append, List.length_cons]
    omega
  wouldBlock := List.mem_cons_of_mem _
  interrupted := List.mem_cons_of_mem _

theorem leftOf_unread {room : Nat} (roomPos : 0 < room) (byte : UInt8) (bytes : List UInt8)
    (script : List Arrival) :
    LeftOf (.data byte bytes :: script) (unread ((byte :: bytes).drop room) script) where
  size_lt := by
    have shorter : ((byte :: bytes).drop room).length ≤ bytes.length := by
      rw [List.length_drop, List.length_cons]
      omega
    simp only [size, bytesOf_data, bytesOf_unread, List.length_append, List.length_cons]
    cases leftEq : (byte :: bytes).drop room <;>
      simp [unread, leftEq] at shorter ⊢ <;> omega
  wouldBlock := by
    cases (byte :: bytes).drop room <;> simp [unread]
  interrupted := by
    cases (byte :: bytes).drop room <;> simp [unread]

/-- One read of a script into a buffer with some room. -/
inductive ReadOnce (room : Nat) (script : List Arrival) : ReadStep × List Arrival → Prop
  | eof (atEnd : bytesOf script = []) : ReadOnce room script (.eof, [])
  | wouldBlock {rest : List Arrival} (same : bytesOf rest = bytesOf script)
      (left : LeftOf script rest) (blocked : Arrival.wouldBlock ∈ script) :
      ReadOnce room script (.wouldBlock, rest)
  | progress {bytes : List UInt8} {rest : List Arrival} (nonempty : bytes ≠ [])
      (fits : bytes.length ≤ room) (split : bytesOf script = bytes ++ bytesOf rest)
      (left : LeftOf script rest) : ReadOnce room script (.progress bytes, rest)

theorem readOnce_cases {room : Nat} (roomPos : 0 < room) (script : List Arrival) :
    ReadOnce room script (readOnce room script) := by
  induction script with
  | nil => exact .eof rfl
  | cons arrival script ih =>
      cases arrival with
      | data byte bytes =>
          obtain ⟨room, rfl⟩ : ∃ less, room = less + 1 := ⟨room - 1, by omega⟩
          apply ReadOnce.progress
          · exact List.cons_ne_nil _ _
          · simp
          · rw [bytesOf_data, bytesOf_unread, ← List.append_assoc]
            congr 1
            exact (List.take_append_drop (room + 1) (byte :: bytes)).symm
          · exact leftOf_unread roomPos byte bytes script
      | wouldBlock => exact .wouldBlock rfl (leftOf_tail script) (List.mem_cons_self)
      | interrupted =>
          rw [readOnce]
          generalize readOnce room script = result at ih
          cases ih with
          | eof atEnd => exact .eof atEnd
          | wouldBlock same left blocked =>
              exact .wouldBlock same left.cons (List.mem_cons_of_mem _ blocked)
          | progress nonempty fits split left => exact .progress nonempty fits split left.cons

/-- The first frame of some bytes that are all there, with the bytes behind it. -/
def firstFrame (parse : List UInt8 → Except ε M) (maxFrameLen : Nat) (bytes : List UInt8) :
    Except (FrameError ε) (Option (M × List UInt8)) :=
  if bytes.length = 0 then .ok none
  else if bytes.length < lenSize then
    .error (torn "eof partway through a frame length prefix")
  else
    let len := fromBeBytes (bytes.take lenSize)
    if len > maxFrameLen then .error (.tooLarge len maxFrameLen)
    else if bytes.length < lenSize + len then .error (torn "eof partway through a frame body")
    else
      match parse ((bytes.drop lenSize).take len) with
      | .error source => .error (.parse source)
      | .ok msg => .ok (some (msg, bytes.drop (lenSize + len)))

section Whole

variable {parse : List UInt8 → Except ε M} {maxFrameLen : Nat}

theorem firstFrame_whole {frame : List UInt8} (rest : List UInt8)
    (small : fromBeBytes (frame.take lenSize) ≤ maxFrameLen)
    (whole : frame.length = lenSize + fromBeBytes (frame.take lenSize)) :
    firstFrame parse maxFrameLen (frame ++ rest) =
      match parse (frame.drop lenSize) with
      | .error source => .error (.parse source)
      | .ok msg => .ok (some (msg, rest)) := by
  have long : lenSize ≤ frame.length := by omega
  have headEq : (frame ++ rest).take lenSize = frame.take lenSize :=
    List.take_append_of_le_length long
  have bodyEq : ((frame ++ rest).drop lenSize).take (fromBeBytes (frame.take lenSize)) =
      frame.drop lenSize := by
    rw [List.drop_append_of_le_length long]
    apply List.take_left'
    rw [List.length_drop]
    omega
  have restEq : (frame ++ rest).drop (lenSize + fromBeBytes (frame.take lenSize)) = rest :=
    List.drop_left' whole
  have nonempty : (frame ++ rest).length ≠ 0 := by
    rw [List.length_append]
    simp only [lenSize] at long
    omega
  rw [firstFrame, if_neg nonempty, if_neg (by rw [List.length_append]; omega)]
  simp only [headEq]
  rw [if_neg (by omega), if_neg (by rw [List.length_append]; omega), bodyEq, restEq]

theorem firstFrame_tooLarge {header : List UInt8} (rest : List UInt8)
    (four : header.length = lenSize) (large : maxFrameLen < fromBeBytes header) :
    firstFrame parse maxFrameLen (header ++ rest) =
      .error (.tooLarge (fromBeBytes header) maxFrameLen) := by
  have headEq : (header ++ rest).take lenSize = header := List.take_left' four
  have nonempty : (header ++ rest).length ≠ 0 := by
    rw [List.length_append, four]
    simp [lenSize]
  rw [firstFrame, if_neg nonempty, if_neg (by rw [List.length_append]; omega)]
  simp only [headEq]
  rw [if_pos large]

/-- Some bytes of a frame that is not over. -/
def Unfinished (maxFrameLen : Nat) (part : List UInt8) : Prop :=
  part.length < lenSize ∨
    fromBeBytes (part.take lenSize) ≤ maxFrameLen ∧
      part.length < lenSize + fromBeBytes (part.take lenSize)

theorem firstFrame_unfinished {part : List UInt8} (unfinished : Unfinished maxFrameLen part)
    (begun : part ≠ []) :
    firstFrame parse maxFrameLen part =
      .error (torn (if part.length < lenSize then "eof partway through a frame length prefix"
        else "eof partway through a frame body")) := by
  rw [firstFrame, if_neg (by simpa using begun)]
  rcases unfinished with short | ⟨small, cut⟩
  · rw [if_pos short, if_pos short]
  · split
    · rfl
    · simp only
      rw [if_neg (by omega), if_pos cut]

/-- What is found is a whole frame at the front. -/
theorem firstFrame_found {bytes rest : List UInt8} {msg : M}
    (found : firstFrame parse maxFrameLen bytes = .ok (some (msg, rest))) :
    ∃ frame, bytes = frame ++ rest ∧ fromBeBytes (frame.take lenSize) ≤ maxFrameLen ∧
      frame.length = lenSize + fromBeBytes (frame.take lenSize) ∧
      parse (frame.drop lenSize) = .ok msg := by
  unfold firstFrame at found
  split at found
  · simp at found
  split at found
  · simp at found
  simp only at found
  split at found
  · simp at found
  split at found
  · simp at found
  rename_i nonempty long small whole
  split at found
  · simp at found
  rename_i msg parsed
  simp only [Except.ok.injEq, Option.some.injEq, Prod.mk.injEq] at found
  rcases found with ⟨rfl, rfl⟩
  have headEq : (bytes.take (lenSize + fromBeBytes (bytes.take lenSize))).take lenSize =
      bytes.take lenSize := by
    rw [List.take_take, Nat.min_eq_left (Nat.le_add_right _ _)]
  have bodyEq : (bytes.take (lenSize + fromBeBytes (bytes.take lenSize))).drop lenSize =
      (bytes.drop lenSize).take (fromBeBytes (bytes.take lenSize)) := by
    rw [List.drop_take, Nat.add_sub_cancel_left]
  refine ⟨_, (List.take_append_drop _ _).symm, ?_, ?_, ?_⟩
  · rw [headEq]
    omega
  · rw [headEq, List.length_take]
    omega
  · rw [bodyEq, parsed]

theorem firstFrame_shorter {bytes rest : List UInt8} {msg : M}
    (found : firstFrame parse maxFrameLen bytes = .ok (some (msg, rest))) :
    rest.length < bytes.length := by
  obtain ⟨frame, rfl, -, whole, -⟩ := firstFrame_found found
  rw [List.length_append]
  simp only [lenSize] at whole
  omega

theorem firstFrame_append {bytes rest : List UInt8} {msg : M} (suffix : List UInt8)
    (found : firstFrame parse maxFrameLen bytes = .ok (some (msg, rest))) :
    firstFrame parse maxFrameLen (bytes ++ suffix) = .ok (some (msg, rest ++ suffix)) := by
  obtain ⟨frame, rfl, small, whole, parsed⟩ := firstFrame_found found
  rw [List.append_assoc, firstFrame_whole _ small whole, parsed]

/-- Every frame of some bytes that are all there. -/
def decodeFrames (parse : List UInt8 → Except ε M) (maxFrameLen : Nat) (bytes : List UInt8) :
    List M × Ending ε :=
  match found : firstFrame parse maxFrameLen bytes with
  | .error error => ([], .failed error)
  | .ok none => ([], .eof)
  | .ok (some (msg, rest)) =>
      have := firstFrame_shorter found
      (msg :: (decodeFrames parse maxFrameLen rest).1, (decodeFrames parse maxFrameLen rest).2)
termination_by bytes.length

theorem decodeFrames_error {bytes : List UInt8} {error : FrameError ε}
    (found : firstFrame parse maxFrameLen bytes = .error error) :
    decodeFrames parse maxFrameLen bytes = ([], .failed error) := by
  unfold decodeFrames
  split <;> simp_all

theorem decodeFrames_eof {bytes : List UInt8}
    (found : firstFrame parse maxFrameLen bytes = .ok none) :
    decodeFrames parse maxFrameLen bytes = ([], .eof) := by
  unfold decodeFrames
  split <;> simp_all

theorem decodeFrames_frame {bytes rest : List UInt8} {msg : M}
    (found : firstFrame parse maxFrameLen bytes = .ok (some (msg, rest))) :
    decodeFrames parse maxFrameLen bytes =
      (msg :: (decodeFrames parse maxFrameLen rest).1,
        (decodeFrames parse maxFrameLen rest).2) := by
  conv => lhs; unfold decodeFrames
  split <;> simp_all

end Whole

/-- The reader after some bytes of a frame that is not over. -/
def absReader (part : List UInt8) : FrameReader where
  lenBuf := part.take lenSize
  bodyLen := if part.length < lenSize then 0 else fromBeBytes (part.take lenSize)
  body := part.drop lenSize

theorem absReader_short {part : List UInt8} (short : part.length < lenSize) :
    absReader part = ⟨part, 0, []⟩ := by
  rw [absReader, List.take_of_length_le short.le, List.drop_of_length_le short.le, if_pos short]

theorem absReader_long {part : List UInt8} (long : lenSize ≤ part.length) :
    absReader part =
      ⟨part.take lenSize, fromBeBytes (part.take lenSize), part.drop lenSize⟩ := by
  rw [absReader, if_neg (by omega)]

/-- One poll, after some bytes of a frame that is not over. -/
inductive Polls (parse : List UInt8 → Except ε M) (maxFrameLen : Nat) (part : List UInt8)
    (script : List Arrival) :
    (Except (FrameError ε) (FramePoll M) × FrameReader) × List Arrival → Prop
  | eof (atEnd : part ++ bytesOf script = []) :
      Polls parse maxFrameLen part script ((.ok .eof, absReader part), [])
  | failed {error : FrameError ε} {reader : FrameReader} {rest : List Arrival}
      (found : firstFrame parse maxFrameLen (part ++ bytesOf script) = .error error)
      (bounded : reader.bodyLen ≤ maxFrameLen) :
      Polls parse maxFrameLen part script ((.error error, reader), rest)
  | wouldBlock {rest : List Arrival} (same : bytesOf rest = bytesOf script)
      (left : LeftOf script rest) (blocked : Arrival.wouldBlock ∈ script) :
      Polls parse maxFrameLen part script
        ((.ok (.wouldBlock (decide (0 < part.length))), absReader part), rest)
  | progress {bytes : List UInt8} {rest : List Arrival}
      (split : bytesOf script = bytes ++ bytesOf rest) (left : LeftOf script rest)
      (unfinished : Unfinished maxFrameLen (part ++ bytes)) :
      Polls parse maxFrameLen part script ((.ok .progress, absReader (part ++ bytes)), rest)
  | frame {msg : M} {rest : List Arrival}
      (found : firstFrame parse maxFrameLen (part ++ bytesOf script) =
        .ok (some (msg, bytesOf rest))) (left : LeftOf script rest) :
      Polls parse maxFrameLen part script ((.ok (.frame msg), .new), rest)

section Fragments

variable {parse : List UInt8 → Except ε M} {maxFrameLen : Nat}

theorem polls_finish {part bytes : List UInt8} {script rest : List Arrival}
    {reader : FrameReader} (split : bytesOf script = bytes ++ bytesOf rest)
    (left : LeftOf script rest) (bounded : reader.bodyLen ≤ maxFrameLen)
    (small : fromBeBytes ((part ++ bytes).take lenSize) ≤ maxFrameLen)
    (whole : (part ++ bytes).length = lenSize + fromBeBytes ((part ++ bytes).take lenSize))
    (bodyEq : reader.body = (part ++ bytes).drop lenSize) :
    Polls parse maxFrameLen part script (reader.finish parse, rest) := by
  have found := @firstFrame_whole M ε parse maxFrameLen _ (bytesOf rest) small whole
  rw [List.append_assoc, ← split] at found
  rw [FrameReader.finish, bodyEq]
  cases parsed : parse ((part ++ bytes).drop lenSize) with
  | error source =>
      rw [parsed] at found
      exact .failed found bounded
  | ok msg =>
      rw [parsed] at found
      exact .frame found left

theorem polls_short {part : List UInt8} (short : part.length < lenSize)
    (script : List Arrival) :
    Polls parse maxFrameLen part script
      ((absReader part).poll parse maxFrameLen script) := by
  have readerEq := absReader_short short
  rw [readerEq, FrameReader.poll]
  simp only
  rw [if_pos short]
  have once := readOnce_cases (Nat.sub_pos_of_lt short) script
  generalize readOnce (lenSize - part.length) script = result at once
  cases once with
  | eof atEnd =>
      simp only
      split
      · rename_i fresh
        rw [← readerEq]
        apply Polls.eof
        rw [atEnd, List.append_nil]
        exact List.length_eq_zero_iff.mp fresh
      · rename_i begun
        apply Polls.failed
        · rw [atEnd, List.append_nil, firstFrame_unfinished (.inl short) (by simpa using begun),
            if_pos short]
        · exact Nat.zero_le _
  | wouldBlock same left blocked =>
      simp only [← readerEq]
      exact .wouldBlock same left blocked
  | @progress bytes rest nonempty fits split left =>
      have lengthEq : (part ++ bytes).length = part.length + bytes.length := List.length_append
      simp only
      split
      · rename_i still
        rw [← absReader_short still]
        exact .progress split left (.inl still)
      · rename_i full
        have four : (part ++ bytes).length = lenSize := by omega
        have headEq : (part ++ bytes).take lenSize = part ++ bytes :=
          List.take_of_length_le four.le
        have bodyEq : [] = (part ++ bytes).drop lenSize :=
          (List.drop_of_length_le four.le).symm
        split
        · rename_i large
          apply Polls.failed
          · rw [split, ← List.append_assoc]
            exact firstFrame_tooLarge _ four large
          · exact Nat.zero_le _
        · rename_i small
          split
          · rename_i empty
            apply polls_finish split left (Nat.le_of_not_lt small) (by rw [headEq]; omega) _ bodyEq
            rw [headEq, empty, four, Nat.add_zero]
          · rename_i body
            have readerEq := @absReader_long (part ++ bytes) four.ge
            rw [headEq, ← bodyEq] at readerEq
            rw [← readerEq]
            apply Polls.progress split left
            right
            rw [headEq]
            omega

theorem polls_long {part : List UInt8} (long : lenSize ≤ part.length)
    (small : fromBeBytes (part.take lenSize) ≤ maxFrameLen)
    (cut : part.length < lenSize + fromBeBytes (part.take lenSize)) (script : List Arrival) :
    Polls parse maxFrameLen part script
      ((absReader part).poll parse maxFrameLen script) := by
  have readerEq := absReader_long long
  have lenEq : (part.take lenSize).length = lenSize := List.length_take_of_le long
  have bodyLenEq : (part.drop lenSize).length = part.length - lenSize := List.length_drop
  rw [readerEq, FrameReader.poll]
  simp only
  rw [if_neg (by omega)]
  have roomPos : 0 < fromBeBytes (part.take lenSize) - (part.drop lenSize).length := by omega
  have once := readOnce_cases roomPos script
  generalize
    readOnce (fromBeBytes (part.take lenSize) - (part.drop lenSize).length) script = result
      at once
  cases once with
  | eof atEnd =>
      have begun : part ≠ [] := by
        rintro rfl
        simp [lenSize] at long
      apply Polls.failed
      · rw [atEnd, List.append_nil, firstFrame_unfinished (.inr ⟨small, cut⟩) begun,
          if_neg (by omega)]
      · exact small
  | wouldBlock same left blocked =>
      have begun : decide (0 < part.length) = true := by
        simp only [lenSize] at long
        simpa using by omega
      simp only
      rw [← readerEq, ← begun]
      exact .wouldBlock same left blocked
  | @progress bytes rest nonempty fits split left =>
      have lengthEq : (part ++ bytes).length = part.length + bytes.length := List.length_append
      have headEq : (part ++ bytes).take lenSize = part.take lenSize :=
        List.take_append_of_le_length long
      have bodyEq : part.drop lenSize ++ bytes = (part ++ bytes).drop lenSize :=
        (List.drop_append_of_le_length long).symm
      have filled : (part.drop lenSize ++ bytes).length = part.length - lenSize + bytes.length := by
        rw [List.length_append, bodyLenEq]
      simp only
      split
      · have readerEq := @absReader_long (part ++ bytes) (by omega)
        rw [headEq, ← bodyEq] at readerEq
        rw [← readerEq]
        apply Polls.progress split left
        right
        rw [headEq]
        omega
      · apply polls_finish split left small (by rw [headEq]; exact small) _ bodyEq
        rw [headEq]
        omega

theorem polls {part : List UInt8} (unfinished : Unfinished maxFrameLen part)
    (script : List Arrival) :
    Polls parse maxFrameLen part script
      ((absReader part).poll parse maxFrameLen script) := by
  by_cases short : part.length < lenSize
  · exact polls_short short script
  · rcases unfinished with impossible | ⟨small, cut⟩
    · exact absurd impossible short
    · exact polls_long (by omega) small cut script

theorem unfinished_nil : Unfinished maxFrameLen [] := .inl (Nat.succ_pos 3)

theorem absReader_nil : absReader [] = .new := rfl

/-- Polling one reader until the end gives the frames of the bytes, however they arrive. -/
theorem drive_eq {part : List UInt8} (unfinished : Unfinished maxFrameLen part)
    {script : List Arrival} {fuel : Nat} (enough : size script < fuel) :
    (absReader part).drive parse maxFrameLen fuel script =
      some (decodeFrames parse maxFrameLen (part ++ bytesOf script)) := by
  induction fuel generalizing part script with
  | zero => omega
  | succ fuel ih =>
      have poll := @polls M ε parse maxFrameLen part unfinished script
      rw [FrameReader.drive]
      generalize (absReader part).poll parse maxFrameLen script = result at poll
      cases poll with
      | eof atEnd => rw [decodeFrames_eof (by rw [atEnd]; rfl)]
      | failed found bounded => rw [decodeFrames_error found]
      | wouldBlock same left blocked =>
          have less := left.size_lt
          simp only
          rw [ih unfinished (by omega), same]
      | progress split left still =>
          have less := left.size_lt
          simp only
          rw [ih still (by omega), split, List.append_assoc]
      | frame found left =>
          have less := left.size_lt
          simp only
          rw [← absReader_nil, ih unfinished_nil (by omega), decodeFrames_frame found]
          rfl

/-- One call of a reader of one frame, with some bytes to read. -/
inductive Gives (parse : List UInt8 → Except ε M) (maxFrameLen : Nat) (bytes : List UInt8)
    (script : List Arrival) : Except (FrameError ε) (Option M) × List Arrival → Prop
  | eof (rest : List Arrival) (found : firstFrame parse maxFrameLen bytes = .ok none) :
      Gives parse maxFrameLen bytes script (.ok none, rest)
  | failed {error : FrameError ε} (rest : List Arrival)
      (found : firstFrame parse maxFrameLen bytes = .error error) :
      Gives parse maxFrameLen bytes script (.error error, rest)
  | frame {msg : M} {rest : List Arrival}
      (found : firstFrame parse maxFrameLen bytes = .ok (some (msg, bytesOf rest)))
      (left : LeftOf script rest) :
      Gives parse maxFrameLen bytes script (.ok (some msg), rest)

/-- Calling such a reader until the end gives the frames of the bytes. -/
theorem readAll_eq {odd : Arrival}
    (inherits : ∀ {script rest : List Arrival}, LeftOf script rest → odd ∈ rest → odd ∈ script)
    {next : Nat → List Arrival → Option (Except (FrameError ε) (Option M) × List Arrival)}
    (gives : ∀ {fuel : Nat} {script : List Arrival}, size script < fuel → odd ∉ script →
      ∃ call, next fuel script = some call ∧
        Gives parse maxFrameLen (bytesOf script) script call)
    {script : List Arrival} (calm : odd ∉ script) {fuel : Nat} (enough : size script < fuel) :
    readAll next fuel script = some (decodeFrames parse maxFrameLen (bytesOf script)) := by
  induction fuel generalizing script with
  | zero => omega
  | succ fuel ih =>
      obtain ⟨call, called, given⟩ := gives enough calm
      rw [readAll, called]
      cases given with
      | eof rest found => rw [decodeFrames_eof found]
      | failed rest found => rw [decodeFrames_error found]
      | frame found left =>
          have less := left.size_lt
          simp only
          rw [ih (fun mem => calm (inherits left mem)) (by omega), decodeFrames_frame found]
          rfl

theorem LeftOf.trans {script rest last : List Arrival} (left : LeftOf script rest)
    (more : LeftOf rest last) : LeftOf script last where
  size_lt := more.size_lt.trans left.size_lt
  wouldBlock := fun mem => left.wouldBlock (more.wouldBlock mem)
  interrupted := fun mem => left.interrupted (more.interrupted mem)

theorem Gives.of_left {part : List UInt8} {script rest : List Arrival}
    {call : Except (FrameError ε) (Option M) × List Arrival} (left : LeftOf script rest)
    (gives : Gives parse maxFrameLen part rest call) :
    Gives parse maxFrameLen part script call := by
  cases gives with
  | eof rest found => exact .eof rest found
  | failed rest found => exact .failed rest found
  | frame found more => exact .frame found (left.trans more)

theorem readFrame_gives {part : List UInt8} (unfinished : Unfinished maxFrameLen part)
    {script : List Arrival} (calm : Arrival.wouldBlock ∉ script) {fuel : Nat}
    (enough : size script < fuel) :
    ∃ call, (absReader part).readFrame parse maxFrameLen fuel script = some call ∧
      Gives parse maxFrameLen (part ++ bytesOf script) script call := by
  induction fuel generalizing part script with
  | zero => omega
  | succ fuel ih =>
      have poll := @polls M ε parse maxFrameLen part unfinished script
      rw [FrameReader.readFrame]
      generalize (absReader part).poll parse maxFrameLen script = result at poll
      cases poll with
      | eof atEnd => exact ⟨_, rfl, .eof [] (by rw [atEnd]; rfl)⟩
      | failed found bounded => exact ⟨_, rfl, .failed _ found⟩
      | wouldBlock same left blocked => exact absurd blocked calm
      | progress split left still =>
          have less := left.size_lt
          have calmRest := fun mem => calm (left.wouldBlock mem)
          obtain ⟨call, called, gives⟩ := ih still calmRest (by omega)
          rw [split, ← List.append_assoc]
          exact ⟨call, called, gives.of_left left⟩
      | frame found left => exact ⟨_, rfl, .frame found left⟩

theorem readFrames_eq {script : List Arrival} (calm : Arrival.wouldBlock ∉ script) {fuel : Nat}
    (enough : size script < fuel) :
    readFrames parse maxFrameLen fuel script =
      some (decodeFrames parse maxFrameLen (bytesOf script)) :=
  readAll_eq LeftOf.wouldBlock (fun enough calm => readFrame_gives unfinished_nil calm enough)
    calm enough

/-- One awaited read of a script into a buffer with some room. -/
inductive ReadAwait (room : Nat) (script : List Arrival) : ReadResult × List Arrival → Prop
  | eof (rest : List Arrival) (atEnd : bytesOf script = []) : ReadAwait room script (.ok [], rest)
  | interrupted (rest : List Arrival) (met : Arrival.interrupted ∈ script) :
      ReadAwait room script (.interrupted, rest)
  | progress {byte : UInt8} {bytes : List UInt8} {rest : List Arrival}
      (fits : (byte :: bytes).length ≤ room)
      (split : bytesOf script = byte :: bytes ++ bytesOf rest)
      (left : LeftOf script rest) : ReadAwait room script (.ok (byte :: bytes), rest)

theorem readAwait_cases {room : Nat} (roomPos : 0 < room) (script : List Arrival) :
    ReadAwait room script (readAwait room script) := by
  induction script with
  | nil => exact .eof [] rfl
  | cons arrival script ih =>
      cases arrival with
      | data byte bytes =>
          obtain ⟨room, rfl⟩ : ∃ less, room = less + 1 := ⟨room - 1, by omega⟩
          apply ReadAwait.progress
          · simp
          · rw [bytesOf_data, bytesOf_unread, List.drop_succ_cons, List.cons_append,
              List.cons_append, ← List.append_assoc, List.take_append_drop]
          · exact leftOf_unread roomPos byte bytes script
      | wouldBlock =>
          rw [readAwait]
          generalize readAwait room script = result at ih
          cases ih with
          | eof rest atEnd => exact .eof rest atEnd
          | interrupted rest met => exact .interrupted rest (List.mem_cons_of_mem _ met)
          | progress fits split left => exact .progress fits split left.cons
      | interrupted => exact .interrupted script List.mem_cons_self

/-- Filling a buffer takes that many bytes off the front, or meets their end. -/
theorem fillAsync_eq {α : Type} (atEof : List UInt8 → Except (FrameError ε) α)
    (full : List UInt8 → α) {room : Nat} {filled : List UInt8} (fits : filled.length ≤ room)
    {script : List Arrival} (calm : Arrival.interrupted ∉ script) {fuel : Nat}
    (enough : size script < fuel) :
    ∃ rest, (rest = script ∧ filled.length = room ∨ LeftOf script rest ∨
        (filled ++ bytesOf script).length < room) ∧
      fillAsync atEof full room fuel filled script =
        some (if (filled ++ bytesOf script).length < room then atEof (filled ++ bytesOf script)
          else .ok (full ((filled ++ bytesOf script).take room)), rest) ∧
      (room ≤ (filled ++ bytesOf script).length →
        bytesOf rest = (filled ++ bytesOf script).drop room) := by
  induction fuel generalizing filled script with
  | zero => omega
  | succ fuel ih =>
      rw [fillAsync]
      split
      · rename_i space
        have once := readAwait_cases (Nat.sub_pos_of_lt space) script
        generalize readAwait (room - filled.length) script = result at once
        cases once with
        | eof rest atEnd =>
            rw [atEnd, List.append_nil, if_pos space]
            exact ⟨rest, .inr (.inr space), rfl, fun long => absurd space (Nat.not_lt.mpr long)⟩
        | interrupted rest met => exact absurd met calm
        | @progress byte bytes rest within split left =>
            have less := left.size_lt
            have fitsStill : (filled ++ byte :: bytes).length ≤ room := by
              rw [List.length_append]
              omega
            obtain ⟨last, leaves, filledEq, restEq⟩ :=
              ih fitsStill (fun mem => calm (left.interrupted mem)) (by omega)
            rw [split, ← List.append_assoc]
            refine ⟨last, ?_, filledEq, restEq⟩
            rcases leaves with ⟨rfl, -⟩ | more | short
            · exact .inr (.inl left)
            · exact .inr (.inl (left.trans more))
            · exact .inr (.inr short)
      · rename_i noSpace
        have lengthEq : filled.length = room := by omega
        have long : ¬ (filled ++ bytesOf script).length < room := by
          rw [List.length_append]
          omega
        refine ⟨script, .inl ⟨rfl, lengthEq⟩, ?_, fun _ => ?_⟩
        · rw [if_neg long, List.take_left' lengthEq]
        · rw [List.drop_left' lengthEq]

theorem readFullOrEofAsync_eq {script : List Arrival} (calm : Arrival.interrupted ∉ script)
    {fuel : Nat} (enough : size script < fuel) :
    ∃ rest, (LeftOf script rest ∨ (bytesOf script).length < lenSize) ∧
      (readFullOrEofAsync lenSize fuel script :
          Option (Except (FrameError ε) (Option (List UInt8)) × List Arrival)) =
        some (if (bytesOf script).length < lenSize then
            if (bytesOf script).length = 0 then .ok none
            else .error (torn "eof partway through a frame length prefix")
          else .ok (some ((bytesOf script).take lenSize)), rest) ∧
      (lenSize ≤ (bytesOf script).length → bytesOf rest = (bytesOf script).drop lenSize) := by
  have nilFits : ([] : List UInt8).length ≤ lenSize := Nat.zero_le _
  obtain ⟨rest, leaves, filledEq, restEq⟩ := fillAsync_eq (fun filled =>
      if filled.length = 0 then (.ok none : Except (FrameError ε) (Option (List UInt8)))
      else .error (torn "eof partway through a frame length prefix")) some nilFits calm enough
  refine ⟨rest, ?_, filledEq, restEq⟩
  rcases leaves with ⟨-, impossible⟩ | left | short
  · exact absurd impossible (Nat.succ_ne_zero 3).symm
  · exact .inl left
  · exact .inr short

theorem readExactAsync_eq (room : Nat) {script : List Arrival}
    (calm : Arrival.interrupted ∉ script) {fuel : Nat} (enough : size script < fuel) :
    ∃ rest, (rest = script ∨ LeftOf script rest ∨ (bytesOf script).length < room) ∧
      (readExactAsync room fuel script :
          Option (Except (FrameError ε) (List UInt8) × List Arrival)) =
        some (if (bytesOf script).length < room then
            .error (torn "eof partway through a frame body")
          else .ok ((bytesOf script).take room), rest) ∧
      (room ≤ (bytesOf script).length → bytesOf rest = (bytesOf script).drop room) := by
  have nilFits : ([] : List UInt8).length ≤ room := Nat.zero_le _
  obtain ⟨rest, leaves, filledEq, restEq⟩ := fillAsync_eq (fun _ =>
      (.error (torn "eof partway through a frame body") : Except (FrameError ε) (List UInt8)))
      id nilFits calm enough
  refine ⟨rest, ?_, filledEq, restEq⟩
  rcases leaves with ⟨same, -⟩ | others
  · exact .inl same
  · exact .inr others

theorem readFrameAsync_gives {script : List Arrival} (calm : Arrival.interrupted ∉ script)
    {fuel : Nat} (enough : size script < fuel) :
    ∃ call : AsyncRead M ε, readFrameAsync parse maxFrameLen fuel script = some call ∧
      Gives parse maxFrameLen (bytesOf script) script (call.result, call.script) := by
  obtain ⟨rest, leaves, prefixEq, restEq⟩ := @readFullOrEofAsync_eq ε script calm fuel enough
  rw [readFrameAsync, prefixEq]
  by_cases short : (bytesOf script).length < lenSize
  · rw [if_pos short]
    by_cases fresh : (bytesOf script).length = 0
    · rw [if_pos fresh]
      exact ⟨_, rfl, .eof rest (by rw [firstFrame, if_pos fresh])⟩
    · rw [if_neg fresh]
      exact ⟨_, rfl, .failed rest (by rw [firstFrame, if_neg fresh, if_pos short])⟩
  rw [if_neg short]
  have left : LeftOf script rest := leaves.resolve_right short
  have nonempty : (bytesOf script).length ≠ 0 := by
    simp only [lenSize] at short
    omega
  have lengthEq : (bytesOf rest).length = (bytesOf script).length - lenSize := by
    rw [restEq (by omega), List.length_drop]
  simp only
  by_cases large : maxFrameLen < fromBeBytes ((bytesOf script).take lenSize)
  · rw [if_pos large]
    refine ⟨_, rfl, .failed rest ?_⟩
    rw [firstFrame, if_neg nonempty, if_neg short]
    simp only
    rw [if_pos large]
  rw [if_neg large]
  have less := left.size_lt
  obtain ⟨last, more, bodyEq, lastEq⟩ :=
    @readExactAsync_eq ε (fromBeBytes ((bytesOf script).take lenSize)) rest
      (fun mem => calm (left.interrupted mem)) fuel (by omega)
  rw [bodyEq]
  by_cases cut : (bytesOf rest).length < fromBeBytes ((bytesOf script).take lenSize)
  · rw [if_pos cut]
    refine ⟨_, rfl, .failed last ?_⟩
    rw [firstFrame, if_neg nonempty, if_neg short]
    simp only
    rw [if_neg large, if_pos (by omega)]
  rw [if_neg cut, restEq (by omega)]
  have found : firstFrame parse maxFrameLen (bytesOf script) =
      match parse (((bytesOf script).drop lenSize).take
          (fromBeBytes ((bytesOf script).take lenSize))) with
      | .error source => .error (.parse source)
      | .ok msg => .ok (some (msg, bytesOf last)) := by
    rw [firstFrame, if_neg nonempty, if_neg short]
    simp only
    rw [if_neg large, if_neg (by omega), lastEq (by omega), restEq (by omega), List.drop_drop]
  simp only
  split
  · rename_i source parsed
    rw [parsed] at found
    exact ⟨_, rfl, .failed last found⟩
  · rename_i msg parsed
    rw [parsed] at found
    refine ⟨_, rfl, .frame found ?_⟩
    rcases more with rfl | more | impossible
    · exact left
    · exact left.trans more
    · exact absurd impossible cut

theorem readFramesAsync_eq {script : List Arrival} (calm : Arrival.interrupted ∉ script)
    {fuel : Nat} (enough : size script < fuel) :
    readFramesAsync parse maxFrameLen fuel script =
      some (decodeFrames parse maxFrameLen (bytesOf script)) := by
  apply readAll_eq LeftOf.interrupted _ calm enough
  intro fuel script enough calm
  obtain ⟨call, called, gives⟩ := @readFrameAsync_gives M ε parse maxFrameLen script calm fuel enough
  exact ⟨(call.result, call.script), by rw [called]; rfl, gives⟩

end Fragments

end Framing

end Tephra
