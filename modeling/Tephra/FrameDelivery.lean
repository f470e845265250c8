import Tephra.FrameReading

/-!
# Frames survive any fragmentation

The messages of a connection are written one frame after the other.  A reader that
gets the bytes of the frames, in whatever pieces, gives the messages back.
-/

namespace Tephra

namespace Framing

variable {M ε ς : Type}

/-- Serialize a message and write it as one frame. -/
def writeMessage (serialize : M → Except ς (List UInt8)) (maxFrameLen : Nat)
    (msg : M) : Except (ς ⊕ Server.FrameError) (List UInt8) :=
  match serialize msg with
  | .error source => .error (.inl source)
  | .ok body =>
      match Server.writeFrame maxFrameLen body with
      | .error error => .error (.inr error)
      | .ok frame => .ok frame

/-- The bytes of some messages, each written as a frame. -/
def writeMessages (serialize : M → Except ς (List UInt8)) (maxFrameLen : Nat) :
    List M → Except (ς ⊕ Server.FrameError) (List UInt8)
  | [] => .ok []
  | msg :: msgs => do
      let frame ← writeMessage serialize maxFrameLen msg
      let frames ← writeMessages serialize maxFrameLen msgs
      return frame ++ frames

section Written

variable {serialize : M → Except ς (List UInt8)} {parse : List UInt8 → Except ε M}
  {maxFrameLen : Nat}

theorem writeMessage_ok {msg : M} {frame : List UInt8}
    (written : writeMessage serialize maxFrameLen msg = .ok frame) :
    ∃ body, serialize msg = .ok body ∧ body.length ≤ maxFrameLen ∧
      frame = (LittleEndian.encode lenSize body.length).reverse ++ body := by
  unfold writeMessage at written
  split at written
  · simp at written
  · rename_i body serialized
    unfold Server.writeFrame at written
    by_cases large : body.length > maxFrameLen
    · rw [if_pos large] at written
      simp at written
    · rw [if_neg large] at written
      simp only [Except.ok.injEq] at written
      exact ⟨body, serialized, Nat.le_of_not_lt large, written.symm⟩

theorem fromBeBytes_encode {len : Nat} (small : len < 2 ^ 32) :
    fromBeBytes (LittleEndian.encode lenSize len).reverse = len := by
  rw [fromBeBytes, List.reverse_reverse]
  apply LittleEndian.decode_encode
  simpa [lenSize] using small

/-- A written frame is whole: its length is the one in front of its body. -/
theorem writeMessage_whole (bound : maxFrameLen < 2 ^ 32) {msg : M} {frame : List UInt8}
    (written : writeMessage serialize maxFrameLen msg = .ok frame) :
    fromBeBytes (frame.take lenSize) ≤ maxFrameLen ∧
      frame.length = lenSize + fromBeBytes (frame.take lenSize) ∧
      serialize msg = .ok (frame.drop lenSize) := by
  obtain ⟨body, serialized, small, rfl⟩ := writeMessage_ok written
  have four : (LittleEndian.encode lenSize body.length).reverse.length = lenSize := by
    rw [List.length_reverse, LittleEndian.length_encode]
  rw [List.take_left' four, List.drop_left' four, fromBeBytes_encode (by omega),
    List.length_append, four]
  exact ⟨small, rfl, serialized⟩

theorem firstFrame_written
    (undoes : ∀ {msg : M} {body : List UInt8}, serialize msg = .ok body → parse body = .ok msg)
    (bound : maxFrameLen < 2 ^ 32) {msg : M} {frame : List UInt8}
    (written : writeMessage serialize maxFrameLen msg = .ok frame) (rest : List UInt8) :
    firstFrame parse maxFrameLen (frame ++ rest) = .ok (some (msg, rest)) := by
  obtain ⟨small, whole, serialized⟩ := writeMessage_whole bound written
  rw [firstFrame_whole rest small whole, undoes serialized]

theorem writeMessages_cons {msg : M} {msgs : List M} {stream : List UInt8}
    (written : writeMessages serialize maxFrameLen (msg :: msgs) = .ok stream) :
    ∃ frame frames, writeMessage serialize maxFrameLen msg = .ok frame ∧
      writeMessages serialize maxFrameLen msgs = .ok frames ∧ stream = frame ++ frames := by
  rw [writeMessages] at written
  cases frameEq : writeMessage serialize maxFrameLen msg with
  | error error => rw [frameEq] at written; cases written
  | ok frame =>
      cases framesEq : writeMessages serialize maxFrameLen msgs with
      | error error => rw [frameEq, framesEq] at written; cases written
      | ok frames =>
          rw [frameEq, framesEq] at written
          cases written
          exact ⟨frame, frames, rfl, rfl, rfl⟩

theorem writeMessages_of_cons {msg : M} {msgs : List M} {frame frames : List UInt8}
    (frameEq : writeMessage serialize maxFrameLen msg = .ok frame)
    (framesEq : writeMessages serialize maxFrameLen msgs = .ok frames) :
    writeMessages serialize maxFrameLen (msg :: msgs) = .ok (frame ++ frames) := by
  rw [writeMessages, frameEq, framesEq]
  rfl

theorem firstFrame_none {bytes : List UInt8}
    (found : firstFrame parse maxFrameLen bytes = .ok none) : bytes = [] := by
  by_contra begun
  unfold firstFrame at found
  rw [if_neg (by simpa using begun)] at found
  split at found
  · simp at found
  simp only at found
  split at found
  · simp at found
  split at found
  · simp at found
  split at found <;> simp at found

theorem decodeFrames_nil {taken : List UInt8}
    (whole : decodeFrames parse maxFrameLen taken = ([], .eof)) : taken = [] := by
  match found : firstFrame parse maxFrameLen taken with
  | .error error =>
      rw [decodeFrames_error found] at whole
      simp at whole
  | .ok none => exact firstFrame_none found
  | .ok (some (msg, rest)) =>
      rw [decodeFrames_frame found] at whole
      simp at whole

/-- Bytes that decode to some messages begin with the frame of the first. -/
theorem decodeFrames_cons {taken : List UInt8} {msg : M} {got : List M}
    (whole : decodeFrames parse maxFrameLen taken = (msg :: got, .eof)) :
    ∃ rest, firstFrame parse maxFrameLen taken = .ok (some (msg, rest)) ∧
      decodeFrames parse maxFrameLen rest = (got, .eof) := by
  match found : firstFrame parse maxFrameLen taken with
  | .error error =>
      rw [decodeFrames_error found] at whole
      simp at whole
  | .ok none =>
      rw [decodeFrames_eof found] at whole
      simp at whole
  | .ok (some (first, rest)) =>
      rw [decodeFrames_frame found] at whole
      simp only [Prod.mk.injEq, List.cons.injEq] at whole
      obtain ⟨⟨rfl, gotEq⟩, endEq⟩ := whole
      exact ⟨rest, rfl, Prod.ext gotEq endEq⟩

/-- Whole frames are decoded before what stands behind them. -/
theorem decodeFrames_append {taken : List UInt8} {got : List M}
    (whole : decodeFrames parse maxFrameLen taken = (got, .eof)) (more : List UInt8) :
    decodeFrames parse maxFrameLen (taken ++ more) =
      (got ++ (decodeFrames parse maxFrameLen more).1,
        (decodeFrames parse maxFrameLen more).2) := by
  induction got generalizing taken with
  | nil =>
      rw [decodeFrames_nil whole]
      rfl
  | cons msg got ih =>
      obtain ⟨rest, found, restEq⟩ := decodeFrames_cons whole
      rw [decodeFrames_frame (firstFrame_append more found), ih restEq]
      rfl

theorem decodeFrames_written
    (undoes : ∀ {msg : M} {body : List UInt8}, serialize msg = .ok body → parse body = .ok msg)
    (bound : maxFrameLen < 2 ^ 32) {msgs : List M} {stream : List UInt8}
    (written : writeMessages serialize maxFrameLen msgs = .ok stream) :
    decodeFrames parse maxFrameLen stream = (msgs, .eof) := by
  induction msgs generalizing stream with
  | nil =>
      cases written
      exact decodeFrames_eof rfl
  | cons msg msgs ih =>
      obtain ⟨frame, frames, frameEq, framesEq, rfl⟩ := writeMessages_cons written
      rw [decodeFrames_frame (firstFrame_written undoes bound frameEq frames), ih framesEq]

/-- Bytes that decode to some messages are their frames, where the two can be extended
to the same bytes. -/
theorem taken_eq_written
    (undoes : ∀ {msg : M} {body : List UInt8}, serialize msg = .ok body → parse body = .ok msg)
    (bound : maxFrameLen < 2 ^ 32) {got msgs : List M} {taken stream more : List UInt8}
    (whole : decodeFrames parse maxFrameLen taken = (got, .eof))
    (written : writeMessages serialize maxFrameLen msgs = .ok stream)
    (front : taken ++ more = stream) :
    got <+: msgs ∧ writeMessages serialize maxFrameLen got = .ok taken := by
  induction got generalizing msgs taken stream with
  | nil =>
      rw [decodeFrames_nil whole]
      exact ⟨List.nil_prefix, rfl⟩
  | cons first got ih =>
      obtain ⟨rest, found, wholeRest⟩ := decodeFrames_cons whole
      have extended := firstFrame_append more found
      rw [front] at extended
      cases msgs with
      | nil =>
          cases written
          cases extended
      | cons msg msgs =>
          obtain ⟨frame, frames, frameEq, framesEq, rfl⟩ := writeMessages_cons written
          rw [firstFrame_written undoes bound frameEq frames] at extended
          simp only [Except.ok.injEq, Option.some.injEq, Prod.mk.injEq] at extended
          rcases extended with ⟨rfl, behind⟩
          obtain ⟨isPrefix, restEq⟩ := ih wholeRest framesEq behind.symm
          have takenEq : taken = frame ++ rest := by
            apply (List.append_left_inj more).mp
            rw [front, behind, List.append_assoc]
          rw [takenEq]
          exact ⟨List.cons_prefix_cons.mpr ⟨rfl, isPrefix⟩,
            writeMessages_of_cons frameEq restEq⟩

/-- A cut of some frames is at a boundary, or within the frame behind one. -/
theorem cut_cases (bound : maxFrameLen < 2 ^ 32) {msgs : List M} {stream cut : List UInt8}
    (written : writeMessages serialize maxFrameLen msgs = .ok stream) (isPrefix : cut <+: stream) :
    ∃ count whole part, writeMessages serialize maxFrameLen (msgs.take count) = .ok whole ∧
      cut = whole ++ part ∧ (part ≠ [] → Unfinished maxFrameLen part) := by
  induction msgs generalizing stream cut with
  | nil =>
      cases written
      exact ⟨0, [], [], rfl, List.prefix_nil.mp isPrefix, fun begun => absurd rfl begun⟩
  | cons msg msgs ih =>
      obtain ⟨frame, frames, frameEq, framesEq, rfl⟩ := writeMessages_cons written
      by_cases within : cut.length < frame.length
      · refine ⟨0, [], cut, rfl, rfl, fun _ => ?_⟩
        have front : cut <+: frame :=
          List.prefix_of_prefix_length_le isPrefix (List.prefix_append _ _) within.le
        obtain ⟨small, whole, -⟩ := writeMessage_whole bound frameEq
        by_cases short : cut.length < lenSize
        · exact .inl short
        · right
          have headEq : cut.take lenSize = frame.take lenSize := by
            obtain ⟨more, rfl⟩ := front
            rw [List.take_append_of_le_length (by omega)]
          rw [headEq]
          omega
      · have front : frame <+: cut :=
          List.prefix_of_prefix_length_le (List.prefix_append _ _) isPrefix (by omega)
        obtain ⟨more, rfl⟩ := front
        obtain ⟨count, whole, part, wholeEq, rfl, unfinished⟩ :=
          ih framesEq ((List.prefix_append_right_inj frame).mp isPrefix)
        exact ⟨count + 1, frame ++ whole, part, writeMessages_of_cons frameEq wholeEq,
          (List.append_assoc _ _ _).symm, unfinished⟩

end Written

def FramePoll.msgs : FramePoll M → List M
  | .frame msg => [msg]
  | .eof => []
  | .progress => []
  | .wouldBlock _ => []

/-- A reader after some polls of a script, with the messages that they gave and what is
left to read. -/
inductive Polled (parse : List UInt8 → Except ε M) (maxFrameLen : Nat) (script : List Arrival) :
    FrameReader → List M → List Arrival → Prop
  | start : Polled parse maxFrameLen script .new [] script
  | poll {reader next : FrameReader} {got : List M} {rest last : List Arrival}
      {result : FramePoll M} (polled : Polled parse maxFrameLen script reader got rest)
      (step : reader.poll parse maxFrameLen rest = ((.ok result, next), last)) :
      Polled parse maxFrameLen script next (got ++ result.msgs) last

section Runs

variable {parse : List UInt8 → Except ε M} {maxFrameLen : Nat}

/-- What a reader has taken: the frames it has given, and a part of the next one. -/
structure Taken (parse : List UInt8 → Except ε M) (maxFrameLen : Nat) (script : List Arrival)
    (reader : FrameReader) (got : List M) (rest : List Arrival) (taken part : List UInt8) :
    Prop where
  split : bytesOf script = taken ++ part ++ bytesOf rest
  whole : decodeFrames parse maxFrameLen taken = (got, .eof)
  unfinished : Unfinished maxFrameLen part
  reader_eq : reader = absReader part

theorem polled_taken {script : List Arrival} {reader : FrameReader} {got : List M}
    {rest : List Arrival} (polled : Polled parse maxFrameLen script reader got rest) :
    ∃ taken part, Taken parse maxFrameLen script reader got rest taken part := by
  induction polled with
  | start => exact ⟨[], [], rfl, decodeFrames_eof rfl, unfinished_nil, rfl⟩
  | @poll reader next got rest last result polled step ih =>
      obtain ⟨taken, part, split, whole, unfinished, rfl⟩ := ih
      have cases := @polls M ε parse maxFrameLen part unfinished rest
      rw [step] at cases
      cases cases with
      | eof atEnd =>
          have empty : part = [] ∧ bytesOf rest = [] := List.append_eq_nil_iff.mp atEnd
          refine ⟨taken, part, ?_, by rw [FramePoll.msgs, List.append_nil, whole], unfinished, rfl⟩
          rw [split, empty.2, bytesOf_nil]
      | wouldBlock same left blocked =>
          refine ⟨taken, part, ?_, by rw [FramePoll.msgs, List.append_nil, whole], unfinished, rfl⟩
          rw [split, same]
      | @progress bytes _ more left still =>
          refine ⟨taken, part ++ bytes, ?_, by rw [FramePoll.msgs, List.append_nil, whole],
            still, rfl⟩
          rw [split, more]
          simp only [List.append_assoc]
      | @frame msg _ found left =>
          obtain ⟨frame, frameEq, small, full, parsed⟩ := firstFrame_found found
          have only : decodeFrames parse maxFrameLen frame = ([msg], .eof) := by
            have alone := @firstFrame_whole M ε parse maxFrameLen frame [] small full
            rw [parsed, List.append_nil] at alone
            rw [decodeFrames_frame alone, decodeFrames_eof rfl]
          refine ⟨taken ++ frame, [], ?_, ?_, unfinished_nil, rfl⟩
          · rw [split, List.append_assoc, frameEq, List.append_nil, List.append_assoc]
          · rw [decodeFrames_append whole, only]
            rfl

theorem absReader_bodyLen_le {part : List UInt8} (unfinished : Unfinished maxFrameLen part) :
    (absReader part).bodyLen ≤ maxFrameLen := by
  rw [absReader]
  rcases unfinished with short | ⟨small, -⟩
  · rw [if_pos short]
    exact Nat.zero_le _
  · simp only
    split
    · exact Nat.zero_le _
    · exact small

theorem poll_bodyLen_le {script : List Arrival} {reader : FrameReader} {got : List M}
    {rest : List Arrival} (polled : Polled parse maxFrameLen script reader got rest) :
    (reader.poll parse maxFrameLen rest).1.2.bodyLen ≤ maxFrameLen := by
  obtain ⟨taken, part, split, whole, unfinished, rfl⟩ := polled_taken polled
  have poll := @polls M ε parse maxFrameLen part unfinished rest
  generalize (absReader part).poll parse maxFrameLen rest = result at poll
  cases poll with
  | eof atEnd => exact absReader_bodyLen_le unfinished
  | failed found bounded => exact bounded
  | wouldBlock same left blocked => exact absReader_bodyLen_le unfinished
  | progress more left still => exact absReader_bodyLen_le still
  | frame found left => exact Nat.zero_le _

/-- A length that is too large leaves the body buffer as it was. -/
theorem poll_tooLarge {reader : FrameReader} {script : List Arrival} {len max : Nat}
    (rejected : (reader.poll parse maxFrameLen script).1.1 = .error (.tooLarge len max)) :
    (reader.poll parse maxFrameLen script).1.2.bodyLen = reader.bodyLen := by
  have finished (reader : FrameReader) :
      (reader.finish parse).1 ≠ .error (.tooLarge len max) := by
    rw [FrameReader.finish]
    split <;> simp
  unfold FrameReader.poll at rejected ⊢
  split at rejected
  · rename_i short
    rw [if_pos short]
    split at rejected
    · split at rejected <;> simp [torn] at rejected
    · simp at rejected
    · rename_i onceEq
      simp only at rejected
      split at rejected
      · simp at rejected
      · rename_i full
        rw [if_neg full]
        split at rejected
        · rename_i large
          rw [if_pos large]
        · split at rejected
          · exact absurd rejected (finished _)
          · simp at rejected
  · split at rejected
    · simp [torn] at rejected
    · simp at rejected
    · simp only at rejected
      split at rejected
      · simp at rejected
      · exact absurd rejected (finished _)

theorem fillAsync_error {α : Type} {atEof : List UInt8 → Except (FrameError ε) α}
    {full : List UInt8 → α} {room fuel : Nat} {filled : List UInt8}
    {script rest : List Arrival} {error : FrameError ε}
    (eofs : ∀ {filled error}, atEof filled = .error error → ∃ kind text, error = .io kind text)
    (failed : fillAsync atEof full room fuel filled script = some (.error error, rest)) :
    ∃ kind text, error = .io kind text := by
  induction fuel generalizing filled script with
  | zero => simp [fillAsync] at failed
  | succ fuel ih =>
      rw [fillAsync] at failed
      split at failed
      · split at failed
        · simp only [Option.some.injEq, Prod.mk.injEq] at failed
          exact eofs failed.1
        · exact ih failed
        · simp only [Option.some.injEq, Prod.mk.injEq, Except.error.injEq] at failed
          exact ⟨_, _, failed.1.symm⟩
        · simp only [Option.some.injEq, Prod.mk.injEq, Except.error.injEq] at failed
          exact ⟨_, _, failed.1.symm⟩
      · simp at failed

/-- The asynchronous reader allocates no body above the limit, and none when it rejects a
length. -/
theorem readFrameAsync_allocated {fuel : Nat} {script : List Arrival} {call : AsyncRead M ε}
    (called : readFrameAsync parse maxFrameLen fuel script = some call) :
    (∀ room, call.allocated = some room → room ≤ maxFrameLen) ∧
      ∀ len max, call.result = .error (.tooLarge len max) → call.allocated = none := by
  unfold readFrameAsync at called
  split at called
  · simp at called
  · cases called
    exact ⟨fun _ impossible => by simp at impossible, fun _ _ _ => rfl⟩
  · cases called
    exact ⟨fun _ impossible => by simp at impossible, fun _ _ _ => rfl⟩
  · simp only at called
    split at called
    · cases called
      exact ⟨fun _ impossible => by simp at impossible, fun _ _ _ => rfl⟩
    · rename_i lenBuf _ _ small
      have bounded : ∀ room, some (fromBeBytes lenBuf) = some room → room ≤ maxFrameLen := by
        rintro _ ⟨⟩
        exact Nat.le_of_not_lt small
      split at called
      · simp at called
      · rename_i error rest failed
        cases called
        refine ⟨bounded, fun len max tooLarge => ?_⟩
        obtain ⟨kind, text, errorEq⟩ := fillAsync_error (fun eof => by
          simp only [Except.error.injEq] at eof
          exact ⟨_, _, eof.symm⟩) failed
        simp only [Except.error.injEq] at tooLarge
        rw [errorEq] at tooLarge
        cases tooLarge
      · split at called
        · cases called
          exact ⟨bounded, fun len max impossible => by simp at impossible⟩
        · cases called
          exact ⟨bounded, fun len max impossible => by simp at impossible⟩

/-- What every reader makes of a script: it polls one reader, or calls for a frame while
no read would block, or awaits frames while no read is interrupted. -/
structure Delivers (parse : List UInt8 → Except ε M) (maxFrameLen : Nat)
    (script : List Arrival) (outcome : List M × Ending ε) : Prop where
  polled : ∀ fuel, size script < fuel →
    FrameReader.new.drive parse maxFrameLen fuel script = some outcome
  blocking : Arrival.wouldBlock ∉ script → ∀ fuel, size script < fuel →
    readFrames parse maxFrameLen fuel script = some outcome
  awaited : Arrival.interrupted ∉ script → ∀ fuel, size script < fuel →
    readFramesAsync parse maxFrameLen fuel script = some outcome

theorem delivers_decoded (script : List Arrival) :
    Delivers parse maxFrameLen script (decodeFrames parse maxFrameLen (bytesOf script)) where
  polled := fun _ enough => drive_eq unfinished_nil enough
  blocking := fun calm _ enough => readFrames_eq calm enough
  awaited := fun calm _ enough => readFramesAsync_eq calm enough

end Runs

theorem frames_delivered (serialize : M → Except ς (List UInt8))
    (parse : List UInt8 → Except ε M)
    (undoes : ∀ {msg : M} {body : List UInt8}, serialize msg = .ok body → parse body = .ok msg)
    (max : UInt32) {msgs : List M} {stream : List UInt8}
    (written : writeMessages serialize max.toNat msgs = .ok stream) :
    (∀ script, bytesOf script = stream → Delivers parse max.toNat script (msgs, .eof)) ∧
    (∀ script, bytesOf script <+: stream →
      (∀ count, writeMessages serialize max.toNat (msgs.take count) ≠ .ok (bytesOf script)) →
      ∃ count text, Delivers parse max.toNat script
        (msgs.take count, .failed (.io .unexpectedEof text))) ∧
    (∀ script reader got rest inProgress next last, bytesOf script <+: stream →
      Polled parse max.toNat script reader got rest →
      reader.poll parse max.toNat rest = ((.ok (.wouldBlock inProgress), next), last) →
      ∃ whole part, got <+: msgs ∧ writeMessages serialize max.toNat got = .ok whole ∧
        bytesOf script = whole ++ part ++ bytesOf rest ∧
        (inProgress = true ↔ part ≠ [])) ∧
    (∀ script header more, header.length = lenSize → max.toNat < fromBeBytes header →
      bytesOf script = stream ++ (header ++ more) →
      Delivers parse max.toNat script
        (msgs, .failed (.tooLarge (fromBeBytes header) max.toNat))) ∧
    (∀ script reader (got : List M) rest, Polled parse max.toNat script reader got rest →
      (reader.poll parse max.toNat rest).1.2.bodyLen ≤ max.toNat ∧
      ∀ len limit, (reader.poll parse max.toNat rest).1.1 = .error (.tooLarge len limit) →
        (reader.poll parse max.toNat rest).1.2.bodyLen = reader.bodyLen) ∧
    (∀ fuel script call, readFrameAsync parse max.toNat fuel script = some call →
      (∀ room, call.allocated = some room → room ≤ max.toNat) ∧
      ∀ len limit, call.result = .error (.tooLarge len limit) → call.allocated = none) := by
  have bound : max.toNat < 2 ^ 32 := max.toNat_lt
  have decoded {msgs : List M} {stream : List UInt8}
      (written : writeMessages serialize max.toNat msgs = .ok stream) :=
    @decodeFrames_written M ε ς serialize parse max.toNat undoes bound msgs stream written
  refine ⟨?whole, ?cut, ?blocked, ?tooLarge, ?buffer, ?allocated⟩
  case whole =>
    intro script bytesEq
    have delivers := @delivers_decoded M ε parse max.toNat script
    rwa [bytesEq, decoded written] at delivers
  case cut =>
    intro script isPrefix noBoundary
    obtain ⟨count, whole, part, wholeEq, cutEq, unfinished⟩ := cut_cases bound written isPrefix
    have begun : part ≠ [] := by
      rintro rfl
      rw [cutEq, List.append_nil] at noBoundary
      exact noBoundary count wholeEq
    have delivers := @delivers_decoded M ε parse max.toNat script
    rw [cutEq, decodeFrames_append (decoded wholeEq),
      decodeFrames_error (firstFrame_unfinished (unfinished begun) begun), List.append_nil]
      at delivers
    exact ⟨count, _, delivers⟩
  case blocked =>
    intro script reader got rest inProgress next last isPrefix polled step
    obtain ⟨taken, part, split, whole, unfinished, rfl⟩ := polled_taken polled
    obtain ⟨more, moreEq⟩ := isPrefix
    rw [split, List.append_assoc, List.append_assoc] at moreEq
    obtain ⟨front, takenEq⟩ := taken_eq_written undoes bound whole written moreEq
    refine ⟨taken, part, front, takenEq, split, ?_⟩
    have poll := @polls M ε parse max.toNat part unfinished rest
    rw [step] at poll
    cases poll with
    | wouldBlock same left blocked =>
        rw [decide_eq_true_iff]
        exact List.length_pos_iff
  case tooLarge =>
    intro script header more four large bytesEq
    have delivers := @delivers_decoded M ε parse max.toNat script
    rwa [bytesEq, decodeFrames_append (decoded written),
      decodeFrames_error (firstFrame_tooLarge more four large), List.append_nil] at delivers
  case buffer =>
    intro script reader got rest polled
    exact ⟨poll_bodyLen_le polled, fun len limit rejected => poll_tooLarge rejected⟩
  case allocated =>
    intro fuel script call called
    exact readFrameAsync_allocated called

/-- A request with a small identifier alone. -/
def plainSerialize (requestId : Fin 128) : Except Empty (List UInt8) :=
  .ok (Protobuf.uintField 1 requestId)

def plainParse : List UInt8 → Except Unit (Fin 128)
  | [] => .ok 0
  | [8, byte] => if small : byte.toNat < 128 then .ok ⟨byte.toNat, small⟩ else .error ()
  | _ => .error ()

theorem plainSerialize_eq (requestId : Fin 128) :
    plainSerialize requestId =
      .ok (if requestId = 0 then [] else [8, UInt8.ofNat requestId]) := by
  have keyEq : Protobuf.key 1 Protobuf.wireVarint = [8] := by
    rw [Protobuf.key, Protobuf.varint]
    rfl
  rw [plainSerialize, Protobuf.uintField, keyEq, Protobuf.varint, if_pos requestId.isLt]
  congr 1
  simp only [Fin.val_eq_zero_iff]
  rfl

theorem plainParse_undoes {requestId : Fin 128} {body : List UInt8}
    (serialized : plainSerialize requestId = .ok body) : plainParse body = .ok requestId := by
  rw [plainSerialize_eq] at serialized
  cases serialized
  split
  · rename_i zero
    rw [zero]
    rfl
  · have small : (UInt8.ofNat requestId).toNat = requestId := by
      have := requestId.isLt
      rw [UInt8.toNat_ofNat']
      omega
    simp [plainParse, small]

/-- Two requests, in pieces with an interruption and a block between them. -/
def plainScript : List Arrival :=
  [.data 0 [0, 0], .interrupted, .data 2 [8], .wouldBlock, .data 7 [0, 0, 0, 0]]

theorem frames_delivered_plain :
    FrameReader.new.drive plainParse 16 20 plainScript = some ([7, 0], .eof) := by
  have written : writeMessages plainSerialize (16 : UInt32).toNat [7, 0] =
      .ok [0, 0, 0, 2, 8, 7, 0, 0, 0, 0] := by
    simp only [writeMessages, writeMessage, plainSerialize_eq]
    rfl
  have delivered := (frames_delivered plainSerialize plainParse plainParse_undoes 16 written).1
  exact (delivered plainScript rfl).polled 20 (by decide)

end Framing

end Tephra
