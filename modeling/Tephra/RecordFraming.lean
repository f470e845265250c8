import Mathlib.Data.Nat.Bitwise
import Tephra.ByteImage
import Tephra.FrameChain
import Tephra.LittleEndian

/-!
# Record framing of a segment file

A record is an eight-byte head, holding the payload length and a checksum, and
the payload.  Bit 30 of the length field marks an internal control record and
bit 31 is reserved.  A commit marker is the control record whose payload is a
kind byte and the highest position of its batch.

The checksum function is a parameter: no result below depends on how it is
computed.  A record is *well formed* when its flags, its bounds and its
checksum are all accepted, and `recordAt` reads the well-formed record at an
offset.
-/

namespace Tephra

namespace Seglog

open ByteImage FrameChain

def lenSize : Nat := 4

def crc32cSize : Nat := 4

/-- Size of the record header: the length field and the checksum. -/
def recordHeadSize : Nat := lenSize + crc32cSize

/-- Control-record flag bit in the length field (bit 30). -/
def controlFlag : Nat := 0x40000000

/-- Known flag bits, currently just the control flag. -/
def flagMask : Nat := controlFlag

/-- The bits of the length field that hold the length (bits 0 to 29). -/
def lengthMask : Nat := 0x3FFFFFFF

/-- Largest encodable record length. -/
def maxRecordLen : Nat := lengthMask

/-- First payload byte of a commit marker. -/
def batchCommit : UInt8 := 0x01

/-- Payload size of a commit marker: the kind byte and a 64-bit position. -/
def commitMarkerPayload : Nat := 1 + 8

/-- Whether a length field has a bit set outside the known flags and the length. -/
def hasUnknownFlags (raw : Nat) : Bool :=
  raw &&& (0xFFFFFFFF ^^^ (flagMask ||| lengthMask)) != 0

/-- Whether a length field carries the control flag. -/
def isControlField (raw : Nat) : Bool :=
  raw &&& controlFlag != 0

/-- The payload length a length field denotes. -/
def payloadLenField (raw : Nat) : Nat :=
  raw &&& lengthMask

/-- A head of zero bytes ends the written part of a segment. -/
def isTruncationMarker (header : List UInt8) : Bool :=
  header.all (· == 0)

/-- The checksum of a record, over its length field, its header and its data. -/
def calculateCrc32c (crc : List UInt8 → UInt32) (lenBytes header data : List UInt8) :
    UInt32 :=
  crc (lenBytes ++ header ++ data)

/-- The length field of a record head. -/
def headRaw (head : List UInt8) : Nat :=
  LittleEndian.decode (head.take lenSize)

/-- The checksum field of a record head. -/
def headCrc (head : List UInt8) : Nat :=
  LittleEndian.decode (head.drop lenSize)

/-- A framed record: whether it is a control record, and its payload. -/
structure Frame where
  isControl : Bool
  payload : List UInt8
deriving DecidableEq, Repr

namespace Frame

/-- Only a commit marker ends a committed run of records. -/
def isCommitMarker (frame : Frame) : Bool :=
  frame.isControl && frame.payload.length == commitMarkerPayload &&
    frame.payload.head? == some batchCommit

/-- The position stored in a commit marker. -/
def markerPosition (frame : Frame) : Nat :=
  LittleEndian.decode (frame.payload.drop 1)

/-- The bytes a framed record occupies. -/
def totalLen (frame : Frame) : Nat :=
  recordHeadSize + frame.payload.length

end Frame

/-- The commit markers among the records of a segment. -/
def IsMarker (frame : Frame) : Prop :=
  frame.isCommitMarker = true

instance : DecidablePred IsMarker :=
  fun frame => inferInstanceAs (Decidable (frame.isCommitMarker = true))

variable (crc : List UInt8 → UInt32)

/-- The well-formed record at an offset of a segment of `size` bytes, with the
offset just after it. -/
def recordAt (image : List UInt8) (size : Nat) : Decoder Frame := fun offset =>
  (readExact image offset recordHeadSize).bind fun head =>
    let raw := headRaw head
    let payloadOffset := offset + recordHeadSize
    let recordEnd := payloadOffset + payloadLenField raw
    if isTruncationMarker head || hasUnknownFlags raw || decide (size < recordEnd) then
      none
    else
      (readExact image payloadOffset (payloadLenField raw)).bind fun payload =>
        if (calculateCrc32c crc (LittleEndian.encode lenSize raw) [] payload).toNat =
            headCrc head then
          some (⟨isControlField raw, payload⟩, recordEnd)
        else
          none

/-- The bytes of a data record. -/
def recordBytes (header data : List UInt8) : List UInt8 :=
  let lengthBytes := LittleEndian.encode lenSize (header.length + data.length)
  lengthBytes ++
    LittleEndian.encode crc32cSize (calculateCrc32c crc lengthBytes header data).toNat ++
    header ++ data

/-- The payload of a commit marker. -/
def markerPayload (highestPosition : Nat) : List UInt8 :=
  batchCommit :: LittleEndian.encode 8 highestPosition

/-- The bytes of a commit marker. -/
def markerBytes (highestPosition : Nat) : List UInt8 :=
  let lengthBytes := LittleEndian.encode lenSize (commitMarkerPayload ||| controlFlag)
  let payload := markerPayload highestPosition
  lengthBytes ++
    LittleEndian.encode crc32cSize (calculateCrc32c crc lengthBytes [] payload).toNat ++
    payload

theorem payloadLenField_of_le {length : Nat} (fits : length ≤ maxRecordLen) :
    payloadLenField length = length := by
  have bound : length < 2 ^ 30 := by
    simp only [maxRecordLen, lengthMask] at fits
    omega
  exact Nat.and_two_pow_sub_one_of_lt_two_pow bound

theorem payloadLenField_le (raw : Nat) : payloadLenField raw ≤ maxRecordLen :=
  Nat.and_le_right

private theorem and_two_pow_eq_zero {number bit : Nat} (below : number < 2 ^ bit) :
    number &&& 2 ^ bit = 0 := by
  rw [Nat.and_two_pow, Nat.testBit_lt_two_pow below]
  simp

theorem hasUnknownFlags_of_le {length : Nat} (fits : length ≤ maxRecordLen) :
    hasUnknownFlags length = false := by
  have bound : length < 2 ^ 31 := by
    simp only [maxRecordLen, lengthMask] at fits
    omega
  have masked : length &&& 2 ^ 31 = 0 := and_two_pow_eq_zero bound
  have mask : 0xFFFFFFFF ^^^ (flagMask ||| lengthMask) = 2 ^ 31 := by decide
  rw [hasUnknownFlags, mask, masked]
  rfl

theorem isControlField_of_le {length : Nat} (fits : length ≤ maxRecordLen) :
    isControlField length = false := by
  have bound : length < 2 ^ 30 := by
    simp only [maxRecordLen, lengthMask] at fits
    omega
  have masked : length &&& 2 ^ 30 = 0 := and_two_pow_eq_zero bound
  have flag : controlFlag = 2 ^ 30 := by decide
  rw [isControlField, flag, masked]
  rfl

/-- A length field without flags is the length of a payload. -/
theorem le_of_flags_clear {length : Nat} (word : length < 2 ^ 32)
    (data : isControlField length = false) (known : hasUnknownFlags length = false) :
    length ≤ maxRecordLen := by
  have flag : controlFlag = 2 ^ 30 := by decide
  have mask : 0xFFFFFFFF ^^^ (flagMask ||| lengthMask) = 2 ^ 31 := by decide
  simp only [isControlField, flag, Nat.and_two_pow, bne_eq_false_iff_eq] at data
  simp only [hasUnknownFlags, mask, Nat.and_two_pow, bne_eq_false_iff_eq] at known
  have low : length.testBit 30 = false := by
    cases set : length.testBit 30 with
    | false => rfl
    | true => simp [set] at data
  have high : length.testBit 31 = false := by
    cases set : length.testBit 31 with
    | false => rfl
    | true => simp [set] at known
  rw [Nat.testBit_eq_decide_div_mod_eq, decide_eq_false_iff_not] at low high
  simp only [maxRecordLen, lengthMask]
  omega

theorem headRaw_recordBytes (header data : List UInt8)
    (word : header.length + data.length < 256 ^ lenSize) :
    headRaw (recordBytes crc header data) = header.length + data.length := by
  rw [headRaw, recordBytes]
  simp only [List.append_assoc]
  rw [List.take_left' (by simp), LittleEndian.decode_encode word]

section Reading

variable {crc}

/-- The length field of a head has the bytes of its value. -/
theorem take_lenSize_eq {image head : List UInt8} {offset : Nat}
    (readHead : readExact image offset recordHeadSize = some head) :
    head.take lenSize = LittleEndian.encode lenSize (headRaw head) := by
  symm
  apply LittleEndian.encode_decode_of_length
  simp [length_of_readExact readHead, recordHeadSize]

variable (crc) in
/-- The checksum of a record does not depend on where its header ends. -/
theorem calculateCrc32c_split (lenBytes payload : List UInt8) (length : Nat) :
    calculateCrc32c crc lenBytes (payload.take length) (payload.drop length) =
      calculateCrc32c crc lenBytes [] payload := by
  simp [calculateCrc32c]

/-- Everything a well-formed record says about the bytes it was read from. -/
theorem recordAt_eq_some_iff {image : List UInt8} {size offset next : Nat}
    {frame : Frame} :
    recordAt crc image size offset = some (frame, next) ↔
      ∃ head, readExact image offset recordHeadSize = some head ∧
        isTruncationMarker head = false ∧
        hasUnknownFlags (headRaw head) = false ∧
        frame.isControl = isControlField (headRaw head) ∧
        readExact image (offset + recordHeadSize) (payloadLenField (headRaw head)) =
          some frame.payload ∧
        (calculateCrc32c crc (LittleEndian.encode lenSize (headRaw head)) []
          frame.payload).toNat = headCrc head ∧
        next = offset + recordHeadSize + payloadLenField (headRaw head) ∧
        next ≤ size := by
  obtain ⟨isControl, payload⟩ := frame
  unfold recordAt
  simp only [Option.bind_eq_some_iff]
  refine exists_congr fun head => and_congr_right fun _ => ?_
  by_cases accepted : isTruncationMarker head = false ∧
      hasUnknownFlags (headRaw head) = false ∧
      offset + recordHeadSize + payloadLenField (headRaw head) ≤ size
  · obtain ⟨notEnd, known, fits⟩ := accepted
    have inside : ¬ size < offset + recordHeadSize + payloadLenField (headRaw head) := by
      omega
    simp only [notEnd, known, inside, decide_false, Bool.or_self, Bool.false_eq_true,
      if_false, Option.bind_eq_some_iff, true_and]
    constructor
    · rintro ⟨found, read, checked⟩
      split at checked
      · next valid =>
          simp only [Option.some.injEq, Prod.mk.injEq, Frame.mk.injEq] at checked
          obtain ⟨⟨rfl, rfl⟩, rfl⟩ := checked
          exact ⟨rfl, read, valid, rfl, fits⟩
      · cases checked
    · rintro ⟨rfl, read, valid, rfl, _⟩
      exact ⟨payload, read, by rw [if_pos valid]⟩
  · rw [if_pos]
    · constructor
      · intro impossible
        cases impossible
      · rintro ⟨notEnd, known, _, _, _, rfl, fits⟩
        exact absurd ⟨notEnd, known, fits⟩ accepted
    · by_contra rejected
      simp only [Bool.or_eq_true, decide_eq_true_eq, not_or, Bool.not_eq_true,
        Nat.not_lt] at rejected
      exact accepted ⟨rejected.1.1, rejected.1.2, rejected.2⟩

theorem next_of_recordAt {image : List UInt8} {size offset next : Nat} {frame : Frame}
    (here : recordAt crc image size offset = some (frame, next)) :
    next = offset + frame.totalLen := by
  obtain ⟨head, _, _, _, _, read, _, rfl, _⟩ := recordAt_eq_some_iff.mp here
  rw [Frame.totalLen, length_of_readExact read, Nat.add_assoc]

theorem next_le_of_recordAt {image : List UInt8} {size offset next : Nat} {frame : Frame}
    (here : recordAt crc image size offset = some (frame, next)) :
    next ≤ size ∧ next ≤ image.length := by
  obtain ⟨head, _, _, _, _, read, _, rfl, fits⟩ := recordAt_eq_some_iff.mp here
  exact ⟨fits, (readExact_eq_some_iff.mp read).1⟩

theorem recordAt_advances (image : List UInt8) (size : Nat) :
    Advances (recordAt crc image size) size := by
  intro offset frame next here
  have nextEq := next_of_recordAt here
  have bounds := next_le_of_recordAt here
  simp only [Frame.totalLen, recordHeadSize, lenSize, crc32cSize] at nextEq
  omega

theorem recordAt_inside (image : List UInt8) (size : Nat) :
    Advances (recordAt crc image size) image.length := by
  intro offset frame next here
  exact ⟨(recordAt_advances image size _ _ _ here).1, (next_le_of_recordAt here).2⟩

theorem recordAt_congr {image other : List UInt8} {size size' offset next : Nat}
    {frame : Frame} (here : recordAt crc image size offset = some (frame, next))
    (agree : AgreeOn image other offset next) (fits : next ≤ size') :
    recordAt crc other size' offset = some (frame, next) := by
  have bounds := next_le_of_recordAt here
  have advanced := (recordAt_advances image size _ _ _ here).1
  have otherBound := agree.length_le advanced bounds.2
  obtain ⟨head, readHead, notEnd, known, control, readPayload, valid, nextEq, _⟩ :=
    recordAt_eq_some_iff.mp here
  refine recordAt_eq_some_iff.mpr ⟨head, ?_, notEnd, known, control, ?_, valid, nextEq, fits⟩
  · exact readExact_congr readHead (agree.mono (Nat.le_refl _) (by omega)) (by omega)
  · exact readExact_congr readPayload (agree.mono (by omega) (by omega)) (by omega)

theorem chain_congr {image other : List UInt8} {size size' start stop : Nat}
    {entries : List (Nat × Frame)}
    (chain : Chain (recordAt crc image size) start entries stop)
    (agree : AgreeOn image other start stop) (fits : stop ≤ size') :
    Chain (recordAt crc other size') start entries stop :=
  chain.transfer (recordAt_advances image size) fun _ _ _ above below here =>
    recordAt_congr here (agree.mono above below) (Nat.le_trans below fits)

/-- Whether a committed run stands at an offset depends on the bytes from there on. -/
theorem unmarked_congr {image other : List UInt8} {size offset : Nat}
    (agree : ∀ last, AgreeOn image other offset last)
    (unmarked : Unmarked (recordAt crc image size) IsMarker offset) :
    Unmarked (recordAt crc other size) IsMarker offset := by
  intro entries stop chain ends
  have back : Chain (recordAt crc image size) offset entries stop :=
    chain.transfer (recordAt_advances other size) fun _ _ next above _ here =>
      recordAt_congr here ((agree next).symm.mono above (Nat.le_refl next))
        (next_le_of_recordAt here).1
  exact unmarked entries stop back ends

@[simp]
theorem length_recordBytes (header data : List UInt8) :
    (recordBytes crc header data).length =
      recordHeadSize + (header.length + data.length) := by
  simp [recordBytes, recordHeadSize]
  omega

@[simp]
theorem length_markerPayload (position : Nat) :
    (markerPayload position).length = commitMarkerPayload := by
  simp [markerPayload, commitMarkerPayload]

@[simp]
theorem length_markerBytes (position : Nat) :
    (markerBytes crc position).length = recordHeadSize + commitMarkerPayload := by
  simp [markerBytes, recordHeadSize, Nat.add_assoc]

/-- A record whose bytes stand at an offset is read there. -/
private theorem recordAt_of_bytes {image payload : List UInt8} {size offset raw : Nat}
    (rawFits : raw < 256 ^ lenSize)
    (nonzero : raw ≠ 0 ∨
      (calculateCrc32c crc (LittleEndian.encode lenSize raw) [] payload).toNat ≠ 0)
    (known : hasUnknownFlags raw = false)
    (lengthEq : payloadLenField raw = payload.length)
    (fits : offset + recordHeadSize + payload.length ≤ size)
    (read : readExact image offset (recordHeadSize + payload.length) =
      some (LittleEndian.encode lenSize raw ++
        LittleEndian.encode crc32cSize
          (calculateCrc32c crc (LittleEndian.encode lenSize raw) [] payload).toNat ++
        payload)) :
    recordAt crc image size offset =
      some (⟨isControlField raw, payload⟩, offset + recordHeadSize + payload.length) := by
  set checksum := calculateCrc32c crc (LittleEndian.encode lenSize raw) [] payload with
    checksumEq
  set head := LittleEndian.encode lenSize raw ++
    LittleEndian.encode crc32cSize checksum.toNat with headEq
  have headLength : head.length = recordHeadSize := by
    simp [headEq, recordHeadSize]
  have rawEq : headRaw head = raw := by
    have taken : head.take lenSize = LittleEndian.encode lenSize raw := by
      rw [headEq]
      exact List.take_left' (by simp)
    rw [headRaw, taken, LittleEndian.decode_encode rawFits]
  have crcEq : headCrc head = checksum.toNat := by
    have dropped : head.drop lenSize = LittleEndian.encode crc32cSize checksum.toNat := by
      rw [headEq]
      exact List.drop_left' (by simp)
    rw [headCrc, dropped]
    exact LittleEndian.decode_encode checksum.toNat_lt
  have notEnd : isTruncationMarker head = false := by
    by_contra marker
    rw [Bool.not_eq_false, isTruncationMarker, List.all_eq_true] at marker
    rcases nonzero with length | sum
    · refine length (LittleEndian.eq_zero_of_encode_all_zero rawFits fun byte member => ?_)
      simpa using marker byte (by simp [headEq, member])
    · have sumFits : checksum.toNat < 256 ^ crc32cSize := checksum.toNat_lt
      refine sum (LittleEndian.eq_zero_of_encode_all_zero sumFits fun byte member => ?_)
      simpa using marker byte (by simp [headEq, member])
  have readHead := readExact_left read
  have readPayload := readExact_right read
  rw [headLength] at readHead readPayload
  refine recordAt_eq_some_iff.mpr ⟨head, readHead, notEnd, ?_⟩
  rw [rawEq, lengthEq, crcEq]
  exact ⟨known, rfl, readPayload, rfl, rfl, fits⟩

/-- A written data record is read back at its offset when its head is not all zeros. -/
private theorem recordAt_dataBytes {image header data : List UInt8} {size offset : Nat}
    (nonzero : header.length + data.length ≠ 0 ∨
      (calculateCrc32c crc (LittleEndian.encode lenSize (header.length + data.length)) []
        (header ++ data)).toNat ≠ 0)
    (short : header.length + data.length ≤ maxRecordLen)
    (fits : offset + (recordBytes crc header data).length ≤ size)
    (read : readExact image offset (recordBytes crc header data).length =
      some (recordBytes crc header data)) :
    recordAt crc image size offset =
      some (⟨false, header ++ data⟩, offset + (recordBytes crc header data).length) := by
  rw [length_recordBytes] at read fits ⊢
  have rawFits : header.length + data.length < 256 ^ lenSize := by
    simp only [maxRecordLen, lengthMask] at short
    simp only [lenSize]
    omega
  have found : recordAt crc image size offset =
      some (⟨isControlField (header.length + data.length), header ++ data⟩,
        offset + recordHeadSize + (header ++ data).length) :=
    recordAt_of_bytes rawFits nonzero
    (hasUnknownFlags_of_le short) (by simpa using payloadLenField_of_le short)
    (by simpa [Nat.add_assoc] using fits)
    (by simpa [recordBytes, calculateCrc32c] using read)
  rw [isControlField_of_le short] at found
  simpa [Nat.add_assoc] using found

theorem recordAt_recordBytes {image header data : List UInt8} {size offset : Nat}
    (nonempty : 0 < header.length + data.length)
    (short : header.length + data.length ≤ maxRecordLen)
    (fits : offset + (recordBytes crc header data).length ≤ size)
    (read : readExact image offset (recordBytes crc header data).length =
      some (recordBytes crc header data)) :
    recordAt crc image size offset =
      some (⟨false, header ++ data⟩, offset + (recordBytes crc header data).length) :=
  recordAt_dataBytes (.inl (by omega)) short fits read

/-- So is a record without a payload, when the checksum of its length is not zero. -/
theorem recordAt_recordBytes_of_checksum {image header data : List UInt8} {size offset : Nat}
    (nonzero : crc (LittleEndian.encode lenSize 0) ≠ 0)
    (short : header.length + data.length ≤ maxRecordLen)
    (fits : offset + (recordBytes crc header data).length ≤ size)
    (read : readExact image offset (recordBytes crc header data).length =
      some (recordBytes crc header data)) :
    recordAt crc image size offset =
      some (⟨false, header ++ data⟩, offset + (recordBytes crc header data).length) := by
  refine recordAt_dataBytes ?_ short fits read
  rcases Nat.eq_zero_or_pos (header.length + data.length) with empty | nonempty
  · obtain ⟨rfl, rfl⟩ : header = [] ∧ data = [] := by
      simpa [List.length_eq_zero_iff] using empty
    right
    simpa [calculateCrc32c, ← UInt32.toNat_inj] using nonzero
  · exact .inl (by omega)

theorem recordAt_markerBytes {image : List UInt8} {size offset position : Nat}
    (fits : offset + (markerBytes crc position).length ≤ size)
    (read : readExact image offset (markerBytes crc position).length =
      some (markerBytes crc position)) :
    recordAt crc image size offset =
      some (⟨true, markerPayload position⟩, offset + (markerBytes crc position).length) := by
  rw [length_markerBytes] at read fits ⊢
  have control : isControlField (commitMarkerPayload ||| controlFlag) = true := by decide
  have found : recordAt crc image size offset =
      some (⟨isControlField (commitMarkerPayload ||| controlFlag), markerPayload position⟩,
        offset + recordHeadSize + (markerPayload position).length) :=
    recordAt_of_bytes (by decide) (.inl (by decide)) (by decide)
    (by rw [length_markerPayload]; decide)
    (by simpa [Nat.add_assoc] using fits) (by simpa [markerBytes] using read)
  rw [control] at found
  simpa [Nat.add_assoc] using found

theorem isMarker_markerPayload (position : Nat) :
    IsMarker ⟨true, markerPayload position⟩ := by
  simp [IsMarker, Frame.isCommitMarker, markerPayload, commitMarkerPayload]

theorem markerPosition_markerPayload {position : Nat} (fits : position < 2 ^ 64) :
    Frame.markerPosition ⟨true, markerPayload position⟩ = position := by
  have fits' : position < 256 ^ 8 := by
    norm_num at fits ⊢
    exact fits
  simpa [Frame.markerPosition, markerPayload] using LittleEndian.decode_encode fits'

theorem not_isMarker_data (payload : List UInt8) :
    ¬ IsMarker ⟨false, payload⟩ := by
  simp [IsMarker, Frame.isCommitMarker]

end Reading

end Seglog

end Tephra
