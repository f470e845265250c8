import Tephra.RecordParsing
import Tephra.WriterContent

/-!
# A record with another header

Between the length field of a record and its data stand the checksum and the header.  When these
bytes are replaced by those for a header of the same length, the record at the offset has the new
header and the old data, every other record parses as before, and the committed run ends where it
ended.
-/

namespace Tephra

namespace Seglog

open ByteImage FrameChain

variable {crc : List UInt8 → UInt32}

theorem slice_congr {bytes other : List UInt8} {offset length : Nat}
    (agree : AgreeOn bytes other offset (offset + length)) :
    (bytes.drop offset).take length = (other.drop offset).take length := by
  refine List.ext_getElem? fun index => ?_
  by_cases inside : index < length
  · rw [List.getElem?_take_of_lt inside, List.getElem?_take_of_lt inside, List.getElem?_drop,
      List.getElem?_drop]
    exact agree (offset + index) (by omega) (by omega)
  · rw [List.getElem?_eq_none (by simp; omega), List.getElem?_eq_none (by simp; omega)]

theorem parseRecordParts_congr {bytes other : List UInt8} {offset : Nat} (headerSize : Nat)
    (lengthEq : other.length = bytes.length)
    (agree : offset + recordHeadSize ≤ bytes.length →
      AgreeOn bytes other offset (offset + recordHeadSize +
        payloadLenField (headRaw ((bytes.drop offset).take recordHeadSize)))) :
    parseRecordParts crc headerSize other offset =
      parseRecordParts crc headerSize bytes offset := by
  unfold parseRecordParts
  rw [lengthEq]
  by_cases beyond : offset + recordHeadSize > bytes.length
  · rw [if_pos beyond, if_pos beyond]
  have agree := agree (Nat.not_lt.mp beyond)
  have headEq : (other.drop offset).take recordHeadSize =
      (bytes.drop offset).take recordHeadSize :=
    (slice_congr (agree.mono (Nat.le_refl _) (Nat.le_add_right _ _))).symm
  have payloadEq : (other.drop (offset + recordHeadSize)).take (payloadLenField (headRaw
        ((bytes.drop offset).take recordHeadSize))) =
      (bytes.drop (offset + recordHeadSize)).take (payloadLenField (headRaw
        ((bytes.drop offset).take recordHeadSize))) :=
    (slice_congr (agree.mono (Nat.le_add_right _ _) (Nat.le_refl _))).symm
  simp only [headEq, payloadEq]

theorem agreeOn_take {image other : List UInt8} {first last : Nat}
    (agree : AgreeOn image other first last) (flushed : Nat) :
    AgreeOn (image.take flushed) (other.take flushed) first last := by
  intro index above below
  rw [List.getElem?_take, List.getElem?_take, agree index above below]

/-- A record parses as before where the bytes of the record are as before. -/
theorem parse_congr {image other : List UInt8} {flushed size offset next : Nat} {frame : Frame}
    (headerSize : Nat) (inFile : flushed ≤ image.length) (lengthEq : other.length = image.length)
    (here : recordAt crc image size offset = some (frame, next))
    (agree : AgreeOn image other offset next) :
    parseRecordParts crc headerSize (other.take flushed) offset =
      parseRecordParts crc headerSize (image.take flushed) offset := by
  refine parseRecordParts_congr headerSize ?_ fun headFits => ?_
  · rw [List.length_take, List.length_take, lengthEq]
  · rw [List.length_take, Nat.min_eq_left inFile] at headFits
    obtain ⟨head, readHead, _, _, _, _, _, nextEq, _⟩ := recordAt_eq_some_iff.mp here
    obtain rfl := Option.some.inj (readHead.symm.trans (readExact_take inFile headFits))
    rw [← nextEq]
    exact agreeOn_take agree flushed

theorem recordAt_of_parse {image : List UInt8} {flushed headerSize offset : Nat}
    {header data : List UInt8} {len : Nat} (inFile : flushed ≤ image.length)
    (parsed : parseRecordParts crc headerSize (image.take flushed) offset =
      .ok (header, data, len)) :
    offset + recordHeadSize < wordSize ∧ header.length = headerSize ∧
      recordAt crc image flushed offset = some (⟨false, header ++ data⟩, offset + len) := by
  have bytesLength : (image.take flushed).length = flushed := by
    rw [List.length_take, Nat.min_eq_left inFile]
  unfold parseRecordParts at parsed
  rw [bytesLength] at parsed
  by_cases overflow : wordSize ≤ offset + recordHeadSize
  · rw [if_pos overflow] at parsed
    cases parsed
  rw [if_neg overflow] at parsed
  by_cases headFits : offset + recordHeadSize > flushed
  · rw [if_pos headFits] at parsed
    cases parsed
  rw [if_neg headFits] at parsed
  have readHead := readExact_take inFile (Nat.not_lt.mp headFits)
  dsimp only at parsed
  generalize List.take recordHeadSize _ = head at parsed readHead
  by_cases zero : isTruncationMarker head = true
  · rw [if_pos zero] at parsed
    cases parsed
  rw [if_neg zero] at parsed
  by_cases unknown : hasUnknownFlags (headRaw head) = true
  · rw [if_pos unknown] at parsed
    cases parsed
  rw [if_neg unknown] at parsed
  by_cases long : offset + recordHeadSize + payloadLenField (headRaw head) > flushed
  · rw [if_pos long] at parsed
    cases parsed
  rw [if_neg long] at parsed
  have readPayload := readExact_take inFile (Nat.not_lt.mp long)
  have payloadLength := length_of_readExact readPayload
  generalize List.take (payloadLenField _) _ = payload at parsed readPayload payloadLength
  by_cases control : isControlField (headRaw head) = true
  · rw [if_pos control] at parsed
    split at parsed <;> cases parsed
  rw [if_neg control] at parsed
  by_cases short : payload.length < headerSize
  · rw [if_pos short] at parsed
    cases parsed
  rw [if_neg short] at parsed
  split at parsed
  · cases parsed
  next valid =>
  obtain ⟨rfl, rfl, rfl⟩ := by simpa using parsed
  refine ⟨Nat.not_le.mp overflow, by rw [List.length_take]; omega,
    recordAt_eq_some_iff.mpr ⟨head, readHead, by simpa using zero, by simpa using unknown,
      by simpa using control, ?_, ?_, by omega, by omega⟩⟩
  · rw [List.take_append_drop]
    exact readPayload
  · rw [take_lenSize_eq readHead] at valid
    simpa [calculateCrc32c] using valid

theorem parse_of_recordAt {image : List UInt8} {flushed headerSize offset next : Nat}
    {payload : List UInt8} (inFile : flushed ≤ image.length)
    (word : offset + recordHeadSize < wordSize) (headerFits : headerSize ≤ payload.length)
    (here : recordAt crc image flushed offset = some (⟨false, payload⟩, next)) :
    parseRecordParts crc headerSize (image.take flushed) offset =
      .ok (payload.take headerSize, payload.drop headerSize, recordHeadSize + payload.length) := by
  have reads : (Reader.openSegment image (some flushed)).Reads image flushed :=
    Reader.reads_openSegment image (some flushed)
  obtain ⟨_, read, _⟩ := Reader.readRecord_data reads here rfl headerFits
  obtain ⟨_, sequential, _⟩ : ∃ reader, Reader.readSequential crc headerSize _ offset = _ ∧ _ :=
    reads.readSequential_eq_parse inFile headerSize offset
  rw [Reader.readSequential, if_neg (Nat.not_le_of_lt word), read] at sequential
  obtain ⟨parsed, _⟩ := Prod.mk.inj sequential
  cases outcome : parseRecordParts crc headerSize (image.take flushed) offset with
  | error fault =>
      rw [outcome] at parsed
      cases parsed
  | ok parts =>
      obtain ⟨header, data, len⟩ := parts
      rw [outcome] at parsed
      obtain ⟨rfl, rfl, _, rfl⟩ := Record.mk.inj (Except.ok.inj parsed)
      rfl

/-- What the bytes of a data record say about its length and its payload. -/
theorem bytes_of_recordAt {image payload : List UInt8} {size offset next : Nat}
    (here : recordAt crc image size offset = some (⟨false, payload⟩, next)) :
    payload.length ≤ maxRecordLen ∧
      readExact image offset lenSize = some (LittleEndian.encode lenSize payload.length) ∧
      readExact image (offset + recordHeadSize) payload.length = some payload := by
  obtain ⟨head, readHead, _, known, data, readPayload, _⟩ := recordAt_eq_some_iff.mp here
  have headLength := length_of_readExact readHead
  have takeLength : (head.take lenSize).length = lenSize := by simp [headLength, recordHeadSize]
  have short : headRaw head ≤ maxRecordLen :=
    le_of_flags_clear (LittleEndian.decode_lt_of_length takeLength) data.symm known
  have lengthEq : payload.length = headRaw head := by
    rw [← payloadLenField_of_le short]
    exact length_of_readExact readPayload
  rw [payloadLenField_of_le short, ← lengthEq] at readPayload
  refine ⟨lengthEq.le.trans short, ?_, readPayload⟩
  rw [← List.take_append_drop lenSize head] at readHead
  have read := readExact_left readHead
  rw [takeLength] at read
  rw [read, lengthEq, headRaw, LittleEndian.encode_decode_of_length takeLength]

theorem checksum_ne_zero_of_recordAt {image : List UInt8} {size offset next : Nat}
    (here : recordAt crc image size offset = some (⟨false, []⟩, next)) :
    crc (LittleEndian.encode lenSize 0) ≠ 0 := by
  intro zero
  obtain ⟨_, readLength, _⟩ := bytes_of_recordAt here
  obtain ⟨head, readHead, notEnd, _, _, _, valid, _⟩ := recordAt_eq_some_iff.mp here
  have headLength := length_of_readExact readHead
  have takeLength : (head.take lenSize).length = lenSize := by simp [headLength, recordHeadSize]
  have dropLength : (head.drop lenSize).length = crc32cSize := by simp [headLength, recordHeadSize]
  rw [← List.take_append_drop lenSize head] at readHead
  have first := readExact_left readHead
  rw [takeLength, readLength, Option.some.injEq] at first
  -- Both fields of the head are zero, and so are its bytes.
  have rawEq : headRaw head = 0 := by
    rw [headRaw, ← first]
    rfl
  rw [rawEq] at valid
  have crcEq : headCrc head = 0 := by
    rw [← valid]
    simp [calculateCrc32c, zero]
  have second : head.drop lenSize = LittleEndian.encode crc32cSize 0 := by
    rw [← crcEq]
    exact (LittleEndian.encode_decode_of_length dropLength).symm
  rw [← List.take_append_drop lenSize head, ← first, second] at notEnd
  exact absurd notEnd (by decide)

/-- What stands between the length field of a record and its data: the checksum and the header. -/
def patchBytes (crc : List UInt8 → UInt32) (header data : List UInt8) : List UInt8 :=
  LittleEndian.encode crc32cSize (calculateCrc32c crc
    (LittleEndian.encode lenSize (header.length + data.length)) header data).toNat ++ header

theorem length_patchBytes (header data : List UInt8) :
    (patchBytes crc header data).length = crc32cSize + header.length := by
  rw [patchBytes, List.length_append, LittleEndian.length_encode]

theorem recordBytes_eq_patch (header data : List UInt8) :
    recordBytes crc header data =
      LittleEndian.encode lenSize (header.length + data.length) ++
        (patchBytes crc header data ++ data) := by
  simp only [recordBytes, patchBytes, List.append_assoc]

/-- With a header of the same length, the patched bytes are those of a record. -/
theorem recordAt_patched {image header data newHeader : List UInt8} {size offset next : Nat}
    (here : recordAt crc image size offset = some (⟨false, header ++ data⟩, next))
    (sameLength : newHeader.length = header.length) :
    recordAt crc (writeAt image (offset + lenSize) (patchBytes crc newHeader data)) size offset =
      some (⟨false, newHeader ++ data⟩, next) := by
  obtain ⟨short, readLength, readPayload⟩ := bytes_of_recordAt here
  obtain ⟨fits, inside⟩ := next_le_of_recordAt here
  have nextEq := next_of_recordAt here
  rw [Frame.totalLen] at nextEq
  rw [List.length_append] at short readLength readPayload nextEq
  have patchLength : (patchBytes crc newHeader data).length = _ := length_patchBytes newHeader data
  have headSize : recordHeadSize = lenSize + crc32cSize := rfl
  have patchInside : offset + lenSize + (patchBytes crc newHeader data).length ≤ image.length := by
    omega
  have grown := length_writeAt_of_fits patchInside
  generalize patchEq : patchBytes crc newHeader data = patch at patchLength patchInside grown ⊢
  -- The length field is in front of the patch, and the data behind it.
  have left : readExact (writeAt image (offset + lenSize) patch) offset lenSize = some _ :=
    readExact_congr readLength
      (agreeOn_writeAt_before (Nat.le_refl _) (by omega) offset).symm (by omega)
  have middle : readExact (writeAt image (offset + lenSize) patch) _ _ = some _ :=
    readExact_writeAt_self patch (by omega)
  have dataStart : offset + recordHeadSize + header.length = offset + lenSize + patch.length := by
    omega
  have readData := readExact_right readPayload
  rw [dataStart] at readData
  have right : readExact (writeAt image (offset + lenSize) patch) _ data.length = some data :=
    readExact_congr readData
      (agreeOn_writeAt_after (by omega) (Nat.le_refl _) _).symm (by omega)
  have lengthBytes : (LittleEndian.encode lenSize (newHeader.length + data.length)).length =
      lenSize :=
    LittleEndian.length_encode _ _
  have behind := readExact_append middle right
  rw [← lengthBytes] at left behind
  rw [← sameLength] at left
  have read := readExact_append left behind
  rw [← patchEq, ← recordBytes_eq_patch] at read
  have stopEq : offset + (recordBytes crc newHeader data).length = next := by
    rw [length_recordBytes, sameLength, nextEq]
  rw [← patchEq, ← stopEq]
  rcases Nat.eq_zero_or_pos (newHeader.length + data.length) with empty | nonempty
  · obtain ⟨rfl, rfl⟩ : header = [] ∧ data = [] := by
      rw [sameLength] at empty
      simpa [List.length_eq_zero_iff] using empty
    exact recordAt_recordBytes_of_checksum (checksum_ne_zero_of_recordAt here) (by omega)
      (stopEq.le.trans fits) read
  · exact recordAt_recordBytes nonempty (by omega) (stopEq.le.trans fits) read

/-- The bytes of a record are the only ones that a patch of its header changes. -/
structure PatchedAt (crc : List UInt8 → UInt32) (image other : List UInt8) (size offset next : Nat)
    (payload : List UInt8) : Prop where
  length_eq : other.length = image.length
  before : AgreeOn image other 0 offset
  after : ∀ last, AgreeOn image other next last
  here : recordAt crc other size offset = some (⟨false, payload⟩, next)

theorem patchedAt {image header data newHeader : List UInt8} {size offset next : Nat}
    (here : recordAt crc image size offset = some (⟨false, header ++ data⟩, next))
    (sameLength : newHeader.length = header.length) :
    PatchedAt crc image (writeAt image (offset + lenSize) (patchBytes crc newHeader data)) size
      offset next (newHeader ++ data) := by
  obtain ⟨_, inside⟩ := next_le_of_recordAt here
  have nextEq := next_of_recordAt here
  rw [Frame.totalLen, List.length_append] at nextEq
  have patchLength : (patchBytes crc newHeader data).length = _ := length_patchBytes newHeader data
  have headSize : recordHeadSize = lenSize + crc32cSize := rfl
  refine ⟨length_writeAt_of_fits (by omega), ?_, fun last => ?_, recordAt_patched here sameLength⟩
  · exact (agreeOn_writeAt_before (by omega) (by omega) 0).symm
  · exact (agreeOn_writeAt_after (by omega) (by omega) last).symm

/-- The committed run of a patched file has the new record in place of the old one. -/
theorem PatchedAt.markedPrefix {image other payload payload' : List UInt8}
    {size start offset next stop : Nat} {before later : List (Nat × Frame)}
    (patched : PatchedAt crc image other size offset next payload')
    (here : recordAt crc image size offset = some (⟨false, payload⟩, next))
    (committed : MarkedPrefix (recordAt crc image size) IsMarker start
      (before ++ (offset, ⟨false, payload⟩) :: later) stop) :
    MarkedPrefix (recordAt crc other size) IsMarker start
        (before ++ (offset, ⟨false, payload'⟩) :: later) stop ∧
      lastMarkerPosition (before ++ (offset, ⟨false, payload'⟩) :: later) =
        lastMarkerPosition (before ++ (offset, ⟨false, payload⟩) :: later) := by
  obtain ⟨middle, front, back⟩ := committed.chain.split
  obtain ⟨rfl, next', here', rest⟩ := chain_cons_iff.mp back
  obtain rfl : next = next' := by simpa [here] using here'
  have ends := committed.ends.resolve_left (by simp)
  -- The record is not a marker, so that the run goes on behind it.
  have nonempty : later ≠ [] := by
    rintro rfl
    obtain ⟨_, entry, split, marker⟩ := ends
    obtain ⟨-, lastEq⟩ := List.append_inj' split rfl
    obtain rfl := List.singleton_inj.mp lastEq
    exact not_isMarker_data payload marker
  have laterEnds : EndsMarked IsMarker later := by
    have regrouped : before ++ (offset, ⟨false, payload⟩) :: later =
        (before ++ [(offset, ⟨false, payload⟩)]) ++ later := by simp
    rw [regrouped] at ends
    exact ends.of_append nonempty
  have nextLe : next ≤ size := (next_le_of_recordAt here).1
  have restLe : next ≤ stop := (Nat.le_add_right _ _).trans (rest.le (recordAt_advances _ _))
  have fits : stop ≤ size := by
    rcases rest.stop_le (recordAt_advances image size) with same | below
    · exact same.le.trans nextLe
    · exact below
  have front' := chain_congr front (patched.before.mono (Nat.zero_le _) (Nat.le_refl _))
    ((recordAt_advances image size _ _ _ here).1.le.trans nextLe)
  have rest' := chain_congr rest (patched.after stop) fits
  constructor
  · refine ⟨front'.append (.cons patched.here rest'), .inr ?_, ?_⟩
    · have regrouped : before ++ (offset, ⟨false, payload'⟩) :: later =
          (before ++ [(offset, ⟨false, payload'⟩)]) ++ later := by simp
      rw [regrouped]
      exact laterEnds.append_left
    · exact unmarked_congr (fun last => (patched.after last).mono restLe (Nat.le_refl _))
        committed.longest
  · rw [lastMarkerPosition, lastMarkerPosition, List.getLast?_append, List.getLast?_append]
    obtain ⟨front, last, rfl, _⟩ := laterEnds
    simp [List.getLast?_cons]

end Seglog

end Tephra
