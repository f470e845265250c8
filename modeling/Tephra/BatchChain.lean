import Tephra.BatchWriting
import Tephra.FrameRuns
import Tephra.SegmentIteration

/-!
# The records of a written batch

The bytes of a batch are a chain of well-formed records that ends in its commit
marker, wherever they stand in a segment.  Where a segment was never written,
its zeros are no record at all.
-/

namespace Tephra

namespace Seglog

open ByteImage FrameChain

variable {crc : List UInt8 → UInt32}

/-- The payloads of the data records among the records of a segment. -/
def payloads (entries : List (Nat × Frame)) : List (List UInt8) :=
  (dataRecords entries).map Prod.snd

theorem payloads_append (left right : List (Nat × Frame)) :
    payloads (left ++ right) = payloads left ++ payloads right := by
  rw [payloads, dataRecords_append, List.map_append, payloads, payloads]

theorem lastMarkerPosition_append {left right : List (Nat × Frame)} (nonempty : right ≠ []) :
    lastMarkerPosition (left ++ right) = lastMarkerPosition right := by
  rw [lastMarkerPosition, lastMarkerPosition, List.getLast?_append_of_ne_nil _ nonempty]

/-- Records the framing can represent: nonempty and of an encodable length. -/
def Framable (records : List (List UInt8)) : Prop :=
  ∀ record ∈ records, 0 < record.length ∧ record.length ≤ maxRecordLen

theorem chain_recordsBytes {file : List UInt8} (size : Nat) {records : List (List UInt8)} :
    ∀ {start : Nat}, Framable records →
      start + (recordsBytes crc records).length ≤ size →
      readExact file start (recordsBytes crc records).length =
        some (recordsBytes crc records) →
      ∃ entries,
        Chain (recordAt crc file size) start entries
          (start + (recordsBytes crc records).length) ∧
        payloads entries = records ∧
        (dataRecords entries).map Prod.fst = recordOffsets start records ∧
        ∀ entry ∈ entries, ¬ IsMarker entry.2 := by
  induction records with
  | nil =>
      intro start _ _ _
      exact ⟨[], .nil start, rfl, rfl, by simp⟩
  | cons record records ih =>
      intro start framable fits read
      rw [recordsBytes_cons] at fits read ⊢
      rw [List.length_append] at fits ⊢
      have first := readExact_left read
      have rest := readExact_right read
      have bounds := framable record (by simp)
      have here : recordAt crc file size start = _ := recordAt_recordBytes
        (by simpa using bounds.1) (by simpa using bounds.2) (by omega) first
      obtain ⟨entries, chain, payloadsEq, offsetsEq, plain⟩ :=
        ih (fun record member => framable record (by simp [member])) (by omega) rest
      rw [← Nat.add_assoc]
      refine ⟨_, .cons here chain, ?_, ?_, ?_⟩
      · rw [← payloadsEq]
        rfl
      · rw [length_recordBytes, List.length_nil, Nat.zero_add] at offsetsEq
        rw [recordOffsets, ← offsetsEq]
        rfl
      · intro entry member
        rcases List.mem_cons.mp member with rfl | later
        · simp [IsMarker, Frame.isCommitMarker]
        · exact plain entry later

/-- A written batch is read as its records and its marker. -/
theorem chain_batchBytes {file : List UInt8} {size start position : Nat}
    {records : List (List UInt8)} (framable : Framable records)
    (fits : start + batchSize records ≤ size)
    (read : readExact file start (batchSize records) =
      some (batchBytes crc records position)) :
    ∃ entries,
      Chain (recordAt crc file size) start entries (start + batchSize records) ∧
      IsRun IsMarker entries ∧
      payloads entries = records ∧
      (dataRecords entries).map Prod.fst = recordOffsets start records ∧
      (position < 2 ^ 64 → lastMarkerPosition entries = some position) := by
  rw [← length_batchBytes crc records position] at fits read ⊢
  rw [batchBytes_eq] at fits read ⊢
  rw [List.length_append] at fits ⊢
  have first := readExact_left read
  have rest := readExact_right read
  obtain ⟨entries, chain, payloadsEq, offsetsEq, plain⟩ :=
    chain_recordsBytes size framable (by omega) first
  have marker : recordAt crc file size _ = _ := recordAt_markerBytes (by omega) rest
  rw [← Nat.add_assoc]
  refine ⟨_, chain.append (Chain.single marker), ?_, ?_, ?_, ?_⟩
  · exact ⟨entries, _, rfl, plain, isMarker_markerPayload position⟩
  · rw [payloads_append, payloadsEq]
    simp [payloads, dataRecords]
  · rw [dataRecords_append, List.map_append, offsetsEq]
    simp [dataRecords]
  · intro positionFits
    simp [lastMarkerPosition, markerPosition_markerPayload positionFits]

/-- The bytes from an offset on are zeros, up to the end of the file. -/
def ZeroFrom (file : List UInt8) (offset : Nat) : Prop :=
  ∀ index byte, offset ≤ index → file[index]? = some byte → byte = 0

theorem ZeroFrom.mono {file : List UInt8} {offset offset' : Nat}
    (zero : ZeroFrom file offset) (later : offset ≤ offset') : ZeroFrom file offset' :=
  fun index byte above found => zero index byte (Nat.le_trans later above) found

theorem ZeroFrom.truncation {file head : List UInt8} {offset length : Nat}
    (zero : ZeroFrom file offset) (read : readExact file offset length = some head) :
    isTruncationMarker head = true := by
  rw [isTruncationMarker, List.all_eq_true]
  intro byte member
  obtain ⟨index, inside, rfl⟩ := List.getElem_of_mem member
  have lengthEq := length_of_readExact read
  have fits := (readExact_eq_some_iff.mp read).1
  have byteEq := ((readExact_eq_some_iff_getElem? fits).mp read).2 index (by omega)
  rw [List.getElem?_eq_getElem inside] at byteEq
  simpa using zero (offset + index) _ (Nat.le_add_right _ _) byteEq.symm

theorem ZeroFrom.recordAt_eq_none {file : List UInt8} {size offset : Nat}
    (zero : ZeroFrom file offset) :
    recordAt crc file size offset = none := by
  by_contra present
  obtain ⟨⟨frame, next⟩, here⟩ := Option.ne_none_iff_exists'.mp present
  obtain ⟨head, readHead, notEnd, _⟩ := recordAt_eq_some_iff.mp here
  rw [zero.truncation readHead] at notEnd
  cases notEnd

theorem ZeroFrom.quietAt {file : List UInt8} {flushed offset : Nat}
    (zero : ZeroFrom file offset) (inFile : flushed ≤ file.length) :
    QuietAt file flushed offset := by
  rcases Nat.lt_or_ge flushed (offset + recordHeadSize) with short | fits
  · exact .inl short
  · obtain ⟨head, read⟩ :=
      Option.isSome_iff_exists.mp (readExact_isSome_iff.mpr (Nat.le_trans fits inFile))
    exact .inr ⟨head, read, .inl (zero.truncation read)⟩

theorem ZeroFrom.unmarked {file : List UInt8} {size offset : Nat}
    (zero : ZeroFrom file offset) :
    Unmarked (recordAt crc file size) IsMarker offset :=
  unmarked_of_decode_none zero.recordAt_eq_none

theorem zeroFrom_writeAt {file bytes : List UInt8} {start offset : Nat}
    (zero : ZeroFrom file offset) (inside : start ≤ file.length)
    (before : start + bytes.length ≤ offset) :
    ZeroFrom (writeAt file start bytes) offset := by
  intro index byte above found
  rw [getElem?_writeAt inside, if_neg (by omega), if_neg (by omega)] at found
  exact zero index byte above found

theorem zeroFrom_replicate (size offset : Nat) :
    ZeroFrom (List.replicate size 0) offset := by
  intro index byte _ found
  rw [List.getElem?_replicate] at found
  split at found
  · exact (Option.some.inj found).symm
  · cases found

end Seglog

end Tephra
