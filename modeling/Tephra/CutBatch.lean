import Tephra.BatchChain
import Tephra.BatchRollback

/-!
# A batch cut short before zeros

Where a segment holds zeros behind its committed end, a batch that was written
only in part, without the payload of its marker, completes no committed run:
its whole records are data records, and what a cut record is read as ends in
the zeros.  The checksum plays no part in this.
-/

namespace Tephra

namespace Seglog

open ByteImage FrameChain Writer

variable {crc : List UInt8 → UInt32}

/-- Only a plain record that reaches into the zeros can stand before them. -/
private theorem unmarked_before_zeros {file : List UInt8} {size offset limit : Nat}
    (zero : ZeroFrom file limit)
    (reaches : ∀ frame next, recordAt crc file size offset = some (frame, next) →
      ¬ IsMarker frame ∧ limit ≤ next) :
    Unmarked (recordAt crc file size) IsMarker offset := by
  cases here : recordAt crc file size offset with
  | none => exact unmarked_of_decode_none here
  | some found =>
      obtain ⟨frame, next⟩ := found
      obtain ⟨plain, reached⟩ := reaches frame next here
      exact unmarked_of_next here plain (zero.mono reached).unmarked

theorem unmarked_of_cut_head {file : List UInt8} {size offset limit : Nat}
    (zero : ZeroFrom file limit) (short : limit ≤ offset + recordHeadSize) :
    Unmarked (recordAt crc file size) IsMarker offset := by
  refine unmarked_before_zeros zero fun frame next here => ?_
  obtain ⟨head, _, _, _, _, read, _, rfl, _⟩ := recordAt_eq_some_iff.mp here
  refine ⟨fun marker => ?_, by omega⟩
  obtain ⟨isControl, payload⟩ := frame
  cases payload with
  | nil => simp [IsMarker, Frame.isCommitMarker] at marker
  | cons first payload =>
      have positive := length_of_readExact read
      have fits := (readExact_eq_some_iff.mp read).1
      have firstEq := ((readExact_eq_some_iff_getElem? fits).mp read).2 0 (by simp at positive; omega)
      have firstZero := zero (offset + recordHeadSize) first short (by simpa using firstEq.symm)
      simp [IsMarker, Frame.isCommitMarker, firstZero, batchCommit] at marker

theorem unmarked_of_cut_record {file record : List UInt8} {size offset limit : Nat}
    (zero : ZeroFrom file limit) (short : record.length ≤ maxRecordLen)
    (head : readExact file offset recordHeadSize =
      some ((recordBytes crc [] record).take recordHeadSize))
    (cut : limit ≤ offset + (recordBytes crc [] record).length) :
    Unmarked (recordAt crc file size) IsMarker offset := by
  have rawFits : record.length < 256 ^ lenSize := by
    simp only [maxRecordLen, lengthMask] at short
    simp only [lenSize]
    omega
  have rawEq : headRaw ((recordBytes crc [] record).take recordHeadSize) = record.length := by
    have taken : ((recordBytes crc [] record).take recordHeadSize).take lenSize =
        LittleEndian.encode lenSize record.length := by
      rw [List.take_take]
      simp [recordBytes, recordHeadSize]
    rw [headRaw, taken, LittleEndian.decode_encode rawFits]
  refine unmarked_before_zeros zero fun frame next here => ?_
  obtain ⟨head', readHead, _, _, control, _, _, rfl, _⟩ := recordAt_eq_some_iff.mp here
  obtain rfl : (recordBytes crc [] record).take recordHeadSize = head' := by
    simpa using head.symm.trans readHead
  rw [rawEq] at control ⊢
  rw [payloadLenField_of_le short]
  rw [isControlField_of_le short] at control
  refine ⟨fun marker => ?_, ?_⟩
  · simp [IsMarker, Frame.isCommitMarker, control] at marker
  · simpa [Nat.add_assoc] using cut

theorem unmarked_of_part {file : List UInt8} {size position : Nat}
    {records : List (List UInt8)} :
    ∀ {start count : Nat}, Framable records → count ≤ unmarkedSize records →
      start + count ≤ size →
      readExact file start count = some ((batchBytes crc records position).take count) →
      ZeroFrom file (start + count) →
      Unmarked (recordAt crc file size) IsMarker start := by
  induction records with
  | nil =>
      intro start count _ countLe _ _ zero
      exact unmarked_of_cut_head zero (by simp [unmarkedSize] at countLe; omega)
  | cons record records ih =>
      intro start count framable countLe fits read zero
      have bounds := framable record (by simp)
      have batchEq : batchBytes crc (record :: records) position =
          recordBytes crc [] record ++ batchBytes crc records position := by
        rw [batchBytes_eq, batchBytes_eq, recordsBytes_cons, List.append_assoc]
      have lengthEq : (recordBytes crc [] record).length = recordHeadSize + record.length := by
        simp
      rw [batchEq] at read
      rcases Nat.lt_or_ge count (recordBytes crc [] record).length with cut | whole
      · rw [List.take_append_of_le_length (by omega)] at read
        rcases Nat.le_total count recordHeadSize with short | headWritten
        · exact unmarked_of_cut_head zero (by omega)
        · refine unmarked_of_cut_record zero bounds.2 ?_ (by omega)
          have split := List.take_append_drop recordHeadSize
            ((recordBytes crc [] record).take count)
          rw [List.take_take, Nat.min_eq_left headWritten] at split
          rw [← split] at read
          have readHead := readExact_left read
          rwa [List.length_take, Nat.min_eq_left (by omega)] at readHead
      · obtain ⟨rest, rfl⟩ := Nat.exists_eq_add_of_le whole
        rw [List.take_length_add_append] at read
        have readRecord := readExact_left read
        have readRest := readExact_right read
        rw [List.length_take, Nat.min_eq_left] at readRest
        swap
        · have total := length_batchBytes crc records position
          rw [batchSize] at total
          simp only [unmarkedSize, List.map_cons, List.sum_cons] at countLe
          omega
        have here : recordAt crc file size start = _ := recordAt_recordBytes
          (by simpa using bounds.1) (by simpa using bounds.2) (by omega) readRecord
        refine unmarked_of_next here (not_isMarker_data _) ?_
        refine ih (fun other member => framable other (by simp [member])) ?_ (by omega) readRest
          (by rwa [Nat.add_assoc])
        simp only [unmarkedSize, List.map_cons, List.sum_cons] at countLe ⊢
        omega

end Seglog

end Tephra
