import Tephra.RecordFraming

/-!
# Recovery of a segment

`recover` walks the records of a segment from the start offset on and keeps the
end of the last commit marker it passed.  The loop below is the loop of the
writer; its result is the marked prefix of the chain of well-formed records,
whatever the bytes are.
-/

namespace Tephra

namespace Seglog

open ByteImage FrameChain

/-- What recovery finds: the committed end and the last committed position. -/
structure Recovered where
  committedOffset : Nat
  lastPosition : Option Nat
deriving DecidableEq, Repr

variable (crc : List UInt8 → UInt32)

/-- The recovery loop, with `fuel` bounding the number of records. -/
def recoverLoop (file : List UInt8) (size : Nat) :
    (fuel cursor : Nat) → Recovered → Recovered
  | 0, _, recovered => recovered
  | fuel + 1, cursor, recovered =>
      let payloadOffset := cursor + recordHeadSize
      if payloadOffset > size then
        recovered
      else
        match readExact file cursor recordHeadSize with
        | none => recovered
        | some head =>
            if isTruncationMarker head then
              recovered
            else
              let raw := headRaw head
              if hasUnknownFlags raw then
                recovered
              else
                let isControl := isControlField raw
                let payloadLen := payloadLenField raw
                let recordEnd := payloadOffset + payloadLen
                if recordEnd > size then
                  recovered
                else
                  match readExact file payloadOffset payloadLen with
                  | none => recovered
                  | some payload =>
                      if (calculateCrc32c crc (LittleEndian.encode lenSize raw) []
                          payload).toNat ≠ headCrc head then
                        recovered
                      else if isControl && payloadLen == commitMarkerPayload &&
                          payload.head? == some batchCommit then
                        recoverLoop file size fuel recordEnd
                          ⟨recordEnd, some (LittleEndian.decode (payload.drop 1))⟩
                      else
                        recoverLoop file size fuel recordEnd recovered

/-- The committed end of a segment of `size` bytes whose records begin at
`startOffset`.  A record takes at least eight bytes, so `size` steps reach the
end of the segment. -/
def recover (file : List UInt8) (size startOffset : Nat) : Recovered :=
  recoverLoop crc file size (size + 1) startOffset ⟨startOffset, none⟩

/-- The position of the last marker of a list of records. -/
def lastMarkerPosition (entries : List (Nat × Frame)) : Option Nat :=
  entries.getLast?.map fun entry => entry.2.markerPosition

/-- The data records among the records of a segment, with their offsets. -/
def dataRecords (entries : List (Nat × Frame)) : List (Nat × List UInt8) :=
  entries.filterMap fun entry =>
    if entry.2.isControl then none else some (entry.1, entry.2.payload)

section Correctness

variable {crc}

theorem recoverLoop_succ (file : List UInt8) (size fuel cursor : Nat)
    (recovered : Recovered) :
    recoverLoop crc file size (fuel + 1) cursor recovered =
      match recordAt crc file size cursor with
      | none => recovered
      | some (frame, next) =>
          recoverLoop crc file size fuel next
            (if frame.isCommitMarker then ⟨next, some frame.markerPosition⟩
              else recovered) := by
  rw [recoverLoop]
  cases readHead : readExact file cursor recordHeadSize with
  | none =>
      have absent : recordAt crc file size cursor = none := by
        simp [recordAt, readHead]
      simp [absent]
  | some head =>
      by_cases accepted : isTruncationMarker head = false ∧
          hasUnknownFlags (headRaw head) = false ∧
          cursor + recordHeadSize + payloadLenField (headRaw head) ≤ size
      · obtain ⟨notEnd, known, fits⟩ := accepted
        have headFits : ¬ size < cursor + recordHeadSize := by omega
        have recordFits :
            ¬ size < cursor + recordHeadSize + payloadLenField (headRaw head) := by
          omega
        cases readPayload : readExact file (cursor + recordHeadSize)
            (payloadLenField (headRaw head)) with
        | none =>
            have absent : recordAt crc file size cursor = none := by
              simp [recordAt, readHead, readPayload]
            simp [absent, readPayload, headFits, notEnd, known, recordFits]
        | some payload =>
            have payloadLength := length_of_readExact readPayload
            by_cases valid : (calculateCrc32c crc
                (LittleEndian.encode lenSize (headRaw head)) [] payload).toNat =
                  headCrc head
            · have present : recordAt crc file size cursor =
                  some (⟨isControlField (headRaw head), payload⟩,
                    cursor + recordHeadSize + payloadLenField (headRaw head)) :=
                recordAt_eq_some_iff.mpr
                  ⟨head, readHead, notEnd, known, rfl, readPayload, valid, rfl, fits⟩
              simp only [present, gt_iff_lt, headFits, notEnd, known, recordFits,
                readPayload, valid, ne_eq, not_true_eq_false, if_false,
                Bool.false_eq_true, Frame.isCommitMarker, Frame.markerPosition,
                payloadLength]
              split <;> rfl
            · have absent : recordAt crc file size cursor = none := by
                simp [recordAt, readHead, readPayload, valid]
              simp [absent, readPayload, headFits, notEnd, known, recordFits, valid]
      · have absent : recordAt crc file size cursor = none := by
          by_contra present
          obtain ⟨⟨frame, next⟩, here⟩ := Option.ne_none_iff_exists'.mp present
          obtain ⟨head', readHead', notEnd, known, _, _, _, rfl, fits⟩ :=
            recordAt_eq_some_iff.mp here
          obtain rfl : head = head' := by simpa using readHead.symm.trans readHead'
          exact accepted ⟨notEnd, known, fits⟩
        rw [absent]
        dsimp only
        split
        · rfl
        · split
          · rfl
          · next notEnd =>
              split
              · rfl
              · next known =>
                  rw [if_pos]
                  by_contra fits
                  exact accepted ⟨by simpa using notEnd, by simpa using known, by omega⟩

/-- What the loop has found after the records `kept` and then `pending`. -/
structure LoopInvariant (crc : List UInt8 → UInt32) (file : List UInt8)
    (size startOffset cursor : Nat) (recovered : Recovered)
    (kept pending : List (Nat × Frame)) : Prop where
  keptChain : Chain (recordAt crc file size) startOffset kept recovered.committedOffset
  keptEnds : kept = [] ∨ EndsMarked IsMarker kept
  position : recovered.lastPosition = lastMarkerPosition kept
  pendingChain : Chain (recordAt crc file size) recovered.committedOffset pending cursor
  pendingPlain : ∀ entry ∈ pending, ¬ IsMarker entry.2

theorem LoopInvariant.step {file : List UInt8} {size startOffset cursor next : Nat}
    {recovered : Recovered} {kept pending : List (Nat × Frame)} {frame : Frame}
    (invariant : LoopInvariant crc file size startOffset cursor recovered kept pending)
    (here : recordAt crc file size cursor = some (frame, next)) :
    ∃ kept' pending',
      LoopInvariant crc file size startOffset next
        (if frame.isCommitMarker then ⟨next, some frame.markerPosition⟩ else recovered)
        kept' pending' := by
  have longer := invariant.pendingChain.append (Chain.single here)
  split
  · next marker =>
      refine ⟨kept ++ (pending ++ [(cursor, frame)]), [], ?_⟩
      refine ⟨invariant.keptChain.append longer, .inr ?_, ?_, .nil _, by simp⟩
      · exact ⟨kept ++ pending, (cursor, frame), by simp, marker⟩
      · simp [lastMarkerPosition, ← List.append_assoc]
  · next plain =>
      refine ⟨kept, pending ++ [(cursor, frame)], ?_⟩
      refine ⟨invariant.keptChain, invariant.keptEnds, invariant.position, longer, ?_⟩
      intro entry member
      rcases List.mem_append.mp member with old | new
      · exact invariant.pendingPlain entry old
      · obtain rfl : entry = (cursor, frame) := by simpa using new
        exact plain

/-- With fuel for every remaining record the loop ends at the marked prefix. -/
theorem recoverLoop_spec {file : List UInt8} {size startOffset : Nat} :
    ∀ (fuel cursor : Nat) (recovered : Recovered) (kept pending : List (Nat × Frame)),
      LoopInvariant crc file size startOffset cursor recovered kept pending →
      size < cursor + fuel →
      ∃ entries,
        MarkedPrefix (recordAt crc file size) IsMarker startOffset entries
          (recoverLoop crc file size fuel cursor recovered).committedOffset ∧
        (recoverLoop crc file size fuel cursor recovered).lastPosition =
          lastMarkerPosition entries := by
  intro fuel
  induction fuel with
  | zero =>
      intro cursor recovered kept pending invariant enough
      have stuck : recordAt crc file size cursor = none := by
        by_contra present
        obtain ⟨⟨frame, next⟩, here⟩ := Option.ne_none_iff_exists'.mp present
        have bounds := recordAt_advances file size _ _ _ here
        omega
      exact ⟨kept, ⟨invariant.keptChain, invariant.keptEnds,
        unmarked_of_stuck invariant.pendingChain stuck invariant.pendingPlain⟩,
        invariant.position⟩
  | succ fuel ih =>
      intro cursor recovered kept pending invariant enough
      rw [recoverLoop_succ]
      cases here : recordAt crc file size cursor with
      | none =>
          exact ⟨kept, ⟨invariant.keptChain, invariant.keptEnds,
            unmarked_of_stuck invariant.pendingChain here invariant.pendingPlain⟩,
            invariant.position⟩
      | some found =>
          obtain ⟨frame, next⟩ := found
          have advanced := recordAt_advances file size _ _ _ here
          obtain ⟨kept', pending', invariant'⟩ := invariant.step here
          exact ih next _ kept' pending' invariant' (by omega)

variable (crc) in
theorem recover_spec (file : List UInt8) (size startOffset : Nat) :
    ∃ entries,
      MarkedPrefix (recordAt crc file size) IsMarker startOffset entries
        (recover crc file size startOffset).committedOffset ∧
      (recover crc file size startOffset).lastPosition = lastMarkerPosition entries := by
  refine recoverLoop_spec (size + 1) startOffset ⟨startOffset, none⟩ [] [] ?_ (by omega)
  exact ⟨.nil _, .inl rfl, rfl, .nil _, by simp⟩

theorem recover_eq {file : List UInt8} {size startOffset stop : Nat}
    {entries : List (Nat × Frame)}
    (longest : MarkedPrefix (recordAt crc file size) IsMarker startOffset entries stop) :
    recover crc file size startOffset = ⟨stop, lastMarkerPosition entries⟩ := by
  obtain ⟨entries', longest', position⟩ := recover_spec crc file size startOffset
  obtain ⟨rfl, stopEq⟩ := longest'.unique longest
  cases recovered : recover crc file size startOffset with
  | mk committedOffset lastPosition =>
      rw [recovered] at stopEq position
      simp only at stopEq position
      rw [stopEq, position]

end Correctness

end Seglog

end Tephra
