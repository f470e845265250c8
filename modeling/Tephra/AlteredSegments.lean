import Tephra.Crc32
import Tephra.OpenedLogs

/-!
# Scanning altered segments

The bytes of the segment files change after the log was opened.  A scan checks the payload of a
record before it yields it, but it steps by heads that it does not check: a head that reads as
the end of the records, or as a control record of some length, takes it to another place, and
the next record it finds gets the wrong position.  Where the heads on its way lead where they
led before, or are refused, it yields the original records or stops with an error.
-/

namespace Tephra

namespace Seglog

open ByteImage FrameChain

variable {crc : List UInt8 → UInt32}

namespace Reader

/-- What a peek finds at an offset of a file. -/
def peekAt (file : List UInt8) (extent offset : Nat) : Except ReadFault RecordKind :=
  ((openSegment file (some extent)).peek offset).1

theorem fits_of_covers {buffer : ReadAheadBuf} {file : List UInt8} {offset length : Nat}
    (caches : buffer.Caches file) (positive : 0 < length)
    (covered : buffer.covers offset length = true) : offset + length ≤ file.length := by
  obtain ⟨⟨inside, cached, bytesEq⟩, -⟩ := caches
  have validLength := congrArg List.length bytesEq
  simp only [ReadAheadBuf.covers, Bool.and_eq_true, decide_eq_true_eq] at covered
  rw [List.length_take, List.length_take, List.length_drop] at validLength
  omega

/-- Bytes through the buffer are those of the file, if it has them. -/
theorem Reads.readAhead_cases {self : Reader} {file : List UInt8} {flushed : Nat}
    (reads : self.Reads file flushed) (offset : Nat) {length : Nat} (positive : 0 < length) :
    ∃ after, after.Reads file flushed ∧
      self.readAhead offset length =
        (match readExact file offset length with
          | some bytes => .ok bytes
          | none => .error (.error .unexpectedEof), after) := by
  by_cases fits : offset + length ≤ file.length
  · obtain ⟨bytes, after, read, result, reads'⟩ := readAhead_spec reads fits
    exact ⟨after, reads', by rw [result, read]⟩
  · have missing : readExact file offset length = none := if_neg fits
    obtain ⟨filled, result, caches, -⟩ :=
      ReadAheadBuf.fill_caches reads.caches.spared file offset length
    have uncovered : ∀ buffer : ReadAheadBuf, buffer.Caches file →
        ¬ buffer.covers offset length = true :=
      fun buffer cached covered => fits (fits_of_covers cached positive covered)
    refine ⟨{ self with readAheadBuf := filled },
      ⟨reads.file_eq, reads.flushed_eq, caches⟩, ?_⟩
    rw [missing, readAhead, ReadAheadBuf.read, if_neg (uncovered _ reads.caches), reads.file_eq,
      result]
    dsimp only
    rw [if_neg (uncovered _ caches)]

/-- Whatever is buffered, a peek finds what is in the file. -/
theorem Reads.peek_eq {self : Reader} {file : List UInt8} {flushed : Nat}
    (reads : self.Reads file flushed) (offset : Nat) :
    ∃ after, after.Reads file flushed ∧ self.peek offset = (peekAt file flushed offset, after) := by
  have fresh : (openSegment file (some flushed)).Reads file flushed :=
    reads_openSegment file (some flushed)
  have positive : 0 < recordHeadSize := by simp [recordHeadSize, lenSize]
  obtain ⟨after, afterReads, read⟩ := reads.readAhead_cases offset positive
  obtain ⟨after', afterReads', read'⟩ := fresh.readAhead_cases offset positive
  unfold peekAt peek
  rw [reads.flushed_eq, fresh.flushed_eq]
  by_cases beyond : offset + recordHeadSize > flushed
  · rw [if_pos beyond, if_pos beyond]
    exact ⟨self, reads, rfl⟩
  rw [if_neg beyond, if_neg beyond, read, read']
  refine ⟨after, afterReads, ?_⟩
  cases readExact file offset recordHeadSize with
  | none => rfl
  | some head =>
      simp only [afterReads.flushed_eq, afterReads'.flushed_eq]
      split_ifs <;> rfl

theorem Reads.readRecord_refused {self : Reader} {file : List UInt8} {flushed offset : Nat}
    (reads : self.Reads file flushed) (refused : recordAt crc file flushed offset = none) :
    ∃ fault after, self.readRecord crc 0 offset = (.error fault, after) := by
  unfold readRecord readRecordSequential
  rw [reads.flushed_eq]
  by_cases beyond : offset + recordHeadSize > flushed
  · rw [if_pos beyond]
    exact ⟨_, _, rfl⟩
  rw [if_neg beyond]
  obtain ⟨first, firstReads, firstRead⟩ :=
    reads.readAhead_cases offset (by simp [recordHeadSize, lenSize] : 0 < recordHeadSize)
  rw [firstRead]
  cases readHead : readExact file offset recordHeadSize with
  | none => exact ⟨_, _, rfl⟩
  | some head =>
      simp only [firstReads.flushed_eq]
      by_cases zero : isTruncationMarker head = true
      · rw [if_pos zero]
        exact ⟨_, _, rfl⟩
      rw [if_neg zero]
      by_cases unknown : hasUnknownFlags (headRaw head) = true
      · rw [if_pos unknown]
        exact ⟨_, _, rfl⟩
      rw [if_neg unknown]
      by_cases long : offset + recordHeadSize + payloadLenField (headRaw head) > flushed
      · rw [if_pos long]
        exact ⟨_, _, rfl⟩
      rw [if_neg long]
      have headInside := (readExact_eq_some_iff.mp readHead).1
      by_cases inside : offset + recordHeadSize + payloadLenField (headRaw head) ≤ file.length
      swap
      · obtain ⟨second, _, secondRead⟩ := firstReads.readAhead_cases (offset + recordHeadSize)
          (by omega : 0 < payloadLenField (headRaw head))
        rw [secondRead, show readExact file _ _ = none from if_neg inside]
        exact ⟨_, _, rfl⟩
      obtain ⟨payload, second, readPayload, secondRead, _⟩ := readAhead_spec firstReads inside
      have damaged := checksum_of_refused refused readHead (by simpa using zero)
        (by simpa using unknown) readPayload (Nat.not_lt.mp long)
      rw [secondRead]
      simp only [ite_self, Nat.not_lt_zero, if_false, List.take_zero, List.drop_zero,
        if_pos damaged]
      exact ⟨_, _, rfl⟩

end Reader

end Seglog

namespace Log

open ByteImage FrameChain Positions Seglog SegmentSource

/-- From an offset on the heads of an altered file lead a scan over the records that stand in
the original, until it has found enough of them or is refused. -/
inductive Walk (crc : List UInt8 → UInt32) (file original : List UInt8) (extent : Nat)
    (onward : Nat → Prop) : Nat → Nat → Prop
  | enough (offset : Nat) : Walk crc file original extent onward offset 0
  | refused {offset wanted : Nat} {fault : ReadFault}
      (peeked : Reader.peekAt file extent offset = .error fault) :
      Walk crc file original extent onward offset wanted
  -- An altered record fails its checksum; the scan goes on behind a record that is intact.
  | data {offset wanted len : Nat} (peeked : Reader.peekAt file extent offset = .ok (.data len))
      (later : ∀ frame next, recordAt crc file extent offset = some (frame, next) →
        Walk crc file original extent onward next wanted) :
      Walk crc file original extent onward offset (wanted + 1)
  -- A control record has to be one, and of this length.
  | control {offset wanted next : Nat} {frame : Frame}
      (peeked : Reader.peekAt file extent offset = .ok (.control frame.totalLen))
      (same : recordAt crc original extent offset = some (frame, next))
      (isControl : frame.isControl = true)
      (later : Walk crc file original extent onward next wanted) :
      Walk crc file original extent onward offset wanted
  -- The records may end only where no data record is left.
  | leave {offset wanted : Nat} (peeked : Reader.peekAt file extent offset = .ok .done)
      (ended : ∀ entries stop, Chain (recordAt crc original extent) offset entries stop →
        dataRecords entries = [])
      (later : onward wanted) :
      Walk crc file original extent onward offset wanted

/-- The same through segments, each from its first record on. -/
def WalkAll (crc : List UInt8 → UInt32) (damaged original : Directory) (headerSize : Nat) :
    List Segment → Nat → Prop
  | [], wanted => wanted = 0
  | segment :: later, wanted =>
      Walk crc (damaged.read segment.basePosition) (original.read segment.basePosition)
        (segment.extent original) (WalkAll crc damaged original headerSize later) headerSize wanted

/-- The bytes of segment files are altered, and every altered record is detected: what still
passes its checksum at an offset stood there before. -/
structure Altered (crc : List UInt8 → UInt32) (damaged original : Directory)
    (segs : List Segment) : Prop where
  lengths : ∀ segment ∈ segs, (damaged.read segment.basePosition).length =
    (original.read segment.basePosition).length
  detected : ∀ segment ∈ segs, ∀ offset found,
    recordAt crc (damaged.read segment.basePosition) (segment.extent original) offset =
        some found →
      recordAt crc (original.read segment.basePosition) (segment.extent original) offset =
        some found

/-- All of the records, or the first of them and an error. -/
def OriginalsOrError (wanted : List (Nat × List UInt8))
    (items : List (Except LogError (Nat × List UInt8))) : Prop :=
  items = wanted.map .ok ∨
    ∃ count < wanted.length, ∃ error, items = (wanted.take count).map .ok ++ [.error error]

variable {crc : List UInt8 → UInt32} {σ : Type} [SegmentSource σ Segment]

theorem Altered.extent_eq {damaged original : Directory} {segs : List Segment}
    (altered : Altered crc damaged original segs) {segment : Segment} (member : segment ∈ segs) :
    segment.extent damaged = segment.extent original := by
  rw [Segment.extent, Segment.extent, altered.lengths segment member]

theorem OriginalsOrError.cons {first : Nat × List UInt8} {wanted : List (Nat × List UInt8)}
    {items : List (Except LogError (Nat × List UInt8))} (later : OriginalsOrError wanted items) :
    OriginalsOrError (first :: wanted) (.ok first :: items) := by
  rcases later with rfl | ⟨count, inside, error, rfl⟩
  · exact .inl rfl
  · refine .inr ⟨count + 1, ?_, error, rfl⟩
    rw [List.length_cons]
    omega

namespace Scan

/-- A scan of altered files that still has records to yield, and heads that lead to them. -/
def Follows (crc : List UInt8 → UInt32) (original : Directory) (scan : Scan σ) (wanted : Nat)
    (records : List (List UInt8)) : Prop :=
  Altered crc scan.dir original (segments scan.source) ∧
    ∃ here later, records = here ++ later.flatten ∧
      List.Forall₂ (Recorded crc original scan.headerSize)
        ((segments scan.source).drop (scan.segIdx + 1)) later ∧
      match scan.reader with
      | none => here = [] ∧ WalkAll crc scan.dir original scan.headerSize
          ((segments scan.source).drop (scan.segIdx + 1)) wanted
      | some reader => ∃ file other extent entries stop, reader.Reads file extent ∧
          (∀ offset found, recordAt crc file extent offset = some found →
            recordAt crc other extent offset = some found) ∧
          Chain (recordAt crc other extent) scan.offset entries stop ∧
          recordAt crc other extent stop = none ∧ (dataRecords entries).map Prod.snd = here ∧
          Walk crc file other extent
            (WalkAll crc scan.dir original scan.headerSize
              ((segments scan.source).drop (scan.segIdx + 1))) scan.offset wanted

/-- Moving to the next data record ends at an error, at a record that is refused, or at the
first of the records. -/
def Leads (crc : List UInt8 → UInt32) (original : Directory) (scan : Scan σ) (wanted : Nat)
    (records : List (List UInt8)) : Prop :=
  (∃ error after, scan.positionAtData = (.error error, after) ∧ SameBounds scan after) ∨
    ∃ totalLen after reader file extent,
      scan.positionAtData = (.ok (some totalLen), after) ∧ SameBounds scan after ∧
      after.reader = some reader ∧ reader.Reads file extent ∧
      (recordAt crc file extent after.offset = none ∨
        ∃ frame next later, recordAt crc file extent after.offset = some (frame, next) ∧
          frame.isControl = false ∧ frame.totalLen = totalLen ∧
          records = frame.payload :: later ∧
          ∀ reader', reader'.Reads file extent → ∀ position,
            Follows crc original
              { after with offset := next, position := position, reader := some reader' }
              wanted later)

theorem Leads.of_eq {original : Directory} {scan moved : Scan σ} {wanted : Nat}
    {records : List (List UInt8)} (leads : Leads crc original moved wanted records)
    (moves : scan.positionAtData = moved.positionAtData) (same : SameBounds scan moved) :
    Leads crc original scan wanted records := by
  obtain ⟨position', upto', pending', done'⟩ := same
  rcases leads with ⟨error, after, failed, position, upto, pending, done⟩ |
    ⟨totalLen, after, reader, file, extent, found, ⟨position, upto, pending, done⟩, rest⟩
  · exact .inl ⟨error, after, moves.trans failed, position.trans position', upto.trans upto',
      pending.trans pending', done.trans done'⟩
  · exact .inr ⟨totalLen, after, reader, file, extent, moves.trans found,
      ⟨position.trans position', upto.trans upto', pending.trans pending', done.trans done'⟩,
      rest⟩

/-- What a peek can find where the heads lead to the records. -/
theorem Follows.peek_cases {original : Directory} {scan : Scan σ} {wanted : Nat}
    {records : List (List UInt8)} {reader after : Reader} {kind : Except ReadFault RecordKind}
    (follows : Follows crc original scan (wanted + 1) records)
    (opened : scan.reader = some reader) (peeked : reader.peek scan.offset = (kind, after)) :
    (∃ fault, kind = .error fault) ∨
      (kind = .ok .done ∧ Follows crc original { scan with reader := none } (wanted + 1) records) ∨
      (∃ totalLen, kind = .ok (.control totalLen) ∧
        Follows crc original
          { scan with reader := some after, offset := scan.offset + totalLen } (wanted + 1)
          records) ∨
      ∃ totalLen file extent, kind = .ok (.data totalLen) ∧ after.Reads file extent ∧
        (recordAt crc file extent scan.offset = none ∨
          ∃ frame next later, recordAt crc file extent scan.offset = some (frame, next) ∧
            frame.isControl = false ∧ frame.totalLen = totalLen ∧
            records = frame.payload :: later ∧
            ∀ reader', reader'.Reads file extent → ∀ position,
              Follows crc original
                { scan with offset := next, position := position, reader := some reader' }
                wanted later) := by
  obtain ⟨altered, here, later, rfl, recorded, current⟩ := follows
  rw [opened] at current
  obtain ⟨file, other, extent, entries, stop, reads, detected, chain, stuck, rfl, walk⟩ := current
  obtain ⟨middle, reads', peekedEq⟩ := reads.peek_eq scan.offset
  obtain ⟨rfl, rfl⟩ := Prod.mk.inj (peeked.symm.trans peekedEq)
  cases walk with
  | @refused _ _ fault found => exact .inl ⟨fault, found⟩
  | leave found ended onward =>
      refine .inr (.inl ⟨found, altered, [], later, ?_, recorded, rfl, onward⟩)
      rw [ended entries stop chain]
      rfl
  | @control _ _ next frame found same isControl onward =>
      obtain ⟨rest, rfl, behind⟩ := chain.eq_cons_of_stuck stuck same
      obtain rfl := next_of_recordAt same
      refine .inr (.inr (.inl ⟨frame.totalLen, found, altered, _, later, rfl, recorded, file, other,
        extent, rest, stop, reads', detected, behind, stuck, ?_, onward⟩))
      rw [dataRecords_cons_control isControl]
  | @data _ _ len found onward =>
      refine .inr (.inr (.inr ⟨len, file, extent, found, reads', ?_⟩))
      cases here : recordAt crc file extent scan.offset with
      | none => exact .inl rfl
      | some record =>
          obtain ⟨frame, next⟩ := record
          obtain ⟨_, kindEq, _⟩ := Reader.peek_record reads here
          have isData := (Prod.mk.inj (peekedEq.symm.trans kindEq)).1.symm.trans found
          obtain ⟨data, sameLen⟩ : frame.isControl = false ∧ frame.totalLen = len := by
            cases control : frame.isControl with
            | true => simp [control] at isData
            | false => exact ⟨rfl, by simpa [control] using isData⟩
          obtain ⟨rest, rfl, behind⟩ := chain.eq_cons_of_stuck stuck (detected _ _ here)
          refine .inr ⟨frame, next, (dataRecords rest).map Prod.snd ++ later.flatten, rfl, data,
            sameLen, ?_, ?_⟩
          · rw [dataRecords_cons_data data]
            rfl
          · intro reader' reads'' position
            exact ⟨altered, _, later, rfl, recorded, file, other, extent, rest, stop, reads'',
              detected, behind, stuck, rfl, onward frame next here⟩

theorem follows_segment {original : Directory} {scan : Scan σ} {wanted : Nat}
    {segment : Segment} {records : List (List UInt8)} {later : List (List (List UInt8))}
    (altered : Altered crc scan.dir original (segments scan.source))
    (member : segment ∈ segments scan.source) {offset stop : Nat} {entries : List (Nat × Frame)}
    (chain : Chain (recordAt crc (original.read segment.basePosition) (segment.extent original))
      offset entries stop)
    (quiet : QuietAt (original.read segment.basePosition) (segment.extent original) stop)
    (recordsEq : (dataRecords entries).map Prod.snd = records)
    (opened : scan.reader = some (segment.openReader scan.dir)) (offsetEq : scan.offset = offset)
    (recorded : List.Forall₂ (Recorded crc original scan.headerSize)
      ((segments scan.source).drop (scan.segIdx + 1)) later)
    (walk : Walk crc (scan.dir.read segment.basePosition) (original.read segment.basePosition)
      (segment.extent original) (WalkAll crc scan.dir original scan.headerSize
        ((segments scan.source).drop (scan.segIdx + 1))) offset wanted) :
    Follows crc original scan wanted (records ++ later.flatten) := by
  subst offsetEq
  refine ⟨altered, records, later, rfl, recorded, ?_⟩
  rw [opened]
  have reads : (segment.openReader scan.dir).Reads (scan.dir.read segment.basePosition)
      (segment.extent scan.dir) := Reader.reads_openSegment _ _
  rw [altered.extent_eq member] at reads
  exact ⟨_, _, _, entries, stop, reads, altered.detected segment member, chain,
    quiet.recordAt_eq_none, recordsEq, walk⟩

theorem Follows.advance {original : Directory} {scan after : Scan σ} {wanted : Nat}
    {records : List (List UInt8)} (follows : Follows crc original scan wanted records)
    (opened : scan.reader = none) (advanced : scan.advanceSegment = some after) :
    Follows crc original after wanted records := by
  obtain ⟨segment, found, rfl⟩ := Option.map_eq_some_iff.mp advanced
  obtain ⟨altered, here, later, rfl, recorded, current⟩ := follows
  rw [opened] at current
  obtain ⟨rfl, walk⟩ := current
  rw [segmentAt_eq] at found
  obtain ⟨inside, rfl⟩ := List.getElem?_eq_some_iff.mp found
  rw [List.drop_eq_getElem_cons inside] at recorded walk
  cases recorded with
  | @cons _ list _ later first rest =>
      obtain ⟨entries, stop, chain, quiet, _, recordsEq⟩ := first.chain
      rw [List.nil_append, List.flatten_cons]
      exact follows_segment altered (List.getElem_mem inside) chain quiet recordsEq rfl rfl rest walk

theorem Follows.not_last {original : Directory} {scan : Scan σ} {wanted : Nat}
    {records : List (List UInt8)} (follows : Follows crc original scan (wanted + 1) records)
    (opened : scan.reader = none) : scan.advanceSegment ≠ none := by
  intro advanced
  obtain ⟨altered, here, later, rfl, recorded, current⟩ := follows
  rw [opened] at current
  have missing := Option.map_eq_none_iff.mp advanced
  rw [segmentAt_eq, List.getElem?_eq_none_iff] at missing
  rw [List.drop_of_length_le missing] at current
  exact absurd current.2 (Nat.succ_ne_zero wanted)

/-- The heads lead to the first of the records, or to an error. -/
theorem Follows.leads {original : Directory} {scan : Scan σ} {wanted : Nat}
    {records : List (List UInt8)} (follows : Follows crc original scan (wanted + 1) records) :
    Leads crc original scan wanted records := by
  induction scan using positionAtData.induct with
  | case1 scan opened advanced => exact absurd advanced (follows.not_last opened)
  | case2 scan opened after advanced ih =>
      refine (ih (follows.advance opened advanced)).of_eq ?_ ?_
      · rw [positionAtData_closed opened, advanced]
      · obtain ⟨_, _, rfl⟩ := Option.map_eq_some_iff.mp advanced
        exact ⟨rfl, rfl, rfl, rfl⟩
  | case3 scan reader opened fault after peeked =>
      exact .inl ⟨_, _, positionAtData_opened opened peeked, rfl, rfl, rfl, rfl⟩
  | case4 scan reader opened totalLen after peeked =>
      rcases follows.peek_cases opened peeked with
        ⟨_, kind⟩ | ⟨kind, _⟩ | ⟨_, kind, _⟩ | ⟨_, file, extent, kind, reads, found⟩
      · cases kind
      · cases kind
      · cases kind
      · cases kind
        exact .inr ⟨totalLen, _, after, file, extent, positionAtData_opened opened peeked,
          ⟨rfl, rfl, rfl, rfl⟩, rfl, reads, found⟩
  | case5 scan reader opened totalLen after peeked ih =>
      rcases follows.peek_cases opened peeked with
        ⟨_, kind⟩ | ⟨kind, _⟩ | ⟨_, kind, moved⟩ | ⟨_, _, _, kind, _⟩
      · cases kind
      · cases kind
      · cases kind
        exact (ih moved).of_eq (positionAtData_opened opened peeked) ⟨rfl, rfl, rfl, rfl⟩
      · cases kind
  | case6 scan reader opened after peeked ih =>
      rcases follows.peek_cases opened peeked with
        ⟨_, kind⟩ | ⟨_, moved⟩ | ⟨_, kind, _⟩ | ⟨_, _, _, kind, _⟩
      · cases kind
      · exact (ih moved).of_eq (positionAtData_opened opened peeked) ⟨rfl, rfl, rfl, rfl⟩
      · cases kind
      · cases kind

/-- A scan that is not at its bound yields the first of the records, or an error that ends it. -/
theorem Follows.next_cases {original : Directory} {scan : Scan σ} {wanted : Nat}
    {records : List (List UInt8)} (follows : Follows crc original scan (wanted + 1) records)
    (clean : scan.pendingErr = none) (going : scan.done = false)
    (inside : scan.position ≤ scan.upto) :
    (∃ error after, scan.next crc = (some (.error error), after) ∧ after.pendingErr = none ∧
        after.done = true) ∨
      ∃ record later after, records = record :: later ∧
        scan.next crc = (some (.ok (scan.position, record)), after) ∧
        Follows crc original after wanted later ∧ after.position = scan.position + 1 ∧
        after.upto = scan.upto ∧ after.pendingErr = none ∧ after.done = false := by
  rw [Scan.next, clean]
  simp only [going, Bool.false_eq_true, if_false, Nat.not_lt.mpr inside]
  rcases follows.leads with ⟨error, after, failed, _, _, pending, _⟩ | ⟨totalLen, after, reader, file, extent, moved,
    ⟨position, upto, pending, done⟩, opened, reads, found⟩
  · rw [failed]
    exact .inl ⟨error, _, rfl, pending.trans clean, rfl⟩
  rcases found with refused | ⟨frame, next, later, here, data, rfl, rfl, rest⟩
  · obtain ⟨fault, reader', read⟩ := reads.readRecord_refused refused
    simp only [moved, opened, read]
    exact .inl ⟨_, _, rfl, pending.trans clean, rfl⟩
  · obtain ⟨reader', read, reads'⟩ := Reader.readRecord_data reads here data (Nat.zero_le _)
    refine .inr ⟨frame.payload, later, { after with
      offset := next, position := scan.position + 1, reader := some reader' }, rfl, ?_,
      rest reader' reads' _, rfl, upto, pending.trans clean, done.trans going⟩
    simp only [moved, opened, read, position, List.drop_zero, next_of_recordAt here]

/-- The scan yields the records that are wanted, or the first of them and an error. -/
theorem Follows.yields {original : Directory} {scan : Scan σ} {wanted : Nat}
    {records : List (List UInt8)} (follows : Follows crc original scan wanted records)
    (enough : wanted ≤ records.length) (clean : scan.pendingErr = none)
    (going : scan.done = false) (counted : scan.position + wanted = scan.upto + 1) :
    ∃ items, Yields crc scan items ∧
      OriginalsOrError (positioned scan.position (records.take wanted)) items := by
  induction wanted generalizing scan records with
  | zero =>
      have ended : scan.next crc = (none, { scan with done := true }) := by
        rw [Scan.next, clean]
        simp only [going, Bool.false_eq_true, if_false]
        rw [if_pos (by omega)]
      exact ⟨[], .ended ended, .inl rfl⟩
  | succ wanted ih =>
      rcases follows.next_cases clean going (by omega) with
        ⟨error, after, here, clean', stopped⟩ |
          ⟨record, later, after, rfl, here, follows', position, upto, clean', going'⟩
      · have ended : after.next crc = (none, after) := by
          rw [Scan.next, clean']
          simp only [stopped, if_true]
        refine ⟨[.error error], .item here (.ended ended), .inr ⟨0, ?_, error, rfl⟩⟩
        rw [length_positioned, List.length_take]
        omega
      · rw [List.length_cons] at enough
        obtain ⟨items, yields, originals⟩ :=
          ih follows' (by omega) clean' going' (by omega)
        rw [position] at originals
        refine ⟨_, .item here yields, ?_⟩
        rw [List.take_succ_cons, positioned_cons]
        exact originals.cons

end Scan

/-- The heads of altered files lead a scan from a position over as many records as it has to
yield: the segment of the position is entered at the offset of its sidecar. -/
def HeadsLead (crc : List UInt8 → UInt32) (damaged original : Directory) (headerSize : Nat)
    (source : σ) (first wanted : Nat) : Prop :=
  ∀ idx segment offset, locate source first = some (idx, segment) →
    segment.offsets[first - segment.basePosition]? = some offset →
      Walk crc (damaged.read segment.basePosition) (original.read segment.basePosition)
        (segment.extent original)
        (WalkAll crc damaged original headerSize ((segments source).drop (idx + 1))) offset wanted

theorem Intact.scan_altered {original damaged : Directory} {headerSize : Nat} {source : σ}
    {lists : List (List (List UInt8))}
    (intact : Intact crc original headerSize source lists)
    (altered : Altered crc damaged original (segments source)) {first upto : Nat}
    (started : firstPosition ≤ first) (inside : upto ≤ lists.flatten.length)
    (lead : HeadsLead crc damaged original headerSize source first (upto + 1 - first)) :
    ∃ items, Scan.Yields crc (.start damaged headerSize source first upto) items ∧
      OriginalsOrError
        (positioned first ((lists.flatten.drop (first - firstPosition)).take (upto + 1 - first)))
        items := by
  have positive : first ≠ 0 := by
    rw [firstPosition] at started
    omega
  rw [Scan.start]
  by_cases beyond : first > upto
  · rw [if_pos (.inr beyond), show upto + 1 - first = 0 by omega, List.take_zero]
    exact ⟨[], .ended rfl, .inl rfl⟩
  rw [if_neg (by omega)]
  obtain ⟨idx, segment, offset, located, member, _, found, records, recorded, later, split⟩ :=
    intact.locate_eq started (by omega)
  obtain ⟨_, _, _, stop, _, _, _, chain, quiet, recordsEq, _⟩ := recorded.record_at found
  simp only [located, found]
  rw [split]
  refine (Scan.follows_segment altered member chain quiet recordsEq rfl rfl later
    (lead idx segment offset located found)).yields ?_ rfl rfl (by simp only; omega)
  rw [← split, List.length_drop]
  rw [firstPosition] at started ⊢
  omega

/-- A log that was opened has a record for each of its positions.  A scan after bytes of its
files were altered yields these records, or the first of them and then an error, where the
heads lead to them. -/
theorem altered_scan_yields_originals {config : SegmentConfig} {dir after damaged : Directory}
    {now : UInt64} {set : SegmentSet} (distinct : (dir.map Prod.fst).Nodup)
    (opened : SegmentSet.openSet crc config now dir = (.ok set, after))
    (altered : Altered crc damaged after (segments set)) {first upto : Nat}
    (started : firstPosition ≤ first) (inside : upto ≤ set.lastPosition) :
    ∃ records, SegmentSet.readLog crc ⟨after, set⟩ = .ok (positioned firstPosition records) ∧
      records.length = set.lastPosition ∧
      (HeadsLead crc damaged after set.config.headerSize set first (upto + 1 - first) →
        ∃ items, Scan.Yields crc (.start damaged set.config.headerSize set first upto) items ∧
          OriginalsOrError
            (positioned first ((records.drop (first - firstPosition)).take (upto + 1 - first)))
            items) := by
  obtain ⟨rfl, lists, run, nextEq⟩ := run_of_openSet distinct opened
  have last : set.lastPosition = lists.flatten.length := by
    rw [SegmentSet.lastPosition, nextEq, firstPosition]
    omega
  refine ⟨lists.flatten, run.read, last.symm, fun lead => ?_⟩
  exact Intact.scan_altered ⟨run.contiguous, run.recorded⟩ altered started (last ▸ inside) lead

namespace Scan

/-- Move to the next data record in at most so many turns of the loop. -/
def positionWithin : Nat → Scan σ → Option (Except LogError (Option Nat) × Scan σ)
  | 0, _ => none
  | fuel + 1, scan =>
      match scan.reader with
      | none =>
          match scan.advanceSegment with
          | none => some (.ok none, scan)
          | some after => positionWithin fuel after
      | some reader =>
          match reader.peek scan.offset with
          | (.error fault, after) =>
              some (.error (.read scan.segmentPath fault), { scan with reader := some after })
          | (.ok (.data totalLen), after) =>
              some (.ok (some totalLen), { scan with reader := some after })
          | (.ok (.control totalLen), after) =>
              positionWithin fuel
                { scan with reader := some after, offset := scan.offset + totalLen }
          | (.ok .done, _) => positionWithin fuel { scan with reader := none }

theorem positionAtData_of_within {fuel : Nat} {scan : Scan σ}
    {result : Except LogError (Option Nat) × Scan σ}
    (within : positionWithin fuel scan = some result) : scan.positionAtData = result := by
  induction fuel generalizing scan with
  | zero => cases within
  | succ fuel ih =>
      cases opened : scan.reader with
      | none =>
          rw [positionAtData_closed opened]
          simp only [positionWithin, opened] at within
          cases advanced : scan.advanceSegment with
          | none =>
              rw [advanced] at within
              exact Option.some.inj within
          | some after =>
              rw [advanced] at within
              exact ih within
      | some reader =>
          cases peeked : reader.peek scan.offset with
          | mk kind after =>
              rw [positionAtData_opened opened peeked]
              simp only [positionWithin, opened, peeked] at within
              rcases kind with fault | totalLen | totalLen | _
              · exact Option.some.inj within
              · exact Option.some.inj within
              · exact ih within
              · exact ih within

variable (crc) in
/-- The next item, if the loop needs at most so many turns. -/
def nextWithin (fuel : Nat) (scan : Scan σ) :
    Option (Option (Except LogError (Nat × List UInt8)) × Scan σ) :=
  match scan.pendingErr with
  | some err => some (some (.error err), { scan with pendingErr := none, done := true })
  | none =>
      if scan.done then
        some (none, scan)
      else if scan.position > scan.upto then
        some (none, { scan with done := true })
      else
        (positionWithin fuel scan).map fun
          | (.ok none, after) => (none, { after with done := true })
          | (.error err, after) => (some (.error err), { after with done := true })
          | (.ok (some totalLen), after) =>
              match after.reader with
              | none =>
                  (some (.error (.read after.segmentPath .panicked)), { after with done := true })
              | some reader =>
                  let moved := { after with
                    offset := after.offset + totalLen
                    position := after.position + 1 }
                  match reader.readRecord crc 0 after.offset with
                  | (.ok record, reader) =>
                      (some (.ok (after.position, record.data)),
                        { moved with reader := some reader })
                  | (.error fault, reader) =>
                      (some (.error (.read after.segmentPath fault)),
                        { moved with reader := some reader, done := true })

theorem next_of_within {fuel : Nat} {scan : Scan σ}
    {result : Option (Except LogError (Nat × List UInt8)) × Scan σ}
    (within : nextWithin crc fuel scan = some result) : scan.next crc = result := by
  rw [Scan.next]
  unfold nextWithin at within
  cases pending : scan.pendingErr with
  | some err =>
      rw [pending] at within
      exact Option.some.inj within
  | none =>
      simp only [pending] at within ⊢
      by_cases done : scan.done = true
      · rw [if_pos done] at within ⊢
        exact Option.some.inj within
      rw [if_neg done] at within ⊢
      by_cases beyond : scan.position > scan.upto
      · rw [if_pos beyond] at within ⊢
        exact Option.some.inj within
      rw [if_neg beyond] at within ⊢
      obtain ⟨moved, found, rfl⟩ := Option.map_eq_some_iff.mp within
      have located := positionAtData_of_within found
      subst located
      rfl

variable (crc) in
/-- All items, if there are at most so many. -/
def itemsWithin : Nat → Scan σ → Option (List (Except LogError (Nat × List UInt8)))
  | 0, _ => none
  | fuel + 1, scan =>
      match nextWithin crc fuel scan with
      | none => none
      | some (none, _) => some []
      | some (some item, after) => (itemsWithin fuel after).map (item :: ·)

theorem yields_of_within {fuel : Nat} {scan : Scan σ}
    {items : List (Except LogError (Nat × List UInt8))}
    (within : itemsWithin crc fuel scan = some items) : Yields crc scan items := by
  induction fuel generalizing scan items with
  | zero => cases within
  | succ fuel ih =>
      simp only [itemsWithin] at within
      split at within
      · cases within
      · next after here =>
        cases within
        exact .ended (next_of_within here)
      · next item after here =>
        obtain ⟨rest, restWithin, rfl⟩ := Option.map_eq_some_iff.mp within
        exact .item (next_of_within here) (ih restWithin)

end Scan

def pairConfig : SegmentConfig := ⟨101, 12, 64⟩

/-- A segment file with one record and its commit marker, and eight bytes left. -/
def pairFile (base : Nat) (record : List UInt8) : List UInt8 :=
  SegmentHeader.toBytes crc32 ⟨SegmentHeader.currentVersion, 0, base⟩ ++
    recordBytes crc32 [] record ++ markerBytes crc32 base ++ List.replicate 8 0

def pairDir : Directory := [(1, pairFile 1 [1, 2, 3, 4]), (2, pairFile 2 [5, 6, 7, 8])]

/-- What is opened over them. -/
def pairSet : SegmentSet :=
  ⟨pairConfig, [⟨1, none, [64]⟩], 2, [64],
    ⟨⟨pairFile 2 [5, 6, 7, 8], 93, [], []⟩, 101, 64, 93, 93, false, 12, some 2⟩, 3⟩

theorem openSet_pair : SegmentSet.openSet crc32 pairConfig 0 pairDir = (.ok pairSet, pairDir) := by
  decide +kernel

theorem detected_of_forall_lt {file other : List UInt8} {extent : Nat}
    (checked : ∀ offset < extent, recordAt crc file extent offset = none ∨
      recordAt crc file extent offset = recordAt crc other extent offset) (offset : Nat)
    (found : Frame × Nat) (here : recordAt crc file extent offset = some found) :
    recordAt crc other extent offset = some found := by
  have bounds := recordAt_advances file extent offset found.1 found.2 here
  rcases checked offset (by omega) with none | same
  · rw [here] at none
    cases none
  · rw [← same, here]

/-- A byte of the second record is altered. -/
def pairPayload : Directory :=
  [(1, pairFile 1 [1, 2, 3, 4]), (2, writeAt (pairFile 2 [5, 6, 7, 8]) 73 [0])]

theorem altered_pairPayload : Altered crc32 pairPayload pairDir (segments pairSet) := by
  constructor
  · decide +kernel
  · intro segment member
    have cases : segment = ⟨1, none, [64]⟩ ∨ segment = ⟨2, some 93, [64]⟩ := by
      simpa [segments, sealedSegments, activeSegment, pairSet, SegmentSet.active] using member
    rcases cases with rfl | rfl
    · exact detected_of_forall_lt (by decide +kernel)
    · exact detected_of_forall_lt (by decide +kernel)

theorem headsLead_pairPayload :
    HeadsLead crc32 pairPayload pairDir pairSet.config.headerSize pairSet 1 2 := by
  intro idx segment offset located found
  have start : locate pairSet 1 = some (0, ⟨1, none, [64]⟩) := by decide +kernel
  obtain ⟨rfl, rfl⟩ := Prod.mk.inj (Option.some.inj (located.symm.trans start))
  obtain rfl : 64 = offset := by simpa using found
  -- The first record is intact and its marker is skipped.
  refine @Walk.data _ _ _ _ _ 64 1 12 (by decide +kernel) fun frame next here => ?_
  have first : recordAt crc32 (pairFile 1 [1, 2, 3, 4]) 101 64 =
      some (⟨false, [1, 2, 3, 4]⟩, 76) := by decide +kernel
  obtain ⟨rfl, rfl⟩ := Prod.mk.inj (Option.some.inj (here.symm.trans first))
  have marker : recordAt crc32 (pairFile 1 [1, 2, 3, 4]) 101 76 =
      some (⟨true, markerPayload 1⟩, 93) := by decide +kernel
  refine @Walk.control _ _ _ _ _ 76 1 93 ⟨true, markerPayload 1⟩ (by decide +kernel) marker rfl ?_
  have zeros : recordAt crc32 (pairFile 1 [1, 2, 3, 4]) 101 93 = none := by decide +kernel
  refine .leave (by decide +kernel) (fun entries stop chain => ?_) ?_
  · cases chain with
    | nil _ => rfl
    | cons here' _ => cases here'.symm.trans zeros
  -- The second one is altered.
  refine @Walk.data _ _ _ _ _ 64 0 12 (by decide +kernel) fun frame next here' => ?_
  have altered : recordAt crc32 (pairPayload.read 2) 93 64 = none := by decide +kernel
  cases here'.symm.trans altered

theorem altered_scan_yields_originals_pair :
    ∃ records, SegmentSet.readLog crc32 ⟨pairDir, pairSet⟩ =
        .ok (positioned firstPosition records) ∧
      records.length = 2 ∧ ∃ items,
        Scan.Yields crc32 (.start pairPayload 64 pairSet 1 2) items ∧
        OriginalsOrError (positioned 1 (records.take 2)) items := by
  obtain ⟨records, read, counted, yields⟩ :=
    altered_scan_yields_originals (by decide) openSet_pair altered_pairPayload
      (Nat.le_refl 1) (Nat.le_refl 2)
  exact ⟨records, read, counted, yields headsLead_pairPayload⟩

/-- The head of the first record is overwritten with zeros. -/
def pairHead : Directory :=
  [(1, writeAt (pairFile 1 [1, 2, 3, 4]) 64 (List.replicate 8 0)), (2, pairFile 2 [5, 6, 7, 8])]

theorem altered_pairHead : Altered crc32 pairHead pairDir (segments pairSet) := by
  constructor
  · decide +kernel
  · intro segment member
    have cases : segment = ⟨1, none, [64]⟩ ∨ segment = ⟨2, some 93, [64]⟩ := by
      simpa [segments, sealedSegments, activeSegment, pairSet, SegmentSet.active] using member
    rcases cases with rfl | rfl
    · exact detected_of_forall_lt (by decide +kernel)
    · exact detected_of_forall_lt (by decide +kernel)

/-- The scan leaves the first segment there, yields the second record as the first one, and ends
without an error. -/
theorem zeroed_head_moves_records :
    SegmentSet.openSet crc32 pairConfig 0 pairDir = (.ok pairSet, pairDir) ∧
      SegmentSet.readLog crc32 ⟨pairDir, pairSet⟩ = .ok [(1, [1, 2, 3, 4]), (2, [5, 6, 7, 8])] ∧
      Altered crc32 pairHead pairDir (segments pairSet) ∧ pairSet.lastPosition = 2 ∧
      Scan.Yields crc32 (.start pairHead 64 pairSet 1 2) [.ok (1, [5, 6, 7, 8])] :=
  ⟨openSet_pair, by decide +kernel, altered_pairHead, rfl,
    @Scan.yields_of_within _ _ _ 8 _ _ (by decide +kernel)⟩

end Log

end Tephra
