import Tephra.LogShelves

/-!
# Appending to a stored log

A batch written without a fault extends the active shelf, provided that the
bytes behind it do not complete another committed run.  A rollover seals the
active shelf, provided that a scan of the sealed file stops at its committed
end, and puts an empty shelf behind it.
-/

namespace Tephra

namespace Log

open ByteImage FrameChain Fallible Seglog

variable {crc : List UInt8 → UInt32}

namespace Shelf

/-- The shelf after a batch was written at an offset of its file. -/
def withBatch (self : Shelf) (crc : List UInt8 → UInt32) (stop : Nat)
    (records : List (List UInt8)) : Shelf :=
  ⟨self.base,
    writeAt self.file stop
      (batchBytes crc records (self.nextBase + records.length - 1)),
    self.batches ++ [records]⟩

theorem records_withBatch (self : Shelf) (stop : Nat) (records : List (List UInt8)) :
    (self.withBatch crc stop records).records = self.records ++ records := by
  simp [withBatch, Shelf.records]

theorem nextBase_withBatch (self : Shelf) (stop : Nat) (records : List (List UInt8)) :
    (self.withBatch crc stop records).nextBase = self.nextBase + records.length := by
  rw [nextBase, records_withBatch, List.length_append, ← Nat.add_assoc]
  rfl

theorem HasHeader.congr {self other : Shelf} (header : self.HasHeader crc)
    (baseEq : other.base = self.base)
    (agree : AgreeOn self.file other.file 0 segmentHeaderSize) :
    other.HasHeader crc := by
  obtain ⟨buf, header, read, parsed, named⟩ := header
  have inside := (readExact_eq_some_iff.mp read).1
  refine ⟨buf, header, readExact_congr read (by simpa using agree) ?_, parsed,
    named.trans baseEq.symm⟩
  exact agree.length_le (by decide) (by simpa using inside)

theorem Active.start_le {config : SegmentConfig} {self : Shelf} {stop : Nat}
    (active : self.Active crc config stop) : config.headerSize ≤ stop := by
  obtain ⟨entries, longest, _⟩ := active.recovered
  have chainLe := longest.chain.le (recordAt_advances self.file config.segmentSize)
  omega

theorem Active.nonempty {config : SegmentConfig} {self : Shelf} {stop : Nat}
    (active : self.Active crc config stop) (past : config.headerSize < stop) :
    self.records ≠ [] := by
  obtain ⟨entries, longest, _, position⟩ := active.recovered
  intro empty
  rcases longest.ends with rfl | ⟨before, entry, rfl, _⟩
  · have stopEq := chain_nil_iff.mp longest.chain
    omega
  · simp [lastPosition, empty, lastMarkerPosition] at position

/-- A file that keeps the committed bytes and holds a batch behind them recovers
with that batch. -/
theorem Active.extend {config : SegmentConfig} {self : Shelf} {stop : Nat}
    {records : List (List UInt8)} {file : List UInt8} (active : self.Active crc config stop)
    (headerFits : segmentHeaderSize ≤ config.headerSize)
    (nonempty : records ≠ []) (framable : Framable records)
    (fits : stop + batchSize records ≤ config.segmentSize)
    (positionFits : self.nextBase + records.length ≤ 2 ^ 64)
    (agree : AgreeOn self.file file 0 stop)
    (written : readExact file stop (batchSize records) =
      some (batchBytes crc records (self.nextBase + records.length - 1)))
    (clear : Unmarked (recordAt crc file config.segmentSize) IsMarker
      (stop + batchSize records)) :
    Active crc config ⟨self.base, file, self.batches ++ [records]⟩
      (stop + batchSize records) := by
  have startLe := active.start_le
  obtain ⟨header, stopLe, _, entries, longest, payloadsEq, _⟩ := active
  have positive := List.length_pos_of_ne_nil nonempty
  have recordsEq : Shelf.records ⟨self.base, file, self.batches ++ [records]⟩ =
      self.records ++ records := by
    simp [Shelf.records]
  obtain ⟨added, addedChain, addedRun, addedPayloads, _, addedPosition⟩ :=
    chain_batchBytes framable fits written
  have kept := chain_congr longest.chain (agree.mono (Nat.zero_le _) (Nat.le_refl _)) stopLe
  refine ⟨header.congr rfl (agree.mono (Nat.le_refl _) (by omega)), fits,
    (readExact_eq_some_iff.mp written).1, entries ++ added,
    ⟨kept.append addedChain, .inr addedRun.ends.append_left, clear⟩, ?_, ?_⟩
  · rw [payloads_append, payloadsEq, addedPayloads, recordsEq]
  · obtain ⟨entry, member, _⟩ := addedRun.ends.exists_mem
    rw [lastMarkerPosition_append (List.ne_nil_of_mem member), addedPosition (by omega),
      lastPosition, recordsEq, if_neg (by simp [nonempty]), List.length_append]
    simp [nextBase, Nat.add_assoc]

theorem Active.withBatch {config : SegmentConfig} {self : Shelf} {stop : Nat}
    {records : List (List UInt8)} (active : self.Active crc config stop)
    (headerFits : segmentHeaderSize ≤ config.headerSize)
    (nonempty : records ≠ []) (framable : Framable records)
    (fits : stop + batchSize records ≤ config.segmentSize)
    (positionFits : self.nextBase + records.length ≤ 2 ^ 64)
    (clear : Unmarked
      (recordAt crc (self.withBatch crc stop records).file config.segmentSize) IsMarker
      (stop + batchSize records)) :
    (self.withBatch crc stop records).Active crc config (stop + batchSize records) := by
  have agree : AgreeOn self.file (self.withBatch crc stop records).file 0 stop :=
    (agreeOn_writeAt_before (Nat.le_refl _) active.inside 0).symm
  have written := readExact_writeAt_self
    (batchBytes crc records (self.nextBase + records.length - 1)) active.inside
  rw [length_batchBytes] at written
  exact active.extend headerFits nonempty framable fits positionFits agree written clear

/-- Bytes behind the committed end do not matter while they complete no run. -/
theorem Active.replaceTail {config : SegmentConfig} {self : Shelf} {stop : Nat}
    {file : List UInt8} (active : self.Active crc config stop)
    (headerFits : segmentHeaderSize ≤ config.headerSize)
    (agree : AgreeOn self.file file 0 stop)
    (clear : Unmarked (recordAt crc file config.segmentSize) IsMarker stop) :
    Active crc config ⟨self.base, file, self.batches⟩ stop := by
  have startLe := active.start_le
  obtain ⟨header, stopLe, inside, entries, longest, payloadsEq, position⟩ := active
  have positive : 0 < segmentHeaderSize := by decide
  refine ⟨header.congr rfl (agree.mono (Nat.le_refl _) (by omega)), stopLe,
    agree.length_le (by omega) inside, entries, ⟨?_, longest.ends, clear⟩, payloadsEq, position⟩
  exact chain_congr longest.chain (agree.mono (Nat.zero_le _) (Nat.le_refl _)) stopLe

theorem Active.toSealed {config : SegmentConfig} {self : Shelf} {stop : Nat}
    (active : self.Active crc config stop) (nonempty : self.records ≠ [])
    (quiet : QuietTail crc self.file self.file.length stop) :
    self.Sealed crc config := by
  obtain ⟨header, stopLe, inside, entries, longest, payloadsEq, _⟩ := active
  exact ⟨header, ⟨entries, stop, stopLe, chain_congr longest.chain (.refl _ _ _) inside,
    payloadsEq, quiet⟩, nonempty⟩

/-- The file of a new segment: a header before zeros. -/
def fresh (crc : List UInt8 → UInt32) (config : SegmentConfig) (now : UInt64) (base : Nat) :
    Shelf :=
  ⟨base,
    writeAt (List.replicate config.segmentSize 0) 0
      (SegmentHeader.toBytes crc ⟨SegmentHeader.currentVersion, now.toNat, base⟩),
    []⟩

theorem length_fresh {config : SegmentConfig} (now : UInt64) (base : Nat)
    (headerFits : segmentHeaderSize ≤ config.headerSize)
    (roomy : config.headerSize ≤ config.segmentSize) :
    (fresh crc config now base).file.length = config.segmentSize := by
  rw [fresh, length_writeAt_of_fits]
  · simp
  · simp
    omega

theorem zeroFrom_fresh {config : SegmentConfig} (now : UInt64) (base : Nat) {offset : Nat}
    (past : segmentHeaderSize ≤ offset) :
    ZeroFrom (fresh crc config now base).file offset := by
  have past' : 0 + (SegmentHeader.toBytes crc
      ⟨SegmentHeader.currentVersion, now.toNat, base⟩).length ≤ offset := by
    simpa using past
  exact zeroFrom_writeAt (zeroFrom_replicate config.segmentSize offset) (Nat.zero_le _) past'

theorem active_fresh {config : SegmentConfig} (now : UInt64) {base : Nat}
    (headerFits : segmentHeaderSize ≤ config.headerSize)
    (roomy : config.headerSize ≤ config.segmentSize) (baseFits : base < 2 ^ 64) :
    (fresh crc config now base).Active crc config config.headerSize := by
  have lengthEq := @length_fresh crc config now base headerFits roomy
  have parsed := SegmentHeader.fromBytes_toBytes crc
    ⟨SegmentHeader.currentVersion, now.toNat, base⟩ ⟨rfl, now.toNat_lt, baseFits⟩
  refine ⟨⟨_, _, ?_, parsed, rfl⟩, roomy, by omega, [], ⟨.nil _, .inl rfl, ?_⟩, rfl, rfl⟩
  · have written := readExact_writeAt_self
      (SegmentHeader.toBytes crc ⟨SegmentHeader.currentVersion, now.toNat, base⟩)
      (Nat.zero_le (List.replicate config.segmentSize 0).length)
    rwa [SegmentHeader.length_toBytes] at written
  · exact (zeroFrom_fresh now base headerFits).unmarked

variable (crc) in
theorem zeroFrom_withBatch {shelf : Shelf} {stop : Nat} (zero : ZeroFrom shelf.file stop)
    (inside : stop ≤ shelf.file.length) (records : List (List UInt8)) :
    ZeroFrom (shelf.withBatch crc stop records).file (stop + batchSize records) :=
  zeroFrom_writeAt (zero.mono (Nat.le_add_right _ _)) inside (by simp)

theorem clear_fresh {config : SegmentConfig} (now : UInt64) (base : Nat)
    (headerFits : segmentHeaderSize ≤ config.headerSize)
    (roomy : config.headerSize ≤ config.segmentSize) (records : List (List UInt8)) :
    Unmarked
      (recordAt crc ((fresh crc config now base).withBatch crc config.headerSize records).file
        config.segmentSize) IsMarker
      (config.headerSize + batchSize records) := by
  refine (zeroFrom_withBatch crc (zeroFrom_fresh now base headerFits) ?_ records).unmarked
  rw [length_fresh now base headerFits roomy]
  exact roomy

end Shelf

/-- A shelf with other bytes in its file. -/
def Shelf.withFile (self : Shelf) (file : List UInt8) : Shelf :=
  { self with file := file }

/-- A stored log stays stored under other bytes behind its committed end. -/
theorem Stored.replaceTail {config : SegmentConfig} {dir : Directory} {sealed : List Shelf}
    {active : Shelf} {stop : Nat} {file : List UInt8}
    (stored : Stored crc config dir sealed active stop)
    (headerFits : segmentHeaderSize ≤ config.headerSize)
    (agree : AgreeOn active.file file 0 stop)
    (clear : Unmarked (recordAt crc file config.segmentSize) IsMarker stop) :
    Stored crc config (sealed.map Shelf.entry ++ [(active.base, file)]) sealed
      (active.withFile file) stop := by
  obtain ⟨front, baseEq⟩ := Contiguous.snoc_iff.mp stored.contiguous
  exact ⟨by simp [Shelf.entry, Shelf.withFile], Contiguous.snoc_iff.mpr ⟨front, baseEq⟩, stored.sealed_ok,
    stored.active_ok.replaceTail headerFits agree clear⟩

/-- A file that holds a whole batch behind the committed end stores that batch. -/
theorem Stored.extendTail {config : SegmentConfig} {dir : Directory} {sealed : List Shelf}
    {active : Shelf} {stop : Nat} {records : List (List UInt8)} {file : List UInt8}
    (stored : Stored crc config dir sealed active stop)
    (headerFits : segmentHeaderSize ≤ config.headerSize)
    (nonempty : records ≠ []) (framable : Framable records)
    (fits : stop + batchSize records ≤ config.segmentSize)
    (positionFits : active.nextBase + records.length ≤ 2 ^ 64)
    (agree : AgreeOn active.file file 0 stop)
    (written : readExact file stop (batchSize records) =
      some (batchBytes crc records (active.nextBase + records.length - 1)))
    (clear : Unmarked (recordAt crc file config.segmentSize) IsMarker
      (stop + batchSize records)) :
    Stored crc config (sealed.map Shelf.entry ++ [(active.base, file)]) sealed
      ⟨active.base, file, active.batches ++ [records]⟩ (stop + batchSize records) := by
  obtain ⟨front, baseEq⟩ := Contiguous.snoc_iff.mp stored.contiguous
  exact ⟨by simp [Shelf.entry], Contiguous.snoc_iff.mpr ⟨front, baseEq⟩, stored.sealed_ok,
    stored.active_ok.extend headerFits nonempty framable fits positionFits agree written clear⟩

theorem Stored.read_active {config : SegmentConfig} {dir : Directory} {sealed : List Shelf}
    {active : Shelf} {stop : Nat} (stored : Stored crc config dir sealed active stop) :
    dir.read active.base = active.file :=
  stored.read active (by simp)

theorem Stored.write_active {config : SegmentConfig} {dir : Directory} {sealed : List Shelf}
    {active : Shelf} {stop : Nat} (stored : Stored crc config dir sealed active stop)
    (file : List UInt8) :
    dir.write active.base file = sealed.map Shelf.entry ++ [(active.base, file)] := by
  have below : ∀ shelf ∈ sealed, shelf.base ≠ active.base := by
    intro shelf member
    have less := (List.pairwise_append.mp stored.ascending).2.2 shelf member active (by simp)
    omega
  rw [stored.dir_eq, Directory.write_last below, List.map_append]
  rfl

namespace SegmentSet

/-- An operation of the writer replaces the file of the active shelf. -/
theorem onWriter_eq {α : Type} {config : SegmentConfig} {sealed : List Shelf} {active : Shelf}
    {stop : Nat} {state : LogState} {outcomes : List IoOutcome}
    {op : Op Writer WriteError α} {outcome : Except WriteError α} {after : Writer}
    (stored : Stored crc config state.dir sealed active stop)
    (activeBase : state.set.activeBase = active.base)
    (result : op (state.set.activeWriter.withOutcomes outcomes) = (outcome, after)) :
    onWriter outcomes op state =
      (outcome.mapError fun source => .write active.base source,
        ⟨sealed.map Shelf.entry ++ [(active.base, after.writer.file)],
          { state.set with activeWriter := after.withOutcomes [] }⟩) := by
  unfold onWriter
  simp only [result]
  rw [activeBase, stored.write_active]

theorem clean_of_live {config : SegmentConfig} {set : SegmentSet} {active : Shelf}
    {stop : Nat} (live : Live config set active stop) (outcomes : List IoOutcome) :
    (set.activeWriter.withOutcomes outcomes).Clean :=
  ⟨by simp [Writer.withOutcomes, live.writer_eq],
    by simp [Writer.withOutcomes, live.writer_eq, live.writeOffset_eq]⟩

/-- What a successful batch leaves in the writer of the active shelf. -/
theorem writeBatch_live {config : SegmentConfig} {set : SegmentSet} {active : Shelf}
    {stop position : Nat} {records : List (List UInt8)} {outcomes : List IoOutcome}
    {offsets : List Nat} {after : Writer} (live : Live config set active stop)
    (result : Writer.writeBatch crc records position
      (set.activeWriter.withOutcomes outcomes) = (.ok offsets, after)) :
    after.withOutcomes [] = { set.activeWriter with
      writer := ⟨writeAt active.file stop (batchBytes crc records position),
        stop + batchSize records, [], []⟩
      dirty := false
      writeOffset := stop + batchSize records
      flushedOffset := stop + batchSize records
      lastPosition := some position } := by
  have writerEq := live.writer_eq
  have offsetEq := live.writeOffset_eq
  obtain ⟨_, fileEq, clean, afterEq⟩ := Writer.writeBatch_ok (clean_of_live live outcomes) result
  have cursorEq := clean.cursor_eq
  have bufEq := clean.buf_nil
  rw [afterEq] at cursorEq
  simp only [Writer.withOutcomes, writerEq, offsetEq] at fileEq cursorEq afterEq
  rw [afterEq, Writer.withOutcomes]
  simp only [fileEq, cursorEq, bufEq]

theorem writeRecords_ok {config : SegmentConfig} {sealed : List Shelf} {active : Shelf}
    {stop : Nat} {state : LogState} {env : AppendEnv} {records : List (List UInt8)}
    {offsets : List Nat} {writer : Writer}
    (stored : Stored crc config state.dir sealed active stop)
    (live : Live config state.set active stop)
    (headerFits : segmentHeaderSize ≤ config.headerSize)
    (nonempty : records ≠ []) (framable : Framable records)
    (fits : stop + batchSize records ≤ config.segmentSize)
    (positionFits : active.nextBase + records.length ≤ 2 ^ 64)
    (clear : Unmarked
      (recordAt crc (active.withBatch crc stop records).file config.segmentSize) IsMarker
      (stop + batchSize records))
    (result : Writer.writeBatch crc records (active.nextBase + records.length - 1)
      (state.set.activeWriter.withOutcomes env.batchIo) = (.ok offsets, writer)) :
    ∃ after, writeRecords crc env records state =
        (.ok (active.nextBase, active.nextBase + records.length - 1), after) ∧
      Stored crc config after.dir sealed (active.withBatch crc stop records)
        (stop + batchSize records) ∧
      Live config after.set (active.withBatch crc stop records) (stop + batchSize records) := by
  have positive := List.length_pos_of_ne_nil nonempty
  have writerEq := writeBatch_live live result
  have written := onWriter_eq stored live.activeBase_eq result
  have fileEq : writer.writer.file = (active.withBatch crc stop records).file :=
    congrArg (fun writer : Writer => writer.writer.file) writerEq
  have stepped : writeRecords crc env records state =
      (.ok (active.nextBase, active.nextBase + records.length - 1),
        ⟨sealed.map Shelf.entry ++ [(active.withBatch crc stop records).entry],
          { state.set with
            activeWriter := writer.withOutcomes []
            activeOffsets := state.set.activeOffsets ++ offsets
            nextPosition := active.nextBase + records.length - 1 + 1 }⟩) := by
    unfold writeRecords
    simp only [live.nextPosition_eq, written, Except.mapError, fileEq]
    rfl
  refine ⟨_, stepped, ⟨by simp, ?_, stored.sealed_ok, ?_⟩, ?_⟩
  · obtain ⟨front, baseEq⟩ := Contiguous.snoc_iff.mp stored.contiguous
    exact Contiguous.snoc_iff.mpr ⟨front, baseEq⟩
  · exact stored.active_ok.withBatch headerFits nonempty framable fits positionFits clear
  · rw [writerEq]
    refine ⟨live.config_eq, live.activeBase_eq, ?_, rfl, live.size_eq, live.startOffset_eq,
      live.maxRecord_eq, rfl, rfl⟩
    rw [Shelf.nextBase_withBatch]
    simp only
    omega

/-- Without faults a batch that fits is written behind the committed end. -/
theorem writeRecords_stored {config : SegmentConfig} {sealed : List Shelf} {active : Shelf}
    {stop : Nat} {state : LogState} (env : AppendEnv) {records : List (List UInt8)}
    (stored : Stored crc config state.dir sealed active stop)
    (live : Live config state.set active stop)
    (headerFits : segmentHeaderSize ≤ config.headerSize)
    (noFault : ∀ outcome ∈ env.batchIo, outcome = .ok) (nonempty : records ≠ [])
    (framable : Framable records)
    (short : ∀ record ∈ records,
      recordHeadSize + record.length ≤ state.set.activeWriter.maxRecord)
    (fits : stop + batchSize records ≤ config.segmentSize)
    (positionFits : active.nextBase + records.length ≤ 2 ^ 64)
    (clear : Unmarked
      (recordAt crc (active.withBatch crc stop records).file config.segmentSize) IsMarker
      (stop + batchSize records)) :
    ∃ after, writeRecords crc env records state =
        (.ok (active.nextBase, active.nextBase + records.length - 1), after) ∧
      Stored crc config after.dir sealed (active.withBatch crc stop records)
        (stop + batchSize records) ∧
      Live config after.set (active.withBatch crc stop records) (stop + batchSize records) := by
  have healthy : (state.set.activeWriter.withOutcomes env.batchIo).Healthy := noFault
  obtain ⟨offsets, writer, result, _⟩ :=
    Writer.writeBatch_succeeds crc (active.nextBase + records.length - 1) healthy short
      (by simp only [Writer.withOutcomes, live.writeOffset_eq, live.size_eq]; exact fits)
  exact writeRecords_ok stored live headerFits nonempty framable fits positionFits clear result

end SegmentSet

end Log

end Tephra
