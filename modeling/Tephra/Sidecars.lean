import Tephra.LogRollover
import Tephra.SegmentScan

/-!
# Offset sidecars

The sidecar of a segment lists the byte offset of each of its data records.  It
grows with every batch and is rebuilt by a scan when the log is opened.  Both ways
it has the offsets of the records of the shelf, and the two agree.
-/

namespace Tephra

namespace Log

open ByteImage FrameChain Fallible Seglog SegmentSet

variable {crc : List UInt8 → UInt32}

/-- The sidecar of a segment is that of a shelf whose records end at `stop`, before
zeros. -/
structure Tabled (crc : List UInt8 → UInt32) (config : SegmentConfig) (segment : Segment)
    (shelf : Shelf) (stop : Nat) : Prop where
  base_eq : segment.basePosition = shelf.base
  flushed_eq : segment.flushedOffset = none ∨ segment.flushedOffset = some stop
  inside : stop ≤ shelf.file.length
  stop_le : stop ≤ config.segmentSize
  zero : ZeroFrom shelf.file stop
  chain : ∃ entries, Chain (recordAt crc shelf.file stop) config.headerSize entries stop ∧
    (dataRecords entries).map Prod.fst = segment.offsets ∧
    (dataRecords entries).map Prod.snd = shelf.records

namespace Tabled

variable {config : SegmentConfig} {segment : Segment} {shelf : Shelf} {stop : Nat}

theorem backed (tabled : Tabled crc config segment shelf stop) {dir : Directory}
    (read : dir.read shelf.base = shelf.file) :
    Backed crc dir config.headerSize segment shelf.records := by
  obtain ⟨entries, chain, offsetsEq, recordsEq⟩ := tabled.chain
  have inside := tabled.inside
  have extent : stop ≤ segment.extent dir ∧ segment.extent dir ≤ shelf.file.length := by
    rw [Segment.extent, tabled.base_eq, read]
    rcases tabled.flushed_eq with flushedEq | flushedEq <;> rw [flushedEq]
    · exact ⟨inside, Nat.le_refl _⟩
    · exact ⟨Nat.le_refl _, inside⟩
  constructor
  · rw [tabled.base_eq, read]
    exact extent.2
  · rw [tabled.base_eq, read]
    exact ⟨entries, stop, chain_congr chain (.refl _ _ _) extent.1,
      tabled.zero.quietAt extent.2, offsetsEq, recordsEq⟩

/-- A scan of the file rebuilds the sidecar, whether it goes to the end of the records
or to the end of the file. -/
theorem scanOffsets_eq (tabled : Tabled crc config segment shelf stop)
    (sizeFits : config.segmentSize ≤ u32Max) {flushed : Option Nat}
    (flushedEq : flushed = none ∨ flushed = some stop) :
    scanOffsets crc shelf.file flushed config.headerSize = .ok segment.offsets := by
  obtain ⟨entries, chain, offsetsEq, _⟩ := tabled.chain
  have inside := tabled.inside
  have stopLe := tabled.stop_le
  have extent : stop ≤ flushed.getD shelf.file.length ∧
      flushed.getD shelf.file.length ≤ shelf.file.length := by
    rcases flushedEq with rfl | rfl
    · exact ⟨inside, Nat.le_refl _⟩
    · exact ⟨Nat.le_refl _, inside⟩
  have iterated := Reader.iterate_spec 0 (Reader.reads_openSegment shelf.file flushed) extent.2
    (chain_congr chain (.refl _ _ _) extent.1) (tabled.zero.quietAt extent.2)
    fun _ _ => Nat.zero_le _
  rw [← offsetsEq]
  exact scanOffsets_of_iterate iterated (dataRecords_offset_le chain (by omega))

theorem length_offsets (tabled : Tabled crc config segment shelf stop) :
    segment.offsets.length = shelf.records.length := by
  obtain ⟨entries, _, offsetsEq, recordsEq⟩ := tabled.chain
  rw [← offsetsEq, ← recordsEq, List.length_map, List.length_map]

theorem fresh (now : UInt64) (base : Nat) (headerFits : segmentHeaderSize ≤ config.headerSize)
    (roomy : config.headerSize ≤ config.segmentSize) :
    Tabled crc config ⟨base, some config.headerSize, []⟩ (.fresh crc config now base)
      config.headerSize where
  base_eq := rfl
  flushed_eq := .inr rfl
  inside := by
    rw [Shelf.fresh, length_writeAt_of_fits]
    · simpa using roomy
    · simp only [SegmentHeader.length_toBytes, List.length_replicate]
      omega
  stop_le := roomy
  zero := Shelf.zeroFrom_fresh now base headerFits
  chain := ⟨[], .nil _, rfl, rfl⟩

/-- A batch adds its offsets to the sidecar and its records to the shelf. -/
theorem withBatch (tabled : Tabled crc config segment shelf stop) {records : List (List UInt8)}
    (framable : Framable records) (fits : stop + batchSize records ≤ config.segmentSize) :
    Tabled crc config
      ⟨segment.basePosition, some (stop + batchSize records),
        segment.offsets ++ recordOffsets stop records⟩
      (shelf.withBatch crc stop records) (stop + batchSize records) := by
  obtain ⟨entries, chain, offsetsEq, recordsEq⟩ := tabled.chain
  have written := readExact_writeAt_self
    (batchBytes crc records (shelf.nextBase + records.length - 1)) tabled.inside
  rw [length_batchBytes] at written
  obtain ⟨added, addedChain, _, addedPayloads, addedOffsets, _⟩ :=
    chain_batchBytes framable (Nat.le_refl (stop + batchSize records)) written
  have agree : AgreeOn shelf.file (shelf.withBatch crc stop records).file 0 stop :=
    (agreeOn_writeAt_before (Nat.le_refl _) tabled.inside 0).symm
  have kept : Chain (recordAt crc (shelf.withBatch crc stop records).file
      (stop + batchSize records)) config.headerSize entries stop :=
    chain_congr chain (agree.mono (Nat.zero_le _) (Nat.le_refl _)) (Nat.le_add_right _ _)
  refine ⟨tabled.base_eq, .inr rfl, (readExact_eq_some_iff.mp written).1, fits, ?_,
    entries ++ added, kept.append addedChain, ?_, ?_⟩
  · exact zeroFrom_writeAt (tabled.zero.mono (Nat.le_add_right _ _)) tabled.inside (by simp)
  · rw [dataRecords_append, List.map_append, offsetsEq, addedOffsets]
  · rw [payloads] at addedPayloads
    rw [dataRecords_append, List.map_append, recordsEq, addedPayloads, Shelf.records_withBatch]

end Tabled

/-- The sidecars of a set are those of its shelves, and its writer is as a recovery
leaves it. -/
structure Tables (crc : List UInt8 → UInt32) (config : SegmentConfig) (set : SegmentSet)
    (sealed : List Shelf) (active : Shelf) (stop : Nat) : Prop where
  sealed_tabled : List.Forall₂
    (fun segment shelf => ∃ stop, Tabled crc config segment shelf stop) set.sealed sealed
  active_tabled : Tabled crc config set.active active stop
  dirty_eq : set.activeWriter.dirty = false
  lastPosition_eq : set.activeWriter.lastPosition = active.lastPosition

namespace SegmentSet

theorem rollover_ok {config : SegmentConfig} {active : Shelf} {stop : Nat}
    {state after : LogState} {env : AppendEnv} (live : Live config state.set active stop)
    (rolled : rollover crc env state = (.ok (), after)) :
    ∃ file, after.set =
      ⟨config, state.set.sealed ++ [⟨active.base, some stop, state.set.activeOffsets⟩],
        active.nextBase, [],
        (Writer.created file config.segmentSize config.headerSize).setMaxRecord
          config.maxRecordLen, active.nextBase⟩ := by
  obtain ⟨_, middle, synced, installed⟩ := Op.bind_eq_ok rolled
  have middleEq : middle.set = { state.set with activeWriter :=
      (Writer.sync (state.set.activeWriter.withOutcomes env.sealIo)).2.withOutcomes [] } :=
    (congrArg (fun result => result.2.set) synced).symm
  have live' := (sync_live live env.sealIo).2
  rw [← middleEq] at live'
  unfold installSegment at installed
  split at installed
  · simp at installed
  next writer created result =>
    obtain ⟨file, rfl⟩ := createSegment_ok result
    obtain ⟨_, rfl⟩ := Prod.mk.inj installed
    refine ⟨file, ?_⟩
    have sealedEq : middle.set.sealed = state.set.sealed := by rw [middleEq]
    have offsetsEq : middle.set.activeOffsets = state.set.activeOffsets := by rw [middleEq]
    simp only [SegmentSet.active, live'.config_eq, live'.activeBase_eq, live'.nextPosition_eq,
      live'.flushedOffset_eq, sealedEq, offsetsEq]

/-- A written batch adds its offsets to the sidecar of the active segment. -/
theorem writeRecords_set {config : SegmentConfig} {active : Shelf} {stop : Nat}
    {state after : LogState} {env : AppendEnv} {records : List (List UInt8)}
    {range : Nat × Nat} (live : Live config state.set active stop)
    (written : writeRecords crc env records state = (.ok range, after)) :
    ∃ file, after.set = { state.set with
      activeOffsets := state.set.activeOffsets ++ recordOffsets stop records
      activeWriter := { state.set.activeWriter with
        writer := ⟨file, stop + batchSize records, [], []⟩
        dirty := false
        writeOffset := stop + batchSize records
        flushedOffset := stop + batchSize records
        lastPosition := some (active.nextBase + records.length - 1) }
      nextPosition := active.nextBase + records.length - 1 + 1 } := by
  unfold writeRecords at written
  simp only [live.nextPosition_eq] at written
  cases result : Writer.writeBatch crc records (active.nextBase + records.length - 1)
      (state.set.activeWriter.withOutcomes env.batchIo) with
  | mk outcome writer =>
  unfold onWriter at written
  rw [result] at written
  cases outcome with
  | error error =>
      simp only [Except.mapError] at written
      split at written <;> simp at written
  | ok offsets =>
      simp only [Except.mapError] at written
      obtain ⟨_, rfl⟩ := Prod.mk.inj written
      have offsetsEq := (Writer.writeBatch_ok (clean_of_live live env.batchIo) result).1
      have offsetEq : (state.set.activeWriter.withOutcomes env.batchIo).writeOffset = stop :=
        live.writeOffset_eq
      rw [offsetEq] at offsetsEq
      refine ⟨writeAt active.file stop
        (batchBytes crc records (active.nextBase + records.length - 1)), ?_⟩
      simp only [writeBatch_live live result, offsetsEq]

end SegmentSet

namespace Tables

variable {config : SegmentConfig} {set : SegmentSet} {sealed : List Shelf} {active : Shelf}
  {stop : Nat}

theorem fresh (now : UInt64) (headerFits : segmentHeaderSize ≤ config.headerSize)
    (roomy : config.headerSize ≤ config.segmentSize) :
    Tables crc config
      ⟨config, [], firstPosition, [],
        (Writer.created (Shelf.fresh crc config now firstPosition).file config.segmentSize
          config.headerSize).setMaxRecord config.maxRecordLen, firstPosition⟩ []
      (.fresh crc config now firstPosition) config.headerSize :=
  ⟨.nil, .fresh now firstPosition headerFits roomy, rfl, rfl⟩

theorem prepared (tables : Tables crc config set sealed active stop) {env : AppendEnv}
    {records : List (List UInt8)} {sealed' : List Shelf} {active' : Shelf} {stop' : Nat}
    {dir : Directory} {after : LogState} (live : Live config set active stop)
    (headerFits : segmentHeaderSize ≤ config.headerSize)
    (roomy : config.headerSize ≤ config.segmentSize)
    (ready : Prepared crc config env records sealed active stop sealed' active' stop' after)
    (result : prepareBatch crc env records ⟨dir, set⟩ = (.ok (), after)) :
    Tables crc config after.set sealed' active' stop' := by
  have remaining := live.remainingBytes_eq
  have fits := ready.fits
  have stopLe := tables.active_tabled.stop_le
  rcases prepareBatch_cases crc env records ⟨dir, set⟩ with
    ⟨_, failed, _⟩ | ⟨_, inPlace, kept⟩ | ⟨_, full, rolled⟩
  · simp [failed] at result
  · obtain rfl : (⟨dir, set⟩ : LogState) = after := by simpa [kept] using result
    rcases ready.place with ⟨rfl, rfl, rfl⟩ | ⟨full, _⟩
    · exact tables
    · rw [remaining] at inPlace
      omega
  · rw [rolled] at result
    obtain ⟨file, setEq⟩ := rollover_ok live result
    rw [remaining] at full
    rcases ready.place with ⟨_, _, rfl⟩ | ⟨_, rfl, rfl, rfl⟩
    · omega
    · rw [setEq]
      refine ⟨List.rel_append tables.sealed_tabled (.cons ⟨stop, ?_⟩ .nil),
        .fresh env.now active.nextBase headerFits roomy, rfl, rfl⟩
      have tabled := tables.active_tabled
      rwa [SegmentSet.active, live.activeBase_eq, live.flushedOffset_eq] at tabled

theorem written (tables : Tables crc config set sealed active stop) {env : AppendEnv}
    {records : List (List UInt8)} {range : Nat × Nat} {dir : Directory} {after : LogState}
    (live : Live config set active stop) (nonempty : records ≠ [])
    (framable : Framable records) (fits : stop + batchSize records ≤ config.segmentSize)
    (result : writeRecords crc env records ⟨dir, set⟩ = (.ok range, after)) :
    Tables crc config after.set sealed (active.withBatch crc stop records)
      (stop + batchSize records) := by
  obtain ⟨file, setEq⟩ := writeRecords_set live result
  rw [setEq]
  refine ⟨tables.sealed_tabled, tables.active_tabled.withBatch framable fits, rfl, ?_⟩
  rw [Shelf.lastPosition, Shelf.records_withBatch, if_neg (by simp [nonempty]),
    List.length_append, ← Nat.add_assoc]
  rfl

end Tables

/-- A segment whose readers go to the end of its file. -/
def Segment.reopened (self : Segment) : Segment :=
  { self with flushedOffset := none }

theorem Tabled.reopened {config : SegmentConfig} {segment : Segment} {shelf : Shelf} {stop : Nat}
    (tabled : Tabled crc config segment shelf stop) :
    Tabled crc config segment.reopened shelf stop :=
  { tabled with flushed_eq := .inl rfl }

theorem Tables.reopened {config : SegmentConfig} {set : SegmentSet} {sealed : List Shelf}
    {active : Shelf} {stop : Nat} (tables : Tables crc config set sealed active stop) :
    Tables crc config { set with sealed := set.sealed.map Segment.reopened } sealed active
      stop where
  sealed_tabled := by
    rw [List.forall₂_map_left_iff]
    exact tables.sealed_tabled.imp fun _ _ ⟨stop, tabled⟩ => ⟨stop, tabled.reopened⟩
  active_tabled := tables.active_tabled
  dirty_eq := tables.dirty_eq
  lastPosition_eq := tables.lastPosition_eq

theorem Live.reopened {config : SegmentConfig} {set : SegmentSet} {active : Shelf} {stop : Nat}
    (live : Live config set active stop) :
    Live config { set with sealed := set.sealed.map Segment.reopened } active stop :=
  { live with }

theorem openSealed_tabled {config : SegmentConfig} (sizeFits : config.segmentSize ≤ u32Max)
    {segments : List Segment} {shelves : List Shelf}
    (tabled : List.Forall₂ (fun segment shelf => ∃ stop, Tabled crc config segment shelf stop)
      segments shelves) :
    ∀ {expected : Nat}, Contiguous expected shelves →
      openSealed crc config expected (shelves.map Shelf.entry) =
        .ok (segments.map Segment.reopened,
          expected + (shelves.flatMap Shelf.records).length) := by
  induction tabled with
  | nil => exact fun _ => rfl
  | @cons segment shelf segments shelves first _ ih =>
      rintro _ ⟨rfl, rest⟩
      obtain ⟨stop, first⟩ := first
      have later := ih rest
      rw [Shelf.nextBase] at later
      simp only [List.map_cons, Shelf.entry, openSealed, ne_eq, not_true_eq_false, if_false,
        first.scanOffsets_eq sizeFits (.inl rfl), later, List.flatMap_cons, List.length_append,
        first.length_offsets, Nat.add_assoc, Segment.reopened, first.base_eq]

/-- The writer of a live set is the one that a recovery of the active shelf makes. -/
theorem Tables.activeWriter_eq {config : SegmentConfig} {set : SegmentSet} {sealed : List Shelf}
    {active : Shelf} {stop : Nat} (tables : Tables crc config set sealed active stop)
    (live : Live config set active stop) :
    set.activeWriter = ⟨⟨active.file, stop, [], []⟩, config.segmentSize, config.headerSize, stop,
      stop, false, min config.maxRecordLen (recordHardLimit config.segmentSize config.headerSize),
      active.lastPosition⟩ := by
  have dirty := tables.dirty_eq
  have position := tables.lastPosition_eq
  obtain ⟨_, _, _, writer, size, start, maxRecord, offset, flushed⟩ := live
  cases writerEq : set.activeWriter
  simp only [writerEq] at dirty position writer size start maxRecord offset flushed
  simp only [dirty, position, writer, size, start, maxRecord, offset, flushed]

/-- Opening a running log again gives the same set, up to the extents of its sealed
segments, and leaves the files as they are. -/
theorem openSet_reopened {config : SegmentConfig} {dir : Directory} {set : SegmentSet}
    {sealed : List Shelf} {active : Shelf} {stop : Nat} (valid : config.validate = .ok ())
    (stored : Stored crc config dir sealed active stop) (live : Live config set active stop)
    (tables : Tables crc config set sealed active stop) (now : UInt64) :
    openSet crc config now dir =
      (.ok { set with sealed := set.sealed.map Segment.reopened }, dir) := by
  obtain ⟨roomy, sizeFits, _⟩ := SegmentConfig.validate_ok valid
  obtain ⟨sealedContiguous, activeBase⟩ := Contiguous.snoc_iff.mp stored.contiguous
  have sealedOpened := openSealed_tabled sizeFits tables.sealed_tabled sealedContiguous
  rw [← activeBase] at sealedOpened
  rw [openSet_eq_openActive valid stored sealedOpened now]
  have tabled := tables.active_tabled
  rw [openActive_stored stored.active_ok roomy (tabled.scanOffsets_eq sizeFits (.inr rfl))
    tabled.length_offsets]
  refine Prod.ext (congrArg Except.ok ?_) rfl
  have writerEq := tables.activeWriter_eq live
  rw [← writerEq, ← live.config_eq, ← live.activeBase_eq, ← live.nextPosition_eq]
  rfl

end Log

end Tephra
