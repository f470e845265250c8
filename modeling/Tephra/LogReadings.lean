import Tephra.LogShelves
import Tephra.ScanFaults

/-!
# Readings of a directory

Opened with some configuration, the files of a directory are read from the header size
of that configuration on.  A reading says which log they are then: every sealed file is
read up to its end, and the active one up to its last marker within the segment size.
Opening succeeds exactly if there is a reading, and yields its records.
-/

namespace Tephra

namespace Log

open ByteImage FrameChain Positions Seglog SegmentSet

variable (crc : List UInt8 → UInt32)

/-- From an offset on a file reads as some records, up to its end. -/
def ReadsTo (file : List UInt8) (headerSize : Nat) (records : List (List UInt8)) : Prop :=
  ∃ entries stop, Chain (recordAt crc file file.length) headerSize entries stop ∧
    QuietAt file file.length stop ∧ payloads entries = records

/-- Read with a configuration, shelves are a contiguous log.  The last marker of the
active one counts its records. -/
structure ReadAs (config : SegmentConfig) (sealed : List Shelf) (active : Shelf) : Prop where
  contiguous : Contiguous firstPosition (sealed ++ [active])
  sealed_ok : ∀ shelf ∈ sealed, ReadsTo crc shelf.file config.headerSize shelf.records ∧
    shelf.records ≠ []
  recovered : ∃ entries stop,
    MarkedPrefix (recordAt crc active.file config.segmentSize) IsMarker config.headerSize
      entries stop ∧
    payloads entries = active.records ∧
    ∀ highest, lastMarkerPosition entries = some highest → highest + 1 = active.nextBase

/-- The files of a directory, sorted: those of some shelves, and behind them files whose
creation did not finish. -/
structure Files (dir : Directory) (shelves : List Shelf) (unwritten : Directory) : Prop where
  sorted_eq : dir.sorted = shelves.map Shelf.entry ++ unwritten
  creating : ∀ entry ∈ unwritten, classify crc entry = .ok true

variable {crc}

theorem positioned_injective {base : Nat} {left right : List (List UInt8)}
    (same : positioned base left = positioned base right) : left = right := by
  have back (items : List (List UInt8)) : (positioned base items).map Prod.snd = items := by
    simp [positioned, Function.comp_def]
  rw [← back left, same, back right]

theorem Shelf.hasHeader_iff {shelf : Shelf} :
    shelf.HasHeader crc ↔ classify crc shelf.entry = .ok false := by
  constructor
  · exact classify_eq_written
  · intro written
    unfold classify at written
    cases read : readHeader shelf.entry.2 with
    | none => simp [read] at written
    | some buf =>
        simp only [read] at written
        cases parsed : SegmentHeader.fromBytes crc buf with
        | ok header =>
            simp only [parsed] at written
            split at written
            · cases written
            · rename_i same
              exact ⟨buf, header, read, parsed, by simpa [Shelf.entry] using same⟩
        | error source =>
            simp only [parsed] at written
            cases source <;> simp at written

theorem classifyAll_error {dir : Directory} {entry : Nat × List UInt8} {error : LogError}
    (member : entry ∈ dir) (refused : classify crc entry = .error error) :
    ∃ first, classifyAll crc dir = .error first := by
  induction dir with
  | nil => cases member
  | cons other dir ih =>
      cases here : classify crc other with
      | error first => exact ⟨first, by simp only [classifyAll, here]⟩
      | ok unwritten =>
          rcases List.mem_cons.mp member with rfl | later
          · rw [here] at refused
            cases refused
          · obtain ⟨first, failed⟩ := ih later
            exact ⟨first, by simp only [classifyAll, here, failed]⟩

theorem classifyAll_append {left right : Directory}
    {first second : List ((Nat × List UInt8) × Bool)} (leftEq : classifyAll crc left = .ok first)
    (rightEq : classifyAll crc right = .ok second) :
    classifyAll crc (left ++ right) = .ok (first ++ second) := by
  induction left generalizing first with
  | nil =>
      cases leftEq
      exact rightEq
  | cons entry left ih =>
      simp only [List.cons_append, classifyAll] at leftEq ⊢
      cases here : classify crc entry with
      | error error => simp [here] at leftEq
      | ok unwritten =>
          cases rest : classifyAll crc left with
          | error error => simp [here, rest] at leftEq
          | ok later =>
              simp only [here, rest, Except.ok.injEq] at leftEq
              subst leftEq
              simp only [ih rest, List.cons_append]

theorem classifyAll_creating {dir : Directory}
    (creating : ∀ entry ∈ dir, classify crc entry = .ok true) :
    classifyAll crc dir = .ok (dir.map fun entry => (entry, true)) := by
  induction dir with
  | nil => rfl
  | cons entry dir ih =>
      have rest := ih fun other member => creating other (by simp [member])
      simp only [classifyAll, creating entry (by simp), rest, List.map_cons]

/-- The trailing run of files that were never written is dropped. -/
theorem keepWritten_creating (dir unwritten : Directory) :
    keepWritten ((dir.map fun entry => (entry, false)) ++
      unwritten.map fun entry => (entry, true)) = .ok dir := by
  have dropped (list : List ((Nat × List UInt8) × Bool)) :
      (list ++ unwritten.map fun entry => (entry, true)).rdropWhile (fun entry => entry.2) =
        list.rdropWhile fun entry => entry.2 := by
    rw [List.rdropWhile, List.reverse_append, List.dropWhile_append_of_pos, List.rdropWhile]
    simp
  have kept := keepWritten_eq_self dir
  unfold keepWritten at kept ⊢
  rw [dropped]
  exact kept

/-- With every header in place, opening comes down to the sealed files and the recovery of
the active one. -/
theorem openSet_of_headers {config : SegmentConfig} {dir unwritten : Directory}
    {sealed : List Shelf} {active : Shelf} (valid : config.validate = .ok ())
    (files : Files crc dir (sealed ++ [active]) unwritten)
    (headers : ∀ shelf ∈ sealed ++ [active], shelf.HasHeader crc) (now : UInt64) :
    (∀ error, openSealed crc config firstPosition (sealed.map Shelf.entry) = .error error →
      openSet crc config now dir = (.error error, (sealed ++ [active]).map Shelf.entry)) ∧
    ∀ segments expected,
      openSealed crc config firstPosition (sealed.map Shelf.entry) = .ok (segments, expected) →
      openSet crc config now dir =
        (openActive crc config segments expected active.base active.file,
          (sealed ++ [active]).map Shelf.entry) := by
  have classified := classifyAll_append (classifyAll_eq_written headers)
    (classifyAll_creating files.creating)
  have lastEq : ((sealed ++ [active]).map Shelf.entry).getLast? = some active.entry := by simp
  have frontEq : ((sealed ++ [active]).map Shelf.entry).dropLast = sealed.map Shelf.entry := by
    simp
  constructor
  · intro error failed
    rw [openSet, valid]
    simp only [files.sorted_eq, classified, keepWritten_creating, lastEq, frontEq, failed]
  · intro segments expected opened
    rw [openSet, valid]
    simp only [files.sorted_eq, classified, keepWritten_creating, lastEq, frontEq, opened]
    rfl

theorem openSealed_congr {config other : SegmentConfig}
    (same : config.headerSize = other.headerSize) (dir : Directory) (expected : Nat) :
    openSealed crc config expected dir = openSealed crc other expected dir := by
  induction dir generalizing expected with
  | nil => rfl
  | cons entry dir ih => simp only [openSealed, same, ih]

/-- A configuration whose segments are as large as they can be. -/
def SegmentConfig.widest (self : SegmentConfig) : SegmentConfig :=
  { self with segmentSize := u32Max }

theorem ReadsTo.toSealed {config : SegmentConfig} {shelf : Shelf}
    (reads : ReadsTo crc shelf.file config.headerSize shelf.records) (header : shelf.HasHeader crc)
    (small : shelf.file.length ≤ u32Max) (nonempty : shelf.records ≠ []) :
    shelf.Sealed crc config.widest := by
  obtain ⟨entries, stop, chain, quiet, payloadsEq⟩ := reads
  have stopLe : stop ≤ u32Max := by
    rcases chain.stop_le (recordAt_advances shelf.file shelf.file.length) with same | inside
    · have grows := chain.le (recordAt_advances shelf.file shelf.file.length)
      have empty : entries = [] := List.eq_nil_of_length_eq_zero (by omega)
      rw [empty] at payloadsEq
      exact absurd payloadsEq.symm nonempty
    · exact inside.trans small
  exact ⟨header, ⟨entries, stop, stopLe, chain, payloadsEq, [], stop, .nil stop, by simp, quiet⟩,
    nonempty⟩

theorem readsTo_of_scanOffsets {file : List UInt8} {headerSize : Nat} {offsets : List Nat}
    (scanned : scanOffsets crc file none headerSize = .ok offsets) :
    ∃ records, ReadsTo crc file headerSize records ∧ records.length = offsets.length := by
  unfold scanOffsets at scanned
  split at scanned
  · cases scanned
  · rename_i records iterated
    obtain ⟨entries, stop, chain, quiet, rfl⟩ :=
      Reader.chain_of_iterate (Reader.reads_openSegment file none) (Nat.le_refl _) iterated
    refine ⟨payloads entries, ⟨entries, stop, chain, quiet, rfl⟩, ?_⟩
    split at scanned
    · cases scanned
      simp [payloads]
    · cases scanned

theorem shelves_of_openSealed {config : SegmentConfig} {shelves : List Shelf}
    {expected next : Nat} {segments : List Segment}
    (opened : openSealed crc config expected (shelves.map Shelf.entry) = .ok (segments, next)) :
    ∃ read : List Shelf, read.map Shelf.entry = shelves.map Shelf.entry ∧
      Contiguous expected read ∧ next = expected + (read.flatMap Shelf.records).length ∧
      ∀ shelf ∈ read, ReadsTo crc shelf.file config.headerSize shelf.records := by
  induction shelves generalizing expected segments with
  | nil =>
      cases opened
      exact ⟨[], rfl, trivial, rfl, by simp⟩
  | cons shelf shelves ih =>
      simp only [List.map_cons, Shelf.entry, openSealed] at opened
      split at opened
      · cases opened
      · rename_i here
        rw [ne_eq, not_not] at here
        cases scanned : scanOffsets crc shelf.file none config.headerSize with
        | error fault => simp [scanned] at opened
        | ok offsets =>
            obtain ⟨records, reads, counted⟩ := readsTo_of_scanOffsets scanned
            simp only [scanned] at opened
            split at opened
            · cases opened
            · rename_i rest restEq
              cases opened
              obtain ⟨read, filesEq, contiguous, nextEq, readOk⟩ := ih restEq
              have recordsEq : Shelf.records ⟨shelf.base, shelf.file, [records]⟩ = records := by
                simp [Shelf.records]
              refine ⟨⟨shelf.base, shelf.file, [records]⟩ :: read, ?_, ⟨here, ?_⟩, ?_, ?_⟩
              · simp [Shelf.entry, filesEq]
              · rw [Shelf.nextBase, recordsEq, counted]
                exact contiguous
              · rw [nextEq, List.flatMap_cons, List.length_append, recordsEq, counted, here]
                omega
              · intro other member
                rcases List.mem_cons.mp member with rfl | later
                · rw [recordsEq]
                  exact reads
                · exact readOk other later

theorem Contiguous.nonempty_of_ascending {expected : Nat} {shelves : List Shelf} {active : Shelf}
    (contiguous : Contiguous expected (shelves ++ [active]))
    (ascending : (shelves ++ [active]).Pairwise fun first second => first.base < second.base) :
    ∀ shelf ∈ shelves, shelf.records ≠ [] := by
  induction shelves generalizing expected with
  | nil => simp
  | cons shelf shelves ih =>
      obtain ⟨rfl, rest⟩ := contiguous
      obtain ⟨below, ascending⟩ := List.pairwise_cons.mp ascending
      intro other member
      rcases List.mem_cons.mp member with rfl | later
      · intro empty
        have first : ∃ next ∈ shelves ++ [active], next.base = other.nextBase := by
          cases shelves with
          | nil => exact ⟨active, by simp, rest.1⟩
          | cons next shelves => exact ⟨next, by simp, rest.1⟩
        obtain ⟨next, nextMember, nextEq⟩ := first
        have less := below next nextMember
        rw [nextEq, Shelf.nextBase, empty] at less
        simp at less
      · exact ih rest ascending other later

/-- The active file is opened at its marked prefix, if the last marker counts the records. -/
theorem openActive_of_markedPrefix {config : SegmentConfig} {active : Shelf} {stop : Nat}
    {entries : List (Nat × Frame)} (valid : config.validate = .ok ())
    (longest : MarkedPrefix (recordAt crc active.file config.segmentSize) IsMarker
      config.headerSize entries stop)
    (payloadsEq : payloads entries = active.records)
    (agrees : ∀ highest, lastMarkerPosition entries = some highest →
      highest + 1 = active.nextBase) (segments : List Segment) :
    ∃ set, openActive crc config segments active.base active.base active.file = .ok set ∧
      set.config = config ∧ set.sealed = segments ∧ set.activeBase = active.base ∧
      set.activeWriter.flushedOffset = stop := by
  obtain ⟨roomy, sizeFits, -⟩ := SegmentConfig.validate_ok valid
  have recovered := recover_eq longest
  have stopLe : stop ≤ u32Max := by
    rcases longest.chain.stop_le (recordAt_advances active.file config.segmentSize) with same | fits
    · omega
    · omega
  have iterated := iterate_committed 0 (Reader.reads_openSegment active.file (some stop))
    longest.chain fun _ _ => Nat.zero_le _
  have scanned := scanOffsets_of_iterate iterated (dataRecords_offset_le longest.chain stopLe)
  have counted : ((dataRecords entries).map Prod.fst).length = active.records.length := by
    rw [← payloadsEq]
    simp [payloads]
  have agreed : (lastMarkerPosition entries).any
      (fun highest => highest + 1 != active.base + active.records.length) = false := by
    cases here : lastMarkerPosition entries with
    | none => rfl
    | some highest => simpa [Shelf.nextBase] using agrees highest here
  refine ⟨⟨config, segments, active.base, (dataRecords entries).map Prod.fst,
    ⟨⟨active.file, stop, [], []⟩, config.segmentSize, config.headerSize, stop, stop, false,
      min config.maxRecordLen (recordHardLimit config.segmentSize config.headerSize),
      lastMarkerPosition entries⟩, active.nextBase⟩, ?_, rfl, rfl, rfl, rfl⟩
  simp only [openActive, ne_eq, not_true_eq_false, if_false, Writer.openSegment,
    Nat.not_le.mpr roomy, recovered, Writer.setMaxRecord, scanned, counted, agreed,
    Bool.false_eq_true, Shelf.nextBase]

/-- An active file that is opened has a marked prefix whose last marker counts its records. -/
theorem markedPrefix_of_openActive {config : SegmentConfig} {segments : List Segment}
    {expected base : Nat} {file : List UInt8} {set : SegmentSet}
    (valid : config.validate = .ok ())
    (opened : openActive crc config segments expected base file = .ok set) :
    base = expected ∧ ∃ entries stop,
      MarkedPrefix (recordAt crc file config.segmentSize) IsMarker config.headerSize entries stop ∧
      ∀ highest, lastMarkerPosition entries = some highest →
        highest + 1 = base + (payloads entries).length := by
  obtain ⟨roomy, sizeFits, -⟩ := SegmentConfig.validate_ok valid
  obtain ⟨entries, longest, position⟩ :=
    recover_spec crc file config.segmentSize config.headerSize
  have scanned := scanOffsets_committed longest sizeFits
  unfold openActive at opened
  split at opened
  · cases opened
  · rename_i here
    refine ⟨by simpa using here, entries, _, longest, ?_⟩
    simp only [Writer.openSegment, Nat.not_le.mpr roomy, if_false, Writer.setMaxRecord,
      scanned, position, List.length_map] at opened
    split at opened
    · cases opened
    · rename_i agreed
      intro highest last
      rw [last] at agreed
      simpa [payloads] using agreed

/-- A directory with a reading is opened, and yields the records of the reading. -/
theorem ReadAs.opens {config : SegmentConfig} {dir unwritten : Directory} {sealed : List Shelf}
    {active : Shelf} (readAs : ReadAs crc config sealed active) (valid : config.validate = .ok ())
    (files : Files crc dir (sealed ++ [active]) unwritten)
    (headers : ∀ shelf ∈ sealed ++ [active], shelf.HasHeader crc)
    (small : ∀ shelf ∈ sealed, shelf.file.length ≤ u32Max) (now : UInt64) :
    ∃ set, openSet crc config now dir = (.ok set, (sealed ++ [active]).map Shelf.entry) ∧
      readLog crc ⟨(sealed ++ [active]).map Shelf.entry, set⟩ =
        .ok (positioned firstPosition (storedRecords sealed active)) := by
  obtain ⟨front, activeBase⟩ := Contiguous.snoc_iff.mp readAs.contiguous
  have sealedOk : ∀ shelf ∈ sealed, shelf.Sealed crc config.widest := by
    intro shelf member
    obtain ⟨reads, nonempty⟩ := readAs.sealed_ok shelf member
    exact reads.toSealed (headers shelf (by simp [member])) (small shelf member) nonempty
  have ascending :=
    (readAs.contiguous.bases fun shelf member => (readAs.sealed_ok shelf member).2).1
  obtain ⟨segments, sealedOpened, shapes⟩ := openSealed_eq (Nat.le_refl _) front sealedOk
  rw [← activeBase, openSealed_congr (show config.widest.headerSize = config.headerSize from rfl)]
    at sealedOpened
  obtain ⟨entries, stop, longest, payloadsEq, agrees⟩ := readAs.recovered
  obtain ⟨set, activeOpened, configEq, sealedEq, baseEq, flushedEq⟩ :=
    openActive_of_markedPrefix valid longest payloadsEq agrees segments
  have reads : ∀ shelf ∈ sealed ++ [active],
      Directory.read ((sealed ++ [active]).map Shelf.entry) shelf.base = shelf.file :=
    fun shelf member => Directory.read_entry ascending member
  refine ⟨set, ?_, ?_⟩
  · rw [(openSet_of_headers valid files headers now).2 segments active.base sealedOpened,
      activeOpened]
  · have sealedRead : readSegments crc ((sealed ++ [active]).map Shelf.entry) config.headerSize
        segments = .ok (positioned firstPosition (sealed.flatMap Shelf.records)) :=
      @readSegments_sealed crc config.widest (Nat.le_refl _) _ sealed firstPosition segments front
        sealedOk (fun shelf member => reads shelf (by simp [member])) shapes
    have iterated := iterate_committed 0 (Reader.reads_openSegment active.file (some stop))
      longest.chain fun _ _ => Nat.zero_le _
    rw [← flushedEq] at iterated
    have here := readSegment_eq set.active baseEq (reads active (by simp)) iterated
    have activeRead : readSegments crc ((sealed ++ [active]).map Shelf.entry) config.headerSize
        [set.active] = .ok (positioned active.base active.records) := by
      rw [← payloadsEq]
      simp only [readSegments, here, payloads, List.append_nil]
    rw [readLog, configEq, sealedEq, readSegments_append sealedRead activeRead, storedRecords,
      List.flatMap_append, positioned_append, ← activeBase]
    simp

theorem readAs_of_openSet {config : SegmentConfig} {dir unwritten after : Directory}
    {sealed : List Shelf} {active : Shelf} {set : SegmentSet} {now : UInt64}
    (valid : config.validate = .ok ())
    (files : Files crc dir (sealed ++ [active]) unwritten)
    (headers : ∀ shelf ∈ sealed ++ [active], shelf.HasHeader crc)
    (ascending : (sealed ++ [active]).Pairwise fun first second => first.base < second.base)
    (opened : openSet crc config now dir = (.ok set, after)) :
    ∃ read last, (read ++ [last]).map Shelf.entry = (sealed ++ [active]).map Shelf.entry ∧
      ReadAs crc config read last := by
  obtain ⟨refuses, opens⟩ := openSet_of_headers valid files headers now
  cases sealedOpened : openSealed crc config firstPosition (sealed.map Shelf.entry) with
  | error error =>
      rw [refuses error sealedOpened] at opened
      cases opened
  | ok found =>
      obtain ⟨segments, expected⟩ := found
      rw [opens segments expected sealedOpened] at opened
      obtain ⟨activeOpened, -⟩ := Prod.mk.inj opened
      obtain ⟨read, readEq, contiguous, rfl, readOk⟩ := shelves_of_openSealed sealedOpened
      obtain ⟨baseEq, entries, stop, longest, agrees⟩ :=
        markedPrefix_of_openActive valid activeOpened
      let last : Shelf := ⟨active.base, active.file, [payloads entries]⟩
      have filesEq : (read ++ [last]).map Shelf.entry = (sealed ++ [active]).map Shelf.entry := by
        rw [List.map_append, readEq, List.map_append]
        rfl
      have whole : Contiguous firstPosition (read ++ [last]) :=
        Contiguous.snoc_iff.mpr ⟨contiguous, baseEq⟩
      have rising : (read ++ [last]).Pairwise fun first second => first.base < second.base := by
        have bases := congrArg (List.map Prod.fst) filesEq
        rw [List.map_map, List.map_map] at bases
        have rises : ((sealed ++ [active]).map Shelf.base).Pairwise (· < ·) :=
          List.pairwise_map.mpr ascending
        have same : (read ++ [last]).map Shelf.base = (sealed ++ [active]).map Shelf.base := bases
        rw [← same] at rises
        exact List.pairwise_map.mp rises
      refine ⟨read, last, filesEq, whole, ?_, entries, stop, longest, ?_, ?_⟩
      · intro shelf member
        exact ⟨readOk shelf member, whole.nonempty_of_ascending rising shelf member⟩
      · simp [last, Shelf.records]
      · intro highest found
        rw [agrees highest found]
        simp [last, Shelf.nextBase, Shelf.records]

end Log

end Tephra
