import Tephra.BatchRuns
import Tephra.CrashHistory
import Tephra.LogReadings

/-!
# Opening a log with another configuration

Recovery walks the active file only within the segment size that it is given.  A log is
opened without a loss under the same header size exactly if the committed end of its
active file is within the new segment size; otherwise the batches that end behind it
are rolled back without an error.
-/

namespace Tephra

namespace Log

open ByteImage FrameChain Positions Seglog SegmentSet

variable (crc : List UInt8 → UInt32)

/-- The directory of a log as a configuration has written it: contiguous files with their
batches from the header size on, and behind them files whose creation did not finish.
The header of a file is not zeros, but it may be written over when the header size is
smaller than the header. -/
structure Written (config : SegmentConfig) (dir : Directory) (sealed : List Shelf)
    (active : Shelf) (stop : Nat) (unwritten : Directory) : Prop where
  files : Files crc dir (sealed ++ [active]) unwritten
  headed : ∀ shelf ∈ sealed ++ [active], classify crc shelf.entry ≠ .ok true
  small : ∀ shelf ∈ sealed, shelf.file.length ≤ u32Max
  contiguous : Contiguous firstPosition (sealed ++ [active])
  sealed_ok : ∀ shelf ∈ sealed, ReadsTo crc shelf.file config.headerSize shelf.records ∧
    shelf.records ≠ []
  laid : active.Laid crc config.headerSize stop
  clear : Unmarked (recordAt crc active.file active.file.length) IsMarker stop

/-- Opening fails, or recovers some records at their positions. -/
def Keeps (config : SegmentConfig) (now : UInt64) (dir : Directory)
    (records : List (List UInt8)) : Prop :=
  ∀ set after, openSet crc config now dir = (.ok set, after) →
    readLog crc ⟨after, set⟩ = .ok (positioned firstPosition records)

/-- The files of shelves read as no other records. -/
def ReadsAlike (config : SegmentConfig) (sealed : List Shelf) (active : Shelf) : Prop :=
  ∀ read last, (read ++ [last]).map Shelf.entry = (sealed ++ [active]).map Shelf.entry →
    ReadAs crc config read last → storedRecords read last = storedRecords sealed active

/-- When a log is opened with another configuration without a loss. -/
def Compatible (config other : SegmentConfig) (sealed : List Shelf) (active : Shelf)
    (stop : Nat) : Prop :=
  (∃ shelf ∈ sealed ++ [active], ¬ shelf.HasHeader crc) ∨
    (other.headerSize = config.headerSize ∧ stop ≤ other.segmentSize) ∨
    (other.headerSize ≠ config.headerSize ∧ ReadsAlike crc other sealed active)

variable {crc} {config other : SegmentConfig} {dir unwritten : Directory} {sealed : List Shelf}
  {active : Shelf} {stop : Nat}

theorem Written.ascending (written : Written crc config dir sealed active stop unwritten) :
    (sealed ++ [active]).Pairwise fun first second => first.base < second.base :=
  (written.contiguous.bases fun shelf member => (written.sealed_ok shelf member).2).1

theorem Written.keeps_of_header (written : Written crc config dir sealed active stop unwritten)
    {shelf : Shelf} (member : shelf ∈ sealed ++ [active]) (lost : ¬ shelf.HasHeader crc)
    (now : UInt64) (records : List (List UInt8)) : Keeps crc other now dir records := by
  intro set after opened
  have inside : shelf.entry ∈ dir.sorted := by
    rw [written.files.sorted_eq]
    exact List.mem_append_left _ (List.mem_map_of_mem member)
  cases found : classify crc shelf.entry with
  | ok creating =>
      cases creating with
      | false => exact absurd (Shelf.hasHeader_iff.mpr found) lost
      | true => exact absurd found (written.headed shelf member)
  | error error =>
      obtain ⟨first, failed⟩ := classifyAll_error inside found
      unfold openSet at opened
      simp only [failed] at opened
      split at opened <;> cases opened

theorem Written.opens (written : Written crc config dir sealed active stop unwritten)
    (valid : other.validate = .ok ())
    (headers : ∀ shelf ∈ sealed ++ [active], shelf.HasHeader crc) {read : List Shelf}
    {last : Shelf}
    (filesEq : (read ++ [last]).map Shelf.entry = (sealed ++ [active]).map Shelf.entry)
    (readAs : ReadAs crc other read last) (now : UInt64) :
    ∃ set after, openSet crc other now dir = (.ok set, after) ∧
      readLog crc ⟨after, set⟩ = .ok (positioned firstPosition (storedRecords read last)) := by
  have files : Files crc dir (read ++ [last]) unwritten :=
    ⟨filesEq ▸ written.files.sorted_eq, written.files.creating⟩
  have readHeaders : ∀ shelf ∈ read ++ [last], shelf.HasHeader crc := by
    intro shelf member
    have found : shelf.entry ∈ (sealed ++ [active]).map Shelf.entry := by
      rw [← filesEq]
      exact List.mem_map_of_mem member
    obtain ⟨twin, twinMember, entryEq⟩ := List.mem_map.mp found
    rw [Shelf.hasHeader_iff, ← entryEq, ← Shelf.hasHeader_iff]
    exact headers twin twinMember
  have readSmall : ∀ shelf ∈ read, shelf.file.length ≤ u32Max := by
    rw [List.map_append, List.map_append] at filesEq
    obtain ⟨frontEq, -⟩ := List.append_inj' filesEq rfl
    intro shelf member
    have found : shelf.entry ∈ sealed.map Shelf.entry := by
      rw [← frontEq]
      exact List.mem_map_of_mem member
    obtain ⟨twin, twinMember, entryEq⟩ := List.mem_map.mp found
    have fileEq : twin.file = shelf.file := congrArg Prod.snd entryEq
    rw [← fileEq]
    exact written.small twin twinMember
  obtain ⟨set, opened, yields⟩ := readAs.opens valid files readHeaders readSmall now
  exact ⟨set, _, opened, yields⟩

/-- With every header in place, a log is opened without a loss exactly if its files read
as no other records. -/
theorem Written.keeps_iff (written : Written crc config dir sealed active stop unwritten)
    (valid : other.validate = .ok ())
    (headers : ∀ shelf ∈ sealed ++ [active], shelf.HasHeader crc) (now : UInt64) :
    Keeps crc other now dir (storedRecords sealed active) ↔ ReadsAlike crc other sealed active := by
  constructor
  · intro keeps read last filesEq readAs
    obtain ⟨set, after, opened, yields⟩ := written.opens valid headers filesEq readAs now
    rw [keeps set after opened] at yields
    exact (positioned_injective (Except.ok.inj yields)).symm
  · intro alike set after opened
    obtain ⟨read, last, filesEq, readAs⟩ :=
      readAs_of_openSet valid written.files headers written.ascending opened
    obtain ⟨found, place, reopened, yields⟩ := written.opens valid headers filesEq readAs now
    rw [opened] at reopened
    cases reopened
    rw [yields, alike read last filesEq readAs]

/-- Under the same header size the files read as the first batches of the log: as all of
them exactly if the active file ends within the segment size. -/
theorem Written.readsAlike_iff (written : Written crc config dir sealed active stop unwritten)
    (valid : other.validate = .ok ()) (same : other.headerSize = config.headerSize)
    (headers : ∀ shelf ∈ sealed ++ [active], shelf.HasHeader crc) :
    ReadsAlike crc other sealed active ↔ stop ≤ other.segmentSize := by
  obtain ⟨roomy, -, -⟩ := SegmentConfig.validate_ok valid
  rw [same] at roomy
  obtain ⟨count, entries, middle, longest, payloadsEq, counts, whole, cut⟩ :=
    written.laid.markedPrefix written.clear (Nat.le_of_lt roomy)
  obtain ⟨front, activeBase⟩ := Contiguous.snoc_iff.mp written.contiguous
  rw [← same] at longest
  -- The reading that recovery finds: the sealed files whole, and the first batches.
  have reading : ReadAs crc other sealed ⟨active.base, active.file, active.batches.take count⟩ := by
    refine ⟨Contiguous.snoc_iff.mpr ⟨front, activeBase⟩, ?_, entries, middle, longest, payloadsEq, ?_⟩
    · rw [same]
      exact written.sealed_ok
    · intro highest found
      rw [counts highest found, payloadsEq]
      rfl
  have filesEq : (sealed ++ [(⟨active.base, active.file, active.batches.take count⟩ : Shelf)]).map
      Shelf.entry = (sealed ++ [active]).map Shelf.entry := by
    rw [List.map_append, List.map_append]
    rfl
  have recordsEq (batches : List (List (List UInt8))) :
      storedRecords sealed ⟨active.base, active.file, batches⟩ =
        sealed.flatMap Shelf.records ++ batches.flatten := by
    rw [storedRecords, List.flatMap_append]
    simp [Shelf.records]
  constructor
  · intro alike
    by_contra behind
    have short := cut (by omega)
    have equal := alike _ _ filesEq reading
    have activeEq : storedRecords sealed active =
        sealed.flatMap Shelf.records ++ active.batches.flatten := recordsEq active.batches
    rw [recordsEq, activeEq] at equal
    have lost := congrArg List.length (List.append_cancel_left equal)
    rw [← List.take_append_drop count active.batches, List.flatten_append, List.length_append]
      at lost
    rw [List.take_append_drop] at lost
    have missing : (active.batches.drop count).flatten ≠ [] := by
      rw [List.drop_eq_getElem_cons short, List.flatten_cons]
      have nonempty := written.laid.nonempty _ (List.getElem_mem short)
      simp [nonempty]
    have positive := List.length_pos_of_ne_nil missing
    omega
  · intro fits read last readEq readAs
    have all : active.batches.take count = active.batches := by
      rw [whole fits, List.take_length]
    rw [all] at reading
    -- Both readings are what opening yields.
    obtain ⟨set, after, opened, yields⟩ := written.opens valid headers rfl reading 0
    obtain ⟨found, place, reopened, others⟩ := written.opens valid headers readEq readAs 0
    rw [opened] at reopened
    cases reopened
    rw [yields] at others
    exact (positioned_injective (Except.ok.inj others)).symm

/-- A log is opened with another configuration without a loss exactly if the condition
holds. -/
theorem keeps_iff_compatible (written : Written crc config dir sealed active stop unwritten)
    (valid : other.validate = .ok ()) (now : UInt64) :
    Keeps crc other now dir (storedRecords sealed active) ↔
      Compatible crc config other sealed active stop := by
  by_cases headers : ∀ shelf ∈ sealed ++ [active], shelf.HasHeader crc
  · have kept : ¬ ∃ shelf ∈ sealed ++ [active], ¬ shelf.HasHeader crc := by
      rintro ⟨shelf, member, lost⟩
      exact lost (headers shelf member)
    rw [written.keeps_iff valid headers now]
    by_cases same : other.headerSize = config.headerSize
    · rw [written.readsAlike_iff valid same headers]
      simp only [Compatible, kept, same, true_and, false_or, ne_eq, not_true_eq_false, false_and,
        or_false]
    · simp only [Compatible, kept, same, false_and, false_or, ne_eq, not_false_eq_true, true_and]
  · obtain ⟨shelf, member, lost⟩ : ∃ shelf ∈ sealed ++ [active], ¬ shelf.HasHeader crc := by
      by_contra none
      apply headers
      intro shelf member
      by_contra lost
      exact none ⟨shelf, member, lost⟩
    constructor
    · exact fun _ => Or.inl ⟨shelf, member, lost⟩
    · exact fun _ => written.keeps_of_header member lost now _

/-- The active file of a log of one batch. -/
def oneBatch : Shelf :=
  (Shelf.fresh crc32 smallConfig 0 firstPosition).withBatch crc32 64 [[1, 2, 3, 4]]

theorem written_oneBatch : Written crc32 smallConfig [oneBatch.entry] [] oneBatch 93 [] := by
  have laid : Shelf.Laid crc32 64 oneBatch 93 := by
    have fresh := @Shelf.laid_fresh crc32 smallConfig 0 firstPosition (by decide) (by decide)
      (by decide)
    have inside : 64 ≤ (Shelf.fresh crc32 smallConfig 0 firstPosition).file.length := by
      decide +kernel
    have framable : Framable [[1, 2, 3, 4]] := by
      simp [Framable, maxRecordLen, lengthMask]
    exact fresh.extend (by simp) framable (by decide)
      (agreeOn_writeAt_before (Nat.le_refl _) inside 0).symm (readExact_writeAt_self _ inside)
  constructor
  · exact ⟨by rfl, by simp⟩
  · intro shelf member
    rw [List.mem_singleton.mp member]
    decide +kernel
  · simp
  · exact ⟨rfl, trivial⟩
  · simp
  · exact laid
  · have sized : oneBatch.file.length = smallConfig.segmentSize := by decide +kernel
    rw [sized]
    exact Shelf.clear_fresh 0 firstPosition (by decide) (by decide) [[1, 2, 3, 4]]

/-- A segment size that still holds the batch keeps it, a smaller one rolls it back. -/
theorem keeps_oneBatch_iff :
    Keeps crc32 ⟨100, 19, 64⟩ 0 [oneBatch.entry] (storedRecords [] oneBatch) ∧
      ¬ Keeps crc32 ⟨92, 8, 64⟩ 0 [oneBatch.entry] (storedRecords [] oneBatch) := by
  have header : oneBatch.HasHeader crc32 := by
    rw [Shelf.hasHeader_iff]
    decide +kernel
  constructor
  · rw [keeps_iff_compatible written_oneBatch (by decide) 0]
    exact Or.inr (Or.inl (by decide))
  · rw [keeps_iff_compatible written_oneBatch (by decide) 0]
    rintro (⟨shelf, member, lost⟩ | ⟨-, fits⟩ | ⟨other, -⟩)
    · rw [List.mem_singleton.mp member] at lost
      exact lost header
    · exact absurd fits (by decide)
    · exact other rfl

/-- A batch is appended and committed, and a smaller segment size rolls it back without an
error. -/
theorem smaller_segment_drops_batch :
    smallConfig.validate = .ok () ∧ SegmentConfig.validate ⟨92, 8, 64⟩ = .ok () ∧
      ∃ world, Histories.run (CrashHistory.step crc32 smallConfig) .initial
          [.reopen 0, .append 0 [[1, 2, 3, 4]]] = some world ∧
        world.committed.flatten = [[1, 2, 3, 4]] ∧
        ∃ set after, openSet crc32 ⟨92, 8, 64⟩ 0 world.dir = (.ok set, after) ∧
          readLog crc32 ⟨after, set⟩ = .ok [] := by
  refine ⟨by decide, by decide, ?_⟩
  have lost : (Histories.run (CrashHistory.step crc32 smallConfig) .initial
      [.reopen 0, .append 0 [[1, 2, 3, 4]]]).any (fun world =>
        decide (world.committed.flatten = [[1, 2, 3, 4]]) &&
          (openSet crc32 ⟨92, 8, 64⟩ 0 world.dir).1.toOption.any fun set => decide
            (readLog crc32 ⟨(openSet crc32 ⟨92, 8, 64⟩ 0 world.dir).2, set⟩ = .ok [])) =
        true := by
    decide +kernel
  obtain ⟨world, reached, lost⟩ := (Option.any_eq_true _ _).mp lost
  obtain ⟨committed, lost⟩ := Bool.and_eq_true_iff.mp lost
  refine ⟨world, reached, of_decide_eq_true committed, ?_⟩
  rcases opened : openSet crc32 ⟨92, 8, 64⟩ 0 world.dir with ⟨error | set, after⟩
  · simp [opened, Except.toOption] at lost
  · exact ⟨set, after, rfl, by simpa [opened, Except.toOption] using lost⟩

end Log

end Tephra
