import Tephra.ChangedConfig

/-!
# The logs of histories

The directory of a log after a history of appends, crashes and reopens is as its
configuration has written it: the batches stand one behind the other, with their markers.
-/

namespace Tephra

namespace Log

open ByteImage FrameChain Fallible Positions Seglog SegmentSet

variable {crc : List UInt8 → UInt32} {config : SegmentConfig}

/-- What a stored log has besides: its batches laid, and files of the segment size. -/
structure Exact (crc : List UInt8 → UInt32) (config : SegmentConfig) (sealed : List Shelf)
    (active : Shelf) (stop : Nat) : Prop where
  laid : active.Laid crc config.headerSize stop
  sized : ∀ shelf ∈ sealed ++ [active], shelf.file.length = config.segmentSize

/-- A stored log that is exact is as its configuration has written it. -/
theorem Exact.written {dir : Directory} {sealed : List Shelf} {active : Shelf} {stop : Nat}
    (exact_ : Exact crc config sealed active stop) (valid : config.validate = .ok ())
    (stored : Stored crc config dir sealed active stop) :
    Written crc config dir sealed active stop [] := by
  obtain ⟨-, sizeFits, -⟩ := SegmentConfig.validate_ok valid
  have sized := exact_.sized
  constructor
  · refine ⟨?_, by simp⟩
    rw [stored.dir_eq, Directory.sorted_eq_self stored.ascending, List.append_nil]
  · intro shelf member
    have header : shelf.HasHeader crc := by
      rcases List.mem_append.mp member with old | last
      · exact (stored.sealed_ok shelf old).header
      · rw [List.mem_singleton.mp last]
        exact stored.active_ok.header
    rw [classify_eq_written header]
    simp
  · intro shelf member
    rw [sized shelf (by simp [member])]
    exact sizeFits
  · exact stored.contiguous
  · intro shelf member
    obtain ⟨header, ⟨entries, middle, -, chain, payloadsEq, controls, stop, tail, plain, quiet⟩,
      nonempty⟩ := stored.sealed_ok shelf member
    refine ⟨⟨entries ++ controls, stop, chain.append tail, quiet, ?_⟩, nonempty⟩
    rw [payloads_append, payloadsEq, payloads, dataRecords_controls plain]
    exact List.append_nil _
  · exact exact_.laid
  · obtain ⟨entries, longest, -⟩ := stored.active_ok.recovered
    rw [sized active (by simp)]
    exact longest.longest

theorem Exact.replace {sealed : List Shelf} {active moved : Shelf} {stop next : Nat}
    (exact_ : Exact crc config sealed active stop) (laid : moved.Laid crc config.headerSize next)
    (sized : moved.file.length = active.file.length) : Exact crc config sealed moved next := by
  refine ⟨laid, ?_⟩
  intro shelf member
  rcases List.mem_append.mp member with old | new
  · exact exact_.sized shelf (by simp [old])
  · rw [List.mem_singleton.mp new, sized]
    exact exact_.sized active (by simp)

namespace CrashHistory

theorem prepared_exact {now : UInt64} {records : List (List UInt8)} {sealed sealed' : List Shelf}
    {active active' : Shelf} {stop stop' : Nat} {after : LogState}
    (prepared : Prepared crc config (.quiet now) records sealed active stop sealed' active' stop'
      after)
    (valid : config.validate = .ok ()) (headerFits : segmentHeaderSize ≤ config.headerSize)
    (positionFits : active.nextBase ≤ 2 ^ 64) (exact_ : Exact crc config sealed active stop) :
    Exact crc config sealed' active' stop' := by
  obtain ⟨roomy, -, -⟩ := SegmentConfig.validate_ok valid
  rcases prepared.place with ⟨rfl, rfl, rfl⟩ | ⟨-, rfl, rfl, rfl⟩
  · exact exact_
  · constructor
    · exact Shelf.laid_fresh _ headerFits (Nat.le_of_lt roomy) positionFits
    · intro shelf member
      rcases List.mem_append.mp member with old | new
      · exact exact_.sized shelf old
      · rw [List.mem_singleton.mp new]
        exact Shelf.length_fresh _ _ headerFits (Nat.le_of_lt roomy)

/-- The log of a world is stored, and exact. -/
def HoldsExactly (crc : List UInt8 → UInt32) (config : SegmentConfig) (world : World) : Prop :=
  world = .initial ∨
    ∃ sealed active stop, Stored crc config world.dir sealed active stop ∧
      (∀ set, world.set = some set → Live config set active stop) ∧
      storedBatches sealed active = world.committed ∧ Exact crc config sealed active stop

theorem holdsExactly_reopen {world next : World} {now : UInt64}
    (valid : config.validate = .ok ()) (headerFits : segmentHeaderSize ≤ config.headerSize)
    (holds : HoldsExactly crc config world)
    (taken : step crc config world (.reopen now) = some next) : HoldsExactly crc config next := by
  obtain ⟨roomy, -, -⟩ := SegmentConfig.validate_ok valid
  rcases holds with rfl | ⟨sealed, active, stop, stored, -, batchesEq, exact_⟩
  · obtain ⟨set, opened, stored, live, -⟩ := openSet_empty crc valid headerFits now
    simp only [step, World.initial, opened, Option.some.injEq] at taken
    subst taken
    refine .inr ⟨_, _, _, stored, ?_, rfl, ?_, ?_⟩
    · rintro set' ⟨⟩
      exact live
    · exact Shelf.laid_fresh now headerFits (Nat.le_of_lt roomy) (by decide)
    · intro shelf member
      rw [List.nil_append] at member
      rw [List.mem_singleton.mp member]
      exact Shelf.length_fresh _ _ headerFits (Nat.le_of_lt roomy)
  · obtain ⟨set, opened, live, -⟩ := openSet_stored valid stored now
    simp only [step, opened, Option.some.injEq] at taken
    subst taken
    refine .inr ⟨sealed, active, stop, stored, ?_, batchesEq, exact_⟩
    rintro set' ⟨⟩
    exact live

theorem holdsExactly_append {world next : World} {now : UInt64} {records : List (List UInt8)}
    (valid : config.validate = .ok ()) (headerFits : segmentHeaderSize ≤ config.headerSize)
    (holds : HoldsExactly crc config world)
    (allowed : StepAllowed crc config world (.append now records))
    (taken : step crc config world (.append now records) = some next) :
    HoldsExactly crc config next := by
  rcases holds with rfl | ⟨sealed, active, stop, stored, running, batchesEq, exact_⟩
  · simp [step, World.initial] at taken
  rcases append_cases valid headerFits stored running allowed taken with
    rfl | ⟨sealed', active', stop', _, prepared, ⟨nonempty, framable, positionFits⟩, stored',
      running', committed⟩
  · exact .inr ⟨sealed, active, stop, stored, running, batchesEq, exact_⟩
  have exactly := prepared_exact prepared valid headerFits
    (prepared.nextBase_eq ▸ (Nat.le_add_right _ _).trans positionFits) exact_
  refine .inr ⟨sealed', active'.withBatch crc stop' records, _, stored', running', ?_, ?_⟩
  · rw [storedBatches_withBatch, prepared.batches_eq, batchesEq, committed]
  · have inside := prepared.stored.active_ok.inside
    have bytes := readExact_writeAt_self
      (batchBytes crc records (active'.nextBase + records.length - 1)) inside
    rw [length_batchBytes] at bytes
    apply exactly.replace
    · exact exactly.laid.extend nonempty framable positionFits
        (agreeOn_writeAt_before (Nat.le_refl _) inside 0).symm bytes
    · apply length_writeAt_of_fits
      rw [length_batchBytes, exactly.sized active' (by simp)]
      exact prepared.fits

theorem holdsExactly_crash {world next : World} {now : UInt64} {records : List (List UInt8)}
    {torn : List UInt8} (valid : config.validate = .ok ())
    (headerFits : segmentHeaderSize ≤ config.headerSize) (holds : HoldsExactly crc config world)
    (allowed : StepAllowed crc config world (.crash now records torn))
    (taken : step crc config world (.crash now records torn) = some next) :
    HoldsExactly crc config next := by
  rcases holds with rfl | ⟨sealed, active, stop, stored, running, batchesEq, exact_⟩
  · simp [step, World.initial] at taken
  obtain ⟨sealed', active', stop', _, prepared, ⟨nonempty, framable, positionFits⟩, ended, sized,
    agree, after⟩ := crash_cases valid headerFits stored running allowed taken
  have inside := prepared.stored.active_ok.inside
  have exactly := prepared_exact prepared valid headerFits
    (prepared.nextBase_eq ▸ (Nat.le_add_right _ _).trans positionFits) exact_
  rcases after with ⟨complete, stored', committed⟩ | ⟨stored', committed⟩
  · refine .inr ⟨sealed', _, _, stored', by simp [ended], ?_, ?_⟩
    · rw [storedBatches_snoc, prepared.batches_eq, batchesEq, committed]
    · exact exactly.replace
        (exactly.laid.extend nonempty framable positionFits agree complete) sized
  · refine .inr ⟨sealed', _, stop', stored', by simp [ended], ?_, ?_⟩
    · rw [storedBatches_withFile, prepared.batches_eq, batchesEq, committed]
    · exact exactly.replace (exactly.laid.withFile agree (sized ▸ inside)) sized

/-- After every history of allowed steps the directory is empty, or the log of the
committed batches as its configuration has written it. -/
theorem written_of_history {steps : List CrashStep} {world : World}
    (valid : config.validate = .ok ()) (headerFits : segmentHeaderSize ≤ config.headerSize)
    (allowed : Histories.Allowed (step crc config) (StepAllowed crc config) .initial steps)
    (reached : Histories.run (step crc config) .initial steps = some world) :
    world = .initial ∨ ∃ sealed active stop,
      Written crc config world.dir sealed active stop [] ∧
      storedBatches sealed active = world.committed := by
  have kept : ∀ world label next, HoldsExactly crc config world →
      StepAllowed crc config world label → step crc config world label = some next →
      HoldsExactly crc config next := by
    intro world label next holds allowed taken
    cases label with
    | reopen now => exact holdsExactly_reopen valid headerFits holds taken
    | append now records => exact holdsExactly_append valid headerFits holds allowed taken
    | crash now records torn => exact holdsExactly_crash valid headerFits holds allowed taken
  rcases Histories.invariant_of_run kept (.inl rfl) allowed reached with
    rfl | ⟨sealed, active, stop, stored, -, batchesEq, exact_⟩
  · exact .inl rfl
  · exact .inr ⟨sealed, active, stop, exact_.written valid stored, batchesEq⟩

end CrashHistory

end Log

end Tephra
