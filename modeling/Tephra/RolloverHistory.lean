import Tephra.Crc32
import Tephra.CutBatch
import Tephra.Histories
import Tephra.LogRollover

/-!
# Failing rollovers

Histories of a log in which the creation of the next segment may fail at any of
its steps.  A file that was created before the failure keeps its name, and later
rollovers run into it.  The history theorem says that failures are harmless as
long as it is the creation of the file itself that fails.
-/

namespace Tephra

namespace Log

open ByteImage FrameChain Fallible Positions Seglog SegmentSet

namespace RolloverHistory

/-- A step of a history. -/
inductive RolloverStep where
  /-- Open the log. -/
  | reopen (now : UInt64)
  /-- Append a batch, with the results of the calls that create a segment. -/
  | append (now : UInt64) (createIo : List IoOutcome) (records : List (List UInt8))
deriving DecidableEq, Repr

/-- The files, the running log if there is one, and the acknowledged batches. -/
structure World where
  dir : Directory
  set : Option SegmentSet
  acknowledged : List (List (List UInt8))
deriving DecidableEq, Repr

/-- An empty directory. -/
def World.initial : World :=
  ⟨[], none, []⟩

/-- An environment in which only the creation of a segment may fail. -/
def creating (now : UInt64) (createIo : List IoOutcome) : AppendEnv :=
  ⟨now, [], createIo, [], []⟩

variable (crc : List UInt8 → UInt32)

/-- One step of a history. -/
def step (config : SegmentConfig) (world : World) : RolloverStep → Option World
  | .reopen now =>
      match openSet crc config now world.dir with
      | (.ok set, dir) => some ⟨dir, some set, world.acknowledged⟩
      | (.error _, dir) => some ⟨dir, none, world.acknowledged⟩
  | .append now createIo records =>
      world.set.map fun set =>
        match appendBatch crc (creating now createIo) records ⟨world.dir, set⟩ with
        | (.ok _, after) => ⟨after.dir, some after.set, world.acknowledged ++ [records]⟩
        | (.error _, after) => ⟨after.dir, some after.set, world.acknowledged⟩

/-- The framing can represent the batch. -/
structure Encodable (set : SegmentSet) (records : List (List UInt8)) : Prop where
  encodable : ∀ record ∈ records, record.length ≤ maxRecordLen
  positions : set.nextPosition + records.length ≤ 2 ^ 64

/-- What a harmless failure leaves behind: the log opens with exactly the acknowledged
batches, a failing call does not move the next position, and a batch is appended once no
call fails. -/
structure Harmless (config : SegmentConfig) (world : World) : Prop where
  recovers : ∀ now, ∃ set dir, openSet crc config now world.dir = (.ok set, dir) ∧
    readLog crc ⟨dir, set⟩ = .ok (positioned firstPosition world.acknowledged.flatten)
  position_kept : ∀ set, world.set = some set → ∀ env records error after,
    appendBatch crc env records ⟨world.dir, set⟩ = (.error error, after) →
    after.set.nextPosition = set.nextPosition
  appends : ∀ set, world.set = some set → ∀ now records, Accepted config records →
    Encodable set records →
    ∃ range after, appendBatch crc (.quiet now) records ⟨world.dir, set⟩ = (.ok range, after)

/-- The steps whose failures are harmless: a rollover fails only by not creating the
file. -/
def StepAllowed (config : SegmentConfig) (world : World) : RolloverStep → Prop
  | .reopen _ => True
  | .append _ createIo records =>
      ∀ set, world.set = some set → Accepted config records →
        Encodable set records ∧
        (set.activeWriter.remainingBytes < batchSize records → CreateSpared createIo)

/-- The directory stores the acknowledged batches with zeros behind them, and a running
log stands at their end. -/
def Holds (config : SegmentConfig) (world : World) : Prop :=
  world = .initial ∨
    ∃ sealed active stop, Stored crc config world.dir sealed active stop ∧
      ZeroFrom active.file stop ∧
      (∀ set, world.set = some set → Live config set active stop) ∧
      storedBatches sealed active = world.acknowledged

variable {crc}

/-- An operation that does not assign positions. -/
def KeepsPosition (before after : LogState) : Prop :=
  after.set.nextPosition = before.set.nextPosition

theorem onWriter_keepsPosition {α : Type} (outcomes : List IoOutcome)
    (op : Op Writer WriteError α) : Op.Moves KeepsPosition (onWriter outcomes op) :=
  fun _ => rfl

theorem rollover_keepsPosition (env : AppendEnv) :
    Op.Moves KeepsPosition (rollover crc env) := by
  refine Op.moves_bind (fun _ _ _ left right => right.trans left)
    (onWriter_keepsPosition _ _) fun _ state => ?_
  unfold installSegment
  split
  · rfl
  · rfl

theorem prepareBatch_keepsPosition (env : AppendEnv) (records : List (List UInt8)) :
    Op.Moves KeepsPosition (prepareBatch crc env records) := by
  intro state
  rcases prepareBatch_cases crc env records state with
    ⟨error, result, _⟩ | ⟨_, _, result⟩ | ⟨_, _, result⟩
  · rw [result]
    rfl
  · rw [result]
    rfl
  · rw [result]
    exact rollover_keepsPosition env state

theorem writeRecords_error_keepsPosition {env : AppendEnv} {records : List (List UInt8)}
    {state after : LogState} {error : LogError}
    (failed : writeRecords crc env records state = (.error error, after)) :
    KeepsPosition state after := by
  have writtenKept := onWriter_keepsPosition env.batchIo
    (Writer.writeBatch crc records (state.set.nextPosition + records.length - 1)) state
  unfold writeRecords at failed
  dsimp only at failed
  split at failed
  · cases failed
  · next middle written =>
      rw [written] at writtenKept
      have rewoundKept := onWriter_keepsPosition env.rewindIo
        (Writer.rewindTo state.set.activeWriter.writeOffset) middle
      split at failed
      · next rewound =>
          rw [rewound] at rewoundKept
          obtain ⟨_, rfl⟩ := Prod.mk.inj failed
          exact rewoundKept.trans writtenKept
      · next rewound =>
          rw [rewound] at rewoundKept
          obtain ⟨_, rfl⟩ := Prod.mk.inj failed
          exact rewoundKept.trans writtenKept

theorem nextPosition_of_error {env : AppendEnv} {records : List (List UInt8)}
    {state after : LogState} {error : LogError}
    (failed : appendBatch crc env records state = (.error error, after)) :
    after.set.nextPosition = state.set.nextPosition := by
  have kept : KeepsPosition state (prepareBatch crc env records state).2 :=
    prepareBatch_keepsPosition env records state
  rcases Op.bind_eq_error failed with prepared | ⟨_, middle, prepared, failed⟩
  · rw [prepared] at kept
    exact kept
  · rw [prepared] at kept
    exact (writeRecords_error_keepsPosition failed).trans kept

/-- Behind the committed end the file of the active segment has only zeros, so that
nothing stands in the way of a scan. -/
theorem quietTail_of_zeros {file : List UInt8} {stop : Nat} (zero : ZeroFrom file stop) :
    QuietTail crc file file.length stop :=
  ⟨[], stop, .nil stop, by simp, zero.quietAt (Nat.le_refl _)⟩

theorem Encodable.batchAllowed {config : SegmentConfig} {dir : Directory} {set : SegmentSet}
    {sealed : List Shelf} {active : Shelf} {stop : Nat} {records : List (List UInt8)}
    (encodable : Encodable set records)
    (stored : Stored crc config dir sealed active stop) (zero : ZeroFrom active.file stop)
    (live : Live config set active stop) : BatchAllowed crc dir set records where
  encodable := encodable.encodable
  positions := encodable.positions
  quiet := fun _ => by
    rw [live.activeBase_eq, stored.read_active, live.writeOffset_eq]
    exact quietTail_of_zeros zero

/-- A batch prepared without faults is written behind the committed end, with only zeros
behind it. -/
theorem append_prepared {config : SegmentConfig} {now : UInt64} {createIo : List IoOutcome}
    {records : List (List UInt8)} {sealed sealed' : List Shelf} {active active' : Shelf}
    {stop stop' : Nat} {set : SegmentSet} {after : LogState}
    (prepared : Prepared crc config (creating now createIo) records sealed active stop sealed'
      active' stop' after)
    (valid : config.validate = .ok ()) (headerFits : segmentHeaderSize ≤ config.headerSize)
    (live : Live config set active stop) (zero : ZeroFrom active.file stop)
    (accepted : Accepted config records) (encodable : Encodable set records) :
    ∃ final, writeRecords crc (creating now createIo) records after =
        (.ok (active.nextBase, active.nextBase + records.length - 1), final) ∧
      Stored crc config final.dir sealed' (active'.withBatch crc stop' records)
        (stop' + batchSize records) ∧
      ZeroFrom (active'.withBatch crc stop' records).file (stop' + batchSize records) ∧
      Live config final.set (active'.withBatch crc stop' records) (stop' + batchSize records) ∧
      storedBatches sealed' (active'.withBatch crc stop' records) =
        storedBatches sealed active ++ [records] := by
  obtain ⟨roomy, _, maxEq⟩ := SegmentConfig.validate_ok valid
  have positionFits := encodable.positions
  rw [live.nextPosition_eq, ← prepared.nextBase_eq] at positionFits
  have zero' : ZeroFrom active'.file stop' := by
    rcases prepared.place with ⟨rfl, rfl, rfl⟩ | ⟨_, _, rfl, rfl⟩
    · exact zero
    · exact Shelf.zeroFrom_fresh now _ headerFits
  have inside := prepared.stored.active_ok.inside
  have written : ZeroFrom (active'.withBatch crc stop' records).file
      (stop' + batchSize records) :=
    Shelf.zeroFrom_withBatch crc zero' inside records
  obtain ⟨final, appended, stored', live'⟩ := writeRecords_stored (creating now createIo)
    prepared.stored prepared.live headerFits faultless_nil accepted.nonempty
    (accepted.framable encodable.encodable)
    (fun record member => by
      rw [prepared.live.maxRecord_eq, maxEq]
      exact accepted.short_records record member)
    prepared.fits positionFits written.unmarked
  rw [prepared.nextBase_eq] at appended
  refine ⟨final, appended, stored', written, live', ?_⟩
  rw [storedBatches_withBatch, prepared.batches_eq]

/-- An accepted batch is appended, or the log is as it was because the next segment could
not be created. -/
theorem appendBatch_cases {config : SegmentConfig} {dir : Directory} {set : SegmentSet}
    {sealed : List Shelf} {active : Shelf} {stop : Nat} {records : List (List UInt8)}
    (now : UInt64) (createIo : List IoOutcome) (valid : config.validate = .ok ())
    (headerFits : segmentHeaderSize ≤ config.headerSize)
    (stored : Stored crc config dir sealed active stop) (zero : ZeroFrom active.file stop)
    (live : Live config set active stop) (accepted : Accepted config records)
    (encodable : Encodable set records)
    (spared : set.activeWriter.remainingBytes < batchSize records → CreateSpared createIo) :
    (∃ error after, appendBatch crc (creating now createIo) records ⟨dir, set⟩ =
        (.error error, after) ∧ ¬ Faultless createIo ∧
        Untouched config ⟨dir, set⟩ active stop after) ∨
      ∃ range after sealed' active' stop',
        appendBatch crc (creating now createIo) records ⟨dir, set⟩ = (.ok range, after) ∧
        Stored crc config after.dir sealed' active' stop' ∧ ZeroFrom active'.file stop' ∧
        Live config after.set active' stop' ∧
        storedBatches sealed' active' = storedBatches sealed active ++ [records] := by
  have allowed := encodable.batchAllowed stored zero live
  rcases prepareBatch_allowed (creating now createIo) valid headerFits stored live spared
    accepted allowed with
    ⟨error, after, result, failed, untouched⟩ | ⟨sealed', active', stop', after, result, prepared⟩
  · refine .inl ⟨error, after, by rw [appendBatch, Op.bind_apply_error result], ?_, untouched⟩
    exact failed.resolve_left (not_not_intro faultless_nil)
  obtain ⟨final, appended, stored', zero', live', batchesEq⟩ :=
    append_prepared prepared valid headerFits live zero accepted encodable
  exact .inr ⟨_, final, sealed', _, _, by rw [appendBatch, Op.bind_apply_ok result, appended],
    stored', zero', live', batchesEq⟩

theorem Holds.harmless {config : SegmentConfig} {world : World}
    (valid : config.validate = .ok ()) (headerFits : segmentHeaderSize ≤ config.headerSize)
    (holds : Holds crc config world) : Harmless crc config world := by
  rcases holds with rfl | ⟨sealed, active, stop, stored, zero, running, batchesEq⟩
  · refine ⟨fun now => ?_, by simp [World.initial], by simp [World.initial]⟩
    obtain ⟨set, opened, _, _, read⟩ := openSet_empty crc valid headerFits now
    exact ⟨set, _, opened, read⟩
  refine ⟨fun now => ?_, fun set _ env records error after failed => ?_, ?_⟩
  · obtain ⟨set, opened, _, read⟩ := openSet_stored valid stored now
    refine ⟨set, _, opened, ?_⟩
    rw [read, ← batchesEq, flatten_storedBatches]
  · exact nextPosition_of_error failed
  · intro set setEq now records accepted encodable
    rcases appendBatch_cases now [] valid headerFits stored zero (running set setEq) accepted
      encodable (fun _ => .inr faultless_nil) with
      ⟨_, _, _, faulty, _⟩ | ⟨range, after, _, _, _, appended, _⟩
    · exact absurd faultless_nil faulty
    · exact ⟨range, after, appended⟩

theorem holds_reopen {config : SegmentConfig} {world next : World} {now : UInt64}
    (valid : config.validate = .ok ()) (headerFits : segmentHeaderSize ≤ config.headerSize)
    (holds : Holds crc config world)
    (taken : step crc config world (.reopen now) = some next) : Holds crc config next := by
  rcases holds with rfl | ⟨sealed, active, stop, stored, zero, _, batchesEq⟩
  · obtain ⟨set, opened, stored, live, _⟩ := openSet_empty crc valid headerFits now
    simp only [step, World.initial, opened, Option.some.injEq] at taken
    subst taken
    refine .inr ⟨_, _, _, stored, Shelf.zeroFrom_fresh now firstPosition headerFits, ?_, rfl⟩
    rintro set' ⟨⟩
    exact live
  · obtain ⟨set, opened, live, _⟩ := openSet_stored valid stored now
    simp only [step, opened, Option.some.injEq] at taken
    subst taken
    refine .inr ⟨sealed, active, stop, stored, zero, ?_, batchesEq⟩
    rintro set' ⟨⟩
    exact live

theorem holds_append {config : SegmentConfig} {world next : World} {now : UInt64}
    {createIo : List IoOutcome} {records : List (List UInt8)}
    (valid : config.validate = .ok ()) (headerFits : segmentHeaderSize ≤ config.headerSize)
    (holds : Holds crc config world)
    (allowed : StepAllowed config world (.append now createIo records))
    (taken : step crc config world (.append now createIo records) = some next) :
    Holds crc config next := by
  rcases holds with rfl | ⟨sealed, active, stop, stored, zero, running, batchesEq⟩
  · simp [step, World.initial] at taken
  obtain ⟨set, setEq, rfl⟩ := Option.map_eq_some_iff.mp taken
  have live := running set setEq
  by_cases accepted : Accepted config records
  swap
  · obtain ⟨error, result⟩ := appendBatch_rejected crc (creating now createIo)
      ⟨world.dir, set⟩ live.config_eq accepted
    rw [result]
    refine .inr ⟨sealed, active, stop, stored, zero, ?_, batchesEq⟩
    rintro set' ⟨⟩
    exact live
  obtain ⟨encodable, spared⟩ := allowed set setEq accepted
  rcases appendBatch_cases now createIo valid headerFits stored zero live accepted encodable
    spared with
    ⟨error, after, failed, _, dirEq, live'⟩ |
      ⟨range, after, sealed', active', stop', appended, stored', zero', live', batchesEq'⟩
  · rw [failed]
    have stored' : Stored crc config after.dir sealed active stop := by
      rw [dirEq]
      exact stored
    refine .inr ⟨sealed, active, stop, stored', zero, ?_, batchesEq⟩
    rintro set' ⟨⟩
    exact live'
  · rw [appended]
    refine .inr ⟨sealed', active', stop', stored', zero', ?_, ?_⟩
    · rintro set' ⟨⟩
      exact live'
    · rw [batchesEq', batchesEq]

/-- After every history of allowed steps, failures have been harmless. -/
theorem rollover_history_harmless {config : SegmentConfig} {steps : List RolloverStep}
    {world : World} (valid : config.validate = .ok ())
    (headerFits : segmentHeaderSize ≤ config.headerSize)
    (allowed : Histories.Allowed (step crc config) (StepAllowed config) .initial steps)
    (reached : Histories.run (step crc config) .initial steps = some world) :
    Harmless crc config world := by
  have kept : ∀ world label next, Holds crc config world →
      StepAllowed config world label → step crc config world label = some next →
      Holds crc config next := by
    intro world label next holds allowed taken
    cases label with
    | reopen now => exact holds_reopen valid headerFits holds taken
    | append now createIo records => exact holds_append valid headerFits holds allowed taken
  exact Holds.harmless valid headerFits
    (Histories.invariant_of_run kept (.inl rfl) allowed reached)

/-- A rollover that cannot create its file, after a first batch. -/
theorem rollover_history_harmless_refused :
    ∃ world,
      Histories.run (step crc32 smallConfig) .initial
          [.reopen 0, .append 0 [] [[1, 2, 3, 4]],
            .append 0 [.fail 0] [List.replicate 20 9]] = some world ∧
        Harmless crc32 smallConfig world := by
  obtain ⟨world, reached⟩ : ∃ world, Histories.run (step crc32 smallConfig) .initial
      [.reopen 0, .append 0 [] [[1, 2, 3, 4]],
        .append 0 [.fail 0] [List.replicate 20 9]] = some world :=
    Option.isSome_iff_exists.mp (by decide +kernel)
  refine ⟨world, reached, rollover_history_harmless (by decide) (by decide) ?_ reached⟩
  have positions : ∀ steps ∈ [[.reopen 0], [.reopen 0, .append 0 [] [[1, 2, 3, 4]]]],
      (Histories.run (step crc32 smallConfig) .initial steps).all (fun world : World =>
        world.set.all fun set => decide (set.nextPosition ≤ 2)) = true := by
    decide +kernel
  have encodable : ∀ steps ∈ [[.reopen 0], [.reopen 0, .append 0 [] [[1, 2, 3, 4]]]],
      ∀ world, Histories.run (step crc32 smallConfig) .initial steps = some world →
      ∀ set, world.set = some set → ∀ record : List UInt8, record.length ≤ 20 →
        Encodable set [record] := by
    intro steps member world reached set setEq record short
    have bounded := positions steps member
    simp only [reached, Option.all_some, setEq, decide_eq_true_eq] at bounded
    refine ⟨fun other otherMember => ?_, ?_⟩
    · obtain rfl : other = record := by simpa using otherMember
      simp only [maxRecordLen, lengthMask]
      omega
    · simp only [List.length_cons, List.length_nil]
      omega
  refine ⟨trivial, fun first firstTaken => ⟨?_, fun second secondTaken => ⟨?_, ?_⟩⟩⟩
  · intro set setEq _
    exact ⟨encodable [.reopen 0] (by simp) first (by simp [Histories.run, firstTaken]) set setEq
      _ (by simp), fun _ => .inr faultless_nil⟩
  · intro set setEq _
    exact ⟨encodable [.reopen 0, .append 0 [] [[1, 2, 3, 4]]] (by simp) second
      (by simp [Histories.run, firstTaken, secondTaken]) set setEq _ (by simp),
      fun _ => .inl ⟨0, rfl⟩⟩
  · exact fun _ _ => trivial

/-- A batch, and a rollover that fails after its file was created. -/
def ghostSteps : List RolloverStep :=
  [.reopen 0, .append 0 [] [[1, 2, 3, 4]], .append 0 [.ok, .fail 0] [List.replicate 20 9]]

/-- The file stays: the rollover fails again without a fault, and once a smaller batch has
moved the next position past its base and another rollover succeeded, the log does not
open. -/
theorem ghost_segment_blocks_log :
    smallConfig.validate = .ok () ∧
      (∃ world, Histories.run (step crc32 smallConfig) .initial ghostSteps = some world ∧
        ¬ Harmless crc32 smallConfig world) ∧
      ∃ world, Histories.run (step crc32 smallConfig) .initial
          (ghostSteps ++ [.append 0 [] [[5, 6, 7, 8]], .append 0 [] [List.replicate 20 9]]) =
            some world ∧
        ¬ Harmless crc32 smallConfig world := by
  refine ⟨by decide, ?_, ?_⟩
  · have refused : (Histories.run (step crc32 smallConfig) .initial ghostSteps).any
        (fun world : World => world.set.any fun set =>
          decide (set.nextPosition = 2) && decide
            ((appendBatch crc32 (.quiet 0) [List.replicate 20 9] ⟨world.dir, set⟩).1 =
              .error (.write 2 .alreadyExists))) = true := by
      decide +kernel
    obtain ⟨world, reached, refused⟩ := (Option.any_eq_true _ _).mp refused
    obtain ⟨set, setEq, refused⟩ := (Option.any_eq_true _ _).mp refused
    obtain ⟨position, refused⟩ := Bool.and_eq_true_iff.mp refused
    refine ⟨world, reached, fun harmless => ?_⟩
    obtain ⟨range, after, appended⟩ := harmless.appends set setEq 0 [List.replicate 20 9]
      ⟨by simp, by simp, by decide, by decide⟩
      ⟨by decide, by rw [of_decide_eq_true position]; decide⟩
    rw [appended] at refused
    simp at refused
  · have refused : (Histories.run (step crc32 smallConfig) .initial
        (ghostSteps ++ [.append 0 [] [[5, 6, 7, 8]], .append 0 [] [List.replicate 20 9]])).any
        (fun world : World => decide
          ((openSet crc32 smallConfig 0 world.dir).1 = .error (.unwrittenNonLast 2))) =
          true := by
      decide +kernel
    obtain ⟨world, reached, refused⟩ := (Option.any_eq_true _ _).mp refused
    refine ⟨world, reached, fun harmless => ?_⟩
    obtain ⟨set, dir, opened, _⟩ := harmless.recovers 0
    rw [opened] at refused
    simp at refused

end RolloverHistory

end Log

end Tephra
