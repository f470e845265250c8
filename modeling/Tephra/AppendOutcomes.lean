import Tephra.CommitSeam
import Tephra.FailedAppending

/-!
# The outcomes of an append

The log of the commit seam holds events, and its appends have one of four outcomes.  It is
what is left of the segment set with its files when only the positions are looked at: every
call of `append_batch`, whatever system calls fail in it, has one of these outcomes.
-/

namespace Tephra

namespace Writer.CommitSeam

open Fallible Log Read SegmentSource Seglog SegmentSet

/-- A segment of events has the positions of a segment file. -/
def SameSpan (segment : Read.Segment) (file : Log.Segment) : Prop :=
  segment.base = file.basePosition ∧ segment.records.length = file.offsets.length

/-- A log of events has the positions of a segment set. -/
structure Matches (set : SegmentedLog) (files : SegmentSet) : Prop where
  sealed : List.Forall₂ SameSpan set.sealed files.sealed
  active : SameSpan set.active files.active
  next_eq : set.nextPosition = files.nextPosition

theorem length_appendRecords {crc : List UInt8 → UInt32} {records : List (List UInt8)}
    {writer after : Writer} {offsets : List Nat}
    (done : Writer.appendRecords crc records writer = (.ok offsets, after)) :
    offsets.length = records.length := by
  induction records generalizing writer after offsets with
  | nil =>
      cases done
      rfl
  | cons record records ih =>
      obtain ⟨first, middle, -, later⟩ := Op.bind_eq_ok done
      obtain ⟨rest, last, others, ended⟩ := Op.bind_eq_ok later
      obtain rfl : first.1 :: rest = offsets := by simpa using congrArg Prod.fst ended
      rw [List.length_cons, ih others, List.length_cons]

/-- An operation of the writer that succeeds gives an offset for each record. -/
theorem length_of_onWriter_writeBatch {crc : List UInt8 → UInt32} {outcomes : List IoOutcome}
    {records : List (List UInt8)} {highest : Nat} {state after : LogState} {offsets : List Nat}
    (done : onWriter outcomes (Writer.writeBatch crc records highest) state =
      (.ok offsets, after)) : offsets.length = records.length := by
  rw [onWriter] at done
  cases written : Writer.writeBatch crc records highest
      (state.set.activeWriter.withOutcomes outcomes) with
  | mk result writer =>
      cases result with
      | error error =>
          rw [written] at done
          cases done
      | ok found =>
          rw [written] at done
          cases done
          rw [Writer.writeBatch] at written
          obtain ⟨first, middle, appended, later⟩ := Op.bind_eq_ok written
          obtain ⟨-, last, -, ended⟩ := Op.bind_eq_ok later
          cases ended
          exact length_appendRecords appended

namespace Matches

variable {crc : List UInt8 → UInt32} {set : SegmentedLog} {state after : LogState}

theorem onWriter (matched : Matches set state.set) {α : Type} (outcomes : List IoOutcome)
    (op : Op Writer WriteError α) : Matches set (onWriter outcomes op state).2.set :=
  ⟨matched.sealed, matched.active, matched.next_eq⟩

theorem installSegment (matched : Matches set state.set) (env : AppendEnv)
    {result : Except LogError Unit}
    (done : SegmentSet.installSegment crc env state = (result, after)) :
    Matches (if result.isOk then set.rollover else set) after.set := by
  rw [SegmentSet.installSegment] at done
  split at done
  · cases done
    exact ⟨matched.sealed, matched.active, matched.next_eq⟩
  · cases done
    refine ⟨?_, ⟨matched.next_eq, rfl⟩, matched.next_eq⟩
    exact List.rel_append matched.sealed (.cons matched.active .nil)

theorem rollover (matched : Matches set state.set) (env : AppendEnv)
    {result : Except LogError Unit}
    (done : SegmentSet.rollover crc env state = (result, after)) :
    Matches (if result.isOk then set.rollover else set) after.set := by
  rw [SegmentSet.rollover] at done
  have kept := matched.onWriter env.sealIo Writer.sync
  cases synced : SegmentSet.onWriter env.sealIo Writer.sync state with
  | mk outcome middle =>
      rw [synced] at kept
      cases outcome with
      | error error =>
          rw [Op.bind_apply_error synced] at done
          cases done
          exact kept
      | ok value =>
          rw [Op.bind_apply_ok synced] at done
          exact kept.installSegment env done

theorem prepareBatch (matched : Matches set state.set) (env : AppendEnv)
    {records : List (List UInt8)} {result : Except LogError Unit}
    (done : SegmentSet.prepareBatch crc env records state = (result, after)) :
    (∃ error, result = .error error ∧ Matches set after.set) ∨
      (result = .ok () ∧ records ≠ [] ∧
        (Matches set after.set ∨ Matches set.rollover after.set)) := by
  rcases prepareBatch_cases crc env records state with ⟨error, refused, -⟩ |
    ⟨accepted, -, inPlace⟩ | ⟨accepted, -, rolled⟩
  · rw [refused] at done
    cases done
    exact .inl ⟨error, rfl, matched⟩
  · rw [inPlace] at done
    cases done
    exact .inr ⟨rfl, accepted.nonempty, .inl matched⟩
  · rw [rolled] at done
    have installed := matched.rollover env done
    cases result with
    | error error => exact .inl ⟨error, rfl, installed⟩
    | ok _ => exact .inr ⟨rfl, accepted.nonempty, .inr installed⟩

/-- The records of a batch are put behind the active segment, or nothing changes. -/
theorem writeRecords (matched : Matches set state.set) (env : AppendEnv)
    {records : List (List UInt8)} {batch : List Event} (counted : records.length = batch.length)
    (nonempty : records ≠ []) {result : Except LogError (Nat × Nat)}
    (done : SegmentSet.writeRecords crc env records state = (result, after)) :
    (∃ error, result = .error error ∧ Matches set after.set) ∨
      (result = .ok (set.nextPosition, set.nextPosition + batch.length - 1) ∧
        Matches (set.extend batch) after.set) := by
  have positive := List.length_pos_of_ne_nil nonempty
  have nextEq := matched.next_eq
  have kept := matched.onWriter env.batchIo
    (Writer.writeBatch crc records (state.set.nextPosition + records.length - 1))
  cases written : SegmentSet.onWriter env.batchIo
      (Writer.writeBatch crc records (state.set.nextPosition + records.length - 1)) state with
  | mk outcome middle =>
      rw [written] at kept
      cases outcome with
      | ok offsets =>
          have added : offsets.length = batch.length :=
            (length_of_onWriter_writeBatch written).trans counted
          simp only [SegmentSet.writeRecords, written] at done
          cases done
          refine .inr ⟨by rw [nextEq, counted], kept.sealed, ⟨kept.active.1, ?_⟩, ?_⟩
          · change (set.active.records ++ batch.map Except.ok).length =
              (middle.set.activeOffsets ++ offsets).length
            have before : set.active.records.length = middle.set.activeOffsets.length :=
              kept.active.2
            rw [List.length_append, List.length_append, List.length_map, before, added]
          · change set.nextPosition + batch.length = state.set.nextPosition + records.length - 1 + 1
            omega
      | error error =>
          obtain ⟨failure, failed⟩ := writeRecords_error written rfl
          rw [failed] at done
          cases done
          exact .inl ⟨failure, rfl, kept.onWriter _ _⟩

end Matches

theorem appendBatch_outcome {crc : List UInt8 → UInt32} {set : SegmentedLog}
    {state after : LogState} (matched : Matches set state.set) (env : AppendEnv)
    {records : List (List UInt8)} {batch : List Event} (counted : records.length = batch.length)
    {result : Except LogError (Nat × Nat)}
    (done : SegmentSet.appendBatch crc env records state = (result, after)) :
    ∃ outcome, (appendBatch outcome batch set).1 = result ∧
      Matches (appendBatch outcome batch set).2 after.set := by
  rw [SegmentSet.appendBatch] at done
  cases prepared : SegmentSet.prepareBatch crc env records state with
  | mk checked middle =>
      rcases matched.prepareBatch env prepared with ⟨error, rfl, kept⟩ |
        ⟨rfl, nonempty, ready⟩
      · rw [Op.bind_apply_error prepared] at done
        cases done
        exact ⟨.failedBefore error, rfl, kept⟩
      · rw [Op.bind_apply_ok prepared] at done
        rcases ready with inPlace | rolled
        · rcases inPlace.writeRecords env counted nonempty done with ⟨error, rfl, kept⟩ |
            ⟨rfl, grown⟩
          · exact ⟨.failedBefore error, rfl, kept⟩
          · exact ⟨.appended, rfl, grown⟩
        · rcases rolled.writeRecords env counted nonempty done with ⟨error, rfl, kept⟩ |
            ⟨rfl, grown⟩
          · exact ⟨.failedAfter error, rfl, kept⟩
          · exact ⟨.rolledOver, rfl, grown⟩

end Writer.CommitSeam

end Tephra
