import Tephra.TailContents

/-!
# Rebuilding the index of a segment

The index is derived from the log.  A rebuild feeds the events of a segment in
order, until one is refused for a type too many: then the segment cannot be
indexed, and the rest of it is only counted.
-/

namespace Tephra

namespace Index

open AscendingLists DenseIds Positions

/-- The result of a rebuild. -/
structure Rebuilt where
  index : ActiveTail
  count : Nat
  unindexable : Bool
deriving DecidableEq

namespace Rebuilder

/-- Feed the event of a position.  The result is `none` where the code panics. -/
def feed (self : Rebuilt) (entry : Nat × Event) : Option Rebuilt :=
  let counted := { self with count := self.count + 1 }
  if self.unindexable then
    some counted
  else
    match self.index.push entry.1 entry.2 with
    | none => none
    | some (.error _) => some { counted with unindexable := true }
    | some (.ok index) => some { counted with index := index }

end Rebuilder

/-- Feed the events from a base on. -/
def rebuild (base : Nat) (events : List Event) : Option Rebuilt :=
  (positioned base events).foldlM Rebuilder.feed ⟨ActiveTail.new base, 0, false⟩

theorem length_distinctTypes_mono {part whole : List Event} (within : part ⊆ whole) :
    (distinctTypes part).length ≤ (distinctTypes whole).length := by
  apply List.Subperm.length_le
  apply List.subperm_of_subset (List.nodup_dedup _)
  intro name member
  exact List.mem_dedup.mpr (List.map_subset _ within (List.mem_dedup.mp member))

theorem ActiveTail.Holds.push_refused {tail : ActiveTail} {base : Nat} {events : List Event}
    (holds : tail.Holds base events) {position : Nat} {event : Event} {refused : TooManyTypes}
    (failed : tail.push position event = some (.error refused)) :
    tail.types.lookup event.eventType = none := by
  rw [ActiveTail.push] at failed
  dsimp only at failed
  split at failed
  · cases failed
  · rcases holds.internType_cases event.eventType with
      ⟨id, types, interned, _⟩ | ⟨_, fresh, _⟩
    · simp [interned] at failed
    · rw [lookup_eq_none_iff, holds.types.mem_iff]
      exact fresh

/-- A rebuild has fed the events before the first one that was refused. -/
structure Rebuilt.Holds (built : Rebuilt) (base : Nat) (events : List Event) : Prop where
  count_eq : built.count = events.length
  unmarked : built.index.unindexable = false
  fed : ∃ fed rest, events = fed ++ rest ∧ built.index.Holds base fed ∧
    (built.unindexable = false → rest = []) ∧
    (built.unindexable = true → maxTypeId + 1 < (distinctTypes events).length ∧
      ∃ event ∈ rest, built.index.types.lookup event.eventType = none)

theorem Rebuilt.Holds.feed {built : Rebuilt} {base : Nat} {events : List Event}
    (holds : built.Holds base events) {event : Event} (fits : FitsSegment (events ++ [event])) :
    ∃ next, Rebuilder.feed built (base + events.length, event) = some next ∧
      next.Holds base (events ++ [event]) := by
  obtain ⟨countEq, unmarked, fed, rest, split, tailHolds, whole, refusedOne⟩ := holds
  rw [Rebuilder.feed]
  cases flag : built.unindexable with
  | true =>
      obtain ⟨tooMany, other, member, absent⟩ := refusedOne flag
      have more := length_distinctTypes_mono (List.subset_append_left events [event])
      refine ⟨_, rfl, by simp [countEq], unmarked, fed, rest ++ [event], by simp [split],
        tailHolds, by simp, fun _ => ⟨by omega, other, ?_, absent⟩⟩
      exact List.mem_append_left _ member
  | false =>
      obtain rfl := whole flag
      rw [List.append_nil] at split
      subst split
      simp only [Bool.false_eq_true, if_false]
      rcases tailHolds.push fits with ⟨next, pushed, nextHolds, sameFlag⟩ | ⟨refused, tooMany⟩
      · rw [pushed]
        exact ⟨_, rfl, by simp [countEq], sameFlag.trans unmarked, events ++ [event], [],
          by simp, nextHolds, fun _ => rfl, by simp⟩
      · have absent := tailHolds.push_refused refused
        rw [refused]
        exact ⟨_, rfl, by simp [countEq], unmarked, events, [event], rfl, tailHolds, by simp,
          fun _ => ⟨tooMany, event, List.mem_singleton_self event, absent⟩⟩

theorem rebuild_holds (base : Nat) {events : List Event} (fits : FitsSegment events) :
    ∃ built, rebuild base events = some built ∧ built.Holds base events := by
  induction events using List.reverseRecOn with
  | nil =>
      exact ⟨_, rfl, rfl, rfl, [], [], rfl, ActiveTail.holds_new base, fun _ => rfl, by simp⟩
  | append_singleton events event ih =>
      obtain ⟨built, rebuilt, holds⟩ := ih fits.prefix
      obtain ⟨next, fed, nextHolds⟩ := holds.feed fits
      refine ⟨next, ?_, nextHolds⟩
      rw [rebuild] at rebuilt ⊢
      simp only [positioned_append, List.foldlM_append, rebuilt, positioned_singleton]
      simpa using fed

/-- A segment is indexed exactly if its types fit the type column. -/
theorem Rebuilt.Holds.unindexable_iff {built : Rebuilt} {base : Nat} {events : List Event}
    (holds : built.Holds base events) :
    built.unindexable = false ↔ (distinctTypes events).length ≤ maxTypeId + 1 := by
  obtain ⟨_, _, fed, rest, split, tailHolds, whole, refusedOne⟩ := holds
  constructor
  · intro indexed
    obtain rfl := whole indexed
    rw [List.append_nil] at split
    rw [split, ← tailHolds.length_types]
    exact tailHolds.types.length_le
  · intro few
    cases flag : built.unindexable with
    | false => rfl
    | true => exact absurd (refusedOne flag).1 (by omega)

end Index

end Tephra
