import Mathlib.Algebra.Ring.Nat
import Mathlib.Data.List.Basic
import Mathlib.Data.Nat.Init
import Mathlib.Tactic.Common

/-!
# Locating a position

A source of segments has sealed segments in order and the active one behind
them.  `locate` finds the segment of a position by a binary search over the base
positions.  Where every segment begins right behind the one before it, the
search finds the segment that has the position.
-/

namespace Tephra

namespace Log

/-- A segment, as far as its place in the log goes. -/
class SegmentRange (seg : Type) where
  basePosition : seg → Nat
  eventCount : seg → Nat

/-- What has segments: the log itself, or a snapshot of it. -/
class SegmentSource (σ : Type) (seg : outParam Type) where
  sealedSegments : σ → List seg
  activeSegment : σ → seg

namespace SegmentSource

open SegmentRange

variable {σ seg : Type} [SegmentSource σ seg]

/-- The number of sealed segments; the active segment sits at this index. -/
def segmentCount (source : σ) : Nat := (sealedSegments source).length

/-- The segment at an index. -/
def segmentAt (source : σ) (idx : Nat) : Option seg :=
  if idx < segmentCount source then
    (sealedSegments source)[idx]?
  else if idx = segmentCount source then
    some (activeSegment source)
  else
    none

/-- All segments in order. -/
def segments (source : σ) : List seg := sealedSegments source ++ [activeSegment source]

theorem segmentAt_eq (source : σ) (idx : Nat) :
    segmentAt source idx = (segments source)[idx]? := by
  rw [segmentAt, segments, segmentCount]
  rcases Nat.lt_trichotomy idx (sealedSegments source).length with inside | rfl | beyond
  · rw [if_pos inside, List.getElem?_append_left inside]
  · simp
  · rw [if_neg (by omega), if_neg (by omega), List.getElem?_eq_none]
    simp only [List.length_append, List.length_singleton]
    omega

variable [SegmentRange seg]

/-- The binary search for the last sealed segment that begins at or before a
position. -/
def searchSealed (source : σ) (position lo hi : Nat) (found : Option Nat) : Option Nat :=
  if lo < hi then
    let mid := lo + (hi - lo) / 2
    match segmentAt source mid with
    | none => none
    | some segment =>
        if basePosition segment ≤ position then
          searchSealed source position (mid + 1) hi (some mid)
        else
          searchSealed source position lo mid found
  else
    found
termination_by hi - lo

/-- The segment that owns a position, and its index. -/
def locate (source : σ) (position : Nat) : Option (Nat × seg) :=
  if position = 0 then
    none
  else if basePosition (activeSegment source) ≤ position then
    some (segmentCount source, activeSegment source)
  else
    match searchSealed source position 0 (segmentCount source) none with
    | none => none
    | some idx => (segmentAt source idx).map fun segment => (idx, segment)

/-- The number of events in segments. -/
def totalEvents (segs : List seg) : Nat := (segs.map eventCount).sum

/-- Every segment begins right behind the one before it. -/
def Contiguous : (start : Nat) → List seg → Prop
  | _, [] => True
  | start, segment :: segs =>
      basePosition segment = start ∧ Contiguous (start + eventCount segment) segs

@[simp]
theorem totalEvents_nil : totalEvents ([] : List seg) = 0 := rfl

@[simp]
theorem totalEvents_cons (segment : seg) (segs : List seg) :
    totalEvents (segment :: segs) = eventCount segment + totalEvents segs := by
  simp [totalEvents]

@[simp]
theorem totalEvents_append (left right : List seg) :
    totalEvents (left ++ right) = totalEvents left + totalEvents right := by
  simp [totalEvents]

theorem contiguous_append {start : Nat} {left right : List seg} :
    Contiguous start (left ++ right) ↔
      Contiguous start left ∧ Contiguous (start + totalEvents left) right := by
  induction left generalizing start with
  | nil => simp [Contiguous]
  | cons segment left ih =>
      simp only [List.cons_append, Contiguous, ih, totalEvents_cons, and_assoc, Nat.add_assoc]

/-- A segment begins behind the events of the segments before it. -/
theorem Contiguous.basePosition_eq {start idx : Nat} {segs : List seg} {segment : seg}
    (contiguous : Contiguous start segs) (found : segs[idx]? = some segment) :
    basePosition segment = start + totalEvents (segs.take idx) := by
  induction segs generalizing start idx with
  | nil => simp at found
  | cons first segs ih =>
      cases idx with
      | zero =>
          obtain rfl : first = segment := by simpa using found
          simpa using contiguous.1
      | succ idx =>
          rw [List.take_succ_cons, totalEvents_cons, ← Nat.add_assoc]
          exact ih contiguous.2 (by simpa using found)

theorem totalEvents_take_le {idx other : Nat} {segs : List seg} {segment : seg}
    (before : idx < other) (found : segs[idx]? = some segment) :
    totalEvents (segs.take idx) + eventCount segment ≤ totalEvents (segs.take other) := by
  have inside := (List.getElem?_eq_some_iff.mp found).1
  have found' : segs.take other = segs.take idx ++ segment :: (segs.take other).drop (idx + 1) := by
    have here : (segs.take other)[idx]? = some segment := by
      rw [List.getElem?_take, if_pos before, found]
    obtain ⟨bound, rfl⟩ := List.getElem?_eq_some_iff.mp here
    rw [← List.drop_eq_getElem_cons]
    conv_lhs => rw [← List.take_append_drop idx (segs.take other)]
    rw [List.take_take, Nat.min_eq_left (Nat.le_of_lt before)]
  rw [found', totalEvents_append, totalEvents_cons]
  omega

theorem Contiguous.exists_owner {start position : Nat} {segs : List seg}
    (contiguous : Contiguous start segs) (started : start ≤ position)
    (inside : position < start + totalEvents segs) :
    ∃ (idx : Nat) (segment : seg), segs[idx]? = some segment ∧
      basePosition segment ≤ position ∧
      position < basePosition segment + eventCount segment := by
  induction segs generalizing start with
  | nil =>
      rw [totalEvents_nil] at inside
      omega
  | cons segment segs ih =>
      obtain ⟨base, rest⟩ := contiguous
      by_cases here : position < start + eventCount segment
      · exact ⟨0, segment, rfl, by omega, by omega⟩
      · rw [totalEvents_cons] at inside
        obtain ⟨idx, owner, found, bounds⟩ := ih rest (by omega) (by omega)
        exact ⟨idx + 1, owner, by simpa using found, bounds⟩

theorem Contiguous.end_le_base {start idx other : Nat} {segs : List seg} {first second : seg}
    (contiguous : Contiguous start segs) (before : idx < other)
    (foundFirst : segs[idx]? = some first) (foundSecond : segs[other]? = some second) :
    basePosition first + eventCount first ≤ basePosition second := by
  have counted := totalEvents_take_le before foundFirst
  rw [contiguous.basePosition_eq foundFirst, contiguous.basePosition_eq foundSecond]
  omega

/-- The search ends at the last sealed segment that begins at or before the
position. -/
theorem searchSealed_eq {source : σ} {position last lo hi : Nat} {found : Option Nat}
    (inside : hi ≤ segmentCount source)
    (low : ∀ idx segment, idx ≤ last → segmentAt source idx = some segment →
      basePosition segment ≤ position)
    (high : ∀ idx segment, last < idx → idx < segmentCount source →
      segmentAt source idx = some segment → position < basePosition segment)
    (bracket : (lo ≤ last ∧ last < hi) ∨ (last + 1 = lo ∧ found = some last)) :
    searchSealed source position lo hi found = some last := by
  induction gap : hi - lo using Nat.strong_induction_on generalizing lo hi found with
  | _ gap ih =>
      rw [searchSealed]
      by_cases opened : lo < hi
      · obtain ⟨mid, midEq⟩ : ∃ mid, mid = lo + (hi - lo) / 2 := ⟨_, rfl⟩
        have between : lo ≤ mid ∧ mid < hi := by omega
        obtain ⟨segment, here⟩ : ∃ segment, segmentAt source mid = some segment := by
          rw [segmentAt, if_pos (Nat.lt_of_lt_of_le between.2 inside)]
          exact ⟨_, List.getElem?_eq_getElem (Nat.lt_of_lt_of_le between.2 inside)⟩
        simp only [opened, if_true, ← midEq, here]
        by_cases early : mid ≤ last
        · rw [if_pos (low mid segment early here)]
          exact ih (hi - (mid + 1)) (by omega) inside (by grind) rfl
        · have beyond := high mid segment (by omega) (Nat.lt_of_lt_of_le between.2 inside) here
          rw [if_neg (Nat.not_le_of_lt beyond)]
          exact ih (mid - lo) (by omega) (by omega)
            (bracket.imp (fun inner => ⟨inner.1, by omega⟩) fun done => done) rfl
      · rw [if_neg opened]
        rcases bracket with ⟨_, _⟩ | ⟨_, same⟩
        · omega
        · exact same

/-- Of contiguous segments the one that has a position is found. -/
theorem locate_of_contiguous {source : σ} {start position : Nat}
    (contiguous : Contiguous start (segments source)) (positive : 0 < start)
    (started : start ≤ position) (inside : position < start + totalEvents (segments source)) :
    ∃ idx segment, locate source position = some (idx, segment) ∧
      (segments source)[idx]? = some segment ∧ basePosition segment ≤ position ∧
      position < basePosition segment + eventCount segment := by
  obtain ⟨idx, segment, found, low, high⟩ := contiguous.exists_owner started inside
  have activeHere : (segments source)[segmentCount source]? = some (activeSegment source) := by
    simp [segments, segmentCount]
  have bound : idx < segmentCount source + 1 := by
    simpa [segments, segmentCount] using (List.getElem?_eq_some_iff.mp found).1
  refine ⟨idx, segment, ?_, found, low, high⟩
  rw [locate, if_neg (by omega)]
  by_cases last : idx = segmentCount source
  · obtain rfl : activeSegment source = segment := by
      rw [last, activeHere] at found
      exact Option.some.inj found
    rw [if_pos low, last]
  · have behind := contiguous.end_le_base (by omega) found activeHere
    rw [if_neg (by omega), searchSealed_eq (Nat.le_refl _) _ _ (Or.inl ⟨Nat.zero_le idx, by omega⟩)]
    · simp [segmentAt_eq, found]
    · intro other earlier before here
      rw [segmentAt_eq] at here
      rcases Nat.lt_or_eq_of_le before with before | rfl
      · have := contiguous.end_le_base before here found
        omega
      · rw [found] at here
        rwa [← Option.some.inj here]
    · intro other later beyond _ here
      rw [segmentAt_eq] at here
      have := contiguous.end_le_base beyond found here
      omega

end SegmentSource

end Log

end Tephra
