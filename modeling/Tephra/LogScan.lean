import Tephra.Events
import Tephra.Positions
import Tephra.SegmentSet
import Tephra.SegmentSource

/-!
# Scanning the log

A scan yields the records of a range of positions: forward from the first one
over the segments in order, or backward from the last one.  The positions count
on by one from record to record, whatever segment a record is in.
-/

namespace Tephra

namespace Read

open Log Positions SegmentSource

/-- Why the bytes of a record are no event. -/
inductive DecodeError where
  | truncated
  | tooLarge
  | emptyType
  | emptyTag
  | invalidUtf8
  | tagsNotSorted
deriving DecidableEq, Repr

/-- A record, as it decodes. -/
abbrev Record := Except DecodeError Event

/-- A segment of the log: its records from its base position on. -/
structure Segment where
  base : Nat
  records : List Record

instance : SegmentRange Segment where
  basePosition := Segment.base
  eventCount segment := segment.records.length

/-- What a call of `next` on a scan gives, before the scan ends.  It is `none`
where the code panics. -/
abbrev ScanItem := Option (Except LogError (Nat × Record))

/-- The positions are 64-bit integers. -/
def maxPosition : Nat := 2 ^ 64 - 1

variable {σ : Type} [SegmentSource σ Segment]

namespace Scan

/-- The records from a local position of a segment on, rolling over to the
segments behind it. -/
def recordsFrom (source : σ) (segIdx local' : Nat) : List Record :=
  match (segments source).drop segIdx with
  | [] => []
  | segment :: later => segment.records.drop local' ++ later.flatMap Segment.records

/-- Yield records under consecutive positions, up to a bound. -/
def emit (upto : Nat) : (position : Nat) → List Record → List ScanItem
  | _, [] => []
  | position, record :: records =>
      if position > upto then
        []
      else if position + 1 > maxPosition then
        [none]
      else
        some (.ok (position, record)) :: emit upto (position + 1) records

/-- All that a scan from a first position up to a bound yields. -/
def start (source : σ) (first upto : Nat) : List ScanItem :=
  if first = 0 ∨ first > upto then
    []
  else
    match locate source first with
    | none => [some (.error (.notFound first))]
    | some (segIdx, segment) =>
        let local' := first - segment.base
        if local' < segment.records.length then
          emit upto first (recordsFrom source segIdx local')
        else
          [some (.error (.notFound first))]

end Scan

namespace ScanBack

/-- The segment with the next record: the current one as long as the position
has not descended below it. -/
def ensureSegment (source : σ) (position : Nat) (current : Option Segment) : Option Segment :=
  match current with
  | some segment =>
      if segment.base ≤ position then some segment else (locate source position).map Prod.snd
  | none => (locate source position).map Prod.snd

/-- Yield the records from a position down to the first one. -/
def emit (source : σ) (first : Nat) : (position : Nat) → (current : Option Segment) →
    List ScanItem
  | 0, _ => []
  | position + 1, current =>
      if position + 1 < first then
        []
      else
        match ensureSegment source (position + 1) current with
        | none => []
        | some segment =>
            match segment.records[position + 1 - segment.base]? with
            | none => [some (.error (.notFound (position + 1)))]
            | some record =>
                some (.ok (position + 1, record)) :: emit source first position (some segment)

/-- All that a scan from a last position down to the first one yields. -/
def start (source : σ) (first upto : Nat) : List ScanItem :=
  if upto = 0 ∨ max first firstPosition > upto then
    []
  else
    emit source (max first firstPosition) upto none

end ScanBack

/-- A record that a scan yields. -/
def yielded (entry : Nat × Record) : ScanItem := some (.ok entry)

/-- The records of all segments, in order. -/
def records (source : σ) : List Record := (segments source).flatMap Segment.records

theorem length_flatMap_records (segs : List Segment) :
    (segs.flatMap Segment.records).length = totalEvents segs := by
  rw [List.length_flatMap]
  rfl

variable {source : σ} {first upto : Nat}

namespace Scan

theorem emit_eq (bounded : upto < maxPosition) (position : Nat) (recs : List Record) :
    emit upto position recs =
      (positioned position (recs.take (upto + 1 - position))).map yielded := by
  induction recs generalizing position with
  | nil => simp [emit]
  | cons record recs ih =>
      rw [emit]
      by_cases beyond : position > upto
      · rw [if_pos beyond, show upto + 1 - position = 0 by omega, List.take_zero]
        rfl
      · rw [if_neg beyond, if_neg (by omega), ih,
          show upto + 1 - position = upto + 1 - (position + 1) + 1 by omega,
          List.take_succ_cons, positioned_cons]
        rfl

theorem recordsFrom_eq {start position idx : Nat} {segment : Segment}
    (contiguous : Contiguous start (segments source))
    (found : (segments source)[idx]? = some segment) (low : segment.base ≤ position)
    (high : position ≤ segment.base + segment.records.length) :
    recordsFrom source idx (position - segment.base) =
      (records source).drop (position - start) := by
  have base := contiguous.basePosition_eq found
  obtain ⟨bound, here⟩ := List.getElem?_eq_some_iff.mp found
  have split : records source = ((segments source).take idx).flatMap Segment.records ++
      (segment.records ++ ((segments source).drop (idx + 1)).flatMap Segment.records) := by
    rw [records, ← List.flatMap_cons, ← here, ← List.drop_eq_getElem_cons,
      ← List.flatMap_append, List.take_append_drop]
  change segment.base = _ at base
  have front : (((segments source).take idx).flatMap Segment.records).drop (position - start) =
      [] :=
    List.drop_of_length_le (by rw [length_flatMap_records]; omega)
  rw [recordsFrom, List.drop_eq_getElem_cons bound, here, split, List.drop_append, front,
    List.nil_append, List.drop_append, length_flatMap_records,
    show position - start - totalEvents ((segments source).take idx) = position - segment.base by
      omega,
    show position - segment.base - segment.records.length = 0 by omega, List.drop_zero]

theorem start_eq (contiguous : Contiguous firstPosition (segments source))
    (inside : upto < firstPosition + (records source).length) (bounded : upto < maxPosition) :
    start source first upto =
      if first = 0 then [] else
        (between first upto firstPosition (records source)).map yielded := by
  rw [start]
  by_cases zero : first = 0
  · rw [if_pos (Or.inl zero), if_pos zero]
  rw [if_neg zero]
  by_cases beyond : first > upto
  · rw [if_pos (Or.inr beyond), between_eq_nil (Or.inr (Or.inr beyond)), List.map_nil]
  have started : firstPosition ≤ first := Nat.pos_of_ne_zero zero
  rw [records, length_flatMap_records] at inside
  obtain ⟨idx, segment, located, found, low, high⟩ :=
    locate_of_contiguous contiguous Nat.one_pos started (by omega)
  change segment.base ≤ first at low
  change first < segment.base + segment.records.length at high
  simp only [not_or.mpr ⟨zero, beyond⟩, if_false, located]
  rw [if_pos (by omega), emit_eq bounded, recordsFrom_eq contiguous found low (by omega),
    between_eq_slice started]

end Scan

namespace ScanBack

/-- The segment at hand, if any, does not end before a position. -/
def EndsBehind (source : σ) (position : Nat) (current : Option Segment) : Prop :=
  ∀ segment, current = some segment → ∃ idx : Nat, (segments source)[idx]? = some segment ∧
    position < segment.base + segment.records.length

/-- The segment at hand has the position, or a lookup finds the one that has. -/
theorem ensureSegment_eq (contiguous : Contiguous firstPosition (segments source))
    {position : Nat} (started : firstPosition ≤ position)
    (inside : position < firstPosition + (records source).length) {current : Option Segment}
    (near : EndsBehind source position current) :
    ∃ (idx : Nat) (segment : Segment), ensureSegment source position current = some segment ∧
      (segments source)[idx]? = some segment ∧ segment.base ≤ position ∧
      position < segment.base + segment.records.length := by
  rw [records, length_flatMap_records] at inside
  obtain ⟨idx, segment, located, found, low, high⟩ :=
    locate_of_contiguous contiguous Nat.one_pos started inside
  cases current with
  | none => exact ⟨idx, segment, by simp [ensureSegment, located], found, low, high⟩
  | some here =>
      by_cases same : here.base ≤ position
      · obtain ⟨other, foundOther, bound⟩ := near here rfl
        exact ⟨other, here, by simp [ensureSegment, same], foundOther, same, bound⟩
      · exact ⟨idx, segment, by simp [ensureSegment, same, located], found, low, high⟩

theorem getElem?_records (contiguous : Contiguous firstPosition (segments source))
    {position idx : Nat} {segment : Segment} (found : (segments source)[idx]? = some segment)
    (low : segment.base ≤ position) (high : position < segment.base + segment.records.length) :
    (records source)[position - firstPosition]? = segment.records[position - segment.base]? := by
  have rest := Scan.recordsFrom_eq contiguous found low high.le
  obtain ⟨bound, here⟩ := List.getElem?_eq_some_iff.mp found
  have head := congrArg (fun recs => recs[0]?) rest
  rw [Scan.recordsFrom, List.drop_eq_getElem_cons bound, here] at head
  simp only [List.getElem?_drop, Nat.add_zero] at head
  rw [← head, List.getElem?_append_left (by rw [List.length_drop]; omega), List.getElem?_drop,
    Nat.add_zero]

theorem emit_eq (contiguous : Contiguous firstPosition (segments source))
    (started : firstPosition ≤ first) {position : Nat}
    (inside : position < firstPosition + (records source).length) {current : Option Segment}
    (near : EndsBehind source position current) :
    emit source first position current =
      ((between first position firstPosition (records source)).map yielded).reverse := by
  induction position generalizing current with
  | zero =>
      rw [between_eq_nil (Or.inr (Or.inl (show 0 < firstPosition from Nat.one_pos)))]
      rfl
  | succ position ih =>
      rw [emit]
      by_cases below : position + 1 < first
      · rw [if_pos below, between_eq_nil (Or.inr (Or.inr below))]
        rfl
      · rw [if_neg below]
        obtain ⟨idx, segment, ensured, found, low, high⟩ :=
          ensureSegment_eq contiguous (started.trans (by omega)) inside near
        obtain ⟨record, inSegment⟩ : ∃ record,
            segment.records[position + 1 - segment.base]? = some record :=
          ⟨_, List.getElem?_eq_getElem (by omega)⟩
        have here := (getElem?_records contiguous found low high).trans inSegment
        simp only [ensured, inSegment]
        rw [between_snoc started (by omega) here, ih (by omega), List.map_append,
          List.reverse_append]
        · rfl
        · rintro _ ⟨⟩
          exact ⟨idx, found, by omega⟩

/-- A backward scan yields the records of its range from the last one down. -/
theorem start_eq (contiguous : Contiguous firstPosition (segments source))
    (inside : upto < firstPosition + (records source).length) :
    start source first upto =
      ((between first upto firstPosition (records source)).map yielded).reverse := by
  have clamped : between first upto firstPosition (records source) =
      between (max first firstPosition) upto firstPosition (records source) := by
    apply List.filter_congr
    rintro ⟨position, record⟩ member
    have placed := (mem_positioned.mp member).1
    simp only [decide_eq_decide]
    omega
  rw [start, clamped]
  by_cases empty : upto = 0 ∨ max first firstPosition > upto
  · rw [if_pos empty, between_eq_nil (by
      rcases empty with zero | beyond
      · exact Or.inr (Or.inl (by rw [zero]; exact (show 0 < firstPosition from Nat.one_pos)))
      · exact Or.inr (Or.inr beyond))]
    rfl
  · rw [if_neg empty]
    apply emit_eq contiguous (le_max_right _ _) inside
    rintro _ ⟨⟩

end ScanBack

end Read

end Tephra
