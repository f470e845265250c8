import Tephra.Histories
import Tephra.IndexRecovery
import Tephra.SealedIndex

/-!
# The indexes of a log

The index set has one index for each sealed segment of the log and the tail of the
active one.  Segments are disjoint and in order, so the answers of their indexes are put
one behind the other.  A segment with too many types has no index: a query that touches
it is refused, and the log has to be scanned.
-/

namespace Tephra

namespace Index

open Positions SortedMaps

/-- Positions from the first one to the last one. -/
structure PositionRange where
  first : Nat
  last : Nat
deriving DecidableEq, Repr

/-- Positions that cannot be answered from the index. -/
inductive IndexError where
  | unindexable (range : PositionRange)
deriving DecidableEq, Repr

variable (format : MapFormat)

/-- The slot of a sealed segment.  A segment with too many types has no index. -/
structure SealedIndex where
  base : Nat
  count : Nat
  seg : Option (IndexSegment format)

/-- The indexes of a log.  The span counts the events of the active segment, also those
that were not fed any more. -/
structure IndexSet where
  sealed : List (SealedIndex format)
  active : ActiveTail
  activeBase : Nat
  activeSpan : Nat
  activeUnindexable : Bool

/-- A segment that a query touches. -/
inductive Touched where
  | seg (seg : IndexSegment format)
  | active (tail : ActiveTail)

variable {format}

/-- The last position of a segment, unless the segment is empty. -/
def SealedIndex.maxPosition (self : SealedIndex format) : Option Nat :=
  if self.count > 0 then some (self.base + self.count - 1) else none

/-- The matching positions of a touched segment. -/
def Touched.search (self : Touched format) (query : Query) (after : Nat) : List Nat :=
  match self with
  | .seg built => Index.search built query after
  | .active tail => Index.search tail.viewFull query after

/-- The first match of touched segments. -/
def firstMatch (query : Query) (after : Nat) : List (Touched format) → Option Nat
  | [] => none
  | touched :: plan =>
      match (touched.search query after).head? with
      | some first => some first
      | none => firstMatch query after plan

/-- The sealed segments with positions after a bound. -/
def touchSealed (after : Nat) :
    List (SealedIndex format) → Except IndexError (List (Touched format))
  | [] => .ok []
  | entry :: entries =>
      match entry.maxPosition with
      | none => touchSealed after entries
      | some last =>
          if last ≤ after then
            touchSealed after entries
          else
            match entry.seg with
            | none => .error (.unindexable ⟨entry.base, last⟩)
            | some built => (touchSealed after entries).map (.seg built :: ·)

namespace IndexSet

/-- The indexes of an empty log whose first event will sit at a position. -/
def new (format : MapFormat) (base : Nat) : IndexSet format :=
  ⟨[], ActiveTail.new base, base, 0, false⟩

/-- Feed the event of a position.  An event too many latches the active segment
unindexable.  The result is `none` where the code panics. -/
def push (self : IndexSet format) (position : Nat) (event : Event) : Option (IndexSet format) :=
  let self := { self with activeSpan := self.activeSpan + 1 }
  if self.activeUnindexable then
    some self
  else
    match self.active.push position event with
    | none => none
    | some (.error _) =>
        some { self with activeUnindexable := true, active := self.active.markUnindexable }
    | some (.ok active) => some { self with active := active }

/-- The index that the active segment is sealed to; one with too many types has none.  The
outer result is `none` where the code panics. -/
def sealSegment (crc : List UInt8 → UInt32) (createdAtNanos : Nat) (self : IndexSet format) :
    Option (Option (IndexSegment format)) :=
  if self.activeUnindexable then
    some none
  else
    match encodeAt format crc self.active createdAtNanos with
    | none => none
    | some data =>
        match IndexSegment.fromBytes format crc data with
        | .error _ => none
        | .ok built => some (some built)

/-- Seal the active segment, and start a fresh one. -/
def sealActive (crc : List UInt8 → UInt32) (newBase createdAtNanos : Nat)
    (self : IndexSet format) : Option (IndexSet format) :=
  (self.sealSegment crc createdAtNanos).map fun seg =>
    ⟨self.sealed ++ [⟨self.activeBase, self.activeSpan, seg⟩], ActiveTail.new newBase, newBase, 0,
      false⟩

/-- The segments that a query for positions after a bound touches, in order. -/
def planTouched (self : IndexSet format) (after : Nat) : Except IndexError (List (Touched format)) :=
  match touchSealed after self.sealed with
  | .error error => .error error
  | .ok plan =>
      if self.activeSpan > 0 ∧ self.activeBase + self.activeSpan - 1 > after then
        if self.activeUnindexable then
          .error (.unindexable ⟨self.activeBase, self.activeBase + self.activeSpan - 1⟩)
        else
          .ok (plan ++ [.active self.active])
      else
        .ok plan

/-- The matching positions after a bound, over all segments. -/
def searchAll (self : IndexSet format) (query : Query) (after : Nat) :
    Except IndexError (List Nat) :=
  (self.planTouched after).map fun plan => plan.flatMap fun touched => touched.search query after

/-- The first matching position after a bound. -/
def findMatch (self : IndexSet format) (query : Query) (after : Nat) :
    Except IndexError (Option Nat) :=
  (self.planTouched after).map (firstMatch query after)

end IndexSet

/-- The matching positions of a log after a bound. -/
def matchesAfter (query : Query) (after base : Nat) (events : List Event) : List Nat :=
  (positionsWhere query.matches base events).filter (after < ·)

theorem mem_matchesAfter {query : Query} {after base position : Nat} {events : List Event} :
    position ∈ matchesAfter query after base events ↔
      after < position ∧
        ∃ event, (position, event) ∈ positioned base events ∧ query.matches event = true := by
  rw [matchesAfter, List.mem_filter, mem_positionsWhere, decide_eq_true_eq, and_comm]
  simp only [mem_positioned, and_assoc]

theorem pairwise_matchesAfter (query : Query) (after base : Nat) (events : List Event) :
    (matchesAfter query after base events).Pairwise (· < ·) :=
  (pairwise_positionsWhere base events).filter _

theorem matchesAfter_append (query : Query) (after base : Nat) (left right : List Event) :
    matchesAfter query after base (left ++ right) =
      matchesAfter query after base left ++
        matchesAfter query after (base + left.length) right := by
  rw [matchesAfter, positionsWhere_append, List.filter_append]
  rfl

theorem matchesAfter_eq_nil {query : Query} {after base : Nat} {events : List Event}
    (before : base + events.length ≤ after + 1) : matchesAfter query after base events = [] := by
  apply List.eq_nil_iff_forall_not_mem.mpr
  intro position member
  obtain ⟨beyond, event, placed, _⟩ := mem_matchesAfter.mp member
  obtain ⟨started, found⟩ := mem_positioned.mp placed
  have bound := (List.getElem?_eq_some_iff.mp found).1
  omega

theorem firstMatch_eq (query : Query) (after : Nat) (plan : List (Touched format)) :
    firstMatch query after plan =
      (plan.flatMap fun touched => touched.search query after).head? := by
  induction plan with
  | nil => rfl
  | cons touched plan ih =>
      rw [firstMatch, List.flatMap_cons, List.head?_append, ih]
      cases (touched.search query after).head? <;> rfl

/-- Events with more types than a segment can index. -/
def OverLimit (events : List Event) : Prop := maxTypeId + 1 < (distinctTypes events).length

/-- A slot has the index of the events of its segment, unless they have too many types.
No lookup in the index panics. -/
structure SealedIndex.Holds (entry : SealedIndex format) (base : Nat) (events : List Event) :
    Prop where
  base_eq : entry.base = base
  count_eq : entry.count = events.length
  indexed : ∀ seg, entry.seg = some seg → Indexes seg base events ∧
    (∀ tag, (seg.termPostings tag).isSome) ∧ ∀ i < events.length, (seg.typeAt i).isSome
  excess : entry.seg = none → OverLimit events

/-- Slots of contiguous segments from a base on. -/
inductive SealedHold : Nat → List (SealedIndex format) → List (List Event) → Prop
  | nil (base : Nat) : SealedHold base [] []
  | cons {base : Nat} {entry : SealedIndex format} {events : List Event}
      {entries : List (SealedIndex format)} {segs : List (List Event)}
      (first : entry.Holds base events) (later : SealedHold (base + events.length) entries segs) :
      SealedHold base (entry :: entries) (events :: segs)

theorem ActiveTail.Holds.markUnindexable {tail : ActiveTail} {base : Nat} {events : List Event}
    (holds : tail.Holds base events) : tail.markUnindexable.Holds base events where
  base_eq := holds.base_eq
  terms := ⟨holds.terms.dense, holds.terms.slots, holds.terms.absent_iff⟩
  tags_le := holds.tags_le
  types := holds.types
  column := holds.column

/-- The active tail has been fed the events before the first one that was refused. -/
structure IndexSet.ActiveHolds (set : IndexSet format) (base : Nat) (events : List Event) :
    Prop where
  base_eq : set.activeBase = base
  span_eq : set.activeSpan = events.length
  fits : FitsSegment events
  fed : ∃ fed rest, events = fed ++ rest ∧ set.active.Holds base fed ∧
    (set.activeUnindexable = false → rest = []) ∧ (set.activeUnindexable = true → OverLimit events)

/-- A range is a segment with positions after a bound and with too many types. -/
def OverLimitAt (base : Nat) (segs : List (List Event)) (range : PositionRange) (after : Nat) :
    Prop :=
  ∃ before events later, segs = before ++ events :: later ∧ OverLimit events ∧
    range.first = base + before.flatten.length ∧ range.last + 1 = range.first + events.length ∧
    after < range.last

theorem OverLimitAt.cons {base after : Nat} {segs : List (List Event)} {range : PositionRange}
    {events : List Event} (excess : OverLimitAt (base + events.length) segs range after) :
    OverLimitAt base (events :: segs) range after := by
  obtain ⟨before, found, later, segsEq, tooMany, firstEq, lastEq, touched⟩ := excess
  refine ⟨events :: before, found, later, ?_, tooMany, ?_, lastEq, touched⟩
  · rw [segsEq]
    rfl
  · rw [firstEq, List.flatten_cons, List.length_append, Nat.add_assoc]

theorem SealedHold.snoc {base : Nat} {entries : List (SealedIndex format)}
    {segs : List (List Event)} (hold : SealedHold base entries segs) {entry : SealedIndex format}
    {events : List Event} (last : entry.Holds (base + segs.flatten.length) events) :
    SealedHold base (entries ++ [entry]) (segs ++ [events]) := by
  induction hold with
  | nil base => exact .cons last (.nil _)
  | cons first later ih =>
      rw [List.flatten_cons, List.length_append, ← Nat.add_assoc] at last
      exact .cons first (ih last)

/-- The sealed segments that a query touches yield the matches in them, unless one of
them has too many types. -/
theorem touchSealed_cases {base : Nat} {entries : List (SealedIndex format)}
    {segs : List (List Event)} (hold : SealedHold base entries segs) (after : Nat) :
    (∃ plan, touchSealed after entries = .ok plan ∧
      ∀ query, plan.flatMap (fun touched => touched.search query after) =
        matchesAfter query after base segs.flatten) ∨
    ∃ range, touchSealed after entries = .error (.unindexable range) ∧
      OverLimitAt base segs range after := by
  induction hold with
  | nil base => exact .inl ⟨[], rfl, fun _ => rfl⟩
  | @cons base entry events entries segs first later ih =>
      have maxEq : entry.maxPosition =
          if events.length > 0 then some (base + events.length - 1) else none := by
        rw [SealedIndex.maxPosition, first.base_eq, first.count_eq]
      by_cases touches : events.length > 0 ∧ after < base + events.length - 1
      · obtain ⟨nonempty, beyond⟩ := touches
        rw [if_pos nonempty] at maxEq
        simp only [touchSealed, maxEq, if_neg (Nat.not_le_of_lt beyond)]
        cases built : entry.seg with
        | none =>
            refine .inr ⟨_, rfl, [], events, segs, rfl, first.excess built, ?_, ?_, beyond⟩
            · exact first.base_eq
            · change base + events.length - 1 + 1 = entry.base + events.length
              rw [first.base_eq]
              omega
        | some seg =>
            rcases ih with ⟨plan, planned, found⟩ | ⟨range, refused, excess⟩
            · refine .inl ⟨.seg seg :: plan, by rw [planned]; rfl, fun query => ?_⟩
              rw [List.flatMap_cons, found, List.flatten_cons, matchesAfter_append]
              congr 1
              exact (first.indexed seg built).1.search_eq query after
            · exact .inr ⟨range, by rw [refused]; rfl, excess.cons⟩
      · have skipped : touchSealed after (entry :: entries) = touchSealed after entries := by
          rw [touchSealed, maxEq]
          by_cases nonempty : events.length > 0
          · rw [if_pos nonempty]
            dsimp only
            rw [if_pos (by omega)]
          · rw [if_neg nonempty]
        rw [skipped]
        rcases ih with ⟨plan, planned, found⟩ | ⟨range, refused, excess⟩
        · refine .inl ⟨plan, planned, fun query => ?_⟩
          have nothing : matchesAfter query after base events = [] := by
            by_cases nonempty : events.length > 0
            · exact matchesAfter_eq_nil (by omega)
            · have empty : events = [] := List.length_eq_zero_iff.mp (by omega)
              rw [empty]
              rfl
          rw [found, List.flatten_cons, matchesAfter_append, nothing, List.nil_append]
        · exact .inr ⟨range, refused, excess.cons⟩

/-- The indexes of a log hold its sealed segments and its active one. -/
structure IndexSet.Holds (set : IndexSet format) (base : Nat) (segs : List (List Event))
    (current : List Event) : Prop where
  sealed_hold : SealedHold base set.sealed segs
  active_holds : set.ActiveHolds (base + segs.flatten.length) current

namespace IndexSet

variable {set : IndexSet format} {base : Nat} {segs : List (List Event)} {current : List Event}

theorem activeHolds_fresh (sealed : List (SealedIndex format)) (base : Nat) :
    ActiveHolds ⟨sealed, ActiveTail.new base, base, 0, false⟩ base [] := by
  refine ⟨rfl, rfl, ?_, [], [], rfl, ActiveTail.holds_new base, fun _ => rfl, by simp⟩
  simp [FitsSegment, segmentBytes]

theorem holds_new (base : Nat) : (new format base).Holds base [] [] where
  sealed_hold := .nil base
  active_holds := activeHolds_fresh [] base

/-- The segments that a query touches yield the matches of the log, unless one of them has
too many types. -/
theorem Holds.planTouched_cases (holds : set.Holds base segs current) (after : Nat) :
    (∃ plan, set.planTouched after = .ok plan ∧
      ∀ query, plan.flatMap (fun touched => touched.search query after) =
        matchesAfter query after base (segs.flatten ++ current)) ∨
    ∃ range, set.planTouched after = .error (.unindexable range) ∧
      OverLimitAt base (segs ++ [current]) range after := by
  obtain ⟨baseEq, spanEq, fits, fed, rest, split, tail, whole, excess⟩ := holds.active_holds
  rcases touchSealed_cases holds.sealed_hold after with
    ⟨plan, planned, found⟩ | ⟨range, refused, before, events, later, segsEq, tooMany⟩
  · simp only [planTouched, planned, baseEq, spanEq]
    by_cases touches : current.length > 0 ∧ base + segs.flatten.length + current.length - 1 > after
    · rw [if_pos touches]
      cases latched : set.activeUnindexable with
      | true =>
          refine .inr ⟨_, rfl, segs, current, [], rfl, excess latched, rfl, ?_, touches.2⟩
          change base + segs.flatten.length + current.length - 1 + 1 =
            base + segs.flatten.length + current.length
          omega
      | false =>
          obtain rfl := whole latched
          rw [List.append_nil] at split
          subst split
          refine .inl ⟨plan ++ [.active set.active], rfl, fun query => ?_⟩
          rw [List.flatMap_append, found, matchesAfter_append]
          congr 1
          rw [List.flatMap_singleton]
          exact (tail.indexes_viewFull fits).search_eq query after
    · rw [if_neg touches]
      refine .inl ⟨plan, rfl, fun query => ?_⟩
      have nothing : matchesAfter query after (base + segs.flatten.length) current = [] := by
        by_cases nonempty : current.length > 0
        · exact matchesAfter_eq_nil (by omega)
        · have empty : current = [] := List.length_eq_zero_iff.mp (by omega)
          rw [empty]
          rfl
      rw [found, matchesAfter_append, nothing, List.append_nil]
  · refine .inr ⟨range, by rw [planTouched, refused], before, events, later ++ [current], ?_,
      tooMany⟩
    rw [segsEq, List.append_assoc]
    rfl

/-- A query is answered as the log would answer it, or refused for a touched segment with
too many types. -/
theorem Holds.answers (holds : set.Holds base segs current) (query : Query) (after : Nat) :
    (set.searchAll query after = .ok (matchesAfter query after base (segs.flatten ++ current)) ∧
      set.findMatch query after =
        .ok (matchesAfter query after base (segs.flatten ++ current)).head?) ∨
    ∃ range, set.searchAll query after = .error (.unindexable range) ∧
      set.findMatch query after = .error (.unindexable range) ∧
      OverLimitAt base (segs ++ [current]) range after := by
  rw [searchAll, findMatch]
  rcases holds.planTouched_cases after with ⟨plan, planned, found⟩ | ⟨range, refused, excess⟩
  · rw [planned, ← found]
    refine .inl ⟨rfl, ?_⟩
    rw [← firstMatch_eq]
    rfl
  · rw [refused]
    exact .inr ⟨range, rfl, rfl, excess⟩

/-- An event that is fed in order belongs to the active segment. -/
theorem Holds.push (holds : set.Holds base segs current) {position : Nat} {event : Event}
    (placed : position = base + (segs.flatten ++ current).length)
    (fits : FitsSegment (current ++ [event])) :
    ∃ next, set.push position event = some next ∧ next.Holds base segs (current ++ [event]) := by
  obtain ⟨hold, baseEq, spanEq, -, fed, rest, split, tail, whole, excess⟩ := holds
  have more : OverLimit current → OverLimit (current ++ [event]) := fun tooMany =>
    Nat.lt_of_lt_of_le tooMany (length_distinctTypes_mono (List.subset_append_left _ _))
  have spanNext : set.activeSpan + 1 = (current ++ [event]).length := by
    rw [spanEq, List.length_append, List.length_singleton]
  rw [IndexSet.push]
  cases latched : set.activeUnindexable with
  | true =>
      refine ⟨_, rfl, hold, baseEq, spanNext, fits, fed, rest ++ [event], ?_, tail, ?_,
        fun _ => more (excess latched)⟩
      · rw [split, List.append_assoc]
      · simp
  | false =>
      obtain rfl := whole latched
      rw [List.append_nil] at split
      subst split
      rw [List.length_append, ← Nat.add_assoc] at placed
      subst placed
      simp only [Bool.false_eq_true, if_false]
      rcases tail.push fits with ⟨next, pushed, nextHolds, sameFlag⟩ | ⟨refused, tooMany⟩
      · rw [pushed]
        exact ⟨_, rfl, hold, baseEq, spanNext, fits, current ++ [event], [], by simp,
          nextHolds, fun _ => rfl, by simp⟩
      · rw [refused]
        exact ⟨_, rfl, hold, baseEq, spanNext, fits, current, [event], rfl,
          tail.markUnindexable, by simp, fun _ => tooMany⟩

theorem Holds.sealSegment (lawful : format.Lawful) (crc : List UInt8 → UInt32)
    (holds : set.Holds base segs current) {createdAtNanos : Nat}
    {seg : Option (IndexSegment format)} (baseFits : base + segs.flatten.length < 2 ^ 64)
    (createdFits : createdAtNanos < 2 ^ 64)
    (built : set.sealSegment crc createdAtNanos = some seg) :
    SealedIndex.Holds ⟨set.activeBase, set.activeSpan, seg⟩ (base + segs.flatten.length)
      current := by
  obtain ⟨-, baseEq, spanEq, fits, fed, rest, split, tail, whole, excess⟩ := holds
  rw [IndexSet.sealSegment] at built
  cases latched : set.activeUnindexable with
  | true =>
      rw [latched, if_pos rfl] at built
      cases built
      exact ⟨baseEq, spanEq, by simp, fun _ => excess latched⟩
  | false =>
      obtain rfl := whole latched
      rw [List.append_nil] at split
      subst split
      simp only [latched, Bool.false_eq_true, if_false] at built
      cases written : encodeAt format crc set.active createdAtNanos with
      | none => simp [written] at built
      | some data =>
          cases opened : IndexSegment.fromBytes format crc data with
          | error error => simp [written, opened] at built
          | ok segment =>
              simp only [written, opened, Option.some.injEq] at built
              subst built
              have answers := tail.answers_of_encodeAt format crc lawful fits baseFits createdFits
                written opened
              have indexes := tail.indexes_viewFull fits
              refine ⟨baseEq, spanEq, ?_, by simp⟩
              rintro found ⟨⟩
              refine ⟨answers.indexes format indexes, fun tag => ?_, fun i inside => ?_⟩
              · rw [answers.termPostings_eq tag]
                rfl
              · rw [answers.typeAt_eq i (indexes.len_eq ▸ inside)]
                rfl

/-- A sealed active segment is the last of the sealed ones. -/
theorem Holds.sealActive (lawful : format.Lawful) (crc : List UInt8 → UInt32)
    (holds : set.Holds base segs current) {newBase createdAtNanos : Nat} {next : IndexSet format}
    (placed : newBase = base + (segs.flatten ++ current).length) (baseFits : newBase < 2 ^ 64)
    (createdFits : createdAtNanos < 2 ^ 64)
    (taken : set.sealActive crc newBase createdAtNanos = some next) :
    next.Holds base (segs ++ [current]) [] := by
  obtain ⟨seg, built, rfl⟩ := Option.map_eq_some_iff.mp taken
  rw [List.length_append, ← Nat.add_assoc] at placed
  have entry := holds.sealSegment lawful crc (by omega) createdFits built
  refine ⟨holds.sealed_hold.snoc entry, ?_⟩
  have nextBase : base + (segs ++ [current]).flatten.length = newBase := by
    rw [placed, List.flatten_append]
    simp [Nat.add_assoc]
  rw [nextBase]
  exact activeHolds_fresh _ newBase

end IndexSet

/-- A call of the writer. -/
inductive IndexStep where
  | push (position : UInt64) (event : Event)
  | sealActive (newBase createdAtNanos : UInt64)

/-- An index set, and the events of the log from a base on: those of the sealed segments and
those of the active one. -/
structure Fed (format : MapFormat) where
  set : IndexSet format
  base : Nat
  segs : List (List Event)
  current : List Event

namespace Fed

/-- An empty log. -/
def new (format : MapFormat) (base : Nat) : Fed format := ⟨IndexSet.new format base, base, [], []⟩

/-- All events of the log. -/
def events (self : Fed format) : List Event := self.segs.flatten ++ self.current

/-- The position of the next event. -/
def nextPosition (self : Fed format) : Nat := self.base + self.events.length

/-- A call, unless it panics. -/
def step (crc : List UInt8 → UInt32) (self : Fed format) : IndexStep → Option (Fed format)
  | .push position event =>
      (self.set.push position.toNat event).map fun set =>
        { self with set := set, current := self.current ++ [event] }
  | .sealActive newBase createdAtNanos =>
      (self.set.sealActive crc newBase.toNat createdAtNanos.toNat).map fun set =>
        { self with set := set, segs := self.segs ++ [self.current], current := [] }

/-- A call comes in position order, and the events of a segment fit a segment of the log. -/
def StepAllowed (self : Fed format) : IndexStep → Prop
  | .push position event =>
      position.toNat = self.nextPosition ∧ FitsSegment (self.current ++ [event])
  | .sealActive newBase _ => newBase.toNat = self.nextPosition

/-- The indexes hold the log. -/
def Sound (self : Fed format) : Prop := self.set.Holds self.base self.segs self.current

theorem sound_step (lawful : format.Lawful) (crc : List UInt8 → UInt32) {self next : Fed format}
    {label : IndexStep} (sound : self.Sound) (allowed : self.StepAllowed label)
    (taken : self.step crc label = some next) : next.Sound := by
  cases label with
  | push position event =>
      obtain ⟨placed, fits⟩ := allowed
      obtain ⟨set, pushed, rfl⟩ := Option.map_eq_some_iff.mp taken
      obtain ⟨after, pushedAfter, holds⟩ := IndexSet.Holds.push sound placed fits
      rw [pushed] at pushedAfter
      obtain rfl := Option.some.inj pushedAfter
      exact holds
  | sealActive newBase createdAtNanos =>
      obtain ⟨set, made, rfl⟩ := Option.map_eq_some_iff.mp taken
      exact IndexSet.Holds.sealActive lawful crc sound allowed newBase.toNat_lt
        createdAtNanos.toNat_lt made

/-- After every history that feeds a log, the index set answers every query as the log does,
or refuses it for a touched segment with too many types. -/
theorem index_agrees_with_log (lawful : format.Lawful) (crc : List UInt8 → UInt32) {base : Nat}
    {steps : List IndexStep} {fed : Fed format}
    (allowed : Histories.Allowed (step crc) StepAllowed (new format base) steps)
    (ran : Histories.run (step crc) (new format base) steps = some fed) (query : Query)
    (after : Nat) :
    (∃ found, fed.set.searchAll query after = .ok found ∧ found.Pairwise (· < ·) ∧
      (∀ position, position ∈ found ↔ after < position ∧ ∃ event,
        (position, event) ∈ positioned fed.base fed.events ∧ query.matches event = true) ∧
      fed.set.findMatch query after = .ok found.head?) ∨
    ∃ range, fed.set.searchAll query after = .error (.unindexable range) ∧
      fed.set.findMatch query after = .error (.unindexable range) ∧
      OverLimitAt fed.base (fed.segs ++ [fed.current]) range after := by
  have start : (new format base).Sound := IndexSet.holds_new base
  have sound : fed.Sound := Histories.invariant_of_run
    (fun _ _ _ sound allowed taken => sound_step lawful crc sound allowed taken) start allowed ran
  rcases IndexSet.Holds.answers sound query after with ⟨all, first⟩ | refused
  · exact .inl ⟨_, all, pairwise_matchesAfter .., fun _ => mem_matchesAfter, first⟩
  · exact .inr refused

/-- Two segments, the first of which is sealed. -/
def threeSteps : List IndexStep :=
  [.push 1 ⟨letterA, Tags.single letterB, []⟩, .push 2 ⟨letterB, Tags.empty, []⟩, .sealActive 3 7,
    .push 3 ⟨letterA, Tags.single letterB, []⟩]

theorem index_agrees_with_log_threeSteps :
    ∃ fed, Histories.run (step Seglog.crc32) (new flatTable 1) threeSteps = some fed ∧
      fed.set.searchAll (.items [⟨[], Tags.single letterB⟩]) 0 = .ok [1, 3] ∧
      fed.set.findMatch (.items [⟨[], Tags.single letterB⟩]) 0 = .ok (some 1) := by
  have computed : (Histories.run (step Seglog.crc32) (new flatTable 1) threeSteps).any (fun fed =>
      decide (fed.set.searchAll (.items [⟨[], Tags.single letterB⟩]) 0 = .ok [1, 3])) = true := by
    decide +kernel
  obtain ⟨fed, ran, answered⟩ := (Option.any_eq_true _ _).mp computed
  have found := of_decide_eq_true answered
  have allowed : Histories.Allowed (step Seglog.crc32) StepAllowed (new flatTable 1)
      threeSteps := by
    have fits : FitsSegment [⟨letterA, Tags.single letterB, []⟩, ⟨letterB, Tags.empty, []⟩] := by
      rw [FitsSegment]
      decide +kernel
    have single : FitsSegment [⟨letterA, Tags.single letterB, []⟩] := by
      rw [FitsSegment]
      decide +kernel
    refine ⟨⟨rfl, single⟩, fun next taken => ?_⟩
    rw [step] at taken
    obtain ⟨_, _, rfl⟩ := Option.map_eq_some_iff.mp taken
    refine ⟨⟨rfl, fits⟩, fun next taken => ?_⟩
    rw [step] at taken
    obtain ⟨_, _, rfl⟩ := Option.map_eq_some_iff.mp taken
    refine ⟨rfl, fun next taken => ?_⟩
    rw [step] at taken
    obtain ⟨_, _, rfl⟩ := Option.map_eq_some_iff.mp taken
    exact ⟨⟨rfl, single⟩, fun _ _ => trivial⟩
  rcases index_agrees_with_log flatTable_lawful Seglog.crc32 allowed ran
    (.items [⟨[], Tags.single letterB⟩]) 0 with ⟨all, answer, -, -, first⟩ | ⟨range, refused, -⟩
  · rw [found] at answer
    obtain rfl := Except.ok.inj answer
    exact ⟨fed, ran, found, first⟩
  · rw [found] at refused
    cases refused

end Fed

end Index

end Tephra
