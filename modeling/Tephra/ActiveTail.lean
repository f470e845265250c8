import Tephra.ChunkedColumns
import Tephra.DenseIds
import Tephra.IndexSearch
import Tephra.RecordFraming

/-!
# The index of the active segment

The writer feeds the events of the active segment into an in-memory index: a
table of the tags with a posting slot each, and a table of the types with a
column of type ids.  A view of the tail up to a watermark indexes the events up
to there.  A segment can hold only 65536 distinct types: the event with the next
one is refused and changes nothing.
-/

namespace Tephra

namespace Index

open AscendingLists DenseIds Positions

/-- The largest type id. -/
def maxTypeId : Nat := 2 ^ 16 - 1

/-- An event was refused: its type does not fit the type column. -/
structure TooManyTypes where
  max : Nat
deriving DecidableEq, Repr

/-- The index of the active segment. -/
structure ActiveTail where
  base : Nat
  typeColumn : ChunkedVec Nat
  postings : ChunkedVec PostingSlot
  tags : List (Tag × Nat)
  types : List (EventType × Nat)
  unindexable : Bool
deriving DecidableEq

/-- The tail as a reader sees it: only the first local positions. -/
structure ActiveView where
  base : Nat
  uptoLen : Nat
  typeColumn : ChunkedVec Nat
  postings : ChunkedVec PostingSlot
  tags : List (Tag × Nat)
  types : List (EventType × Nat)
deriving DecidableEq

namespace ActiveTail

/-- An index whose first event will sit at a position. -/
def new (base : Nat) : ActiveTail :=
  ⟨base, ChunkedVec.new, ChunkedVec.new, [], [], false⟩

/-- The identifier of a tag; a new tag gets an empty slot. -/
def internTag (self : ActiveTail) (tag : Tag) : Nat × ActiveTail :=
  match self.tags.lookup tag with
  | some id => (id, self)
  | none =>
      let (id, postings) := self.postings.pushWith fun slot => slot
      (id, { self with postings := postings, tags := self.tags ++ [(tag, id)] })

/-- The identifier of a type, refusing one more than the column can hold. -/
def internType (self : ActiveTail) (name : EventType) : Except TooManyTypes (Nat × ActiveTail) :=
  match self.types.lookup name with
  | some id => .ok (id, self)
  | none =>
      let next := self.types.length
      if next > maxTypeId then
        .error ⟨maxTypeId + 1⟩
      else
        .ok (next, { self with types := self.types ++ [(name, next)] })

/-- Add a local position to the postings of a tag. -/
def pushTag (posting : Nat) (self : ActiveTail) (tag : Tag) : ActiveTail :=
  let (term, self) := self.internTag tag
  { self with postings := self.postings.update term (PostingSlot.pushLocal posting) }

/-- Index the event of a position.  The position must be the next one: the
result is `none` where the code panics. -/
def push (self : ActiveTail) (position : Nat) (event : Event) :
    Option (Except TooManyTypes ActiveTail) :=
  let len := self.typeColumn.len
  if position ≠ self.base + len then
    none
  else
    match self.internType event.eventType with
    | .error refused => some (.error refused)
    | .ok (typeId, self) =>
        let self := event.tags.toList.foldl (pushTag len) self
        some (.ok { self with typeColumn := (self.typeColumn.pushWith fun _ => typeId).2 })

/-- The number of events indexed. -/
def len (self : ActiveTail) : Nat := self.typeColumn.len

/-- Latch the segment unindexable. -/
def markUnindexable (self : ActiveTail) : ActiveTail := { self with unindexable := true }

/-- The number of local positions at or before a watermark. -/
def visibleLen (self : ActiveTail) (watermark : Nat) : Nat :=
  if watermark ≥ self.base then min (watermark - self.base + 1) (2 ^ 32 - 1) else 0

/-- A view of the first local positions, as far as the column reaches. -/
def makeView (self : ActiveTail) (uptoLen : Nat) : ActiveView :=
  ⟨self.base, min uptoLen self.typeColumn.covered, self.typeColumn, self.postings, self.tags,
    self.types⟩

/-- The events at or before a watermark. -/
def view (self : ActiveTail) (watermark : Nat) : ActiveView :=
  self.makeView (self.visibleLen watermark)

/-- All events fed so far. -/
def viewFull (self : ActiveTail) : ActiveView := self.makeView self.len

end ActiveTail

namespace ActiveView

/-- The postings of a tag among the visible events. -/
def termPostings (self : ActiveView) (tag : Tag) : Option (List Nat) :=
  match self.tags.lookup tag with
  | none => none
  | some term => (self.postings.get term).map fun slot => slot.collectBelow self.uptoLen

theorem termPostings_of_unknown (self : ActiveView) {tag : Tag}
    (unknown : self.tags.lookup tag = none) : self.termPostings tag = none := by
  rw [termPostings, unknown]

theorem termPostings_of_known (self : ActiveView) {tag : Tag} {term : Nat}
    (known : self.tags.lookup tag = some term) :
    self.termPostings tag =
      (self.postings.get term).map fun slot => slot.collectBelow self.uptoLen := by
  rw [termPostings, known]

/-- An upper bound of the number of visible events that carry a tag. -/
def termLen (self : ActiveView) (tag : Tag) : Option Nat :=
  match self.tags.lookup tag with
  | none => none
  | some term => (self.postings.get term).map fun slot => min slot.len self.uptoLen

theorem termLen_of_unknown (self : ActiveView) {tag : Tag}
    (unknown : self.tags.lookup tag = none) : self.termLen tag = none := by
  rw [termLen, unknown]

theorem termLen_of_known (self : ActiveView) {tag : Tag} {term : Nat}
    (known : self.tags.lookup tag = some term) :
    self.termLen tag = (self.postings.get term).map fun slot => min slot.len self.uptoLen := by
  rw [termLen, known]

instance : SegmentIndex ActiveView where
  base self := self.base
  len self := self.uptoLen
  termPostings := termPostings
  termLen := termLen
  typeId self name := self.types.lookup name
  typeAt self i := (self.typeColumn.get i).getD 0

end ActiveView

/-- Length of the encoding of an event: the lengths of its type and tags, their
bytes and the payload. -/
def encodedLen (event : Event) : Nat :=
  4 + 2 * event.tags.toList.length + event.eventType.bytes.length +
    (event.tags.toList.map fun tag => tag.bytes.length).sum + event.data.length

/-- Bytes the records of events take in a segment. -/
def segmentBytes (events : List Event) : Nat :=
  (events.map fun event => Seglog.recordHeadSize + encodedLen event).sum

/-- Events whose records have `u32` offsets, as those of every segment do. -/
def FitsSegment (events : List Event) : Prop := segmentBytes events < 2 ^ 32

instance (events : List Event) : Decidable (FitsSegment events) :=
  inferInstanceAs (Decidable (_ < _))

/-- Tags of events, counted with repeats. -/
def tagCount (events : List Event) : Nat :=
  (events.map fun event => event.tags.toList.length).sum

/-- The distinct types of events. -/
def distinctTypes (events : List Event) : List EventType :=
  (events.map Event.eventType).dedup

@[simp]
theorem segmentBytes_append (left right : List Event) :
    segmentBytes (left ++ right) = segmentBytes left + segmentBytes right := by
  simp [segmentBytes]

theorem tagCount_snoc (events : List Event) (event : Event) :
    tagCount (events ++ [event]) = tagCount events + event.tags.toList.length := by
  simp [tagCount]

theorem length_tagCount_le (events : List Event) :
    8 * events.length + 2 * tagCount events ≤ segmentBytes events := by
  induction events with
  | nil => simp [tagCount, segmentBytes]
  | cons event events ih =>
      have head : Seglog.recordHeadSize = 8 := rfl
      simp only [tagCount, segmentBytes, List.map_cons, List.sum_cons, List.length_cons,
        encodedLen, head] at ih ⊢
      omega

theorem FitsSegment.prefix {left right : List Event} (fits : FitsSegment (left ++ right)) :
    FitsSegment left := by
  rw [FitsSegment, segmentBytes_append] at fits
  rw [FitsSegment]
  omega

theorem FitsSegment.length_lt {events : List Event} (fits : FitsSegment events) :
    events.length < 2 ^ 31 := by
  have bytes := length_tagCount_le events
  rw [FitsSegment] at fits
  omega

theorem FitsSegment.tagCount_lt {events : List Event} (fits : FitsSegment events) :
    tagCount events < 2 ^ 31 := by
  have bytes := length_tagCount_le events
  rw [FitsSegment] at fits
  omega

end Index

end Tephra
