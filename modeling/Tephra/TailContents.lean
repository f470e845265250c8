import Tephra.ActiveTail

/-!
# What the active tail holds

A tail *holds* the events it was fed: each table is dense, each slot has the
positions of the events that carry its tag, and the column has the type of each
event.  Feeding keeps this, and a view of a tail indexes the events it shows.
-/

namespace Tephra

namespace Index

open AscendingLists DenseIds Positions

/-- The slot of every tag holds given positions, and a tag without positions has
no slot. -/
structure TermsHold (tail : ActiveTail) (locals : Tag → List Nat) : Prop where
  dense : Dense tail.tags
  slots : ∃ slots, tail.postings.Holds slots ∧ slots.length = tail.tags.length ∧
    ∀ tag id, tail.tags.lookup tag = some id →
      ∃ slot, slots[id]? = some slot ∧ slot.Holds (locals tag)
  absent_iff : ∀ tag, tail.tags.lookup tag = none ↔ locals tag = []

/-- A table has the types of events, and no more than fit the type column. -/
structure TypesHold (types : List (EventType × Nat)) (names : List EventType) : Prop where
  dense : Dense types
  mem_iff : ∀ name, name ∈ keys types ↔ name ∈ names
  length_le : types.length ≤ maxTypeId + 1

/-- A tail holds the events fed to it from a base on. -/
structure ActiveTail.Holds (tail : ActiveTail) (base : Nat) (events : List Event) : Prop where
  base_eq : tail.base = base
  terms : TermsHold tail fun tag => positionsWhere (carries tag) 0 events
  tags_le : tail.tags.length ≤ tagCount events
  types : TypesHold tail.types (events.map Event.eventType)
  column : ∃ column, tail.typeColumn.Holds column ∧
    column.map some = events.map fun event => tail.types.lookup event.eventType

namespace ActiveTail

@[simp]
theorem pushTag_base (posting : Nat) (self : ActiveTail) (tag : Tag) :
    (self.pushTag posting tag).base = self.base := by
  rw [pushTag, internTag]
  cases self.tags.lookup tag <;> rfl

@[simp]
theorem pushTag_typeColumn (posting : Nat) (self : ActiveTail) (tag : Tag) :
    (self.pushTag posting tag).typeColumn = self.typeColumn := by
  rw [pushTag, internTag]
  cases self.tags.lookup tag <;> rfl

@[simp]
theorem pushTag_types (posting : Nat) (self : ActiveTail) (tag : Tag) :
    (self.pushTag posting tag).types = self.types := by
  rw [pushTag, internTag]
  cases self.tags.lookup tag <;> rfl

@[simp]
theorem pushTag_unindexable (posting : Nat) (self : ActiveTail) (tag : Tag) :
    (self.pushTag posting tag).unindexable = self.unindexable := by
  rw [pushTag, internTag]
  cases self.tags.lookup tag <;> rfl

theorem length_tags_pushTag (posting : Nat) (self : ActiveTail) (tag : Tag) :
    (self.pushTag posting tag).tags.length ≤ self.tags.length + 1 := by
  rw [pushTag, internTag]
  cases self.tags.lookup tag <;> simp

/-- Interning a tag finds its slot, or adds an empty one. -/
private theorem internTag_slots {self : ActiveTail} {locals : Tag → List Nat}
    (holds : TermsHold self locals) (tag : Tag) (terms : self.tags.length + 1 < 2 ^ 32) :
    Dense (self.internTag tag).2.tags ∧
      (self.internTag tag).2.tags.lookup tag = some (self.internTag tag).1 ∧
      (∀ other, other ≠ tag →
        (self.internTag tag).2.tags.lookup other = self.tags.lookup other) ∧
      ∃ slots, (self.internTag tag).2.postings.Holds slots ∧
        slots.length = (self.internTag tag).2.tags.length ∧
        ∀ other id, (self.internTag tag).2.tags.lookup other = some id →
          ∃ slot, slots[id]? = some slot ∧ slot.Holds (locals other) := by
  obtain ⟨dense, ⟨slots, slotsHold, lengthEq, slotOf⟩, absentIff⟩ := holds
  rw [internTag]
  cases known : self.tags.lookup tag with
  | some id => exact ⟨dense, known, fun _ _ => rfl, slots, slotsHold, lengthEq, slotOf⟩
  | none =>
      have idEq : (self.postings.pushWith fun slot => slot).1 = self.tags.length :=
        (slotsHold.pushWith_fst _).trans lengthEq
      have room : slots.length + 1 < 2 ^ 32 := by omega
      dsimp only
      rw [idEq]
      refine ⟨dense.snoc known, ?_, ?_, slots ++ [default], slotsHold.pushWith room _, ?_, ?_⟩
      · rw [lookup_snoc known, if_pos rfl]
      · intro other different
        rw [lookup_snoc known, if_neg different]
      · simp [lengthEq]
      · intro other id found
        rw [lookup_snoc known] at found
        split at found
        · rename_i same
          subst same
          obtain rfl := Option.some.inj found
          refine ⟨default, by simp [← lengthEq], ?_⟩
          rw [(absentIff other).mp known]
          exact PostingSlot.holds_default
        · obtain ⟨slot, inside, slotHolds⟩ := slotOf other id found
          refine ⟨slot, ?_, slotHolds⟩
          rw [List.getElem?_append_left (List.getElem?_eq_some_iff.mp inside).1]
          exact inside

/-- One tag of an event adds one position to the postings of that tag. -/
theorem termsHold_pushTag {self : ActiveTail} {locals : Tag → List Nat}
    (holds : TermsHold self locals) (tag : Tag) (posting : Nat)
    (terms : self.tags.length + 1 < 2 ^ 32) (room : (locals tag).length + 1 < 2 ^ 32) :
    TermsHold (self.pushTag posting tag)
      fun other => if other = tag then locals other ++ [posting] else locals other := by
  obtain ⟨dense, found, others, slots, slotsHold, lengthEq, slotOf⟩ :=
    internTag_slots holds tag terms
  have tagsEq : (self.pushTag posting tag).tags = (self.internTag tag).2.tags := rfl
  have postingsEq : (self.pushTag posting tag).postings =
      (self.internTag tag).2.postings.update (self.internTag tag).1
        (PostingSlot.pushLocal posting) := rfl
  constructor
  · rw [tagsEq]
    exact dense
  · rw [tagsEq, postingsEq]
    refine ⟨_, slotsHold.update _ _, by simpa using lengthEq, ?_⟩
    intro other id foundOther
    obtain ⟨slot, inside, slotHolds⟩ := slotOf other id foundOther
    by_cases same : other = tag
    · subst same
      obtain rfl := Option.some.inj (found.symm.trans foundOther)
      refine ⟨slot.pushLocal posting, by simp [inside], ?_⟩
      rw [if_pos rfl]
      exact slotHolds.pushLocal room posting
    · have apart : (self.internTag tag).1 ≠ id := by
        rintro rfl
        exact same (dense.lookup_injective foundOther found)
      refine ⟨slot, by simp [apart, inside], ?_⟩
      rwa [if_neg same]
  · intro other
    rw [tagsEq]
    by_cases same : other = tag
    · subst same
      simp [found]
    · rw [if_neg same, others other same]
      exact holds.absent_iff other

theorem termsHold_pushTags {self : ActiveTail} {locals : Tag → List Nat}
    (holds : TermsHold self locals) {tags : List Tag} (distinct : tags.Nodup) (posting : Nat)
    (terms : self.tags.length + tags.length < 2 ^ 32)
    (room : ∀ tag ∈ tags, (locals tag).length + 1 < 2 ^ 32) :
    TermsHold (tags.foldl (pushTag posting) self)
      fun other => if other ∈ tags then locals other ++ [posting] else locals other := by
  induction tags generalizing self locals with
  | nil => simpa using holds
  | cons tag tags ih =>
      obtain ⟨fresh, rest⟩ := List.nodup_cons.mp distinct
      have longer := length_tags_pushTag posting self tag
      rw [List.length_cons] at terms
      have first := termsHold_pushTag holds tag posting (by omega)
        (room tag (List.mem_cons_self ..))
      have others := ih first rest (by omega) (by
        intro other member
        have different : other ≠ tag := fun same => fresh (same ▸ member)
        rw [if_neg different]
        exact room other (List.mem_cons_of_mem _ member))
      have combined : (fun other => if other ∈ tags then
            (if other = tag then locals other ++ [posting] else locals other) ++ [posting]
          else if other = tag then locals other ++ [posting] else locals other) =
          fun other => if other ∈ tag :: tags then locals other ++ [posting]
            else locals other := by
        funext other
        by_cases same : other = tag
        · subst same
          simp [fresh]
        · simp [same]
      rw [combined] at others
      exact others

private theorem length_tags_pushTags (posting : Nat) (self : ActiveTail) (tags : List Tag) :
    (tags.foldl (pushTag posting) self).tags.length ≤ self.tags.length + tags.length := by
  induction tags generalizing self with
  | nil => simp
  | cons tag tags ih =>
      have first := length_tags_pushTag posting self tag
      have others := ih (self.pushTag posting tag)
      simp only [List.foldl_cons, List.length_cons]
      omega

private theorem pushTags_frame (posting : Nat) (self : ActiveTail) (tags : List Tag) :
    (tags.foldl (pushTag posting) self).base = self.base ∧
      (tags.foldl (pushTag posting) self).typeColumn = self.typeColumn ∧
      (tags.foldl (pushTag posting) self).types = self.types ∧
      (tags.foldl (pushTag posting) self).unindexable = self.unindexable := by
  induction tags generalizing self with
  | nil => exact ⟨rfl, rfl, rfl, rfl⟩
  | cons tag tags ih => simpa using ih (self.pushTag posting tag)

theorem holds_new (base : Nat) : (new base).Holds base [] where
  base_eq := rfl
  terms := {
    dense := dense_nil
    slots := ⟨[], ChunkedVec.holds_new, rfl, by simp [new]⟩
    absent_iff := by simp [new] }
  tags_le := Nat.zero_le _
  types := ⟨dense_nil, by simp [new, keys], Nat.zero_le _⟩
  column := ⟨[], ChunkedVec.holds_new, rfl⟩

namespace Holds

variable {tail : ActiveTail} {base : Nat} {events : List Event}

theorem len_eq (holds : tail.Holds base events) : tail.len = events.length := by
  obtain ⟨column, columnHolds, types⟩ := holds.column
  have sameLength := congrArg List.length types
  simp only [List.length_map] at sameLength
  rw [ActiveTail.len, columnHolds.len_eq, sameLength]

theorem length_types (holds : tail.Holds base events) :
    tail.types.length = (distinctTypes events).length := by
  rw [← length_keys]
  apply List.Perm.length_eq
  rw [distinctTypes,
    List.perm_ext_iff_of_nodup holds.types.dense.keys_nodup (List.nodup_dedup _)]
  intro name
  rw [List.mem_dedup, holds.types.mem_iff]

/-- Interning the type of an event yields its id in a table that has this type
too, or refuses it for being one too many. -/
theorem internType_cases (holds : tail.Holds base events) (name : EventType) :
    (∃ id types, tail.internType name = .ok (id, { tail with types := types }) ∧
      TypesHold types (events.map Event.eventType ++ [name]) ∧ types.lookup name = some id ∧
      ∀ other ∈ events.map Event.eventType, types.lookup other = tail.types.lookup other) ∨
    (tail.internType name = .error ⟨maxTypeId + 1⟩ ∧ name ∉ events.map Event.eventType ∧
      tail.types.length = maxTypeId + 1) := by
  obtain ⟨dense, memIff, lengthLe⟩ := holds.types
  rw [internType]
  cases known : tail.types.lookup name with
  | some id =>
      have seen : name ∈ events.map Event.eventType := by
        rw [← memIff]
        by_contra absent
        simp [lookup_eq_none_iff.mpr absent] at known
      refine Or.inl ⟨id, tail.types, rfl, ⟨dense, ?_, lengthLe⟩, known, fun _ _ => rfl⟩
      intro other
      rw [memIff, List.mem_append, List.mem_singleton]
      constructor
      · exact Or.inl
      · rintro (seen' | rfl)
        · exact seen'
        · exact seen
  | none =>
      have fresh : name ∉ events.map Event.eventType := by
        rw [← memIff]
        exact lookup_eq_none_iff.mp known
      dsimp only
      by_cases full : tail.types.length > maxTypeId
      · rw [if_pos full]
        exact Or.inr ⟨rfl, fresh, by omega⟩
      · rw [if_neg full]
        refine Or.inl ⟨_, _, rfl, ⟨dense.snoc known, ?_, ?_⟩, ?_, ?_⟩
        · intro other
          rw [keys_snoc, List.mem_append, List.mem_append, memIff]
        · simp only [List.length_append, List.length_singleton]
          omega
        · rw [lookup_snoc known, if_pos rfl]
        · intro other seen
          have different : other ≠ name := fun same => fresh (same ▸ seen)
          rw [lookup_snoc known, if_neg different]

theorem positionsWhere_carries_snoc (events : List Event) (event : Event) (tag : Tag) :
    positionsWhere (carries tag) 0 (events ++ [event]) =
      if tag ∈ event.tags.toList then
        positionsWhere (carries tag) 0 events ++ [events.length]
      else
        positionsWhere (carries tag) 0 events := by
  rw [positionsWhere_snoc]
  by_cases carried : tag ∈ event.tags.toList <;> simp [carries, carried]

private theorem length_distinctTypes_snoc {events : List Event} {event : Event}
    (fresh : event.eventType ∉ events.map Event.eventType) :
    (distinctTypes (events ++ [event])).length = (distinctTypes events).length + 1 := by
  have renamed : (distinctTypes (events ++ [event])).Perm
      (event.eventType :: distinctTypes events) := by
    rw [distinctTypes, distinctTypes, List.perm_ext_iff_of_nodup (List.nodup_dedup _)
      (List.nodup_cons.mpr ⟨by rwa [List.mem_dedup], List.nodup_dedup _⟩)]
    intro name
    simp [or_comm]
  exact renamed.length_eq

/-- The tags and the type of an event are in place: the column gains its type. -/
private theorem snoc (holds : tail.Holds base events) {fed : ActiveTail} {event : Event} {id : Nat}
    (baseEq : fed.base = tail.base) (columnEq : fed.typeColumn = tail.typeColumn)
    (terms : TermsHold fed fun tag => positionsWhere (carries tag) 0 (events ++ [event]))
    (tagsLe : fed.tags.length ≤ tagCount (events ++ [event]))
    (types : TypesHold fed.types (events.map Event.eventType ++ [event.eventType]))
    (found : fed.types.lookup event.eventType = some id)
    (kept : ∀ other ∈ events.map Event.eventType,
      fed.types.lookup other = tail.types.lookup other)
    (room : events.length + 1 < 2 ^ 32) :
    ActiveTail.Holds { fed with typeColumn := (fed.typeColumn.pushWith fun _ => id).2 } base
      (events ++ [event]) := by
  obtain ⟨column, columnHolds, columnTypes⟩ := holds.column
  have columnLength : column.length = events.length := by
    simpa using congrArg List.length columnTypes
  constructor
  · exact baseEq.trans holds.base_eq
  · exact ⟨terms.dense, terms.slots, terms.absent_iff⟩
  · exact tagsLe
  · rw [List.map_append]
    exact types
  · refine ⟨column ++ [id], ?_, ?_⟩
    · rw [columnEq]
      exact columnHolds.pushWith (columnLength ▸ room) fun _ => id
    · rw [List.map_append, List.map_append, columnTypes]
      have before : (events.map fun event => tail.types.lookup event.eventType) =
          events.map fun event => fed.types.lookup event.eventType :=
        List.map_congr_left fun earlier member =>
          (kept _ (List.mem_map_of_mem member)).symm
      simp [before, found]

/-- The next event is fed, or refused for a type too many. -/
theorem push (holds : tail.Holds base events) {event : Event}
    (fits : FitsSegment (events ++ [event])) :
    (∃ next, tail.push (base + events.length) event = some (.ok next) ∧
      next.Holds base (events ++ [event]) ∧ next.unindexable = tail.unindexable) ∨
    (tail.push (base + events.length) event = some (.error ⟨maxTypeId + 1⟩) ∧
      maxTypeId + 1 < (distinctTypes (events ++ [event])).length) := by
  have lengthLt := fits.length_lt
  have tagsLt := fits.tagCount_lt
  have tagsLe := holds.tags_le
  rw [List.length_append, List.length_singleton] at lengthLt
  rw [tagCount_snoc] at tagsLt
  have lenEq : tail.typeColumn.len = events.length := holds.len_eq
  have inOrder : ¬ base + events.length ≠ tail.base + tail.typeColumn.len := by
    rw [holds.base_eq, lenEq]
    simp
  rw [ActiveTail.push]
  dsimp only
  rw [if_neg inOrder, lenEq]
  rcases holds.internType_cases event.eventType with
    ⟨id, types, interned, typesHold, found, kept⟩ | ⟨refused, fresh, full⟩
  · rw [interned]
    have postingsRoom : ∀ tag ∈ event.tags.toList,
        (positionsWhere (carries tag) 0 events).length + 1 < 2 ^ 32 := by
      intro tag _
      have shorter := length_positionsWhere_le (carries tag) 0 events
      omega
    let interning : ActiveTail := { tail with types := types }
    have opened : TermsHold interning fun tag => positionsWhere (carries tag) 0 events :=
      ⟨holds.terms.dense, holds.terms.slots, holds.terms.absent_iff⟩
    have tagsRoom : interning.tags.length + event.tags.toList.length < 2 ^ 32 := by
      change tail.tags.length + _ < _
      omega
    obtain ⟨sameBase, sameColumn, sameTypes, sameFlag⟩ :=
      pushTags_frame events.length interning event.tags.toList
    have fed := termsHold_pushTags opened event.tags.sorted.nodup events.length tagsRoom
      postingsRoom
    have fedTags := length_tags_pushTags events.length interning event.tags.toList
    simp only [← positionsWhere_carries_snoc] at fed
    refine Or.inl ⟨_, rfl, ?_, sameFlag⟩
    apply holds.snoc sameBase sameColumn fed
    · rw [tagCount_snoc]
      exact fedTags.trans (Nat.add_le_add_right tagsLe _)
    · rw [sameTypes]
      exact typesHold
    · rw [sameTypes]
      exact found
    · rw [sameTypes]
      exact kept
    · omega
  · rw [refused]
    refine Or.inr ⟨rfl, ?_⟩
    rw [length_distinctTypes_snoc fresh, ← holds.length_types, full]
    omega

theorem push_out_of_order (holds : tail.Holds base events) {position : Nat}
    (elsewhere : position ≠ base + events.length) (event : Event) :
    tail.push position event = none := by
  have lenEq : tail.typeColumn.len = events.length := holds.len_eq
  rw [ActiveTail.push]
  dsimp only
  rw [holds.base_eq, lenEq, if_pos elsewhere]

/-- The postings of a tag in a view of the first events, as many as there are. -/
theorem termPostings_makeView (holds : tail.Holds base events) (fits : FitsSegment events)
    (upto : Nat) (tag : Tag) :
    (tail.makeView upto).termPostings tag =
      if tail.tags.lookup tag = none then none
      else some (positionsWhere (carries tag) 0 (events.take upto)) := by
  obtain ⟨column, columnHolds, columnTypes⟩ := holds.column
  have columnLength : column.length = events.length := by
    simpa using congrArg List.length columnTypes
  have covered : events.length ≤ tail.typeColumn.covered :=
    columnLength ▸ columnHolds.length_le_covered (columnLength ▸ fits.length_lt)
  obtain ⟨slots, slotsHold, lengthEq, slotOf⟩ := holds.terms.slots
  rw [ActiveView.termPostings]
  simp only [makeView]
  cases known : tail.tags.lookup tag with
  | none => rfl
  | some id =>
      obtain ⟨slot, found, slotHolds⟩ := slotOf tag id known
      obtain ⟨bound, rfl⟩ := List.getElem?_eq_some_iff.mp found
      simp only [slotsHold.get bound, Option.map_some, reduceCtorEq, if_false, slotHolds.collectBelow]
      rw [takeWhile_lt_eq_filter (pairwise_positionsWhere 0 events), positionsWhere_take]
      congr 1
      apply List.filter_congr
      intro position member
      have inside := lt_of_mem_positionsWhere member
      rw [decide_eq_decide]
      omega

theorem indexes_makeView (holds : tail.Holds base events) {upto : Nat}
    (fits : FitsSegment events) (inside : upto ≤ events.length) :
    Indexes (tail.makeView upto) base (events.take upto) := by
  obtain ⟨column, columnHolds, columnTypes⟩ := holds.column
  have columnLength : column.length = events.length := by
    simpa using congrArg List.length columnTypes
  have covered : upto ≤ tail.typeColumn.covered :=
    inside.trans (columnLength ▸ columnHolds.length_le_covered (columnLength ▸ fits.length_lt))
  constructor
  · exact holds.base_eq
  · change min upto tail.typeColumn.covered = _
    rw [Nat.min_eq_left covered, List.length_take, Nat.min_eq_left inside]
  · intro tag
    change ((tail.makeView upto).termPostings tag).getD [] = _
    rw [holds.termPostings_makeView fits]
    by_cases absent : tail.tags.lookup tag = none
    · have nowhere := (holds.terms.absent_iff tag).mp absent
      rw [if_pos absent, Option.getD_none, positionsWhere_take, nowhere, List.filter_nil]
    · rw [if_neg absent, Option.getD_some]
  · intro name unknown event member same
    have seen : name ∈ keys tail.types := by
      rw [holds.types.mem_iff, ← same]
      exact List.mem_map_of_mem (List.mem_of_mem_take member)
    exact lookup_eq_none_iff.mp unknown seen
  · intro name id known i event found
    have foundAll : events[i]? = some event := by
      rw [List.getElem?_take] at found
      split at found
      · exact found
      · simp at found
    have columnAt : column[i]?.map some = some (tail.types.lookup event.eventType) := by
      rw [← List.getElem?_map, columnTypes, List.getElem?_map, foundAll, Option.map_some]
    obtain ⟨own, ownAt, ownEq⟩ := Option.map_eq_some_iff.mp columnAt
    obtain ⟨bound, rfl⟩ := List.getElem?_eq_some_iff.mp ownAt
    have typeAt : SegmentIndex.typeAt (tail.makeView upto) i = column[i] := by
      change (tail.typeColumn.get i).getD 0 = _
      rw [columnHolds.get bound, Option.getD_some]
    rw [typeAt]
    constructor
    · rintro rfl
      exact holds.types.dense.lookup_injective ownEq.symm known
    · rintro rfl
      exact Option.some.inj (ownEq.trans known)

theorem indexes_viewFull (holds : tail.Holds base events) (fits : FitsSegment events) :
    Indexes tail.viewFull base events := by
  have whole := holds.indexes_makeView fits (le_refl events.length)
  rw [List.take_length] at whole
  rw [viewFull, holds.len_eq]
  exact whole

theorem indexes_view (holds : tail.Holds base events) (fits : FitsSegment events)
    {watermark : Nat} (started : base ≤ watermark) (inside : watermark < base + events.length) :
    Indexes (tail.view watermark) base (events.take (watermark + 1 - base)) := by
  have short := fits.length_lt
  have visible : tail.visibleLen watermark = watermark + 1 - base := by
    rw [visibleLen, holds.base_eq, if_pos started]
    omega
  rw [view, visible]
  exact holds.indexes_makeView fits (by omega)

end Holds

/-- Feed events at positions in turn; an event that is refused changes nothing.
The result is `none` where the code panics. -/
def pushAll (self : ActiveTail) : List (Nat × Event) → Option ActiveTail
  | [] => some self
  | (position, event) :: pushes =>
      match self.push position event with
      | none => none
      | some (.error _) => self.pushAll pushes
      | some (.ok next) => next.pushAll pushes

/-- The events of pushes that are not refused. -/
def acceptedOf (self : ActiveTail) : List (Nat × Event) → List Event
  | [] => []
  | (position, event) :: pushes =>
      match self.push position event with
      | none => []
      | some (.error _) => self.acceptedOf pushes
      | some (.ok next) => event :: next.acceptedOf pushes

/-- A tail holds the events that were not refused. -/
theorem Holds.pushAll {tail final : ActiveTail} {base : Nat} {events : List Event}
    (holds : tail.Holds base events) {pushes : List (Nat × Event)}
    (ran : tail.pushAll pushes = some final)
    (fits : FitsSegment (events ++ tail.acceptedOf pushes)) :
    final.Holds base (events ++ tail.acceptedOf pushes) := by
  induction pushes generalizing tail events with
  | nil =>
      obtain rfl := Option.some.inj ran
      rwa [acceptedOf, List.append_nil]
  | cons push pushes ih =>
      obtain ⟨position, event⟩ := push
      rw [ActiveTail.pushAll] at ran
      rw [acceptedOf] at fits ⊢
      cases pushed : tail.push position event with
      | none => simp [pushed] at ran
      | some outcome =>
          rw [pushed] at ran fits
          cases outcome with
          | error refused => exact ih holds ran fits
          | ok next =>
              have positionEq : position = base + events.length := by
                by_contra elsewhere
                simp [holds.push_out_of_order elsewhere event] at pushed
              dsimp only at fits ⊢
              rw [← List.singleton_append, ← List.append_assoc] at fits ⊢
              rcases holds.push fits.prefix with ⟨_, fed, nextHolds, _⟩ | ⟨failed, _⟩
              · rw [← positionEq, pushed] at fed
                obtain rfl := Except.ok.inj (Option.some.inj fed)
                exact ih nextHolds ran fits
              · rw [← positionEq, pushed] at failed
                cases failed

end ActiveTail

end Index

end Tephra
