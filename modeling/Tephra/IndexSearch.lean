import Tephra.Events
import Tephra.Positions

/-!
# Searching an index

One evaluator answers a query against any index of a segment: it intersects the
posting lists of the tags of an item, filters by type, and unites the items.  An
index *indexes* a list of events when its postings and its type column describe
exactly these events; the evaluator then finds exactly the matching ones.
-/

namespace Tephra

namespace Index

open AscendingLists Positions

/-- What a query needs of the index of one segment.  Postings and the type
column count from the base. -/
class SegmentIndex (σ : Type) where
  base : σ → Nat
  len : σ → Nat
  termPostings : σ → Tag → Option (List Nat)
  termLen : σ → Tag → Option Nat
  typeId : σ → EventType → Option Nat
  typeAt : σ → Nat → Nat

variable {σ : Type} [SegmentIndex σ]

/-- The posting lists of all tags, unless some tag has none. -/
def collectPostings (index : σ) : List Tag → Option (List (List Nat))
  | [] => some []
  | tag :: tags =>
      match SegmentIndex.termPostings index tag with
      | none => none
      | some list => (collectPostings index tags).map (list :: ·)

/-- Whether the type of a local position is admitted. -/
def keepType (index : σ) (typeIds : Option (List Nat)) (local' : Nat) : Bool :=
  match typeIds with
  | none => true
  | some ids => ids.contains (SegmentIndex.typeAt index local')

/-- The local positions that match an item. -/
def itemLocals (index : σ) (item : QueryItem) : List Nat :=
  let ids := item.types.filterMap (SegmentIndex.typeId index)
  let typeIds := if item.types.isEmpty then none else some ids
  if !item.types.isEmpty && ids.isEmpty then
    []
  else if item.tags.toList.isEmpty then
    (List.range (SegmentIndex.len index)).filter (keepType index typeIds)
  else
    match collectPostings index item.tags.toList with
    | none => []
    | some lists => (intersect lists).filter (keepType index typeIds)

/-- The local positions that match a query, ascending and without repeats. -/
def localMatches (index : σ) : Query → List Nat
  | .all => List.range (SegmentIndex.len index)
  | .items items => sortDedup (items.flatMap (itemLocals index))

/-- Positions of the events that match a query, ascending, strictly after a
bound. -/
def search (index : σ) (query : Query) (after : Nat) : List Nat :=
  ((localMatches index query).map (SegmentIndex.base index + ·)).filter (after < ·)

/-- Positions of the events that match a query, descending, strictly before a
bound. -/
def searchBack (index : σ) (query : Query) (before : Nat) : List Nat :=
  ((localMatches index query).reverse.map (SegmentIndex.base index + ·)).filter (· < before)

/-- Whether an event carries a tag. -/
def carries (tag : Tag) (event : Event) : Bool := event.tags.toList.contains tag

/-- An index describes exactly the events of a segment. -/
structure Indexes (index : σ) (base : Nat) (events : List Event) : Prop where
  base_eq : SegmentIndex.base index = base
  len_eq : SegmentIndex.len index = events.length
  postings_eq : ∀ tag, (SegmentIndex.termPostings index tag).getD [] =
    positionsWhere (carries tag) 0 events
  absent_type : ∀ name, SegmentIndex.typeId index name = none →
    ∀ event ∈ events, event.eventType ≠ name
  typeAt_iff : ∀ name id, SegmentIndex.typeId index name = some id →
    ∀ i event, events[i]? = some event →
      (SegmentIndex.typeAt index i = id ↔ event.eventType = name)

variable {index : σ} {base : Nat} {events : List Event}

private theorem mem_positionsWhere_zero {α : Type} {test : α → Bool} {items : List α} {i : Nat} :
    i ∈ positionsWhere test 0 items ↔ ∃ item, items[i]? = some item ∧ test item = true := by
  simp [mem_positionsWhere]

namespace Indexes

private theorem keepType_iff (indexes : Indexes index base events) (item : QueryItem)
    {i : Nat} {event : Event} (found : events[i]? = some event) :
    keepType index
        (if item.types.isEmpty then none
          else some (item.types.filterMap (SegmentIndex.typeId index))) i = true ↔
      (item.types = [] ∨ event.eventType ∈ item.types) := by
  by_cases unfiltered : item.types = []
  · simp [unfiltered, keepType]
  · have listed : item.types.isEmpty = false := by simpa using unfiltered
    simp only [listed, Bool.false_eq_true, if_false, keepType, List.contains_iff_mem,
      List.mem_filterMap, unfiltered, false_or]
    constructor
    · rintro ⟨name, member, known⟩
      rwa [(indexes.typeAt_iff name _ known i event found).mp rfl]
    · intro member
      cases known : SegmentIndex.typeId index event.eventType with
      | none =>
          exact absurd rfl (indexes.absent_type _ known event (List.mem_of_getElem? found))
      | some id =>
          have same := (indexes.typeAt_iff _ id known i event found).mpr rfl
          exact ⟨event.eventType, member, by rw [known, same]⟩

/-- Collecting fails on a tag that no event carries, and yields the postings of
every tag otherwise. -/
private theorem mem_collectPostings (indexes : Indexes index base events) (tags : List Tag)
    (i : Nat) :
    (∃ lists, collectPostings index tags = some lists ∧ ∀ list ∈ lists, i ∈ list) ↔
      ∀ tag ∈ tags, i ∈ positionsWhere (carries tag) 0 events := by
  induction tags with
  | nil => simp [collectPostings]
  | cons tag tags ih =>
      have postings := indexes.postings_eq tag
      rw [collectPostings, List.forall_mem_cons, ← ih]
      cases known : SegmentIndex.termPostings index tag with
      | none =>
          rw [known, Option.getD_none] at postings
          simp [← postings]
      | some list =>
          rw [known, Option.getD_some] at postings
          cases collected : collectPostings index tags with
          | none => simp
          | some lists => simp [postings]

private theorem collectPostings_ne_nil {tag : Tag} {tags : List Tag} {lists : List (List Nat)}
    (collected : collectPostings index (tag :: tags) = some lists) :
    lists ≠ [] := by
  rw [collectPostings] at collected
  cases known : SegmentIndex.termPostings index tag with
  | none => simp [known] at collected
  | some list =>
      rw [known] at collected
      obtain ⟨rest, _, rfl⟩ := Option.map_eq_some_iff.mp collected
      exact List.cons_ne_nil _ _

theorem mem_itemLocals (indexes : Indexes index base events) (item : QueryItem) (i : Nat) :
    i ∈ itemLocals index item ↔
      ∃ event, events[i]? = some event ∧ item.matches event = true := by
  simp only [QueryItem.matches_iff]
  rw [itemLocals]
  by_cases absent : (!item.types.isEmpty &&
      (item.types.filterMap (SegmentIndex.typeId index)).isEmpty) = true
  · -- None of the types of the item was seen.
    simp only [absent, if_true, List.not_mem_nil, false_iff]
    rintro ⟨event, found, typeOk, _⟩
    simp only [Bool.and_eq_true, Bool.not_eq_true', List.isEmpty_eq_false_iff,
      List.isEmpty_iff] at absent
    have member := typeOk.resolve_left absent.1
    cases known : SegmentIndex.typeId index event.eventType with
    | none => exact indexes.absent_type _ known event (List.mem_of_getElem? found) rfl
    | some id =>
        have listed : id ∈ item.types.filterMap (SegmentIndex.typeId index) :=
          List.mem_filterMap.mpr ⟨_, member, known⟩
        simp [absent.2] at listed
  · simp only [absent, if_false, Bool.false_eq_true]
    by_cases untagged : item.tags.toList = []
    · simp only [untagged, List.isEmpty_nil, if_true, List.mem_filter, List.mem_range,
        indexes.len_eq, List.not_mem_nil, false_implies, implies_true, and_true]
      constructor
      · rintro ⟨inside, kept⟩
        have found := List.getElem?_eq_getElem inside
        exact ⟨_, found, (indexes.keepType_iff item found).mp kept⟩
      · rintro ⟨event, found, typeOk⟩
        exact ⟨(List.getElem?_eq_some_iff.mp found).1, (indexes.keepType_iff item found).mpr typeOk⟩
    · have tagged : item.tags.toList.isEmpty = false := by simpa using untagged
      have collectedIff := indexes.mem_collectPostings item.tags.toList i
      have tagsIff : (∀ tag ∈ item.tags.toList, i ∈ positionsWhere (carries tag) 0 events) ↔
          ∃ event, events[i]? = some event ∧ ∀ tag ∈ item.tags.toList, tag ∈ event.tags.toList := by
        simp only [mem_positionsWhere_zero, carries, List.contains_iff_mem]
        constructor
        · intro everyTag
          obtain ⟨tag, member⟩ := List.exists_mem_of_ne_nil _ untagged
          obtain ⟨event, found, _⟩ := everyTag tag member
          refine ⟨event, found, fun other otherMember => ?_⟩
          obtain ⟨event', found', carried⟩ := everyTag other otherMember
          rwa [Option.some.inj (found.symm.trans found')]
        · rintro ⟨event, found, everyTag⟩ tag member
          exact ⟨event, found, everyTag tag member⟩
      simp only [tagged, Bool.false_eq_true, if_false]
      obtain ⟨tag, tags, sameTags⟩ := List.exists_cons_of_ne_nil untagged
      cases collected : collectPostings index item.tags.toList with
      | none =>
          simp only [List.not_mem_nil, false_iff]
          rintro ⟨event, found, _, everyTag⟩
          obtain ⟨lists, isSome, _⟩ := collectedIff.mpr (tagsIff.mpr ⟨event, found, everyTag⟩)
          simp [collected] at isSome
      | some lists =>
          have nonempty : lists ≠ [] := collectPostings_ne_nil (sameTags ▸ collected)
          simp only [collected, Option.some.injEq, exists_eq_left'] at collectedIff
          rw [List.mem_filter, mem_intersect nonempty, collectedIff, tagsIff]
          constructor
          · rintro ⟨⟨event, found, everyTag⟩, kept⟩
            exact ⟨event, found, (indexes.keepType_iff item found).mp kept, everyTag⟩
          · rintro ⟨event, found, typeOk, everyTag⟩
            exact ⟨⟨event, found, everyTag⟩, (indexes.keepType_iff item found).mpr typeOk⟩

theorem localMatches_eq (indexes : Indexes index base events) (query : Query) :
    localMatches index query = positionsWhere query.matches 0 events := by
  cases query with
  | all =>
      have everything : Query.matches .all = fun _ => true := rfl
      rw [localMatches, indexes.len_eq, everything, positionsWhere_true]
  | items items =>
      rw [localMatches]
      apply sortDedup_eq (pairwise_positionsWhere 0 events)
      intro i
      simp only [List.mem_flatMap, indexes.mem_itemLocals, mem_positionsWhere_zero, Query.matches,
        List.any_eq_true]
      constructor
      · rintro ⟨item, member, event, found, isMatch⟩
        exact ⟨event, found, item, member, isMatch⟩
      · rintro ⟨event, found, item, member, isMatch⟩
        exact ⟨item, member, event, found, isMatch⟩

theorem search_eq (indexes : Indexes index base events) (query : Query) (after : Nat) :
    search index query after = (positionsWhere query.matches base events).filter (after < ·) := by
  rw [search, indexes.localMatches_eq, indexes.base_eq, map_add_positionsWhere, Nat.add_zero]

/-- A backward search returns the matching positions before the bound, from the
highest down. -/
theorem searchBack_eq (indexes : Indexes index base events) (query : Query) (before : Nat) :
    searchBack index query before =
      ((positionsWhere query.matches base events).filter (· < before)).reverse := by
  rw [searchBack, indexes.localMatches_eq, indexes.base_eq, List.map_reverse,
    map_add_positionsWhere, Nat.add_zero, List.filter_reverse]

end Indexes

end Index

end Tephra
