import Tephra.PlannedReads
import Tephra.SealedIndex

/-!
# The estimate of a read

The planner adds up a bound for every segment: the shortest posting list of an item, the
sum over the items, and never more than the part of the segment that is in the range.
The sum is never less than the number of events that match, as long as no index tells
less than the number of events that carry a tag.  The tail of the active segment may: when it
was opened with too many types it has only the first events, and is not marked for it.
-/

namespace Tephra

namespace Read

open Index Log Positions SegmentSource SortedMaps

/-- A query for the events with a tag. -/
def ofTag (tag : Tag) : Query := .items [⟨[], Tags.single tag⟩]

theorem matches_ofTag (tag : Tag) (event : Event) :
    (ofTag tag).matches event = carries tag event := by
  rw [ofTag, Query.matches, List.any_cons, List.any_nil, Bool.or_false, Bool.eq_iff_iff,
    QueryItem.matches_iff, carries, List.contains_iff_mem]
  simp [Tags.single]

/-- No more events carry a tag than an index tells. -/
def CountsTags {ι : Type} [SegmentIndex ι] (index : ι) (events : List Event) : Prop :=
  ∀ tag, (positionsWhere (carries tag) 0 events).length ≤
    (SegmentIndex.termLen index tag).getD 0

theorem countP_or_le {α : Type} (first second : α → Bool) (items : List α) :
    items.countP (fun item => first item || second item) ≤
      items.countP first + items.countP second := by
  induction items with
  | nil => simp
  | cons item items ih =>
      simp only [List.countP_cons]
      cases first item <;> cases second item <;> simp <;> omega

theorem length_positionsIn (query : Query) (after upto base : Nat) (events : List Event) :
    (positionsIn query after upto base events).length =
      (positioned base events).countP fun entry =>
        decide (after < entry.1 ∧ entry.1 ≤ upto) && query.matches entry.2 := by
  rw [positionsIn, positionsWhere, List.filter_map, List.length_map, List.filter_filter,
    List.countP_eq_length_filter]
  rfl

/-- The matches of items are the matches of the first one and those of the others. -/
theorem length_positionsIn_cons (item : QueryItem) (items : List QueryItem)
    (after upto base : Nat) (events : List Event) :
    (positionsIn (.items (item :: items)) after upto base events).length ≤
      (positionsIn (.items [item]) after upto base events).length +
        (positionsIn (.items items) after upto base events).length := by
  rw [length_positionsIn, length_positionsIn, length_positionsIn]
  apply le_trans _ (countP_or_le ..)
  apply List.countP_mono_left
  intro entry _ kept
  simp [Query.matches] at kept ⊢
  tauto

theorem length_postings (tag : Tag) (base : Nat) (events : List Event) :
    (positionsWhere (carries tag) 0 events).length =
      (positioned base events).countP fun entry => carries tag entry.2 := by
  have shifted := @map_add_positionsWhere _ (carries tag) base 0 events
  rw [Nat.add_zero] at shifted
  rw [← List.length_map (base + ·), shifted, positionsWhere, List.length_map,
    ← List.countP_eq_length_filter]

theorem length_positionsIn_le_postings {item : QueryItem} {tag : Tag}
    (member : tag ∈ item.tags.toList) (after upto base : Nat) (events : List Event) :
    (positionsIn (.items [item]) after upto base events).length ≤
      (positionsWhere (carries tag) 0 events).length := by
  rw [length_positionsIn, length_postings tag base]
  apply List.countP_mono_left
  intro entry _ kept
  rw [Bool.and_eq_true, Query.matches, List.any_cons, List.any_nil, Bool.or_false,
    QueryItem.matches_iff] at kept
  rw [carries, List.contains_iff_mem]
  exact kept.2.2 tag member

theorem length_postings_le_positionsIn {after upto base : Nat} {events : List Event}
    (behind : after < base) (reached : base + events.length ≤ upto + 1) (tag : Tag) :
    (positionsWhere (carries tag) 0 events).length ≤
      (positionsIn (ofTag tag) after upto base events).length := by
  rw [length_positionsIn, length_postings tag base]
  apply List.countP_mono_left
  rintro ⟨position, event⟩ member carried
  obtain ⟨started, found⟩ := mem_positioned.mp member
  have inside := (List.getElem?_eq_some_iff.mp found).1
  rw [Bool.and_eq_true, decide_eq_true_eq, matches_ofTag]
  exact ⟨by dsimp only; omega, carried⟩

variable {ι : Type} [SegmentIndex ι] {index : ι}

/-- What no posting list of some tags falls below, the least of their lengths does not. -/
theorem le_smallestTerm {count smallest : Nat} {tags : List Tag} (start : count ≤ smallest)
    (each : ∀ tag ∈ tags, count ≤ (SegmentIndex.termLen index tag).getD 0) :
    count ≤ (smallestTerm index smallest tags).getD 0 := by
  induction tags generalizing smallest with
  | nil => exact start
  | cons tag tags ih =>
      obtain ⟨first, others⟩ := List.forall_mem_cons.mp each
      rw [smallestTerm]
      cases known : SegmentIndex.termLen index tag with
      | none =>
          rw [known] at first
          exact first
      | some len =>
          rw [known] at first
          exact ih (le_min start first) others

variable {base : Nat} {events : List Event} {query : Query} {after upto width : Nat}

theorem le_estimateItem (counts : CountsTags index events) {item : QueryItem} (room : width ≤ maxPosition)
    (within : (positionsIn (.items [item]) after upto base events).length ≤ width) :
    (positionsIn (.items [item]) after upto base events).length ≤
      estimateItem index item width := by
  rw [estimateItem]
  by_cases untagged : item.tags.toList.isEmpty
  · rw [if_pos untagged]
    exact within
  · rw [if_neg untagged]
    have least := @le_smallestTerm _ _ index _ maxPosition item.tags.toList (within.trans room)
      fun tag member =>
        (length_positionsIn_le_postings member after upto base events).trans (counts tag)
    cases found : smallestTerm index maxPosition item.tags.toList with
    | none =>
        rw [found] at least
        exact least
    | some smallest =>
        rw [found] at least
        exact le_min least within

/-- Adding up the estimates of items keeps at least the number of their matches, up to the
width. -/
theorem le_estimateItems (counts : CountsTags index events) (room : width ≤ maxPosition)
    (within : ∀ query, (positionsIn query after upto base events).length ≤ width) (total : Nat)
    (items : List QueryItem) :
    min width (total + (positionsIn (.items items) after upto base events).length) ≤
      estimateItems index width total items := by
  induction items generalizing total with
  | nil =>
      have nothing : positionsIn (.items []) after upto base events = [] := by
        simp [positionsIn, positionsWhere, Query.matches]
      rw [nothing, estimateItems, List.length_nil, Nat.add_zero, min_comm]
  | cons item items ih =>
      have first := le_estimateItem counts room (within (.items [item]))
      have both := length_positionsIn_cons item items after upto base events
      rw [estimateItems]
      by_cases broad : min (total + estimateItem index item width) maxPosition ≥ width
      · rw [if_pos broad]
        exact min_le_left _ _
      · rw [if_neg broad]
        have rest := ih (min (total + estimateItem index item width) maxPosition)
        omega

theorem le_estimateMatches (counts : CountsTags index events) (room : width ≤ maxPosition)
    (within : ∀ query, (positionsIn query after upto base events).length ≤ width) :
    (positionsIn query after upto base events).length ≤ estimateMatches index query width := by
  cases query with
  | all => exact within .all
  | items items =>
      have enough := le_estimateItems counts room within 0 items
      have whole := within (.items items)
      rw [estimateMatches]
      omega

theorem length_le_sub {positions : List Nat} {low bound : Nat}
    (ascending : positions.Pairwise (· < ·))
    (inside : ∀ position ∈ positions, low ≤ position ∧ position < bound) :
    positions.length ≤ bound - low := by
  by_cases room : low ≤ bound
  · have filled := length_le_of_ascending ascending room (fun position member =>
      (inside position member).1) fun position member => (inside position member).2
    omega
  · cases positions with
    | nil => exact Nat.zero_le _
    | cons position positions =>
        have here := inside position List.mem_cons_self
        omega

theorem length_positionsIn_le (query : Query) (after upto base : Nat) (events : List Event) :
    (positionsIn query after upto base events).length ≤
      min (base + events.length - 1) upto + 1 - (max after (base - 1) + 1) := by
  apply length_le_sub (pairwise_positionsIn ..)
  intro position member
  obtain ⟨range, started, event, found, _⟩ := mem_positionsIn.mp member
  have bound := (List.getElem?_eq_some_iff.mp found).1
  omega

theorem positionsIn_take (query : Query) (after upto base : Nat) (events : List Event) :
    positionsIn query after upto base (events.take (upto + 1 - base)) =
      positionsIn query after upto base events := by
  rw [positionsIn, positionsWhere_take, List.filter_filter, positionsIn]
  apply List.filter_congr
  intro position member
  have started := le_of_mem_positionsWhere member
  rw [← Bool.decide_and, decide_eq_decide]
  omega

/-- A single tag is estimated by what an index tells of it, and the width. -/
theorem estimateMatches_ofTag (tag : Tag) (room : width ≤ maxPosition) :
    estimateMatches index (ofTag tag) width =
      min ((SegmentIndex.termLen index tag).getD 0) width := by
  have item : estimateItem index ⟨[], .single tag⟩ width =
      min ((SegmentIndex.termLen index tag).getD 0) width := by
    have tagged : (Tags.single tag).toList = [tag] := rfl
    rw [estimateItem, tagged, List.isEmpty_cons, if_neg Bool.false_ne_true, smallestTerm]
    cases SegmentIndex.termLen index tag with
    | none => exact (Nat.zero_min width).symm
    | some len =>
        change min (min maxPosition len) width = min len width
        omega
  rw [ofTag, estimateMatches, estimateItems, item]
  split
  · omega
  · rw [estimateItems]
    omega

section Indexes

variable {tail : ActiveTail} {base : Nat} {fed rest events : List Event}

theorem length_postings_le (tag : Tag) (events : List Event) (upto : Nat) :
    (positionsWhere (carries tag) 0 (events.take upto)).length ≤
      (positionsWhere (carries tag) 0 events).length := by
  rw [positionsWhere_take]
  exact List.length_filter_le ..

/-- What a view of a tail tells of a tag lies between the number of the visible events that
carry it and that of all that were fed. -/
theorem termLen_view (holds : tail.Holds base fed) (fits : FitsSegment fed) {upto : Nat}
    (started : base ≤ upto) (tag : Tag) :
    (positionsWhere (carries tag) 0 (fed.take (upto + 1 - base))).length ≤
        ((tail.view upto).termLen tag).getD 0 ∧
      ((tail.view upto).termLen tag).getD 0 ≤ (positionsWhere (carries tag) 0 fed).length := by
  obtain ⟨column, columnHolds, columnTypes⟩ := holds.column
  have columnLength : column.length = fed.length := by
    simpa using congrArg List.length columnTypes
  have covered : fed.length ≤ tail.typeColumn.covered :=
    columnLength ▸ columnHolds.length_le_covered (columnLength ▸ fits.length_lt)
  have short := fits.length_lt
  have visible : min (upto + 1 - base) fed.length ≤ (tail.view upto).uptoLen := by
    have reached : min (upto + 1 - base) fed.length ≤ tail.visibleLen upto := by
      rw [ActiveTail.visibleLen, holds.base_eq, if_pos started]
      omega
    exact le_min reached ((min_le_right _ _).trans covered)
  have fewer := length_postings_le tag fed (upto + 1 - base)
  have some_of := length_positionsWhere_le (carries tag) 0 (fed.take (upto + 1 - base))
  rw [List.length_take] at some_of
  obtain ⟨slots, slotsHold, -, slotOf⟩ := holds.terms.slots
  cases known : tail.tags.lookup tag with
  | none =>
      have nowhere := (holds.terms.absent_iff tag).mp known
      rw [nowhere] at fewer
      rw [ActiveView.termLen_of_unknown _ known, nowhere]
      exact ⟨fewer, le_rfl⟩
  | some term =>
      obtain ⟨slot, found, slotHolds⟩ := slotOf tag term known
      obtain ⟨bound, rfl⟩ := List.getElem?_eq_some_iff.mp found
      have own : (tail.view upto).postings.get term = some slots[term] := slotsHold.get bound
      rw [ActiveView.termLen_of_known _ known, own, Option.map_some, Option.getD_some,
        slotHolds.len_eq]
      exact ⟨le_min fewer (some_of.trans visible), min_le_left _ _⟩

theorem countsTags_view (holds : tail.Holds base fed) (fits : FitsSegment fed) {upto : Nat}
    (started : base ≤ upto)
    (untagged : ∀ event ∈ rest.take (upto + 1 - base - fed.length), event.tags.toList = []) :
    CountsTags (tail.view upto) ((fed ++ rest).take (upto + 1 - base)) := by
  intro tag
  have behind : ∀ start, positionsWhere (carries tag) start
      (rest.take (upto + 1 - base - fed.length)) = [] := by
    intro start
    apply List.eq_nil_iff_forall_not_mem.mpr
    intro position member
    obtain ⟨event, -, found, carried⟩ := mem_positionsWhere.mp member
    simp [carries, untagged event (List.mem_of_getElem? found)] at carried
  rw [List.take_append, positionsWhere_append, behind, List.append_nil]
  exact (termLen_view holds fits started tag).1

/-- The index of a sealed segment tells the length of its posting lists. -/
theorem countsTags_of_indexes {format : MapFormat} {built : IndexSegment format}
    (indexes : Indexes built base events) (short : events.length < 2 ^ 32) :
    CountsTags built events := by
  intro tag
  have same := indexes.postings_eq tag
  change ((built.termPostings tag).join).getD [] = _ at same
  change _ ≤ ((built.termLen tag).join).getD 0
  rw [← same]
  rw [IndexSegment.termPostings] at same ⊢
  rw [IndexSegment.termLen]
  cases found : format.get built.map tag.bytes with
  | none => exact Nat.zero_le _
  | some value =>
      rw [found] at same
      dsimp only at same ⊢
      cases decoded : decodePostings value.toNat built.postingsRegion with
      | none => exact Nat.zero_le _
      | some result =>
          cases result with
          | error error => exact Nat.zero_le _
          | ok postings =>
              rw [decoded] at same
              obtain rfl : postings = _ := same
              have few := (length_positionsWhere_le (carries tag) 0 events).trans_lt short
              rw [postingLen_of_decoded decoded few]
              exact le_rfl

end Indexes

theorem length_scanOracle_all {after upto : Nat} {log : List Event}
    (covered : upto < firstPosition + log.length) :
    (scanOracle .all after upto log).length = upto - after := by
  have positions : positionsIn .all after upto firstPosition log =
      List.range' (after + 1) (upto - after) := by
    apply (pairwise_positionsIn ..).eq_of_mem_iff (List.pairwise_lt_range' _)
    intro position
    rw [mem_positionsIn, List.mem_range'_1]
    constructor
    · rintro ⟨range, _⟩
      omega
    · intro range
      have inside : position - firstPosition < log.length := by
        rw [firstPosition] at covered ⊢
        omega
      refine ⟨by omega, ?_, _, List.getElem?_eq_getElem inside, rfl⟩
      rw [firstPosition]
      omega
  rw [← List.length_map Sequenced.position, map_position_scanOracle, positions, List.length_range']

variable {σ : Type}

/-- The tail is marked, or no event up to the watermark that is not in it has a tag. -/
def TailKnowsTags (snapshot : Snapshot σ) (watermark : Nat) : Prop :=
  snapshot.activeIndex.unindexable = true ∨
    ∀ event ∈ (snapshot.activeLog.events.take (watermark + 1 - snapshot.activeLog.base)).drop
      snapshot.activeIndex.len, event.tags.toList = []

variable [SegmentIndex σ]

/-- The segments of a snapshot hold a log up to a watermark at least, and the active tail holds
the first events of the active segment.  A segment has `u32` offsets. -/
structure Covers (snapshot : Snapshot σ) (watermark : Nat) (log : List Event) : Prop extends
    LaidOut snapshot watermark log where
  fits : ∀ segment ∈ snapshot.sealedLog, FitsSegment segment.events
  tail : ∃ fed rest, snapshot.activeLog.events = fed ++ rest ∧ FitsSegment fed ∧
    snapshot.activeIndex.Holds snapshot.activeLog.base fed

/-- The width of a read is the number of positions in its range, and the estimate is between
the number of matches there and the width. -/
def EstimatesRight (snapshot : Snapshot σ) (watermark : Nat) (log : List Event) : Prop :=
  ∀ query after upto, upto ≤ watermark → after < maxPosition →
    ∃ estimate width, estimateRead snapshot query after upto = some (estimate, width) ∧
      width = upto - after ∧ width = (scanOracle .all after upto log).length ∧
      (scanOracle query after upto log).length ≤ estimate ∧ estimate ≤ width

namespace LaidOut

variable {snapshot : Snapshot σ} {watermark : Nat} {log : List Event}

theorem estimateSealed_skip (laid : LaidOut snapshot watermark log) (query : Query)
    {after upto : Nat} {pairs : List (Segment × Option σ)}
    (outside : ∀ pair ∈ pairs, (∃ idx : Nat, (segments snapshot)[idx]? = some pair.1) ∧
      min (pair.1.base + pair.1.records.length - 1) upto ≤ after) :
    estimateSealed query after upto 0 0 pairs = some (0, 0) := by
  induction pairs with
  | nil => rfl
  | cons pair pairs ih =>
      rw [List.forall_mem_cons] at outside
      obtain ⟨⟨⟨idx, found⟩, early⟩, others⟩ := outside
      obtain ⟨segment, index⟩ := pair
      rw [estimateSealed, laid.effectiveMax_eq found]
      split
      · exact ih others
      · simp only [Option.bind_eq_bind, Option.bind_some]
        rw [if_pos early]
        exact ih others

theorem estimateRead_empty (laid : LaidOut snapshot watermark log) (query : Query)
    {after upto : Nat} (empty : upto ≤ after) (room : after < maxPosition) :
    estimateRead snapshot query after upto = some (0, 0) := by
  have nothing := @estimateSealed_skip _ _ _ _ _ laid query after upto
    (snapshot.sealedLog.zip snapshot.sealedIndex) (by
      rintro ⟨segment, index⟩ member
      exact ⟨(laid.mem_zip member).1, (min_le_right _ _).trans empty⟩)
  have positive := laid.one_le_base (activeLog_found snapshot)
  change 1 ≤ snapshot.activeLog.base at positive
  rw [estimateRead, nothing]
  simp only [Option.bind_eq_bind, Option.bind_some]
  by_cases started : upto ≥ snapshot.activeLog.base
  · have width : segmentWidth after snapshot.activeLog.base upto = some 0 := by
      rw [segmentWidth, firstAfter, checkedAdd, if_pos (by omega)]
      simp only [Option.bind_eq_bind, Option.bind_some]
      rw [checkedAdd, if_pos (by omega), Option.bind_some]
      congr 1
      omega
    have noMatches : (if snapshot.activeIndex.unindexable = true then 0
        else estimateMatches (snapshot.activeIndex.view upto) query 0) = 0 := by
      split
      · rfl
      · exact Nat.le_zero.mp (estimateMatches_le _ query 0)
    rw [if_pos started, width]
    simp only [Option.bind_some, noMatches]
    rfl
  · rw [if_neg started]
    rfl

theorem sealed_end_le (laid : LaidOut snapshot watermark log) {pair : Segment × Option σ}
    (member : pair ∈ snapshot.sealedLog.zip snapshot.sealedIndex) :
    pair.1.base + pair.1.records.length ≤ snapshot.activeLog.base := by
  obtain ⟨idx, found⟩ := List.getElem?_of_mem (List.of_mem_zip member).1
  have inside := (List.getElem?_eq_some_iff.mp found).1
  have here : (segments snapshot)[idx]? = some pair.1 := by
    rw [show segments snapshot = snapshot.sealedLog ++ [snapshot.activeLog] from rfl,
      List.getElem?_append_left inside, found]
  exact laid.contiguous.end_le_base inside here (activeLog_found snapshot)

theorem estimateRead_active (laid : LaidOut snapshot watermark log) (query : Query)
    {after upto : Nat} (unmarked : snapshot.activeIndex.unindexable = false)
    (behind : snapshot.activeLog.base - 1 ≤ after) (below : after < upto)
    (covered : upto ≤ watermark) :
    estimateRead snapshot query after upto = some
      (estimateMatches (snapshot.activeIndex.view upto) query (upto - after), upto - after) := by
  have skipped := @estimateSealed_skip _ _ _ _ _ laid query after upto
    (snapshot.sealedLog.zip snapshot.sealedIndex) (by
      rintro ⟨segment, index⟩ member
      have ended := laid.sealed_end_le member
      exact ⟨(laid.mem_zip member).1, (min_le_left _ _).trans (by dsimp only at ended ⊢; omega)⟩)
  have positive := laid.one_le_base (activeLog_found snapshot)
  have bound := laid.covered
  have room := laid.room
  change 1 ≤ snapshot.activeLog.base at positive
  have width : segmentWidth after snapshot.activeLog.base upto = some (upto - after) := by
    rw [laid.segmentWidth_eq (activeLog_found snapshot) below covered le_rfl]
    congr 1
    omega
  have low := estimateMatches_le (snapshot.activeIndex.view upto) query (upto - after)
  rw [estimateRead, skipped]
  simp only [Option.bind_eq_bind, Option.bind_some]
  rw [if_pos (by omega), width, unmarked]
  simp only [Option.bind_some, Bool.false_eq_true, if_false]
  rw [checkedAdd, if_pos (by omega), Option.bind_some, checkedAdd, if_pos (by omega),
    Option.bind_some, Nat.zero_add, Nat.zero_add, Nat.min_eq_left low]
  rfl

end LaidOut

namespace Covers

variable {format : MapFormat} {snapshot : Snapshot (IndexSegment format)} {watermark : Nat}
  {log : List Event}

/-- The estimate of a sealed segment is at least the number of matches in it. -/
theorem le_estimateSegment (covers : Covers snapshot watermark log) {query : Query}
    {after upto : Nat} (covered : upto ≤ watermark) {segment : Segment}
    {index : Option (IndexSegment format)}
    (member : (segment, index) ∈ snapshot.sealedLog.zip snapshot.sealedIndex) :
    (positionsIn query after upto segment.base segment.events).length ≤
      if segment.records.length = 0 ∨
          min (segment.base + segment.records.length - 1) upto ≤ after then 0
      else estimateSegment query
        (min (segment.base + segment.records.length - 1) upto + 1 -
          (max after (segment.base - 1) + 1)) index := by
  obtain ⟨⟨idx, found⟩, indexed⟩ := covers.mem_zip member
  have count := covers.length_events (List.mem_of_getElem? found)
  have positive := covers.one_le_base found
  have bound := covers.covered
  have room := covers.room
  have within := fun query => length_positionsIn_le query after upto segment.base segment.events
  simp only [count] at within
  change 1 ≤ _ at positive
  by_cases skipped : segment.records.length = 0 ∨
      min (segment.base + segment.records.length - 1) upto ≤ after
  · rw [if_pos skipped]
    rcases skipped with vacant | early
    · rw [List.length_eq_zero_iff.mp (count.trans vacant)]
      exact le_rfl
    · rw [positionsIn_eq_nil (by omega)]
      exact le_rfl
  · rw [if_neg skipped]
    cases index with
    | none => exact within query
    | some built =>
        have short := (covers.fits segment (List.of_mem_zip member).1).length_lt
        exact le_estimateMatches (countsTags_of_indexes (indexed built rfl) (by omega))
          (by omega) within

/-- The estimate of the active segment is at least the number of matches in it, if the tail knows
the tags. -/
theorem le_estimateActive (covers : Covers snapshot watermark log)
    (knows : TailKnowsTags snapshot watermark) {query : Query} {after upto : Nat}
    (covered : upto ≤ watermark) :
    (positionsIn query after upto snapshot.activeLog.base snapshot.activeLog.events).length ≤
      if upto ≥ snapshot.activeLog.base then
        if snapshot.activeIndex.unindexable then
          upto + 1 - (max after (snapshot.activeLog.base - 1) + 1)
        else estimateMatches (snapshot.activeIndex.view upto) query
          (upto + 1 - (max after (snapshot.activeLog.base - 1) + 1))
      else 0 := by
  have bound := covers.covered
  have room := covers.room
  have within := fun query =>
    length_positionsIn_le query after upto snapshot.activeLog.base snapshot.activeLog.events
  have narrow : min (snapshot.activeLog.base + snapshot.activeLog.events.length - 1) upto ≤ upto :=
    min_le_right _ _
  by_cases started : upto ≥ snapshot.activeLog.base
  · rw [if_pos started]
    by_cases latched : snapshot.activeIndex.unindexable = true
    · rw [if_pos latched]
      exact (within query).trans (by omega)
    · rw [if_neg latched]
      obtain ⟨fed, rest, split, fits, holds⟩ := covers.tail
      have untagged : ∀ event ∈ rest.take (upto + 1 - snapshot.activeLog.base - fed.length),
          event.tags.toList = [] := by
        intro event member
        apply knows.resolve_left latched event
        rw [split, List.drop_take, holds.len_eq, List.drop_left]
        exact (List.take_subset_take_left rest (by omega)) member
      have counts := countsTags_view holds fits started untagged
      rw [← split] at counts
      have enough := @le_estimateMatches _ _ (snapshot.activeIndex.view upto)
        snapshot.activeLog.base _ query after upto
        (upto + 1 - (max after (snapshot.activeLog.base - 1) + 1)) counts (by omega)
        (fun query => by
          rw [positionsIn_take]
          exact (within query).trans (by omega))
      rwa [positionsIn_take] at enough
  · rw [if_neg started, positionsIn_eq_nil (by omega)]
    exact le_rfl

end Covers

namespace Covers

variable {format : MapFormat} {snapshot : Snapshot (IndexSegment format)} {watermark : Nat}
  {log : List Event}

theorem estimatesRight (covers : Covers snapshot watermark log)
    (knows : TailKnowsTags snapshot watermark) : EstimatesRight snapshot watermark log := by
  intro query after upto covered room
  have bound := covers.covered
  have whole := @length_scanOracle_all after upto log (by omega)
  by_cases empty : upto ≤ after
  · refine ⟨0, 0, covers.estimateRead_empty query empty room, by omega, by omega, ?_, le_rfl⟩
    rw [Reads.scanOracle_eq_nil empty]
    exact le_rfl
  · obtain ⟨estimate, estimated, capped, enough⟩ := @LaidOut.estimateRead_needed _ _ _ _ _
      covers.toLaidOut after upto query (Nat.lt_of_not_le empty) covered
      (fun segment => (positionsIn query after upto segment.base segment.events).length)
      (fun segment index member => covers.le_estimateSegment covered member)
      (covers.le_estimateActive knows covered)
    refine ⟨estimate, upto - after, estimated, rfl, whole.symm, ?_, capped⟩
    rwa [← List.length_map Sequenced.position, map_position_scanOracle,
      covers.positionsIn_log, List.length_flatMap]

/-- The matches of a tag in the active segment are at least those that were fed and one more, if
an event behind them carries it. -/
theorem fed_lt_matches (covers : Covers snapshot watermark log) {fed rest : List Event}
    (split : snapshot.activeLog.events = fed ++ rest) {event : Event} {tag : Tag}
    (member : event ∈ rest.take (watermark + 1 - snapshot.activeLog.base - fed.length))
    (carried : tag ∈ event.tags.toList) :
    (positionsWhere (carries tag) 0 fed).length <
      (scanOracle (ofTag tag) (snapshot.activeLog.base - 1) watermark
        log).length := by
  obtain ⟨i, found⟩ := List.getElem?_of_mem member
  have inside := (List.getElem?_eq_some_iff.mp found).1
  rw [List.length_take] at inside
  have positive := covers.one_le_base (activeLog_found snapshot)
  change 1 ≤ snapshot.activeLog.base at positive
  have here : (positionsIn (ofTag tag) (snapshot.activeLog.base - 1) watermark
      snapshot.activeLog.base snapshot.activeLog.events).length ≤
        (scanOracle (ofTag tag) (snapshot.activeLog.base - 1) watermark
          log).length := by
    rw [← List.length_map Sequenced.position, map_position_scanOracle, covers.positionsIn_log,
      show segments snapshot = snapshot.sealedLog ++ [snapshot.activeLog] from rfl,
      List.flatMap_append, List.flatMap_singleton, List.length_append]
    exact Nat.le_add_left _ _
  refine lt_of_lt_of_le ?_ here
  rw [← positionsIn_take, split, List.take_append, List.take_of_length_le (by omega),
    positionsIn_append, List.length_append]
  have before := @length_postings_le_positionsIn (snapshot.activeLog.base - 1) watermark
    snapshot.activeLog.base fed (by omega) (by omega) tag
  have one : snapshot.activeLog.base + fed.length + i ∈ positionsIn (ofTag tag)
      (snapshot.activeLog.base - 1) watermark (snapshot.activeLog.base + fed.length)
      (rest.take (watermark + 1 - snapshot.activeLog.base - fed.length)) := by
    refine mem_positionsIn.mpr ⟨by omega, Nat.le_add_right _ _, event, ?_, ?_⟩
    · rw [Nat.add_sub_cancel_left]
      exact found
    · rw [matches_ofTag, carries, List.contains_iff_mem]
      exact carried
  have some_here := List.length_pos_of_mem one
  omega

theorem knowsTags (covers : Covers snapshot watermark log)
    (right : EstimatesRight snapshot watermark log) : TailKnowsTags snapshot watermark := by
  cases latched : snapshot.activeIndex.unindexable with
  | true => exact .inl latched
  | false =>
      refine .inr fun event member => ?_
      obtain ⟨fed, rest, split, fits, holds⟩ := covers.tail
      rw [split, List.drop_take, holds.len_eq, List.drop_left] at member
      by_contra tagged
      obtain ⟨tag, tags, tagsEq⟩ := List.exists_cons_of_ne_nil tagged
      have carried : tag ∈ event.tags.toList := tagsEq ▸ List.mem_cons_self
      have more := covers.fed_lt_matches split member carried
      have positive := covers.one_le_base (activeLog_found snapshot)
      have bound := covers.covered
      have room := covers.room
      change 1 ≤ snapshot.activeLog.base at positive
      have inside := List.length_pos_of_mem member
      rw [List.length_take] at inside
      obtain ⟨estimate, width, estimated, widthEq, all, enough, capped⟩ :=
        right (ofTag tag) (snapshot.activeLog.base - 1) watermark le_rfl (by omega)
      rw [covers.estimateRead_active _ latched le_rfl (by omega) le_rfl] at estimated
      obtain ⟨rfl, rfl⟩ := Prod.mk.inj (Option.some.inj estimated)
      have started : snapshot.activeLog.base ≤ watermark := by omega
      have told := (termLen_view holds fits started tag).2
      have low := @estimateMatches_ofTag _ _ (snapshot.activeIndex.view watermark)
        (watermark - (snapshot.activeLog.base - 1)) tag (by omega)
      change _ = min (((snapshot.activeIndex.view watermark).termLen tag).getD 0) _ at low
      omega

end Covers

end Read

end Tephra
