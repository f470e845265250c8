import Tephra.ReadPlan

/-!
# Planned reads and the log

A snapshot is *consistent* with a log when its segments hold the log, every
index that is present describes its segment, and the view of the active tail up
to any position that is covered describes the events up to there.  Every plan of
a read over a consistent snapshot yields the matching events of its range.
-/

namespace Tephra

namespace Read

open AscendingLists Index Log Positions SegmentSource

variable {σ : Type} [SegmentIndex σ]

/-- The events of a segment. -/
def Segment.events (self : Segment) : List Event := self.records.filterMap Except.toOption

/-- An index that is present describes its segment. -/
def IndexedBy (segment : Segment) (index : Option σ) : Prop :=
  ∀ built, index = some built → Indexes built segment.base segment.events

/-- The segments of a snapshot hold a log that reaches the watermark, or past it, and whose next
position is a 64-bit integer.  The index of a sealed segment is that of its events. -/
structure LaidOut (snapshot : Snapshot σ) (watermark : Nat) (log : List Event) : Prop where
  contiguous : Contiguous firstPosition (segments snapshot)
  recorded : records snapshot = log.map Except.ok
  covered : watermark < firstPosition + log.length
  room : firstPosition + log.length ≤ maxPosition
  aligned : List.Forall₂ IndexedBy snapshot.sealedLog snapshot.sealedIndex

/-- What a read up to a watermark may rely on: a tail that is not latched has all events up to
there, too. -/
structure Consistent (snapshot : Snapshot σ) (watermark : Nat) (log : List Event) : Prop
    extends LaidOut snapshot watermark log where
  active : snapshot.activeIndex.unindexable = false → ∀ upto, snapshot.activeLog.base ≤ upto →
    upto ≤ watermark →
      Indexes (snapshot.activeIndex.view upto) snapshot.activeLog.base
        (snapshot.activeLog.events.take (upto + 1 - snapshot.activeLog.base))

theorem Consistent.mono {snapshot : Snapshot σ} {watermark earlier : Nat} {log : List Event}
    (consistent : Consistent snapshot watermark log) (below : earlier ≤ watermark) :
    Consistent snapshot earlier log :=
  { consistent with
    covered := below.trans_lt consistent.covered
    active := fun unmarked upto started inside =>
      consistent.active unmarked upto started (inside.trans below) }

/-- The events of a log that match a query, after a position and up to another
one, in ascending order. -/
def scanOracle (query : Query) (after upto : Nat) (log : List Event) : List Sequenced :=
  ((positioned firstPosition log).filter fun entry =>
    decide (after < entry.1 ∧ entry.1 ≤ upto) && query.matches entry.2).map
      fun entry => ⟨entry.1, entry.2⟩

/-- The matching positions of a log in a range. -/
def positionsIn (query : Query) (after upto base : Nat) (events : List Event) : List Nat :=
  (positionsWhere query.matches base events).filter fun position =>
    decide (after < position ∧ position ≤ upto)

theorem mem_positionsIn {query : Query} {after upto base position : Nat} {events : List Event} :
    position ∈ positionsIn query after upto base events ↔
      (after < position ∧ position ≤ upto) ∧ base ≤ position ∧
        ∃ event, events[position - base]? = some event ∧ query.matches event = true := by
  rw [positionsIn, List.mem_filter, mem_positionsWhere, decide_eq_true_eq, and_comm]
  simp only [exists_and_left]

@[simp]
theorem positionsIn_nil (query : Query) (after upto base : Nat) :
    positionsIn query after upto base [] = [] := rfl

theorem pairwise_positionsIn (query : Query) (after upto base : Nat) (events : List Event) :
    (positionsIn query after upto base events).Pairwise (· < ·) :=
  (pairwise_positionsWhere base events).filter _

theorem positionsIn_append (query : Query) (after upto base : Nat) (left right : List Event) :
    positionsIn query after upto base (left ++ right) =
      positionsIn query after upto base left ++
        positionsIn query after upto (base + left.length) right := by
  rw [positionsIn, positionsWhere_append, List.filter_append]
  rfl

theorem positionsIn_eq_nil {query : Query} {after upto base : Nat} {events : List Event}
    (outside : upto < base ∨ base + events.length ≤ after + 1 ∨ upto ≤ after) :
    positionsIn query after upto base events = [] := by
  apply List.eq_nil_iff_forall_not_mem.mpr
  intro position member
  obtain ⟨inside, started, event, found, _⟩ := mem_positionsIn.mp member
  have bound := (List.getElem?_eq_some_iff.mp found).1
  omega

theorem map_position_scanOracle (query : Query) (after upto : Nat) (log : List Event) :
    (scanOracle query after upto log).map Sequenced.position =
      positionsIn query after upto firstPosition log := by
  rw [scanOracle, positionsIn, positionsWhere, List.filter_map, List.filter_filter, List.map_map]
  rfl

/-- The matches among the records of a range are the matching positions there. -/
theorem map_fst_between (query : Query) (first upto : Nat) (log : List Event) :
    ((between first upto firstPosition log).filter fun entry => query.matches entry.2).map
        Prod.fst =
      positionsIn query (first - 1) upto firstPosition log := by
  rw [between, List.filter_filter, positionsIn, positionsWhere, List.filter_map,
    List.filter_filter]
  congr 1
  apply List.filter_congr
  rintro ⟨position, event⟩ member
  have started := (mem_positioned.mp member).1
  change 1 ≤ position at started
  simp only [Function.comp_apply]
  rw [Bool.and_comm]
  congr 1
  simp only [decide_eq_decide]
  omega

theorem filter_between (query : Query) (after upto : Nat) (log : List Event) :
    ((between (after + 1) upto firstPosition log).filter fun entry => query.matches entry.2).map
        (fun entry => (⟨entry.1, entry.2⟩ : Sequenced)) =
      scanOracle query after upto log := by
  rw [between, List.filter_filter, scanOracle]
  congr 1
  apply List.filter_congr
  rintro ⟨position, event⟩ _
  rw [Bool.and_comm]
  rfl

theorem mem_scanOracle {query : Query} {after upto : Nat} {log : List Event} {item : Sequenced} :
    item ∈ scanOracle query after upto log ↔
      (item.position, item.event) ∈ positioned firstPosition log ∧
        (after < item.position ∧ item.position ≤ upto) ∧ query.matches item.event = true := by
  rw [scanOracle, List.mem_map]
  constructor
  · rintro ⟨entry, kept, rfl⟩
    simpa [List.mem_filter] using kept
  · rintro ⟨placed, range, isMatch⟩
    refine ⟨(item.position, item.event), ?_, rfl⟩
    rw [List.mem_filter]
    exact ⟨placed, by simpa [isMatch] using range⟩

theorem pairwise_scanOracle (query : Query) (after upto : Nat) (log : List Event) :
    (scanOracle query after upto log).Pairwise fun first second =>
      first.position < second.position := by
  rw [← List.pairwise_map, map_position_scanOracle]
  exact pairwise_positionsIn ..

private theorem eq_of_mem_iff {left right : List Sequenced}
    (leftAscends : left.Pairwise fun first second => first.position < second.position)
    (rightAscends : right.Pairwise fun first second => first.position < second.position)
    (members : ∀ item, item ∈ left ↔ item ∈ right) : left = right := by
  have irreflexive : Std.Irrefl fun first second : Sequenced =>
      first.position < second.position := ⟨fun item => Nat.lt_irrefl item.position⟩
  have antisymmetric : Std.Antisymm fun first second : Sequenced =>
      first.position < second.position :=
    ⟨fun _ _ before after => absurd after (Nat.lt_asymm before)⟩
  exact leftAscends.eq_of_mem_iff rightAscends members

/-- A range splits at every position inside it. -/
theorem scanOracle_split {query : Query} {after middle upto : Nat} {log : List Event}
    (low : after ≤ middle) (high : middle ≤ upto) :
    scanOracle query after upto log =
      scanOracle query after middle log ++ scanOracle query middle upto log := by
  apply eq_of_mem_iff (pairwise_scanOracle ..)
  · rw [List.pairwise_append]
    refine ⟨pairwise_scanOracle .., pairwise_scanOracle .., ?_⟩
    intro first memberFirst second memberSecond
    have before := (mem_scanOracle.mp memberFirst).2.1
    have beyond := (mem_scanOracle.mp memberSecond).2.1
    omega
  · intro item
    rw [List.mem_append, mem_scanOracle, mem_scanOracle, mem_scanOracle]
    constructor
    · rintro ⟨placed, range, isMatch⟩
      by_cases early : item.position ≤ middle
      · exact Or.inl ⟨placed, ⟨range.1, early⟩, isMatch⟩
      · exact Or.inr ⟨placed, ⟨by omega, range.2⟩, isMatch⟩
    · rintro (⟨placed, range, isMatch⟩ | ⟨placed, range, isMatch⟩)
      · exact ⟨placed, ⟨range.1, by omega⟩, isMatch⟩
      · exact ⟨placed, ⟨by omega, range.2⟩, isMatch⟩

/-- The first events of a range are the range up to the last of them. -/
theorem scanOracle_prefix {query : Query} {after upto : Nat} {log : List Event}
    {front back : List Sequenced} {last : Sequenced}
    (split : scanOracle query after upto log = front ++ last :: back) :
    front ++ [last] = scanOracle query after last.position log := by
  have ascends := pairwise_scanOracle query after upto log
  rw [split, List.pairwise_append, List.pairwise_cons] at ascends
  obtain ⟨frontAscends, ⟨behind, _⟩, before⟩ := ascends
  have inRange := (mem_scanOracle.mp (show last ∈ scanOracle query after upto log by
    rw [split]
    exact List.mem_append_right _ (List.mem_cons_self ..))).2.1
  apply eq_of_mem_iff _ (pairwise_scanOracle ..)
  · intro item
    have members : item ∈ front ++ last :: back ↔
        (item.position, item.event) ∈ positioned firstPosition log ∧
          (after < item.position ∧ item.position ≤ upto) ∧ query.matches item.event = true := by
      rw [← split, mem_scanOracle]
    rw [List.mem_append, List.mem_singleton, mem_scanOracle]
    constructor
    · intro kept
      have bound : item.position ≤ last.position := by
        rcases kept with inFront | rfl
        · exact (before item inFront last (List.mem_cons_self ..)).le
        · exact le_rfl
      have member : item ∈ front ++ last :: back := by
        rw [List.mem_append, List.mem_cons]
        exact kept.imp_right Or.inl
      obtain ⟨placed, range, isMatch⟩ := members.mp member
      exact ⟨placed, ⟨range.1, bound⟩, isMatch⟩
    · rintro ⟨placed, range, isMatch⟩
      have member := members.mpr ⟨placed, ⟨range.1, range.2.trans inRange.2⟩, isMatch⟩
      rw [List.mem_append, List.mem_cons] at member
      rcases member with inFront | rfl | inBack
      · exact Or.inl inFront
      · exact Or.inr rfl
      · exact absurd range.2 (Nat.not_le_of_lt (behind item inBack))
  · rw [List.pairwise_append]
    refine ⟨frontAscends, List.pairwise_singleton _ _, ?_⟩
    intro first inFront second isLast
    rw [List.mem_singleton.mp isLast]
    exact before first inFront last (List.mem_cons_self ..)

/-- The last events of a range are the range from the first of them on. -/
theorem scanOracle_suffix {query : Query} {after upto : Nat} {log : List Event}
    {front back : List Sequenced} {first : Sequenced}
    (split : scanOracle query after upto log = front ++ first :: back) :
    first :: back = scanOracle query (first.position - 1) upto log := by
  have here : first ∈ scanOracle query after upto log := by
    rw [split]
    exact List.mem_append_right _ (List.mem_cons_self ..)
  obtain ⟨placed, range, isMatch⟩ := mem_scanOracle.mp here
  have single : scanOracle query (first.position - 1) first.position log = [first] := by
    apply eq_of_mem_iff (pairwise_scanOracle ..) (List.pairwise_singleton _ _)
    intro item
    rw [mem_scanOracle, List.mem_singleton]
    constructor
    · rintro ⟨placed', range', _⟩
      obtain ⟨_, found⟩ := mem_positioned.mp placed'
      have same : item.position = first.position := by omega
      obtain ⟨position, event⟩ := item
      obtain rfl : position = first.position := same
      rw [(mem_positioned.mp placed).2] at found
      obtain rfl : first.event = event := Option.some.inj found
      rfl
    · rintro rfl
      exact ⟨placed, by omega, isMatch⟩
  have rest := @scanOracle_split query after first.position upto log range.1.le range.2
  rw [← scanOracle_prefix split, split, List.append_assoc, List.singleton_append] at rest
  rw [@scanOracle_split query (first.position - 1) first.position upto log (Nat.sub_le _ _) range.2,
    single, List.singleton_append]
  exact List.append_cancel_left rest

/-- A range inside a log does not see what is appended. -/
theorem scanOracle_append {query : Query} {after upto : Nat} {log more : List Event}
    (inside : upto < firstPosition + log.length ∨ upto ≤ after) :
    scanOracle query after upto (log ++ more) = scanOracle query after upto log := by
  apply eq_of_mem_iff (pairwise_scanOracle ..) (pairwise_scanOracle ..)
  intro item
  simp only [mem_scanOracle]
  apply and_congr_left
  rintro ⟨range, _⟩
  rw [positioned_append, List.mem_append]
  constructor
  · rintro (placed | beyond)
    · exact placed
    · have started := (mem_positioned.mp beyond).1
      omega
  · exact Or.inl

theorem Segment.events_of_records {segment : Segment} {events : List Event}
    (recorded : segment.records = events.map Except.ok) :
    segment.events = events := by
  rw [Segment.events, recorded, List.filterMap_map]
  exact List.filterMap_some

/-- The records of segments that hold a log are the events of the segments. -/
theorem records_of_flatMap {segs : List Segment} {log : List Event}
    (recorded : segs.flatMap Segment.records = log.map Except.ok) :
    (∀ segment ∈ segs, segment.records = segment.events.map Except.ok) ∧
      segs.flatMap Segment.events = log := by
  induction segs generalizing log with
  | nil => simpa using recorded.symm
  | cons segment segs ih =>
      rw [List.flatMap_cons] at recorded
      obtain ⟨left, right, rfl, leftEq, rightEq⟩ := List.map_eq_append_iff.mp recorded.symm
      obtain ⟨each, whole⟩ := ih rightEq.symm
      have events := Segment.events_of_records leftEq.symm
      constructor
      · rw [List.forall_mem_cons, events]
        exact ⟨leftEq.symm, each⟩
      · rw [List.flatMap_cons, events, whole]

namespace LaidOut

variable {snapshot : Snapshot σ} {watermark : Nat} {log : List Event}

theorem segment_records (laid : LaidOut snapshot watermark log) {segment : Segment}
    (member : segment ∈ segments snapshot) :
    segment.records = segment.events.map Except.ok :=
  (records_of_flatMap laid.recorded).1 segment member

theorem length_events (laid : LaidOut snapshot watermark log) {segment : Segment}
    (member : segment ∈ segments snapshot) :
    segment.events.length = segment.records.length := by
  rw [laid.segment_records member, List.length_map]

theorem length_records (laid : LaidOut snapshot watermark log) :
    (records snapshot).length = log.length := by
  rw [laid.recorded, List.length_map]

/-- A segment ends where the log does, or before. -/
theorem segment_end_le (laid : LaidOut snapshot watermark log) {idx : Nat}
    {segment : Segment} (found : (segments snapshot)[idx]? = some segment) :
    segment.base + segment.records.length ≤ firstPosition + log.length := by
  have base := laid.contiguous.basePosition_eq found
  have length := laid.length_records
  rw [records, length_flatMap_records] at length
  obtain ⟨bound, here⟩ := List.getElem?_eq_some_iff.mp found
  have split : totalEvents (segments snapshot) = totalEvents ((segments snapshot).take idx) +
      (segment.records.length + totalEvents ((segments snapshot).drop (idx + 1))) := by
    rw [show segment.records.length = SegmentRange.eventCount segment from rfl,
      ← totalEvents_cons, ← here, ← List.drop_eq_getElem_cons, ← totalEvents_append,
      List.take_append_drop]
  change segment.base = _ at base
  omega

theorem one_le_base (laid : LaidOut snapshot watermark log) {idx : Nat}
    {segment : Segment} (found : (segments snapshot)[idx]? = some segment) :
    firstPosition ≤ segment.base := by
  have base := laid.contiguous.basePosition_eq found
  change segment.base = _ at base
  omega

theorem getElem?_log (laid : LaidOut snapshot watermark log) {idx position : Nat}
    {segment : Segment} (found : (segments snapshot)[idx]? = some segment)
    (low : segment.base ≤ position)
    (high : position < segment.base + segment.records.length) :
    log[position - firstPosition]? = segment.events[position - segment.base]? := by
  have same := ScanBack.getElem?_records laid.contiguous found low high
  rw [laid.recorded, laid.segment_records (List.mem_of_getElem? found),
    List.getElem?_map, List.getElem?_map] at same
  exact Option.map_injective (fun _ _ equal => Except.ok.inj equal) same

/-- The matching positions of the log in the range of a segment are those of the
segment. -/
theorem positionsIn_segment (laid : LaidOut snapshot watermark log) {idx after upto : Nat}
    (query : Query) {segment : Segment} (found : (segments snapshot)[idx]? = some segment) :
    positionsIn query (max after (segment.base - 1))
        (min (segment.base + segment.records.length - 1) upto) firstPosition log =
      positionsIn query after upto segment.base segment.events := by
  apply (pairwise_positionsIn ..).eq_of_mem_iff (pairwise_positionsIn ..)
  intro position
  have positive := laid.one_le_base found
  have bound := laid.length_events (List.mem_of_getElem? found)
  rw [mem_positionsIn, mem_positionsIn]
  change 1 ≤ _ at positive
  constructor
  · rintro ⟨range, _, event, here, isMatch⟩
    rw [laid.getElem?_log found (by omega) (by omega)] at here
    exact ⟨by omega, by omega, event, here, isMatch⟩
  · rintro ⟨range, started, event, here, isMatch⟩
    have inside := (List.getElem?_eq_some_iff.mp here).1
    rw [← laid.getElem?_log found started (by omega)] at here
    exact ⟨by omega, positive.trans started, event, here, isMatch⟩

/-- The matching positions of the log are those of its segments in order. -/
theorem positionsIn_log (laid : LaidOut snapshot watermark log) (query : Query)
    (after upto : Nat) :
    positionsIn query after upto firstPosition log =
      (segments snapshot).flatMap fun segment =>
        positionsIn query after upto segment.base segment.events := by
  obtain ⟨each, whole⟩ := records_of_flatMap laid.recorded
  have contiguous := laid.contiguous
  rw [← whole]
  generalize segments snapshot = segs at each contiguous
  clear whole laid
  generalize firstPosition = start at contiguous
  induction segs generalizing start with
  | nil => rfl
  | cons segment segs ih =>
      obtain ⟨base, rest⟩ := contiguous
      rw [List.forall_mem_cons] at each
      have count : segment.events.length = SegmentRange.eventCount segment := by
        change _ = segment.records.length
        rw [each.1, List.length_map]
      rw [List.flatMap_cons, List.flatMap_cons, positionsIn_append, count, ih each.2 _ rest,
        ← base]
      rfl

end LaidOut

theorem truncate_nil {α : Type} (cap : Option Nat) : truncate cap ([] : List α) = [] := by
  cases cap <;> simp [truncate]

@[simp]
theorem truncate_truncate {α : Type} (cap : Option Nat) (out : List α) :
    truncate cap (truncate cap out) = truncate cap out := by
  cases cap with
  | none => rfl
  | some k => rw [truncate, truncate, List.take_take, Nat.min_self]

theorem map_truncate {α β : Type} (change : α → β) (cap : Option Nat) (out : List α) :
    (truncate cap out).map change = truncate cap (out.map change) := by
  cases cap <;> simp [truncate, List.map_take]

theorem truncate_append_of_reached {cap : Option Nat} {out : List Nat}
    (reached : capReached cap (truncate cap out) = true) (more : List Nat) :
    truncate cap (out ++ more) = truncate cap out := by
  cases cap with
  | none => simp [capReached] at reached
  | some k =>
      simp only [capReached, truncate, decide_eq_true_eq, List.length_take] at reached
      exact List.take_append_of_le_length (by omega)

theorem truncate_of_not_reached {cap : Option Nat} {out : List Nat}
    (open' : capReached cap (truncate cap out) = false) :
    truncate cap out = out := by
  cases cap with
  | none => rfl
  | some k =>
      simp only [capReached, truncate, decide_eq_false_iff_not, List.length_take] at open' ⊢
      exact List.take_of_length_le (by omega)

theorem truncate_snoc_of_not_reached {cap : Option Nat} {out : List Nat}
    (open' : capReached cap out = false) (position : Nat) :
    truncate cap (out ++ [position]) = out ++ [position] := by
  cases cap with
  | none => rfl
  | some k =>
      simp only [capReached, decide_eq_false_iff_not] at open'
      rw [truncate, List.take_of_length_le]
      rw [List.length_append, List.length_singleton]
      omega

theorem extendCapped_eq (cap : Option Nat) (out more : List Nat) :
    extendCapped (truncate cap out) more cap = truncate cap (out ++ more) := by
  cases cap with
  | none => rfl
  | some k =>
      rw [extendCapped, truncate, truncate, List.take_append, List.length_take]
      congr 2
      omega

/-- A record of an event that a scan yields. -/
def yieldedEvent (entry : Nat × Event) : ScanItem := yielded (entry.1, .ok entry.2)

theorem scanPositionsMatching_eq (query : Query) (cap : Option Nat)
    (entries : List (Nat × Event)) {out : List Nat} (open' : capReached cap out = false) :
    scanPositionsMatching query cap (entries.map yieldedEvent) out =
      some (.ok (truncate cap (out ++
        (entries.filter fun entry => query.matches entry.2).map Prod.fst))) := by
  induction entries generalizing out with
  | nil =>
      cases cap with
      | none => simp [scanPositionsMatching, truncate]
      | some k =>
          simp only [capReached, decide_eq_false_iff_not] at open'
          rw [List.map_nil, scanPositionsMatching, truncate, List.filter_nil, List.map_nil,
            List.append_nil, List.take_of_length_le (by omega)]
  | cons entry entries ih =>
      rw [List.map_cons, yieldedEvent, yielded, scanPositionsMatching]
      by_cases isMatch : query.matches entry.2 = true
      · have whole := truncate_snoc_of_not_reached open' entry.1
        rw [if_pos isMatch, List.filter_cons_of_pos (by exact isMatch), List.map_cons,
          List.append_cons out entry.1 ((entries.filter _).map Prod.fst)]
        by_cases reached : capReached cap (out ++ [entry.1]) = true
        · rw [truncate_append_of_reached (by rw [whole]; exact reached), whole]
          exact if_pos reached
        · rw [← ih (by simpa using reached)]
          exact if_neg reached
      · rw [if_neg isMatch, List.filter_cons_of_neg (by exact isMatch), ih open']

/-- The positions that an index adds to its base are no overflow. -/
theorem localMatches_within {ι : Type} [SegmentIndex ι] {index : ι} {base : Nat}
    {events : List Event} (indexes : Indexes index base events) (query : Query)
    (room : base + events.length ≤ maxPosition + 1) :
    ((localMatches index query).all fun i => SegmentIndex.base index + i ≤ maxPosition) =
      true := by
  rw [List.all_eq_true]
  intro i member
  rw [indexes.localMatches_eq] at member
  have bound := lt_of_mem_positionsWhere member
  rw [indexes.base_eq, decide_eq_true_eq]
  omega

/-- What an index that describes events gives, without an overflow. -/
theorem checkedSearch_eq {ι : Type} [SegmentIndex ι] {index : ι} {base : Nat}
    {events : List Event} (indexes : Indexes index base events) (query : Query) (after : Nat)
    (room : base + events.length ≤ maxPosition + 1) :
    checkedSearch index query after =
      some ((positionsWhere query.matches base events).filter (after < ·)) := by
  rw [checkedSearch, if_pos (localMatches_within indexes query room), indexes.search_eq]

theorem checkedSearchBack_eq {ι : Type} [SegmentIndex ι] {index : ι} {base : Nat}
    {events : List Event} (indexes : Indexes index base events) (query : Query) (before : Nat)
    (room : base + events.length ≤ maxPosition + 1) :
    checkedSearchBack index query before =
      some ((positionsWhere query.matches base events).filter (· < before)).reverse := by
  rw [checkedSearchBack, if_pos (localMatches_within indexes query room),
    indexes.searchBack_eq]

theorem takeWhile_le_eq_filter {list : List Nat} (ordered : list.Pairwise (· < ·)) (bound : Nat) :
    (list.takeWhile fun position => decide (position ≤ bound)) =
      list.filter fun position => decide (position ≤ bound) := by
  simpa only [Nat.lt_succ_iff] using takeWhile_lt_eq_filter ordered (bound + 1)

omit [SegmentIndex σ] in
theorem activeLog_found (snapshot : Snapshot σ) :
    (segments snapshot)[snapshot.sealedLog.length]? = some snapshot.activeLog := by
  change (snapshot.sealedLog ++ [snapshot.activeLog])[snapshot.sealedLog.length]? = _
  simp

namespace LaidOut

variable {snapshot : Snapshot σ} {watermark : Nat} {log : List Event}

theorem scan_eq (laid : LaidOut snapshot watermark log) {first upto : Nat}
    (positive : 0 < first) (below : upto ≤ watermark) :
    Scan.start snapshot first upto =
      (between first upto firstPosition log).map yieldedEvent := by
  have covered := laid.covered
  have room := laid.room
  rw [Scan.start_eq laid.contiguous (by rw [laid.length_records]; omega) (by omega),
    if_neg positive.ne', laid.recorded, between_map, List.map_map]
  rfl

theorem scanBack_eq (laid : LaidOut snapshot watermark log) {first upto : Nat}
    (below : upto ≤ watermark) :
    ScanBack.start snapshot first upto =
      (between first upto firstPosition log).reverse.map yieldedEvent := by
  have covered := laid.covered
  rw [ScanBack.start_eq laid.contiguous (by rw [laid.length_records]; omega),
    laid.recorded, between_map, List.map_map, List.map_reverse]
  rfl

/-- The fallback scan of a segment adds its matching positions. -/
theorem scanPositionsInto_eq (laid : LaidOut snapshot watermark log) {first upto : Nat}
    (query : Query) (cap : Option Nat) (out : List Nat) (positive : 0 < first)
    (below : upto ≤ watermark) :
    scanPositionsInto snapshot query first upto (truncate cap out) cap =
      some (.ok (truncate cap (out ++ positionsIn query (first - 1) upto firstPosition log))) := by
  rw [scanPositionsInto]
  by_cases reached : capReached cap (truncate cap out) = true
  · rw [if_pos reached, truncate_append_of_reached reached]
  · rw [Bool.not_eq_true] at reached
    rw [if_neg (by rw [reached]; exact Bool.false_ne_true), laid.scan_eq positive below,
      scanPositionsMatching_eq query cap _ reached, map_fst_between,
      truncate_of_not_reached reached]

theorem scanPositionsBackInto_eq (laid : LaidOut snapshot watermark log)
    {first upto : Nat} (query : Query) (cap : Option Nat) (out : List Nat)
    (below : upto ≤ watermark) :
    scanPositionsBackInto snapshot query first upto (truncate cap out) cap =
      some (.ok (truncate cap (out ++
        (positionsIn query (first - 1) upto firstPosition log).reverse))) := by
  rw [scanPositionsBackInto]
  by_cases reached : capReached cap (truncate cap out) = true
  · rw [if_pos reached, truncate_append_of_reached reached]
  · rw [Bool.not_eq_true] at reached
    rw [if_neg (by rw [reached]; exact Bool.false_ne_true), laid.scanBack_eq below,
      scanPositionsMatching_eq query cap _ reached, List.filter_reverse, List.map_reverse,
      map_fst_between, truncate_of_not_reached reached]

theorem effectiveMax_eq (laid : LaidOut snapshot watermark log) {idx : Nat}
    {segment : Segment} (found : (segments snapshot)[idx]? = some segment) (upto : Nat) :
    effectiveMax segment upto = some (min (segment.base + segment.records.length - 1) upto) := by
  have ends := laid.segment_end_le found
  have room := laid.room
  simp [effectiveMax, checkedAdd, show segment.base + segment.records.length ≤ maxPosition by omega]

theorem firstAfter_eq (laid : LaidOut snapshot watermark log) {idx after upto : Nat}
    {segment : Segment} (found : (segments snapshot)[idx]? = some segment) (below : after < upto)
    (covered : upto ≤ watermark) :
    firstAfter after segment.base = some (max after (segment.base - 1) + 1) := by
  have ends := laid.segment_end_le found
  have positive := laid.one_le_base found
  have bound := laid.covered
  have room := laid.room
  change 1 ≤ segment.base at positive
  rw [firstAfter, checkedAdd, if_pos]
  omega

theorem planSegment_eq (laid : LaidOut snapshot watermark log) {idx after upto : Nat}
    {segment : Segment} {index : Option σ} (query : Query) (cap : Option Nat) (out : List Nat)
    (found : (segments snapshot)[idx]? = some segment) (indexed : IndexedBy segment index)
    (below : after < upto) (covered : upto ≤ watermark) :
    planSegment snapshot query after upto (min (segment.base + segment.records.length - 1) upto)
        cap segment index (truncate cap out) =
      some (.ok (truncate cap
        (out ++ positionsIn query after upto segment.base segment.events))) := by
  have ends := laid.segment_end_le found
  have room := laid.room
  have count := laid.length_events (List.mem_of_getElem? found)
  cases index with
  | none =>
      have into := laid.scanPositionsInto_eq query cap out
        (Nat.succ_pos (max after (segment.base - 1)))
        ((min_le_right (segment.base + segment.records.length - 1) upto).trans covered)
      rw [Nat.succ_sub_one, laid.positionsIn_segment query found] at into
      simp [planSegment, laid.firstAfter_eq found below covered, into]
  | some built =>
      have search := checkedSearch_eq (indexed built rfl) query after (by omega)
      have cut := takeWhile_le_eq_filter
        ((@pairwise_positionsWhere _ query.matches segment.base segment.events).filter
          fun position => decide (after < position)) upto
      rw [List.filter_filter] at cut
      simp only [planSegment, search, Option.bind_eq_bind, Option.bind_some, cut,
        extendCapped_eq]
      congr 4
      apply List.filter_congr
      intro position _
      rw [Bool.and_comm, Bool.decide_and]

/-- The active segment ends where the log does. -/
theorem active_end (laid : LaidOut snapshot watermark log) :
    snapshot.activeLog.base + snapshot.activeLog.records.length =
      firstPosition + log.length := by
  have base := laid.contiguous.basePosition_eq (activeLog_found snapshot)
  have length := laid.length_records
  have whole : segments snapshot = snapshot.sealedLog ++ [snapshot.activeLog] := rfl
  rw [records, length_flatMap_records, whole, totalEvents_append, totalEvents_cons,
    totalEvents_nil] at length
  rw [whole, List.take_left] at base
  change snapshot.activeLog.base = _ at base
  change _ + (snapshot.activeLog.records.length + 0) = _ at length
  omega

/-- The matching positions of the log in the range of the active segment are
those of the segment. -/
theorem positionsIn_active (laid : LaidOut snapshot watermark log) {after upto : Nat}
    (query : Query) (covered : upto ≤ watermark) :
    positionsIn query (max after (snapshot.activeLog.base - 1)) upto firstPosition log =
      positionsIn query after upto snapshot.activeLog.base snapshot.activeLog.events := by
  have ends := laid.active_end
  have bound := laid.covered
  rw [← laid.positionsIn_segment query (activeLog_found snapshot),
    Nat.min_eq_right (by omega)]

theorem mem_zip (laid : LaidOut snapshot watermark log) {segment : Segment}
    {index : Option σ} (member : (segment, index) ∈ snapshot.sealedLog.zip snapshot.sealedIndex) :
    (∃ idx : Nat, (segments snapshot)[idx]? = some segment) ∧ IndexedBy segment index := by
  constructor
  · apply List.mem_iff_getElem?.mp
    exact List.mem_append_left _ (List.of_mem_zip member).1
  · exact (List.forall₂_iff_zip.mp laid.aligned).2 member

theorem planSegmentBack_eq (laid : LaidOut snapshot watermark log) {idx upto : Nat}
    {segment : Segment} {index : Option σ} (query : Query) (cap : Option Nat) (out : List Nat)
    (found : (segments snapshot)[idx]? = some segment) (indexed : IndexedBy segment index)
    (covered : upto ≤ watermark) :
    planSegmentBack snapshot query (min (segment.base + segment.records.length - 1) upto) cap
        segment index (truncate cap out) =
      some (.ok (truncate cap
        (out ++ (positionsIn query 0 upto segment.base segment.events).reverse))) := by
  have ends := laid.segment_end_le found
  have room := laid.room
  have positive := laid.one_le_base found
  have count := laid.length_events (List.mem_of_getElem? found)
  change 1 ≤ segment.base at positive
  cases index with
  | none =>
      have same := @positionsIn_segment _ _ _ _ _ laid _ 0 upto query _ found
      rw [Nat.zero_max] at same
      rw [planSegmentBack, laid.scanPositionsBackInto_eq query cap out
        ((min_le_right _ _).trans covered), same]
  | some built =>
      rw [planSegmentBack, checkedSearchBack_eq (indexed built rfl) query _ (by omega)]
      simp only [Option.bind_eq_bind, Option.bind_some, extendCapped_eq]
      congr 5
      apply List.filter_congr
      intro position member
      have started := le_of_mem_positionsWhere member
      have inside := lt_of_mem_positionsWhere member
      rw [decide_eq_decide]
      omega

theorem planFromBack_eq (laid : LaidOut snapshot watermark log) {upto : Nat}
    (query : Query) (cap : Option Nat) (covered : upto ≤ watermark)
    {rest : List (Segment × Option σ)}
    (inside : ∀ segment index, (segment, index) ∈ rest →
      (∃ idx : Nat, (segments snapshot)[idx]? = some segment) ∧ IndexedBy segment index)
    (out : List Nat) :
    planFromBack snapshot query upto cap rest (truncate cap out) =
      some (.ok (truncate cap (out ++ (rest.map Prod.fst).flatMap fun segment =>
        (positionsIn query 0 upto segment.base segment.events).reverse))) := by
  induction rest generalizing out with
  | nil => simp [planFromBack]
  | cons entry rest ih =>
      obtain ⟨segment, index⟩ := entry
      have later := fun next other member =>
        inside next other (List.mem_cons_of_mem (segment, index) member)
      obtain ⟨⟨idx, found⟩, indexed⟩ := inside segment index (List.mem_cons_self ..)
      have count := laid.length_events (List.mem_of_getElem? found)
      simp only [List.map_cons, List.flatMap_cons]
      rw [← List.append_assoc, planFromBack]
      by_cases skipped : segment.records.length = 0 ∨ segment.base > upto
      · have none_here : positionsIn query 0 upto segment.base segment.events = [] := by
          rcases skipped with vacant | beyond
          · rw [List.eq_nil_of_length_eq_zero (count.trans vacant), positionsIn_nil]
          · exact positionsIn_eq_nil (Or.inl beyond)
        rw [if_pos skipped, ih later, none_here, List.reverse_nil, List.append_nil]
      · rw [if_neg skipped, laid.effectiveMax_eq found, Option.bind_eq_bind,
          Option.bind_some, laid.planSegmentBack_eq query cap out found indexed covered]
        simp only [Option.bind_eq_bind, Option.bind_some]
        by_cases reached : capReached cap (truncate cap
            (out ++ (positionsIn query 0 upto segment.base segment.events).reverse)) = true
        · rw [if_pos reached, truncate_truncate, truncate_append_of_reached reached]
          rfl
        · rw [if_neg reached, ih later]

end LaidOut

namespace Consistent

variable {snapshot : Snapshot σ} {watermark : Nat} {log : List Event}

/-- The view of the active tail gives the matching positions of the active
segment. -/
theorem searchActive_eq (consistent : Consistent snapshot watermark log) {after upto : Nat}
    (query : Query) (indexable : snapshot.activeIndex.unindexable = false)
    (started : snapshot.activeLog.base ≤ upto) (covered : upto ≤ watermark) :
    checkedSearch (snapshot.activeIndex.view upto) query after =
      some (positionsIn query after upto snapshot.activeLog.base snapshot.activeLog.events) := by
  have bound := consistent.covered
  have room := consistent.room
  rw [checkedSearch_eq (consistent.active indexable upto started covered) query after
    (by rw [List.length_take]; omega), positionsWhere_take, List.filter_filter]
  congr 1
  apply List.filter_congr
  intro position _
  rw [← Bool.decide_and, decide_eq_decide]
  omega

theorem planActive_eq (consistent : Consistent snapshot watermark log) {after upto : Nat}
    (query : Query) (cap : Option Nat) (out : List Nat) (below : after < upto)
    (covered : upto ≤ watermark) :
    planActive snapshot query after upto cap (truncate cap out) =
      some (.ok (truncate cap (out ++
        positionsIn query after upto snapshot.activeLog.base snapshot.activeLog.events))) := by
  have found := activeLog_found snapshot
  rw [planActive]
  by_cases started : upto ≥ snapshot.activeLog.base
  · rw [if_pos started]
    cases latched : snapshot.activeIndex.unindexable with
    | true =>
        have into := consistent.scanPositionsInto_eq query cap out
          (Nat.succ_pos (max after (snapshot.activeLog.base - 1))) covered
        rw [Nat.succ_sub_one, consistent.positionsIn_active query covered] at into
        simp [consistent.firstAfter_eq found below covered, into, Except.map]
    | false =>
        simp [consistent.searchActive_eq query latched started covered, extendCapped_eq]
  · rw [if_neg started, positionsIn_eq_nil (Or.inl (by omega)), List.append_nil,
      truncate_truncate]

theorem planFrom_eq (consistent : Consistent snapshot watermark log) {after upto : Nat}
    (query : Query) (cap : Option Nat) (below : after < upto) (covered : upto ≤ watermark)
    {rest : List (Segment × Option σ)}
    (inside : ∀ segment index, (segment, index) ∈ rest →
      (∃ idx : Nat, (segments snapshot)[idx]? = some segment) ∧ IndexedBy segment index)
    (out : List Nat) :
    planFrom snapshot query after upto cap rest (truncate cap out) =
      some (.ok (truncate cap (out ++
        ((rest.map Prod.fst ++ [snapshot.activeLog]).flatMap fun segment =>
          positionsIn query after upto segment.base segment.events)))) := by
  induction rest generalizing out with
  | nil => simpa [planFrom] using consistent.planActive_eq query cap out below covered
  | cons entry rest ih =>
      obtain ⟨segment, index⟩ := entry
      have later := fun next other member =>
        inside next other (List.mem_cons_of_mem (segment, index) member)
      obtain ⟨⟨idx, found⟩, indexed⟩ := inside segment index (List.mem_cons_self ..)
      have count := consistent.length_events (List.mem_of_getElem? found)
      simp only [List.map_cons, List.cons_append, List.flatMap_cons]
      rw [← List.append_assoc, planFrom]
      by_cases vacant : segment.records.length = 0
      · rw [if_pos vacant, ih later, List.eq_nil_of_length_eq_zero (count.trans vacant),
          positionsIn_nil, List.append_nil]
      rw [if_neg vacant, consistent.effectiveMax_eq found, Option.bind_eq_bind, Option.bind_some]
      by_cases early : min (segment.base + segment.records.length - 1) upto ≤ after
      · rw [if_pos early, ih later, positionsIn_eq_nil (by omega), List.append_nil]
      · rw [if_neg early, consistent.planSegment_eq query cap out found indexed below covered]
        simp only [Option.bind_eq_bind, Option.bind_some]
        by_cases reached : capReached cap (truncate cap
            (out ++ positionsIn query after upto segment.base segment.events)) = true
        · rw [if_pos reached, truncate_truncate, truncate_append_of_reached reached]
          rfl
        · rw [if_neg reached, ih later]

/-- The planned positions are the matching positions of the range, up to the
limit. -/
theorem planPositions_eq (consistent : Consistent snapshot watermark log) {after upto : Nat}
    (query : Query) (limit : Option Nat) (below : after < upto) (covered : upto ≤ watermark) :
    planPositions snapshot query after upto limit =
      some (.ok (truncate limit (positionsIn query after upto firstPosition log))) := by
  have planned := consistent.planFrom_eq query limit below covered
    (fun _ _ member => consistent.mem_zip member) []
  rw [truncate_nil, List.nil_append,
    List.map_fst_zip consistent.aligned.length_eq.le] at planned
  rw [planPositions, planned, consistent.positionsIn_log]
  rfl

/-- The view of the active tail gives the matching positions of the active
segment, from the highest down. -/
theorem planActiveBack_eq (consistent : Consistent snapshot watermark log) {upto : Nat}
    (query : Query) (cap : Option Nat) (started : snapshot.activeLog.base ≤ upto)
    (covered : upto ≤ watermark) :
    planActiveBack snapshot query upto cap [] =
      some (.ok (truncate cap
        (positionsIn query 0 upto snapshot.activeLog.base snapshot.activeLog.events).reverse)) := by
  have positive := consistent.one_le_base (activeLog_found snapshot)
  have bound := consistent.covered
  have room := consistent.room
  change 1 ≤ snapshot.activeLog.base at positive
  change watermark < 1 + log.length at bound
  change 1 + log.length ≤ maxPosition at room
  rw [planActiveBack]
  cases latched : snapshot.activeIndex.unindexable with
  | true =>
      have into := @LaidOut.scanPositionsBackInto_eq _ _ _ _ _ consistent.toLaidOut
        snapshot.activeLog.base _
        query cap [] covered
      have same := @LaidOut.positionsIn_active _ _ _ _ _ consistent.toLaidOut 0 _ query covered
      rw [Nat.zero_max] at same
      rw [truncate_nil, same, List.nil_append] at into
      rw [if_pos rfl, into]
  | false =>
      have extended := extendCapped_eq cap [] (positionsIn query 0 upto snapshot.activeLog.base
        snapshot.activeLog.events).reverse
      rw [truncate_nil, List.nil_append] at extended
      rw [if_neg Bool.false_ne_true, checkedSearchBack_eq (consistent.active latched upto started
        covered) query _ (by rw [List.length_take]; omega), positionsWhere_take, List.filter_filter]
      simp only [Option.bind_eq_bind, Option.bind_some]
      rw [← extended, positionsIn]
      congr 4
      apply List.filter_congr
      intro position member
      have low := le_of_mem_positionsWhere member
      rw [← Bool.decide_and, decide_eq_decide]
      omega

/-- The planned positions of a backward read are the matching positions of the
range from the highest down, up to the limit. -/
theorem planPositionsBack_eq (consistent : Consistent snapshot watermark log) {upto : Nat}
    (query : Query) (limit : Option Nat) (covered : upto ≤ watermark) :
    planPositionsBack snapshot query upto limit =
      some (.ok (truncate limit (positionsIn query 0 upto firstPosition log).reverse)) := by
  have zipped := List.map_fst_zip consistent.aligned.length_eq.le
  have sealedBack (out : List Nat) := @LaidOut.planFromBack_eq _ _ _ _ _ consistent.toLaidOut _
    query limit covered
    (snapshot.sealedLog.zip snapshot.sealedIndex).reverse
    (fun _ _ member => consistent.mem_zip (List.mem_reverse.mp member)) out
  have whole : (positionsIn query 0 upto firstPosition log).reverse =
      (positionsIn query 0 upto snapshot.activeLog.base snapshot.activeLog.events).reverse ++
        snapshot.sealedLog.reverse.flatMap fun segment =>
          (positionsIn query 0 upto segment.base segment.events).reverse := by
    rw [consistent.positionsIn_log, show segments snapshot =
      snapshot.sealedLog ++ [snapshot.activeLog] from rfl, List.flatMap_append,
      List.reverse_append, List.flatMap_singleton, List.reverse_flatMap]
    rfl
  simp only [List.map_reverse, zipped] at sealedBack
  rw [planPositionsBack, whole]
  by_cases started : upto ≥ snapshot.activeLog.base
  · rw [if_pos started, consistent.planActiveBack_eq query limit started covered]
    simp only [Option.bind_eq_bind, Option.bind_some]
    by_cases reached : capReached limit (truncate limit
        (positionsIn query 0 upto snapshot.activeLog.base snapshot.activeLog.events).reverse) = true
    · rw [if_pos reached, truncate_truncate, truncate_append_of_reached reached]
      rfl
    · rw [if_neg reached, sealedBack]
  · have early := sealedBack []
    rw [truncate_nil, List.nil_append] at early
    rw [if_neg started, early, positionsIn_eq_nil (Or.inl (Nat.lt_of_not_le started)),
      List.reverse_nil, List.nil_append]

end Consistent

theorem estimateItems_le {ι : Type} [SegmentIndex ι] (index : ι) (width total : Nat)
    (items : List QueryItem) : estimateItems index width total items ≤ width := by
  induction items generalizing total with
  | nil => exact min_le_right _ _
  | cons item items ih =>
      rw [estimateItems]
      split
      · exact le_rfl
      · exact ih _

theorem estimateMatches_le {ι : Type} [SegmentIndex ι] (index : ι) (query : Query)
    (width : Nat) : estimateMatches index query width ≤ width := by
  cases query with
  | all => exact le_rfl
  | items items => exact estimateItems_le index width 0 items

theorem estimateSegment_le (query : Query) (segWidth : Nat) (index : Option σ) :
    estimateSegment query segWidth index ≤ segWidth := by
  cases index with
  | none => exact le_rfl
  | some built => exact estimateMatches_le built query segWidth

/-- The number of positions after a bound, up to another one and before a base. -/
def widthBefore (after upto base : Nat) : Nat := min (base - 1) upto - after

theorem widthBefore_skip {after upto base count : Nat}
    (early : min (base + count - 1) upto ≤ after) :
    widthBefore after upto base = widthBefore after upto (base + count) := by
  rw [widthBefore, widthBefore]
  omega

theorem widthBefore_add {after upto base count : Nat} (positive : 1 ≤ base)
    (reaches : after < min (base + count - 1) upto) :
    widthBefore after upto base +
        (min (base + count - 1) upto + 1 - (max after (base - 1) + 1)) =
      widthBefore after upto (base + count) := by
  rw [widthBefore, widthBefore]
  omega

namespace LaidOut

variable {snapshot : Snapshot σ} {watermark : Nat} {log : List Event}

theorem segmentWidth_eq (laid : LaidOut snapshot watermark log) {idx after upto : Nat}
    {segment : Segment} (found : (segments snapshot)[idx]? = some segment) (below : after < upto)
    (covered : upto ≤ watermark) {last : Nat} (capped : last ≤ upto) :
    segmentWidth after segment.base last =
      some (last + 1 - (max after (segment.base - 1) + 1)) := by
  have bound := laid.covered
  have room := laid.room
  rw [segmentWidth, laid.firstAfter_eq found below covered, checkedAdd, if_pos (by omega)]
  rfl

/-- The estimate of sealed segments does not overflow: the width is the number
of positions in the range, and the estimate is at most the width.  It is at least what
the segments need, when the estimate of each is. -/
theorem estimateSealed_eq (laid : LaidOut snapshot watermark log) {after upto : Nat}
    (query : Query) (below : after < upto) (covered : upto ≤ watermark)
    {rest : List (Segment × Option σ)}
    (inside : ∀ segment index, (segment, index) ∈ rest →
      (∃ idx : Nat, (segments snapshot)[idx]? = some segment) ∧ IndexedBy segment index)
    {need : Segment → Nat}
    (needed : ∀ segment index, (segment, index) ∈ rest →
      need segment ≤
        if segment.records.length = 0 ∨
            min (segment.base + segment.records.length - 1) upto ≤ after then 0
        else estimateSegment query
          (min (segment.base + segment.records.length - 1) upto + 1 -
            (max after (segment.base - 1) + 1)) index)
    {start estimate : Nat} (contiguous : Contiguous start (rest.map Prod.fst))
    (bounded : estimate ≤ widthBefore after upto start) :
    ∃ more, estimateSealed query after upto estimate (widthBefore after upto start) rest =
        some (more, widthBefore after upto (start + totalEvents (rest.map Prod.fst))) ∧
      more ≤ widthBefore after upto (start + totalEvents (rest.map Prod.fst)) ∧
      estimate + (rest.map fun entry => need entry.1).sum ≤ more := by
  induction rest generalizing start estimate with
  | nil => exact ⟨estimate, rfl, bounded, by simp⟩
  | cons entry rest ih =>
      obtain ⟨segment, index⟩ := entry
      have later := fun next other member =>
        inside next other (List.mem_cons_of_mem (segment, index) member)
      have laterNeeded := fun next other member =>
        needed next other (List.mem_cons_of_mem (segment, index) member)
      obtain ⟨⟨idx, found⟩, indexed⟩ := inside segment index (List.mem_cons_self ..)
      have need_here := needed segment index (List.mem_cons_self ..)
      obtain ⟨base, behind⟩ := contiguous
      have positive := laid.one_le_base found
      have bound := laid.covered
      have room := laid.room
      change segment.base = start at base
      change 1 ≤ segment.base at positive
      change Contiguous (start + segment.records.length) (rest.map Prod.fst) at behind
      have total : start + totalEvents (((segment, index) :: rest).map Prod.fst) =
          start + segment.records.length + totalEvents (rest.map Prod.fst) := by
        rw [List.map_cons, totalEvents_cons, ← Nat.add_assoc]
        rfl
      rw [total, estimateSealed, List.map_cons, List.sum_cons]
      by_cases vacant : segment.records.length = 0
      · rw [if_pos (Or.inl vacant)] at need_here
        rw [if_pos vacant]
        rw [vacant, Nat.add_zero] at behind ⊢
        rw [Nat.le_zero.mp need_here, Nat.zero_add]
        exact ih later laterNeeded behind bounded
      rw [if_neg vacant, laid.effectiveMax_eq found]
      simp only [Option.bind_eq_bind, Option.bind_some]
      by_cases early : min (segment.base + segment.records.length - 1) upto ≤ after
      · have same : widthBefore after upto start =
            widthBefore after upto (start + segment.records.length) :=
          widthBefore_skip (base ▸ early)
        rw [if_pos (Or.inr early)] at need_here
        rw [if_pos early]
        rw [same] at bounded ⊢
        rw [Nat.le_zero.mp need_here, Nat.zero_add]
        exact ih later laterNeeded behind bounded
      · rw [if_neg (not_or.mpr ⟨vacant, early⟩)] at need_here
        have wider : widthBefore after upto start +
            (min (segment.base + segment.records.length - 1) upto + 1 -
              (max after (segment.base - 1) + 1)) =
            widthBefore after upto (start + segment.records.length) := by
          rw [base] at positive early ⊢
          exact widthBefore_add positive (Nat.lt_of_not_le early)
        have short : widthBefore after upto (start + segment.records.length) ≤ maxPosition := by
          rw [widthBefore]
          omega
        rw [if_neg early, laid.segmentWidth_eq found below covered (min_le_right _ _)]
        generalize min (segment.base + segment.records.length - 1) upto + 1 -
          (max after (segment.base - 1) + 1) = segWidth at wider need_here ⊢
        have partLe := estimateSegment_le query segWidth index
        simp only [Option.bind_some]
        rw [checkedAdd, if_pos (by omega), Option.bind_some, checkedAdd, if_pos (by omega),
          Option.bind_some, wider]
        obtain ⟨more, moreEq, moreLe, enough⟩ := ih later laterNeeded behind
          (show estimate + estimateSegment query segWidth index ≤ _ by omega)
        exact ⟨more, moreEq, moreLe, by omega⟩

/-- The estimate of a read does not overflow, and is at least what the segments need. -/
theorem estimateRead_needed (laid : LaidOut snapshot watermark log) {after upto : Nat}
    (query : Query) (below : after < upto) (covered : upto ≤ watermark) {need : Segment → Nat}
    (needed : ∀ segment index,
      (segment, index) ∈ snapshot.sealedLog.zip snapshot.sealedIndex →
      need segment ≤
        if segment.records.length = 0 ∨
            min (segment.base + segment.records.length - 1) upto ≤ after then 0
        else estimateSegment query
          (min (segment.base + segment.records.length - 1) upto + 1 -
            (max after (segment.base - 1) + 1)) index)
    (activeNeeded : need snapshot.activeLog ≤
      if upto ≥ snapshot.activeLog.base then
        if snapshot.activeIndex.unindexable then
          upto + 1 - (max after (snapshot.activeLog.base - 1) + 1)
        else estimateMatches (snapshot.activeIndex.view upto) query
          (upto + 1 - (max after (snapshot.activeLog.base - 1) + 1))
      else 0) :
    ∃ estimate, estimateRead snapshot query after upto = some (estimate, upto - after) ∧
      estimate ≤ upto - after ∧ ((segments snapshot).map need).sum ≤ estimate := by
  have zipped := List.map_fst_zip laid.aligned.length_eq.le
  have contiguous := laid.contiguous
  rw [show segments snapshot = snapshot.sealedLog ++ [snapshot.activeLog] from rfl,
    contiguous_append] at contiguous
  obtain ⟨sealedContiguous, activeBase, _⟩ := contiguous
  rw [← zipped] at sealedContiguous activeBase
  have none_yet : widthBefore after upto firstPosition = 0 := by
    rw [widthBefore, firstPosition]
    omega
  obtain ⟨estimate, sealedEq, bounded, enough⟩ := laid.estimateSealed_eq query below covered
    (fun _ _ member => laid.mem_zip member) needed sealedContiguous (Nat.zero_le _)
  have total : ((segments snapshot).map need).sum =
      ((snapshot.sealedLog.zip snapshot.sealedIndex).map fun entry => need entry.1).sum +
        need snapshot.activeLog := by
    have sealedNeed :
        (snapshot.sealedLog.zip snapshot.sealedIndex).map (fun entry => need entry.1) =
          snapshot.sealedLog.map need := by
      conv_rhs => rw [← zipped, List.map_map]
      rfl
    rw [sealedNeed, show segments snapshot = snapshot.sealedLog ++ [snapshot.activeLog] from rfl,
      List.map_append, List.sum_append, List.map_singleton, List.sum_singleton]
  have found := activeLog_found snapshot
  have positive := laid.one_le_base found
  have bound := laid.covered
  have room := laid.room
  change snapshot.activeLog.base = _ at activeBase
  change 1 ≤ snapshot.activeLog.base at positive
  rw [← activeBase] at sealedEq bounded
  rw [none_yet] at sealedEq
  rw [estimateRead, sealedEq, total]
  simp only [Option.bind_eq_bind, Option.bind_some]
  by_cases started : upto ≥ snapshot.activeLog.base
  · have wider : widthBefore after upto snapshot.activeLog.base +
        (upto + 1 - (max after (snapshot.activeLog.base - 1) + 1)) = upto - after := by
      rw [widthBefore]
      omega
    rw [if_pos started] at activeNeeded
    rw [if_pos started, laid.segmentWidth_eq found below covered le_rfl]
    generalize upto + 1 - (max after (snapshot.activeLog.base - 1) + 1) = segWidth
      at wider activeNeeded ⊢
    have partLe : (if snapshot.activeIndex.unindexable = true then segWidth
        else estimateMatches (snapshot.activeIndex.view upto) query segWidth) ≤ segWidth := by
      split
      · exact le_rfl
      · exact estimateMatches_le _ query segWidth
    simp only [Option.bind_some]
    rw [checkedAdd, if_pos (by omega), Option.bind_some, checkedAdd, if_pos (by omega),
      Option.bind_some, wider]
    exact ⟨_, rfl, min_le_right _ _, le_min (by omega) (by omega)⟩
  · have whole : widthBefore after upto snapshot.activeLog.base = upto - after := by
      rw [widthBefore]
      omega
    rw [if_neg started] at activeNeeded
    rw [whole] at bounded
    rw [if_neg started, whole]
    exact ⟨_, rfl, min_le_right _ _, le_min (by omega) (by omega)⟩

theorem estimateRead_eq (laid : LaidOut snapshot watermark log) {after upto : Nat}
    (query : Query) (below : after < upto) (covered : upto ≤ watermark) :
    ∃ estimate, estimateRead snapshot query after upto = some (estimate, upto - after) ∧
      estimate ≤ upto - after := by
  obtain ⟨estimate, estimated, bounded, -⟩ := @estimateRead_needed _ _ _ _ _ laid _ _ query
    below covered (fun _ => 0) (fun _ _ _ => Nat.zero_le _) (Nat.zero_le _)
  exact ⟨estimate, estimated, bounded⟩

end LaidOut

end Read

end Tephra
