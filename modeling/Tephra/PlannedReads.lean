import Tephra.ReadOracle
import Tephra.TailContents

/-!
# Driving a planned read

Whatever a read draws from, calls of `next` yield its events one by one until
the range is drained or the limit is spent, and the read remembers which.
-/

namespace Tephra

namespace Read

open Index Log Positions SegmentSource

variable {σ : Type}

namespace Reads

/-- Call `next` until it first returns `none`.  The result is `none` when a call
panics or the fuel is spent. -/
def drive : (fuel : Nat) → Reads σ → Option (List (Except ReadError Sequenced) × Reads σ)
  | 0, _ => none
  | fuel + 1, reads =>
      match reads.next with
      | none => none
      | some (none, reads) => some ([], reads)
      | some (some item, reads) =>
          (drive fuel reads).map fun result => (item :: result.1, result.2)

/-- A read yields events one by one and then ends. -/
def Yields (exhausted : Bool) : Reads σ → List Sequenced → Prop
  | reads, [] => ∃ last, reads.next = some (none, last) ∧ last.isExhausted = exhausted
  | reads, item :: items =>
      ∃ later, reads.next = some (some (.ok item), later) ∧ Yields exhausted later items

theorem Yields.drive_eq {exhausted : Bool} {reads : Reads σ} {items : List Sequenced}
    (yields : Yields exhausted reads items) {fuel : Nat} (enough : items.length < fuel) :
    ∃ last, reads.drive fuel = some (items.map Except.ok, last) ∧
      last.isExhausted = exhausted := by
  induction items generalizing reads fuel with
  | nil =>
      obtain ⟨fuel, rfl⟩ : ∃ less, fuel = less + 1 := ⟨fuel - 1, by omega⟩
      obtain ⟨last, ended, flag⟩ := yields
      exact ⟨last, by simp [drive, ended], flag⟩
  | cons item items ih =>
      obtain ⟨fuel, rfl⟩ : ∃ less, fuel = less + 1 := ⟨fuel - 1, by omega⟩
      obtain ⟨later, drawn, rest⟩ := yields
      obtain ⟨last, driven, flag⟩ := ih rest (by simpa using enough)
      exact ⟨last, by simp [drive, drawn, driven], flag⟩

/-- Drawing without a limit gives events one by one and then ends. -/
def Draws : Mode σ → List Sequenced → Prop
  | mode, [] => ∃ spent, ∀ reads : Reads σ,
      draw { reads with mode := mode } = some (none, { reads with mode := spent })
  | mode, item :: items => ∃ later, (∀ reads : Reads σ,
      draw { reads with mode := mode } = some (some (.ok item), { reads with mode := later })) ∧
        Draws later items

theorem Draws.of_draw_eq {mode other : Mode σ} {items : List Sequenced}
    (same : ∀ reads : Reads σ, draw { reads with mode := mode } =
      draw { reads with mode := other })
    (draws : Draws other items) : Draws mode items := by
  cases items with
  | nil =>
      obtain ⟨spent, ended⟩ := draws
      exact ⟨spent, fun reads => (same reads).trans (ended reads)⟩
  | cons item items =>
      obtain ⟨later, drawn, rest⟩ := draws
      exact ⟨later, fun reads => (same reads).trans (drawn reads), rest⟩

/-- An event of a log at its position. -/
def sequenced (entry : Nat × Event) : Sequenced := ⟨entry.1, entry.2⟩

theorem draws_done : Draws (.done : Mode σ) [] := ⟨.done, fun _ => rfl⟩

theorem draws_scan (entries : List (Nat × Event)) :
    Draws (.scan (entries.map yieldedEvent) : Mode σ) (entries.map sequenced) := by
  induction entries with
  | nil => exact ⟨_, fun _ => rfl⟩
  | cons entry entries ih => exact ⟨_, fun _ => rfl, ih⟩

theorem draws_scanBack (entries : List (Nat × Event)) :
    Draws (.scanBack (entries.map yieldedEvent) : Mode σ) (entries.map sequenced) := by
  induction entries with
  | nil => exact ⟨_, fun _ => rfl⟩
  | cons entry entries ih => exact ⟨_, fun _ => rfl, ih⟩

theorem nextFiltered_cons (query : Query) (entry : Nat × Event) (scan : List ScanItem) :
    nextFiltered query (yieldedEvent entry :: scan) =
      if query.matches entry.2 then some (some (.ok (sequenced entry)), scan)
      else nextFiltered query scan := rfl

/-- A mode that draws the matching records of a scan yields the matching events. -/
theorem draws_filtered (mode : List ScanItem → Mode σ) (query : Query)
    (draw_eq : ∀ (reads : Reads σ) scan, draw { reads with mode := mode scan } =
      (nextFiltered query scan).map fun drawn => (drawn.1, { reads with mode := mode drawn.2 }))
    (entries : List (Nat × Event)) :
    Draws (mode (entries.map yieldedEvent))
      ((entries.filter fun entry => query.matches entry.2).map sequenced) := by
  induction entries with
  | nil => exact ⟨_, fun reads => draw_eq reads []⟩
  | cons entry entries ih =>
      by_cases isMatch : query.matches entry.2 = true
      · rw [List.filter_cons_of_pos (by exact isMatch)]
        refine ⟨_, fun reads => ?_, ih⟩
        simp [draw_eq, nextFiltered_cons, isMatch]
      · rw [List.filter_cons_of_neg (by exact isMatch)]
        apply Draws.of_draw_eq _ ih
        intro reads
        simp [draw_eq, nextFiltered_cons, isMatch]

theorem draws_scanFiltered (query : Query) (entries : List (Nat × Event)) :
    Draws (.scanFiltered (entries.map yieldedEvent) query : Mode σ)
      ((entries.filter fun entry => query.matches entry.2).map sequenced) := by
  apply draws_filtered (Mode.scanFiltered · query) query
  intro reads scan
  simp only [draw]
  cases nextFiltered query scan <;> rfl

theorem draws_scanBackFiltered (query : Query) (entries : List (Nat × Event)) :
    Draws (.scanBackFiltered (entries.map yieldedEvent) query : Mode σ)
      ((entries.filter fun entry => query.matches entry.2).map sequenced) := by
  apply draws_filtered (Mode.scanBackFiltered · query) query
  intro reads scan
  simp only [draw]
  cases nextFiltered query scan <;> rfl

section Indexed

variable [SegmentIndex σ] {snapshot : Snapshot σ} {watermark : Nat} {log : List Event}

/-- The open reader, if any, is one of the segment it is cached under. -/
def ReaderValid (snapshot : Snapshot σ) (reader : Option (Nat × Segment)) : Prop :=
  ∀ segIdx segment, reader = some (segIdx, segment) →
    segmentAt snapshot segIdx = some segment

omit [SegmentIndex σ] in
theorem openReader_eq {reader : Option (Nat × Segment)} (valid : ReaderValid snapshot reader)
    {segIdx : Nat} {segment : Segment} (found : segmentAt snapshot segIdx = some segment) :
    openReader snapshot reader segIdx = some (segIdx, segment) := by
  rw [openReader]
  split
  · rename_i same
    obtain ⟨⟨other, kept⟩, isSome, rfl⟩ := Option.map_eq_some_iff.mp same
    rw [isSome, Option.some.inj ((valid _ _ isSome).symm.trans found)]
  · rw [found, Option.map_some]

/-- The event at a position of the log is fetched from its segment. -/
theorem fetch_eq (laid : LaidOut snapshot watermark log)
    {reader : Option (Nat × Segment)} (valid : ReaderValid snapshot reader)
    {item : Sequenced} (placed : (item.position, item.event) ∈ positioned firstPosition log) :
    ∃ cached, fetch snapshot reader item.position = some (.ok item, cached) ∧
      ReaderValid snapshot cached := by
  obtain ⟨started, found⟩ := mem_positioned.mp placed
  have bound := (List.getElem?_eq_some_iff.mp found).1
  have length := laid.length_records
  rw [records, length_flatMap_records] at length
  obtain ⟨segIdx, segment, located, atIdx, low, high⟩ :=
    locate_of_contiguous laid.contiguous Nat.one_pos started (by omega)
  change segment.base ≤ item.position at low
  change item.position < segment.base + segment.records.length at high
  have here : segment.records[item.position - segment.base]? = some (.ok item.event) := by
    rw [← ScanBack.getElem?_records laid.contiguous atIdx low high, laid.recorded,
      List.getElem?_map, found, Option.map_some]
  rw [← segmentAt_eq] at atIdx
  have opened := openReader_eq valid atIdx
  refine ⟨some (segIdx, segment), ?_, ?_⟩
  · simp [fetch, located, opened, checkedSub, low, here]
  · rintro _ _ ⟨⟩
    exact atIdx

/-- Fetching the positions of events of the log yields these events. -/
theorem draws_indexed (laid : LaidOut snapshot watermark log) {items : List Sequenced}
    (placed : ∀ item ∈ items, (item.position, item.event) ∈ positioned firstPosition log)
    {reader : Option (Nat × Segment)} (valid : ReaderValid snapshot reader) :
    Draws (.indexed snapshot (items.map Sequenced.position) reader) items := by
  induction items generalizing reader with
  | nil => exact ⟨_, fun _ => rfl⟩
  | cons item items ih =>
      rw [List.forall_mem_cons] at placed
      obtain ⟨cached, fetched, stillValid⟩ := fetch_eq laid valid placed.1
      refine ⟨_, fun reads => ?_, ih placed.2 stillValid⟩
      simp [draw, fetched]

end Indexed

/-- Whether a read with a limit ends because its range is drained. -/
def drained (limit : Option Nat) (items : List Sequenced) : Bool :=
  match limit with
  | none => true
  | some k => items.length < k

theorem yields_of_draws {watermark : Nat} {mode : Mode σ} {items : List Sequenced}
    (draws : Draws mode items) (limit : Option Nat) :
    Yields (drained limit items) (⟨watermark, none, limit, false, mode⟩ : Reads σ)
      (truncate limit items) := by
  induction items generalizing mode limit with
  | nil =>
      obtain ⟨spent, ended⟩ := draws
      rw [truncate_nil]
      rcases limit with _ | _ | n
      · exact ⟨_, ended ⟨watermark, none, none, false, mode⟩, rfl⟩
      · exact ⟨_, rfl, rfl⟩
      · exact ⟨_, ended ⟨watermark, none, some n, false, mode⟩, by simp [drained, isExhausted]⟩
  | cons item items ih =>
      obtain ⟨later, drawn, rest⟩ := draws
      rcases limit with _ | _ | n
      · exact ⟨_, drawn ⟨watermark, none, none, false, mode⟩, ih rest none⟩
      · exact ⟨_, rfl, rfl⟩
      · refine ⟨_, drawn ⟨watermark, none, some n, false, mode⟩, ?_⟩
        have more := ih rest (some n)
        simpa [drained, truncate] using more

theorem drained_truncate (limit : Option Nat) (items : List Sequenced) :
    drained limit (truncate limit items) = drained limit items := by
  cases limit with
  | none => rfl
  | some k =>
      simp only [drained, truncate, List.length_take, decide_eq_decide]
      omega

variable [SegmentIndex σ] {snapshot : Snapshot σ} {watermark : Nat} {log : List Event}

theorem placed_of_mem_scanOracle {query : Query} {after upto : Nat} {item : Sequenced}
    (member : item ∈ scanOracle query after upto log) :
    (item.position, item.event) ∈ positioned firstPosition log := by
  rw [scanOracle] at member
  obtain ⟨entry, kept, rfl⟩ := List.mem_map.mp member
  exact List.mem_of_mem_filter kept

theorem scanOracle_eq_nil {query : Query} {after upto : Nat} (empty : upto ≤ after) :
    scanOracle query after upto log = [] := by
  have positions := map_position_scanOracle query after upto log
  rw [positionsIn_eq_nil (Or.inr (Or.inr empty))] at positions
  exact List.map_eq_nil_iff.mp positions

theorem scanOracle_within {query : Query} {low after upto high : Nat} {log : List Event}
    (lower : low ≤ after) (upper : upto ≤ high) :
    scanOracle query after upto log <:+: scanOracle query low high log := by
  rcases Nat.le_total after upto with ordered | empty
  · rw [scanOracle_split lower (ordered.trans upper), scanOracle_split ordered upper]
    exact ⟨_, _, List.append_assoc ..⟩
  · rw [scanOracle_eq_nil empty]
    exact List.nil_infix

theorem exists_scanOracle_eq_right {query : Query} {after upto : Nat} {log : List Event}
    {front back : List Sequenced} (split : scanOracle query after upto log = front ++ back) :
    ∃ cursor, scanOracle query cursor upto log = back := by
  rcases List.eq_nil_or_concat front with rfl | ⟨earlier, last, rfl⟩
  · exact ⟨after, split⟩
  · rw [List.concat_eq_append, List.append_assoc, List.singleton_append] at split
    have range := (mem_scanOracle.mp (split ▸ List.mem_append_right earlier
      (List.mem_cons_self ..) : last ∈ scanOracle query after upto log)).2.1
    have whole := @scanOracle_split query after last.position upto log range.1.le range.2
    rw [split, ← scanOracle_prefix split, List.append_assoc, List.singleton_append] at whole
    exact ⟨last.position, (List.cons.inj (List.append_cancel_left whole)).2.symm⟩

theorem exists_scanOracle_eq_left {query : Query} {after upto : Nat} {log : List Event}
    {front back : List Sequenced} (ordered : after ≤ upto)
    (split : scanOracle query after upto log = front ++ back) :
    ∃ cursor ≤ upto, scanOracle query after cursor log = front := by
  rcases List.eq_nil_or_concat front with rfl | ⟨earlier, last, rfl⟩
  · exact ⟨after, ordered, scanOracle_eq_nil le_rfl⟩
  · rw [List.concat_eq_append, List.append_assoc, List.singleton_append] at split
    have range := (mem_scanOracle.mp (split ▸ List.mem_append_right earlier
      (List.mem_cons_self ..) : last ∈ scanOracle query after upto log)).2.1
    rw [List.concat_eq_append, scanOracle_prefix split]
    exact ⟨last.position, range.2, rfl⟩

theorem length_scanOracle_le (query : Query) (after upto : Nat) (log : List Event) :
    (scanOracle query after upto log).length ≤ log.length := by
  rw [scanOracle, List.length_map]
  exact (List.length_filter_le ..).trans (length_positioned ..).le

theorem sequenced_between {after upto : Nat} :
    (between (after + 1) upto firstPosition log).map sequenced =
      scanOracle .all after upto log := by
  have everything : ((between (after + 1) upto firstPosition log).filter
      fun entry => Query.matches .all entry.2) = between (after + 1) upto firstPosition log :=
    List.filter_eq_self.mpr fun _ _ => rfl
  rw [← filter_between, everything]
  rfl

/-- Fetching the first positions up to a limit yields the events there. -/
theorem yields_of_positions (laid : LaidOut snapshot watermark log)
    {items : List Sequenced}
    (placed : ∀ item ∈ items, (item.position, item.event) ∈ positioned firstPosition log)
    (limit : Option Nat) :
    Yields (drained limit items)
      (⟨watermark, none, limit, false,
        .indexed snapshot ((truncate limit items).map Sequenced.position) none⟩ : Reads σ)
      (truncate limit items) := by
  have kept : ∀ item ∈ truncate limit items,
      (item.position, item.event) ∈ positioned firstPosition log := by
    intro item member
    cases limit with
    | none => exact placed item member
    | some k => exact placed item (List.mem_of_mem_take member)
  have unread : ReaderValid snapshot none := by rintro _ _ ⟨⟩
  have yields := @yields_of_draws _ watermark _ _ (draws_indexed laid kept unread) limit
  rwa [drained_truncate, truncate_truncate] at yields

theorem planDirectional_watermark {direction : Direction} {snapshot : Snapshot σ}
    {query : Query} {after upto watermark scanBias : Nat} {limit : Option Nat} {reads : Reads σ}
    (planned : planDirectional direction snapshot query after upto watermark scanBias limit =
      some reads) : reads.watermark = watermark := by
  simp only [planDirectional, Option.bind_eq_bind] at planned
  split at planned
  · cases planned
    rfl
  · obtain ⟨⟨estimate, width⟩, _, planned⟩ := Option.bind_eq_some_iff.mp planned
    cases chosen : choose estimate width scanBias with
    | scan =>
        simp only [chosen] at planned
        obtain ⟨first, _, planned⟩ := Option.bind_eq_some_iff.mp planned
        cases direction <;> cases planned <;> rfl
    | index =>
        simp only [chosen] at planned
        cases direction <;>
          obtain ⟨found, _, planned⟩ := Option.bind_eq_some_iff.mp planned <;>
          cases found <;> cases planned <;> rfl

/-- A forward read that scans yields the matching events of its range. -/
theorem plan_scan (laid : LaidOut snapshot watermark log) {query : Query}
    {after scanBias estimate width : Nat} {limit : Option Nat} (below : after < watermark)
    (room : limit ≠ some 0)
    (estimated : estimateRead snapshot query after watermark = some (estimate, width))
    (chosen : choose estimate width scanBias = .scan) :
    ∃ reads, plan snapshot query after watermark scanBias limit = some reads ∧
      Yields (drained limit (scanOracle query after watermark log)) reads
        (truncate limit (scanOracle query after watermark log)) := by
  have fits := laid.room
  have bound := laid.covered
  rw [plan, planDirectional, if_neg (not_or.mpr ⟨Nat.not_le.mpr below, room⟩), estimated]
  simp only [Option.bind_eq_bind, Option.bind_some, chosen, checkedAdd,
    if_pos (show after + 1 ≤ maxPosition by omega), laid.scan_eq (Nat.succ_pos after) le_rfl]
  by_cases whole : query = .all
  · rw [if_pos whole, whole, ← sequenced_between]
    exact ⟨_, rfl, yields_of_draws (draws_scan _) limit⟩
  · rw [if_neg whole, ← filter_between]
    exact ⟨_, rfl, yields_of_draws (draws_scanFiltered query _) limit⟩

/-- A forward read by the index yields the events at the positions that were planned. -/
theorem plan_index (laid : LaidOut snapshot watermark log) {query : Query}
    {after scanBias estimate width : Nat} {limit : Option Nat} (below : after < watermark)
    (room : limit ≠ some 0)
    (estimated : estimateRead snapshot query after watermark = some (estimate, width))
    (chosen : choose estimate width scanBias = .index) {items : List Sequenced}
    (placed : ∀ item ∈ items, (item.position, item.event) ∈ positioned firstPosition log)
    (planned : planPositions snapshot query after watermark limit =
      some (.ok (truncate limit (items.map Sequenced.position)))) :
    ∃ reads, plan snapshot query after watermark scanBias limit = some reads ∧
      Yields (drained limit items) reads (truncate limit items) := by
  rw [plan, planDirectional, if_neg (not_or.mpr ⟨Nat.not_le.mpr below, room⟩), estimated]
  simp only [Option.bind_eq_bind, Option.bind_some, chosen, planned, ← map_truncate]
  exact ⟨_, rfl, yields_of_positions laid placed limit⟩

/-- Every plan of a forward read yields the matching events of its range. -/
theorem plan_yields (consistent : Consistent snapshot watermark log) (query : Query)
    (after scanBias : Nat) (limit : Option Nat) :
    ∃ reads, plan snapshot query after watermark scanBias limit = some reads ∧
      Yields (drained limit (scanOracle query after watermark log)) reads
        (truncate limit (scanOracle query after watermark log)) := by
  by_cases nothing : after ≥ watermark ∨ limit = some 0
  · rw [plan, planDirectional, if_pos nothing]
    refine ⟨_, rfl, ?_⟩
    rcases nothing with empty | rfl
    · rw [scanOracle_eq_nil empty]
      exact yields_of_draws draws_done limit
    · exact yields_of_draws draws_done (some 0)
  · obtain ⟨below, room⟩ := not_or.mp nothing
    have below : after < watermark := Nat.lt_of_not_le below
    obtain ⟨estimate, estimated, _⟩ := consistent.estimateRead_eq query below le_rfl
    cases chosen : choose estimate (watermark - after) scanBias with
    | scan => exact plan_scan consistent.toLaidOut below room estimated chosen
    | index =>
        apply plan_index consistent.toLaidOut below room estimated chosen
        · exact fun _ member => placed_of_mem_scanOracle member
        · rw [consistent.planPositions_eq query limit below le_rfl, map_position_scanOracle]

/-- Every plan of a backward read yields the matching events of its range from
the last one down. -/
theorem planBack_yields (consistent : Consistent snapshot watermark log) (query : Query)
    {upto : Nat} (covered : upto ≤ watermark) (scanBias : Nat) (limit : Option Nat) :
    ∃ reads, planBack snapshot query upto watermark scanBias limit = some reads ∧
      Yields (drained limit (scanOracle query 0 upto log).reverse) reads
        (truncate limit (scanOracle query 0 upto log).reverse) := by
  rw [planBack, planDirectional]
  by_cases nothing : 0 ≥ upto ∨ limit = some 0
  · rw [if_pos nothing]
    refine ⟨_, rfl, ?_⟩
    rcases nothing with empty | rfl
    · rw [scanOracle_eq_nil empty]
      exact yields_of_draws draws_done limit
    · exact yields_of_draws draws_done (some 0)
  · obtain ⟨below, _⟩ := not_or.mp nothing
    obtain ⟨estimate, estimated, _⟩ :=
      consistent.estimateRead_eq query (Nat.lt_of_not_le below) covered
    rw [if_neg nothing, estimated]
    simp only [Option.bind_eq_bind, Option.bind_some]
    cases choose estimate (upto - 0) scanBias with
    | scan =>
        have first : checkedAdd 0 1 = some 1 := rfl
        simp only [first, Option.bind_some, consistent.scanBack_eq covered]
        by_cases whole : query = .all
        · rw [if_pos whole, whole, ← sequenced_between, ← List.map_reverse]
          exact ⟨_, rfl, yields_of_draws (draws_scanBack _) limit⟩
        · rw [if_neg whole, ← filter_between, ← List.map_reverse, ← List.filter_reverse]
          exact ⟨_, rfl, yields_of_draws (draws_scanBackFiltered query _) limit⟩
    | index =>
        simp only [consistent.planPositionsBack_eq query limit covered, Option.bind_some,
          ← map_position_scanOracle, ← List.map_reverse, ← map_truncate]
        exact ⟨_, rfl, yields_of_positions consistent.toLaidOut
          (fun _ member => placed_of_mem_scanOracle (List.mem_reverse.mp member)) limit⟩

end Reads

/-- A planned read gives an answer up to its limit: it has been planned without
an overflow, driving it to its first `none` yields the first events of the
answer, and it is exhausted exactly when these are fewer than the limit. -/
def Answers (planned : Option (Reads σ)) (limit : Option Nat) (answer : List Sequenced) : Prop :=
  ∃ reads, planned = some reads ∧ ∀ fuel, (truncate limit answer).length < fuel →
    ∃ last, reads.drive fuel = some ((truncate limit answer).map Except.ok, last) ∧
      (last.isExhausted = true ↔ ∀ k, limit = some k → (truncate limit answer).length < k)

theorem truncate_isPrefix (limit : Option Nat) (items : List Sequenced) :
    truncate limit items <+: items := by
  cases limit with
  | none => exact List.prefix_rfl
  | some k => exact List.take_prefix k items

theorem Reads.Yields.answers {reads : Reads σ} {limit : Option Nat} {answer : List Sequenced}
    (yields : Yields (drained limit answer) reads (truncate limit answer)) :
    Answers (some reads) limit answer := by
  refine ⟨reads, rfl, fun fuel enough => ?_⟩
  obtain ⟨last, driven, flag⟩ := yields.drive_eq enough
  refine ⟨last, driven, ?_⟩
  rw [flag, ← drained_truncate]
  cases limit with
  | none => simp [drained]
  | some k => simp [drained]

variable [SegmentIndex σ] {snapshot : Snapshot σ} {watermark : Nat} {log : List Event}

/-- A snapshot whose tail was fed up to the watermark, at least, is consistent. -/
theorem consistent_of_holds (contiguous : Contiguous firstPosition (segments snapshot))
    (recorded : records snapshot = log.map Except.ok)
    (covered : watermark < firstPosition + log.length)
    (room : firstPosition + log.length ≤ maxPosition)
    (aligned : List.Forall₂ IndexedBy snapshot.sealedLog snapshot.sealedIndex)
    {fed later : List Event} (split : snapshot.activeLog.events = fed ++ later)
    (holds : snapshot.activeIndex.Holds snapshot.activeLog.base fed) (fits : FitsSegment fed)
    (reached : watermark < snapshot.activeLog.base + fed.length) :
    Consistent snapshot watermark log where
  contiguous := contiguous
  recorded := recorded
  covered := covered
  room := room
  aligned := aligned
  active := by
    intro _ upto started below
    have indexes := holds.indexes_view fits started (by omega)
    rwa [split, List.take_append_of_le_length (by omega)]

/-- Planned reads agree with a scan of the log, whatever plan is chosen. -/
theorem planned_reads_eq_oracle (consistent : Consistent snapshot watermark log) (query : Query)
    (scanBias : Nat) (limit : Option Nat) :
    (∀ after, Answers (read watermark snapshot scanBias query after limit) limit
      (scanOracle query after watermark log)) ∧
    ∀ before, Answers (readBack watermark snapshot scanBias query before limit) limit
      (scanOracle query 0 (min (before - 1) watermark) log).reverse := by
  constructor
  · intro after
    obtain ⟨reads, planned, yields⟩ :=
      Reads.plan_yields consistent query after scanBias limit
    rw [read, planned]
    exact yields.answers
  · intro before
    obtain ⟨reads, planned, yields⟩ := Reads.planBack_yields consistent query
      (min_le_right (before - 1) watermark) scanBias limit
    rw [readBack, planned]
    exact yields.answers

/-- A fresh tail, fed one event. -/
def singleTail (event : Event) : ActiveTail :=
  match (ActiveTail.new 1).push 1 event with
  | some (.ok tail) => tail
  | _ => ActiveTail.new 1

/-- A log of one event in its first segment. -/
def singleSnapshot (event : Event) : Snapshot ActiveView :=
  ⟨[], [], ⟨1, [.ok event]⟩, singleTail event⟩

theorem singleTail_holds {event : Event} (fits : FitsSegment ([] ++ [event])) :
    (singleTail event).Holds 1 [event] := by
  rcases (ActiveTail.holds_new 1).push fits with ⟨tail, fed, holds, _⟩ | ⟨_, tooMany⟩
  · have same : singleTail event = tail := by
      have fed : (ActiveTail.new 1).push 1 event = some (.ok tail) := fed
      rw [singleTail, fed]
    rw [same]
    exact holds
  · exact absurd tooMany (by simp [distinctTypes, maxTypeId])

theorem singleSnapshot_consistent {event : Event} (fits : FitsSegment ([] ++ [event])) :
    Consistent (singleSnapshot event) 1 [event] := by
  have holds := singleTail_holds fits
  have covered : 1 < 1 + 1 := by decide
  have room : 1 + 1 ≤ maxPosition := by decide
  exact @consistent_of_holds _ _ _ 1 _ ⟨rfl, trivial⟩ rfl covered room .nil _ [] rfl holds fits
    covered

/-- An event without tags and payload. -/
def plainEvent : Event := ⟨⟨[65], rfl, List.cons_ne_nil _ _, by decide⟩, .empty, []⟩

/-- A log of this event. -/
def plainSnapshot : Snapshot ActiveView := singleSnapshot plainEvent

theorem plainSnapshot_consistent : Consistent plainSnapshot 1 [plainEvent] :=
  singleSnapshot_consistent (by
    rw [FitsSegment]
    decide)

/-- A tail that is fed events from its base on. -/
def tailOf (base : Nat) (events : List Event) : ActiveTail :=
  ((ActiveTail.new base).pushAll (positioned base events)).getD (ActiveTail.new base)

theorem tailOf_holds {base : Nat} {events : List Event} (fits : FitsSegment events)
    (fed : ((ActiveTail.new base).pushAll (positioned base events)).isSome = true)
    (accepted : (ActiveTail.new base).acceptedOf (positioned base events) = events) :
    (tailOf base events).Holds base events := by
  obtain ⟨tail, ran⟩ := Option.isSome_iff_exists.mp fed
  have same : tailOf base events = tail := by rw [tailOf, ran, Option.getD_some]
  have holds := (ActiveTail.holds_new base).pushAll ran (by rwa [accepted, List.nil_append])
  rwa [accepted, List.nil_append, ← same] at holds

/-- The event with a tag. -/
def labelledEvent (tag : Tag) : Event := { plainEvent with tags := .single tag }

def north : Tag := ⟨[78], by decide, by decide, by decide⟩

def south : Tag := ⟨[83], by decide, by decide, by decide⟩

/-- The events of a sealed segment, and of the active one behind it. -/
def sealedEvents : List Event := [labelledEvent north, plainEvent]

def activeEvents : List Event := [labelledEvent north, labelledEvent south, labelledEvent north]

def rolledSnapshot : Snapshot ActiveView :=
  ⟨[⟨1, sealedEvents.map .ok⟩], [some (tailOf 1 sealedEvents).viewFull],
    ⟨3, activeEvents.map .ok⟩, tailOf 3 activeEvents⟩

theorem rolledSnapshot_consistent :
    Consistent rolledSnapshot 4 (sealedEvents ++ activeEvents) := by
  have sealedFits : FitsSegment sealedEvents := by
    rw [FitsSegment]
    decide
  have activeFits : FitsSegment activeEvents := by
    rw [FitsSegment]
    decide
  have described : (tailOf 1 sealedEvents).Holds 1 sealedEvents :=
    tailOf_holds sealedFits (by decide +kernel) (by decide +kernel)
  have holds : (tailOf 3 activeEvents).Holds 3 activeEvents :=
    tailOf_holds activeFits (by decide +kernel) (by decide +kernel)
  refine @consistent_of_holds _ _ rolledSnapshot 4 _ ⟨rfl, rfl, trivial⟩ rfl (by decide)
    (by decide) (.cons ?_ .nil) activeEvents [] rfl holds activeFits (by decide)
  intro built same
  obtain rfl := Option.some.inj same
  exact described.indexes_viewFull sealedFits

/-- Both reads are by the index. -/
theorem planned_reads_eq_oracle_plain :
    (estimateRead rolledSnapshot (.items [⟨[], .single north⟩]) 0 4).map
        (fun (estimate, width) => choose estimate width 1) = some .index ∧
      Answers (read 4 rolledSnapshot 1 (.items [⟨[], .single north⟩]) 0 (some 3)) (some 3)
        [⟨1, labelledEvent north⟩, ⟨3, labelledEvent north⟩] ∧
      Answers (readBack 4 rolledSnapshot 1 (.items [⟨[], .single north⟩]) 9 none) none
        [⟨3, labelledEvent north⟩, ⟨1, labelledEvent north⟩] :=
  ⟨by decide +kernel,
    (planned_reads_eq_oracle rolledSnapshot_consistent (.items [⟨[], .single north⟩]) 1
      (some 3)).1 0,
    (planned_reads_eq_oracle rolledSnapshot_consistent (.items [⟨[], .single north⟩]) 1
      none).2 9⟩

end Read

end Tephra
