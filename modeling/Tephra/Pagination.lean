import Tephra.StoppedTails

/-!
# Pages of a query

A client reads the matching events page by page.  Every page is a read of its own, over a fresh
watermark and snapshot, that begins behind the last event of the page before it, or in front of
the oldest one when it reads backwards.  The writer commits batches between them.  The page that has fewer events than its limit is the
last one.  Put together the pages are one read: forward up to the watermark of the last page,
and backward from the watermark of the first one.
-/

namespace Tephra

namespace Read

open Histories Index Log Positions SegmentSource SortedMaps Writer.CommitSeam

variable {σ : Type}

namespace Reads

/-- Collect all that a read yields, or its first error.  The result is `none` when a call panics
or the fuel is spent. -/
def collectOwned : (fuel : Nat) → Reads σ → Option (Except ReadError (List Sequenced))
  | 0, _ => none
  | fuel + 1, reads =>
      match reads.next with
      | none => none
      | some (none, _) => some (.ok [])
      | some (some (.error err), _) => some (.error err)
      | some (some (.ok item), reads) =>
          (collectOwned fuel reads).map fun result => result.map (item :: ·)

theorem Yields.collectOwned_eq {exhausted : Bool} {reads : Reads σ} {items : List Sequenced}
    (yields : Yields exhausted reads items) {fuel : Nat} (enough : items.length < fuel) :
    reads.collectOwned fuel = some (.ok items) := by
  induction items generalizing reads fuel with
  | nil =>
      obtain ⟨fuel, rfl⟩ : ∃ less, fuel = less + 1 := ⟨fuel - 1, by omega⟩
      obtain ⟨last, ended, _⟩ := yields
      simp only [collectOwned, ended]
  | cons item items ih =>
      obtain ⟨fuel, rfl⟩ : ∃ less, fuel = less + 1 := ⟨fuel - 1, by omega⟩
      obtain ⟨later, drawn, rest⟩ := yields
      have driven := ih rest (Nat.lt_of_succ_lt_succ enough)
      simp only [collectOwned, drawn, driven, Option.map_some]
      rfl

end Reads

variable [SegmentIndex σ]

/-- A read in a direction from a cursor on, which is excluded. -/
def readDirected (direction : Direction) (watermark : Nat) (snapshot : Snapshot σ)
    (scanBias : Nat) (query : Query) (cursor : Nat) (limit : Option Nat) : Option (Reads σ) :=
  match direction with
  | .forward => read watermark snapshot scanBias query cursor limit
  | .backward => readBack watermark snapshot scanBias query cursor limit

/-- The matching events that a read from a cursor on is about, in its order. -/
def directedOracle (direction : Direction) (query : Query) (cursor watermark : Nat)
    (log : List Event) : List Sequenced :=
  match direction with
  | .forward => scanOracle query cursor watermark log
  | .backward => (scanOracle query 0 (min (cursor - 1) watermark) log).reverse

variable {snapshot : Snapshot σ} {watermark limit : Nat} {log : List Event}

/-- A page has the first events of its read, as many as its limit allows. -/
theorem page_eq (consistent : Consistent snapshot watermark log) (direction : Direction)
    (query : Query) (cursor scanBias limit : Nat) :
    (readDirected direction watermark snapshot scanBias query cursor (some limit)).bind
        (Reads.collectOwned (limit + 1)) =
      some (.ok ((directedOracle direction query cursor watermark log).take limit)) := by
  obtain ⟨reads, planned, yields⟩ : ∃ reads,
      readDirected direction watermark snapshot scanBias query cursor (some limit) = some reads ∧
        Reads.Yields
          (Reads.drained (some limit) (directedOracle direction query cursor watermark log))
          reads ((directedOracle direction query cursor watermark log).take limit) := by
    cases direction with
    | forward => exact Reads.plan_yields consistent query cursor scanBias (some limit)
    | backward =>
        exact Reads.planBack_yields consistent query (min_le_right _ _) scanBias (some limit)
  rw [planned, Option.bind_some]
  exact yields.collectOwned_eq (Nat.lt_succ_of_le (List.length_take_le _ _))

/-- Without a limit a read answers with all the events that it is about. -/
theorem readDirected_answers (consistent : Consistent snapshot watermark log)
    (direction : Direction) (query : Query) (cursor scanBias : Nat) :
    Answers (readDirected direction watermark snapshot scanBias query cursor none) none
      (directedOracle direction query cursor watermark log) := by
  cases direction with
  | forward =>
      obtain ⟨reads, planned, yields⟩ := Reads.plan_yields consistent query cursor scanBias none
      rw [readDirected, read, planned]
      exact yields.answers
  | backward =>
      obtain ⟨reads, planned, yields⟩ := Reads.planBack_yields consistent query
        (min_le_right (cursor - 1) watermark) scanBias none
      rw [readDirected, readBack, planned]
      exact yields.answers

theorem directedOracle_append {direction : Direction} {query : Query} {cursor : Nat}
    {more : List Event} (covered : watermark < firstPosition + log.length) :
    directedOracle direction query cursor watermark (log ++ more) =
      directedOracle direction query cursor watermark log := by
  cases direction with
  | forward => exact scanOracle_append (.inl covered)
  | backward =>
      exact congrArg List.reverse (scanOracle_append (.inl ((min_le_right _ _).trans_lt covered)))

variable {format : MapFormat}

/-- A page of what a writer shows has the first events of its log. -/
theorem page_served {worker : Worker format} (serves : worker.Serves) {moment : Moment}
    (allowed : worker.LoadAllowed moment) {shown : Snapshot (IndexSegment format)}
    (loaded : worker.shown moment = some shown) (below : watermark ≤ worker.watermark)
    (direction : Direction) (query : Query) (cursor scanBias limit : Nat) :
    (readDirected direction watermark shown scanBias query cursor (some limit)).bind
        (Reads.collectOwned (limit + 1)) =
      some (.ok ((directedOracle direction query cursor watermark worker.set.events).take
        limit)) := by
  obtain ⟨more, -, consistent⟩ := serves.shown_consistent allowed loaded below
  have published := serves.watermark_eq
  have started : firstPosition = 1 := rfl
  rw [page_eq consistent, directedOracle_append (by omega)]

/-- A store with its writer, and a client with what its pages had. -/
structure Pager (format : MapFormat) where
  worker : Worker format
  direction : Direction
  query : Query
  cursor : Nat
  /-- The watermark that the page at hand was pinned to. -/
  loaded : Option Nat
  delivered : List Sequenced
  /-- The watermark of the first page. -/
  first : Option Nat
  /-- The watermark of the last page. -/
  ended : Option Nat
  /-- A page has panicked or ended with an error. -/
  failed : Bool

inductive PageStep
  /-- The writer takes a request, or commits its batch. -/
  | write (label : WorkerStep)
  /-- The client asks for a page: it loads the watermark. -/
  | load
  /-- It loads a snapshot and collects the page. -/
  | page (moment : Moment) (limit : Nat)

namespace Pager

/-- A client before its first page. -/
def new (direction : Direction) (query : Query) (cursor : Nat) (worker : Worker format) :
    Pager format :=
  ⟨worker, direction, query, cursor, none, [], none, none, false⟩

/-- Take a page: it moves the cursor to its last event, and it is the last page if it has fewer
events than its limit. -/
def take (self : Pager format) (watermark limit : Nat) (page : List Sequenced) : Pager format :=
  { self with
    cursor := (page.getLast?.map Sequenced.position).getD self.cursor
    loaded := none
    delivered := self.delivered ++ page
    first := some (self.first.getD watermark)
    ended := if page.length < limit then some watermark else none }

/-- Collect a page from a snapshot.  A call spends one unit of the limit, so the page ends within
one call more. -/
def collect (scanBias : Nat) (self : Pager format) (watermark limit : Nat)
    (snapshot : Snapshot (IndexSegment format)) : Pager format :=
  match (readDirected self.direction watermark snapshot scanBias self.query self.cursor
      (some limit)).bind (Reads.collectOwned (limit + 1)) with
  | some (.ok page) => self.take watermark limit page
  | _ => { self with loaded := none, failed := true }

def step (crc : List UInt8 → UInt32) (scanBias : Nat) (self : Pager format) :
    PageStep → Option (Pager format)
  | .write label => (self.worker.step crc label).map fun worker => { self with worker := worker }
  | .load =>
      if self.loaded.isSome ∨ self.ended.isSome ∨ self.failed then
        none
      else
        some { self with loaded := some self.worker.watermark }
  | .page moment limit =>
      match self.loaded with
      | none => none
      | some watermark => (self.worker.shown moment).map (self.collect scanBias watermark limit)

/-- What is asked of a step: no append fails behind its rollover, and a page has room for an
event. -/
def StepAllowed (self : Pager format) : PageStep → Prop
  | .write label => self.worker.WriteAllowed label
  | .load => True
  | .page moment limit => self.worker.LoadAllowed moment ∧ 0 < limit

instance (self : Pager format) (label : PageStep) : Decidable (self.StepAllowed label) :=
  match label with
  | .write _ => inferInstanceAs (Decidable (Worker.WriteAllowed _ _))
  | .load => inferInstanceAs (Decidable True)
  | .page _ _ => inferInstanceAs (Decidable (_ ∧ _))

/-- The watermark of the one read that the pages stand for, once the last page is there. -/
def pinned (self : Pager format) : Option Nat :=
  match self.direction with
  | .forward => self.ended
  | .backward => if self.ended.isSome then self.first else none

/-- What forward pages that began behind a position had. -/
structure Forwards (start : Nat) (pager : Pager format) : Prop where
  delivered_eq : pager.delivered =
    scanOracle pager.query start (pager.ended.getD pager.cursor) pager.worker.set.events
  start_le : pager.ended = none → start ≤ pager.cursor
  reached_le : pager.ended.getD pager.cursor = start ∨
    pager.ended.getD pager.cursor ≤ pager.worker.watermark
  loaded_le : ∀ watermark, pager.loaded = some watermark →
    pager.cursor = start ∨ pager.cursor ≤ watermark

/-- What backward pages that began in front of a position had. -/
structure Backwards (start : Nat) (pager : Pager format) : Prop where
  unread : pager.first = none →
    pager.delivered = [] ∧ pager.cursor = start ∧ pager.ended = none
  delivered_eq : ∀ watermark, pager.first = some watermark →
    pager.delivered = (scanOracle pager.query (if pager.ended.isSome then 0 else pager.cursor - 1)
      (min (start - 1) watermark) pager.worker.set.events).reverse
  cursor_le : ∀ watermark, pager.first = some watermark → pager.ended = none →
    pager.cursor - 1 ≤ min (start - 1) watermark
  first_le : ∀ watermark, pager.first = some watermark → watermark ≤ pager.worker.watermark ∧
    ∀ later, pager.loaded = some later → watermark ≤ later

/-- The pages so far are exact, and no page has failed. -/
structure Exact (direction : Direction) (query : Query) (start : Nat) (pager : Pager format) : Prop where
  direction_eq : pager.direction = direction
  serves : pager.worker.Serves
  query_eq : pager.query = query
  loaded_le : ∀ watermark, pager.loaded = some watermark →
    watermark ≤ pager.worker.watermark ∧ pager.ended = none
  failed_eq : pager.failed = false
  forwards : direction = .forward → Forwards start pager
  backwards : direction = .backward → Backwards start pager

variable {direction : Direction} {query : Query} {start scanBias : Nat}
  {crc : List UInt8 → UInt32} {pager next : Pager format}

theorem exact_new (direction : Direction) (query : Query) (start : Nat) {worker : Worker format}
    (serves : worker.Serves) :
    Exact direction query start (new direction query start worker) where
  direction_eq := rfl
  serves := serves
  query_eq := rfl
  loaded_le := nofun
  failed_eq := rfl
  forwards _ := ⟨(Reads.scanOracle_eq_nil le_rfl).symm, fun _ => le_rfl, .inl rfl, nofun⟩
  backwards _ := ⟨fun _ => ⟨rfl, rfl, rfl⟩, nofun, nofun, nofun⟩

omit [SegmentIndex σ] in
/-- A page with fewer events than its limit has all of them, and any other one ends with an
event. -/
theorem page_cases (items : List Sequenced) (positive : 0 < limit) :
    (items.take limit).length < limit ∧ items.take limit = items ∨
      ¬ (items.take limit).length < limit ∧ ∃ front last back,
        items.take limit = front ++ [last] ∧ items = front ++ last :: back := by
  by_cases short : (items.take limit).length < limit
  · rw [List.length_take] at short
    have whole : items.take limit = items := List.take_of_length_le (by omega)
    exact .inl ⟨by rwa [List.length_take], whole⟩
  · refine .inr ⟨short, ?_⟩
    rcases List.eq_nil_or_concat (items.take limit) with empty | ⟨front, last, full⟩
    · rw [empty] at short
      exact absurd positive short
    · have split := List.take_append_drop limit items
      rw [full, List.concat_eq_append, List.append_assoc, List.singleton_append] at split
      exact ⟨front, last, items.drop limit, by rw [full, List.concat_eq_append], split.symm⟩

theorem Forwards.take (forwards : Forwards start pager) (going : pager.ended = none)
    (loaded : pager.loaded = some watermark) (published : watermark ≤ pager.worker.watermark)
    (positive : 0 < limit) :
    Forwards start (pager.take watermark limit
      ((scanOracle pager.query pager.cursor watermark pager.worker.set.events).take limit)) := by
  have before := forwards.delivered_eq
  have startLe := forwards.start_le going
  rw [going, Option.getD_none] at before
  rcases page_cases (scanOracle pager.query pager.cursor watermark pager.worker.set.events) positive with
    ⟨short, whole⟩ | ⟨full, front, last, back, pageEq, split⟩
  · rw [whole] at short ⊢
    simp only [Pager.take, if_pos short]
    refine ⟨?_, nofun, .inr published, nofun⟩
    rw [Option.getD_some, before]
    rcases forwards.loaded_le watermark loaded with same | below
    · rw [same, Reads.scanOracle_eq_nil le_rfl, List.nil_append]
    · exact (scanOracle_split startLe below).symm
  · have range := (mem_scanOracle.mp (split ▸ List.mem_append_right front
      (List.mem_cons_self ..) :
        last ∈ scanOracle pager.query pager.cursor watermark pager.worker.set.events)).2.1
    rw [pageEq] at full ⊢
    simp only [Pager.take, if_neg full, List.getLast?_concat, Option.map_some, Option.getD_some]
    refine ⟨?_, fun _ => by simp only; omega, .inr (by simp only [Option.getD_none]; omega), nofun⟩
    simp only [Option.getD_none]
    rw [before, scanOracle_prefix split, ← scanOracle_split startLe range.1.le]

theorem Backwards.take (backwards : Backwards start pager) (going : pager.ended = none)
    (loaded : pager.loaded = some watermark) (published : watermark ≤ pager.worker.watermark)
    (positive : 0 < limit) :
    Backwards start (pager.take watermark limit
      ((scanOracle pager.query 0 (min (pager.cursor - 1) watermark) pager.worker.set.events).reverse.take
        limit)) := by
  -- The pages so far have the events above the top of this one.
  obtain ⟨before, topLe, firstLe⟩ : pager.delivered =
      (scanOracle pager.query (min (pager.cursor - 1) watermark)
        (min (start - 1) (pager.first.getD watermark)) pager.worker.set.events).reverse ∧
      min (pager.cursor - 1) watermark ≤ min (start - 1) (pager.first.getD watermark) ∧
      pager.first.getD watermark ≤ pager.worker.watermark := by
    cases first : pager.first with
    | none =>
        obtain ⟨nothing, same, _⟩ := backwards.unread first
        rw [nothing, same, Option.getD_none, Reads.scanOracle_eq_nil le_rfl]
        exact ⟨rfl, le_rfl, published⟩
    | some top =>
        have before := backwards.delivered_eq top first
        have cursorLe := backwards.cursor_le top first going
        obtain ⟨topLe, below⟩ := backwards.first_le top first
        have same : min (pager.cursor - 1) watermark = pager.cursor - 1 := by
          have := below watermark loaded
          omega
        rw [going, Option.isSome_none, if_neg Bool.false_ne_true] at before
        rw [same, Option.getD_some]
        exact ⟨before, cursorLe, topLe⟩
  rcases page_cases (scanOracle pager.query 0 (min (pager.cursor - 1) watermark)
    pager.worker.set.events).reverse positive with ⟨short, whole⟩ | ⟨full, front, last, back, pageEq, split⟩
  · rw [whole] at short ⊢
    simp only [Pager.take, if_pos short]
    refine ⟨nofun, ?_, nofun, ?_⟩
    · rintro _ ⟨⟩
      rw [Option.isSome_some, if_pos rfl, before, ← List.reverse_append,
        ← scanOracle_split (Nat.zero_le _) topLe]
    · rintro _ ⟨⟩
      exact ⟨firstLe, nofun⟩
  · have forward : scanOracle pager.query 0 (min (pager.cursor - 1) watermark) pager.worker.set.events =
        back.reverse ++ last :: front.reverse := by
      rw [← List.reverse_reverse (scanOracle pager.query 0 _ pager.worker.set.events), split,
        List.reverse_append, List.reverse_cons, List.append_assoc, List.singleton_append]
    have range := (mem_scanOracle.mp (forward ▸ List.mem_append_right back.reverse
      (List.mem_cons_self ..) :
        last ∈ scanOracle pager.query 0 (min (pager.cursor - 1) watermark) pager.worker.set.events)).2.1
    have lastLe : last.position - 1 ≤ min (pager.cursor - 1) watermark := by omega
    rw [pageEq] at full ⊢
    simp only [Pager.take, if_neg full, List.getLast?_concat, Option.map_some, Option.getD_some]
    refine ⟨nofun, ?_, ?_, ?_⟩
    · rintro _ ⟨⟩
      rw [Option.isSome_none, if_neg Bool.false_ne_true, before, scanOracle_split lastLe topLe,
        ← scanOracle_suffix forward, List.reverse_append, List.reverse_cons, List.reverse_reverse]
    · rintro _ ⟨⟩ _
      exact lastLe.trans topLe
    · rintro _ ⟨⟩
      exact ⟨firstLe, nofun⟩

theorem Exact.write (exact' : Exact direction query start pager) {worker : Worker format}
    (serves : worker.Serves) (advances : pager.worker.Advances worker) :
    Exact direction query start { pager with worker := worker } := by
  obtain ⟨⟨more, grown⟩, later⟩ := advances
  have published := exact'.serves.watermark_eq
  have started : firstPosition = 1 := rfl
  refine { exact' with
    serves := serves
    loaded_le := fun loaded isLoaded => (exact'.loaded_le loaded isLoaded).imp_left later.trans'
    forwards := fun same => ?_
    backwards := fun same => ?_ }
  · have forwards := exact'.forwards same
    have reached := forwards.reached_le
    refine { forwards with delivered_eq := ?_, reached_le := reached.imp_right later.trans' }
    rw [forwards.delivered_eq, grown]
    exact (scanOracle_append (by omega)).symm
  · have backwards := exact'.backwards same
    refine { backwards with
      delivered_eq := fun top first => ?_
      first_le := fun top first => (backwards.first_le top first).imp_left later.trans' }
    have topLe := (backwards.first_le top first).1
    rw [backwards.delivered_eq top first, grown]
    exact congrArg List.reverse (scanOracle_append (.inl (by omega))).symm

theorem Exact.load (exact' : Exact direction query start pager) (going : pager.ended = none) :
    Exact direction query start { pager with loaded := some pager.worker.watermark } := by
  refine { exact' with
    loaded_le := ?_, forwards := fun same => ?_, backwards := fun same => ?_ }
  · rintro _ ⟨⟩
    exact ⟨le_rfl, going⟩
  · have forwards := exact'.forwards same
    refine { forwards with loaded_le := ?_ }
    rintro _ ⟨⟩
    simpa [going] using forwards.reached_le
  · have backwards := exact'.backwards same
    refine { backwards with first_le := fun top first => ?_ }
    have topLe := (backwards.first_le top first).1
    refine ⟨topLe, ?_⟩
    rintro _ ⟨⟩
    exact topLe

theorem Exact.take (exact' : Exact direction query start pager)
    (loaded : pager.loaded = some watermark) (positive : 0 < limit) :
    Exact direction query start (pager.take watermark limit
      ((directedOracle pager.direction pager.query pager.cursor watermark
        pager.worker.set.events).take limit)) := by
  obtain ⟨published, going⟩ := exact'.loaded_le watermark loaded
  refine ⟨exact'.direction_eq, exact'.serves, exact'.query_eq, nofun, exact'.failed_eq,
    fun same => ?_, fun same => ?_⟩
  · rw [exact'.direction_eq, same]
    exact (exact'.forwards same).take going loaded published positive
  · rw [exact'.direction_eq, same]
    exact (exact'.backwards same).take going loaded published positive

theorem Exact.step (lawful : format.Lawful) (exact' : Exact direction query start pager)
    {label : PageStep} (allowed : pager.StepAllowed label)
    (taken : pager.step crc scanBias label = some next) :
    Exact direction query start next ∧ pager.worker.Advances next.worker := by
  cases label with
  | write label =>
      obtain ⟨worker, stepped, rfl⟩ := Option.map_eq_some_iff.mp taken
      obtain ⟨serves, advances⟩ := exact'.serves.step lawful allowed stepped
      exact ⟨exact'.write serves advances, advances⟩
  | load =>
      rw [Pager.step] at taken
      split at taken
      · cases taken
      next idle =>
      obtain rfl := Option.some.inj taken
      have going : pager.ended = none := by
        simpa using (not_or.mp (not_or.mp idle).2).1
      exact ⟨exact'.load going, .refl _⟩
  | page moment limit =>
      rw [Pager.step] at taken
      cases loaded : pager.loaded with
      | none => simp [loaded] at taken
      | some watermark =>
          simp only [loaded] at taken
          obtain ⟨snapshot, shown, rfl⟩ := Option.map_eq_some_iff.mp taken
          obtain ⟨loads, positive⟩ := allowed
          rw [collect, page_served exact'.serves loads shown (exact'.loaded_le _ loaded).1]
          exact ⟨exact'.take loaded positive, .refl _⟩

theorem Exact.run (lawful : format.Lawful) (exact' : Exact direction query start pager)
    {labels : List PageStep}
    (allowed : Allowed (Pager.step crc scanBias) StepAllowed pager labels)
    (ran : Histories.run (Pager.step crc scanBias) pager labels = some next) :
    Exact direction query start next ∧ pager.worker.Advances next.worker := by
  apply @invariant_of_run _ _ (Pager.step crc scanBias) StepAllowed (fun reached =>
    Exact direction query start reached ∧ pager.worker.Advances reached.worker) _ _ _ _
      ⟨exact', .refl _⟩ allowed ran
  rintro reached label after ⟨kept, advances⟩ meets stepped
  have moved := kept.step lawful meets stepped
  exact ⟨moved.1, advances.trans moved.2⟩

theorem Exact.delivered_eq (exact' : Exact direction query start pager) {pin : Nat}
    (isPinned : pager.pinned = some pin) :
    pager.delivered = directedOracle direction query start pin pager.worker.set.events := by
  have queryEq := exact'.query_eq
  rw [pinned, exact'.direction_eq] at isPinned
  cases direction with
  | forward =>
      have before := (exact'.forwards rfl).delivered_eq
      simp only at isPinned
      rwa [isPinned, Option.getD_some, queryEq] at before
  | backward =>
      simp only [Option.ite_none_right_eq_some] at isPinned
      obtain ⟨ended, first⟩ := isPinned
      have before := (exact'.backwards rfl).delivered_eq pin first
      rwa [if_pos ended, queryEq] at before

/-- The pages of a query are one read of it, if the active segment of the log that was opened does
not have too many types and no append fails behind its rollover.  No page fails, and whatever is
committed between the pages, put together they are what one read without a limit answers: forward
up to the watermark of the last page, backward from the watermark of the first one. -/
theorem pages_are_one_read (lawful : format.Lawful) {crc : List UInt8 → UInt32}
    {set : SegmentedLog} {index : IndexSet format} (opened : Worker.Opened crc set index)
    (few : (distinctTypes set.active.events).length ≤ maxTypeId + 1) (cfg : WriterConfig)
    {scanBias : Nat} {labels : List PageStep} {last : Pager format}
    (allowed : Allowed (step crc scanBias) StepAllowed
      (new direction query start (.start cfg set index)) labels)
    (ran : Histories.run (step crc scanBias) (new direction query start (.start cfg set index))
      labels = some last) :
    last.failed = false ∧ ∀ pin, last.pinned = some pin →
      last.delivered = directedOracle direction query start pin last.worker.set.events ∧
      ∀ earlier later middle, labels = earlier ++ later →
        Histories.run (step crc scanBias) (new direction query start (.start cfg set index))
          earlier = some middle → pin ≤ middle.worker.watermark →
        ∀ moment snapshot, middle.worker.LoadAllowed moment →
          middle.worker.shown moment = some snapshot →
          Answers (readDirected direction pin snapshot scanBias query start none) none
            last.delivered := by
  have fresh := exact_new direction query start (opened.serves_start lawful few cfg)
  have exact' := (fresh.run lawful allowed ran).1
  refine ⟨exact'.failed_eq, fun pin isPinned => ⟨exact'.delivered_eq isPinned, ?_⟩⟩
  rintro earlier later middle rfl ranEarlier below moment snapshot loads shown
  obtain ⟨allowedEarlier, allowedLater⟩ := allowed.of_append ranEarlier
  have there := (fresh.run lawful allowedEarlier ranEarlier).1
  rw [run_append_eq ranEarlier] at ran
  obtain ⟨-, ⟨added, grown⟩, -⟩ := there.run lawful allowedLater ran
  obtain ⟨more, -, consistent⟩ := there.serves.shown_consistent loads shown below
  have published := there.serves.watermark_eq
  have started : firstPosition = 1 := rfl
  have answers := readDirected_answers consistent direction query start scanBias
  rw [directedOracle_append (by omega)] at answers
  rwa [exact'.delivered_eq isPinned, grown, directedOracle_append (by omega)]

theorem step_page {self : Pager format} {crc : List UInt8 → UInt32} {scanBias watermark limit : Nat}
    {page : List Sequenced} (loaded : self.loaded = some watermark)
    (collected : (readDirected self.direction watermark self.worker.snapshot scanBias self.query
      self.cursor (some limit)).bind (Reads.collectOwned (limit + 1)) = some (.ok page)) :
    self.step crc scanBias (.page .between limit) = some (self.take watermark limit page) := by
  simp only [step, loaded, Worker.shown, Option.map_some, collect, collected]

/-- A page of one event, and one of two. -/
def reopenedPages : List PageStep := [.load, .page .between 1, .load, .page .between 2]

/-- The pages have an event that one read, which goes by the index, does not find. -/
theorem reopened_pages_differ :
    ∃ (index : IndexSet flatTable) (last : Pager flatTable),
      Worker.Opened Seglog.crc32 (singleSegment (Worker.stoppedEvents 65534)) index ∧
        Histories.run (step Seglog.crc32 4) (new .forward (ofTag letterB) 0 (.reopened index))
          reopenedPages = some last ∧
        last.pinned = some 65537 ∧
        last.delivered =
          [⟨65535, Worker.numberedTagged 65534⟩, ⟨65537, Worker.numberedTagged 65536⟩] ∧
        Answers (readDirected .forward 65537 last.worker.snapshot 4 (ofTag letterB) 0 none) none
          [⟨65535, Worker.numberedTagged 65534⟩] := by
  obtain ⟨index, opened, overfull⟩ := Worker.stoppedEvents_overfull
  have watermark : (Worker.reopened index).watermark = 65537 := by
    rw [overfull.watermark_eq, Worker.length_heldEvents]
  obtain ⟨whole, planned, yields⟩ := @Worker.Overfull.plan_whole _ _ none overfull (by simp)
  obtain ⟨first, plannedFirst, yieldsFirst⟩ :=
    @Worker.Overfull.plan_whole _ _ (some 1) overfull (by simp)
  obtain ⟨second, plannedSecond, yieldsSecond⟩ :=
    @Worker.Overfull.plan_end _ _ (some 2) overfull (by simp)
  have firstPage : (readDirected .forward (Worker.reopened index).watermark
      (Worker.reopened index).snapshot 4 (ofTag letterB) 0 (some 1)).bind
        (Reads.collectOwned 2) = some (.ok [⟨65535, Worker.numberedTagged 65534⟩]) := by
    rw [watermark, readDirected, read, plannedFirst, Option.bind_some]
    exact yieldsFirst.collectOwned_eq (Nat.lt_succ_self 1)
  have secondPage : (readDirected .forward (Worker.reopened index).watermark
      (Worker.reopened index).snapshot 4 (ofTag letterB) 65535 (some 2)).bind
        (Reads.collectOwned 3) = some (.ok [⟨65537, Worker.numberedTagged 65536⟩]) := by
    rw [watermark, readDirected, read, plannedSecond, Option.bind_some]
    exact yieldsSecond.collectOwned_eq (Nat.le_succ 2)
  refine ⟨index, _, opened, run_cons rfl <| run_cons (step_page rfl firstPage) <| run_cons rfl <|
    run_cons (step_page rfl secondPage) rfl, congrArg some watermark, rfl, ?_⟩
  change Answers (readDirected .forward 65537 (Worker.reopened index).snapshot 4 (ofTag letterB) 0
    none) none _
  rw [readDirected, read, planned]
  exact yields.answers

/-- Pages of one event, backwards, while two batches are committed, the second behind a rollover;
the second page looks in the middle of a commit. -/
def rolledPages : List PageStep :=
  [.write (.request ⟨[Writer.taggedEvent, Worker.untaggedEvent, Writer.taggedEvent], none⟩),
    .write (.commit .appended 7), .load, .write (.request ⟨[Writer.taggedEvent], none⟩),
    .page .between 1, .load, .page (.feeding 1) 1, .write (.commit .rolledOver 7), .load,
    .page .between 1]

def rolledStart : Pager flatTable :=
  new .backward (ofTag letterB) 9 (.start Worker.plainConfig Writer.emptyLog
    (IndexSet.new flatTable 1))

theorem pages_are_one_read_rolled :
    ∃ last, Histories.run (step Seglog.crc32 4) rolledStart rolledPages = some last ∧
      last.worker.watermark = 4 ∧ last.delivered.map Sequenced.position = [3, 1] ∧
      Answers (readDirected .backward 3 last.worker.snapshot 4 (ofTag letterB) 9 none) none
        last.delivered := by
  have computed : (Histories.run (step Seglog.crc32 4) rolledStart rolledPages).any (fun last =>
      decide (last.worker.watermark = 4 ∧ last.delivered.map Sequenced.position = [3, 1] ∧
        last.pinned = some 3)) = true := by
    decide +kernel
  obtain ⟨last, ran, shown⟩ := (Option.any_eq_true _ _).mp computed
  obtain ⟨watermark, positions, isPinned⟩ := of_decide_eq_true shown
  have allowed : Allowed (step Seglog.crc32 4) StepAllowed rolledStart rolledPages := by
    decide +kernel
  obtain ⟨-, whole⟩ := pages_are_one_read flatTable_lawful Worker.emptyLog_opened (by decide)
    Worker.plainConfig allowed ran
  refine ⟨last, ran, watermark, positions, ?_⟩
  exact (whole 3 isPinned).2 rolledPages [] last (List.append_nil _).symm ran (by omega) .between
    _ trivial rfl

end Pager

end Read

end Tephra
