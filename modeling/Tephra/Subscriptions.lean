import Tephra.StoppedTails

/-!
# Subscriptions

A subscription reads the matching events behind its cursor in batches, each over
a fresh watermark and snapshot.  A batch that was cut at its cap moves the cursor
to the last event delivered, and any other one to the watermark.  The blocking
call polls, waits for the watermark to pass the cursor, and polls once more after
it has found the store closed.  Meanwhile the writer takes requests and commits batches.
-/

namespace Tephra

namespace Read

open Histories Index Log Positions SegmentSource SortedMaps Writer.CommitSeam

/-- A subscription: everything at or before the cursor has been delivered. -/
structure Subscription where
  query : Query
  cursor : Nat
  maxBatchEvents : Nat
  batch_pos : 0 < maxBatchEvents

namespace Subscription

variable {σ : Type} [SegmentIndex σ]

/-- Take events from a read until it ends or there is room for no more of them
behind the next one.  The new cursor comes with the batch. -/
def fill (watermark : Nat) : (room : Nat) → Reads σ → (out : List Sequenced) → (cursor : Nat) →
    Option (Except ReadError (List Sequenced) × Nat)
  | room, reads, out, cursor =>
      match reads.next with
      | none => none
      | some (some (.error error), _) => some (.error error, cursor)
      | some (some (.ok item), reads) =>
          match room with
          | 0 => some (.ok (out ++ [item]), item.position)
          | room + 1 => fill watermark room reads (out ++ [item]) cursor
      | some (none, reads) =>
          if reads.isExhausted then
            some (.ok out, watermark)
          else
            some (.ok out, (out.getLast?.map Sequenced.position).getD cursor)

/-- Read the next batch of the events up to a watermark, and move the cursor. -/
def pollBatch (self : Subscription) (watermark : Nat) (snapshot : Snapshot σ) (scanBias : Nat) :
    Option (Except ReadError (List Sequenced) × Subscription) :=
  if self.cursor ≥ watermark then
    some (.ok [], self)
  else do
    let reads ← Reads.plan snapshot self.query self.cursor watermark scanBias none
    let (batch, cursor) ← fill watermark (self.maxBatchEvents - 1) reads [] self.cursor
    return (batch, { self with cursor := cursor })

omit [SegmentIndex σ] in
/-- A read that yields no more events than there is room for is delivered whole,
and another one up to the cap. -/
theorem fill_eq {watermark room cursor : Nat} {reads : Reads σ} {items : List Sequenced}
    (yields : Reads.Yields true reads items) (out : List Sequenced) :
    fill watermark room reads out cursor =
      match items[room]? with
      | none => some (.ok (out ++ items), watermark)
      | some last => some (.ok (out ++ items.take room ++ [last]), last.position) := by
  induction room generalizing reads items out with
  | zero =>
      cases items with
      | nil =>
          obtain ⟨last, ended, exhausted⟩ := yields
          simp [fill, ended, exhausted]
      | cons item items =>
          obtain ⟨later, drawn, _⟩ := yields
          simp [fill, drawn]
  | succ room ih =>
      cases items with
      | nil =>
          obtain ⟨last, ended, exhausted⟩ := yields
          simp [fill, ended, exhausted]
      | cons item items =>
          obtain ⟨later, drawn, rest⟩ := yields
          rw [fill, drawn]
          simp only [ih rest, List.getElem?_cons_succ, List.take_succ_cons, List.append_assoc,
            List.singleton_append]

variable {snapshot : Snapshot σ} {watermark : Nat} {log : List Event}

/-- A poll delivers exactly the matching events between its old and its new
cursor.  A poll that delivers nothing has reached the watermark. -/
theorem pollBatch_eq (consistent : Consistent snapshot watermark log) (sub : Subscription)
    (scanBias : Nat) :
    ∃ cursor, sub.pollBatch watermark snapshot scanBias =
        some (.ok (scanOracle sub.query sub.cursor cursor log), { sub with cursor := cursor }) ∧
      sub.cursor ≤ cursor ∧ (cursor = sub.cursor ∨ cursor ≤ watermark) ∧
      (scanOracle sub.query sub.cursor cursor log = [] → watermark ≤ cursor) := by
  rw [pollBatch]
  by_cases reached : sub.cursor ≥ watermark
  · rw [if_pos reached]
    refine ⟨sub.cursor, ?_, le_rfl, Or.inl rfl, fun _ => reached⟩
    rw [Reads.scanOracle_eq_nil le_rfl]
  · obtain ⟨reads, planned, yields⟩ :=
      Reads.plan_yields consistent sub.query sub.cursor scanBias none
    have below := Nat.lt_of_not_le reached
    rw [if_neg reached, planned]
    simp only [Option.bind_eq_bind, Option.bind_some, fill_eq yields, List.nil_append, truncate]
    cases capped : (scanOracle sub.query sub.cursor watermark log)[sub.maxBatchEvents - 1]? with
    | none => exact ⟨watermark, rfl, below.le, Or.inr le_rfl, fun _ => le_rfl⟩
    | some last =>
        obtain ⟨bound, here⟩ := List.getElem?_eq_some_iff.mp capped
        have split := List.take_append_drop (sub.maxBatchEvents - 1)
          (scanOracle sub.query sub.cursor watermark log)
        rw [List.drop_eq_getElem_cons bound, here] at split
        have front := scanOracle_prefix split.symm
        have range := (mem_scanOracle.mp (List.mem_of_getElem? capped)).2.1
        refine ⟨last.position, ?_, range.1.le, Or.inr range.2, ?_⟩
        · rw [← front]
          rfl
        · intro empty
          rw [← front] at empty
          exact absurd empty (by simp)

theorem poll_served {format : MapFormat} {worker : Worker format} (serves : worker.Serves)
    {moment : Moment} (allowed : worker.LoadAllowed moment)
    {shown : Snapshot (IndexSegment format)} (loaded : worker.shown moment = some shown)
    (below : watermark ≤ worker.watermark) (sub : Subscription) (scanBias : Nat) :
    ∃ cursor, sub.pollBatch watermark shown scanBias =
        some (.ok (scanOracle sub.query sub.cursor cursor worker.set.events),
          { sub with cursor := cursor }) ∧
      sub.cursor ≤ cursor ∧ (cursor = sub.cursor ∨ cursor ≤ watermark) ∧
      (scanOracle sub.query sub.cursor cursor worker.set.events = [] → watermark ≤ cursor) := by
  obtain ⟨more, -, consistent⟩ := serves.shown_consistent allowed loaded below
  obtain ⟨cursor, polled, forward, behind, empty⟩ := pollBatch_eq consistent sub scanBias
  have published := serves.watermark_eq
  have started : firstPosition = 1 := rfl
  rw [scanOracle_append (by omega)] at polled empty
  exact ⟨cursor, polled, forward, behind, empty⟩

end Subscription

/-- Who called `poll_batch`. -/
inductive Caller
  /-- The subscriber itself. -/
  | poll
  /-- `next_batch`, before a wait. -/
  | next
  /-- `next_batch`, after the wait has found the store closed. -/
  | final
deriving DecidableEq, Repr

/-- The next step of the subscriber. -/
inductive CallPhase
  | idle
  /-- Before the load of the watermark. -/
  | polling (caller : Caller)
  /-- With a watermark, before the load of the snapshot. -/
  | loaded (caller : Caller) (watermark : Nat)
  /-- In `wait_past`, before the load of `closed`. -/
  | waitClosed
  /-- In `wait_past`, before the load of the watermark. -/
  | waitMark
deriving DecidableEq, Repr

/-- A store with its writer, and a subscriber with what it was given. -/
structure Feed (format : MapFormat) where
  worker : Worker format
  closed : Bool
  sub : Subscription
  phase : CallPhase
  delivered : List Sequenced
  /-- `next_batch` has returned `None`. -/
  ended : Bool
  /-- A poll has panicked. -/
  failed : Bool

inductive FeedStep
  /-- The writer takes a request, or commits its batch. -/
  | write (label : WorkerStep)
  | close
  | callPoll
  | callNext
  | loadMark
  /-- Load a snapshot and read. -/
  | read (moment : Moment)
  | checkClosed
  | checkMark

namespace Feed

variable {format : MapFormat}

/-- A subscriber of a store, before its first call. -/
def new (worker : Worker format) (sub : Subscription) : Feed format :=
  ⟨worker, false, sub, .idle, [], false, false⟩

/-- Return a batch to its caller. -/
def deliver (self : Feed format) (caller : Caller) (batch : List Sequenced) : Feed format :=
  match caller with
  | .poll => { self with phase := .idle, delivered := self.delivered ++ batch }
  | .next =>
      if batch.isEmpty then { self with phase := .waitClosed }
      else { self with phase := .idle, delivered := self.delivered ++ batch }
  | .final =>
      if batch.isEmpty then { self with phase := .idle, ended := true }
      else { self with phase := .idle, delivered := self.delivered ++ batch }

/-- Read a batch from a snapshot. -/
def poll (scanBias : Nat) (self : Feed format) (caller : Caller) (watermark : Nat)
    (snapshot : Snapshot (IndexSegment format)) : Feed format :=
  match self.sub.pollBatch watermark snapshot scanBias with
  | none => { self with phase := .idle, failed := true }
  | some (.error _, sub) => { self with phase := .idle, sub := sub }
  | some (.ok batch, sub) => { self with sub := sub }.deliver caller batch

/-- A step of the writer, which takes none after its close, or of the subscriber. -/
def step (crc : List UInt8 → UInt32) (scanBias : Nat) (self : Feed format) :
    FeedStep → Option (Feed format)
  | .write label =>
      if self.closed then none
      else (self.worker.step crc label).map fun worker => { self with worker := worker }
  | .close => if self.closed then none else some { self with closed := true }
  | .callPoll =>
      match self.phase with
      | .idle => some { self with phase := .polling .poll }
      | _ => none
  | .callNext =>
      match self.phase with
      | .idle => some { self with phase := .polling .next }
      | _ => none
  | .loadMark =>
      match self.phase with
      | .polling caller => some { self with phase := .loaded caller self.worker.watermark }
      | _ => none
  | .read moment =>
      match self.phase with
      | .loaded caller watermark =>
          (self.worker.shown moment).map (self.poll scanBias caller watermark)
      | _ => none
  | .checkClosed =>
      match self.phase with
      | .waitClosed =>
          some { self with phase := if self.closed then .polling .final else .waitMark }
      | _ => none
  | .checkMark =>
      match self.phase with
      | .waitMark =>
          -- a wait that goes on looks at both again
          some { self with
            phase := if self.worker.watermark > self.sub.cursor then .polling .next
              else .waitClosed }
      | _ => none

/-- What is asked of a step: no append fails behind its rollover. -/
def StepAllowed (self : Feed format) : FeedStep → Prop
  | .write label => self.worker.WriteAllowed label
  | .read moment => self.worker.LoadAllowed moment
  | _ => True

instance (self : Feed format) (label : FeedStep) : Decidable (self.StepAllowed label) :=
  match label with
  | .write _ => inferInstanceAs (Decidable (Worker.WriteAllowed _ _))
  | .read _ => inferInstanceAs (Decidable (Worker.LoadAllowed _ _))
  | .close | .callPoll | .callNext | .loadMark | .checkClosed | .checkMark =>
      inferInstanceAs (Decidable True)

/-- What holds of a subscriber that started behind a position. -/
structure Faithful (query : Query) (start : Nat) (feed : Feed format) : Prop where
  serves : feed.worker.Serves
  query_eq : feed.sub.query = query
  delivered_eq : feed.delivered = scanOracle query start feed.sub.cursor feed.worker.set.events
  start_le : start ≤ feed.sub.cursor
  cursor_le : feed.sub.cursor = start ∨ feed.sub.cursor ≤ feed.worker.watermark
  loaded_le : ∀ caller watermark, feed.phase = .loaded caller watermark →
    watermark ≤ feed.worker.watermark
  /-- The last poll of `next_batch` sees the final watermark. -/
  final_closed : feed.phase = .polling .final → feed.closed = true
  final_mark : ∀ watermark, feed.phase = .loaded .final watermark →
    feed.closed = true ∧ watermark = feed.worker.watermark
  ended_at : feed.ended = true → feed.closed = true ∧ feed.worker.watermark ≤ feed.sub.cursor
  failed_eq : feed.failed = false

namespace Faithful

variable {query : Query} {start scanBias : Nat} {feed next : Feed format}
  {crc : List UInt8 → UInt32}

theorem write (faithful : Faithful query start feed) (isOpen : feed.closed ≠ true)
    {worker : Worker format} (serves : worker.Serves) (advances : feed.worker.Advances worker) :
    Faithful query start { feed with worker := worker } := by
  obtain ⟨⟨more, grown⟩, later⟩ := advances
  have published := faithful.serves.watermark_eq
  have cursor_le := faithful.cursor_le
  have started : firstPosition = 1 := rfl
  exact { faithful with
    serves := serves
    delivered_eq := by
      rw [faithful.delivered_eq, grown]
      exact (scanOracle_append (by omega)).symm
    cursor_le := cursor_le.imp_right fun below => below.trans later
    loaded_le := fun caller watermark phase =>
      (faithful.loaded_le caller watermark phase).trans later
    final_mark := fun watermark phase => absurd (faithful.final_mark watermark phase).1 isOpen
    ended_at := fun ended => absurd (faithful.ended_at ended).1 isOpen }

theorem deliver (faithful : Faithful query start feed) {cursor : Nat}
    (forward : feed.sub.cursor ≤ cursor)
    (behind : cursor = feed.sub.cursor ∨ cursor ≤ feed.worker.watermark) (caller : Caller)
    (drained : caller = .final →
      scanOracle query feed.sub.cursor cursor feed.worker.set.events = [] →
        feed.closed = true ∧ feed.worker.watermark ≤ cursor) (phase : CallPhase) :
    Faithful query start
      ({ feed with sub := { feed.sub with cursor := cursor }, phase := phase }.deliver caller
        (scanOracle query feed.sub.cursor cursor feed.worker.set.events)) := by
  have later : feed.delivered ++ scanOracle query feed.sub.cursor cursor feed.worker.set.events =
      scanOracle query start cursor feed.worker.set.events := by
    rw [faithful.delivered_eq, ← scanOracle_split faithful.start_le forward]
  have start_le := faithful.start_le
  have cursor_le := faithful.cursor_le
  have ended_at := faithful.ended_at
  have moved : Faithful query start { feed with
      sub := { feed.sub with cursor := cursor }, phase := .idle,
      delivered := feed.delivered ++
        scanOracle query feed.sub.cursor cursor feed.worker.set.events } :=
    { faithful with
      delivered_eq := later
      start_le := start_le.trans forward
      cursor_le := by
        dsimp only
        omega
      loaded_le := by simp
      final_closed := by simp
      final_mark := by simp
      ended_at := fun ended => ⟨(ended_at ended).1, (ended_at ended).2.trans forward⟩ }
  cases batch : scanOracle query feed.sub.cursor cursor feed.worker.set.events with
  | cons item items =>
      rw [batch] at moved
      cases caller <;> exact moved
  | nil =>
      rw [batch, List.append_nil] at moved
      cases caller with
      | poll => simpa [Feed.deliver] using moved
      | next =>
          exact { moved with
            loaded_le := by simp [Feed.deliver]
            final_closed := by simp [Feed.deliver]
            final_mark := by simp [Feed.deliver] }
      | final => exact { moved with ended_at := fun _ => drained rfl batch }

theorem read (faithful : Faithful query start feed) {moment : Moment}
    (allowed : feed.StepAllowed (.read moment))
    (stepped : step crc scanBias feed (.read moment) = some next) :
    Faithful query start next ∧ feed.sub.cursor ≤ next.sub.cursor := by
  rw [step] at stepped
  cases phase : feed.phase with
  | loaded caller watermark =>
      have loaded := faithful.loaded_le caller watermark phase
      simp only [phase] at stepped
      obtain ⟨snapshot, shown, rfl⟩ := Option.map_eq_some_iff.mp stepped
      obtain ⟨cursor, polled, forward, behind, empty⟩ :=
        Subscription.poll_served faithful.serves allowed shown loaded feed.sub scanBias
      obtain rfl := faithful.query_eq
      rw [poll, polled]
      constructor
      · apply faithful.deliver forward (behind.imp_right loaded.trans')
        rintro rfl nothing
        obtain ⟨closed, sameMark⟩ := faithful.final_mark watermark phase
        exact ⟨closed, sameMark ▸ empty nothing⟩
      · cases caller <;>
          cases batch : scanOracle feed.sub.query feed.sub.cursor cursor
            feed.worker.set.events <;>
            exact forward
  | _ => simp [phase] at stepped

theorem step (lawful : format.Lawful) (faithful : Faithful query start feed) {label : FeedStep}
    (allowed : feed.StepAllowed label) (stepped : feed.step crc scanBias label = some next) :
    Faithful query start next ∧ feed.sub.cursor ≤ next.sub.cursor := by
  cases label with
  | read moment => exact faithful.read allowed stepped
  | write label =>
      simp only [Feed.step, Option.ite_none_left_eq_some] at stepped
      obtain ⟨isOpen, stepped⟩ := stepped
      obtain ⟨worker, taken, rfl⟩ := Option.map_eq_some_iff.mp stepped
      obtain ⟨serves, advances⟩ := faithful.serves.step lawful allowed taken
      exact ⟨faithful.write isOpen serves advances, le_rfl⟩
  | close =>
      simp only [Feed.step, Option.ite_none_left_eq_some, Option.some.injEq] at stepped
      obtain ⟨isOpen, rfl⟩ := stepped
      exact ⟨{ faithful with
        final_closed := fun _ => rfl
        final_mark := fun watermark phase => ⟨rfl, (faithful.final_mark watermark phase).2⟩
        ended_at := fun ended => ⟨rfl, (faithful.ended_at ended).2⟩ }, le_rfl⟩
  | callPoll =>
      cases phase : feed.phase <;> simp [Feed.step, phase] at stepped
      subst stepped
      exact ⟨{ faithful with loaded_le := by simp, final_closed := by simp, final_mark := by simp },
        le_rfl⟩
  | callNext =>
      cases phase : feed.phase <;> simp [Feed.step, phase] at stepped
      subst stepped
      exact ⟨{ faithful with loaded_le := by simp, final_closed := by simp, final_mark := by simp },
        le_rfl⟩
  | loadMark =>
      cases phase : feed.phase <;> simp [Feed.step, phase] at stepped
      rename_i caller
      subst stepped
      refine ⟨{ faithful with
        loaded_le := by rintro _ _ ⟨⟩; exact le_rfl
        final_closed := by simp
        final_mark := ?_ }, le_rfl⟩
      rintro _ ⟨⟩
      exact ⟨faithful.final_closed phase, rfl⟩
  | checkClosed =>
      cases phase : feed.phase <;> simp [Feed.step, phase] at stepped
      subst stepped
      refine ⟨{ faithful with loaded_le := ?_, final_closed := ?_, final_mark := ?_ }, le_rfl⟩
      · split <;> simp
      · split
        · exact fun _ => ‹_›
        · simp
      · split <;> simp
  | checkMark =>
      cases phase : feed.phase <;> simp [Feed.step, phase] at stepped
      subst stepped
      refine ⟨{ faithful with loaded_le := ?_, final_closed := ?_, final_mark := ?_ }, le_rfl⟩ <;>
        split <;> simp

theorem run (lawful : format.Lawful) (faithful : Faithful query start feed)
    {labels : List FeedStep} (allowed : Allowed (Feed.step crc scanBias) StepAllowed feed labels)
    (ran : Histories.run (Feed.step crc scanBias) feed labels = some next) :
    Faithful query start next ∧ feed.sub.cursor ≤ next.sub.cursor := by
  apply @invariant_of_run _ _ (Feed.step crc scanBias) StepAllowed (fun reached =>
    Faithful query start reached ∧ feed.sub.cursor ≤ reached.sub.cursor) _ _ _ _
      ⟨faithful, le_rfl⟩ allowed ran
  rintro reached label after ⟨kept, forward⟩ meets stepped
  have moved := kept.step lawful meets stepped
  exact ⟨moved.1, forward.trans moved.2⟩

end Faithful

theorem faithful_new {worker : Worker format} (serves : worker.Serves) (sub : Subscription) :
    Faithful sub.query sub.cursor (new worker sub) where
  serves := serves
  query_eq := rfl
  delivered_eq := (Reads.scanOracle_eq_nil le_rfl).symm
  start_le := le_rfl
  cursor_le := Or.inl rfl
  loaded_le := by simp [new]
  final_closed := by simp [new]
  final_mark := by simp [new]
  ended_at := by simp [new]
  failed_eq := rfl

/-- Subscriptions lose and repeat nothing, along every run of the writer and the subscriber, if
the active segment of the log that was opened does not have too many types and no append fails
behind its rollover. -/
theorem nothing_lost_or_repeated (lawful : format.Lawful) {crc : List UInt8 → UInt32}
    {set : SegmentedLog} {index : IndexSet format} (opened : Worker.Opened crc set index)
    (few : (distinctTypes set.active.events).length ≤ maxTypeId + 1) (cfg : WriterConfig)
    (sub : Subscription) {scanBias : Nat} {labels : List FeedStep} {last : Feed format}
    (allowed : Allowed (step crc scanBias) StepAllowed (new (.start cfg set index) sub) labels)
    (ran : Histories.run (step crc scanBias) (new (.start cfg set index) sub) labels =
      some last) :
    last.delivered = scanOracle sub.query sub.cursor last.sub.cursor last.worker.set.events ∧
      (last.delivered.Pairwise fun first second => first.position < second.position) ∧
      (last.ended = true → last.delivered =
        scanOracle sub.query sub.cursor last.worker.watermark last.worker.set.events) ∧
      last.failed = false ∧
      ∀ earlier later, labels = earlier ++ later → ∃ middle,
        Histories.run (step crc scanBias) (new (.start cfg set index) sub) earlier = some middle ∧
          middle.sub.cursor ≤ last.sub.cursor := by
  have fresh := faithful_new (opened.serves_start lawful few cfg) sub
  have faithful := (fresh.run lawful allowed ran).1
  refine ⟨faithful.delivered_eq, ?_, ?_, faithful.failed_eq, ?_⟩
  · rw [faithful.delivered_eq]
    exact pairwise_scanOracle ..
  · intro ended
    have behind := (faithful.ended_at ended).2
    rw [faithful.delivered_eq]
    rcases faithful.cursor_le with same | below
    · rw [same] at behind ⊢
      rw [Reads.scanOracle_eq_nil le_rfl, Reads.scanOracle_eq_nil behind]
    · rw [le_antisymm below behind]
  · rintro earlier later rfl
    obtain ⟨middle, ranEarlier, ranLater⟩ := run_append ran
    obtain ⟨allowedEarlier, allowedLater⟩ := allowed.of_append ranEarlier
    exact ⟨middle, ranEarlier, ((fresh.run lawful allowedEarlier ranEarlier).1.run lawful
      allowedLater ranLater).2⟩

/-- A subscription to the events with a tag. -/
def tagSubscription (cursor : Nat) : Subscription := ⟨ofTag letterB, cursor, 1024, by decide⟩

/-- With one type too many at the opening, a poll skips the second of two matching events. -/
theorem pollBatch_overfull {worker : Worker format}
    (overfull : worker.Overfull (Worker.heldEvents 65534) (Worker.numberedTagged 65536)) :
    (tagSubscription 0).pollBatch 65537 worker.snapshot 4 =
      some (.ok [⟨65535, Worker.numberedTagged 65534⟩], tagSubscription 65537) := by
  obtain ⟨reads, planned, yields⟩ := @Worker.Overfull.plan_whole _ _ none overfull (by simp)
  rw [Subscription.pollBatch, if_neg (by decide), tagSubscription, planned]
  simp only [Option.bind_eq_bind, Option.bind_some, Subscription.fill_eq yields]
  rfl

/-- A poll, before it and behind it. -/
def reopenedPoll : List FeedStep := [.callPoll, .loadMark, .read .between]

theorem reopened_poll_loses_event :
    ∃ (index : IndexSet flatTable) (last : Feed flatTable),
      Worker.Opened Seglog.crc32 (singleSegment (Worker.stoppedEvents 65534)) index ∧
        Histories.run (step Seglog.crc32 4) (new (.reopened index) (tagSubscription 0))
          reopenedPoll = some last ∧
        last.sub.cursor = 65537 ∧ last.delivered = [⟨65535, Worker.numberedTagged 65534⟩] ∧
        scanOracle (ofTag letterB) 0 65537 last.worker.set.events =
          [⟨65535, Worker.numberedTagged 65534⟩, ⟨65537, Worker.numberedTagged 65536⟩] := by
  obtain ⟨index, opened, overfull⟩ := Worker.stoppedEvents_overfull
  have watermark := overfull.watermark_eq
  have polled := pollBatch_overfull overfull
  rw [Worker.length_heldEvents] at watermark
  refine ⟨index, ⟨.reopened index, false, tagSubscription 65537, .idle,
    [⟨65535, Worker.numberedTagged 65534⟩], false, false⟩, opened, ?_, rfl, rfl, ?_⟩
  · simp only [reopenedPoll, Histories.run, step, new, Worker.shown, Option.map_some, poll,
      watermark, polled]
    rfl
  · rw [overfull.events_eq]
    exact Worker.scanOracle_stoppedEvents 65534 0 65537

/-- Batches of one event, in the middle of a commit, behind a rollover and after the close. -/
def rolledFeed : List FeedStep :=
  [.write (.request ⟨[Writer.taggedEvent, Worker.untaggedEvent], none⟩),
    .write (.commit .appended 7), .callNext, .loadMark,
    .write (.request ⟨[Writer.taggedEvent, Writer.taggedEvent], none⟩), .read (.feeding 1),
    .write (.commit .appended 7), .callPoll, .loadMark, .read .between,
    .write (.request ⟨[Writer.taggedEvent], none⟩), .write (.commit .rolledOver 7), .close,
    .callNext, .loadMark, .read .between, .callNext, .loadMark, .read .between,
    .callNext, .loadMark, .read .between, .checkClosed, .loadMark, .read .between]

/-- A subscriber of an empty store, before it. -/
def rolledStart : Feed flatTable :=
  new (.start Worker.plainConfig Writer.emptyLog (IndexSet.new flatTable 1))
    ⟨ofTag letterB, 0, 1, Nat.one_pos⟩

theorem nothing_lost_or_repeated_rolled :
    ∃ last, Histories.run (step Seglog.crc32 4) rolledStart rolledFeed = some last ∧
      last.delivered.map Sequenced.position = [1, 3, 4, 5] ∧
      last.delivered = scanOracle (ofTag letterB) 0 5 last.worker.set.events := by
  have computed : (Histories.run (step Seglog.crc32 4) rolledStart rolledFeed).any (fun last =>
      decide (last.delivered.map Sequenced.position = [1, 3, 4, 5] ∧ last.ended = true ∧
        last.worker.watermark = 5)) = true := by
    decide +kernel
  obtain ⟨last, ran, shown⟩ := (Option.any_eq_true _ _).mp computed
  obtain ⟨positions, ended, watermark⟩ := of_decide_eq_true shown
  have allowed : Allowed (step Seglog.crc32 4) StepAllowed rolledStart rolledFeed := by
    decide +kernel
  obtain ⟨-, -, whole, -, -⟩ := nothing_lost_or_repeated flatTable_lawful Worker.emptyLog_opened
    (by decide) Worker.plainConfig ⟨ofTag letterB, 0, 1, Nat.one_pos⟩ allowed ran
  refine ⟨last, ran, positions, ?_⟩
  rw [← watermark]
  exact whole ended

end Feed

end Read

end Tephra
