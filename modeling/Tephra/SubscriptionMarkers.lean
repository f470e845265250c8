import Tephra.ReadResponses

/-!
# The caught-up markers of a subscription

A subscription thread of the server polls, sends a batch that it got in frames, and
at the live edge announces once that it has caught up, with the position of its
cursor.  Then it waits for the watermark and polls again.  The writer takes requests and
commits batches between any two of these steps.
-/

namespace Tephra

namespace Server

open Histories Index Positions Read SortedMaps Writer.CommitSeam

/-- A frame of a subscription. -/
inductive SubscribeFrame
  | readEvents (events : List Pb.SequencedEvent)
  | caughtUp (watermark : Nat)
  | error (source : ReadError)

/-- What a bounded wait ends with. -/
inductive WaitOutcome
  | advanced
  | timedOut
  | closed
deriving DecidableEq, Repr

/-- Where the loop of `run_subscribe` stands. -/
inductive SubscribePhase
  /-- Before `should_continue`. -/
  | top
  /-- In `poll_batch`, before the load of the watermark. -/
  | polling
  /-- In `poll_batch`, with a watermark. -/
  | loaded (watermark : Nat)
  /-- In `send_event_batch`, with the events that are left and the frame so far. -/
  | sending (rest : List Sequenced) (batch : Batch)
  /-- Behind an empty poll. -/
  | atEdge
  | waiting
  | ended

/-- A store with its writer, and a subscription thread with the frames that its connection has
taken. -/
structure SubscribeWorker (format : MapFormat) where
  worker : Worker format
  closed : Bool
  sub : Subscription
  announced : Bool
  phase : SubscribePhase
  frames : List SubscribeFrame

inductive SubscribeStep
  /-- The writer takes a request, or commits its batch. -/
  | write (label : WorkerStep)
  | close
  | check (goesOn : Bool)
  | loadMark
  /-- Load a snapshot and read. -/
  | read (moment : Moment)
  /-- A poll that fails, and whether its error is taken. -/
  | fail (source : ReadError) (queued : Bool)
  /-- One turn of the loop over a batch, or its end, and whether a frame is taken. -/
  | send (queued : Bool)
  | announce (queued : Bool)
  | wait (outcome : WaitOutcome)

namespace SubscribeWorker

variable {format : MapFormat}

/-- `run_subscribe`, before its first turn. -/
def new (worker : Worker format) (sub : Subscription) : SubscribeWorker format :=
  ⟨worker, false, sub, false, .top, []⟩

/-- Send a frame and go on, or end. -/
def sendBulk (self : SubscribeWorker format) (frame : SubscribeFrame) (queued : Bool)
    (phase : SubscribePhase) : SubscribeWorker format :=
  if queued then { self with frames := self.frames ++ [frame], phase := phase }
  else { self with phase := .ended }

/-- Behind `send_event_batch` the next edge is announced again. -/
def sendRest (config : ServerConfig) (self : SubscribeWorker format) (queued : Bool) :
    List Sequenced → Batch → SubscribeWorker format
  | [], batch =>
      if batch.events.isEmpty then { self with phase := .top, announced := false }
      else
        let sent := self.sendBulk (.readEvents batch.events) queued .top
        if queued then { sent with announced := false } else sent
  | item :: rest, batch =>
      let batch := batch.push item
      if batch.full config then
        self.sendBulk (.readEvents batch.events) queued (.sending rest .empty)
      else
        { self with phase := .sending rest batch }

/-- Read a batch from a snapshot. -/
def poll (scanBias : Nat) (self : SubscribeWorker format) (watermark : Nat)
    (snapshot : Snapshot (IndexSegment format)) : SubscribeWorker format :=
  match self.sub.pollBatch watermark snapshot scanBias with
  | none => { self with phase := .ended }
  | some (.error source, sub) => { self with sub := sub }.sendBulk (.error source) true .ended
  | some (.ok batch, sub) =>
      { self with sub := sub, phase := if batch.isEmpty then .atEdge else .sending batch .empty }

/-- A step of the writer, which takes none after its close, or of the thread. -/
def step (crc : List UInt8 → UInt32) (config : ServerConfig) (scanBias : Nat)
    (self : SubscribeWorker format) : SubscribeStep → Option (SubscribeWorker format)
  | .write label =>
      if self.closed then none
      else (self.worker.step crc label).map fun worker => { self with worker := worker }
  | .close => if self.closed then none else some { self with closed := true }
  | .check goesOn =>
      match self.phase with
      | .top => some { self with phase := if goesOn then .polling else .ended }
      | _ => none
  | .loadMark =>
      match self.phase with
      | .polling => some { self with phase := .loaded self.worker.watermark }
      | _ => none
  | .read moment =>
      match self.phase with
      | .loaded watermark => (self.worker.shown moment).map (self.poll scanBias watermark)
      | _ => none
  | .fail source queued =>
      match self.phase with
      | .loaded _ => some (self.sendBulk (.error source) queued .ended)
      | _ => none
  | .send queued =>
      match self.phase with
      | .sending rest batch => some (self.sendRest config queued rest batch)
      | _ => none
  | .announce queued =>
      match self.phase with
      | .atEdge =>
          if self.announced then some { self with phase := .waiting }
          else
            let sent := self.sendBulk (.caughtUp self.sub.cursor) queued .waiting
            some (if queued then { sent with announced := true } else sent)
      | _ => none
  | .wait outcome =>
      match self.phase, outcome with
      | .waiting, .advanced =>
          if self.worker.watermark > self.sub.cursor then some { self with phase := .top } else none
      | .waiting, .timedOut => some { self with phase := .top }
      | .waiting, .closed => if self.closed then some { self with phase := .ended } else none
      | _, _ => none

/-- What is asked of a step: no append fails behind its rollover. -/
def StepAllowed (self : SubscribeWorker format) : SubscribeStep → Prop
  | .write label => self.worker.WriteAllowed label
  | .read moment => self.worker.LoadAllowed moment
  | _ => True

instance (self : SubscribeWorker format) (label : SubscribeStep) :
    Decidable (self.StepAllowed label) :=
  match label with
  | .write _ => inferInstanceAs (Decidable (Worker.WriteAllowed _ _))
  | .read _ => inferInstanceAs (Decidable (Worker.LoadAllowed _ _))
  | .close | .check _ | .loadMark | .fail _ _ | .send _ | .announce _ | .wait _ =>
      inferInstanceAs (Decidable True)

end SubscribeWorker

/-- The events of a frame. -/
def SubscribeFrame.events : SubscribeFrame → List Pb.SequencedEvent
  | .readEvents events => events
  | _ => []

/-- The events of frames, in order. -/
def eventsOf (frames : List SubscribeFrame) : List Pb.SequencedEvent :=
  frames.flatMap SubscribeFrame.events

@[simp]
theorem eventsOf_nil : eventsOf [] = [] := rfl

@[simp]
theorem eventsOf_append (front back : List SubscribeFrame) :
    eventsOf (front ++ back) = eventsOf front ++ eventsOf back :=
  List.flatMap_append

@[simp]
theorem eventsOf_cons (frame : SubscribeFrame) (frames : List SubscribeFrame) :
    eventsOf (frame :: frames) = frame.events ++ eventsOf frames :=
  List.flatMap_cons

/-- A place in a list with one more element is that element or a former place. -/
theorem snoc_split {α : Type} {list before after : List α} {last here : α}
    (split : list ++ [last] = before ++ here :: after) :
    (list = before ∧ last = here ∧ after = []) ∨
      ∃ between, after = between ++ [last] ∧ list = before ++ here :: between := by
  rcases List.eq_nil_or_concat after with rfl | ⟨between, final, rfl⟩
  · obtain ⟨same, isLast⟩ := List.append_inj' split rfl
    exact Or.inl ⟨same, by simpa using isLast, rfl⟩
  · rw [List.concat_eq_append, ← List.cons_append, ← List.append_assoc] at split
    obtain ⟨same, isLast⟩ := List.append_inj' split rfl
    obtain rfl : last = final := by simpa using isLast
    exact Or.inr ⟨between, List.concat_eq_append, same⟩

/-- Behind every marker come events that were sent, or those still to send. -/
def Armed (frames : List SubscribeFrame) (unsent : List Pb.SequencedEvent) : Prop :=
  ∀ before mark after, frames = before ++ .caughtUp mark :: after →
    eventsOf after ++ unsent ≠ []

/-- Markers are in order, with events between any two of them. -/
def Spaced (frames : List SubscribeFrame) : Prop :=
  ∀ before mark between next after,
    frames = before ++ .caughtUp mark :: (between ++ .caughtUp next :: after) →
      mark ≤ next ∧ eventsOf between ≠ []

/-- In front of every marker are the events up to it. -/
def Marked (eventsUpTo : Nat → List Pb.SequencedEvent) (frames : List SubscribeFrame) : Prop :=
  ∀ before mark after, frames = before ++ .caughtUp mark :: after →
    eventsOf before = eventsUpTo mark

section Frames

variable {frames : List SubscribeFrame} {frame : SubscribeFrame}

theorem armed_of_unsent {unsent : List Pb.SequencedEvent} (some : unsent ≠ []) :
    Armed frames unsent := by
  intro before mark after _
  simp [some]

theorem Armed.sent {events unsent : List Pb.SequencedEvent}
    (armed : Armed frames (events ++ unsent)) :
    Armed (frames ++ [.readEvents events]) unsent := by
  intro before mark after split
  rcases snoc_split split with ⟨_, isMark, _⟩ | ⟨between, rfl, earlier⟩
  · simp at isMark
  · simpa [SubscribeFrame.events] using armed before mark between earlier

theorem Spaced.snoc (spaced : Spaced frames) (other : ∀ mark, frame ≠ .caughtUp mark) :
    Spaced (frames ++ [frame]) := by
  intro before mark between next after split
  rw [← List.cons_append, ← List.append_assoc] at split
  rcases snoc_split split with ⟨_, isMark, _⟩ | ⟨rest, rfl, earlier⟩
  · exact absurd isMark (other next)
  · apply spaced before mark between next rest
    rw [earlier, List.append_assoc, List.cons_append]

/-- A marker may come when events were sent behind the last one. -/
theorem Spaced.mark (spaced : Spaced frames) (armed : Armed frames []) {cursor : Nat}
    (below : ∀ mark, .caughtUp mark ∈ frames → mark ≤ cursor) :
    Spaced (frames ++ [.caughtUp cursor]) := by
  intro before mark between next after split
  rw [← List.cons_append, ← List.append_assoc] at split
  rcases snoc_split split with ⟨rfl, isMark, _⟩ | ⟨rest, rfl, earlier⟩
  · obtain rfl : cursor = next := by simpa using isMark
    constructor
    · apply below
      simp
    · simpa using armed before mark between rfl
  · apply spaced before mark between next rest
    rw [earlier, List.append_assoc, List.cons_append]

theorem Marked.snoc {eventsUpTo : Nat → List Pb.SequencedEvent}
    (marked : Marked eventsUpTo frames) (other : ∀ mark, frame ≠ .caughtUp mark) :
    Marked eventsUpTo (frames ++ [frame]) := by
  intro before mark after split
  rcases snoc_split split with ⟨_, isMark, _⟩ | ⟨between, rfl, earlier⟩
  · exact absurd isMark (other mark)
  · exact marked before mark between earlier

theorem Marked.mark {eventsUpTo : Nat → List Pb.SequencedEvent}
    (marked : Marked eventsUpTo frames) {cursor : Nat}
    (sent : eventsOf frames = eventsUpTo cursor) :
    Marked eventsUpTo (frames ++ [.caughtUp cursor]) := by
  intro before mark after split
  rcases snoc_split split with ⟨rfl, isMark, _⟩ | ⟨between, rfl, earlier⟩
  · obtain rfl : cursor = mark := by simpa using isMark
    exact sent
  · exact marked before mark between earlier

end Frames

/-- Events as they go over the wire. -/
def onWire (items : List Sequenced) : List Pb.SequencedEvent :=
  (Batch.of items).events

@[simp]
theorem onWire_nil : onWire [] = [] := rfl

@[simp]
theorem onWire_append (front back : List Sequenced) :
    onWire (front ++ back) = onWire front ++ onWire back := by
  simp [onWire, Batch.of]

namespace SubscribeWorker

variable {format : MapFormat}

/-- The events that were polled and not sent yet. -/
def unsent (self : SubscribeWorker format) : List Pb.SequencedEvent :=
  match self.phase with
  | .sending rest batch => batch.events ++ onWire rest
  | _ => []

/-- What holds of a subscription thread that started behind a position. -/
structure Truthful (query : Query) (start : Nat) (thread : SubscribeWorker format) : Prop where
  serves : thread.worker.Serves
  query_eq : thread.sub.query = query
  start_le : start ≤ thread.sub.cursor
  cursor_le : thread.sub.cursor = start ∨ thread.sub.cursor ≤ thread.worker.watermark
  loaded_le : ∀ watermark, thread.phase = .loaded watermark → watermark ≤ thread.worker.watermark
  inOrder : eventsOf thread.frames <+:
    onWire (scanOracle query start thread.sub.cursor thread.worker.set.events)
  whole : thread.phase ≠ .ended → eventsOf thread.frames ++ thread.unsent =
    onWire (scanOracle query start thread.sub.cursor thread.worker.set.events)
  armed : thread.phase ≠ .ended →
    (thread.announced = false ∨ ∃ rest batch, thread.phase = .sending rest batch) →
      Armed thread.frames thread.unsent
  spaced : Spaced thread.frames
  marked : Marked (fun mark => onWire (scanOracle query start mark thread.worker.set.events))
    thread.frames
  behind : ∀ mark, .caughtUp mark ∈ thread.frames → mark ≤ thread.sub.cursor

namespace Truthful

variable {query : Query} {start scanBias : Nat} {config : ServerConfig}
  {crc : List UInt8 → UInt32} {thread next : SubscribeWorker format}

/-- What is in front of the watermark does not change when the writer commits. -/
theorem scanOracle_log (truthful : Truthful query start thread) {upto : Nat}
    (below : upto ≤ thread.sub.cursor) (more : List Event) :
    scanOracle query start upto (thread.worker.set.events ++ more) =
      scanOracle query start upto thread.worker.set.events := by
  have published := truthful.serves.watermark_eq
  have started : Log.firstPosition = 1 := rfl
  have cursor_le := truthful.cursor_le
  apply scanOracle_append
  omega

theorem write (truthful : Truthful query start thread) {worker : Worker format}
    (serves : worker.Serves) (advances : thread.worker.Advances worker) :
    Truthful query start { thread with worker := worker } := by
  obtain ⟨⟨more, grown⟩, later⟩ := advances
  have unchanged := truthful.scanOracle_log le_rfl more
  rw [← grown] at unchanged
  refine { truthful with
    serves := serves
    cursor_le := truthful.cursor_le.imp_right fun below => below.trans later
    loaded_le := fun watermark loaded => (truthful.loaded_le watermark loaded).trans later
    inOrder := ?_
    whole := ?_
    marked := ?_ }
  · rw [unchanged]
    exact truthful.inOrder
  · rw [unchanged]
    exact truthful.whole
  · intro before mark after split
    dsimp only at split ⊢
    have below := truthful.behind mark (by simp [split])
    rw [grown, truthful.scanOracle_log below]
    exact truthful.marked before mark after split

theorem quiet (truthful : Truthful query start thread) {phase : SubscribePhase}
    (going : thread.phase ≠ .ended) (nothing : thread.unsent = [])
    (still : ∀ rest batch, phase ≠ .sending rest batch)
    (loaded : ∀ watermark, phase = .loaded watermark → watermark ≤ thread.worker.watermark) :
    Truthful query start { thread with phase := phase } := by
  have silent : unsent { thread with phase := phase } = [] := by
    unfold unsent
    split
    · rename_i rest batch sending
      exact absurd sending (still rest batch)
    · rfl
  refine { truthful with loaded_le := loaded, whole := ?_, armed := ?_ }
  · intro _
    rw [silent, ← nothing]
    exact truthful.whole going
  · rintro _ (fresh | ⟨rest, batch, sending⟩)
    · rw [silent, ← nothing]
      exact truthful.armed going (Or.inl fresh)
    · exact absurd sending (still rest batch)

theorem stop (truthful : Truthful query start thread) :
    Truthful query start { thread with phase := .ended } :=
  { truthful with
    loaded_le := by simp
    whole := by simp
    armed := by simp }

theorem fail (truthful : Truthful query start thread) (source : ReadError) (queued : Bool) :
    Truthful query start (thread.sendBulk (.error source) queued .ended) := by
  unfold sendBulk
  split
  · refine { truthful with
      loaded_le := by simp
      inOrder := ?_
      whole := by simp
      armed := by simp
      spaced := truthful.spaced.snoc (by simp)
      marked := truthful.marked.snoc (by simp)
      behind := ?_ }
    · simpa [SubscribeFrame.events] using truthful.inOrder
    · simpa using truthful.behind
  · exact truthful.stop

/-- A batch of all matching events up to a new cursor is there to send. -/
theorem polled (truthful : Truthful query start thread) (going : thread.phase ≠ .ended)
    (nothing : thread.unsent = []) {cursor : Nat} (forward : thread.sub.cursor ≤ cursor)
    (behind : cursor = thread.sub.cursor ∨ cursor ≤ thread.worker.watermark) {batch : List Sequenced}
    (delivers : batch = scanOracle query thread.sub.cursor cursor thread.worker.set.events) :
    Truthful query start { thread with
      sub := { thread.sub with cursor := cursor }
      phase := if batch.isEmpty then .atEdge else .sending batch .empty } := by
  have cursor_le := truthful.cursor_le
  have grown : onWire (scanOracle query start cursor thread.worker.set.events) =
      eventsOf thread.frames ++ onWire batch := by
    rw [scanOracle_split truthful.start_le forward, onWire_append, ← truthful.whole going,
      nothing, List.append_nil, delivers]
  have silent : unsent { thread with
      sub := { thread.sub with cursor := cursor }
      phase := if batch.isEmpty then .atEdge else .sending batch .empty } = onWire batch := by
    cases batch <;> simp [unsent, Batch.empty]
  refine { truthful with
    start_le := truthful.start_le.trans forward
    cursor_le := by dsimp only; omega
    loaded_le := by split <;> simp
    inOrder := ?_
    whole := ?_
    armed := ?_
    behind := fun mark sent => (truthful.behind mark sent).trans forward }
  · dsimp only
    rw [grown]
    exact List.prefix_append _ _
  · intro _
    rw [silent, grown]
  · intro _ unannounced
    rw [silent]
    cases batch with
    | cons item items => exact armed_of_unsent (by simp [onWire, Batch.of])
    | nil =>
        rcases unannounced with fresh | ⟨rest, sending, phase⟩
        · have armed := truthful.armed going (Or.inl fresh)
          rwa [nothing] at armed
        · simp at phase

theorem sent (truthful : Truthful query start thread) {rest : List Sequenced} {batch : Batch}
    (sending : thread.phase = .sending rest batch) {events left : List Pb.SequencedEvent}
    (split : thread.unsent = events ++ left) {phase : SubscribePhase} {announced : Bool}
    (leaves : unsent { thread with phase := phase } = left)
    (notLoaded : ∀ watermark, phase ≠ .loaded watermark) :
    Truthful query start { thread with
      frames := thread.frames ++ [.readEvents events], phase := phase, announced := announced } := by
  have going : thread.phase ≠ .ended := by simp [sending]
  have whole := truthful.whole going
  have armed := truthful.armed going (Or.inr ⟨rest, batch, sending⟩)
  have extended : eventsOf (thread.frames ++ [.readEvents events]) ++ left =
      onWire (scanOracle query start thread.sub.cursor thread.worker.set.events) := by
    rw [← whole, split]
    simp [SubscribeFrame.events]
  refine { truthful with
    loaded_le := fun watermark loaded => absurd loaded (notLoaded watermark)
    inOrder := ?_
    whole := ?_
    armed := ?_
    spaced := truthful.spaced.snoc (by simp)
    marked := truthful.marked.snoc (by simp)
    behind := ?_ }
  · exact ⟨left, extended⟩
  · intro _
    exact (congrArg _ leaves).trans extended
  · intro _ _
    change Armed _ (unsent { thread with phase := phase })
    rw [leaves]
    rw [split] at armed
    exact armed.sent
  · simpa using truthful.behind

/-- The events that are left are grouped another way. -/
theorem regroup (truthful : Truthful query start thread) {rest : List Sequenced} {batch : Batch}
    (sending : thread.phase = .sending rest batch) {phase : SubscribePhase} {announced : Bool}
    (leaves : unsent { thread with phase := phase } = thread.unsent)
    (notLoaded : ∀ watermark, phase ≠ .loaded watermark) :
    Truthful query start { thread with phase := phase, announced := announced } := by
  have going : thread.phase ≠ .ended := by simp [sending]
  have whole := truthful.whole going
  have armed := truthful.armed going (Or.inr ⟨rest, batch, sending⟩)
  rw [← leaves] at whole armed
  exact { truthful with
    loaded_le := fun watermark loaded => absurd loaded (notLoaded watermark)
    whole := fun _ => whole
    armed := fun _ _ => armed }

theorem sendRest (truthful : Truthful query start thread) {rest : List Sequenced} {batch : Batch}
    (sending : thread.phase = .sending rest batch) (queued : Bool) :
    Truthful query start (thread.sendRest config queued rest batch) := by
  have unsentIs : thread.unsent = batch.events ++ onWire rest := by
    rw [unsent, sending]
  cases rest with
  | nil =>
      rw [SubscribeWorker.sendRest]
      by_cases empty : batch.events.isEmpty = true
      · rw [if_pos empty]
        apply truthful.regroup sending
        · rw [unsentIs]
          simpa [unsent] using empty.symm
        · simp
      · rw [if_neg empty]
        cases queued with
        | false => exact truthful.stop
        | true => exact truthful.sent sending unsentIs rfl (by simp [sendBulk])
  | cons item rest =>
      have pushed : thread.unsent = (batch.push item).events ++ onWire rest := by
        simp [unsentIs, onWire, Batch.push, Batch.of]
      simp only [SubscribeWorker.sendRest]
      split
      · cases queued with
        | false => exact truthful.stop
        | true => exact truthful.sent sending pushed rfl (by simp)
      · exact truthful.regroup sending pushed.symm (by simp)

/-- The first announcement of an edge, with the position of the cursor. -/
theorem announce (truthful : Truthful query start thread) (atEdge : thread.phase = .atEdge)
    (fresh : thread.announced = false) :
    Truthful query start { thread with
      frames := thread.frames ++ [.caughtUp thread.sub.cursor]
      phase := .waiting
      announced := true } := by
  have going : thread.phase ≠ .ended := by simp [atEdge]
  have nothing : thread.unsent = [] := by rw [unsent, atEdge]
  have whole := truthful.whole going
  have armed := truthful.armed going (Or.inl fresh)
  rw [nothing, List.append_nil] at whole
  rw [nothing] at armed
  refine { truthful with
    loaded_le := by simp
    inOrder := ?_
    whole := ?_
    armed := by simp
    spaced := truthful.spaced.mark armed truthful.behind
    marked := truthful.marked.mark whole
    behind := ?_ }
  · simpa [SubscribeFrame.events] using truthful.inOrder
  · intro _
    simpa [SubscribeFrame.events, unsent] using whole
  · intro mark member
    rcases List.mem_append.mp member with before | last
    · exact truthful.behind mark before
    · simp at last
      exact last.le

/-- A poll delivers what the oracle has behind the cursor. -/
theorem read (truthful : Truthful query start thread) {moment : Moment}
    (allowed : thread.StepAllowed (.read moment))
    (stepped : thread.step crc config scanBias (.read moment) = some next) :
    Truthful query start next := by
  rw [SubscribeWorker.step] at stepped
  cases phase : thread.phase with
  | loaded watermark =>
      have loaded := truthful.loaded_le watermark phase
      simp only [phase] at stepped
      obtain ⟨snapshot, shown, rfl⟩ := Option.map_eq_some_iff.mp stepped
      obtain ⟨cursor, polled, forward, behind, -⟩ :=
        Subscription.poll_served truthful.serves allowed shown loaded thread.sub scanBias
      rw [poll, polled]
      apply truthful.polled
      · simp [phase]
      · rw [unsent, phase]
      · exact forward
      · exact behind.imp_right loaded.trans'
      · rw [truthful.query_eq]
  | _ => simp [phase] at stepped

theorem step (lawful : format.Lawful) (truthful : Truthful query start thread)
    {label : SubscribeStep} (allowed : thread.StepAllowed label)
    (stepped : thread.step crc config scanBias label = some next) :
    Truthful query start next := by
  cases label with
  | write label =>
      simp only [SubscribeWorker.step, Option.ite_none_left_eq_some] at stepped
      obtain ⟨_, stepped⟩ := stepped
      obtain ⟨worker, taken, rfl⟩ := Option.map_eq_some_iff.mp stepped
      obtain ⟨serves, advances⟩ := truthful.serves.step lawful allowed taken
      exact truthful.write serves advances
  | close =>
      simp only [SubscribeWorker.step, Option.ite_none_left_eq_some, Option.some.injEq] at stepped
      obtain ⟨_, rfl⟩ := stepped
      exact { truthful with }
  | read moment => exact truthful.read allowed stepped
  | check goesOn =>
      cases phase : thread.phase <;> simp [SubscribeWorker.step, phase] at stepped
      subst stepped
      cases goesOn with
      | false => exact truthful.stop
      | true => exact truthful.quiet (by simp [phase]) (by rw [unsent, phase]) (by simp) (by simp)
  | loadMark =>
      cases phase : thread.phase <;> simp [SubscribeWorker.step, phase] at stepped
      subst stepped
      apply truthful.quiet
      · simp [phase]
      · rw [unsent, phase]
      · simp
      · rintro watermark ⟨⟩
        exact le_rfl
  | fail source queued =>
      cases phase : thread.phase <;> simp [SubscribeWorker.step, phase] at stepped
      subst stepped
      exact truthful.fail source queued
  | send queued =>
      cases phase : thread.phase <;> simp [SubscribeWorker.step, phase] at stepped
      subst stepped
      exact truthful.sendRest phase queued
  | announce queued =>
      cases phase : thread.phase <;> simp [SubscribeWorker.step, phase] at stepped
      split at stepped
      · obtain rfl := Option.some.inj stepped
        exact truthful.quiet (by simp [phase]) (by rw [unsent, phase]) (by simp) (by simp)
      · rename_i fresh
        obtain rfl := Option.some.inj stepped
        cases queued with
        | false => exact truthful.stop
        | true => exact truthful.announce phase (by simpa using fresh)
  | wait outcome =>
      have going : thread.phase = .waiting := by
        cases phase : thread.phase <;> simp [SubscribeWorker.step, phase] at stepped ⊢
      have back := @quiet _ _ _ _ truthful .top (by simp [going]) (by rw [unsent, going]) (by simp)
        (by simp)
      cases outcome with
      | advanced =>
          simp only [SubscribeWorker.step, going, Option.ite_none_right_eq_some,
            Option.some.injEq] at stepped
          obtain ⟨_, rfl⟩ := stepped
          exact back
      | timedOut =>
          simp only [SubscribeWorker.step, going, Option.some.injEq] at stepped
          subst stepped
          exact back
      | closed =>
          simp only [SubscribeWorker.step, going, Option.ite_none_right_eq_some,
            Option.some.injEq] at stepped
          obtain ⟨_, rfl⟩ := stepped
          exact truthful.stop

theorem new {worker : Worker format} (serves : worker.Serves) (sub : Subscription) :
    Truthful sub.query sub.cursor (new worker sub) where
  serves := serves
  query_eq := rfl
  start_le := le_rfl
  cursor_le := Or.inl rfl
  loaded_le := by simp [SubscribeWorker.new]
  inOrder := List.nil_prefix
  whole := by
    intro _
    rw [SubscribeWorker.new, Reads.scanOracle_eq_nil le_rfl]
    rfl
  armed := by simp [Armed, SubscribeWorker.new]
  spaced := by simp [Spaced, SubscribeWorker.new]
  marked := by simp [Marked, SubscribeWorker.new]
  behind := by simp [SubscribeWorker.new]

theorem run (lawful : format.Lawful) (truthful : Truthful query start thread)
    {labels : List SubscribeStep}
    (allowed : Allowed (SubscribeWorker.step crc config scanBias) StepAllowed thread labels)
    (ran : Histories.run (SubscribeWorker.step crc config scanBias) thread labels = some next) :
    Truthful query start next := by
  apply invariant_of_run _ truthful allowed ran
  intro before label after kept meets stepped
  exact kept.step lawful meets stepped

end Truthful

/-- The markers of a subscription tell the truth, along every run of the writer and the thread,
if the active segment of the log that was opened does not have too many types and no append
fails behind its rollover. -/
theorem markers_truthful (lawful : format.Lawful) {crc : List UInt8 → UInt32}
    {set : SegmentedLog} {index : IndexSet format} (opened : Worker.Opened crc set index)
    (few : (distinctTypes set.active.events).length ≤ maxTypeId + 1) (cfg : WriterConfig)
    (sub : Subscription) {config : ServerConfig} {scanBias : Nat} {labels : List SubscribeStep}
    {last : SubscribeWorker format}
    (allowed : Allowed (step crc config scanBias) StepAllowed (new (.start cfg set index) sub)
      labels)
    (ran : run (step crc config scanBias) (new (.start cfg set index) sub) labels = some last) :
    eventsOf last.frames <+: onWire
        (scanOracle sub.query sub.cursor last.worker.watermark last.worker.set.events) ∧
      ((eventsOf last.frames).Pairwise fun first second => first.position < second.position) ∧
      (∀ before mark after, last.frames = before ++ .caughtUp mark :: after →
        eventsOf before = onWire (scanOracle sub.query sub.cursor mark last.worker.set.events)) ∧
      ∀ before mark between next after,
        last.frames = before ++ .caughtUp mark :: (between ++ .caughtUp next :: after) →
          mark ≤ next ∧ eventsOf between ≠ [] := by
  have fresh := Truthful.new (opened.serves_start lawful few cfg) sub
  have truthful := fresh.run lawful allowed ran
  refine ⟨?_, ?_, truthful.marked, truthful.spaced⟩
  · apply truthful.inOrder.trans
    rcases truthful.cursor_le with same | below
    · rw [same, Reads.scanOracle_eq_nil le_rfl]
      exact List.nil_prefix
    · rw [scanOracle_split truthful.start_le below, onWire_append]
      exact List.prefix_append _ _
  · apply List.Pairwise.sublist truthful.inOrder.sublist
    rw [onWire, Batch.of, List.pairwise_map]
    exact pairwise_scanOracle ..

theorem step_read {self : SubscribeWorker format} {crc : List UInt8 → UInt32}
    {config : ServerConfig} {scanBias watermark : Nat} {batch : List Sequenced}
    {sub : Subscription} (phase : self.phase = .loaded watermark)
    (polled : self.sub.pollBatch watermark self.worker.snapshot scanBias = some (.ok batch, sub)) :
    self.step crc config scanBias (.read .between) = some { self with
      sub := sub, phase := if batch.isEmpty then .atEdge else .sending batch .empty } := by
  simp only [step, phase, Worker.shown, Option.map_some, poll, polled]

/-- A store that was opened with one type too many is announced as read to its end. -/
def reopenedEdge : List SubscribeStep :=
  [.check true, .loadMark, .read .between, .send true, .send true, .check true, .loadMark,
    .read .between, .announce true]

/-- The second of two matching events was not sent in front of the marker. -/
theorem reopened_marker_lies :
    ∃ (index : IndexSet flatTable) (last : SubscribeWorker flatTable),
      Worker.Opened Seglog.crc32 (singleSegment (Worker.stoppedEvents 65534)) index ∧
        run (step Seglog.crc32 ⟨64, 1, 1⟩ 4) (new (.reopened index) (Feed.tagSubscription 0))
          reopenedEdge = some last ∧
        last.frames = [.readEvents (onWire [⟨65535, Worker.numberedTagged 65534⟩]),
          .caughtUp 65537] ∧
        scanOracle (ofTag letterB) 0 65537 last.worker.set.events =
          [⟨65535, Worker.numberedTagged 65534⟩, ⟨65537, Worker.numberedTagged 65536⟩] := by
  obtain ⟨index, opened, overfull⟩ := Worker.stoppedEvents_overfull
  have watermark : (Worker.reopened index).watermark = 65537 := by
    rw [overfull.watermark_eq, Worker.length_heldEvents]
  have polled : (Feed.tagSubscription 0).pollBatch (Worker.reopened index).watermark
      (Worker.reopened index).snapshot 4 =
        some (.ok [⟨65535, Worker.numberedTagged 65534⟩], Feed.tagSubscription 65537) := by
    rw [watermark]
    exact Feed.pollBatch_overfull overfull
  have again : (Feed.tagSubscription 65537).pollBatch (Worker.reopened index).watermark
      (Worker.reopened index).snapshot 4 = some (.ok [], Feed.tagSubscription 65537) := by
    rw [watermark]
    exact if_pos le_rfl
  refine ⟨index, _, opened, run_cons rfl <| run_cons rfl <| run_cons (step_read rfl polled) <|
    run_cons rfl <| run_cons rfl <| run_cons rfl <| run_cons rfl <|
      run_cons (step_read rfl again) <| run_cons rfl rfl, rfl, ?_⟩
  change scanOracle _ _ _ (Worker.reopened index).set.events = _
  rw [overfull.events_eq]
  exact Worker.scanOracle_stoppedEvents 65534 0 65537

/-- Commits around the polls, one of them in the middle of a read, and a rollover. -/
def rolledEdges : List SubscribeStep :=
  [.write (.request ⟨[Writer.taggedEvent, Worker.untaggedEvent], none⟩),
    .write (.commit .appended 7), .check true, .loadMark,
    .write (.request ⟨[Writer.taggedEvent], none⟩), .read (.feeding 1), .send true, .send true,
    .check true, .loadMark, .read (.feeding 0), .announce true, .write (.commit .rolledOver 7),
    .wait .advanced, .check true, .loadMark, .read .between, .send true, .send true,
    .check true, .loadMark, .read .between, .announce true]

def rolledStart : SubscribeWorker flatTable :=
  new (.start Worker.plainConfig Writer.emptyLog (IndexSet.new flatTable 1))
    (Feed.tagSubscription 0)

/-- Two batches, with a marker behind each of them. -/
def showsEdges : List SubscribeFrame → Bool
  | [.readEvents _, .caughtUp 2, .readEvents _, .caughtUp 3] => true
  | _ => false

theorem markers_truthful_rolled :
    ∃ last, run (step Seglog.crc32 ⟨64, 1, 1⟩ 4) rolledStart rolledEdges = some last ∧
      ∃ first second, last.frames =
          [.readEvents first, .caughtUp 2, .readEvents second, .caughtUp 3] ∧
        first = onWire (scanOracle (ofTag letterB) 0 2 last.worker.set.events) ∧
        first ++ second = onWire (scanOracle (ofTag letterB) 0 3 last.worker.set.events) ∧
        second ≠ [] := by
  have computed : (run (step Seglog.crc32 ⟨64, 1, 1⟩ 4) rolledStart rolledEdges).any
      (fun last => showsEdges last.frames) = true := by
    decide +kernel
  obtain ⟨last, ran, shown⟩ := (Option.any_eq_true _ _).mp computed
  have allowed : Allowed (step Seglog.crc32 ⟨64, 1, 1⟩ 4) StepAllowed rolledStart rolledEdges := by
    decide +kernel
  obtain ⟨-, -, marked, spaced⟩ := markers_truthful flatTable_lawful Worker.emptyLog_opened
    (by decide) Worker.plainConfig (Feed.tagSubscription 0) allowed ran
  unfold showsEdges at shown
  split at shown
  · next first second frames =>
    have early := marked [_] 2 [_, _] frames
    have late := marked [_, _, _] 3 [] frames
    have between := (spaced [_] 2 [_] 3 [] frames).2
    simp only [eventsOf_cons, eventsOf_nil, SubscribeFrame.events, List.append_nil,
      List.nil_append] at early late between
    exact ⟨last, ran, first, second, frames, early, late, between⟩
  · cases shown

end SubscribeWorker

end Server

end Tephra
