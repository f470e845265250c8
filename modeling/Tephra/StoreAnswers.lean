import Tephra.ConditionalLogs
import Tephra.StagedConflicts

/-!
# The answers of the store

What clients are told is told by a log that takes one request after another: a request that
is answered with a range was put behind everything that was answered so before it, there its
condition held, and a request that is answered with an error is not in the log.

The staged requests are answered later than those that are refused meanwhile, and all at
once.  What is proved of every step is that the answers so far replay to the durable log,
and that those which the batch would get replay from there.
-/

namespace Tephra

namespace Writer

open ConditionalLogs Log Positions Read

/-- Why a request may be refused: its bound is behind the log, its condition has a first
conflict in the log, the batch may have one, or the append failed. -/
inductive Refuses : Option AppendCondition → List Event → AppendError → Prop
  | beyond {cond : AppendCondition} {log : List Event}
      (behind : firstPosition + log.length ≤ cond.after) :
      Refuses (some cond) log (.afterBeyondTip cond.after (firstPosition + log.length - 1))
  | conflict {cond : AppendCondition} {log : List Event} {clause : ConflictClause}
      {position : Nat} (specified : Specified cond log (some (clause, .durable position))) :
      Refuses (some cond) log (.conflict clause (.durable position))
  | sameBatch (cond : AppendCondition) (log : List Event) (clause : ConflictClause) :
      Refuses (some cond) log (.conflict clause .sameBatch)
  | failed (cond : Option AppendCondition) (log : List Event) (error : LogError) :
      Refuses cond log (GroupCommit.classify error)

/-- A store of events: a condition is met if its bound is within the log and nothing
conflicts. -/
def store : Rules Event AppendCondition AppendError where
  base := firstPosition
  met cond log := cond.after < firstPosition + log.length ∧ Clear cond log
  refuses := Refuses

namespace CommitSeam

/-- A request as an attempt. -/
def Request.attempt (request : Request) : Attempt Event AppendCondition :=
  ⟨request.events, request.condition⟩

/-- The answers as the store's. -/
def answered (answers : List (Request × Answer)) :
    List (Answered Event AppendCondition AppendError) :=
  answers.map fun answer => (answer.1.attempt, answer.2)

theorem answered_append (answers more : List (Request × Answer)) :
    answered (answers ++ more) = answered answers ++ answered more :=
  List.map_append

end CommitSeam

namespace EvalCtx.Faithful

variable {format : SortedMaps.MapFormat} {ctx : EvalCtx format} {log : List Event}

/-- An evaluation finds nothing, or a conflict that the batch may have, or the first conflict
that is specified for the log. -/
theorem evaluate_cases (faithful : ctx.Faithful log) (cond : AppendCondition) :
    ∃ found, evaluate ctx cond = some (.ok found) ∧
      ∀ clause site, found = some (clause, site) →
        site = .sameBatch ∨ ∃ position, site = .durable position ∧ Specified cond log found := by
  rw [evaluate, clauses, EvalCtx.evaluateClauses, faithful.evaluateClause_eq]
  cases ctx.staged.mayConflict cond.failIfEventsMatch with
  | true =>
      refine ⟨some (.boundary, .sameBatch), rfl, ?_⟩
      rintro clause site ⟨⟩
      exact .inl rfl
  | false =>
      cases first : (Index.matchesAfter cond.failIfEventsMatch cond.after firstPosition log).head?
        with
      | some position =>
          refine ⟨some (.boundary, .durable position), rfl, ?_⟩
          rintro clause site ⟨⟩
          exact .inr ⟨position, rfl, .boundary (head?_matchesAfter_eq_some first)⟩
      | none =>
          have clear := head?_matchesAfter_eq_none first
          cases given : cond.failIfExists with
          | none =>
              refine ⟨none, rfl, ?_⟩
              rintro clause site ⟨⟩
          | some query =>
              simp only [Option.map_some, Option.toList_some, EvalCtx.evaluateClauses,
                faithful.evaluateClause_eq]
              cases ctx.staged.mayConflict query with
              | true =>
                  refine ⟨some (.existence, .sameBatch), rfl, ?_⟩
                  rintro clause site ⟨⟩
                  exact .inl rfl
              | false =>
                  cases found : (Index.matchesAfter query 0 firstPosition log).head? with
                  | some position =>
                      refine ⟨some (.existence, .durable position), rfl, ?_⟩
                      rintro clause site ⟨⟩
                      exact .inr ⟨position, rfl,
                        .existence clear given (head?_matchesAfter_eq_some found)⟩
                  | none =>
                      refine ⟨none, rfl, ?_⟩
                      rintro clause site ⟨⟩

end EvalCtx.Faithful

namespace CommitSeam.Worker

variable {format : SortedMaps.MapFormat} {self next : Worker format}

/-- What is refused without being staged is refused for the durable log. -/
theorem Sound.refused (sound : self.Sound) {request : Request} {error : AppendError}
    (refused : self.verdict request = some (.error error)) :
    Refuses request.condition self.set.events error := by
  rw [verdict] at refused
  cases given : request.condition with
  | none =>
      rw [given] at refused
      cases refused
  | some cond =>
      simp only [given] at refused
      obtain ⟨found, evaluated, sites⟩ := sound.faithful.evaluate_cases cond
      split at refused
      · next beyond =>
          cases refused
          rw [sound.lastPosition_eq] at beyond ⊢
          apply Refuses.beyond
          have started : firstPosition = 1 := rfl
          omega
      · rw [evaluated] at refused
        cases found with
        | none => cases refused
        | some conflict =>
            obtain ⟨clause, site⟩ := conflict
            cases refused
            rcases sites clause site rfl with rfl | ⟨position, rfl, specified⟩
            · exact .sameBatch cond _ clause
            · exact .conflict specified

/-- A conditional request that is accepted is shown what was staged. -/
def Shown (self : Worker format) : WorkerStep → Prop
  | .request request => ∀ cond, request.condition = some cond → self.ShowsStaged cond
  | .commit _ _ => True

theorem shown_of_unstaged {self : Worker format} (unstaged : self.batch.records = [])
    (request : Request) : self.Shown (.request request) := by
  intro cond _
  refine .inr (.inl fun event member => ?_)
  rw [unstaged] at member
  exact absurd member List.not_mem_nil

/-- The answers so far replay to the durable log, and those that the batch would get replay
from there. -/
structure Replaying (first : List Event) (worker : Worker format) : Prop where
  sound : worker.Sound
  durable : store.Replays first (answered worker.answers) worker.set.events
  staged : store.Replays worker.set.events (answered worker.batch.commitOk)
    (worker.set.events ++ worker.batch.records)

namespace Replaying

variable {first : List Event}

theorem stage (replaying : self.Replaying first) {request : Request}
    (room : self.batch.next + request.events.length ≤ maxPosition)
    (shown : self.Shown (.request request)) (accepted : self.verdict request = some (.ok ())) :
    Replaying first { self with batch := self.batch.stage request } where
  sound := replaying.sound.stage room
  durable := replaying.durable
  staged := by
    have sound := replaying.sound
    have within : ∀ cond, request.condition = some cond →
        store.met cond (self.set.events ++ self.batch.records) := by
      intro cond given
      constructor
      · obtain ⟨inside, -⟩ := (sound.accepted_iff given).mp accepted
        rw [sound.lastPosition_eq] at inside
        rw [List.length_append]
        have started : firstPosition = 1 := rfl
        omega
      · exact (sound.serialises_iff cond).mpr (shown cond given) request given accepted
    have placed : self.batch.next =
        firstPosition + (self.set.events ++ self.batch.records).length := by
      rw [sound.next_eq, sound.first_eq, sound.set.nextPosition_eq, List.length_append,
        Nat.add_assoc]
    have more : store.Answers (self.set.events ++ self.batch.records)
        (request.attempt, .ok (store.places (self.set.events ++ self.batch.records)
          request.attempt.items)) _ := .committed within
    rw [Rules.places, show store.base = firstPosition from rfl, ← placed] at more
    have behind := replaying.staged.snoc more
    have answers : answered (self.batch.stage request).commitOk =
        answered self.batch.commitOk ++ [(request.attempt,
          .ok (self.batch.next, self.batch.next + request.attempt.items.length - 1))] := by
      rw [Batch.commitOk, Batch.stage, List.map_append]
      exact answered_append _ _
    rw [List.append_assoc] at behind
    change store.Replays self.set.events (answered (self.batch.stage request).commitOk) _
    rw [answers]
    exact behind

/-- With nothing staged, the batch gets no answers. -/
theorem fresh (sound : self.Sound) (batch : self.batch = Batch.new self.set.nextPosition)
    (durable : store.Replays first (answered self.answers) self.set.events) :
    self.Replaying first where
  sound := sound
  durable := durable
  staged := by
    rw [batch]
    change store.Replays self.set.events [] (self.set.events ++ [])
    rw [List.append_nil]
    exact .nil _

theorem refuse (replaying : self.Replaying first) {request : Request} {error : AppendError}
    (refused : self.verdict request = some (.error error)) :
    Replaying first { self with answers := self.answers ++ [(request, .error error)] } where
  sound := ⟨replaying.sound.set, replaying.sound.index, replaying.sound.tips,
    replaying.sound.first_eq, replaying.sound.next_eq, replaying.sound.room,
    replaying.sound.staged⟩
  durable := by
    change store.Replays first (answered (self.answers ++ [(request, .error error)])) _
    rw [answered_append]
    exact replaying.durable.snoc (.refused (replaying.sound.refused refused))
  staged := replaying.staged

theorem fail (replaying : self.Replaying first) {set : SegmentedLog}
    (holds : set.Holds self.set.events) (error : LogError) :
    (self.fail set error).Replaying first := by
  have same : set.events = self.set.events := holds.events_eq
  apply fresh
  · exact replaying.sound.fail holds error
  · rfl
  · change store.Replays first
      (answered (self.answers ++ self.batch.commitErr (GroupCommit.classify error))) set.events
    rw [answered_append, same]
    refine replaying.durable.append (.of_refused ?_)
    intro answer member
    obtain ⟨given, staged, rfl⟩ := List.mem_map.mp member
    obtain ⟨request, -, rfl⟩ := List.mem_map.mp staged
    exact .refused (.failed _ _ error)

theorem publish (replaying : self.Replaying first) {rolled : Bool} {index : Index.IndexSet format}
    (sound : (self.publish (self.grown rolled) rolled index).Sound) :
    (self.publish (self.grown rolled) rolled index).Replaying first := by
  have same : (self.grown rolled).events = self.set.events ++ self.batch.records :=
    (replaying.sound.grown_holds rolled).events_eq
  apply fresh
  · exact sound
  · rfl
  · change store.Replays first (answered (self.answers ++ self.batch.commitOk))
      (self.grown rolled).events
    rw [answered_append, same]
    exact replaying.durable.append replaying.staged

end Replaying

theorem replaying_step (lawful : format.Lawful) (crc : List UInt8 → UInt32) {first : List Event}
    {label : WorkerStep} (replaying : self.Replaying first)
    (allowed : self.StepAllowed label ∧ self.Shown label)
    (taken : self.step crc label = some next) : next.Replaying first := by
  have sound := sound_step lawful crc replaying.sound allowed.1 taken
  cases label with
  | request request =>
      obtain ⟨decision, verdict, rfl⟩ := Option.map_eq_some_iff.mp taken
      cases decision with
      | ok _ => exact replaying.stage allowed.1 allowed.2 verdict
      | error error => exact replaying.refuse verdict
  | commit outcome createdAtNanos =>
      rcases commit_cases taken with ⟨-, rfl⟩ |
        ⟨-, error, ⟨-, rfl⟩ | ⟨-, rfl⟩⟩ | ⟨-, rolled, index, -, -, rfl⟩
      · exact .fresh sound rfl replaying.durable
      · exact replaying.fail replaying.sound.set error
      · exact replaying.fail replaying.sound.set.rollover error
      · exact replaying.publish sound

theorem replaying_run (lawful : format.Lawful) {crc : List UInt8 → UInt32} {set : SegmentedLog}
    {index : Index.IndexSet format} (opened : Opened crc set index) (cfg : WriterConfig)
    {labels : List WorkerStep} {last : Worker format}
    (allowed : Histories.Allowed (step crc)
      (fun self label => self.StepAllowed label ∧ self.Shown label) (start cfg set index) labels)
    (ran : Histories.run (step crc) (start cfg set index) labels = some last) :
    last.Replaying set.events := by
  have start : (start cfg set index).Replaying set.events :=
    .fresh (opened.sound_start lawful cfg) rfl (.nil _)
  exact Histories.invariant_of_run
    (fun _ _ _ replaying allowed taken => replaying_step lawful crc replaying allowed taken)
    start allowed ran

/-- In every run from an open log, whatever the appends do, the answers are those of a store that
takes the requests one after another, and the durable log is what this store holds. -/
theorem answers_replay (lawful : format.Lawful) {crc : List UInt8 → UInt32} {set : SegmentedLog}
    {index : Index.IndexSet format} (opened : Opened crc set index) (cfg : WriterConfig)
    {labels : List WorkerStep} {last : Worker format}
    (allowed : Histories.Allowed (step crc)
      (fun self label => self.StepAllowed label ∧ self.Shown label) (start cfg set index) labels)
    (ran : Histories.run (step crc) (start cfg set index) labels = some last) :
    store.Replays set.events (answered last.answers) last.set.events :=
  (replaying_run lawful opened cfg allowed ran).durable

/-- Two events that ask for an empty log, in a batch, and an event that asks for nothing new. -/
def conditionalRun : List WorkerStep :=
  [.request ⟨[taggedEvent], some whenEmpty⟩, .request ⟨[taggedEvent], some whenEmpty⟩,
    .commit .appended 7, .request ⟨[taggedEvent], some ⟨.all, 1, none⟩⟩, .commit .rolledOver 8]

theorem conditionalRun_allowed : Histories.Allowed (step Seglog.crc32)
    (fun self label => self.StepAllowed label ∧ self.Shown label)
    (start plainConfig emptyLog (Index.IndexSet.new SortedMaps.flatTable 1)) conditionalRun := by
  have fits : Index.FitsSegment [taggedEvent] := by
    rw [Index.FitsSegment]
    decide
  have room : 3 ≤ maxPosition := by decide
  refine ⟨⟨room.trans' (by decide), shown_of_unstaged rfl _⟩, fun staged first => ?_⟩
  obtain rfl := Option.some.inj first
  refine ⟨⟨room, fun _ _ => .inl ⟨taggedEvent, List.mem_singleton_self _, List.cons_ne_nil _ _⟩⟩,
    fun refused second => ?_⟩
  obtain rfl := Option.some.inj second
  refine ⟨⟨fits, trivial⟩, fun committed third => ?_⟩
  rw [step] at third
  obtain ⟨empty, -⟩ | ⟨-, error, ⟨outcome, -⟩ | ⟨outcome, -⟩⟩ |
    ⟨-, rolled, index, outcome, -, rfl⟩ := commit_cases third
  · cases empty
  · cases outcome
  · cases outcome
  · cases rolled with
    | true => cases outcome
    | false =>
        refine ⟨⟨room, shown_of_unstaged rfl _⟩,
          fun again fourth => ⟨⟨?_, trivial⟩, fun _ _ => trivial⟩⟩
        obtain ⟨decision, -, rfl⟩ := Option.map_eq_some_iff.mp fourth
        cases decision with
        | ok _ => exact fits
        | error _ =>
            have whole : Index.FitsSegment ([] ++ [taggedEvent]) := fits
            exact whole.prefix

theorem answers_replay_conditional :
    ∃ last, Histories.run (step Seglog.crc32)
        (start plainConfig emptyLog (Index.IndexSet.new SortedMaps.flatTable 1)) conditionalRun =
          some last ∧
      last.answers.map Prod.snd = [.error (.conflict .boundary .sameBatch), .ok (1, 1),
        .ok (2, 2)] ∧
      store.Replays emptyLog.events (answered last.answers) last.set.events := by
  have computed : (Histories.run (step Seglog.crc32)
      (start plainConfig emptyLog (Index.IndexSet.new SortedMaps.flatTable 1))
      conditionalRun).any (fun last =>
        decide (last.answers.map Prod.snd = [.error (.conflict .boundary .sameBatch), .ok (1, 1),
          .ok (2, 2)])) = true := by
    decide +kernel
  obtain ⟨last, ran, shown⟩ := (Option.any_eq_true _ _).mp computed
  exact ⟨last, ran, of_decide_eq_true shown, answers_replay SortedMaps.flatTable_lawful
    emptyLog_opened plainConfig conditionalRun_allowed ran⟩

end CommitSeam.Worker

end Writer

end Tephra
