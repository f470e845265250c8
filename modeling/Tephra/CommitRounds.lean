import Tephra.GroupCommit

/-!
# The queue of group commit

The queue of the write coordinator knows of a request only how large its events are and where
its reply goes.  The writer thread of group commit works with the log and the conditions, and
processes a batch in one step.  Its steps are histories of the queue: a round is one step for
each condition, one for the log, and one for each reply.
-/

namespace Tephra.Writer.GroupCommit

open Fallible Histories Log Seglog SegmentSet

/-- What the queue knows of a request. -/
def Request.sized (self : Request) : Writer.Request :=
  ⟨self.events.map List.length, self.channel, self.token⟩

def Message.sized : Message → Writer.Message
  | .append request => .append request.sized
  | .shutdown => .shutdown

def Phase.sized : Phase → WorkerPhase
  | .collecting => .collecting
  | .draining reqs bytes => .draining (reqs.map Request.sized) bytes
  | .processing reqs => .evaluating (reqs.map Request.sized) []
  | .stopped => .stopped
  | .returned => .returned

/-- The reply to a request, without what it says. -/
def Reply.withOutcome (outcome : Outcome) (self : Reply) : Writer.Reply :=
  ⟨self.channel, self.token, outcome⟩

/-- The replies of a round by what became of the requests. -/
def Round.outcomes (self : Round) : List Writer.Reply :=
  self.rejections.map (Reply.withOutcome .rejected) ++
    match self.outcome with
    | none => []
    | some (.ok _) => self.batch.commitOk.map (Reply.withOutcome .committed)
    | some (.error error) =>
        (self.batch.commitErr (classify error)).map (Reply.withOutcome .failed)

/-- The thread as the queue sees it. -/
def Worker.coordinator (self : Worker) : Coordinator where
  cfg := ⟨self.cfg.queueCapacity, self.cfg.maxBatchRecords, self.cfg.maxBatchBytes,
    self.log.set.config.maxRecordLen⟩
  queue := self.queue.map Message.sized
  senders := self.senders
  worker := self.phase.sized
  pushback := self.pushback.map Request.sized
  shutdown := self.shutdown
  accepted := self.arrived.map Request.sized
  replies := self.rounds.flatMap Round.outcomes

/-- The replies of a round go where those of its thread go. -/
theorem Round.address_outcomes (self : Round) :
    self.outcomes.map Writer.Reply.address = self.replies.map Reply.address := by
  have same (outcome : Outcome) (replies : List Reply) :
      (replies.map (Reply.withOutcome outcome)).map Writer.Reply.address =
        replies.map Reply.address := by
    rw [List.map_map]
    rfl
  rw [outcomes, replies, List.map_append, List.map_append, same]
  congr 1
  cases self.outcome with
  | none => rfl
  | some result =>
      cases result with
      | ok range => exact same _ _
      | error error => exact same _ _

theorem Request.measure_sized (self : Request) : self.sized.measure = measure self.events := by
  rw [Writer.Request.measure, measure, sized, List.foldl_map]

@[simp]
theorem Request.sized_events_eq_nil (self : Request) :
    self.sized.events = [] ↔ self.events = [] :=
  List.map_eq_nil_iff

@[simp]
theorem Phase.sized_eq_returned (self : Phase) : self.sized = .returned ↔ self = .returned := by
  cases self <;> simp [sized]

@[simp]
theorem Phase.sized_eq_stopped (self : Phase) : self.sized = .stopped ↔ self = .stopped := by
  cases self <;> simp [sized]

theorem flatMap_sized_events (requests : List Request) :
    (requests.map Request.sized).flatMap Writer.Request.events =
      (requests.flatMap Request.events).map List.length := by
  rw [List.flatMap_map, List.map_flatMap]
  rfl

namespace Worker

variable {crc : List UInt8 → UInt32} {self next : Worker}

theorem coordinator_isOversized (self : Worker) (recordBytes largestEvent : Nat) :
    self.coordinator.isOversized recordBytes largestEvent =
      self.isOversized recordBytes largestEvent :=
  rfl

theorem coordinator_begin (self : Worker) (request : Request) :
    (self.begin request).coordinator = self.coordinator.begin request.sized := by
  rw [begin, Coordinator.begin, Request.measure_sized]
  dsimp only
  rw [coordinator_isOversized]
  by_cases alone : self.isOversized (measure request.events).1 (measure request.events).2 = true
  · rw [if_pos alone, if_pos alone]
    rfl
  · rw [if_neg alone, if_neg alone]
    rfl

theorem coordinator_join (self : Worker) (reqs : List Request) (bytes : Nat) (request : Request) :
    (self.join reqs bytes request).coordinator =
      self.coordinator.join (reqs.map Request.sized) bytes request.sized := by
  rw [join, Coordinator.join, Request.measure_sized]
  dsimp only
  have budget : self.coordinator.cfg.maxBatchBytes = self.cfg.maxBatchBytes := rfl
  rw [coordinator_isOversized, budget]
  by_cases held : self.isOversized (measure request.events).1 (measure request.events).2 = true ∨
      self.cfg.maxBatchBytes < bytes + (measure request.events).1
  · rw [if_pos held, if_pos held]
    rfl
  · rw [if_neg held, if_neg held]
    simp [coordinator, Phase.sized]

theorem coordinator_submit {request : Request}
    (taken : self.step crc (.submit request) = some next) :
    self.coordinator.step (.submit request.sized) = some next.coordinator := by
  simp only [step] at taken
  simp only [Coordinator.step, coordinator, Request.sized_events_eq_nil,
    Phase.sized_eq_returned, List.length_map]
  split at taken
  · cases taken
  next sending =>
  rw [if_neg sending]
  split at taken
  · next refused =>
    cases taken
    rw [if_pos refused]
  next accepts =>
  rw [if_neg accepts]
  split at taken
  · next room =>
    cases taken
    rw [if_pos room]
    simp [Message.sized]
  · cases taken

theorem coordinator_shutdown (taken : self.step crc .shutdown = some next) :
    self.coordinator.step .shutdown = some next.coordinator := by
  simp only [step] at taken
  simp only [Coordinator.step, coordinator, Phase.sized_eq_returned, List.length_map]
  split at taken
  · cases taken
  next sending =>
  rw [if_neg sending]
  split at taken
  · next refused =>
    cases taken
    rw [if_pos refused]
  next accepts =>
  rw [if_neg accepts]
  split at taken
  · next room =>
    cases taken
    rw [if_pos room]
    simp [Message.sized]
  · cases taken

theorem coordinator_collect (taken : self.step crc .collect = some next) :
    self.coordinator.step .collect = some next.coordinator := by
  simp only [step] at taken
  split at taken
  · next request collecting held =>
    cases taken
    rw [coordinator_begin]
    simp [Coordinator.step, coordinator, collecting, held, Phase.sized]
  · next request rest collecting held queue =>
    cases taken
    rw [coordinator_begin]
    simp [Coordinator.step, coordinator, collecting, held, queue, Phase.sized, Message.sized]
  · next rest collecting held queue =>
    cases taken
    simp [Coordinator.step, coordinator, collecting, held, queue, Phase.sized, Message.sized]
  · next collecting held queue =>
    split at taken
    · next alone =>
      cases taken
      simp [Coordinator.step, coordinator, collecting, held, queue, Phase.sized, alone]
    · cases taken
  · cases taken

theorem coordinator_drain (taken : self.step crc .drain = some next) :
    self.coordinator.step .drain = some next.coordinator := by
  simp only [step] at taken
  split at taken
  · next reqs bytes draining =>
    split at taken
    · next room =>
      split at taken
      · next request rest queue =>
        cases taken
        rw [coordinator_join]
        simp [Coordinator.step, coordinator, draining, queue, Phase.sized, Message.sized, room]
      · next rest queue =>
        cases taken
        simp [Coordinator.step, coordinator, draining, queue, Phase.sized, Message.sized, room]
      · next queue =>
        cases taken
        simp [Coordinator.step, coordinator, draining, queue, Phase.sized, room]
    · next full =>
      cases taken
      simp [Coordinator.step, coordinator, draining, Phase.sized, full]
  · cases taken

/-- A step that processes nothing is one step of the queue. -/
theorem coordinator_step {label : WorkerStep} (idle : ∀ evaluate env, label ≠ .process evaluate env)
    (taken : self.step crc label = some next) :
    ∃ same, self.coordinator.step same = some next.coordinator := by
  cases label with
  | submit request => exact ⟨_, coordinator_submit taken⟩
  | shutdown => exact ⟨_, coordinator_shutdown taken⟩
  | clone =>
      refine ⟨.clone, ?_⟩
      simp only [step] at taken
      split at taken
      · cases taken
      · next sending =>
        cases taken
        exact if_neg sending
  | drop =>
      refine ⟨.drop, ?_⟩
      simp only [step] at taken
      split at taken
      · cases taken
      · next sending =>
        cases taken
        exact if_neg sending
  | collect => exact ⟨_, coordinator_collect taken⟩
  | drain => exact ⟨_, coordinator_drain taken⟩
  | process evaluate env => exact absurd rfl (idle evaluate env)
  | finish =>
      refine ⟨.finish, ?_⟩
      simp only [step] at taken
      split at taken
      · next stopped =>
        cases taken
        simp [Coordinator.step, coordinator, stopped, Phase.sized]
      · cases taken

/-- The queue in the middle of a round. -/
def evaluating (self : Worker) (reqs : List Request) (evaluation : Evaluation) : Coordinator :=
  { self.coordinator with
    worker := .evaluating (reqs.map Request.sized)
      (evaluation.batch.staged.map fun staged => staged.request.sized)
    replies := self.coordinator.replies ++
      evaluation.replies.map (Reply.withOutcome .rejected) }

/-- The conditions of the requests are evaluated one after another. -/
theorem run_evaluate (self : Worker) (evaluate : Evaluate) (tip : Nat) (reqs : List Request)
    (evaluation : Evaluation) :
    ∃ labels, run Coordinator.step (self.evaluating reqs evaluation) labels =
      some (self.evaluating [] (reqs.foldl (Evaluation.next evaluate tip) evaluation)) := by
  induction reqs generalizing evaluation with
  | nil => exact ⟨[], rfl⟩
  | cons request reqs ih =>
      obtain ⟨labels, ran⟩ := ih (evaluation.next evaluate tip request)
      have staged : (self.evaluating (request :: reqs) evaluation).step (.evaluate true) =
          some (self.evaluating reqs (evaluation.stage request)) := by
        simp [Coordinator.step, evaluating, Evaluation.stage, Batch.stage]
      have rejected (error : AppendError) :
          (self.evaluating (request :: reqs) evaluation).step (.evaluate false) =
            some (self.evaluating reqs (evaluation.reject request error)) := by
        simp [Coordinator.step, Coordinator.send, evaluating, Evaluation.reject,
          Reply.withOutcome, Request.reply, Request.sized]
      have one : ∃ label, (self.evaluating (request :: reqs) evaluation).step label =
          some (self.evaluating reqs (evaluation.next evaluate tip request)) := by
        unfold Evaluation.next
        split
        · exact ⟨_, staged⟩
        split
        · exact ⟨_, rejected _⟩
        split
        · exact ⟨_, rejected _⟩
        · exact ⟨_, staged⟩
        · exact ⟨_, rejected _⟩
      obtain ⟨label, taken⟩ := one
      exact ⟨label :: labels, run_cons taken ran⟩

/-- The staged requests are replied to one after another, and the next round begins. -/
theorem run_reply (state : Coordinator) (outcome : Outcome) (staged : List Writer.Request) :
    ∃ labels, run Coordinator.step { state with worker := .replying outcome staged } labels =
      some (Coordinator.nextRound { state with
        replies := state.replies ++
          staged.map fun request => ⟨request.channel, request.token, outcome⟩ }) := by
  induction staged generalizing state with
  | nil =>
      refine ⟨[.reply], run_cons ?_ rfl⟩
      simp [Coordinator.step, Coordinator.nextRound]
  | cons request staged ih =>
      obtain ⟨labels, ran⟩ := ih { state with
        replies := state.replies ++ [⟨request.channel, request.token, outcome⟩] }
      refine ⟨.reply :: labels, run_cons rfl ?_⟩
      rw [List.map_cons, List.append_cons]
      exact ran

theorem coordinator_endRound (self : Worker) (round : Round) {log : LogState}
    (same : log.set.config = self.log.set.config) :
    (self.endRound round log).coordinator =
      Coordinator.nextRound { self.coordinator with
        replies := self.coordinator.replies ++ round.outcomes } := by
  simp only [endRound, coordinator, Coordinator.nextRound, same, List.flatMap_append,
    List.flatMap_singleton]
  congr 1
  exact apply_ite Phase.sized _ _ _

theorem coordinator_process {config : SegmentConfig} {reqs : List Request} (evaluate : Evaluate)
    (env : AppendEnv) (valid : config.validate = .ok ())
    (configured : Configured config self.log.set) (processing : self.phase = .processing reqs) :
    ∃ labels, run Coordinator.step self.coordinator labels =
      some (self.process crc evaluate env reqs).coordinator := by
  have begun : self.coordinator =
      self.evaluating reqs ⟨Batch.new self.log.set.nextPosition, []⟩ := by
    simp [evaluating, coordinator, Batch.new, processing, Phase.sized]
  have evaluated := (Evaluated.new self.log.set.nextPosition).foldl evaluate
    (self.log.set.nextPosition - 1) reqs
  obtain ⟨labels, ran⟩ := self.run_evaluate evaluate (self.log.set.nextPosition - 1) reqs
    ⟨Batch.new self.log.set.nextPosition, []⟩
  rw [← begun] at ran
  unfold process
  dsimp only
  generalize reqs.foldl (Evaluation.next evaluate (self.log.set.nextPosition - 1))
    ⟨Batch.new self.log.set.nextPosition, []⟩ = evaluation at evaluated ran ⊢
  have sizes : (evaluation.batch.staged.map fun staged => staged.request.sized).flatMap
      Writer.Request.events = evaluation.batch.records.map List.length := by
    have sized := flatMap_sized_events (evaluation.batch.staged.map Staged.request)
    rw [evaluated.records_eq, ← List.flatMap_map Staged.request Request.events, ← sized,
      List.map_map]
    rfl
  by_cases empty : evaluation.batch.records = []
  · rw [if_pos empty, coordinator_endRound _ _ rfl]
    refine ⟨labels ++ [.commit true], ?_⟩
    rw [run_append_eq ran]
    refine run_cons ?_ rfl
    simp only [Coordinator.step, evaluating, List.map_nil]
    rw [if_pos (by rw [sizes, empty]; rfl)]
    simp [Coordinator.nextRound, Round.outcomes]
  · rw [if_neg empty]
    have kept := @KeepsConfig.appendBatch crc config env evaluation.batch.records valid self.log
      configured
    cases appended : appendBatch crc env evaluation.batch.records self.log with
    | mk outcome log =>
        rw [appended] at kept
        have committed (succeeds : Bool) :
            (self.evaluating [] evaluation).step (.commit succeeds) =
              some { self.evaluating [] evaluation with
                worker := .replying (if succeeds then .committed else .failed)
                  (evaluation.batch.staged.map fun staged => staged.request.sized) } := by
          simp only [Coordinator.step, evaluating, List.map_nil]
          rw [if_neg (by rw [sizes, List.map_eq_nil_iff]; exact empty)]
        rw [coordinator_endRound _ _ (kept.config_eq.trans configured.config_eq.symm)]
        cases outcome with
        | ok range =>
            obtain ⟨later, replied⟩ := run_reply (self.evaluating [] evaluation) .committed
              (evaluation.batch.staged.map fun staged => staged.request.sized)
            refine ⟨labels ++ .commit true :: later, ?_⟩
            rw [run_append_eq ran, run_cons (committed true) replied]
            simp [Coordinator.nextRound, evaluating, Round.outcomes, Batch.commitOk,
              Reply.withOutcome, Request.reply, Request.sized, Function.comp_def]
        | error error =>
            obtain ⟨later, replied⟩ := run_reply (self.evaluating [] evaluation) .failed
              (evaluation.batch.staged.map fun staged => staged.request.sized)
            refine ⟨labels ++ .commit false :: later, ?_⟩
            rw [run_append_eq ran, run_cons (committed false) replied]
            simp [Coordinator.nextRound, evaluating, Round.outcomes, Batch.commitErr,
              Reply.withOutcome, Request.reply, Request.sized, Function.comp_def]

variable {config : SegmentConfig} {origin : LogState} {first last : Worker}

theorem Kept.coordinator {label : WorkerStep} (valid : config.validate = .ok ())
    (kept : self.Kept crc config origin) (taken : self.step crc label = some next) :
    ∃ labels, run Coordinator.step self.coordinator labels = some next.coordinator := by
  by_cases round : ∃ evaluate env, label = .process evaluate env
  · obtain ⟨evaluate, env, rfl⟩ := round
    rw [Worker.step] at taken
    split at taken
    · next reqs processing =>
      cases taken
      exact coordinator_process evaluate env valid kept.configured processing
    · cases taken
  · obtain ⟨same, stepped⟩ := coordinator_step
      (fun evaluate env here => round ⟨evaluate, env, here⟩) taken
    exact ⟨[same], run_cons stepped rfl⟩

/-- Whatever arrives, however the conditions are evaluated and whatever system calls fail, a run
of the thread on an open log is one of the queue, with its replies to the same channels in the
same order. -/
theorem refines_queue {now : UInt64} {dir after : Directory} {set : SegmentSet}
    {cfg : WriterConfig} {labels : List WorkerStep}
    (opened : openSet crc config now dir = (.ok set, after))
    (started : start cfg ⟨after, set⟩ = some first)
    (reached : run (step crc) first labels = some last) :
    ∃ steps, run Coordinator.step
      (.start ⟨cfg.queueCapacity, cfg.maxBatchRecords, cfg.maxBatchBytes, config.maxRecordLen⟩)
      steps = some last.coordinator ∧
      last.coordinator.replies.map Writer.Reply.address = last.replies.map Reply.address := by
  obtain ⟨valid, configured⟩ := configured_of_openSet opened
  have kept : first.Kept crc config ⟨after, set⟩ := kept_start configured started
  have begun : first.coordinator = .start ⟨cfg.queueCapacity, cfg.maxBatchRecords,
      cfg.maxBatchBytes, config.maxRecordLen⟩ := by
    unfold start at started
    split at started
    · cases started
      simp [coordinator, Coordinator.start, Phase.sized, configured.config_eq]
    · cases started
  have grown : ∃ steps, run Coordinator.step first.coordinator steps = some last.coordinator ∧
      last.Kept crc config ⟨after, set⟩ := by
    have grows : ∀ state label next,
        (∃ steps, run Coordinator.step first.coordinator steps = some state.coordinator ∧
          state.Kept crc config ⟨after, set⟩) →
        step crc state label = some next →
        ∃ steps, run Coordinator.step first.coordinator steps = some next.coordinator ∧
          next.Kept crc config ⟨after, set⟩ := by
      rintro state label next ⟨steps, ran, before⟩ taken
      obtain ⟨more, continued⟩ := before.coordinator valid taken
      refine ⟨steps ++ more, ?_, before.step valid taken⟩
      rw [run_append_eq ran]
      exact continued
    exact invariant_of_steps grows ⟨[], rfl, kept⟩ reached
  obtain ⟨steps, ran, ended⟩ := grown
  refine ⟨steps, begun ▸ ran, ?_⟩
  rw [ended.replies, coordinator, List.map_flatMap, List.map_flatMap]
  exact List.flatMap_congr fun round _ => round.address_outcomes

/-- The sync of a round fails, so that both of its requests are answered with the error. -/
theorem refines_queue_failed :
    ∃ last steps, run (step crc32) smallWorker
        [.submit ⟨[[1, 2, 3, 4]], none, 0, 7⟩, .submit ⟨[[5]], none, 1, 8⟩, .collect, .drain,
          .drain, .process (fun _ _ => .ok none) ⟨0, [], [], [.ok, .fail 0], []⟩] = some last ∧
      run Coordinator.step (.start ⟨4, 8, 60, smallConfig.maxRecordLen⟩) steps =
        some last.coordinator ∧
      last.coordinator.replies.map Writer.Reply.address = last.replies.map Reply.address ∧
      last.coordinator.replies.map Writer.Reply.outcome = [.failed, .failed] := by
  have finished : (run (step crc32) smallWorker
      [.submit ⟨[[1, 2, 3, 4]], none, 0, 7⟩, .submit ⟨[[5]], none, 1, 8⟩, .collect, .drain,
        .drain, .process (fun _ _ => .ok none) ⟨0, [], [], [.ok, .fail 0], []⟩]).any
      (fun last => last.coordinator.replies.map Writer.Reply.outcome = [.failed, .failed]) =
        true := by
    decide +kernel
  obtain ⟨last, reached, failed⟩ := (Option.any_eq_true _ _).mp finished
  have started : start ⟨4, 8, 60⟩ smallWorker.log = some smallWorker := rfl
  obtain ⟨steps, ran, addressed⟩ :=
    refines_queue (openSet_empty_eq crc32 (by decide) 0) started reached
  exact ⟨last, steps, reached, ran, addressed, of_decide_eq_true failed⟩

end Worker

end Tephra.Writer.GroupCommit
