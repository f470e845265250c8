import Mathlib.Algebra.Order.BigOperators.Group.List
import Mathlib.Data.List.Flatten
import Tephra.AppendConditions
import Tephra.SizedAppending
import Tephra.WriteQueue

/-!
# Group commit

The writer thread collects a batch of requests within its budgets, evaluates their
conditions one after another, and appends the events of the accepted ones to the log as
one unit.  A request that does not fit beside the others waits for the next batch.  Every
request keeps its place in the order of arrival, and the ranges that were staged are those
that the log assigns.
-/

namespace Tephra.Writer.GroupCommit

open Fallible Histories Log Seglog SegmentSet

/-- A request: its encoded events, its condition, and where its reply goes. -/
structure Request where
  events : List (List UInt8)
  condition : Option AppendCondition
  channel : Nat
  token : Nat
deriving DecidableEq

/-- The reply channel with the token that comes back on it. -/
def Request.address (request : Request) : Nat × Nat :=
  (request.channel, request.token)

/-- `measure`: the framed bytes of the events, and the largest framed event. -/
def measure (events : List (List UInt8)) : Nat × Nat :=
  events.foldl
    (fun sums event =>
      (sums.1 + (recordOverhead + event.length), max sums.2 (recordOverhead + event.length)))
    (0, 0)

inductive Message
  | append (request : Request)
  | shutdown
deriving DecidableEq

def Message.request? : Message → Option Request
  | .append request => some request
  | .shutdown => none

@[simp]
theorem filterMap_shutdown_cons (messages : List Message) :
    (.shutdown :: messages).filterMap Message.request? = messages.filterMap Message.request? :=
  rfl

structure Reply where
  channel : Nat
  token : Nat
  answer : Except AppendError (Nat × Nat)
deriving DecidableEq

def Reply.address (reply : Reply) : Nat × Nat :=
  (reply.channel, reply.token)

def Request.reply (request : Request) (answer : Except AppendError (Nat × Nat)) : Reply :=
  ⟨request.channel, request.token, answer⟩

@[simp]
theorem Request.address_reply (request : Request) (answer : Except AppendError (Nat × Nat)) :
    (request.reply answer).address = request.address :=
  rfl

/-- The bounds of the queue and of a batch. -/
structure WriterConfig where
  queueCapacity : Nat
  maxBatchRecords : Nat
  maxBatchBytes : Nat
deriving DecidableEq

/-- An accepted request, and the first and last position of its events. -/
structure Staged where
  request : Request
  range : Nat × Nat
deriving DecidableEq

/-- A batch that is being built.  Its tags are those of its records. -/
structure Batch where
  records : List (List UInt8)
  staged : List Staged
  first : Nat
  next : Nat
deriving DecidableEq

namespace Batch

def new (next : Nat) : Batch :=
  ⟨[], [], next, next⟩

/-- The events take the next positions, one each. -/
def stage (self : Batch) (request : Request) : Batch :=
  { self with
    records := self.records ++ request.events
    staged := self.staged ++ [⟨request, (self.next, self.next + request.events.length - 1)⟩]
    next := self.next + request.events.length }

def commitOk (self : Batch) : List Reply :=
  self.staged.map fun staged => staged.request.reply (.ok staged.range)

def commitErr (self : Batch) (error : AppendError) : List Reply :=
  self.staged.map fun staged => staged.request.reply (.error error)

end Batch

/-- The error of the log as its caller sees it. -/
def classify : LogError → AppendError
  | .batchTooLarge size _ => .tooLarge size
  | .recordTooLarge size _ => .tooLarge size
  | error => .log error

/-- What `condition::evaluate` says of a condition and the batch so far.  It may be any
verdict. -/
abbrev Evaluate :=
  AppendCondition → Batch → Except AppendError (Option (ConflictClause × ConflictSite))

/-- Where the loop of `process` stands: the batch so far, and the replies it has sent. -/
structure Evaluation where
  batch : Batch
  replies : List Reply
deriving DecidableEq

namespace Evaluation

def stage (self : Evaluation) (request : Request) : Evaluation :=
  { self with batch := self.batch.stage request }

def reject (self : Evaluation) (request : Request) (error : AppendError) : Evaluation :=
  { self with replies := self.replies ++ [request.reply (.error error)] }

/-- The condition of the next request is evaluated. -/
def next (evaluate : Evaluate) (tip : Nat) (self : Evaluation) (request : Request) :
    Evaluation :=
  match request.condition with
  | none => self.stage request
  | some cond =>
      if cond.after > tip then self.reject request (.afterBeyondTip cond.after tip)
      else
        match evaluate cond self.batch with
        | .ok (some (clause, site)) => self.reject request (.conflict clause site)
        | .ok none => self.stage request
        | .error error => self.reject request error

end Evaluation

/-- The next step of the writer thread. -/
inductive Phase
  /-- `collect`, before its first request. -/
  | collecting
  /-- `collect`, with the requests drained so far and their bytes. -/
  | draining (reqs : List Request) (bytes : Nat)
  /-- `process`, on the requests of a batch. -/
  | processing (reqs : List Request)
  /-- Out of the loop of `run`. -/
  | stopped
  | returned
deriving DecidableEq

/-- The requests the writer thread holds. -/
def Phase.held : Phase → List Request
  | .draining reqs _ => reqs
  | .processing reqs => reqs
  | _ => []

/-- A batch that was processed: its requests in order, the replies of those that were
rejected, and what the log said of the others. -/
structure Round where
  requests : List Request
  rejections : List Reply
  batch : Batch
  outcome : Option (Except LogError (Nat × Nat))
deriving DecidableEq

/-- The replies of a round in the order they are sent. -/
def Round.replies (self : Round) : List Reply :=
  self.rejections ++
    match self.outcome with
    | none => []
    | some (.ok _) => self.batch.commitOk
    | some (.error error) => self.batch.commitErr (classify error)

/-- The writer thread with its queue.  `arrived` are the requests in the order in which they
entered the queue, and `rounds` the batches processed. -/
structure Worker where
  cfg : WriterConfig
  log : LogState
  queue : List Message
  senders : Nat
  phase : Phase
  pushback : Option Request
  shutdown : Bool
  arrived : List Request
  rounds : List Round
  replies : List Reply
deriving DecidableEq

inductive WorkerStep
  /-- `append_submit`. -/
  | submit (request : Request)
  /-- `WriteCoordinator::shutdown` sends its message. -/
  | shutdown
  /-- A handle is cloned or dropped. -/
  | clone
  | drop
  /-- The first receive of `collect`. -/
  | collect
  /-- A `try_recv` of `collect`. -/
  | drain
  /-- `process`, with the verdicts of the conditions and the results of the system calls.  It
  does not look at the queue, so what arrives meanwhile arrives before it or after it. -/
  | process (evaluate : Evaluate) (env : AppendEnv)
  /-- `close`, and the return from `run`. -/
  | finish

namespace Worker

/-- `WriteCoordinator::start` on an open log, unless it refuses the configuration. -/
def start (cfg : WriterConfig) (log : LogState) : Option Worker :=
  if 1 ≤ cfg.queueCapacity ∧ 1 ≤ cfg.maxBatchRecords ∧
      cfg.maxBatchBytes ≤ log.set.config.capacity then
    some ⟨cfg, log, [], 2, .collecting, none, false, [], [], []⟩
  else none

def isOversized (self : Worker) (recordBytes largestEvent : Nat) : Bool :=
  self.cfg.maxBatchBytes < markerBytes + recordBytes ||
    self.log.set.config.maxRecordLen < largestEvent

/-- The batch starts with its first request, alone when that is oversized. -/
def begin (self : Worker) (first : Request) : Worker :=
  let (firstSum, firstMax) := measure first.events
  { self with phase :=
      if self.isOversized firstSum firstMax then .processing [first]
      else .draining [first] (markerBytes + firstSum) }

/-- The next request of a drain joins the batch, or is held back for the next one. -/
def join (self : Worker) (reqs : List Request) (bytes : Nat) (request : Request) : Worker :=
  let (sum, max) := measure request.events
  if self.isOversized sum max ∨ self.cfg.maxBatchBytes < bytes + sum then
    { self with pushback := some request, phase := .processing reqs }
  else { self with phase := .draining (reqs ++ [request]) (bytes + sum) }

/-- A round is over.  The loop of `run` goes on, unless a shutdown was seen. -/
def endRound (self : Worker) (round : Round) (log : LogState) : Worker :=
  { self with
    log := log
    rounds := self.rounds ++ [round]
    replies := self.replies ++ round.replies
    phase := if self.shutdown then .stopped else .collecting }

/-- Evaluate the conditions of the requests, and append the events of those accepted. -/
def process (crc : List UInt8 → UInt32) (evaluate : Evaluate) (env : AppendEnv) (self : Worker)
    (reqs : List Request) : Worker :=
  let tip := self.log.set.nextPosition - 1
  let evaluation := reqs.foldl (Evaluation.next evaluate tip)
    ⟨Batch.new self.log.set.nextPosition, []⟩
  let batch := evaluation.batch
  if batch.records = [] then
    self.endRound ⟨reqs, evaluation.replies, batch, none⟩ self.log
  else
    let (outcome, log) := appendBatch crc env batch.records self.log
    self.endRound ⟨reqs, evaluation.replies, batch, some outcome⟩ log

/-- The step of a label, if it is enabled. -/
def step (crc : List UInt8 → UInt32) (self : Worker) : WorkerStep → Option Worker
  | .submit request =>
      if self.senders = 0 then none
      else if request.events = [] ∨ self.phase = .returned then
        -- the submission fails with `Empty` or `Shutdown`
        some self
      else if self.queue.length < self.cfg.queueCapacity then
        some { self with queue := self.queue ++ [.append request]
                         arrived := self.arrived ++ [request] }
      else none
  | .shutdown =>
      if self.senders = 0 then none
      else if self.phase = .returned then some self
      else if self.queue.length < self.cfg.queueCapacity then
        some { self with queue := self.queue ++ [.shutdown] }
      else none
  | .clone =>
      if self.senders = 0 then none else some { self with senders := self.senders + 1 }
  | .drop =>
      if self.senders = 0 then none else some { self with senders := self.senders - 1 }
  | .collect =>
      match self.phase, self.pushback, self.queue with
      | .collecting, some request, _ => some ({ self with pushback := none }.begin request)
      | .collecting, none, .append request :: rest =>
          some ({ self with queue := rest }.begin request)
      | .collecting, none, .shutdown :: rest =>
          some { self with queue := rest, shutdown := true, phase := .stopped }
      | .collecting, none, [] =>
          if self.senders = 0 then some { self with shutdown := true, phase := .stopped }
          else none
      | _, _, _ => none
  | .drain =>
      match self.phase, self.queue with
      | .draining reqs bytes, queue =>
          if reqs.length < self.cfg.maxBatchRecords then
            match queue with
            | .append request :: rest => some ({ self with queue := rest }.join reqs bytes request)
            | .shutdown :: rest =>
                some { self with queue := rest, shutdown := true, phase := .processing reqs }
            | [] =>
                some { self with shutdown := self.shutdown || self.senders == 0
                                 phase := .processing reqs }
          else some { self with phase := .processing reqs }
      | _, _ => none
  | .process evaluate env =>
      match self.phase with
      | .processing reqs => some (self.process crc evaluate env reqs)
      | _ => none
  | .finish =>
      if self.phase = .stopped then some { self with phase := .returned } else none

end Worker

/-- The framed bytes of events. -/
def framedSize (events : List (List UInt8)) : Nat :=
  (events.map fun event => recordOverhead + event.length).sum

theorem batchSize_eq (events : List (List UInt8)) :
    batchSize events = markerBytes + framedSize events := by
  rw [batchSize, Nat.add_comm]
  rfl

theorem framedSize_append (left right : List (List UInt8)) :
    framedSize (left ++ right) = framedSize left + framedSize right := by
  simp [framedSize]

theorem framedSize_le_of_sublist {part events : List (List UInt8)} (sublist : part.Sublist events) :
    framedSize part ≤ framedSize events :=
  (sublist.map _).sum_le_sum fun _ _ => Nat.zero_le _

theorem foldl_measure (events : List (List UInt8)) (sums : Nat × Nat) :
    let measured := events.foldl
      (fun sums event =>
        (sums.1 + (recordOverhead + event.length), max sums.2 (recordOverhead + event.length)))
      sums
    measured.1 = sums.1 + framedSize events ∧ sums.2 ≤ measured.2 ∧
      ∀ event ∈ events, recordOverhead + event.length ≤ measured.2 := by
  induction events generalizing sums with
  | nil => simp [framedSize]
  | cons event events ih =>
      obtain ⟨sumEq, grows, bounded⟩ :=
        ih (sums.1 + (recordOverhead + event.length), max sums.2 (recordOverhead + event.length))
      simp only [List.foldl_cons, framedSize, List.map_cons, List.sum_cons] at *
      refine ⟨by omega, by omega, ?_⟩
      intro other member
      rcases List.mem_cons.mp member with rfl | later
      · omega
      · exact bounded other later

theorem measure_fst (events : List (List UInt8)) : (measure events).1 = framedSize events :=
  (foldl_measure events (0, 0)).1.trans (Nat.zero_add _)

theorem le_measure_snd {events : List (List UInt8)} {event : List UInt8}
    (member : event ∈ events) : recordOverhead + event.length ≤ (measure events).2 :=
  (foldl_measure events (0, 0)).2.2 event member

namespace Staged

/-- The positions of the events. -/
def positions (self : Staged) : List Nat :=
  List.range' self.range.1 (self.range.2 + 1 - self.range.1)

end Staged

/-- From `first` on each request has the range behind the one before it, as long as it has
events, and `next` is behind them all. -/
def Laid : (first : Nat) → List Staged → (next : Nat) → Prop
  | first, [], next => next = first
  | first, staged :: later, next =>
      staged.range = (first, first + staged.request.events.length - 1) ∧
        Laid (first + staged.request.events.length) later next

theorem Laid.append {first middle next : Nat} {earlier later : List Staged}
    (left : Laid first earlier middle) (right : Laid middle later next) :
    Laid first (earlier ++ later) next := by
  induction earlier generalizing first with
  | nil =>
      obtain rfl : middle = first := left
      exact right
  | cons staged earlier ih => exact ⟨left.1, ih left.2⟩

theorem Laid.next_eq {first next : Nat} {staged : List Staged} (laid : Laid first staged next) :
    next = first + (staged.flatMap fun staged => staged.request.events).length := by
  induction staged generalizing first with
  | nil => exact laid
  | cons staged later ih =>
      rw [ih laid.2, List.flatMap_cons, List.length_append, Nat.add_assoc]

/-- Ranges laid end to end have every position once, in order. -/
theorem Laid.positions_eq {first next : Nat} {staged : List Staged}
    (laid : Laid first staged next)
    (nonempty : ∀ entry ∈ staged, entry.request.events ≠ []) :
    staged.flatMap Staged.positions = List.range' first (next - first) := by
  induction staged generalizing first with
  | nil =>
      obtain rfl : next = first := laid
      simp
  | cons staged later ih =>
      obtain ⟨rangeEq, rest⟩ := laid
      have positive := List.length_pos_of_ne_nil (nonempty staged (by simp))
      have grows := rest.next_eq
      have here : staged.positions = List.range' first staged.request.events.length := by
        rw [Staged.positions, rangeEq]
        congr 1
        dsimp only
        omega
      rw [List.flatMap_cons, here,
        ih rest fun entry member => nonempty entry (List.mem_cons_of_mem _ member),
        List.range'_append_1]
      congr 1
      omega

/-- The evaluation of requests: each of them is staged or was rejected, and the staged ones
have their ranges in order. -/
structure Evaluated (first : Nat) (requests : List Request) (evaluation : Evaluation) :
    Prop where
  first_eq : evaluation.batch.first = first
  accepted : (evaluation.batch.staged.map Staged.request).Sublist requests
  records_eq : evaluation.batch.records =
    evaluation.batch.staged.flatMap fun staged => staged.request.events
  laid : Laid first evaluation.batch.staged evaluation.batch.next
  rejected : ∀ reply ∈ evaluation.replies, ∃ error, reply.answer = .error error
  answered :
    (evaluation.replies.map Reply.address ++
      evaluation.batch.staged.map fun staged => staged.request.address).Perm
      (requests.map Request.address)

namespace Evaluated

variable {first : Nat} {requests : List Request} {evaluation : Evaluation}

theorem new (first : Nat) : Evaluated first [] ⟨Batch.new first, []⟩ := by
  constructor <;> simp [Batch.new, Laid]

theorem stage (evaluated : Evaluated first requests evaluation) (request : Request) :
    Evaluated first (requests ++ [request]) (evaluation.stage request) := by
  constructor
  case first_eq => exact evaluated.first_eq
  case accepted =>
    simp only [Evaluation.stage, Batch.stage, List.map_append, List.map_cons, List.map_nil]
    exact evaluated.accepted.append (List.Sublist.refl _)
  case records_eq => simp [Evaluation.stage, Batch.stage, evaluated.records_eq]
  case laid => exact evaluated.laid.append ⟨rfl, rfl⟩
  case rejected => exact evaluated.rejected
  case answered =>
    simp only [Evaluation.stage, Batch.stage, List.map_append, ← List.append_assoc]
    exact evaluated.answered.append_right _

theorem reject (evaluated : Evaluated first requests evaluation) (request : Request)
    (error : AppendError) :
    Evaluated first (requests ++ [request]) (evaluation.reject request error) := by
  constructor
  case first_eq => exact evaluated.first_eq
  case accepted => exact evaluated.accepted.trans (List.sublist_append_left _ _)
  case records_eq => exact evaluated.records_eq
  case laid => exact evaluated.laid
  case rejected =>
    intro reply member
    rcases List.mem_append.mp member with before | last
    · exact evaluated.rejected reply before
    · obtain rfl : reply = request.reply (.error error) := by simpa using last
      exact ⟨error, rfl⟩
  case answered =>
    have moved := evaluated.answered.append_right [request.address]
    simp only [Evaluation.reject, List.map_append, List.map_cons, List.map_nil,
      Request.address_reply, List.append_assoc] at moved ⊢
    refine List.Perm.trans ?_ moved
    exact (List.perm_append_comm).append_left _

theorem next (evaluated : Evaluated first requests evaluation) (evaluate : Evaluate) (tip : Nat)
    (request : Request) :
    Evaluated first (requests ++ [request]) (evaluation.next evaluate tip request) := by
  unfold Evaluation.next
  split
  · exact evaluated.stage request
  split
  · exact evaluated.reject request _
  split
  · exact evaluated.reject request _
  · exact evaluated.stage request
  · exact evaluated.reject request _

theorem foldl (evaluated : Evaluated first requests evaluation) (evaluate : Evaluate) (tip : Nat)
    (later : List Request) :
    Evaluated first (requests ++ later)
      (later.foldl (Evaluation.next evaluate tip) evaluation) := by
  induction later generalizing requests evaluation with
  | nil => simpa using evaluated
  | cons request later ih =>
      have rest := ih (evaluated.next evaluate tip request)
      rwa [List.append_assoc] at rest

end Evaluated

/-- The requests that the log took, with their ranges. -/
def Round.committed (self : Round) : List Staged :=
  match self.outcome with
  | some (.ok _) => self.batch.staged
  | _ => []

/-- What holds of a batch that was processed.  Its requests are evaluated in order and
answered once each, the log assigns what was staged, and requests that share a batch are
within the limits of the log. -/
structure Round.Sound (config : SegmentConfig) (round : Round) : Prop where
  evaluated : Evaluated round.batch.first round.requests ⟨round.batch, round.rejections⟩
  answered : (round.replies.map Reply.address).Perm (round.requests.map Request.address)
  assigned : ∀ range, round.outcome = some (.ok range) →
    range = (round.batch.first, round.batch.next - 1)
  shared : 1 < round.requests.length → WithinLimits config round.batch.records
  fits : 1 < round.requests.length →
    ∀ error, round.outcome = some (.error error) → error.isTooLarge = false

theorem Round.Sound.committed_nonempty {config : SegmentConfig} {round : Round}
    (sound : round.Sound config)
    (nonempty : ∀ request ∈ round.requests, request.events ≠ []) :
    ∀ staged ∈ round.committed, staged.request.events ≠ [] := by
  intro staged member
  apply nonempty
  apply sound.evaluated.accepted.subset
  apply List.mem_map_of_mem
  unfold Round.committed at member
  split at member
  · exact member
  · simp at member

/-- The requests may share a batch. -/
structure Shareable (cfg : WriterConfig) (config : SegmentConfig) (requests : List Request) :
    Prop where
  budget : markerBytes + framedSize (requests.flatMap Request.events) ≤ cfg.maxBatchBytes
  short : ∀ event ∈ requests.flatMap Request.events,
    recordOverhead + event.length ≤ config.maxRecordLen

theorem Shareable.withinLimits {cfg : WriterConfig} {config : SegmentConfig}
    {requests : List Request} (shareable : Shareable cfg config requests)
    (budget : cfg.maxBatchBytes ≤ config.capacity) {records : List (List UInt8)}
    (part : records.Sublist (requests.flatMap Request.events)) : WithinLimits config records where
  short := fun record member => shareable.short record (part.subset member)
  fits := by
    have smaller := framedSize_le_of_sublist part
    have within := shareable.budget
    rw [batchSize_eq]
    omega

theorem Evaluated.records_sublist {first : Nat} {requests : List Request}
    {evaluation : Evaluation} (evaluated : Evaluated first requests evaluation) :
    evaluation.batch.records.Sublist (requests.flatMap Request.events) := by
  rw [evaluated.records_eq, ← List.flatMap_map Staged.request Request.events]
  exact evaluated.accepted.flatMap Request.events

/-- Without records nothing was staged, because no request is without events. -/
theorem Evaluated.staged_eq_nil {first : Nat} {requests : List Request}
    {evaluation : Evaluation} (evaluated : Evaluated first requests evaluation)
    (nonempty : ∀ request ∈ requests, request.events ≠ [])
    (none : evaluation.batch.records = []) : evaluation.batch.staged = [] := by
  have empty := evaluated.records_eq
  rw [none] at empty
  cases stagedEq : evaluation.batch.staged with
  | nil => rfl
  | cons staged later =>
      rw [stagedEq, List.flatMap_cons] at empty
      have here : staged.request ∈ requests := by
        apply evaluated.accepted.subset
        simp [stagedEq]
      exact absurd (List.append_eq_nil_iff.mp empty.symm).1 (nonempty _ here)

variable {crc : List UInt8 → UInt32}

/-- The rounds take the log from `origin` to `log`.  Those with records call `append_batch`
on them once each, in this order, and have the outcomes of the calls. -/
inductive Appends (crc : List UInt8 → UInt32) (origin : LogState) :
    List Round → LogState → Prop
  | none : Appends crc origin [] origin
  | rejected {rounds : List Round} {log : LogState} {round : Round}
      (before : Appends crc origin rounds log) (records : round.batch.records = [])
      (outcome : round.outcome = none) : Appends crc origin (rounds ++ [round]) log
  | appended {rounds : List Round} {log : LogState} {round : Round} (env : AppendEnv)
      (before : Appends crc origin rounds log) (records : round.batch.records ≠ [])
      (outcome : round.outcome = some (appendBatch crc env round.batch.records log).1) :
      Appends crc origin (rounds ++ [round]) (appendBatch crc env round.batch.records log).2

/-- Processing requests is one sound round, which moves the log to the end of what it
committed. -/
theorem Worker.process_eq {config : SegmentConfig} {self : Worker} {reqs : List Request}
    (evaluate : Evaluate) (env : AppendEnv) (valid : config.validate = .ok ())
    (configured : Configured config self.log.set)
    (budget : self.cfg.maxBatchBytes ≤ config.capacity)
    (nonempty : ∀ request ∈ reqs, request.events ≠ [])
    (shareable : 1 < reqs.length → Shareable self.cfg config reqs) :
    ∃ round log, self.process crc evaluate env reqs = self.endRound round log ∧
      round.requests = reqs ∧ round.Sound config ∧ Configured config log.set ∧
      Laid self.log.set.nextPosition round.committed log.set.nextPosition ∧
      ∀ {origin : LogState} {rounds : List Round}, Appends crc origin rounds self.log →
        Appends crc origin (rounds ++ [round]) log := by
  have evaluated := (Evaluated.new self.log.set.nextPosition).foldl evaluate
    (self.log.set.nextPosition - 1) reqs
  rw [List.nil_append] at evaluated
  unfold Worker.process
  dsimp only
  generalize reqs.foldl (Evaluation.next evaluate (self.log.set.nextPosition - 1))
    ⟨Batch.new self.log.set.nextPosition, []⟩ = evaluation at evaluated ⊢
  have firstEq := evaluated.first_eq
  have evaluated' : Evaluated evaluation.batch.first reqs evaluation := firstEq ▸ evaluated
  have within : 1 < reqs.length → WithinLimits config evaluation.batch.records := by
    intro several
    exact (shareable several).withinLimits budget evaluated.records_sublist
  have committedAddresses : ∀ answer : Staged → Except AppendError (Nat × Nat),
      (evaluation.batch.staged.map fun staged =>
        staged.request.reply (answer staged)).map Reply.address =
        evaluation.batch.staged.map fun staged => staged.request.address := by
    intro answer
    simp
  by_cases none : evaluation.batch.records = []
  · have nothing := evaluated.staged_eq_nil nonempty none
    rw [if_pos none]
    refine ⟨_, _, rfl, rfl, ?_, configured, rfl, fun before => before.rejected none rfl⟩
    constructor
    case evaluated => exact evaluated'
    case answered => simpa [Round.replies, nothing] using evaluated.answered
    case assigned => intro range failed; cases failed
    case shared => exact within
    case fits => intro _ error failed; cases failed
  · rw [if_neg none]
    have kept := @KeepsConfig.appendBatch crc config env evaluation.batch.records valid self.log
      configured
    cases appended : appendBatch crc env evaluation.batch.records self.log with
    | mk outcome log =>
        rw [appended] at kept
        refine ⟨_, _, rfl, rfl, ?_, kept, ?_, ?_⟩
        · constructor
          case evaluated => exact evaluated'
          case answered =>
            cases outcome with
            | ok range =>
                simp only [Round.replies, Batch.commitOk, List.map_append, committedAddresses]
                exact evaluated.answered
            | error error =>
                simp only [Round.replies, Batch.commitErr, List.map_append, committedAddresses]
                exact evaluated.answered
          case assigned =>
            rintro range outcomeEq
            obtain rfl := Option.some.inj outcomeEq
            obtain ⟨_, rangeEq, _⟩ := appendBatch_ok appended
            rw [rangeEq, evaluated.laid.next_eq, firstEq, evaluated.records_eq]
          case shared => exact within
          case fits =>
            intro several error outcomeEq
            obtain rfl := Option.some.inj outcomeEq
            exact appendBatch_error_of_withinLimits valid configured (within several) appended
        · cases outcome with
          | ok range =>
              obtain ⟨_, _, positionEq⟩ := appendBatch_ok appended
              rw [positionEq, evaluated.records_eq]
              have laid := evaluated.laid
              rwa [laid.next_eq] at laid
          | error error => exact RolloverHistory.nextPosition_of_error appended
        · intro origin rounds before
          have later : Appends crc origin
              (rounds ++ [⟨reqs, evaluation.replies, evaluation.batch, some outcome⟩])
              (appendBatch crc env evaluation.batch.records self.log).2 :=
            before.appended env none (by rw [appended])
          rwa [appended] at later

namespace Worker

/-- The requests that arrived and were not processed yet. -/
def waiting (self : Worker) : List Request :=
  self.phase.held ++ self.pushback.toList ++ self.queue.filterMap Message.request?

/-- The thread does not stop while it holds a request back. -/
def Settled (state : Worker) : Prop :=
  match state.phase with
  | .collecting => state.shutdown = false
  | .draining _ _ => state.shutdown = false
  | .processing _ => state.shutdown = true → state.pushback = none
  | .stopped => state.pushback = none
  | .returned => state.pushback = none

/-- The invariant of a run over the log `origin`. -/
structure Kept (crc : List UInt8 → UInt32) (config : SegmentConfig) (origin : LogState)
    (state : Worker) : Prop where
  configured : Configured config state.log.set
  budget : state.cfg.maxBatchBytes ≤ config.capacity
  order : state.rounds.flatMap Round.requests ++ state.waiting = state.arrived
  nonempty : ∀ request ∈ state.arrived, request.events ≠ []
  settled : state.Settled
  draining : ∀ reqs bytes, state.phase = .draining reqs bytes →
    state.pushback = none ∧
      bytes = markerBytes + framedSize (reqs.flatMap Request.events) ∧
      Shareable state.cfg config reqs
  processing : ∀ reqs, state.phase = .processing reqs →
    1 < reqs.length → Shareable state.cfg config reqs
  sound : ∀ round ∈ state.rounds, round.Sound config
  replies : state.replies = state.rounds.flatMap Round.replies
  laid : Laid origin.set.nextPosition (state.rounds.flatMap Round.committed)
    state.log.set.nextPosition
  appends : Appends crc origin state.rounds state.log

theorem isOversized_eq_false {config : SegmentConfig} {self : Worker} {request : Request}
    (configEq : self.log.set.config = config)
    (fits : self.isOversized (measure request.events).1 (measure request.events).2 = false) :
    Shareable self.cfg config [request] := by
  simp only [isOversized, Bool.or_eq_false_iff, decide_eq_false_iff_not, Nat.not_lt,
    measure_fst, configEq] at fits
  constructor
  case budget => simpa using fits.1
  case short =>
    intro event member
    have bounded := le_measure_snd (show event ∈ request.events by simpa using member)
    omega

theorem kept_start {cfg : WriterConfig} {config : SegmentConfig} {log : LogState}
    {first : Worker} (configured : Configured config log.set)
    (started : start cfg log = some first) :
    first.Kept crc config log := by
  unfold start at started
  split at started
  · next accepted =>
      obtain rfl := Option.some.inj started
      constructor
      case configured => exact configured
      case budget => exact configured.config_eq ▸ accepted.2.2
      case laid => rfl
      case appends => exact .none
      case settled => rfl
      all_goals simp [waiting, Phase.held]
  · cases started

namespace Kept

variable {config : SegmentConfig} {origin : LogState} {state next : Worker}

theorem moves (kept : state.Kept crc config origin) (cfg : next.cfg = state.cfg)
    (log : next.log = state.log) (rounds : next.rounds = state.rounds)
    (replies : next.replies = state.replies) (arrived : next.arrived = state.arrived)
    (waiting : next.waiting = state.waiting) (settled : next.Settled)
    (draining : ∀ reqs bytes, next.phase = .draining reqs bytes →
      next.pushback = none ∧
        bytes = markerBytes + framedSize (reqs.flatMap Request.events) ∧
        Shareable state.cfg config reqs)
    (processing : ∀ reqs, next.phase = .processing reqs →
      1 < reqs.length → Shareable state.cfg config reqs) : next.Kept crc config origin := by
  constructor
  case configured => rw [log]; exact kept.configured
  case budget => rw [cfg]; exact kept.budget
  case order => rw [rounds, waiting, arrived]; exact kept.order
  case nonempty => rw [arrived]; exact kept.nonempty
  case settled => exact settled
  case draining => rw [cfg]; exact draining
  case processing => rw [cfg]; exact processing
  case sound => rw [rounds]; exact kept.sound
  case replies => rw [replies, rounds]; exact kept.replies
  case laid => rw [rounds, log]; exact kept.laid
  case appends => rw [rounds, log]; exact kept.appends

/-- A batch begins with the request that waits first. -/
theorem begin {request : Request} (kept : state.Kept crc config origin)
    (collecting : state.phase = .collecting) (cfg : next.cfg = state.cfg)
    (log : next.log = state.log) (rounds : next.rounds = state.rounds)
    (replies : next.replies = state.replies) (arrived : next.arrived = state.arrived)
    (pushback : next.pushback = none) (shutdown : next.shutdown = state.shutdown)
    (front : state.waiting = request :: next.queue.filterMap Message.request?) :
    (next.begin request).Kept crc config origin := by
  have configEq : next.log.set.config = config := log ▸ kept.configured.config_eq
  have held : (next.begin request).phase.held = [request] := by
    simp only [Worker.begin]
    split <;> rfl
  apply @moves _ _ _ state (next.begin request) kept cfg log rounds replies arrived
  case waiting =>
    rw [Worker.waiting, held, front]
    show [request] ++ next.pushback.toList ++ next.queue.filterMap Message.request? = _
    rw [pushback]
    rfl
  case settled =>
    have going : state.shutdown = false := by simpa [Settled, collecting] using kept.settled
    simp only [Worker.begin]
    split
    · intro _
      exact pushback
    · exact shutdown.trans going
  case draining =>
    intro reqs bytes here
    simp only [Worker.begin] at here
    split at here
    · cases here
    · next fits =>
        obtain ⟨rfl, rfl⟩ := Phase.draining.inj here
        refine ⟨pushback, by simp [measure_fst], ?_⟩
        rw [← cfg]
        exact isOversized_eq_false configEq (by simpa using fits)
  case processing =>
    intro reqs here several
    simp only [Worker.begin] at here
    split at here
    · obtain rfl := Phase.processing.inj here
      simp at several
    · cases here

theorem collect (kept : state.Kept crc config origin) (taken : state.step crc .collect = some next) :
    next.Kept crc config origin := by
  simp only [step] at taken
  split at taken
  · rename_i request collecting held
    obtain rfl := Option.some.inj taken
    apply kept.begin collecting
    case front => simp [waiting, collecting, Phase.held, held]
    all_goals rfl
  · rename_i request rest collecting noPushback queue
    obtain rfl := Option.some.inj taken
    apply kept.begin collecting
    case front => simp [waiting, collecting, Phase.held, noPushback, queue, Message.request?]
    case pushback => exact noPushback
    all_goals rfl
  · rename_i rest collecting noPushback queue
    obtain rfl := Option.some.inj taken
    apply kept.moves
    case waiting => simp [waiting, collecting, Phase.held, queue]
    case settled => exact noPushback
    case draining => simp
    case processing => simp
    all_goals rfl
  · rename_i collecting noPushback queue
    split at taken
    · obtain rfl := Option.some.inj taken
      apply kept.moves
      case waiting => simp [waiting, collecting, Phase.held, queue]
      case settled => exact noPushback
      case draining => simp
      case processing => simp
      all_goals rfl
    · cases taken
  · cases taken

/-- A request that is drained joins the batch or is held back. -/
theorem join {reqs : List Request} {bytes : Nat} {request : Request} {rest : List Message}
    (kept : state.Kept crc config origin) (draining : state.phase = .draining reqs bytes)
    (queue : state.queue = .append request :: rest) :
    ({ state with queue := rest }.join reqs bytes request).Kept crc config origin := by
  obtain ⟨noPushback, bytesEq, shareable⟩ := kept.draining reqs bytes draining
  have before : state.waiting = reqs ++ request :: rest.filterMap Message.request? := by
    simp [waiting, draining, Phase.held, noPushback, queue, Message.request?]
  have going : state.shutdown = false := by simpa [Settled, draining] using kept.settled
  simp only [Worker.join]
  split
  · apply kept.moves
    case waiting => rw [before]; simp [waiting, Phase.held]
    case settled => simp [Settled, going]
    case draining => simp
    case processing =>
      intro reqs' here _
      obtain rfl := Phase.processing.inj here
      exact shareable
    all_goals rfl
  · next room =>
      rw [not_or, Bool.not_eq_true, Nat.not_lt, measure_fst] at room
      obtain ⟨fits, within⟩ := room
      have alone : Shareable state.cfg config [request] :=
        @isOversized_eq_false config { state with queue := rest } request
          kept.configured.config_eq (by rw [measure_fst]; exact fits)
      apply kept.moves
      case waiting => rw [before]; simp [waiting, Phase.held, noPushback]
      case settled => exact going
      case draining =>
        intro reqs' bytes' here
        obtain ⟨rfl, rfl⟩ := Phase.draining.inj here
        have grown : bytes + framedSize request.events =
            markerBytes + framedSize ((reqs ++ [request]).flatMap Request.events) := by
          rw [List.flatMap_append, framedSize_append, bytesEq, Nat.add_assoc]
          simp
        refine ⟨noPushback, by rw [measure_fst]; exact grown, ?_, ?_⟩
        · rw [← grown]
          exact within
        · intro event member
          rw [List.flatMap_append, List.mem_append] at member
          rcases member with before | last
          · exact shareable.short event before
          · exact alone.short event last
      case processing => simp
      all_goals rfl

/-- The batch of a drain is handed on, with no request taken out of the queue. -/
theorem handOn {reqs : List Request} {bytes : Nat} {rest : List Message} {on : Bool}
    (kept : state.Kept crc config origin) (draining : state.phase = .draining reqs bytes)
    (queue : state.queue.filterMap Message.request? = rest.filterMap Message.request?) :
    Worker.Kept crc config origin
      { state with queue := rest, shutdown := on, phase := .processing reqs } := by
  obtain ⟨noPushback, _, shareable⟩ := kept.draining reqs bytes draining
  apply kept.moves
  case waiting => simp [waiting, draining, Phase.held, queue]
  case settled => exact fun _ => noPushback
  case draining => simp
  case processing =>
    intro reqs' here _
    obtain rfl := Phase.processing.inj here
    exact shareable
  all_goals rfl

theorem drain (kept : state.Kept crc config origin) (taken : state.step crc .drain = some next) :
    next.Kept crc config origin := by
  simp only [step] at taken
  split at taken
  · rename_i reqs bytes draining
    split at taken
    · split at taken
      · rename_i request rest queue
        obtain rfl := Option.some.inj taken
        exact kept.join draining queue
      · rename_i rest queue
        obtain rfl := Option.some.inj taken
        apply kept.handOn draining
        simp [queue]
      · obtain rfl := Option.some.inj taken
        exact kept.handOn draining rfl
    · obtain rfl := Option.some.inj taken
      exact kept.handOn draining rfl
  · cases taken

theorem process {evaluate : Evaluate} {env : AppendEnv} (valid : config.validate = .ok ())
    (kept : state.Kept crc config origin)
    (taken : state.step crc (.process evaluate env) = some next) : next.Kept crc config origin := by
  simp only [step] at taken
  split at taken
  swap
  · cases taken
  rename_i reqs processing
  obtain rfl := Option.some.inj taken
  have held : state.phase.held = reqs := by rw [processing]; rfl
  have nonempty : ∀ request ∈ reqs, request.events ≠ [] := by
    intro request member
    apply kept.nonempty
    rw [← kept.order, Worker.waiting, held]
    simp [member]
  obtain ⟨round, log, processed, requestsEq, sound, configured, laid, appends⟩ :=
    process_eq evaluate env valid kept.configured kept.budget nonempty
      (kept.processing reqs processing)
  rw [processed]
  have notHeld : (state.endRound round log).phase.held = [] := by
    simp only [endRound]
    split <;> rfl
  constructor
  case configured => exact configured
  case budget => exact kept.budget
  case order =>
    have order := kept.order
    rw [Worker.waiting, held] at order
    rw [Worker.waiting, notHeld]
    simp only [endRound, List.flatMap_append, List.flatMap_cons, List.flatMap_nil,
      List.append_nil, List.nil_append, requestsEq, List.append_assoc] at order ⊢
    exact order
  case nonempty => exact kept.nonempty
  case settled =>
    have settled : state.shutdown = true → state.pushback = none := by
      simpa [Settled, processing] using kept.settled
    simp only [endRound]
    split
    · next on => exact settled on
    · next going => simpa [Settled] using going
  case draining =>
    intro reqs bytes here
    simp only [endRound] at here
    split at here <;> cases here
  case processing =>
    intro reqs here
    simp only [endRound] at here
    split at here <;> cases here
  case sound =>
    intro other member
    rcases List.mem_append.mp member with before | last
    · exact kept.sound other before
    · obtain rfl : other = round := by simpa using last
      exact sound
  case replies => simp [endRound, kept.replies]
  case laid =>
    have whole := kept.laid.append laid
    simpa [endRound] using whole
  case appends => exact appends kept.appends

theorem submit {request : Request} (kept : state.Kept crc config origin)
    (taken : state.step crc (.submit request) = some next) : next.Kept crc config origin := by
  simp only [step] at taken
  split at taken
  · cases taken
  split at taken
  · obtain rfl := Option.some.inj taken
    exact kept
  rename_i accepts
  split at taken
  swap
  · cases taken
  obtain rfl := Option.some.inj taken
  constructor
  case order =>
    have order := kept.order
    simp only [Worker.waiting, List.filterMap_append, ← List.append_assoc] at order ⊢
    rw [order]
    rfl
  case nonempty =>
    intro other member
    rcases List.mem_append.mp member with before | last
    · exact kept.nonempty other before
    · obtain rfl : other = request := by simpa using last
      exact fun empty => accepts (.inl empty)
  case configured => exact kept.configured
  case budget => exact kept.budget
  case settled => exact kept.settled
  case draining => exact kept.draining
  case processing => exact kept.processing
  case sound => exact kept.sound
  case replies => exact kept.replies
  case laid => exact kept.laid
  case appends => exact kept.appends

theorem step {label : WorkerStep} (valid : config.validate = .ok ())
    (kept : state.Kept crc config origin) (taken : state.step crc label = some next) :
    next.Kept crc config origin := by
  cases label with
  | submit request => exact kept.submit taken
  | shutdown =>
      simp only [Worker.step] at taken
      split at taken
      · cases taken
      split at taken
      · obtain rfl := Option.some.inj taken
        exact kept
      split at taken
      · obtain rfl := Option.some.inj taken
        apply kept.moves
        case waiting => simp [waiting, Message.request?]
        case settled => exact kept.settled
        case draining => exact kept.draining
        case processing => exact kept.processing
        all_goals rfl
      · cases taken
  | clone =>
      simp only [Worker.step] at taken
      split at taken
      · cases taken
      · obtain rfl := Option.some.inj taken
        exact ⟨kept.configured, kept.budget, kept.order, kept.nonempty, kept.settled,
          kept.draining, kept.processing, kept.sound, kept.replies, kept.laid, kept.appends⟩
  | drop =>
      simp only [Worker.step] at taken
      split at taken
      · cases taken
      · obtain rfl := Option.some.inj taken
        exact ⟨kept.configured, kept.budget, kept.order, kept.nonempty, kept.settled,
          kept.draining, kept.processing, kept.sound, kept.replies, kept.laid, kept.appends⟩
  | collect => exact kept.collect taken
  | drain => exact kept.drain taken
  | process evaluate env => exact kept.process valid taken
  | finish =>
      simp only [Worker.step, Option.ite_none_right_eq_some, Option.some.injEq] at taken
      obtain ⟨stopped, rfl⟩ := taken
      apply kept.moves
      case waiting => simp [waiting, stopped, Phase.held]
      case settled => simpa [Settled, stopped] using kept.settled
      case draining => simp
      case processing => simp
      all_goals rfl

end Kept

/-- Every request of a run over the log `origin` is kept: `order` has each of them at its
place of arrival, `drained` says that a thread that stops leaves only what is in its queue,
`appends` that the log is what the batches made of it, and the ranges that were answered are
every position once. -/
structure KeepsRequests (crc : List UInt8 → UInt32) (config : SegmentConfig)
    (origin : LogState) (state : Worker) : Prop where
  order : state.rounds.flatMap Round.requests ++ state.phase.held ++ state.pushback.toList ++
    state.queue.filterMap Message.request? = state.arrived
  drained : state.phase = .stopped ∨ state.phase = .returned →
    state.rounds.flatMap Round.requests ++ state.queue.filterMap Message.request? =
      state.arrived
  answered : (state.replies.map Reply.address).Perm
    ((state.rounds.flatMap Round.requests).map Request.address)
  replies : state.replies = state.rounds.flatMap Round.replies
  sound : ∀ round ∈ state.rounds, round.Sound config
  appends : Appends crc origin state.rounds state.log
  dense : (state.rounds.flatMap Round.committed).flatMap Staged.positions =
    List.range' origin.set.nextPosition
      (state.log.set.nextPosition - origin.set.nextPosition)

theorem Kept.keepsRequests {config : SegmentConfig} {origin : LogState} {state : Worker}
    (kept : state.Kept crc config origin) : state.KeepsRequests crc config origin := by
  have order := kept.order
  rw [waiting, ← List.append_assoc, ← List.append_assoc] at order
  constructor
  case order => exact order
  case drained =>
    have settled := kept.settled
    rintro (stopped | returned)
    · rw [Settled, stopped] at settled
      simpa [stopped, Phase.held, show state.pushback = none from settled] using order
    · rw [Settled, returned] at settled
      simpa [returned, Phase.held, show state.pushback = none from settled] using order
  case answered =>
    rw [kept.replies, List.map_flatMap, List.map_flatMap]
    exact List.Perm.flatMap_left _ fun round member => (kept.sound round member).answered
  case replies => exact kept.replies
  case sound => exact kept.sound
  case appends => exact kept.appends
  case dense =>
    apply kept.laid.positions_eq
    intro staged member
    obtain ⟨round, roundMember, committed⟩ := List.mem_flatMap.mp member
    apply (kept.sound round roundMember).committed_nonempty _ staged committed
    intro request requestMember
    apply kept.nonempty
    rw [← order]
    have inRounds : request ∈ state.rounds.flatMap Round.requests :=
      List.mem_flatMap.mpr ⟨round, roundMember, requestMember⟩
    simp only [List.mem_append]
    exact .inl (.inl (.inl inRounds))

/-- A thread on a new log. -/
def smallWorker : Worker :=
  ⟨⟨4, 8, 60⟩,
    ⟨[(Shelf.fresh crc32 smallConfig 0 firstPosition).entry],
      ⟨smallConfig, [], firstPosition, [],
        (Seglog.Writer.created (Shelf.fresh crc32 smallConfig 0 firstPosition).file
          smallConfig.segmentSize smallConfig.headerSize).setMaxRecord smallConfig.maxRecordLen,
        firstPosition⟩⟩,
    [], 2, .collecting, none, false, [], [], []⟩

end Worker

end Tephra.Writer.GroupCommit
