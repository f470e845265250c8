import Tephra.Histories
import Tephra.RecordFraming
import Mathlib.Data.List.Perm.Basic

/-!
# The queue of the write coordinator

Clients queue their append requests, the writer thread drains them into batches
that stay within its budgets, and every request of a batch is answered on its own
reply channel, a rejected one at once and a staged one with its commit.  The
thread ends at the shutdown message.
-/

namespace Tephra.Writer

open Histories

/-- `RECORD_OVERHEAD`. -/
def recordOverhead : Nat := Seglog.recordHeadSize

/-- `MARKER_BYTES`. -/
def markerBytes : Nat := Seglog.recordHeadSize + Seglog.commitMarkerPayload

/-- A request: the lengths of its encoded events, and where its reply goes. -/
structure Request where
  events : List Nat
  channel : Nat
  token : Nat
deriving DecidableEq, Repr

namespace Request

/-- The reply channel with the token that comes back on it. -/
def address (request : Request) : Nat × Nat :=
  (request.channel, request.token)

/-- `measure`: the framed bytes of the events, and the largest framed event. -/
def measure (request : Request) : Nat × Nat :=
  request.events.foldl
    (fun sums event => (sums.1 + (recordOverhead + event), max sums.2 (recordOverhead + event)))
    (0, 0)

end Request

inductive Message
  | append (request : Request)
  | shutdown
deriving DecidableEq, Repr

def Message.request? : Message → Option Request
  | .append request => some request
  | .shutdown => none

@[simp]
theorem filterMap_shutdown_cons (messages : List Message) :
    (.shutdown :: messages).filterMap Message.request? = messages.filterMap Message.request? :=
  rfl

/-- What a reply carries. -/
inductive Outcome
  /-- The condition of the request failed, or could not be evaluated. -/
  | rejected
  | committed
  /-- The log write of the batch failed. -/
  | failed
deriving DecidableEq, Repr

structure Reply where
  channel : Nat
  token : Nat
  outcome : Outcome
deriving DecidableEq, Repr

def Reply.address (reply : Reply) : Nat × Nat :=
  (reply.channel, reply.token)

/-- The bounds of the queue and of a batch. -/
structure WriterConfig where
  queueCapacity : Nat
  maxBatchRecords : Nat
  maxBatchBytes : Nat
  maxRecordLen : Nat
deriving DecidableEq, Repr

/-- The next step of the writer thread. -/
inductive WorkerPhase
  /-- `collect`, before its first request. -/
  | collecting
  /-- `collect`, with the requests drained so far and their bytes. -/
  | draining (reqs : List Request) (bytes : Nat)
  /-- `process`, with the requests to evaluate and those staged. -/
  | evaluating (reqs staged : List Request)
  /-- `commit_ok` or `commit_err`, with the staged requests to reply to. -/
  | replying (outcome : Outcome) (staged : List Request)
  /-- Out of the loop of `run`. -/
  | stopped
  | returned
deriving DecidableEq, Repr

/-- The requests the writer thread holds. -/
def WorkerPhase.held : WorkerPhase → List Request
  | .draining reqs _ => reqs
  | .evaluating reqs staged => staged ++ reqs
  | .replying _ staged => staged
  | _ => []

/-- The coordinator and its clients.  `accepted` are the requests whose submission
returned `Ok`, and `replies` all replies sent. -/
structure Coordinator where
  cfg : WriterConfig
  queue : List Message
  senders : Nat
  worker : WorkerPhase
  pushback : Option Request
  shutdown : Bool
  accepted : List Request
  replies : List Reply
deriving DecidableEq, Repr

inductive CoordinatorStep
  /-- `append_submit`. -/
  | submit (request : Request)
  /-- `WriteCoordinator::shutdown` sends its message. -/
  | shutdown
  /-- A handle is cloned or dropped. -/
  | clone
  | drop
  /-- The first receive of `collect`. -/
  | collect
  /-- A `try_recv` of `collect`. -/
  | drain
  /-- The condition of the next request is evaluated. -/
  | evaluate (accepts : Bool)
  /-- `append_batch` on the staged records. -/
  | commit (succeeds : Bool)
  /-- The next staged request is replied to. -/
  | reply
  /-- `close`, and the return from `run`. -/
  | finish
deriving DecidableEq, Repr

namespace Coordinator

/-- `WriteCoordinator::start`: the coordinator keeps one sender and hands one out. -/
def start (cfg : WriterConfig) : Coordinator :=
  ⟨cfg, [], 2, .collecting, none, false, [], []⟩

def isOversized (state : Coordinator) (recordBytes largestEvent : Nat) : Bool :=
  state.cfg.maxBatchBytes < markerBytes + recordBytes || state.cfg.maxRecordLen < largestEvent

/-- The batch starts with its first request, alone when that is oversized. -/
def begin (state : Coordinator) (first : Request) : Coordinator :=
  let (firstSum, firstMax) := first.measure
  { state with worker :=
      if state.isOversized firstSum firstMax then .evaluating [first] []
      else .draining [first] (markerBytes + firstSum) }

/-- The next request of a drain joins the batch, or is held back for the next one. -/
def join (state : Coordinator) (reqs : List Request) (bytes : Nat) (request : Request) :
    Coordinator :=
  let (sum, max) := request.measure
  if state.isOversized sum max ∨ state.cfg.maxBatchBytes < bytes + sum then
    { state with pushback := some request, worker := .evaluating reqs [] }
  else { state with worker := .draining (reqs ++ [request]) (bytes + sum) }

/-- The loop of `run` goes on, unless a shutdown was seen. -/
def nextRound (state : Coordinator) : Coordinator :=
  { state with worker := if state.shutdown then .stopped else .collecting }

def send (state : Coordinator) (request : Request) (outcome : Outcome) : Coordinator :=
  { state with replies := state.replies ++ [⟨request.channel, request.token, outcome⟩] }

/-- The step of a label, if it is enabled. -/
def step (state : Coordinator) : CoordinatorStep → Option Coordinator
  | .submit request =>
      if state.senders = 0 then none
      else if request.events = [] ∨ state.worker = .returned then
        -- the submission fails with `Empty` or `Shutdown`
        some state
      else if state.queue.length < state.cfg.queueCapacity then
        some { state with queue := state.queue ++ [.append request]
                          accepted := state.accepted ++ [request] }
      else none
  | .shutdown =>
      if state.senders = 0 then none
      else if state.worker = .returned then some state
      else if state.queue.length < state.cfg.queueCapacity then
        some { state with queue := state.queue ++ [.shutdown] }
      else none
  | .clone =>
      if state.senders = 0 then none else some { state with senders := state.senders + 1 }
  | .drop =>
      if state.senders = 0 then none else some { state with senders := state.senders - 1 }
  | .collect =>
      match state.worker, state.pushback, state.queue with
      | .collecting, some request, _ => some ({ state with pushback := none }.begin request)
      | .collecting, none, .append request :: rest =>
          some ({ state with queue := rest }.begin request)
      | .collecting, none, .shutdown :: rest =>
          some { state with queue := rest, shutdown := true, worker := .stopped }
      | .collecting, none, [] =>
          if state.senders = 0 then some { state with shutdown := true, worker := .stopped }
          else none
      | _, _, _ => none
  | .drain =>
      match state.worker, state.queue with
      | .draining reqs bytes, queue =>
          if reqs.length < state.cfg.maxBatchRecords then
            match queue with
            | .append request :: rest => some ({ state with queue := rest }.join reqs bytes request)
            | .shutdown :: rest =>
                some { state with queue := rest, shutdown := true
                                  worker := .evaluating reqs [] }
            | [] =>
                some { state with shutdown := state.shutdown || state.senders == 0
                                  worker := .evaluating reqs [] }
          else some { state with worker := .evaluating reqs [] }
      | _, _ => none
  | .evaluate accepts =>
      match state.worker with
      | .evaluating (request :: reqs) staged =>
          if accepts then
            some { state with worker := .evaluating reqs (staged ++ [request]) }
          else some ({ state with worker := .evaluating reqs staged }.send request .rejected)
      | _ => none
  | .commit succeeds =>
      match state.worker with
      | .evaluating [] staged =>
          if staged.flatMap Request.events = [] then some state.nextRound
          else some { state with
            worker := .replying (if succeeds then .committed else .failed) staged }
      | _ => none
  | .reply =>
      match state.worker with
      | .replying outcome (request :: staged) =>
          some ({ state with worker := .replying outcome staged }.send request outcome)
      | .replying _ [] => some state.nextRound
      | _ => none
  | .finish =>
      if state.worker = .stopped then some { state with worker := .returned } else none

/-- The accepted requests without a reply. -/
def waiting (state : Coordinator) : List Request :=
  state.worker.held ++ state.pushback.toList ++ state.queue.filterMap Message.request?

/-- No request is accepted behind the shutdown message. -/
def SubmitsInTime (state : Coordinator) : CoordinatorStep → Prop
  | .submit request =>
      request.events = [] ∨ state.worker = .returned ∨
        .shutdown ∉ state.queue ∧ state.shutdown = false
  | _ => True

/-- Behind a shutdown message there is no request. -/
def InLine (ahead behind : Message) : Prop :=
  ahead = .shutdown → behind.request? = none

/-- The invariant: replies and waiting requests together are what was accepted, and
nothing waits behind a shutdown. -/
structure Accounted (state : Coordinator) : Prop where
  replies : (state.replies.map Reply.address ++ state.waiting.map Request.address).Perm
    (state.accepted.map Request.address)
  nonempty : ∀ request ∈ state.waiting, request.events ≠ []
  line : state.queue.Pairwise InLine
  draining : ∀ reqs bytes, state.worker = .draining reqs bytes → state.pushback = none
  signalled : state.shutdown = true →
    state.pushback = none ∧ ∀ message ∈ state.queue, message.request? = none
  stopped : state.worker = .stopped ∨ state.worker = .returned → state.shutdown = true

theorem accounted_start (cfg : WriterConfig) : (start cfg).Accounted := by
  constructor <;> simp [start, waiting, WorkerPhase.held]

theorem Accounted.waiting_eq_nil {state : Coordinator} (accounted : state.Accounted)
    (returned : state.worker = .returned) : state.waiting = [] := by
  obtain ⟨pushback, none⟩ := accounted.signalled (accounted.stopped (Or.inr returned))
  have queue : state.queue.filterMap Message.request? = [] :=
    List.filterMap_eq_nil_iff.mpr none
  simp [waiting, returned, WorkerPhase.held, pushback, queue]

theorem Accounted.moves {state next : Coordinator} (accounted : state.Accounted)
    (waiting : next.waiting = state.waiting) (replies : next.replies = state.replies)
    (accepted : next.accepted = state.accepted)
    (queue : next.queue.Sublist state.queue)
    (draining : ∀ reqs bytes, next.worker = .draining reqs bytes → next.pushback = none)
    (signalled : next.shutdown = true →
      next.pushback = none ∧ ∀ message ∈ next.queue, message.request? = none)
    (stopped : next.worker = .stopped ∨ next.worker = .returned → next.shutdown = true) :
    next.Accounted := by
  constructor
  case replies => rw [replies, waiting, accepted]; exact accounted.replies
  case nonempty => rw [waiting]; exact accounted.nonempty
  case line => exact accounted.line.sublist queue
  case draining => exact draining
  case signalled => exact signalled
  case stopped => exact stopped

theorem Accounted.turns {state : Coordinator} {phase : WorkerPhase}
    (accounted : state.Accounted) (held : phase.held = state.worker.held)
    (draining : ∀ reqs bytes, phase ≠ .draining reqs bytes)
    (stopped : phase = .stopped ∨ phase = .returned → state.shutdown = true) :
    Accounted { state with worker := phase } := by
  apply accounted.moves
  case waiting => simp [waiting, held]
  case replies => rfl
  case accepted => rfl
  case queue => exact List.Sublist.refl _
  case draining => intro reqs bytes here; exact absurd here (draining reqs bytes)
  case signalled => exact accounted.signalled
  case stopped => exact stopped

theorem Accounted.behind_shutdown {state : Coordinator} {rest : List Message}
    (accounted : state.Accounted) (queue : state.queue = .shutdown :: rest) :
    ∀ message ∈ rest, message.request? = none := by
  have line := accounted.line
  rw [queue] at line
  intro message member
  exact (List.pairwise_cons.mp line).1 message member rfl

/-- The thread goes on with the requests it holds, and none is left in the queue. -/
theorem Accounted.signals {state : Coordinator} {rest : List Message} {on : Bool}
    {phase : WorkerPhase} (accounted : state.Accounted) (noPushback : state.pushback = none)
    (held : phase.held = state.worker.held)
    (queue : state.queue.filterMap Message.request? = rest.filterMap Message.request?)
    (shorter : rest.Sublist state.queue) (none : ∀ message ∈ rest, message.request? = none)
    (stopped : phase = .stopped ∨ phase = .returned → on = true) :
    Accounted { state with queue := rest, shutdown := on, worker := phase } := by
  apply accounted.moves
  case waiting => simp [waiting, held, queue]
  case replies => rfl
  case accepted => rfl
  case queue => exact shorter
  case draining => intro _ _ _; exact noPushback
  case signalled => intro _; exact ⟨noPushback, none⟩
  case stopped => exact stopped

theorem Accounted.answers {state next : Coordinator} {request : Request} {outcome : Outcome}
    (accounted : state.Accounted)
    (waiting : state.waiting.Perm (request :: next.waiting))
    (replies : next.replies =
      state.replies ++ [⟨request.channel, request.token, outcome⟩])
    (accepted : next.accepted = state.accepted) (queue : next.queue = state.queue)
    (pushback : next.pushback = state.pushback) (shutdown : next.shutdown = state.shutdown)
    (draining : ∀ reqs bytes, next.worker ≠ .draining reqs bytes)
    (going : next.worker ≠ .stopped ∧ next.worker ≠ .returned) : next.Accounted := by
  constructor
  case replies =>
    rw [replies, accepted]
    refine List.Perm.trans ?_ accounted.replies
    have moved := (waiting.map Request.address).append_left (state.replies.map Reply.address)
    refine List.Perm.trans ?_ moved.symm
    simp [Reply.address, Request.address]
  case nonempty =>
    intro other member
    apply accounted.nonempty other
    exact waiting.symm.subset (List.mem_cons_of_mem _ member)
  case line => rw [queue]; exact accounted.line
  case draining => intro reqs bytes here; exact absurd here (draining reqs bytes)
  case signalled => rw [shutdown, pushback, queue]; exact accounted.signalled
  case stopped =>
    rintro (here | here)
    · exact absurd here going.1
    · exact absurd here going.2

theorem Accounted.begin {state next : Coordinator} {request : Request}
    (accounted : state.Accounted) (collecting : state.worker = .collecting)
    (replies : next.replies = state.replies) (accepted : next.accepted = state.accepted)
    (queue : next.queue.Sublist state.queue) (pushback : next.pushback = none)
    (shutdown : next.shutdown = state.shutdown)
    (first : state.pushback.toList ++ state.queue.filterMap Message.request? =
      request :: next.queue.filterMap Message.request?) :
    (next.begin request).Accounted := by
  have held : (next.begin request).worker.held = [request] := by
    simp only [Coordinator.begin]
    split <;> rfl
  apply accounted.moves
  case waiting =>
    have sameQueue : (next.begin request).queue = next.queue := rfl
    have samePushback : (next.begin request).pushback = next.pushback := rfl
    have before : state.waiting = request :: next.queue.filterMap Message.request? := by
      rw [Coordinator.waiting, collecting, List.append_assoc, first]
      rfl
    rw [before, Coordinator.waiting, held, sameQueue, samePushback, pushback]
    rfl
  case replies => exact replies
  case accepted => exact accepted
  case queue => exact queue
  case draining => intro _ _ _; exact pushback
  case signalled =>
    intro on
    have signalled : state.shutdown = true := shutdown.symm.trans on
    obtain ⟨none, empty⟩ := accounted.signalled signalled
    have queueEmpty : state.queue.filterMap Message.request? = [] :=
      List.filterMap_eq_nil_iff.mpr empty
    simp [none, queueEmpty] at first
  case stopped =>
    simp only [Coordinator.begin]
    split <;> simp

theorem Accounted.collect {state next : Coordinator} (accounted : state.Accounted)
    (taken : state.step .collect = some next) : next.Accounted := by
  simp only [step] at taken
  split at taken
  · rename_i request collecting held
    obtain rfl := Option.some.inj taken
    apply accounted.begin collecting
    case queue => exact List.Sublist.refl _
    case first => simp [held]
    all_goals rfl
  · rename_i request rest collecting noPushback queue
    obtain rfl := Option.some.inj taken
    apply accounted.begin collecting
    case queue => rw [queue]; exact List.sublist_cons_self _ _
    case pushback => exact noPushback
    case first => simp [noPushback, queue, Message.request?]
    all_goals rfl
  · rename_i rest collecting noPushback queue
    obtain rfl := Option.some.inj taken
    apply accounted.signals noPushback
    case held => simp [collecting, WorkerPhase.held]
    case queue => simp [queue]
    case shorter => rw [queue]; exact List.sublist_cons_self _ _
    case none => exact accounted.behind_shutdown queue
    case stopped => simp
  · rename_i collecting noPushback queue
    split at taken
    · obtain rfl := Option.some.inj taken
      apply accounted.signals noPushback
      case held => simp [collecting, WorkerPhase.held]
      case queue => rfl
      case shorter => exact List.Sublist.refl _
      case none => simp [queue]
      case stopped => simp
    · simp at taken
  · simp at taken

theorem Accounted.join {state : Coordinator} (accounted : state.Accounted)
    {reqs : List Request} {bytes : Nat} {request : Request} {rest : List Message}
    (draining : state.worker = .draining reqs bytes)
    (queue : state.queue = .append request :: rest) :
    ({ state with queue := rest }.join reqs bytes request).Accounted := by
  have noPushback := accounted.draining reqs bytes draining
  have going : state.shutdown ≠ true := by
    intro on
    have := (accounted.signalled on).2 (.append request) (by simp [queue])
    simp [Message.request?] at this
  have shorter : rest.Sublist state.queue := by
    rw [queue]
    exact List.sublist_cons_self _ _
  have before : state.waiting = reqs ++ request :: rest.filterMap Message.request? := by
    simp [waiting, draining, WorkerPhase.held, noPushback, queue, Message.request?]
  simp only [Coordinator.join]
  split
  · apply accounted.moves
    case waiting => rw [before]; simp [waiting, WorkerPhase.held]
    case replies => rfl
    case accepted => rfl
    case queue => exact shorter
    case draining => simp
    case signalled => intro on; exact absurd on going
    case stopped => simp
  · apply accounted.moves
    case waiting => rw [before]; simp [waiting, WorkerPhase.held, noPushback]
    case replies => rfl
    case accepted => rfl
    case queue => exact shorter
    case draining => intro _ _ _; exact noPushback
    case signalled => intro on; exact absurd on going
    case stopped => simp

theorem Accounted.drain {state next : Coordinator} (accounted : state.Accounted)
    (taken : state.step .drain = some next) : next.Accounted := by
  simp only [step] at taken
  split at taken
  · rename_i reqs bytes draining
    have noPushback := accounted.draining reqs bytes draining
    split at taken
    · split at taken
      · rename_i request rest queue
        obtain rfl := Option.some.inj taken
        exact accounted.join draining queue
      · rename_i rest queue
        obtain rfl := Option.some.inj taken
        apply accounted.signals noPushback
        case held => simp [draining, WorkerPhase.held]
        case queue => simp [queue]
        case shorter => rw [queue]; exact List.sublist_cons_self _ _
        case none => exact accounted.behind_shutdown queue
        case stopped => simp
      · rename_i queue
        obtain rfl := Option.some.inj taken
        apply accounted.signals noPushback
        case held => simp [draining, WorkerPhase.held]
        case queue => rfl
        case shorter => exact List.Sublist.refl _
        case none => simp [queue]
        case stopped => simp
    · obtain rfl := Option.some.inj taken
      apply accounted.turns <;> simp [draining, WorkerPhase.held]
  · simp at taken

/-- The loop of `run` after a batch with nothing left to reply to. -/
theorem Accounted.nextRound {state : Coordinator} (accounted : state.Accounted)
    (done : state.worker.held = []) : state.nextRound.Accounted := by
  have held : state.nextRound.worker.held = [] := by
    simp only [Coordinator.nextRound]
    split <;> rfl
  apply accounted.turns
  case held => rw [done]; exact held
  case draining =>
    intro reqs bytes
    split <;> simp
  case stopped =>
    split
    · rename_i on
      intro _
      exact on
    · simp

theorem Accounted.evaluate {state next : Coordinator} {accepts : Bool}
    (accounted : state.Accounted) (taken : state.step (.evaluate accepts) = some next) :
    next.Accounted := by
  simp only [step] at taken
  split at taken
  · rename_i request reqs staged evaluating
    split at taken
    · obtain rfl := Option.some.inj taken
      apply accounted.turns <;> simp [evaluating, WorkerPhase.held]
    · obtain rfl := Option.some.inj taken
      apply accounted.answers
      case waiting =>
        simp only [waiting, send, evaluating, WorkerPhase.held, List.append_assoc,
          List.cons_append]
        exact List.perm_middle
      case replies => rfl
      all_goals simp [send]
  · simp at taken

theorem Accounted.commit {state next : Coordinator} {succeeds : Bool}
    (accounted : state.Accounted) (taken : state.step (.commit succeeds) = some next) :
    next.Accounted := by
  simp only [step] at taken
  split at taken
  · rename_i staged evaluating
    split at taken
    · rename_i noRecords
      obtain rfl := Option.some.inj taken
      apply accounted.nextRound
      -- every staged request has events, so a batch without records has none staged
      cases staged with
      | nil => simp [evaluating, WorkerPhase.held]
      | cons request staged =>
          have some : request.events ≠ [] := by
            apply accounted.nonempty
            simp [waiting, evaluating, WorkerPhase.held]
          simp [some] at noRecords
    · obtain rfl := Option.some.inj taken
      apply accounted.turns <;> simp [evaluating, WorkerPhase.held]
  · simp at taken

theorem Accounted.reply {state next : Coordinator} (accounted : state.Accounted)
    (taken : state.step .reply = some next) : next.Accounted := by
  simp only [step] at taken
  split at taken
  · rename_i outcome request staged replying
    obtain rfl := Option.some.inj taken
    apply accounted.answers
    case waiting =>
      simp only [waiting, send, replying, WorkerPhase.held, List.append_assoc,
        List.cons_append]
      exact List.Perm.refl _
    case replies => rfl
    all_goals simp [send]
  · rename_i outcome replying
    obtain rfl := Option.some.inj taken
    apply accounted.nextRound
    simp [replying, WorkerPhase.held]
  · simp at taken

theorem Accounted.submit {state next : Coordinator} {request : Request}
    (accounted : state.Accounted) (allowed : state.SubmitsInTime (.submit request))
    (taken : state.step (.submit request) = some next) : next.Accounted := by
  simp only [step] at taken
  split at taken
  · simp at taken
  · split at taken
    · obtain rfl := Option.some.inj taken
      exact accounted
    · rename_i accepts
      simp only [not_or] at accepts
      split at taken
      · obtain rfl := Option.some.inj taken
        obtain ⟨unsignalled, going⟩ : .shutdown ∉ state.queue ∧ state.shutdown = false := by
          rcases allowed with empty | returned | inTime
          · exact absurd empty accepts.1
          · exact absurd returned accepts.2
          · exact inTime
        have waits : Coordinator.waiting { state with
            queue := state.queue ++ [.append request]
            accepted := state.accepted ++ [request] } = state.waiting ++ [request] := by
          simp [waiting, Message.request?]
        constructor
        case replies =>
          rw [waits]
          simp only [List.map_append, ← List.append_assoc]
          exact accounted.replies.append_right _
        case nonempty =>
          rw [waits]
          intro other member
          rcases List.mem_append.mp member with before | last
          · exact accounted.nonempty other before
          · obtain rfl : other = request := by simpa using last
            exact accepts.1
        case line =>
          apply List.pairwise_append.mpr
          refine ⟨accounted.line, List.pairwise_singleton _ _, ?_⟩
          rintro ahead member behind _ rfl
          exact absurd member unsignalled
        case draining => exact accounted.draining
        case signalled => simp [going]
        case stopped => exact accounted.stopped
      · simp at taken

/-- A step whose submissions come in time keeps the requests accounted for. -/
theorem Accounted.step {state next : Coordinator} {label : CoordinatorStep}
    (accounted : state.Accounted) (allowed : state.SubmitsInTime label)
    (taken : state.step label = some next) : next.Accounted := by
  cases label with
  | submit request => exact accounted.submit allowed taken
  | shutdown =>
      simp only [Coordinator.step] at taken
      split at taken
      · simp at taken
      · split at taken
        · obtain rfl := Option.some.inj taken
          exact accounted
        · split at taken
          · obtain rfl := Option.some.inj taken
            constructor
            case replies => simpa [waiting] using accounted.replies
            case nonempty => simpa [waiting] using accounted.nonempty
            case line =>
              apply List.pairwise_append.mpr
              refine ⟨accounted.line, List.pairwise_singleton _ _, ?_⟩
              intro ahead _ behind last _
              obtain rfl : behind = .shutdown := by simpa using last
              rfl
            case draining => exact accounted.draining
            case signalled =>
              intro on
              obtain ⟨noPushback, none⟩ := accounted.signalled on
              refine ⟨noPushback, ?_⟩
              intro message member
              rcases List.mem_append.mp member with before | last
              · exact none message before
              · obtain rfl : message = .shutdown := by simpa using last
                rfl
            case stopped => exact accounted.stopped
          · simp at taken
  | clone =>
      simp only [Coordinator.step] at taken
      split at taken
      · simp at taken
      · obtain rfl := Option.some.inj taken
        exact ⟨accounted.replies, accounted.nonempty, accounted.line, accounted.draining,
          accounted.signalled, accounted.stopped⟩
  | drop =>
      simp only [Coordinator.step] at taken
      split at taken
      · simp at taken
      · obtain rfl := Option.some.inj taken
        exact ⟨accounted.replies, accounted.nonempty, accounted.line, accounted.draining,
          accounted.signalled, accounted.stopped⟩
  | collect => exact accounted.collect taken
  | drain => exact accounted.drain taken
  | evaluate accepts => exact accounted.evaluate taken
  | commit succeeds => exact accounted.commit taken
  | reply => exact accounted.reply taken
  | finish =>
      simp only [Coordinator.step, Option.ite_none_right_eq_some, Option.some.injEq] at taken
      obtain ⟨stopped, rfl⟩ := taken
      apply accounted.turns
      case held => simp [stopped, WorkerPhase.held]
      case draining => simp
      case stopped => intro _; exact accounted.stopped (Or.inl stopped)

/-- When no request is accepted behind the shutdown message, every accepted request
either waits or has had exactly one reply, on its own channel and with its own
token, and when the writer thread has returned none waits. -/
theorem every_submission_answered (cfg : WriterConfig) (labels : List CoordinatorStep)
    (state : Coordinator) (meets : Allowed step SubmitsInTime (start cfg) labels)
    (reached : run step (start cfg) labels = some state) :
    (state.replies.map Reply.address ++ state.waiting.map Request.address).Perm
      (state.accepted.map Request.address) ∧
    (state.worker = .returned →
      (state.replies.map Reply.address).Perm (state.accepted.map Request.address)) := by
  have accounted : state.Accounted :=
    invariant_of_run (fun _ _ _ before allowed taken => before.step allowed taken)
      (accounted_start cfg) meets reached
  refine ⟨accounted.replies, ?_⟩
  intro returned
  simpa [accounted.waiting_eq_nil returned] using accounted.replies

/-- A rejected and a committed request ahead of the shutdown message. -/
theorem every_submission_answered_two :
    ([(0, 7), (1, 8)] : List (Nat × Nat)).Perm [(0, 7), (1, 8)] :=
  (every_submission_answered ⟨4, 8, 1000, 1000⟩
    [.submit ⟨[3], 0, 7⟩, .submit ⟨[5], 1, 8⟩, .shutdown, .collect, .drain, .drain,
      .evaluate false, .evaluate true, .commit true, .reply, .reply, .finish]
    ⟨⟨4, 8, 1000, 1000⟩, [], 2, .returned, none, true, [⟨[3], 0, 7⟩, ⟨[5], 1, 8⟩],
      [⟨0, 7, .rejected⟩, ⟨1, 8, .committed⟩]⟩
    (Allowed.cons (Or.inr (Or.inr (by decide))) rfl
      (Allowed.cons (Or.inr (Or.inr (by decide))) rfl
        (Allowed.cons trivial rfl (Allowed.cons trivial rfl (Allowed.cons trivial rfl
          (Allowed.cons trivial rfl (Allowed.cons trivial rfl (Allowed.cons trivial rfl
            (Allowed.cons trivial rfl (Allowed.cons trivial rfl (Allowed.cons trivial rfl
              (Allowed.cons trivial rfl trivial))))))))))))
    (by decide)).2 rfl

/-- A request accepted behind the shutdown message, which the thread takes first. -/
theorem submission_behind_shutdown_unanswered :
    ∃ labels state, run step (start ⟨4, 8, 1000, 1000⟩) labels = some state ∧
      state.worker = .returned ∧
      ¬ (state.replies.map Reply.address).Perm (state.accepted.map Request.address) := by
  refine ⟨[.shutdown, .submit ⟨[3], 0, 7⟩, .collect, .finish],
    ⟨⟨4, 8, 1000, 1000⟩, [.append ⟨[3], 0, 7⟩], 2, .returned, none, true, [⟨[3], 0, 7⟩], []⟩,
    by decide, rfl, by decide⟩

end Coordinator

end Tephra.Writer
