import Tephra.Histories
import Tephra.Parties

/-!
# The requests of an async client connection

A caller registers its request, queues it for the writer task and waits; the
reader task answers what is registered.  When the reader task ends it fails the
whole registry once.  A registered request holds a permit until its entry goes.
-/

namespace Tephra.Client

open Histories Parties

/-- Where the caller of a request stands. -/
inductive RequestPhase
  /-- Awaits a permit of the outstanding-request budget. -/
  | queued
  /-- With a permit, before it registers. -/
  | permitted
  /-- Registered, in `out_tx.send`. -/
  | sending
  /-- The request is with the writer task; the caller awaits its channel. -/
  | waiting
  /-- The send has failed and the caller has its error. -/
  | returned
  /-- The caller has dropped its future or its stream. -/
  | abandoned
deriving DecidableEq, Repr

/-- A request: whether it is a read or a subscription, whether its entry is in the
registry, and whether its channel has got its end. -/
structure Request where
  stream : Bool
  phase : RequestPhase
  registered : Bool
  answered : Bool
deriving DecidableEq, Repr

namespace Request

def new (stream : Bool) : Request :=
  ⟨stream, .queued, false, false⟩

/-- The entry leaves the registry with the end sent to its sink. -/
def finish (request : Request) : Request :=
  { request with registered := false, answered := true }

end Request

/-- The writer task. -/
inductive WriterTask
  | receiving
  /-- Inside a burst, before its flush. -/
  | bursting
  | ended
deriving DecidableEq, Repr

/-- The reader task. -/
inductive ReaderTask
  | reading
  /-- Out of its loop, before `fail_all`. -/
  | failing
  | ended
deriving DecidableEq, Repr

/-- A connection: the depth of the outbound queue, the messages in it, the free
permits, the requests by their ids, and the two tasks. -/
structure Conn where
  depth : Nat
  outbound : Nat
  inflight : Nat
  requests : List Request
  writer : WriterTask
  reader : ReaderTask
deriving DecidableEq, Repr

inductive ConnStep
  /-- `append`, `stats`, `read` or `subscribe` is called. -/
  | call (stream : Bool)
  | acquire (id : Nat)
  | register (id : Nat)
  | send (id : Nat)
  /-- The caller drops its future, or its stream before or after its end. -/
  | abandon (id : Nat) (unfinished : Bool)
  /-- The writer task writes a queued message, or fails to. -/
  | write (succeeds : Bool)
  | flush (succeeds : Bool)
  /-- A response for an id, after which a stream goes on or not. -/
  | respond (id : Nat) (continues : Bool)
  /-- The end of the input or a transport error. -/
  | readerStops
  | failAll
deriving DecidableEq, Repr

namespace Conn

/-- `Conn::spawn`. -/
def spawn (requestQueueDepth maxInflightRequests : Nat) : Conn :=
  ⟨max requestQueueDepth 1, 0, max maxInflightRequests 1, [], .receiving, .reading⟩

/-- One request moves on. -/
def put (conn : Conn) (id : Nat) (request : Request) : Conn :=
  { conn with requests := conn.requests.set id request }

/-- `fail_all`: every entry is drained with an error, and its permit is free. -/
def failAll (conn : Conn) : Conn :=
  { conn with
    requests := conn.requests.map fun request =>
      if request.registered then request.finish else request
    inflight := conn.inflight + conn.requests.countP Request.registered
    reader := .ended }

/-- The end of `out_tx.send`: the message is queued when there is room, and the
entry is removed again when the writer task is gone. -/
def send (conn : Conn) (id : Nat) (request : Request) : Option Conn :=
  if conn.writer = .ended then
    some { conn.put id { request.finish with phase := .returned } with
      inflight := conn.inflight + request.registered.toNat }
  else if conn.outbound < conn.depth then
    some { conn.put id { request with phase := .waiting } with outbound := conn.outbound + 1 }
  else none

/-- The caller goes away.  A stream removes its entry and tries to queue a cancel;
the entry of an append or a stats request stays. -/
def abandon (conn : Conn) (id : Nat) (request : Request) (unfinished : Bool) : Option Conn :=
  match request.phase with
  | .queued => some (conn.put id { request with phase := .abandoned })
  | .sending =>
      -- only a send that awaits room can be dropped
      if conn.writer ≠ .ended ∧ conn.depth ≤ conn.outbound then
        some (conn.put id { request with phase := .abandoned })
      else none
  | .waiting =>
      if request.stream then
        some { conn.put id { request with phase := .abandoned, registered := false } with
          inflight := conn.inflight + request.registered.toNat
          outbound :=
            if unfinished ∧ conn.writer ≠ .ended ∧ conn.outbound < conn.depth then
              conn.outbound + 1
            else conn.outbound }
      else some (conn.put id { request with phase := .abandoned })
  | _ => none

/-- `route`: the entry of the id is removed, unless it is a stream that goes on. -/
def respond (conn : Conn) (id : Nat) (request : Request) (continues : Bool) : Conn :=
  if request.registered = true ∧ ¬ (request.stream = true ∧ continues = true) then
    { conn.put id request.finish with inflight := conn.inflight + 1 }
  else conn

/-- The step of a label, if it is enabled. -/
def step (conn : Conn) : ConnStep → Option Conn
  | .call stream => some { conn with requests := conn.requests ++ [Request.new stream] }
  | .acquire id => do
      let request ← conn.requests[id]?
      if request.phase = .queued ∧ 0 < conn.inflight then
        some { conn.put id { request with phase := .permitted } with
          inflight := conn.inflight - 1 }
      else none
  | .register id => do
      let request ← conn.requests[id]?
      if request.phase = .permitted then
        some (conn.put id { request with phase := .sending, registered := true })
      else none
  | .send id => do
      let request ← conn.requests[id]?
      if request.phase = .sending then conn.send id request else none
  | .abandon id unfinished => do
      let request ← conn.requests[id]?
      conn.abandon id request unfinished
  | .write succeeds =>
      if conn.writer ≠ .ended ∧ 0 < conn.outbound then
        some { conn with
          outbound := if succeeds then conn.outbound - 1 else 0
          writer := if succeeds then .bursting else .ended }
      else none
  | .flush succeeds =>
      if conn.writer = .bursting then
        some { conn with
          outbound := if succeeds then conn.outbound else 0
          writer := if succeeds then .receiving else .ended }
      else none
  | .respond id continues =>
      if conn.reader = .reading then
        match conn.requests[id]? with
        | some request => some (conn.respond id request continues)
        | none => some conn
      else none
  | .readerStops =>
      if conn.reader = .reading then some { conn with reader := .failing } else none
  | .failAll =>
      if conn.reader = .failing then some conn.failAll else none

/-- A registered request that no remaining step answers or removes. -/
def Hopeless (conn : Conn) (id : Nat) : Prop :=
  ∀ labels later, run step conn labels = some later →
    ∃ request, later.requests[id]? = some request ∧
      request.registered = true ∧ request.answered = false

/-- No request is registered when the reader task has failed the registry and the
writer task still takes requests. -/
def RegistersInTime (conn : Conn) : ConnStep → Prop
  | .register _ => conn.reader = .ended → conn.writer = .ended
  | _ => True

theorem step_acquire {conn next : Conn} {id : Nat}
    (taken : conn.step (.acquire id) = some next) :
    ∃ request, conn.requests[id]? = some request ∧ request.phase = .queued ∧
      0 < conn.inflight ∧ next = { conn.put id { request with phase := .permitted } with
        inflight := conn.inflight - 1 } := by
  simp only [step, Option.bind_eq_bind, Option.bind_eq_some_iff,
    Option.ite_none_right_eq_some, Option.some.injEq] at taken
  obtain ⟨request, found, ⟨queued, free⟩, rfl⟩ := taken
  exact ⟨request, found, queued, free, rfl⟩

theorem step_register {conn next : Conn} {id : Nat}
    (taken : conn.step (.register id) = some next) :
    ∃ request, conn.requests[id]? = some request ∧ request.phase = .permitted ∧
      next = conn.put id { request with phase := .sending, registered := true } := by
  simp only [step, Option.bind_eq_bind, Option.bind_eq_some_iff,
    Option.ite_none_right_eq_some, Option.some.injEq] at taken
  obtain ⟨request, found, permitted, rfl⟩ := taken
  exact ⟨request, found, permitted, rfl⟩

theorem step_send {conn next : Conn} {id : Nat} (taken : conn.step (.send id) = some next) :
    ∃ request, conn.requests[id]? = some request ∧ request.phase = .sending ∧
      (conn.writer = .ended ∧
          next = { conn.put id { request.finish with phase := .returned } with
            inflight := conn.inflight + request.registered.toNat } ∨
        conn.writer ≠ .ended ∧
          next = { conn.put id { request with phase := .waiting } with
            outbound := conn.outbound + 1 }) := by
  simp only [step, Option.bind_eq_bind, Option.bind_eq_some_iff,
    Option.ite_none_right_eq_some] at taken
  obtain ⟨request, found, sending, taken⟩ := taken
  refine ⟨request, found, sending, ?_⟩
  unfold send at taken
  split at taken
  · rename_i gone
    obtain rfl := Option.some.inj taken
    exact Or.inl ⟨gone, rfl⟩
  · rename_i running
    split at taken
    · obtain rfl := Option.some.inj taken
      exact Or.inr ⟨running, rfl⟩
    · simp at taken

/-- A caller that goes away leaves its entry as it is, unless it is a stream that waits. -/
theorem step_abandon {conn next : Conn} {id : Nat} {unfinished : Bool}
    (taken : conn.step (.abandon id unfinished) = some next) :
    ∃ request, conn.requests[id]? = some request ∧
      ((request.phase = .queued ∨ request.phase = .sending ∧ conn.writer ≠ .ended ∨
            request.phase = .waiting ∧ request.stream = false) ∧
          next = conn.put id { request with phase := .abandoned } ∨
        request.phase = .waiting ∧ request.stream = true ∧
          ∃ outbound, next =
            { conn.put id { request with phase := .abandoned, registered := false } with
              inflight := conn.inflight + request.registered.toNat, outbound := outbound }) := by
  simp only [step, Option.bind_eq_bind, Option.bind_eq_some_iff] at taken
  obtain ⟨request, found, taken⟩ := taken
  refine ⟨request, found, ?_⟩
  unfold abandon at taken
  split at taken
  · rename_i queued
    obtain rfl := Option.some.inj taken
    exact Or.inl ⟨Or.inl queued, rfl⟩
  · rename_i sending
    split at taken
    · rename_i pending
      obtain rfl := Option.some.inj taken
      exact Or.inl ⟨Or.inr (Or.inl ⟨sending, pending.1⟩), rfl⟩
    · simp at taken
  · rename_i waiting
    split at taken
    · rename_i stream
      obtain rfl := Option.some.inj taken
      exact Or.inr ⟨waiting, stream, _, rfl⟩
    · rename_i oneshot
      obtain rfl := Option.some.inj taken
      exact Or.inl ⟨Or.inr (Or.inr ⟨waiting, by simpa using oneshot⟩), rfl⟩
  · simp at taken

/-- A response takes its entry out of the registry, or changes nothing. -/
theorem step_respond {conn next : Conn} {id : Nat} {continues : Bool}
    (taken : conn.step (.respond id continues) = some next) :
    conn.reader = .reading ∧
      (next = conn ∨
        ∃ request, conn.requests[id]? = some request ∧ request.registered = true ∧
          next = { conn.put id request.finish with inflight := conn.inflight + 1 }) := by
  simp only [step, Option.ite_none_right_eq_some] at taken
  obtain ⟨reading, taken⟩ := taken
  refine ⟨reading, ?_⟩
  split at taken
  · rename_i request found
    obtain rfl := Option.some.inj taken
    unfold respond
    split
    · rename_i ends
      exact Or.inr ⟨request, found, ends.1, rfl⟩
    · exact Or.inl rfl
  · exact Or.inl (Option.some.inj taken).symm

/-- What holds of a request of a connection. -/
structure Kept (conn : Conn) (_id : Nat) (request : Request) : Prop where
  unregistered : request.phase = .queued ∨ request.phase = .permitted →
    request.registered = false
  behind : conn.reader = .ended → request.registered = true →
    request.phase = .sending ∧ conn.writer = .ended

theorem kept_new (conn : Conn) (id : Nat) (stream : Bool) :
    conn.Kept id (Request.new stream) := by
  constructor <;> simp [Request.new]

theorem kept_of_unregistered {conn : Conn} {id : Nat} {request : Request}
    (absent : request.registered = false) : conn.Kept id request := by
  constructor
  · intro _
    exact absent
  · simp [absent]

theorem Kept.tasks {conn next : Conn} {id : Nat} {request : Request}
    (kept : conn.Kept id request) (reader : next.reader = .ended → conn.reader = .ended)
    (writer : conn.writer = .ended → next.writer = .ended) : next.Kept id request := by
  constructor
  · exact kept.unregistered
  · intro ended registered
    obtain ⟨sending, gone⟩ := kept.behind (reader ended) registered
    exact ⟨sending, writer gone⟩

theorem each_put {conn next : Conn} {id : Nat} {moved : Request}
    (each : Each conn.Kept conn.requests) (requests : next.requests = conn.requests.set id moved)
    (reader : next.reader = conn.reader) (writer : next.writer = conn.writer)
    (own : conn.Kept id moved) : Each next.Kept next.requests := by
  rw [requests]
  refine each.set ?_ ?_
  · exact own.tasks (by simp [reader]) (by simp [writer])
  · intro other request _ _ there
    exact there.tasks (by simp [reader]) (by simp [writer])

theorem each_send {conn next : Conn} {id : Nat} (each : Each conn.Kept conn.requests)
    (taken : conn.step (.send id) = some next) : Each next.Kept next.requests := by
  obtain ⟨request, found, _, ⟨_, rfl⟩ | ⟨running, rfl⟩⟩ := step_send taken
  · exact each_put each rfl rfl rfl (kept_of_unregistered rfl)
  · refine each_put each rfl rfl rfl ?_
    constructor
    · simp
    · intro ended registered
      exact absurd ((each id request found).behind ended registered).2 running

theorem each_abandon {conn next : Conn} {id : Nat} {unfinished : Bool}
    (each : Each conn.Kept conn.requests)
    (taken : conn.step (.abandon id unfinished) = some next) :
    Each next.Kept next.requests := by
  obtain ⟨request, found, ⟨leaves, rfl⟩ | ⟨_, _, _, rfl⟩⟩ := step_abandon taken
  · have own := each id request found
    refine each_put each rfl rfl rfl ?_
    constructor
    · simp
    · intro ended registered
      obtain ⟨sending, gone⟩ := own.behind ended registered
      rcases leaves with queued | ⟨_, running⟩ | ⟨waiting, _⟩
      · simp [sending] at queued
      · exact absurd gone running
      · simp [sending] at waiting
  · exact each_put each rfl rfl rfl (kept_of_unregistered rfl)

theorem each_step {conn next : Conn} {label : ConnStep}
    (each : Each conn.Kept conn.requests) (allowed : conn.RegistersInTime label)
    (taken : conn.step label = some next) : Each next.Kept next.requests := by
  cases label with
  | call stream =>
      obtain rfl := Option.some.inj taken
      refine each.snoc ?_ ?_
      · exact kept_new _ _ stream
      · intro place request _ there
        exact there.tasks id id
  | acquire id =>
      obtain ⟨request, found, queued, _, rfl⟩ := step_acquire taken
      have own := each id request found
      exact each_put each rfl rfl rfl (kept_of_unregistered (own.unregistered (Or.inl queued)))
  | register id =>
      obtain ⟨request, found, permitted, rfl⟩ := step_register taken
      refine each_put each rfl rfl rfl ?_
      constructor
      · simp
      · intro ended _
        exact ⟨rfl, allowed ended⟩
  | send id => exact each_send each taken
  | abandon id unfinished => exact each_abandon each taken
  | write succeeds =>
      simp only [step, Option.ite_none_right_eq_some, Option.some.injEq] at taken
      obtain ⟨⟨running, _⟩, rfl⟩ := taken
      refine each.imp ?_
      intro place request _ there
      apply there.tasks
      · exact id
      · intro ended
        exact absurd ended running
  | flush succeeds =>
      simp only [step, Option.ite_none_right_eq_some, Option.some.injEq] at taken
      obtain ⟨bursting, rfl⟩ := taken
      refine each.imp ?_
      intro place request _ there
      apply there.tasks
      · exact id
      · simp [bursting]
  | respond id continues =>
      obtain ⟨_, rfl | ⟨request, _, _, rfl⟩⟩ := step_respond taken
      · exact each
      · exact each_put each rfl rfl rfl (kept_of_unregistered rfl)
  | readerStops =>
      simp only [step, Option.ite_none_right_eq_some, Option.some.injEq] at taken
      obtain ⟨reading, rfl⟩ := taken
      refine each.imp ?_
      intro place request _ there
      apply there.tasks
      · simp
      · exact id
  | failAll =>
      simp only [step, Option.ite_none_right_eq_some, Option.some.injEq] at taken
      obtain ⟨_, rfl⟩ := taken
      refine each.map ?_
      intro place request there
      split
      · exact kept_of_unregistered rfl
      · rename_i absent
        exact kept_of_unregistered (by simpa using absent)

/-- Every request of a connection is kept. -/
def Sound (conn : Conn) : Prop :=
  Each conn.Kept conn.requests

/-- When no request is registered behind the reader task, the end of the reader task
leaves no request that nothing will answer or remove. -/
theorem no_request_hopeless (depth budget : Nat) (labels : List ConnStep) (conn : Conn)
    (meets : Allowed step RegistersInTime (spawn depth budget) labels)
    (reached : run step (spawn depth budget) labels = some conn)
    (ended : conn.reader = .ended) (id : Nat) : ¬ conn.Hopeless id := by
  have start : (spawn depth budget).Sound := each_nil _
  have each : conn.Sound :=
    invariant_of_run (fun _ _ _ kept allowed taken => each_step kept allowed taken) start meets
      reached
  intro hopeless
  obtain ⟨request, found, registered, _⟩ := hopeless [] conn rfl
  obtain ⟨sending, gone⟩ := (each id request found).behind ended registered
  have inside := (List.getElem?_eq_some_iff.mp found).1
  -- the send of the request finds the writer task gone and takes the entry back
  have removes : conn.step (.send id) =
      some { conn.put id { request.finish with phase := .returned } with
        inflight := conn.inflight + request.registered.toNat } := by
    simp [step, found, sending, send, gone]
  obtain ⟨later, laterFound, stillThere, _⟩ :=
    hopeless [.send id] _ (by simp only [run, removes]; rfl)
  have moved : later = { request.finish with phase := .returned } :=
    Option.some.inj (laterFound.symm.trans (List.getElem?_set_self inside))
  rw [moved] at stillThere
  simp [Request.finish] at stillThere

/-- An append registered behind both tasks: its send is still to fail. -/
theorem no_request_hopeless_closed :
    ¬ Hopeless ⟨1, 0, 1,
      [⟨false, .waiting, false, true⟩, ⟨false, .sending, true, false⟩], .ended, .ended⟩ 1 := by
  refine no_request_hopeless 1 2 [.call false, .acquire 0, .register 0, .send 0, .write false,
    .readerStops, .failAll, .call false, .acquire 1, .register 1] _ ?_ rfl rfl 1
  refine Allowed.cons trivial rfl (Allowed.cons trivial rfl (Allowed.cons ?_ rfl
    (Allowed.cons trivial rfl (Allowed.cons trivial rfl (Allowed.cons trivial rfl
      (Allowed.cons trivial rfl (Allowed.cons trivial rfl (Allowed.cons trivial rfl
        (Allowed.cons ?_ rfl trivial)))))))))
  · intro ended
    exact absurd ended (by decide)
  · intro _
    rfl

/-- An append or a stats request whose entry nobody is left to answer. -/
def Stuck (conn : Conn) (id : Nat) : Prop :=
  conn.reader = .ended ∧
    ∃ request, conn.requests[id]? = some request ∧ request.stream = false ∧
      (request.phase = .waiting ∨ request.phase = .abandoned) ∧
      request.registered = true ∧ request.answered = false

theorem Stuck.put {conn next : Conn} {id other : Nat} {former moved : Request}
    (stuck : conn.Stuck id) (found : conn.requests[other]? = some former)
    (requests : next.requests = conn.requests.set other moved)
    (reader : next.reader = conn.reader)
    (own : former.stream = false → former.phase = .waiting ∨ former.phase = .abandoned →
      moved.stream = false ∧ (moved.phase = .waiting ∨ moved.phase = .abandoned) ∧
        moved.registered = former.registered ∧ moved.answered = former.answered) :
    next.Stuck id := by
  obtain ⟨ended, request, here, oneshot, phase, registered, unanswered⟩ := stuck
  refine ⟨reader.trans ended, ?_⟩
  by_cases same : other = id
  · subst same
    obtain rfl : former = request := by simpa [found] using here
    obtain ⟨stream, moves, stays, quiet⟩ := own oneshot phase
    have inside := (List.getElem?_eq_some_iff.mp found).1
    refine ⟨moved, ?_, stream, moves, stays.trans registered, quiet.trans unanswered⟩
    rw [requests, List.getElem?_set_self inside]
  · refine ⟨request, ?_, oneshot, phase, registered, unanswered⟩
    rw [requests, List.getElem?_set_ne same]
    exact here

theorem Stuck.step {conn next : Conn} {id : Nat} {label : ConnStep} (stuck : conn.Stuck id)
    (taken : conn.step label = some next) : next.Stuck id := by
  have ended := stuck.1
  cases label with
  | call stream =>
      obtain rfl := Option.some.inj taken
      obtain ⟨_, request, here, rest⟩ := stuck
      have inside := (List.getElem?_eq_some_iff.mp here).1
      refine ⟨ended, request, ?_, rest⟩
      rw [List.getElem?_append_left inside]
      exact here
  | acquire other =>
      obtain ⟨request, found, queued, _, rfl⟩ := step_acquire taken
      exact stuck.put found rfl rfl (by simp [queued])
  | register other =>
      obtain ⟨request, found, permitted, rfl⟩ := step_register taken
      exact stuck.put found rfl rfl (by simp [permitted])
  | send other =>
      obtain ⟨request, found, sending, ⟨_, rfl⟩ | ⟨_, rfl⟩⟩ := step_send taken
      · exact stuck.put found rfl rfl (by simp [sending])
      · exact stuck.put found rfl rfl (by simp [sending])
  | abandon other unfinished =>
      obtain ⟨request, found, ⟨_, rfl⟩ | ⟨_, stream, _, rfl⟩⟩ := step_abandon taken
      · refine stuck.put found rfl rfl ?_
        intro oneshot _
        exact ⟨oneshot, Or.inr rfl, rfl, rfl⟩
      · exact stuck.put found rfl rfl (by simp [stream])
  | write succeeds =>
      simp only [Conn.step, Option.ite_none_right_eq_some, Option.some.injEq] at taken
      obtain ⟨_, rfl⟩ := taken
      exact stuck
  | flush succeeds =>
      simp only [Conn.step, Option.ite_none_right_eq_some, Option.some.injEq] at taken
      obtain ⟨_, rfl⟩ := taken
      exact stuck
  | respond other continues => simp [Conn.step, ended] at taken
  | readerStops => simp [Conn.step, ended] at taken
  | failAll => simp [Conn.step, ended] at taken

theorem Stuck.hopeless {conn : Conn} {id : Nat} (stuck : conn.Stuck id) : conn.Hopeless id := by
  intro labels later reached
  obtain ⟨_, request, here, _, _, registered, unanswered⟩ : later.Stuck id := by
    apply @invariant_of_steps Conn ConnStep Conn.step (Stuck · id) _ labels conn later stuck reached
    intro before label after stuck taken
    exact Stuck.step stuck taken
  exact ⟨request, here, registered, unanswered⟩

/-- The server closes the connection, the reader task fails the empty registry and
ends, and an append is registered and taken by the idle writer task. -/
theorem append_after_close_hopeless :
    ∃ labels conn, run step (spawn 1 1) labels = some conn ∧ conn.reader = .ended ∧
      conn.Hopeless 0 := by
  refine ⟨[.readerStops, .failAll, .call false, .acquire 0, .register 0, .send 0],
    ⟨1, 1, 0, [⟨false, .waiting, true, false⟩], .receiving, .ended⟩, rfl, rfl, ?_⟩
  apply Stuck.hopeless
  exact ⟨rfl, ⟨false, .waiting, true, false⟩, rfl, rfl, Or.inl rfl, rfl, rfl⟩

end Conn

end Tephra.Client
