import Tephra.Histories
import Tephra.Semaphore
import Tephra.Events

/-!
# The deadlines of a connection

The reader of a connection polls its socket for frames.  It closes the connection when a
frame is not complete in time, when no accepted hello has come in time, or when nothing has
come for long and nothing is in flight.  The work of its requests goes on in other threads,
also between the reader's looks at the budgets.
-/

namespace Tephra.Reaping

open Server Histories

/-- The timeouts of a connection, of which zero is none, and the sizes of its budgets. -/
structure Config where
  incompleteFrameTimeout : Nat
  handshakeTimeout : Nat
  idleTimeout : Nat
  maxInflightRequests : Nat
  maxConcurrentSubscriptions : Nat

/-- A request, with what the conversions of its parts, the coordinator, the pool and the
operating system say of it. -/
inductive Request
  | hello (protocolVersion : Nat) (authToken : Option (List UInt8))
  | append (valid accepted : Bool)
  | read (valid queued : Bool)
  | subscribe (valid spawned : Bool)
  | cancel (target : Nat)
  | stats
  | notSet
deriving DecidableEq, Repr

structure Budgets where
  appendInflight : Semaphore
  readInflight : Semaphore
  readOverflow : Semaphore
  subscriptions : Semaphore
deriving DecidableEq, Repr

/-- What is in flight: appends that the pump has not answered, reads that hold a permit, reads
that hold an overflow slot, and subscriptions. -/
structure Work where
  appends : Nat
  reads : Nat
  overflowReads : Nat
  subscriptions : Nat
deriving DecidableEq, Repr

def Work.none : Work := ⟨0, 0, 0, 0⟩

inductive Reason
  | incompleteFrame
  | handshakeTimeout
  | idleTimeout
deriving DecidableEq, Repr

/-- Why the request loop has ended. -/
inductive Closing
  | rejected
  | eof
  | stopped
  | failed
  | reaped (reason : Reason)
deriving DecidableEq, Repr

/-- What `send_control` is given for a hello. -/
inductive HelloReply
  | ack (protocolVersion : Nat)
  | unauthenticated (message : String)
  | unsupported (version speaks : Nat)
deriving DecidableEq, Repr

/-- A connection, as far as its reader goes. -/
structure Conn where
  budgets : Budgets
  work : Work
  /-- The server is up and the connection alive. -/
  running : Bool
  established : Bool
  lastFrameAt : Nat
  frameStartedAt : Option Nat
  /-- The replies to a hello that `send_control` was given.  A dead writer drops them. -/
  control : List HelloReply
  dispatched : List Request
  closed : Option Closing
deriving DecidableEq, Repr

/-- `Semaphore::is_idle`. -/
def isIdle (semaphore : Semaphore) : Bool :=
  semaphore.permits == semaphore.capacity

inductive WorkStep
  /-- The pump forwards the reply to an append and releases its permit. -/
  | reply
  /-- A read drops its permit. -/
  | endRead
  /-- An overflow read takes its permit and drops its slot. -/
  | permit
  /-- An overflow read is cancelled and drops its slot. -/
  | cancelled
  | endSubscription
  /-- The server goes down, or a half of the transport fails. -/
  | stop
deriving DecidableEq, Repr

namespace Conn

def workStep (conn : Conn) : WorkStep → Option Conn
  | .reply =>
      match conn.work.appends with
      | 0 => none
      | appends + 1 =>
          some { conn with
            budgets.appendInflight := conn.budgets.appendInflight.release
            work.appends := appends }
  | .endRead =>
      match conn.work.reads with
      | 0 => none
      | reads + 1 =>
          some { conn with
            budgets.readInflight := conn.budgets.readInflight.release
            work.reads := reads }
  | .permit =>
      match conn.work.overflowReads, conn.budgets.readInflight.tryAcquire with
      | overflowReads + 1, some readInflight =>
          some { conn with
            budgets.readInflight := readInflight
            budgets.readOverflow := conn.budgets.readOverflow.release
            work.reads := conn.work.reads + 1
            work.overflowReads := overflowReads }
      | _, _ => none
  | .cancelled =>
      match conn.work.overflowReads with
      | 0 => none
      | overflowReads + 1 =>
          some { conn with
            budgets.readOverflow := conn.budgets.readOverflow.release
            work.overflowReads := overflowReads }
  | .endSubscription =>
      match conn.work.subscriptions with
      | 0 => none
      | subscriptions + 1 =>
          some { conn with
            budgets.subscriptions := conn.budgets.subscriptions.release
            work.subscriptions := subscriptions }
  | .stop => some { conn with running := false }

end Conn

/-- `PROTOCOL_VERSION`. -/
def protocolVersion : Nat := 1

/-- Handle the first frame.  With `auth`, the token must be one that it accepts. -/
def handleHello (auth : Option (List UInt8 → Bool)) : Request → HelloReply
  | .hello version token =>
      if version ≠ protocolVersion then
        .unsupported version protocolVersion
      else
        match auth with
        | some accepts =>
            let accepted := (token.filter validUtf8).any accepts
            if accepted then .ack protocolVersion
            else .unauthenticated "invalid or missing auth token"
        | none => .ack protocolVersion
  | _ => .unauthenticated "first frame must be a hello"

namespace Conn

/-- Route a request.  An append waits for a permit. -/
def dispatch (conn : Conn) (request : Request) : Option Conn :=
  let conn := { conn with dispatched := conn.dispatched ++ [request] }
  match request with
  | .append true accepted =>
      match conn.budgets.appendInflight.tryAcquire with
      | none => none
      | some appendInflight =>
          if accepted then
            some { conn with
              budgets.appendInflight := appendInflight
              work.appends := conn.work.appends + 1 }
          else some { conn with budgets.appendInflight := appendInflight.release }
  | .read true queued =>
      match conn.budgets.readInflight.tryAcquire with
      | some readInflight =>
          if queued then
            some { conn with
              budgets.readInflight := readInflight
              work.reads := conn.work.reads + 1 }
          else some { conn with budgets.readInflight := readInflight.release }
      | none =>
          match conn.budgets.readOverflow.tryAcquire with
          | some readOverflow =>
              if queued then
                some { conn with
                  budgets.readOverflow := readOverflow
                  work.overflowReads := conn.work.overflowReads + 1 }
              else some { conn with budgets.readOverflow := readOverflow.release }
          | none => some conn
  | .subscribe true spawned =>
      match conn.budgets.subscriptions.tryAcquire with
      | none => some conn
      | some subscriptions =>
          if spawned then
            some { conn with
              budgets.subscriptions := subscriptions
              work.subscriptions := conn.work.subscriptions + 1 }
          else some { conn with budgets.subscriptions := subscriptions.release }
  | _ => some conn

end Conn

/-- The readings of the clock while the outcome of a poll is handled, in their order. -/
structure Readings where
  polled : Nat
  started : Nat
  frame : Nat
  handshake : Nat
  idle : Nat
  refreshed : Nat
  started_le : polled ≤ started
  frame_le : started ≤ frame
  handshake_le : frame ≤ handshake
  idle_le : handshake ≤ idle
  refreshed_le : idle ≤ refreshed

/-- What other threads do between the looks at the four budgets, each list in front of a look. -/
structure Gaps where
  readInflight : List WorkStep
  readOverflow : List WorkStep
  subscriptions : List WorkStep
deriving DecidableEq, Repr

inductive Outcome
  | frame (request : Request)
  | eof
  | progress
  /-- In a frame. -/
  | stalled
  /-- At a frame boundary. -/
  | quiet (gaps : Gaps)
  | failed
deriving DecidableEq, Repr

inductive Label
  | work (step : WorkStep)
  | poll (readings : Readings) (outcome : Outcome)

/-- A deadline has passed.  Zero is none. -/
def lapsed (timeout start now : Nat) : Bool :=
  timeout != 0 && decide (now - start > timeout)

namespace Conn

/-- `mid_frame_reason`, with what it stamps. -/
def midFrameReason (config : Config) (connStart : Nat) (readings : Readings) (conn : Conn) :
    Option Reason × Option Nat :=
  let started := conn.frameStartedAt.getD readings.started
  let reason :=
    if lapsed config.incompleteFrameTimeout started readings.frame then
      some .incompleteFrame
    else if !conn.established && lapsed config.handshakeTimeout connStart readings.handshake then
      some .handshakeTimeout
    else if lapsed config.idleTimeout conn.lastFrameAt readings.idle then
      some .idleTimeout
    else none
  (reason, some started)

/-- Something is in flight, as one look after the other at the budgets says. -/
def hasActivity (conn : Conn) (gaps : Gaps) : Option (Bool × Conn) :=
  match run workStep conn gaps.readInflight with
  | none => none
  | some second =>
      match run workStep second gaps.readOverflow with
      | none => none
      | some third =>
          match run workStep third gaps.subscriptions with
          | none => none
          | some fourth =>
              some (!isIdle conn.budgets.appendInflight || !isIdle second.budgets.readInflight ||
                !isIdle third.budgets.readOverflow || !isIdle fourth.budgets.subscriptions, fourth)

/-- Reap a connection that is inside a frame and late. -/
def checkFrame (config : Config) (connStart : Nat) (readings : Readings) (conn : Conn) : Conn :=
  let checked := conn.midFrameReason config connStart readings
  { conn with frameStartedAt := checked.2, closed := checked.1.map .reaped }

/-- The deadline that a quiet connection has missed. -/
def breached (config : Config) (connStart : Nat) (readings : Readings) (conn : Conn) :
    Option Reason :=
  if !conn.established && lapsed config.handshakeTimeout connStart readings.handshake then
    some .handshakeTimeout
  else if lapsed config.idleTimeout conn.lastFrameAt readings.idle then some .idleTimeout
  else none

/-- Handle the outcome of a poll. -/
def poll (config : Config) (auth : Option (List UInt8 → Bool)) (connStart : Nat) (conn : Conn)
    (readings : Readings) : Outcome → Option Conn
  | .frame request =>
      let conn := { conn with lastFrameAt := readings.polled, frameStartedAt := none }
      if conn.established then conn.dispatch request
      else
        let reply := handleHello auth request
        let conn := { conn with control := conn.control ++ [reply] }
        match reply with
        | .ack _ => some { conn with established := true }
        | _ => some { conn with closed := some .rejected }
  | .eof => some { conn with closed := some .eof }
  | .progress =>
      if !conn.running then some { conn with closed := some .stopped }
      else some (checkFrame config connStart readings { conn with lastFrameAt := readings.polled })
  | .stalled =>
      if !conn.running then some { conn with closed := some .stopped }
      else some (checkFrame config connStart readings conn)
  | .quiet gaps =>
      if !conn.running then some { conn with closed := some .stopped }
      else
        let conn := { conn with frameStartedAt := none }
        match conn.breached config connStart readings with
        | none => some conn
        | some reason =>
            -- work in flight is activity, and refreshes the idle clock
            match conn.hasActivity gaps with
            | none => none
            | some (true, conn) => some { conn with lastFrameAt := readings.refreshed }
            | some (false, conn) => some { conn with closed := some (.reaped reason) }
  | .failed => some { conn with closed := some .failed }

/-- A step of the reader, while it is in its loop, or of another thread. -/
def step (config : Config) (auth : Option (List UInt8 → Bool)) (connStart : Nat) (conn : Conn) :
    Label → Option Conn
  | .work step => conn.workStep step
  | .poll readings outcome =>
      if conn.closed.isSome then none else conn.poll config auth connStart readings outcome

/-- A connection that was accepted at a time. -/
def start (config : Config) (connStart : Nat) : Conn :=
  { budgets := ⟨.new config.maxInflightRequests, .new config.maxInflightRequests,
      .new config.maxInflightRequests, .new config.maxConcurrentSubscriptions⟩
    work := .none
    running := true
    established := false
    lastFrameAt := connStart
    frameStartedAt := none
    control := []
    dispatched := []
    closed := none }

end Conn

/-- A budget has given out a number of permits. -/
def Holds (semaphore : Semaphore) (held : Nat) : Prop :=
  semaphore.permits + held = semaphore.capacity

theorem Holds.new (permits : Nat) : Holds (Semaphore.new permits) 0 :=
  rfl

theorem Holds.release {semaphore : Semaphore} {held : Nat} (holds : Holds semaphore (held + 1)) :
    Holds semaphore.release held := by
  simp only [Holds, Semaphore.permits_release, Semaphore.capacity_release] at holds ⊢
  omega

theorem Holds.acquire {semaphore taken : Semaphore} {held : Nat} (holds : Holds semaphore held)
    (acquired : semaphore.tryAcquire = some taken) : Holds taken (held + 1) := by
  obtain ⟨capacity_eq, permits_eq⟩ := Semaphore.tryAcquire_eq_some acquired
  simp only [Holds] at holds ⊢
  omega

theorem Holds.passed {semaphore taken : Semaphore} {held : Nat} (holds : Holds semaphore held)
    (acquired : semaphore.tryAcquire = some taken) : Holds taken.release held :=
  (holds.acquire acquired).release

theorem Holds.isIdle_eq {semaphore : Semaphore} {held : Nat} (holds : Holds semaphore held) :
    isIdle semaphore = decide (held = 0) := by
  simp only [Holds] at holds
  rw [isIdle, beq_eq_decide]
  apply decide_eq_decide.2
  omega

namespace Conn

/-- Every permit and slot that is out is held by work in flight. -/
structure Counted (conn : Conn) : Prop where
  appends : Holds conn.budgets.appendInflight conn.work.appends
  reads : Holds conn.budgets.readInflight conn.work.reads
  overflowReads : Holds conn.budgets.readOverflow conn.work.overflowReads
  subscriptions : Holds conn.budgets.subscriptions conn.work.subscriptions

theorem Counted.of_eq {before after : Conn} (counted : before.Counted)
    (budgets_eq : after.budgets = before.budgets) (work_eq : after.work = before.work) :
    after.Counted := by
  constructor
  · rw [budgets_eq, work_eq]
    exact counted.appends
  · rw [budgets_eq, work_eq]
    exact counted.reads
  · rw [budgets_eq, work_eq]
    exact counted.overflowReads
  · rw [budgets_eq, work_eq]
    exact counted.subscriptions

/-- What other threads do: they end work, and leave the reader's own state. -/
structure Worked (before after : Conn) : Prop where
  counted : before.Counted → after.Counted
  appends_le : after.work.appends ≤ before.work.appends
  reads_le : after.work.reads + after.work.overflowReads ≤
    before.work.reads + before.work.overflowReads
  subscriptions_le : after.work.subscriptions ≤ before.work.subscriptions
  established_eq : after.established = before.established
  lastFrameAt_eq : after.lastFrameAt = before.lastFrameAt
  frameStartedAt_eq : after.frameStartedAt = before.frameStartedAt
  dispatched_eq : after.dispatched = before.dispatched
  closed_eq : after.closed = before.closed

theorem Worked.refl (conn : Conn) : conn.Worked conn :=
  ⟨id, Nat.le_refl _, Nat.le_refl _, Nat.le_refl _, rfl, rfl, rfl, rfl, rfl⟩

theorem Worked.trans {first second third : Conn} (one : first.Worked second)
    (two : second.Worked third) : first.Worked third where
  counted counted := two.counted (one.counted counted)
  appends_le := two.appends_le.trans one.appends_le
  reads_le := two.reads_le.trans one.reads_le
  subscriptions_le := two.subscriptions_le.trans one.subscriptions_le
  established_eq := two.established_eq.trans one.established_eq
  lastFrameAt_eq := two.lastFrameAt_eq.trans one.lastFrameAt_eq
  frameStartedAt_eq := two.frameStartedAt_eq.trans one.frameStartedAt_eq
  dispatched_eq := two.dispatched_eq.trans one.dispatched_eq
  closed_eq := two.closed_eq.trans one.closed_eq

theorem Worked.silent {before after : Conn} (worked : before.Worked after)
    (nothing : before.work = .none) : after.work = .none := by
  have appends_le := worked.appends_le
  have reads_le := worked.reads_le
  have subscriptions_le := worked.subscriptions_le
  rw [nothing] at appends_le reads_le subscriptions_le
  rcases work : after.work with ⟨appends, reads, overflowReads, subscriptions⟩
  simp only [work, Work.none] at appends_le reads_le subscriptions_le
  rw [Work.none, Work.mk.injEq]
  omega

theorem worked_of_workStep {conn next : Conn} {label : WorkStep}
    (taken : conn.workStep label = some next) : conn.Worked next := by
  cases label with
  | reply =>
      rw [workStep] at taken
      split at taken
      · cases taken
      · rename_i appends held
        cases taken
        refine ⟨?_, ?_, Nat.le_refl _, Nat.le_refl _, rfl, rfl, rfl, rfl, rfl⟩
        · intro counted
          have holds := counted.appends
          rw [held] at holds
          exact ⟨holds.release, counted.reads, counted.overflowReads, counted.subscriptions⟩
        · simp only [held]
          omega
  | endRead =>
      rw [workStep] at taken
      split at taken
      · cases taken
      · rename_i reads held
        cases taken
        refine ⟨?_, Nat.le_refl _, ?_, Nat.le_refl _, rfl, rfl, rfl, rfl, rfl⟩
        · intro counted
          have holds := counted.reads
          rw [held] at holds
          exact ⟨counted.appends, holds.release, counted.overflowReads, counted.subscriptions⟩
        · simp only [held]
          omega
  | permit =>
      rw [workStep] at taken
      split at taken
      · rename_i overflowReads readInflight held acquired
        cases taken
        refine ⟨?_, Nat.le_refl _, ?_, Nat.le_refl _, rfl, rfl, rfl, rfl, rfl⟩
        · intro counted
          have holds := counted.overflowReads
          rw [held] at holds
          exact ⟨counted.appends, counted.reads.acquire acquired, holds.release,
            counted.subscriptions⟩
        · simp only [held]
          omega
      · cases taken
  | cancelled =>
      rw [workStep] at taken
      split at taken
      · cases taken
      · rename_i overflowReads held
        cases taken
        refine ⟨?_, Nat.le_refl _, ?_, Nat.le_refl _, rfl, rfl, rfl, rfl, rfl⟩
        · intro counted
          have holds := counted.overflowReads
          rw [held] at holds
          exact ⟨counted.appends, counted.reads, holds.release, counted.subscriptions⟩
        · simp only [held]
          omega
  | endSubscription =>
      rw [workStep] at taken
      split at taken
      · cases taken
      · rename_i subscriptions held
        cases taken
        refine ⟨?_, Nat.le_refl _, Nat.le_refl _, ?_, rfl, rfl, rfl, rfl, rfl⟩
        · intro counted
          have holds := counted.subscriptions
          rw [held] at holds
          exact ⟨counted.appends, counted.reads, counted.overflowReads, holds.release⟩
        · simp only [held]
          omega
  | stop =>
      cases taken
      refine ⟨?_, Nat.le_refl _, Nat.le_refl _, Nat.le_refl _, rfl, rfl, rfl, rfl, rfl⟩
      intro counted
      exact ⟨counted.appends, counted.reads, counted.overflowReads, counted.subscriptions⟩

/-- Only an overflow read that takes its permit adds to the reads that hold one. -/
theorem workStep_reads_le {conn next : Conn} {label : WorkStep} (other : label ≠ .permit)
    (taken : conn.workStep label = some next) : next.work.reads ≤ conn.work.reads := by
  cases label with
  | permit => exact absurd rfl other
  | endRead =>
      rw [workStep] at taken
      split at taken
      · cases taken
      · rename_i reads held
        cases taken
        simp only [held]
        omega
  | stop =>
      cases taken
      exact Nat.le_refl _
  | _ =>
      rw [workStep] at taken
      split at taken
      · cases taken
      · cases taken
        exact Nat.le_refl _

theorem worked_of_run {conn last : Conn} {gap : List WorkStep}
    (reached : run workStep conn gap = some last) : conn.Worked last := by
  have kept : ∀ state label next, conn.Worked state → workStep state label = some next →
      conn.Worked next := by
    intro state label next worked taken
    exact worked.trans (worked_of_workStep taken)
  exact invariant_of_steps kept (Worked.refl conn) reached

theorem run_reads_le {conn last : Conn} {gap : List WorkStep} (steady : .permit ∉ gap)
    (reached : run workStep conn gap = some last) : last.work.reads ≤ conn.work.reads := by
  have kept : ∀ state label next, state.work.reads ≤ conn.work.reads → label ≠ .permit →
      workStep state label = some next → next.work.reads ≤ conn.work.reads := by
    intro state label next few other taken
    exact (workStep_reads_le other taken).trans few
  have meets : Allowed workStep (fun _ label => label ≠ .permit) conn gap := by
    apply allowed_of_forall
    rintro label held _ rfl
    exact steady held
  exact invariant_of_run kept (Nat.le_refl _) meets reached

/-- What the looks at the budgets find. -/
structure Looked (before : Conn) (gaps : Gaps) (active : Bool) (after : Conn) : Prop where
  worked : before.Worked after
  idle : active = false → .permit ∉ gaps.readOverflow → after.work = .none
  active : active = true → before.work ≠ .none

theorem hasActivity_looked {conn after : Conn} {gaps : Gaps} {active : Bool}
    (counted : conn.Counted) (looked : conn.hasActivity gaps = some (active, after)) :
    Looked conn gaps active after := by
  rw [hasActivity] at looked
  split at looked
  · cases looked
  rename_i second toSecond
  split at looked
  · cases looked
  rename_i third toThird
  split at looked
  · cases looked
  rename_i fourth toFourth
  cases looked
  have one := worked_of_run toSecond
  have two := worked_of_run toThird
  have three := worked_of_run toFourth
  have counted_second := one.counted counted
  have counted_third := two.counted counted_second
  have counted_fourth := three.counted counted_third
  refine ⟨one.trans (two.trans three), ?_, ?_⟩
  · intro nothing steady
    rw [counted.appends.isIdle_eq, counted_second.reads.isIdle_eq,
      counted_third.overflowReads.isIdle_eq, counted_fourth.subscriptions.isIdle_eq] at nothing
    simp only [Bool.or_eq_false_iff, Bool.not_eq_false', decide_eq_true_eq] at nothing
    obtain ⟨⟨⟨appends, reads⟩, overflowReads⟩, subscriptions⟩ := nothing
    have fewer_reads := run_reads_le steady toThird
    have appends_le := (one.trans (two.trans three)).appends_le
    have reads_le := three.reads_le
    rcases work : after.work with ⟨a, b, c, d⟩
    simp only [work] at appends_le reads_le subscriptions
    rw [Work.none, Work.mk.injEq]
    omega
  · intro something nothing
    rw [counted.appends.isIdle_eq, counted_second.reads.isIdle_eq,
      counted_third.overflowReads.isIdle_eq, counted_fourth.subscriptions.isIdle_eq] at something
    have none_second := one.reads_le
    have none_third := (one.trans two).reads_le
    have none_fourth := (one.trans (two.trans three)).subscriptions_le
    simp only [nothing, Work.none] at something none_second none_third none_fourth
    have reads : second.work.reads = 0 := by omega
    have overflowReads : third.work.overflowReads = 0 := by omega
    have subscriptions : after.work.subscriptions = 0 := by omega
    simp [reads, overflowReads, subscriptions] at something

theorem Counted.dispatch {conn next : Conn} (counted : conn.Counted) {request : Request}
    (taken : conn.dispatch request = some next) : next.Counted := by
  have plain : ∀ other : Conn, some { conn with dispatched := conn.dispatched ++ [request] } =
      some other → other.Counted := by
    rintro _ ⟨⟩
    exact ⟨counted.appends, counted.reads, counted.overflowReads, counted.subscriptions⟩
  cases request with
  | append valid accepted =>
      cases valid with
      | false => exact plain next taken
      | true =>
          simp only [Conn.dispatch] at taken
          split at taken
          · cases taken
          · rename_i appendInflight acquired
            cases accepted with
            | true =>
                cases taken
                exact ⟨counted.appends.acquire acquired, counted.reads, counted.overflowReads,
                  counted.subscriptions⟩
            | false =>
                cases taken
                exact ⟨counted.appends.passed acquired, counted.reads, counted.overflowReads,
                  counted.subscriptions⟩
  | read valid queued =>
      cases valid with
      | false => exact plain next taken
      | true =>
          simp only [Conn.dispatch] at taken
          split at taken
          · rename_i readInflight acquired
            cases queued with
            | true =>
                cases taken
                exact ⟨counted.appends, counted.reads.acquire acquired, counted.overflowReads,
                  counted.subscriptions⟩
            | false =>
                cases taken
                exact ⟨counted.appends, counted.reads.passed acquired, counted.overflowReads,
                  counted.subscriptions⟩
          · split at taken
            · rename_i readOverflow acquired
              cases queued with
              | true =>
                  cases taken
                  exact ⟨counted.appends, counted.reads, counted.overflowReads.acquire acquired,
                    counted.subscriptions⟩
              | false =>
                  cases taken
                  exact ⟨counted.appends, counted.reads, counted.overflowReads.passed acquired,
                    counted.subscriptions⟩
            · exact plain next taken
  | subscribe valid spawned =>
      cases valid with
      | false => exact plain next taken
      | true =>
          simp only [Conn.dispatch] at taken
          split at taken
          · exact plain next taken
          · rename_i subscriptions acquired
            cases spawned with
            | true =>
                cases taken
                exact ⟨counted.appends, counted.reads, counted.overflowReads,
                  counted.subscriptions.acquire acquired⟩
            | false =>
                cases taken
                exact ⟨counted.appends, counted.reads, counted.overflowReads,
                  counted.subscriptions.passed acquired⟩
  | _ => exact plain next taken

theorem dispatch_reader {conn next : Conn} {request : Request}
    (taken : conn.dispatch request = some next) :
    next.established = conn.established ∧ next.lastFrameAt = conn.lastFrameAt ∧
      next.frameStartedAt = conn.frameStartedAt ∧ next.closed = conn.closed ∧
      next.dispatched = conn.dispatched ++ [request] := by
  have plain : ∀ other : Conn, some { conn with dispatched := conn.dispatched ++ [request] } =
      some other → other.established = conn.established ∧ other.lastFrameAt = conn.lastFrameAt ∧
        other.frameStartedAt = conn.frameStartedAt ∧ other.closed = conn.closed ∧
        other.dispatched = conn.dispatched ++ [request] := by
    rintro _ ⟨⟩
    exact ⟨rfl, rfl, rfl, rfl, rfl⟩
  cases request with
  | append valid accepted =>
      cases valid with
      | false => exact plain next taken
      | true =>
          simp only [dispatch] at taken
          split at taken
          · cases taken
          · cases accepted <;> cases taken <;> exact ⟨rfl, rfl, rfl, rfl, rfl⟩
  | read valid queued =>
      cases valid with
      | false => exact plain next taken
      | true =>
          simp only [dispatch] at taken
          split at taken
          · cases queued <;> cases taken <;> exact ⟨rfl, rfl, rfl, rfl, rfl⟩
          · split at taken
            · cases queued <;> cases taken <;> exact ⟨rfl, rfl, rfl, rfl, rfl⟩
            · exact plain next taken
  | subscribe valid spawned =>
      cases valid with
      | false => exact plain next taken
      | true =>
          simp only [dispatch] at taken
          split at taken
          · exact plain next taken
          · cases spawned <;> cases taken <;> exact ⟨rfl, rfl, rfl, rfl, rfl⟩
  | _ => exact plain next taken

/-- The reader's clock and frame behind a complete frame. -/
def framed (conn : Conn) (readings : Readings) : Conn :=
  { conn with lastFrameAt := readings.polled, frameStartedAt := none }

theorem poll_frame {config : Config} {auth : Option (List UInt8 → Bool)} {connStart : Nat}
    {conn next : Conn} {readings : Readings} {request : Request}
    (taken : conn.poll config auth connStart readings (.frame request) = some next) :
    (conn.established = true ∧ (conn.framed readings).dispatch request = some next) ∨
      (conn.established = false ∧ (∃ version, handleHello auth request = .ack version) ∧
        next = { conn.framed readings with
          control := conn.control ++ [handleHello auth request], established := true }) ∨
      (conn.established = false ∧ (∀ version, handleHello auth request ≠ .ack version) ∧
        next = { conn.framed readings with
          control := conn.control ++ [handleHello auth request], closed := some .rejected }) := by
  rw [poll] at taken
  by_cases established : conn.established = true
  · rw [if_pos established] at taken
    exact .inl ⟨established, taken⟩
  · rw [if_neg established] at taken
    have waiting : conn.established = false := by simpa using established
    cases reply : handleHello auth request with
    | ack version =>
        rw [reply] at taken
        exact .inr (.inl ⟨waiting, ⟨version, rfl⟩, (Option.some.inj taken).symm⟩)
    | unauthenticated message =>
        rw [reply] at taken
        exact .inr (.inr ⟨waiting, by simp, (Option.some.inj taken).symm⟩)
    | unsupported version speaks =>
        rw [reply] at taken
        exact .inr (.inr ⟨waiting, by simp, (Option.some.inj taken).symm⟩)

theorem poll_quiet {config : Config} {auth : Option (List UInt8 → Bool)} {connStart : Nat}
    {conn next : Conn} {readings : Readings} {gaps : Gaps}
    (taken : conn.poll config auth connStart readings (.quiet gaps) = some next) :
    next = { conn with closed := some .stopped } ∨
      (conn.breached config connStart readings = none ∧
        next = { conn with frameStartedAt := none }) ∨
      ∃ reason active after, conn.breached config connStart readings = some reason ∧
        Conn.hasActivity { conn with frameStartedAt := none } gaps = some (active, after) ∧
        next = if active then { after with lastFrameAt := readings.refreshed }
          else { after with closed := some (.reaped reason) } := by
  rw [poll] at taken
  by_cases running : conn.running = true
  · rw [if_neg (by simp [running])] at taken
    right
    have same : Conn.breached config connStart readings { conn with frameStartedAt := none } =
        conn.breached config connStart readings := rfl
    cases missed : conn.breached config connStart readings with
    | none =>
        rw [← same] at missed
        simp only [missed] at taken
        exact .inl ⟨rfl, (Option.some.inj taken).symm⟩
    | some reason =>
        rw [← same] at missed
        simp only [missed] at taken
        cases looked : Conn.hasActivity { conn with frameStartedAt := none } gaps with
        | none =>
            rw [looked] at taken
            cases taken
        | some found =>
            obtain ⟨active, after⟩ := found
            rw [looked] at taken
            right
            refine ⟨reason, active, after, rfl, rfl, ?_⟩
            cases active with
            | true => exact (Option.some.inj taken).symm
            | false => exact (Option.some.inj taken).symm
  · rw [if_pos (by simpa using running)] at taken
    exact .inl (Option.some.inj taken).symm

end Conn

end Tephra.Reaping
