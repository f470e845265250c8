import Tephra.Histories
import Tephra.Parties
import Tephra.Semaphore

/-!
# The shared read pool

A read takes a permit of its connection when it is admitted, or else an
overflow slot, and then takes its permit on a pool worker.  The queue of the
pool is first in, first out, whatever a read was admitted with.
-/

namespace Tephra.Server

open Histories Parties

/-- What a read was admitted with. -/
inductive Admission
  | permitted
  | overflow
deriving DecidableEq, Repr

/-- A read of a connection, queued onto the pool. -/
structure ReadJob where
  conn : Nat
  admission : Admission
deriving DecidableEq, Repr

/-- The read budgets of a connection, and the read its reader has admitted and
not queued yet. -/
structure ReadBudget where
  readInflight : Semaphore
  readOverflow : Semaphore
  admitted : Option Admission
deriving DecidableEq, Repr

def ReadBudget.new (budget : Nat) : ReadBudget :=
  ⟨Semaphore.new budget, Semaphore.new budget, none⟩

/-- A worker of the pool. -/
inductive PoolWorker
  | idle
  /-- In `acquire_guard_or_cancel`, holding an overflow slot. -/
  | acquiring (conn : Nat)
  /-- In `run_read`, holding a permit. -/
  | running (conn : Nat)
deriving DecidableEq, Repr

/-- The connections, the queue and the workers. -/
structure PoolState where
  budget : Nat
  connections : List ReadBudget
  queue : List ReadJob
  workers : List PoolWorker
deriving DecidableEq, Repr

inductive PoolStep
  | connect
  /-- `spawn_read` takes a permit or a slot, or rejects the read. -/
  | spawnRead (conn : Nat)
  /-- `spawn_read` queues the read it has admitted. -/
  | send (conn : Nat)
  /-- An idle worker takes the first job of the queue. -/
  | pickUp (worker : Nat)
  /-- A worker in `acquire_guard_or_cancel` finds a permit. -/
  | acquire (worker : Nat)
  | complete (worker : Nat)
deriving DecidableEq, Repr

namespace PoolState

/-- `ReadPool::new`, with no connection yet. -/
def start (size budget : Nat) : PoolState :=
  ⟨budget, [], [], List.replicate (max size 1) .idle⟩

/-- What `spawn_read` admits a read with. -/
def spawnRead (connection : ReadBudget) : ReadBudget :=
  match connection.readInflight.tryAcquire with
  | some permit => { connection with readInflight := permit, admitted := some .permitted }
  | none =>
      match connection.readOverflow.tryAcquire with
      | some slot => { connection with readOverflow := slot, admitted := some .overflow }
      | none => connection

/-- The step of a label, if it is enabled. -/
def step (state : PoolState) : PoolStep → Option PoolState
  | .connect =>
      some { state with connections := state.connections ++ [ReadBudget.new state.budget] }
  | .spawnRead conn => do
      let connection ← state.connections[conn]?
      if connection.admitted = none then
        some { state with connections := state.connections.set conn (spawnRead connection) }
      else none
  | .send conn => do
      let connection ← state.connections[conn]?
      let admission ← connection.admitted
      some { state with
        connections := state.connections.set conn { connection with admitted := none }
        queue := state.queue ++ [⟨conn, admission⟩] }
  | .pickUp worker => do
      let job ← state.queue.head?
      let former ← state.workers[worker]?
      if former = .idle then
        some { state with
          queue := state.queue.tail
          workers := state.workers.set worker
            (match job.admission with
              | .permitted => .running job.conn
              | .overflow => .acquiring job.conn) }
      else none
  | .acquire worker =>
      match state.workers[worker]? with
      | some (.acquiring conn) => do
          let connection ← state.connections[conn]?
          let permit ← connection.readInflight.tryAcquire
          -- the overflow slot is dropped with the permit in hand
          some { state with
            connections := state.connections.set conn
              { connection with readInflight := permit
                                readOverflow := connection.readOverflow.release }
            workers := state.workers.set worker (.running conn) }
      | _ => none
  | .complete worker =>
      match state.workers[worker]? with
      | some (.running conn) => do
          let connection ← state.connections[conn]?
          some { state with
            connections := state.connections.set conn
              { connection with readInflight := connection.readInflight.release }
            workers := state.workers.set worker .idle }
      | _ => none

/-- The pool is wedged: every worker waits for a permit of its connection, and all
of the permits of that connection are held by jobs in the queue. -/
def Wedged (state : PoolState) : Prop :=
  ∀ worker ∈ state.workers, ∃ conn connection,
    worker = .acquiring conn ∧ state.connections[conn]? = some connection ∧
      state.queue.count ⟨conn, .permitted⟩ = connection.readInflight.capacity

/-- A read takes a permit at its admission only when no overflow read of its
connection is queued or waits on a worker. -/
def AdmitsInOrder (state : PoolState) : PoolStep → Prop
  | .spawnRead conn =>
      ∀ connection, state.connections[conn]? = some connection →
        connection.readInflight.tryAcquire ≠ none →
        ⟨conn, .overflow⟩ ∉ state.queue ∧ .acquiring conn ∉ state.workers
  | _ => True

/-- An overflow read has no permitted read of its connection behind it. -/
def InLine (ahead behind : ReadJob) : Prop :=
  ahead.conn = behind.conn → ahead.admission = .overflow → behind.admission = .overflow

/-- What holds of one connection: its budget has a permit, and a reader that holds
a permit for its next read has no overflow read ahead. -/
structure Orderly (state : PoolState) (conn : Nat) (connection : ReadBudget) : Prop where
  capacity : 1 ≤ connection.readInflight.capacity
  waits : .acquiring conn ∈ state.workers → connection.admitted ≠ some .permitted
  queued : ⟨conn, .overflow⟩ ∈ state.queue → connection.admitted ≠ some .permitted

/-- The invariant of a pool whose reads are admitted in order. -/
structure InOrder (state : PoolState) : Prop where
  staffed : state.workers ≠ []
  line : state.queue.Pairwise InLine
  waits : ∀ conn, .acquiring conn ∈ state.workers → ⟨conn, .permitted⟩ ∉ state.queue
  each : Each state.Orderly state.connections

theorem InOrder.not_wedged {state : PoolState} (inOrder : state.InOrder) : ¬ state.Wedged := by
  intro wedged
  obtain ⟨worker, member⟩ := List.exists_mem_of_ne_nil _ inOrder.staffed
  obtain ⟨conn, connection, rfl, found, held⟩ := wedged worker member
  have positive := (inOrder.each conn connection found).capacity
  apply inOrder.waits conn member
  apply List.count_pos_iff.mp
  omega

theorem inOrder_start (size budget : Nat) : (start size budget).InOrder := by
  have many : max size 1 ≠ 0 := by omega
  constructor
  case staffed => simp [start, many]
  case line => exact List.Pairwise.nil
  case waits => simp [start]
  case each => exact each_nil _

theorem InOrder.setConnection {state : PoolState} (inOrder : state.InOrder) {conn : Nat}
    {moved : ReadBudget} (own : state.Orderly conn moved) :
    InOrder { state with connections := state.connections.set conn moved } := by
  constructor
  case staffed => exact inOrder.staffed
  case line => exact inOrder.line
  case waits => exact inOrder.waits
  case each =>
    refine inOrder.each.set ?_ ?_
    · exact ⟨own.capacity, own.waits, own.queued⟩
    · intro other connection _ _ there
      exact ⟨there.capacity, there.waits, there.queued⟩

theorem InOrder.spawnRead {state next : PoolState} {conn : Nat} (inOrder : state.InOrder)
    (allowed : state.AdmitsInOrder (.spawnRead conn))
    (taken : state.step (.spawnRead conn) = some next) : next.InOrder := by
  simp only [step, Option.bind_eq_bind, Option.bind_eq_some_iff] at taken
  obtain ⟨connection, found, taken⟩ := taken
  split at taken
  · rename_i nothing
    obtain rfl := Option.some.inj taken
    have here := inOrder.each conn connection found
    apply inOrder.setConnection
    unfold PoolState.spawnRead
    split
    · rename_i permit acquired
      obtain ⟨noneQueued, noneWaits⟩ := allowed connection found (by simp [acquired])
      constructor
      case capacity =>
        rw [(Semaphore.tryAcquire_eq_some acquired).1]
        exact here.capacity
      case waits => intro waits; exact absurd waits noneWaits
      case queued => intro queued; exact absurd queued noneQueued
    · split
      · constructor
        case capacity => exact here.capacity
        all_goals simp
      · exact here
  · simp at taken

theorem InOrder.send {state next : PoolState} {conn : Nat} (inOrder : state.InOrder)
    (taken : state.step (.send conn) = some next) : next.InOrder := by
  simp only [step, Option.bind_eq_bind, Option.bind_eq_some_iff] at taken
  obtain ⟨connection, found, admission, admitted, taken⟩ := taken
  obtain rfl := Option.some.inj taken
  have here := inOrder.each conn connection found
  constructor
  case staffed => exact inOrder.staffed
  case line =>
    apply List.pairwise_append.mpr
    refine ⟨inOrder.line, List.pairwise_singleton _ _, ?_⟩
    intro ahead queued behind last sameConn overflow
    obtain rfl : behind = ⟨conn, admission⟩ := by simpa using last
    have isAhead : ahead = ⟨conn, .overflow⟩ := by
      cases ahead
      simp_all
    subst isAhead
    cases admission with
    | overflow => rfl
    | permitted => exact absurd admitted (here.queued queued)
  case waits =>
    intro other waits queued
    rcases List.mem_append.mp queued with before | last
    · exact inOrder.waits other waits before
    · simp only [List.mem_singleton, ReadJob.mk.injEq] at last
      obtain ⟨rfl, rfl⟩ := last
      exact here.waits waits admitted
  case each =>
    refine inOrder.each.set ?_ ?_
    · constructor
      case capacity => exact here.capacity
      all_goals simp
    · intro other connection' apart _ there
      constructor
      case capacity => exact there.capacity
      case waits => exact there.waits
      case queued =>
        intro queued
        rcases List.mem_append.mp queued with before | last
        · exact there.queued before
        · simp only [List.mem_singleton, ReadJob.mk.injEq] at last
          exact absurd last.1 apart

theorem InOrder.pickUp {state next : PoolState} {worker : Nat} (inOrder : state.InOrder)
    (taken : state.step (.pickUp worker) = some next) : next.InOrder := by
  simp only [step, Option.bind_eq_bind, Option.bind_eq_some_iff] at taken
  obtain ⟨job, first, former, _, taken⟩ := taken
  split at taken
  · obtain rfl := Option.some.inj taken
    obtain ⟨rest, queueIs⟩ : ∃ rest, state.queue = job :: rest := by
      cases queue : state.queue with
      | nil => simp [queue] at first
      | cons head rest =>
          obtain rfl : head = job := by simpa [queue] using first
          exact ⟨rest, rfl⟩
    have line := inOrder.line
    rw [queueIs] at line
    obtain ⟨ahead, line⟩ := List.pairwise_cons.mp line
    have newlyWaits : ∀ conn,
        .acquiring conn ∈ state.workers.set worker (match job.admission with
          | .permitted => .running job.conn
          | .overflow => .acquiring job.conn) →
        .acquiring conn ∈ state.workers ∨ job = ⟨conn, .overflow⟩ := by
      intro conn waits
      rcases List.mem_or_eq_of_mem_set waits with before | now
      · exact Or.inl before
      · right
        obtain ⟨jobConn, admission⟩ := job
        cases admission <;> simp_all
    constructor
    case staffed => simpa using inOrder.staffed
    case line =>
      simp only [queueIs]
      exact line
    case waits =>
      intro conn waits queued
      simp only [queueIs, List.tail_cons] at queued
      rcases newlyWaits conn waits with before | rfl
      · apply inOrder.waits conn before
        rw [queueIs]
        exact List.mem_cons_of_mem _ queued
      · have := ahead _ queued rfl rfl
        simp at this
    case each =>
      refine inOrder.each.imp ?_
      intro conn connection _ there
      constructor
      case capacity => exact there.capacity
      case waits =>
        intro waits
        rcases newlyWaits conn waits with before | rfl
        · exact there.waits before
        · apply there.queued
          rw [queueIs]
          exact List.mem_cons_self
      case queued =>
        intro queued
        apply there.queued
        exact List.mem_of_mem_tail queued
  · simp at taken

theorem InOrder.setWorker {state : PoolState} (inOrder : state.InOrder) {worker : Nat}
    {moved : PoolWorker} (notWaiting : ∀ conn, moved ≠ .acquiring conn) :
    InOrder { state with workers := state.workers.set worker moved } := by
  have before : ∀ conn, .acquiring conn ∈ state.workers.set worker moved →
      .acquiring conn ∈ state.workers := by
    intro conn waits
    rcases List.mem_or_eq_of_mem_set waits with before | now
    · exact before
    · exact absurd now.symm (notWaiting conn)
  constructor
  case staffed => simpa using inOrder.staffed
  case line => exact inOrder.line
  case waits => intro conn waits; exact inOrder.waits conn (before conn waits)
  case each =>
    refine inOrder.each.imp ?_
    intro conn connection _ there
    constructor
    case capacity => exact there.capacity
    case waits => intro waits; exact there.waits (before conn waits)
    case queued => exact there.queued

theorem InOrder.step {state next : PoolState} {label : PoolStep} (inOrder : state.InOrder)
    (allowed : state.AdmitsInOrder label) (taken : state.step label = some next) :
    next.InOrder := by
  cases label with
  | connect =>
      obtain rfl := Option.some.inj taken
      constructor
      case staffed => exact inOrder.staffed
      case line => exact inOrder.line
      case waits => exact inOrder.waits
      case each =>
        refine inOrder.each.snoc ?_ ?_
        · constructor
          case capacity => exact Semaphore.one_le_capacity_new state.budget
          all_goals simp [ReadBudget.new]
        · intro conn connection _ there
          exact ⟨there.capacity, there.waits, there.queued⟩
  | spawnRead conn => exact inOrder.spawnRead allowed taken
  | send conn => exact inOrder.send taken
  | pickUp worker => exact inOrder.pickUp taken
  | acquire worker =>
      simp only [PoolState.step] at taken
      split at taken
      · rename_i conn _
        simp only [Option.bind_eq_bind, Option.bind_eq_some_iff] at taken
        obtain ⟨connection, found, permit, acquired, taken⟩ := taken
        obtain rfl := Option.some.inj taken
        have here := inOrder.each conn connection found
        apply InOrder.setWorker (inOrder.setConnection ?_)
        · simp
        · constructor
          case capacity =>
            rw [(Semaphore.tryAcquire_eq_some acquired).1]
            exact here.capacity
          case waits => exact here.waits
          case queued => exact here.queued
      · simp at taken
  | complete worker =>
      simp only [PoolState.step] at taken
      split at taken
      · rename_i conn _
        simp only [Option.bind_eq_bind, Option.bind_eq_some_iff] at taken
        obtain ⟨connection, found, taken⟩ := taken
        obtain rfl := Option.some.inj taken
        have here := inOrder.each conn connection found
        apply InOrder.setWorker (inOrder.setConnection ?_)
        · simp
        · exact ⟨here.capacity, here.waits, here.queued⟩
      · simp at taken

/-- A pool whose reads are admitted in order is never wedged. -/
theorem never_wedged (size budget : Nat) (labels : List PoolStep) (state : PoolState)
    (meets : Allowed step AdmitsInOrder (start size budget) labels)
    (reached : run step (start size budget) labels = some state) : ¬ state.Wedged := by
  apply InOrder.not_wedged
  apply invariant_of_run _ (inOrder_start size budget) meets reached
  intro before label after inOrder allowed taken
  exact inOrder.step allowed taken

/-- One worker and a budget of one read: an overflow read runs behind a permitted one. -/
theorem never_wedged_overflow :
    ¬ Wedged ⟨1, [⟨⟨0, 1⟩, ⟨1, 1⟩, none⟩], [], [.running 0]⟩ := by
  refine never_wedged 1 1 [.connect, .spawnRead 0, .send 0, .spawnRead 0, .send 0, .pickUp 0,
    .complete 0, .pickUp 0, .acquire 0] _ ?_ rfl
  refine Allowed.cons trivial rfl (Allowed.cons ?_ rfl (Allowed.cons trivial rfl
    (Allowed.cons ?_ rfl (Allowed.cons trivial rfl (Allowed.cons trivial rfl
      (Allowed.cons trivial rfl (Allowed.cons trivial rfl (Allowed.cons trivial rfl trivial))))))))
  · intro connection _ _
    exact ⟨by decide, by decide⟩
  · intro connection found free
    obtain rfl : ReadBudget.mk ⟨0, 1⟩ ⟨1, 1⟩ none = connection := Option.some.inj found
    exact absurd rfl free

/-- One worker and a budget of one read: the second read is queued as overflow, the
first one completes, and the third takes its permit behind the second. -/
theorem one_worker_wedges :
    ∃ labels state, run step (start 1 1) labels = some state ∧ state.Wedged := by
  refine ⟨[.connect, .spawnRead 0, .send 0, .pickUp 0, .spawnRead 0, .send 0, .complete 0,
    .spawnRead 0, .send 0, .pickUp 0],
    ⟨1, [⟨⟨0, 1⟩, ⟨0, 1⟩, none⟩], [⟨0, .permitted⟩], [.acquiring 0]⟩, by decide, ?_⟩
  intro worker member
  obtain rfl : worker = .acquiring 0 := by simpa using member
  exact ⟨0, ⟨⟨0, 1⟩, ⟨0, 1⟩, none⟩, rfl, rfl, by decide⟩

end PoolState

end Tephra.Server
