import Tephra.AppendBudget

/-!
# The teardown of a connection

When the request loop has ended, `serve_over` marks the connection dead, drops its channel
handles, waits for the workers, and joins the pump and the writer.  A subscription has a thread of
its own.  A read waits in the queue of the read pool, which all connections share, until an idle
worker of the pool takes it, and keeps that worker until it is over; without a permit it waits on
the worker for one.

The reads of other connections end, the coordinator answers the appends, and a write to the socket
succeeds or fails: these are steps that others take.
-/

namespace Tephra.Server

/-- The next step of a worker: a read, or a subscription. -/
inductive WorkerPlace where
  /-- A read in the queue of the pool, with its permit or with an overflow slot. -/
  | queued
  /-- In `acquire_guard_or_cancel`, on a worker of the pool. -/
  | admitting
  /-- Before `should_continue`, or before the end of the log. -/
  | running
  /-- With frames to send before it looks again, or before it returns. -/
  | producing (frames : Nat) (last : Bool)
  /-- Before the cleanup is dropped. -/
  | ending
  /-- Cleaned up, with its handle of the connection. -/
  | leaving
  | gone
deriving DecidableEq

/-- A worker: whether it is a read, which runs on the pool, whether it holds a permit of the
reads, and whether it was cancelled. -/
structure ConnWorker where
  pooled : Bool
  permit : Bool
  cancelled : Bool
  place : WorkerPlace
deriving DecidableEq

/-- The next step of the thread that runs `serve_over`. -/
inductive ServePlace where
  | looping
  /-- Before the connection is marked dead. -/
  | marking
  /-- Before the handles are dropped. -/
  | dropping
  /-- In `workers.wait`, with the lock and before the count is looked at. -/
  | waiting
  /-- Parked in the wait. -/
  | parked
  | joiningPump
  | joiningWriter
  | returned
deriving DecidableEq

/-- A connection as far as its teardown goes, and the read pool. -/
structure Serving where
  controlDepth : Nat
  bulkDepth : Nat
  alive : Bool
  /-- The frames in the lanes. -/
  control : Nat
  bulk : Nat
  readInflight : Semaphore
  readOverflow : Semaphore
  /-- The reads and the subscriptions, in the order in which they came. -/
  jobs : List ConnWorker
  /-- The count of the wait group. -/
  workers : Nat
  /-- The queue of the pool: reads of this connection, by their places, and those of others. -/
  queue : List (Option Nat)
  /-- The workers of the pool that are idle, and those that run the reads of others. -/
  idle : Nat
  elsewhere : Nat
  /-- The appends with the coordinator, and the replies in the channel. -/
  submitted : Nat
  replies : Nat
  pump : PumpPhase
  writer : ConnWriterPhase
  place : ServePlace
deriving DecidableEq

/-- What the request loop does for the teardown to undo. -/
inductive LoopStep where
  | spawnRead
  | spawnSubscribe
  | submit
  | cancel (place : Nat)
  /-- A frame of the request loop itself. -/
  | sendControl
  /-- The request loop ends. -/
  | leave
deriving DecidableEq

/-- What a worker does by itself. -/
inductive WorkerChoice where
  /-- It looks whether to go on, and has frames to send. -/
  | produce (frames : Nat)
  /-- It has come to its end, with a few frames. -/
  | finish (frames : Nat)
  /-- It has sent its frames. -/
  | proceed
  | panic
deriving DecidableEq

inductive ConnWorkerStep where
  | alone (choice : WorkerChoice)
  /-- An idle worker of the pool takes the read from the queue. -/
  | pickUp
  /-- `acquire_guard_or_cancel` finds a permit. -/
  | acquire
  /-- `acquire_guard_or_cancel` finds the cancel flag. -/
  | giveUp
  | send
  | cleanup
  /-- The permit is given back. -/
  | release
  | depart
deriving DecidableEq

inductive PumpStep where
  | receive
  | close
  | send
  | release
  | exit
deriving DecidableEq

inductive WriterStep where
  | writeControl
  | writeBulk
  /-- A write fails. -/
  | fail
  /-- The senders of both lanes are gone; frames may be left in the lanes. -/
  | finish
  /-- The thread goes on behind `drive_writer`. -/
  | proceed
deriving DecidableEq

/-- What other connections and the coordinator do. -/
inductive OthersStep where
  | queueRead
  | pickUp
  | complete
  /-- The coordinator replies to an append. -/
  | reply
deriving DecidableEq

inductive ServingStep where
  | loop (what : LoopStep)
  /-- The teardown goes on. -/
  | teardown
  /-- The wait ends without a notification. -/
  | spurious
  | work (place : Nat) (what : ConnWorkerStep)
  | pump (what : PumpStep)
  | writer (what : WriterStep)
  | others (what : OthersStep)
deriving DecidableEq

namespace ConnWorker

/-- The worker has not cleaned up. -/
def counted (self : ConnWorker) : Bool :=
  match self.place with
  | .leaving | .gone => false
  | _ => true

/-- The worker has no handle of the connection left. -/
def isGone (self : ConnWorker) : Bool :=
  match self.place with
  | .gone => true
  | _ => false

/-- A worker of the pool is with the read. -/
def onPool (self : ConnWorker) : Bool :=
  match self.place with
  | .queued | .gone => false
  | _ => self.pooled

def goTo (self : ConnWorker) (next : WorkerPlace) : ConnWorker :=
  { self with place := next }

@[simp]
theorem goTo_place (self : ConnWorker) (next : WorkerPlace) : (self.goTo next).place = next :=
  rfl

/-- What a worker does that concerns nobody else. -/
def alone (self : ConnWorker) (alive : Bool) : WorkerChoice → Option ConnWorker
  | .produce frames =>
      if self.place = .running ∧ alive ∧ self.cancelled = false then
        some (self.goTo (.producing frames false))
      else none
  | .finish frames =>
      -- a rest and the end of a read, or an error
      if self.place = .running ∧ frames ≤ 2 then some (self.goTo (.producing frames true))
      else none
  | .proceed =>
      match self.place with
      | .producing 0 last => some (self.goTo (if last then .ending else .running))
      | _ => none
  | .panic =>
      match self.place with
      | .running | .producing _ _ => some (self.goTo .ending)
      | _ => none

end ConnWorker

namespace Serving

def start (controlDepth bulkDepth reads poolSize : Nat) : Serving :=
  { controlDepth, bulkDepth
    alive := true
    control := 0
    bulk := 0
    readInflight := Semaphore.new reads
    readOverflow := Semaphore.new reads
    jobs := []
    workers := 0
    queue := []
    idle := max poolSize 1
    elsewhere := 0
    submitted := 0
    replies := 0
    pump := .receiving
    writer := .running
    place := .looping }

/-- The thread has dropped its handles. -/
def dropped (self : Serving) : Bool :=
  match self.place with
  | .looping | .marking | .dropping => false
  | _ => true

/-- The last handle of both lanes was dropped. -/
def disconnected (self : Serving) : Bool :=
  self.dropped && self.pump = .exited && self.jobs.all ConnWorker.isGone

/-- A read joins with what it was admitted with, and is queued. -/
def queueRead (self : Serving) (permit : Bool) : Serving :=
  { self with
    jobs := self.jobs ++ [⟨true, permit, false, .queued⟩]
    workers := self.workers + 1
    queue := self.queue ++ [some self.jobs.length] }

def loop (self : Serving) : LoopStep → Option Serving
  | .spawnRead =>
      match self.readInflight.tryAcquire with
      | some permits => some { self.queueRead true with readInflight := permits }
      | none =>
          match self.readOverflow.tryAcquire with
          | some slots => some { self.queueRead false with readOverflow := slots }
          | none => some self
  | .spawnSubscribe =>
      some { self with
        jobs := self.jobs ++ [⟨false, false, false, .running⟩]
        workers := self.workers + 1 }
  | .submit => some { self with submitted := self.submitted + 1 }
  | .cancel place =>
      self.jobs[place]?.map fun worker =>
        { self with jobs := self.jobs.set place { worker with cancelled := true } }
  | .sendControl =>
      if self.writer ≠ .ended ∧ self.control < self.controlDepth then
        some { self with control := self.control + 1 }
      else none
  | .leave => some { self with place := .marking }

/-- The teardown goes on. -/
def teardown (self : Serving) : Option Serving :=
  match self.place with
  | .looping | .parked | .returned => none
  | .marking => some { self with alive := false, place := .dropping }
  | .dropping => some { self with place := .waiting }
  | .waiting => some { self with place := if 0 < self.workers then .parked else .joiningPump }
  | .joiningPump =>
      if self.pump = .exited then some { self with place := .joiningWriter } else none
  | .joiningWriter =>
      if self.writer = .ended then some { self with place := .returned } else none

/-- `WorkerCleanup` is dropped: the last one wakes the wait. -/
def done (self : Serving) : Serving :=
  { self with
    workers := self.workers - 1
    place := if self.workers - 1 = 0 ∧ self.place = .parked then .waiting else self.place }

/-- A worker goes on. -/
def work (self : Serving) (place : Nat) (worker : ConnWorker) : ConnWorkerStep → Option Serving
  | .alone choice =>
      (worker.alone self.alive choice).map fun moved =>
        { self with jobs := self.jobs.set place moved }
  | .pickUp =>
      if worker.place = .queued ∧ self.queue.head? = some (some place) ∧ self.idle ≠ 0 then
        some { self with
          jobs := self.jobs.set place
            (worker.goTo (if worker.permit then .running else .admitting))
          queue := self.queue.tail
          idle := self.idle - 1 }
      else none
  | .acquire =>
      if worker.place = .admitting ∧ worker.cancelled = false then
        -- the overflow slot is dropped with the permit in hand
        self.readInflight.tryAcquire.map fun permits =>
          { self with
            jobs := self.jobs.set place { worker with permit := true, place := .running }
            readInflight := permits
            readOverflow := self.readOverflow.release }
      else none
  | .giveUp =>
      if worker.place = .admitting ∧ worker.cancelled then
        some { self with
          jobs := self.jobs.set place (worker.goTo .ending)
          readOverflow := self.readOverflow.release }
      else none
  | .send =>
      match worker.place with
      | .producing (frames + 1) last =>
          if self.writer = .ended then
            some { self with jobs := self.jobs.set place (worker.goTo .ending) }
          else if self.bulk < self.bulkDepth then
            some { self with
              jobs := self.jobs.set place (worker.goTo (.producing frames last))
              bulk := self.bulk + 1 }
          else none
      | _ => none
  | .cleanup =>
      if worker.place = .ending then
        some { self.done with jobs := self.jobs.set place (worker.goTo .leaving) }
      else none
  | .release =>
      if (worker.place = .ending ∨ worker.place = .leaving) ∧ worker.permit then
        some { self with
          jobs := self.jobs.set place { worker with permit := false }
          readInflight := self.readInflight.release }
      else none
  | .depart =>
      if worker.place = .leaving ∧ worker.permit = false then
        some { self with
          jobs := self.jobs.set place (worker.goTo .gone)
          idle := self.idle + worker.pooled.toNat }
      else none

def pumpStep (self : Serving) : PumpStep → Option Serving
  | .receive =>
      if self.pump = .receiving ∧ self.replies ≠ 0 then
        some { self with replies := self.replies - 1, pump := .sending }
      else none
  | .close =>
      if self.pump = .receiving ∧ self.replies = 0 ∧ self.submitted = 0 ∧ self.dropped then
        some { self with pump := .exited }
      else none
  | .send =>
      if self.pump = .sending then
        if self.writer = .ended then some { self with pump := .releasing false }
        else if self.control < self.controlDepth then
          some { self with control := self.control + 1, pump := .releasing true }
        else none
      else none
  | .release =>
      match self.pump with
      | .releasing sent => some { self with pump := if sent then .receiving else .leaving }
      | _ => none
  | .exit => if self.pump = .leaving then some { self with pump := .exited } else none

def writerStep (self : Serving) : WriterStep → Option Serving
  | .writeControl =>
      if self.writer = .running ∧ self.control ≠ 0 then
        some { self with control := self.control - 1 }
      else none
  | .writeBulk =>
      if self.writer = .running ∧ self.bulk ≠ 0 then some { self with bulk := self.bulk - 1 }
      else none
  | .fail => if self.writer = .running then some { self with writer := .stopped } else none
  | .finish =>
      if self.writer = .running ∧ self.disconnected then some { self with writer := .stopped }
      else none
  | .proceed =>
      match self.writer with
      | .running | .ended => none
      | .stopped => some { self with alive := false, writer := .marked }
      | .marked => some { self with writer := .shut }
      | .shut => some { self with control := 0, bulk := 0, writer := .ended }

def othersStep (self : Serving) : OthersStep → Option Serving
  | .queueRead => some { self with queue := self.queue ++ [none] }
  | .pickUp =>
      if self.queue.head? = some none ∧ self.idle ≠ 0 then
        some { self with
          queue := self.queue.tail
          idle := self.idle - 1
          elsewhere := self.elsewhere + 1 }
      else none
  | .complete =>
      if self.elsewhere = 0 then none
      else some { self with idle := self.idle + 1, elsewhere := self.elsewhere - 1 }
  | .reply =>
      if self.submitted = 0 then none
      else
        some { self with
          submitted := self.submitted - 1
          replies := if self.pump = .exited then self.replies else self.replies + 1 }

def step (self : Serving) : ServingStep → Option Serving
  | .loop what => if self.place = .looping then self.loop what else none
  | .teardown => self.teardown
  | .spurious => if self.place = .parked then some { self with place := .waiting } else none
  | .work place what => self.jobs[place]?.bind fun worker => self.work place worker what
  | .pump what => self.pumpStep what
  | .writer what => self.writerStep what
  | .others what => self.othersStep what

end Serving

end Tephra.Server
